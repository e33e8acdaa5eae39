import QCBridge.Ring0.Replica

/-!
# A scene keyed by stamp

The simplest Blender there is: every datablock is its stamp and the values of its
paths, a blob is the datablocks it carries with their content, and applying it
replaces each of them. A freshly loaded datablock has none of the `"@"` values,
which no blob carries.
-/

namespace QCBridge

variable {V δ : Type}

/-- The values of a datablock's paths. -/
abbrev Content (V : Type) := Path → Option V

/-- The datablocks by stamp. -/
abbrev Scene (V : Type) := Uuid → Option (Content V)

/-- One datablock of a serialized file: its stamp and the values of its paths. -/
abbrev Entry (V : Type) := Uuid × Dict Path V

/-- What a loaded datablock holds: what the blob says of every path but the `"@"` ones. -/
def Entry.loaded (e : Entry V) : Content V := fun p => if p.isSetter then none else e.2.get? p

namespace Scene

/-- Whether a datablock has the stamp. -/
def live (s : Scene V) (u : Uuid) : Bool := (s u).isSome

/-- Write one path. -/
def write (s : Scene V) (u : Uuid) (p : Path) (v : V) : Scene V := fun u' =>
  if u' = u then (s u).map fun c p' => if p' = p then some v else c p' else s u'

/-- Remove one datablock. -/
def remove (s : Scene V) (u : Uuid) : Scene V := fun u' => if u' = u then none else s u'

/-- Replace one datablock by what a blob carries. -/
def replace (s : Scene V) (e : Entry V) : Scene V := fun u' =>
  if u' = e.1 then some e.loaded else s u'

/-- Replace everything a blob carries. -/
def load (s : Scene V) (blob : List (Entry V)) : Scene V := blob.foldl replace s

/-- The scene of a whole file, `"@"` values included. -/
def ofFile (file : List (Entry V)) : Scene V :=
  file.foldl (fun s e u' => if u' = e.1 then some e.2.get? else s u') fun _ => none

/-- The datablocks a blob carries. -/
def carried (blob : List (Entry V)) : List Uuid := blob.map Prod.fst

@[simp] theorem live_write (s : Scene V) (u : Uuid) (p : Path) (v : V) (u' : Uuid) :
    (s.write u p v).live u' = s.live u' := by
  simp only [live, write]
  split
  · rename_i h
    rw [h, Option.isSome_map]
  · rfl

/-- What a datablock shows after a write. -/
theorem write_some {s : Scene V} {u u' : Uuid} {p : Path} {v : V} {c : Content V}
    (h : s.write u p v u' = some c) :
    ∃ c₀, s u' = some c₀ ∧ ∀ p', c p' = if u' = u ∧ p' = p then some v else c₀ p' := by
  simp only [write] at h
  split at h
  · rename_i hu
    obtain ⟨c₀, hc₀, rfl⟩ := Option.map_eq_some_iff.mp h
    exact ⟨c₀, hu ▸ hc₀, fun p' => by simp [hu]⟩
  · rename_i hu
    exact ⟨c, h, fun p' => by simp [hu]⟩

theorem live_remove (s : Scene V) (u u' : Uuid) :
    (s.remove u).live u' = if u' = u then false else s.live u' := by
  simp only [live, remove]
  split <;> rfl

theorem load_of_not_carried (s : Scene V) {blob : List (Entry V)} {u : Uuid}
    (h : u ∉ carried blob) : s.load blob u = s u := by
  induction blob generalizing s with
  | nil => rfl
  | cons e blob ih =>
    simp only [carried, List.map_cons, List.mem_cons, not_or] at h
    rw [load, List.foldl_cons]
    refine (ih (s.replace e) h.2).trans ?_
    rw [replace, if_neg h.1]

/-- A carried datablock is the last entry the blob has for it. -/
private theorem load_of_carried (s : Scene V) {blob : List (Entry V)} {u : Uuid}
    (h : u ∈ carried blob) :
    ∃ e ∈ blob, e.1 = u ∧ s.load blob u = some e.loaded := by
  induction blob generalizing s with
  | nil => simp [carried] at h
  | cons e blob ih =>
    by_cases hrest : u ∈ carried blob
    · obtain ⟨e', he', hu, hload⟩ := ih (s.replace e) hrest
      exact ⟨e', List.mem_cons_of_mem _ he', hu, hload⟩
    · have heq : u = e.1 := (List.mem_cons.mp h).resolve_right hrest
      refine ⟨e, List.mem_cons_self .., heq.symm, ?_⟩
      rw [load, List.foldl_cons]
      refine (load_of_not_carried (s.replace e) hrest).trans ?_
      rw [replace, if_pos heq]

theorem live_load (s : Scene V) (blob : List (Entry V)) (u : Uuid) :
    (s.load blob).live u = (s.live u || decide (u ∈ carried blob)) := by
  by_cases h : u ∈ carried blob
  · obtain ⟨e, -, -, hload⟩ := s.load_of_carried h
    simp [live, hload, h]
  · simp [live, s.load_of_not_carried h, h]

end Scene

/-- The keyed Blender. Links and library files bring no datablock of the host's. -/
def Blender.keyed (V δ : Type) : Blender (Entry V) V δ (Scene V) where
  resolves s u := s.live u
  writeRna s u p v := if s.live u then some (s.write u p v) else none
  remove s u := some (s.remove u)
  applyBlob s blob := some (s.load blob, 0)
  openMainfile _ file := some (Scene.ofFile file, 0)
  applyLink s _ := s
  applyLibfile s _ _ := s

end QCBridge
