import QCBridge.Ring1.Protocol

/-!
# The shadow

`ring1/shadow.py`: the last snapshot the host took of each datablock, which is
what it believes the replica shows. A diff against it is what a delta carries,
and taking the diff moves it.

Values are compared with Python's `==`, which a NaN does not even hold for itself.
-/

namespace QCBridge

variable {V : Type}

/-- `ShadowStore`. -/
structure ShadowStore (V : Type) where
  shadows : Dict Uuid (Dict Path V) := Dict.empty
deriving DecidableEq

/-- What `diff_and_update` returns when there is a shadow. -/
structure Diff (V : Type) where
  changes : List (Path × V)
  structural : Bool
deriving DecidableEq

section Diff

variable [BEq V]

/-- `shadow.get(path, _MISSING) != value`. -/
def differs (shadow : Dict Path V) (c : Path × V) : Bool :=
  match shadow.get? c.1 with
  | none => true
  | some old => old != c.2

/-- The paths of a snapshot whose value is not the shadow's. -/
def changedPaths (shadow snapshot : Dict Path V) : List (Path × V) :=
  snapshot.entries.filter (differs shadow)

/-- Whether two snapshots have the same paths. -/
def samePaths (shadow snapshot : Dict Path V) : Bool :=
  shadow.keys.all (· ∈ snapshot.keys) && snapshot.keys.all (· ∈ shadow.keys)

/-- The diff of a snapshot against a shadow. -/
def diffOf (shadow snapshot : Dict Path V) : Diff V where
  -- a signature (`~`) cannot be written on the other side
  changes := (changedPaths shadow snapshot).filter fun c => !c.1.isSignature
  structural := !samePaths shadow snapshot ||
    (changedPaths shadow snapshot).any fun c => c.1.isSignature

end Diff

namespace ShadowStore

/-- `get`. -/
def get? (s : ShadowStore V) (uuid : Uuid) : Option (Dict Path V) := s.shadows.get? uuid

/-- `diff_and_update`. `none` is the first contact. -/
def diffAndUpdate [BEq V] (s : ShadowStore V) (uuid : Uuid) (snapshot : Dict Path V) :
    ShadowStore V × Option (Diff V) :=
  -- the shadow moves at once, before anyone knows whether the delta leaves
  (⟨s.shadows.insert uuid snapshot⟩, (s.get? uuid).map (diffOf · snapshot))

/-- `restore`. -/
def restore (s : ShadowStore V) (uuid : Uuid) : Option (Dict Path V) → ShadowStore V
  -- there was no shadow before
  | none => ⟨s.shadows.erase uuid⟩
  | some old => ⟨s.shadows.insert uuid old⟩

/-- `forget`. -/
def forget (s : ShadowStore V) (uuid : Uuid) : ShadowStore V := ⟨s.shadows.erase uuid⟩

theorem get?_diffAndUpdate [BEq V] (s : ShadowStore V) (u u' : Uuid)
    (snapshot : Dict Path V) :
    (s.diffAndUpdate u snapshot).1.get? u' = if u = u' then some snapshot else s.get? u' :=
  Dict.get?_insert ..

private theorem get?_restore (s : ShadowStore V) (u u' : Uuid) (old : Option (Dict Path V)) :
    (s.restore u old).get? u' = if u = u' then old else s.get? u' := by
  cases old with
  | none => exact Dict.get?_erase ..
  | some old => exact Dict.get?_insert ..

/-- Putting back what was there before a diff undoes the diff. -/
theorem get?_restore_diffAndUpdate [BEq V] (s : ShadowStore V) (u u' : Uuid)
    (snapshot : Dict Path V) :
    ((s.diffAndUpdate u snapshot).1.restore u (s.get? u)).get? u' = s.get? u' := by
  rw [get?_restore, get?_diffAndUpdate]
  split
  · rename_i hu
    rw [hu]
  · rfl

end ShadowStore

/-! ## What a diff says -/

section Diff

variable [BEq V] {shadow snapshot : Dict Path V}

/-- A change of the diff is a value of the snapshot that the shadow did not have. -/
theorem mem_diffOf_changes {p : Path} {v : V} :
    (p, v) ∈ (diffOf shadow snapshot).changes ↔
      snapshot.get? p = some v ∧ differs shadow (p, v) = true ∧ p.isSignature = false := by
  simp only [diffOf, changedPaths, List.mem_filter, Dict.mem_entries_iff, Bool.not_eq_true']
  exact and_assoc

/-- Without a structural difference the paths are the same. -/
theorem get?_isSome_of_not_structural (h : (diffOf shadow snapshot).structural = false) (p : Path) :
    (shadow.get? p).isSome = (snapshot.get? p).isSome := by
  simp only [diffOf, Bool.or_eq_false_iff, Bool.not_eq_false', samePaths, Bool.and_eq_true,
    List.all_eq_true, decide_eq_true_eq] at h
  obtain ⟨⟨hout, hin⟩, -⟩ := h
  rw [Bool.eq_iff_iff, Option.isSome_iff_exists, Option.isSome_iff_exists,
    ← Dict.mem_keys_iff, ← Dict.mem_keys_iff]
  exact ⟨hout p, hin p⟩

end Diff

end QCBridge
