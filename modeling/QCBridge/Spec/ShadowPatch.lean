import QCBridge.Ring1.Shadow
import QCBridge.ForStd.Packed

/-!
# A diff is a patch

The changes of a diff are written over what the peer holds. Unless the diff is structural, that
makes the new snapshot of the old one. The shadow moves with every diff and is put back when
the send is refused, so at any time it is what the accepted diffs made of the first snapshot.

Values are compared with Python's `==`, and the order of the paths does not count. A value that
is not equal to itself is in every diff, and is sent again though nothing changed.

## Key results

- `diffOf_structural_iff`, `patch_same`, `changes_eq_nil_iff`: one diff
- `ShadowStore.peer_holds_shadow`: any diffs, accepted or refused
- `ShadowStore.shadow_patch`: the two together
-/

namespace QCBridge

variable {V : Type} [BEq V] {d old new : Dict Path V} {changes : List (Path × V)} {p : Path} {v : V}

/-- `old == new`: the same paths with values that are equal. -/
def EqualValues (d d' : Dict Path V) : Prop :=
  ∀ p, Option.Rel (fun v v' => (v == v') = true) (d.get? p) (d'.get? p)

/-- The same paths, with the very same values or equal ones. -/
def SameValues (d d' : Dict Path V) : Prop :=
  ∀ p, Option.Rel (fun v v' => v = v' ∨ (v == v') = true) (d.get? p) (d'.get? p)

/-- Changes written over a snapshot. -/
def applyChanges (d : Dict Path V) (changes : List (Path × V)) : Dict Path V :=
  changes.foldl (fun d c => d.insert c.1 c.2) d

theorem SameValues.refl (d : Dict Path V) : SameValues d d := by
  intro p
  cases d.get? p with
  | none => exact .none
  | some v => exact .some (.inl rfl)

theorem SameValues.trans [PartialEquivBEq V] {other : Dict Path V} (h : SameValues old new)
    (h' : SameValues new other) : SameValues old other := by
  intro p
  have hp := h p
  have hp' := h' p
  revert hp hp'
  cases old.get? p <;> cases new.get? p <;> cases other.get? p <;> intro hp hp' <;> cases hp <;>
    cases hp'
  · exact .none
  · rename_i hold hnew
    refine .some ?_
    rcases hold with rfl | hold
    · exact hnew
    · rcases hnew with rfl | hnew
      · exact .inr hold
      · exact .inr (PartialEquivBEq.trans hold hnew)

omit [BEq V] in
private theorem get?_applyChanges_of_not_mem (h : p ∉ changes.map Prod.fst) :
    (applyChanges d changes).get? p = d.get? p := by
  induction changes generalizing d with
  | nil => rfl
  | cons c changes ih =>
    rw [List.map_cons, List.mem_cons, not_or] at h
    have hrest : (applyChanges d (c :: changes)).get? p = (d.insert c.1 c.2).get? p := ih h.2
    rw [hrest, Dict.get?_insert_of_ne _ _ (Ne.symm h.1)]

omit [BEq V] in
private theorem get?_applyChanges_of_mem (hnodup : (changes.map Prod.fst).Nodup)
    (h : (p, v) ∈ changes) :
    (applyChanges d changes).get? p = some v := by
  induction changes generalizing d with
  | nil => cases h
  | cons c changes ih =>
    rw [List.map_cons, List.nodup_cons] at hnodup
    rcases List.mem_cons.mp h with rfl | hrest
    · -- the path is not written again
      have hkept : (applyChanges d ((p, v) :: changes)).get? p = (d.insert p v).get? p :=
        get?_applyChanges_of_not_mem hnodup.1
      rw [hkept, Dict.get?_insert_self]
    · exact ih hnodup.2 hrest

/-- The same snapshot, patched alike. -/
private theorem SameValues.applyChanges (h : SameValues old new) (changes : List (Path × V)) :
    SameValues (applyChanges old changes) (applyChanges new changes) := by
  induction changes generalizing old new with
  | nil => exact h
  | cons c changes ih =>
    apply ih
    intro p
    rw [Dict.get?_insert, Dict.get?_insert]
    split
    · exact .some (.inl rfl)
    · exact h p

/-! ## One diff -/

omit [BEq V] in
private theorem samePaths_iff : samePaths old new = true ↔
    ∀ p, (old.get? p).isSome = (new.get? p).isSome := by
  unfold samePaths
  simp only [Bool.and_eq_true, List.all_eq_true, decide_eq_true_eq, Dict.mem_keys_iff]
  constructor
  · rintro ⟨hout, hin⟩ p
    rw [Bool.eq_iff_iff, Option.isSome_iff_exists, Option.isSome_iff_exists]
    exact ⟨hout p, hin p⟩
  · intro h
    simp only [← Option.isSome_iff_exists]
    exact ⟨fun p hp => h p ▸ hp, fun p hp => (h p).symm ▸ hp⟩

/-- Where the shadow has a value, it is another one. -/
private theorem differs_of_some {shadow : Dict Path V} {w : V} (h : shadow.get? p = some w) :
    differs shadow (p, v) = (w != v) := by
  unfold differs
  rw [h]

/-- A diff is structural if the paths differ, or a signature does. -/
theorem diffOf_structural_iff : (diffOf old new).structural = true ↔
    (∃ p, (old.get? p).isSome ≠ (new.get? p).isSome) ∨
      ∃ p v v', p.isSignature ∧ old.get? p = some v ∧ new.get? p = some v' ∧ (v != v') := by
  unfold diffOf
  simp only [Bool.or_eq_true, Bool.not_eq_true', ← Bool.not_eq_true, samePaths_iff, not_forall]
  by_cases hpaths : ∃ p, (old.get? p).isSome ≠ (new.get? p).isSome
  · exact iff_of_true (.inl hpaths) (.inl hpaths)
  · -- the paths are the same, so a signature that differs is there in both snapshots
    refine or_congr_right ?_
    simp only [List.any_eq_true, changedPaths, List.mem_filter, Prod.exists, Dict.mem_entries_iff]
    constructor
    · rintro ⟨p, v', ⟨hnew, hne⟩, hsig⟩
      have hsame := not_exists.mp hpaths p
      rw [not_not, hnew, Option.isSome_some, Option.isSome_iff_exists] at hsame
      obtain ⟨v, hold⟩ := hsame
      exact ⟨p, v, v', hsig, hold, hnew, by rwa [differs_of_some hold] at hne⟩
    · rintro ⟨p, v, v', hsig, hold, hnew, hne⟩
      exact ⟨p, v', ⟨hnew, by rwa [differs_of_some hold]⟩, hsig⟩

private theorem nodup_changes : ((diffOf old new).changes.map Prod.fst).Nodup := by
  unfold diffOf changedPaths
  exact new.nodup.sublist ((List.filter_sublist.trans List.filter_sublist).map _)

/-- Where a diff that is not structural has no change, both have an equal value or none. -/
private theorem equal_of_not_mem (h : (diffOf old new).structural = false)
    (hmem : p ∉ (diffOf old new).changes.map Prod.fst) :
    Option.Rel (fun v v' => (v == v') = true) (old.get? p) (new.get? p) := by
  have hsome := get?_isSome_of_not_structural h p
  have hnot := mt diffOf_structural_iff.mpr (by rw [h]; simp)
  rw [not_or, not_exists, not_exists] at hnot
  cases hnew : new.get? p with
  | none =>
    rw [hnew, Option.isSome_none, Option.isSome_eq_false_iff, Option.isNone_iff_eq_none] at hsome
    rw [hsome]
    exact .none
  | some v' =>
    rw [hnew, Option.isSome_some, Option.isSome_iff_exists] at hsome
    obtain ⟨v, hold⟩ := hsome
    rw [hold]
    refine .some ?_
    by_contra hne
    have hdiffers : differs old (p, v') = true := by
      rw [differs_of_some hold]
      simpa [bne] using hne
    apply hmem
    -- a signature cannot differ in a plain diff
    have hplain : p.isSignature = false := by
      by_contra hsig
      refine hnot.2 p ⟨v, v', by simpa using hsig, hold, hnew, ?_⟩
      rwa [differs_of_some hold] at hdiffers
    exact List.mem_map_of_mem (mem_diffOf_changes.mpr ⟨hnew, hdiffers, hplain⟩)

/-- The changes of a diff that is not structural make the new snapshot of the old one. -/
theorem patch_same (h : (diffOf old new).structural = false) :
    SameValues (applyChanges old (diffOf old new).changes) new := by
  intro p
  by_cases hmem : p ∈ (diffOf old new).changes.map Prod.fst
  · obtain ⟨⟨p', v⟩, hchange, rfl⟩ := List.mem_map.mp hmem
    rw [get?_applyChanges_of_mem nodup_changes hchange, (mem_diffOf_changes.mp hchange).1]
    exact .some (.inl rfl)
  · rw [get?_applyChanges_of_not_mem hmem]
    have hequal := equal_of_not_mem h hmem
    revert hequal
    cases old.get? p <;> cases new.get? p <;> intro hequal <;> cases hequal
    · exact .none
    · rename_i heq
      exact .some (.inr heq)

/-- They are empty if and only if there was nothing to patch. -/
theorem changes_eq_nil_iff (h : (diffOf old new).structural = false) :
    (diffOf old new).changes = [] ↔ EqualValues old new := by
  constructor
  · intro hnil p
    exact equal_of_not_mem h (by rw [hnil]; exact List.not_mem_nil)
  · intro hequal
    rw [List.eq_nil_iff_forall_not_mem]
    rintro ⟨p, v⟩ hmem
    obtain ⟨hnew, hne, -⟩ := mem_diffOf_changes.mp hmem
    have hp := hequal p
    rw [hnew] at hp
    cases hold : old.get? p with
    | none => rw [hold] at hp; cases hp
    | some w =>
      rw [hold] at hp
      rw [differs_of_some hold] at hne
      cases hp with
      | some heq => simp [bne, heq] at hne

/-! ## Many diffs -/

/-- A diff the host takes: the datablock, its snapshot, and whether the send is accepted. -/
structure ShadowTurn (V : Type) where
  uuid : Uuid
  snapshot : Dict Path V
  accepted : Bool

/-- What an accepted diff makes of a snapshot: nothing was there, and the first one is all; a
    structural diff sends the whole snapshot, and any other its changes. -/
def patched (held : Option (Dict Path V)) (snapshot : Dict Path V) :
    Option (Diff V) → Option (Dict Path V)
  | none => some snapshot
  | some diff => if diff.structural then some snapshot else held.map (applyChanges · diff.changes)

namespace ShadowStore

variable {s : ShadowStore V} {held : Uuid → Option (Dict Path V)}

/-- The shadow moves with the diff, and a refused one is followed by `restore` with what `get`
    returned before. -/
def turn (s : ShadowStore V) (t : ShadowTurn V) : ShadowStore V :=
  let taken := (s.diffAndUpdate t.uuid t.snapshot).1
  if t.accepted then taken else taken.restore t.uuid (s.get? t.uuid)

/-- What the accepted diffs have made, datablock by datablock. -/
def receive (s : ShadowStore V) (held : Uuid → Option (Dict Path V)) (t : ShadowTurn V) :
    Uuid → Option (Dict Path V) :=
  if t.accepted then
    Function.update held t.uuid
      (patched (held t.uuid) t.snapshot (s.diffAndUpdate t.uuid t.snapshot).2)
  else held

/-- The store, and what the accepted diffs have made, after some diffs. -/
def turns (s : ShadowStore V) (held : Uuid → Option (Dict Path V)) :
    List (ShadowTurn V) → ShadowStore V × (Uuid → Option (Dict Path V))
  | [] => (s, held)
  | t :: ts => turns (s.turn t) (s.receive held t) ts

/-- The peer holds what the shadow says. -/
def HeldIs (s : ShadowStore V) (held : Uuid → Option (Dict Path V)) : Prop :=
  ∀ u, Option.Rel SameValues (held u) (s.get? u)

theorem HeldIs.turn [PartialEquivBEq V] (h : s.HeldIs held) (t : ShadowTurn V) :
    (s.turn t).HeldIs (s.receive held t) := by
  intro u
  unfold ShadowStore.turn receive
  -- a refused diff leaves both sides as they were
  by_cases haccepted : t.accepted
  · simp only [haccepted, if_true]
    rw [get?_diffAndUpdate]
    by_cases hu : t.uuid = u
    · subst hu
      rw [Function.update_self, if_pos rfl]
      unfold diffAndUpdate
      have hu := h t.uuid
      cases hold : s.get? t.uuid with
      -- first contact
      | none => exact .some (SameValues.refl _)
      | some old =>
        rw [hold] at hu
        -- the peer holds the old snapshot, so the changes make the new one of it
        cases hheld : held t.uuid with
        | none => rw [hheld] at hu; cases hu
        | some shown =>
          rw [hheld] at hu
          cases hu with
          | some hsame =>
            simp only [Option.map_some, patched]
            split
            next => exact .some (SameValues.refl _)
            next hplain =>
              have hpatch := patch_same (by simpa using hplain)
              exact .some ((hsame.applyChanges _).trans hpatch)
    · rw [Function.update_of_ne (Ne.symm hu), if_neg hu]
      exact h u
  · simp only [haccepted, Bool.false_eq_true, if_false]
    rw [get?_restore_diffAndUpdate]
    exact h u

/-- Any diffs, any of them refused. -/
theorem peer_holds_shadow [PartialEquivBEq V] (h : s.HeldIs held) (ts : List (ShadowTurn V)) :
    (turns s held ts).1.HeldIs (turns s held ts).2 := by
  induction ts generalizing s held with
  | nil => exact h
  | cons t ts ih => exact ih (h.turn t)

/-- A diff of a known datablock is structural if and only if the paths differ or the value of a
    signature does; if it is not, its changes make the new snapshot of the old one, and are
    empty if and only if the two are equal. And after any diffs, each refused one followed
    by `restore`, what the accepted ones made of the first snapshot is the shadow. -/
theorem shadow_patch [PartialEquivBEq V] (s : ShadowStore V) :
    (∀ uuid old new, s.get? uuid = some old →
      ∃ diff, (s.diffAndUpdate uuid new).2 = some diff ∧
        (diff.structural = true ↔
          (∃ p, (old.get? p).isSome ≠ (new.get? p).isSome) ∨
            ∃ p v v', p.isSignature ∧ old.get? p = some v ∧ new.get? p = some v' ∧ (v != v')) ∧
        (diff.structural = false →
          SameValues (applyChanges old diff.changes) new ∧
            (diff.changes = [] ↔ EqualValues old new))) ∧
      ∀ (ts : List (ShadowTurn V)) (u : Uuid),
        Option.Rel SameValues ((turns {} (fun _ => none) ts).2 u)
          ((turns {} (fun _ => none) ts).1.get? u) := by
  constructor
  · intro uuid old new hold
    refine ⟨diffOf old new, ?_, diffOf_structural_iff,
      fun h => ⟨patch_same h, changes_eq_nil_iff h⟩⟩
    unfold diffAndUpdate
    rw [hold]
    rfl
  · exact fun ts => peer_holds_shadow (fun u => .none) ts

/-- A float of Python. -/
structure PyFloat where
  number : Binary64

instance : BEq PyFloat := ⟨fun x y => decide (x.number.Equal y.number)⟩

instance : PartialEquivBEq PyFloat where
  symm {x y} h := by
    obtain ⟨hx, hy, hxy⟩ := of_decide_eq_true h
    exact decide_eq_true ⟨hy, hx, hxy.imp Eq.symm And.symm⟩
  trans {x y z} h h' := by
    obtain ⟨hx, -, hxy⟩ := of_decide_eq_true h
    obtain ⟨-, hz, hyz⟩ := of_decide_eq_true h'
    refine decide_eq_true ⟨hx, hz, ?_⟩
    rcases hxy with hxy | ⟨hx0, hy0⟩
    · exact hxy ▸ hyz
    · rcases hyz with hyz | ⟨-, hz0⟩
      · exact .inr ⟨hx0, hyz ▸ hy0⟩
      · exact .inr ⟨hx0, hz0⟩

/-- A snapshot of a camera. -/
def lens (number : Binary64) : Dict Path PyFloat := Dict.empty.insert (.rna "lens") ⟨number⟩

/-- Lenses of 50.0 and of 35.0. -/
def wide : Dict Path PyFloat := lens (.ofBits (0x4049 * 2 ^ 48))

def wider : Dict Path PyFloat := lens (.ofBits (0x40418 * 2 ^ 44))

/-- The lens of 50 becomes the one of 35, and the peer's does too. -/
theorem shadow_patch_lens :
    ∃ diff, ((ShadowStore.mk (Dict.empty.insert "camera" wide)).diffAndUpdate "camera" wider).2 =
        some diff ∧
      diff.structural = false ∧ SameValues (applyChanges wide diff.changes) wider := by
  obtain ⟨diff, hdiff, -, hplain⟩ :=
    (shadow_patch (ShadowStore.mk (Dict.empty.insert "camera" wide))).1 "camera" wide wider
      (Dict.get?_insert_self ..)
  have hstructural : diff.structural = false := by
    have hthe : diffOf wide wider = diff := Option.some.inj hdiff
    rw [← hthe]
    decide
  exact ⟨diff, hdiff, hstructural, (hplain hstructural).1⟩

/-- A lens that is no number is a change though nothing changed. -/
theorem shadow_patch_counterexample :
    ¬ ∀ (s : ShadowStore PyFloat) (uuid : Uuid) (d : Dict Path PyFloat), s.get? uuid = some d →
      ∃ diff, (s.diffAndUpdate uuid d).2 = some diff ∧
        (diff.structural = false → diff.changes = []) := by
  intro hall
  have hget : (ShadowStore.mk (Dict.empty.insert "camera" (lens (.ofBits (4095 * 2 ^ 51))))).get?
      "camera" = some (lens (.ofBits (4095 * 2 ^ 51))) := Dict.get?_insert_self ..
  obtain ⟨diff, hdiff, hempty⟩ := hall _ _ _ hget
  unfold diffAndUpdate at hdiff
  rw [hget, Option.map_some, Option.some.injEq] at hdiff
  subst hdiff
  exact absurd (congrArg List.isEmpty (hempty (by decide))) (by decide)

end ShadowStore

end QCBridge
