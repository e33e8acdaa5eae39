import QCBridge.ForStd.Inverse
import QCBridge.Ring1.Registry

/-!
# One datablock for each uuid

Stamps come as they like: copied by a duplication, taken back by undo, or missing. Whatever
`ensure_uuid` finds, the two maps of the registry stay inverse to each other, and it ends with
the datablock stamped with a uuid that this datablock holds and no other.

## Key results

- `IdentityRegistry.Consistent`: the two maps are inverse to each other
- `ensureUuid_holds`: where `ensure_uuid` ends
- `IdentityRegistry.run_identity`: any claims, forgets and ensures
-/

namespace QCBridge

variable {r : IdentityRegistry} {uuid fresh : Uuid} {suid : SessionUid} {d : StampedDatablock}

namespace IdentityRegistry

/-- The two maps are inverse to each other. -/
def Consistent (r : IdentityRegistry) : Prop := r.uuidToSuid.Inverse r.suidToUuid

/-- The datablock holds the uuid: both maps say so. -/
def Holds (r : IdentityRegistry) (suid : SessionUid) (uuid : Uuid) : Prop :=
  r.sessionUidFor uuid = some suid ∧ r.uuidFor suid = some uuid

private theorem consistent_new : Consistent {} := Dict.Inverse.empty

/-- In a consistent registry one map is enough. -/
theorem Consistent.holds (h : r.Consistent) (hsuid : r.sessionUidFor uuid = some suid) :
    r.Holds suid uuid := ⟨hsuid, (h uuid suid).mp hsuid⟩

/-- A uuid that nobody holds goes to the datablock, and the one it had goes. -/
theorem Consistent.register (suid : SessionUid) (h : r.Consistent)
    (hfree : r.sessionUidFor uuid = none) :
    (r.register uuid suid).Consistent ∧ (r.register uuid suid).Holds suid uuid := by
  have hconsistent : (r.register uuid suid).Consistent := by
    unfold IdentityRegistry.register Consistent
    simp only
    cases hold : r.suidToUuid.get? suid with
    | none => exact Dict.Inverse.insert h hfree hold
    | some oldUuid =>
      -- the uuid is free, so the old one is another
      have hne : oldUuid ≠ uuid := by
        rintro rfl
        have hheld := (h oldUuid suid).mpr hold
        rw [sessionUidFor, hheld] at hfree
        cases hfree
      simp only [ne_eq, hne, not_false_eq_true, if_true]
      exact Dict.Inverse.rebind h hold hfree
  refine ⟨hconsistent, hconsistent.holds ?_⟩
  rw [sessionUidFor, hconsistent uuid suid]
  exact Dict.get?_insert_self ..

theorem Consistent.claim (h : r.Consistent) (uuid : Uuid) (suid : SessionUid) :
    (r.claim uuid suid).1.Consistent ∧
      ((r.claim uuid suid).2 = .ok → (r.claim uuid suid).1.Holds suid uuid) := by
  unfold IdentityRegistry.claim
  cases hholder : r.uuidToSuid.get? uuid with
  | none =>
    obtain ⟨hconsistent, hholds⟩ := Consistent.register suid h hholder
    exact ⟨hconsistent, fun _ => hholds⟩
  | some holder =>
    by_cases hsame : holder = suid
    · simp only [hsame, if_true]
      exact ⟨h, fun _ => h.holds (hsame ▸ hholder)⟩
    · simp only [hsame, if_false]
      exact ⟨h, fun hno => by cases hno⟩

/-- A claim on a uuid that nobody holds is granted. -/
private theorem claim_of_free (hfree : r.sessionUidFor uuid = none) :
    (r.claim uuid suid).2 = .ok := by
  unfold claim
  rw [show r.uuidToSuid.get? uuid = none from hfree]

theorem Consistent.forgetUuid (h : r.Consistent) (uuid : Uuid) :
    (r.forgetUuid uuid).Consistent := by
  unfold IdentityRegistry.forgetUuid Consistent
  simp only
  cases hheld : r.uuidToSuid.get? uuid with
  | some suid => exact Dict.Inverse.erase h hheld
  | none =>
    intro x y
    rw [Dict.get?_erase]
    split
    next hx =>
      rw [← h x y, ← hx, hheld]
    next hx => exact h x y

/-- A collision changes nothing. -/
private theorem claim_of_collision (h : (r.claim uuid suid).2 ≠ .ok) :
    (r.claim uuid suid).1 = r := by
  unfold claim at h ⊢
  cases hholder : r.uuidToSuid.get? uuid with
  | none => simp [hholder] at h
  | some holder =>
    simp only
    split
    · rfl
    · rfl

end IdentityRegistry

/-! ## `ensure_uuid` -/

private theorem stampFresh_consistent (h : r.Consistent) (d : StampedDatablock) (fresh : Uuid) :
    (stampFresh r d fresh).registry.Consistent := (h.claim fresh d.sessionUid).1

private theorem ensureUuid_consistent (h : r.Consistent) (d : StampedDatablock) (fresh : Uuid) :
    (ensureUuid r d fresh).registry.Consistent := by
  have hclaimed := (h.claim d.stamp d.sessionUid).1
  unfold ensureUuid
  simp only
  split
  · split
    · exact hclaimed
    · exact stampFresh_consistent hclaimed d fresh
  · split
    · split
      · exact h
      · exact stampFresh_consistent h d fresh
    · exact stampFresh_consistent h d fresh

/-- The datablock is stamped with the uuid that is returned, and holds it. -/
structure Ensured.Settled (out : Ensured) (d : StampedDatablock) : Prop where
  same : out.datablock.sessionUid = d.sessionUid
  stamped : out.datablock.stamp = out.uuid
  held : out.registry.Holds d.sessionUid out.uuid

private theorem stampFresh_settled (h : r.Consistent) (hfresh : r.sessionUidFor fresh = none)
    (d : StampedDatablock) : (stampFresh r d fresh).Settled d where
  same := rfl
  stamped := rfl
  held := (h.claim fresh d.sessionUid).2 (IdentityRegistry.claim_of_free hfresh)

/-- Whatever the stamp, if the fresh uuid is one that nobody holds. -/
theorem ensureUuid_holds (h : r.Consistent) (hfresh : r.sessionUidFor fresh = none)
    (d : StampedDatablock) : (ensureUuid r d fresh).Settled d := by
  unfold ensureUuid
  simp only
  split
  · split
    next hok => exact ⟨rfl, rfl, (h.claim d.stamp d.sessionUid).2 hok⟩
    next hcollision =>
      -- a copied stamp: another datablock holds the uuid
      rw [IdentityRegistry.claim_of_collision hcollision]
      exact stampFresh_settled h hfresh d
  · split
    next existing hexisting =>
      split
      · exact ⟨rfl, rfl, (h existing d.sessionUid).mpr hexisting, hexisting⟩
      · exact stampFresh_settled h hfresh d
    next => exact stampFresh_settled h hfresh d

/-! ## Any run -/

/-- What is done with a registry. A datablock comes with any stamp to `ensure_uuid`. -/
inductive IdentityCall where
  | claim (uuid : Uuid) (sessionUid : SessionUid)
  | forget (uuid : Uuid)
  | ensure (d : StampedDatablock) (fresh : Uuid)
deriving DecidableEq

namespace IdentityRegistry

/-- One call. -/
def call (r : IdentityRegistry) : IdentityCall → IdentityRegistry
  | .claim uuid suid => (r.claim uuid suid).1
  | .forget uuid => r.forgetUuid uuid
  | .ensure d fresh => (ensureUuid r d fresh).registry

/-- Calls on a new registry. -/
def run (calls : List IdentityCall) : IdentityRegistry := calls.foldl call {}

theorem Consistent.call (h : r.Consistent) (c : IdentityCall) : (r.call c).Consistent := by
  cases c with
  | claim uuid suid => exact (h.claim uuid suid).1
  | forget uuid => exact h.forgetUuid uuid
  | ensure d fresh => exact ensureUuid_consistent h d fresh

private theorem run_consistent (calls : List IdentityCall) : (run calls).Consistent := by
  induction calls using List.reverseRecOn with
  | nil => exact consistent_new
  | append_singleton calls c ih =>
    unfold run
    rw [List.foldl_append]
    exact ih.call c

/-- After any calls on a new registry the two maps are inverse to each other, and no two
    datablocks hold one uuid; and `ensure_uuid` of any datablock, with a fresh uuid that nobody
    holds, ends with the datablock stamped with the uuid that it returns, which the datablock
    then holds. -/
theorem run_identity (calls : List IdentityCall) :
    (∀ uuid suid, (run calls).sessionUidFor uuid = some suid ↔
        (run calls).uuidFor suid = some uuid) ∧
      (∀ uuid suid suid', (run calls).uuidFor suid = some uuid →
        (run calls).uuidFor suid' = some uuid → suid = suid') ∧
      ∀ (d : StampedDatablock) (fresh : Uuid), (run calls).sessionUidFor fresh = none →
        (ensureUuid (run calls) d fresh).Settled d := by
  have h := run_consistent calls
  refine ⟨h, fun uuid suid suid' hheld hheld' => ?_, fun d fresh hfresh => ?_⟩
  · have hsuid := (h uuid suid).mpr hheld
    rw [(h uuid suid').mpr hheld'] at hsuid
    exact (Option.some.inj hsuid).symm
  · exact ensureUuid_holds h hfresh d

/-- A copy brings the stamp of the datablock it was made of. -/
theorem run_identity_copy :
    (ensureUuid (run [.ensure ⟨1, ""⟩ "a"]) ⟨2, "a"⟩ "b").Settled ⟨2, "a"⟩ :=
  (run_identity [.ensure ⟨1, ""⟩ "a"]).2.2 ⟨2, "a"⟩ "b" (by decide)

end IdentityRegistry

end QCBridge
