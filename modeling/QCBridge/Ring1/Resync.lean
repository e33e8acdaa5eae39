import QCBridge.Ring1.Merge
import Mathlib.Data.String.Basic
import Mathlib.Data.List.Dedup
import Mathlib.Data.List.Sort

/-!
# Repairs

`ring1/fastlog.py`: what left on the fast lane, so that a hole there is repaired
by re-asserting the datablocks named from the hole on.

`ring1/resync.py`: given what the host has and what the replica says it holds,
the tombstones, the blobs and the checks that bring the replica up to date. The
plan is the set difference of the two inventories, in sorted order.
-/

namespace QCBridge

/-- `FastLog`: the seq, the datablock and the kind of the last messages. -/
structure FastLog where
  entries : List (Nat × Uuid × Kind) := []
deriving DecidableEq

namespace FastLog

/-- How many messages the log remembers. -/
def capacity : Nat := 4096

/-- `record`: the oldest entry goes when the log is full. -/
def record (l : FastLog) (seq : Nat) (uuid : Uuid) (kind : Kind) : FastLog :=
  let entries := l.entries ++ [(seq, uuid, kind)]
  ⟨entries.drop (entries.length - capacity)⟩

/-- `record` of a log of any capacity. -/
def recordWithin (capacity : Nat) (l : FastLog) (e : Nat × Uuid × Kind) : FastLog :=
  let entries := l.entries ++ [e]
  ⟨entries.drop (entries.length - capacity)⟩

theorem record_eq (l : FastLog) (seq : Nat) (uuid : Uuid) (kind : Kind) :
    l.record seq uuid kind = l.recordWithin capacity (seq, uuid, kind) := rfl

/-- A log that is the end of a list is the end of a list one longer. -/
theorem recordWithin_entries {capacity : Nat} {l : FastLog} {sent : List (Nat × Uuid × Kind)}
    (h : l.entries = sent.drop (sent.length - capacity)) (e : Nat × Uuid × Kind) :
    (l.recordWithin capacity e).entries =
      (sent ++ [e]).drop ((sent ++ [e]).length - capacity) := by
  unfold recordWithin
  dsimp only
  rw [h, ← List.drop_append_of_le_length (Nat.sub_le _ _), List.drop_drop]
  congr 1
  rw [List.length_drop, List.length_append, List.length_singleton]
  omega

/-- `oldest_seq`. -/
def oldestSeq (l : FastLog) : Option Nat := l.entries.head?.map Prod.fst

/-- `covers`: a hole at `seq` is inside what the log still remembers. -/
def covers (l : FastLog) (seq : Nat) : Bool := l.oldestSeq.any (· ≤ seq)

/-- `window_since`: the last kind of every datablock named from `seq` on, in the
    order they were first named. -/
def windowSince (l : FastLog) (seq : Nat) : List (Uuid × Kind) :=
  ((l.entries.filter fun e => seq ≤ e.1).foldl (fun d e => d.insert e.2.1 e.2.2)
    (Dict.empty : Dict Uuid Kind)).entries

end FastLog

/-- `DeltaPlan`. -/
structure DeltaPlan where
  tombs : List Uuid := []
  resend : List Uuid := []
  verify : List Uuid := []
  sceneT1 : Bool := true
  atState : List Uuid := []
deriving DecidableEq

namespace DeltaPlan

/-- `sorted` of a set: in order, each member once. -/
def sorted (l : List Uuid) : List Uuid := l.dedup.mergeSort (· ≤ ·)

theorem mem_sorted {l : List Uuid} {u : Uuid} : u ∈ sorted l ↔ u ∈ l := by
  rw [sorted, List.mem_mergeSort, List.mem_dedup]

variable {δ : Type} [DecidableEq δ]

/-- Whether the replica lacks the datablock, or holds another version than the
    digest the host knows. -/
def mustResend (ours theirs : Option δ) : Bool :=
  match theirs, ours with
  -- the replica lacks it
  | none, _ => true
  -- no digest to compare with: verified instead
  | some _, none => false
  | some t, some o => o ≠ t

/-- Whether the host has no digest to compare the replica's with. -/
def mustVerify (ours theirs : Option δ) : Bool := theirs.isSome && ours.isNone

/-- `plan_delta`. `none` says that the Scene's structure differs or is unknown,
    which only a bootstrap repairs. -/
def plan (hostAlive : List Uuid) (hostHash replicaHeld : Dict Uuid δ)
    (hostScene replicaScene : Option δ) (gapLane : GapLane) (atStateAll : List Uuid) :
    Option DeltaPlan :=
  match hostScene, replicaScene with
  | some ours, some theirs =>
    -- another structure of the Scene, which no delta repairs
    if ours ≠ theirs then none
    else
      let alive := sorted hostAlive
      let resend := alive.filter fun u => mustResend (hostHash.get? u) (replicaHeld.get? u)
      let verify := alive.filter fun u => mustVerify (hostHash.get? u) (replicaHeld.get? u)
      some
        { tombs := sorted (replicaHeld.keys.filter (· ∉ hostAlive))
          resend := resend
          verify := verify
          -- the fast lane is whole: only what a blob replaces loses its "@" state
          atState := if gapLane = .cold then sorted (resend ++ verify) else sorted atStateAll }
  | _, _ => none

/-- A blob is resent exactly when the replica lacks the datablock or holds a
    digest that is not the host's. -/
theorem mem_plan_resend {hostAlive atStateAll : List Uuid} {hostHash replicaHeld : Dict Uuid δ}
    {hostScene replicaScene : Option δ} {gapLane : GapLane} {out : DeltaPlan}
    (h : plan hostAlive hostHash replicaHeld hostScene replicaScene gapLane atStateAll = some out)
    (u : Uuid) :
    u ∈ out.resend ↔
      u ∈ hostAlive ∧ mustResend (hostHash.get? u) (replicaHeld.get? u) = true := by
  simp only [plan] at h
  split at h
  · split at h
    · cases h
    · cases h
      rw [List.mem_filter, mem_sorted]
  · cases h

end DeltaPlan

end QCBridge
