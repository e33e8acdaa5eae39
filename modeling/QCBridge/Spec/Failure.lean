import QCBridge.Spec.Pump
import QCBridge.Ring1.Resync

/-!
# Failed applies

A blob whose apply raises is counted and dropped, and the messages parked behind
it are released like those behind any other blob. A bootstrap whose
`open_mainfile` fails is counted too, but `apply_mainfile` has swallowed the
exception, and `_apply_one` goes on to say that the new file is running.

## Key results

- `Replica.batch_releases_once`: a batch neither loses nor repeats a parked message
- `Replica.failureUnreported_iff`: when a failed apply passes for a success
-/

namespace QCBridge

variable {β V δ S : Type}

/-- The messages dispatched in a log, in order. -/
def dispatchedIn (done : List (Ev β V δ)) : List (Msg β V δ) :=
  done.filterMap fun
    | .dispatched m => some m
    | _ => none

@[simp] theorem dispatchedIn_append (l₁ l₂ : List (Ev β V δ)) :
    dispatchedIn (l₁ ++ l₂) = dispatchedIn l₁ ++ dispatchedIn l₂ := List.filterMap_append

@[simp] theorem dispatchedIn_map (items : List (Msg β V δ)) :
    dispatchedIn (items.map Ev.dispatched) = items := by
  simp [dispatchedIn, List.filterMap_map]

namespace Pump

/-- `cold_done` splits the parked messages into those due and those still parked. -/
private theorem due_perm (p : Pump β V δ) (seq : Option Nat) :
    (p.due seq ++ (p.coldDone seq).parked.map Prod.snd).Perm (p.parked.map Prod.snd) := by
  rw [due, ← List.map_append]
  refine List.Perm.map _ ?_
  have hrest : (p.coldDone seq).parked =
      p.parked.filter fun q => !decide (q.1 ≤ (p.coldDone seq).coldApplied) := by
    simp only [coldDone, ← Nat.not_le, decide_not]
  rw [hrest]
  exact List.filter_append_perm _ _

/-- The batch loop only applies blobs; what it hands out was parked. -/
private theorem batchLoop_spec (budget : Nat) (es : List (Pending β δ)) (applied : Nat)
    (p : Pump β V δ) (due : List (Msg β V δ)) :
    let out := batchLoop budget es applied p due
    (∃ l, out.1.done = p.done ++ l ∧ dispatchedIn l = []) ∧
      (out.2 ++ out.1.parked.map Prod.snd).Perm (due ++ p.parked.map Prod.snd) ∧
      out.1.parked ⊆ p.parked := by
  -- the induction is on the queue
  induction es generalizing applied p due with
  | nil => exact ⟨⟨[], by simp [batchLoop, dispatchedIn]⟩, List.Perm.refl _, fun _ h => h⟩
  | cons e rest ih =>
    -- what is due and what stays parked are what was parked
    have hdue : ((due ++ p.due e.seq) ++ (p.coldDone e.seq).parked.map Prod.snd).Perm
        (due ++ p.parked.map Prod.snd) := by
      rw [List.append_assoc]
      exact (p.due_perm e.seq).append_left due
    have hsub : (p.coldDone e.seq).parked ⊆ p.parked := List.filter_subset_self _
    simp only [batchLoop]
    split
    · -- the batch is full
      exact ⟨⟨[], by simp [dispatchedIn]⟩, List.Perm.refl _, fun _ h => h⟩
    · -- a bootstrap ends it, any other blob goes on
      split
      · exact ⟨⟨[.applied e], rfl, rfl⟩, hdue, hsub⟩
      · obtain ⟨⟨l, hl, hnone⟩, hperm, hparked⟩ := ih (applied + 1)
          ({ p with pending := rest, done := p.done ++ [Ev.applied e] }.coldDone e.seq)
          (due ++ p.due e.seq)
        refine ⟨⟨.applied e :: l, hl.trans ?_, hnone⟩, hperm.trans hdue,
          fun _ h => hsub (hparked h)⟩
        simp [coldDone]

/-- The first blob of a batch always goes. -/
private theorem batchLoop_parked (budget : Nat) (e : Pending β δ) (rest : List (Pending β δ))
    (p : Pump β V δ) :
    (batchLoop budget (e :: rest) 0 p []).1.parked ⊆ (p.coldDone e.seq).parked := by
  simp only [batchLoop, ne_eq, not_true_eq_false, false_and, if_false]
  split
  · exact fun _ h => h
  · exact (batchLoop_spec budget rest _ _ _).2.2

end Pump

namespace Replica

variable (B : Blender β V δ S)

/-- A batch hands out every message whose blob applied in it, and each just once:
    what was parked before it is what it dispatched and what is still parked, and
    nothing still parked was waiting for `seq` or before. -/
def ReleasesOnce (budget : Nat) (r : Replica β V δ S) (seq : Option Nat) : Prop :=
  ∃ l, effects (applyPendingBatch B budget r).log = effects r.log ++ l ∧
    (dispatchedIn l ++ (applyPendingBatch B budget r).merger.parked.map Prod.snd).Perm
      (r.merger.parked.map Prod.snd) ∧
    ∀ q ∈ (applyPendingBatch B budget r).merger.parked,
      LaneMerger.appliedAfter r.merger.coldApplied seq < q.1

/-- Whatever fails in it, a batch releases the messages behind its first blob. -/
theorem batch_releases_once (budget : Nat) (r : Replica β V δ S) (e : Pending β δ)
    (rest : List (Pending β δ)) (hpending : r.pending = e :: rest) :
    ReleasesOnce B budget r e.seq := by
  have hpump := pump_applyPendingBatch B budget r
  obtain ⟨⟨l, hl, hnone⟩, hperm, hparked⟩ :=
    Pump.batchLoop_spec budget r.pump.pending 0 r.pump []
  refine ⟨l ++ (Pump.batchLoop budget r.pump.pending 0 r.pump []).2.map Ev.dispatched, ?_, ?_, ?_⟩
  · have hdone := congrArg Pump.done hpump
    simp only [Pump.batch, Pump.release, hl, List.append_assoc] at hdone
    exact hdone
  · have hpk := congrArg Pump.parked hpump
    rw [dispatchedIn_append, hnone, dispatchedIn_map, List.nil_append]
    simp only [Pump.batch, Pump.release] at hpk
    rw [show (applyPendingBatch B budget r).merger.parked = _ from hpk]
    exact hperm
  · intro q hq
    have hpk := congrArg Pump.parked hpump
    simp only [Pump.batch, Pump.release] at hpk
    rw [show (applyPendingBatch B budget r).merger.parked = _ from hpk] at hq
    have hp : r.pump.pending = e :: rest := hpending
    rw [hp] at hq
    have hlt := List.of_mem_filter (Pump.batchLoop_parked budget e rest r.pump hq)
    exact of_decide_eq_true hlt

/-- What the replica says about its sync state is as it was. -/
structure ClaimsKept (before after : Replica β V δ S) : Prop where
  wantResync : after.data.stats.wantResync = before.data.stats.wantResync
  coldHole : after.merger.cold.firstMissing = before.merger.cold.firstMissing
  fastHole : after.merger.fast.firstMissing = before.merger.fast.firstMissing
  held : after.data.held = before.data.held
  sceneDigest : after.data.stats.sceneDigest = before.data.stats.sceneDigest
  bootGen : after.data.bootGen = before.data.bootGen
  atState : after.data.atState = before.data.atState
  bootstraps : after.data.stats.bootstraps = before.data.stats.bootstraps

/-- Applying `e` fails: the file does not open, or the apply raises. -/
def Fails (s : S) (e : Pending β δ) : Prop :=
  if e.isBoot then B.openMainfile s e.blob = none else B.applyBlob s e.blob = none

/-- A failed apply of the blob `e` that waits first does not pass for a success. -/
structure FailureUnreported [DecidableEq δ] (r : Replica β V δ S) (e : Pending β δ)
    (rest : List (Pending β δ)) : Prop where
  boot : e.isBoot = true → ClaimsKept r (applyNext B r e rest).1
  blob : e.isBoot = false → ∀ d, e.header.digest = some d →
    (applyNext B r e rest).1.data.held.get? e.header.uuid ≠ some d
  replanned : e.isBoot = false → ∀ d, e.header.digest = some d →
    ∀ hostAlive (hostHash : Dict Uuid δ) scene gapLane atStateAll out,
      DeltaPlan.plan hostAlive hostHash (applyNext B r e rest).1.data.held scene
        (applyNext B r e rest).1.data.stats.sceneDigest gapLane atStateAll = some out →
      e.header.uuid ∈ hostAlive → hostHash.get? e.header.uuid = some d →
      e.header.uuid ∈ out.resend
  released : ∀ budget, ReleasesOnce B budget { r with pending := e :: rest } e.seq

/-- The inventory a failed blob leaves. -/
private theorem applyNext_held_of_fails {r : Replica β V δ S} {e : Pending β δ}
    (rest : List (Pending β δ)) (hfail : Fails B r.data.scene e) (hboot : e.isBoot = false) :
    (applyNext B r e rest).1.data.held = r.data.held := by
  simp only [Fails, hboot, Bool.false_eq_true, if_false] at hfail
  simp [applyNext, applyOne, hboot, hfail]

/-- A bootstrap counts as one more, whatever became of the file. -/
private theorem applyNext_bootstraps (r : Replica β V δ S) {e : Pending β δ}
    (rest : List (Pending β δ))
    (hboot : e.isBoot = true) :
    (applyNext B r e rest).1.data.stats.bootstraps = r.data.stats.bootstraps + 1 := by
  simp [applyNext, applyOne, hboot, applyBoot, refreshGapStats]

/-- A failed apply passes for a success exactly when it was a bootstrap, or a blob
    whose digest the inventory already lists. -/
theorem failureUnreported_iff [DecidableEq δ] (r : Replica β V δ S) (e : Pending β δ)
    (rest : List (Pending β δ)) (hfail : Fails B r.data.scene e) :
    FailureUnreported B r e rest ↔
      e.isBoot = false ∧ ∀ d, e.header.digest = some d →
        r.data.held.get? e.header.uuid ≠ some d := by
  constructor
  · intro h
    have hboot : e.isBoot = false := by
      by_contra hb
      have hb : e.isBoot = true := by simpa using hb
      have := (h.boot hb).bootstraps
      rw [applyNext_bootstraps B r rest hb] at this
      omega
    refine ⟨hboot, fun d hd => ?_⟩
    rw [← applyNext_held_of_fails B rest hfail hboot]
    exact h.blob hboot d hd
  · rintro ⟨hboot, hheld⟩
    refine ⟨fun hb => ?_, fun _ d hd => ?_, ?_, fun budget => ?_⟩
    · rw [hboot] at hb
      cases hb
    · rw [applyNext_held_of_fails B rest hfail hboot]
      exact hheld d hd
    · intro _ d hd hostAlive hostHash scene gapLane atStateAll out hplan halive hhash
      rw [DeltaPlan.mem_plan_resend hplan, applyNext_held_of_fails B rest hfail hboot, hhash]
      refine ⟨halive, ?_⟩
      -- the replica has no version, or one that is not the failed blob's
      have hne := hheld d hd
      cases htheirs : r.data.held.get? e.header.uuid with
      | none => rfl
      | some t =>
        rw [htheirs] at hne
        simp only [DeltaPlan.mustResend, decide_eq_true_eq]
        exact fun heq => hne (heq ▸ rfl)
    · exact batch_releases_once B budget _ e rest rfl

end Replica

/-! ## A file that does not open -/

/-- A Blender that opens no file and applies no blob. -/
def Blender.refusing : Blender Nat Nat Nat Unit where
  resolves _ _ := true
  writeRna s _ _ _ := some s
  remove s _ := some s
  applyBlob _ _ := none
  openMainfile _ _ := none
  applyLink s _ := s
  applyLibfile s _ _ := s

namespace Refused

/-- A replica that has seen a cold hole and asks for a repair. -/
def replica : Replica Nat Nat Nat Unit where
  merger := { cold := { lastSeen := some 4, gaps := 1, firstMissing := some 2 } }
  data := { scene := (), stats := { wantResync := true, gapLane := .cold } }

/-- The bootstrap it was sent. -/
def boot : Pending Nat Nat where
  header := { kind := .boot, seq := some 5, blob := some ⟨.boot 1 4, 0, 1, 1, 0⟩ }
  blob := [7]
  seq := some 5

/-- A tier-2 blob of datablock `"a"`. -/
def blob : Pending Nat Nat where
  header := { kind := .t2, seq := some 5, uuid := "a", blob := some ⟨.t2 "a" 4, 0, 1, 1, 0⟩,
              digest := some 9 }
  blob := [7]
  seq := some 5

end Refused

open Refused Replica in
/-- The file does not open, and the replica stops asking for it. -/
theorem failureUnreported_counterexample :
    Fails Blender.refusing replica.data.scene boot ∧ replica.data.stats.wantResync = true ∧
      (applyNext Blender.refusing replica boot []).1.data.stats.wantResync = false ∧
      ¬ FailureUnreported Blender.refusing replica boot [] := by
  refine ⟨rfl, rfl, rfl, fun h => ?_⟩
  have := (h.boot rfl).wantResync
  cases this

open Refused Replica in
/-- A blob that raises leaves the replica asking. -/
theorem failureUnreported_blob : FailureUnreported Blender.refusing replica blob [] :=
  (failureUnreported_iff Blender.refusing replica blob [] rfl).mpr
    ⟨rfl, fun d _ => by simp [replica]⟩

end QCBridge
