import QCBridge.Spec.Pump

/-!
# What the replica asks for, message by message

Few things change the trackers or the replica's request for a repair: observing a
message, a delta for a datablock that is not here, the end of a repair, a bootstrap.
A property of the two is carried through the apply loop when these carry it; everything
else a message brings about is bookkeeping.

## Key results

- `Replica.Keeps`: what there is to show of a property
- `Replica.Keeps.handle`, `Replica.Keeps.applyPendingBatch`: what follows
-/

namespace QCBridge

variable {β V δ S : Type}

/-- What the replica asks for: its `want_resync`, and whether a delta named a datablock
    it never got. -/
def ReplicaData.asking (d : ReplicaData V δ S) : Bool × Bool := (d.stats.wantResync, d.unknownGap)

namespace Replica

variable {B : Blender β V δ S}

/-! ## What leaves the request alone -/

private theorem asking_foldl {α : Type} {f : ReplicaData V δ S → α → ReplicaData V δ S}
    (hf : ∀ d a, (f d a).asking = d.asking) (as : List α) (d : ReplicaData V δ S) :
    (as.foldl f d).asking = d.asking := by
  induction as generalizing d with
  | nil => rfl
  | cons a as ih => exact (ih _).trans (hf d a)

private theorem asking_writeChange (uuid : Uuid) (d : ReplicaData V δ S) (c : Path × V) :
    (writeChange B uuid d c).asking = d.asking := by
  unfold writeChange
  split <;> rfl

private theorem asking_putBack (uuid : Uuid) (d : ReplicaData V δ S) (c : Path × V) :
    (putBack B uuid d c).asking = d.asking := by
  unfold putBack
  split <;> rfl

private theorem asking_reapplyAtState (d : ReplicaData V δ S) (uuid : Uuid) :
    (reapplyAtState B d uuid).asking = d.asking := by
  unfold reapplyAtState
  split
  · rfl
  · split
    · exact asking_foldl (asking_putBack uuid) _ d
    · rfl

private theorem asking_applyTombstone (d : ReplicaData V δ S) (uuid : Uuid) :
    (applyTombstone B d uuid).asking = d.asking := by
  unfold applyTombstone
  split
  · cases B.remove d.scene uuid <;> rfl
  · rfl

/-- A delta leaves the request alone, or makes it because of an unknown datablock. -/
private theorem asking_applyT1 (g : LaneMerger β V δ) (d : ReplicaData V δ S) (m : Msg β V δ) :
    (applyT1 B g d m).asking = d.asking ∨ (applyT1 B g d m).asking = (true, true) := by
  unfold applyT1
  split
  · apply Or.inl
    dsimp only
    rw [asking_foldl (asking_writeChange m.header.uuid)]
    split <;> rfl
  · exact .inr rfl

/-! ## Properties of the trackers and the request -/

/-- The property `J` survives everything that changes the trackers or the request, but
    for the observation of a message. -/
structure Keeps (B : Blender β V δ S) (J : LaneMerger β V δ → ReplicaData V δ S → Prop) :
    Prop where
  same : ∀ {g g' d d'}, J g d → (∀ l, g'.tracker l = g.tracker l) → d'.asking = d.asking → J g' d'
  unknown : ∀ {g d d'}, J g d → d'.asking = (true, true) → J g d'
  ended : ∀ {r m}, J r.merger r.data → J (endResync r m).merger (endResync r m).data
  boot : ∀ {r e}, J r.merger r.data → J (applyBoot B r e).merger (applyBoot B r e).data

namespace Keeps

variable {J : LaneMerger β V δ → ReplicaData V δ S → Prop} {r : Replica β V δ S}

/-- A delta. -/
theorem applyT1 (hJ : Keeps B J) (h : J r.merger r.data) (g : LaneMerger β V δ) (m : Msg β V δ) :
    J r.merger (applyT1 B g r.data m) := by
  rcases asking_applyT1 (B := B) g r.data m with hsame | hunknown
  · exact hJ.same h (fun _ => rfl) hsame
  · exact hJ.unknown h hunknown

/-- A dispatched fast message. -/
theorem dispatchFast (hJ : Keeps B J) (h : J r.merger r.data) (m : Msg β V δ) :
    J (dispatchFast B r m).merger (dispatchFast B r m).data := by
  have hdone : ∀ {q : Replica β V δ S}, J q.merger q.data →
      J (q.merger.fastDone m.header.seq)
        (refreshGapStats (q.merger.fastDone m.header.seq) q.data) :=
    fun hq => hJ.same hq (fun _ => LaneMerger.fastDone_tracker ..) rfl
  simp only [Replica.dispatchFast]
  cases m.header.kind
  case t1 =>
    apply hdone
    exact hJ.applyT1 h r.merger m
  case tomb =>
    apply hdone
    exact hJ.same h (fun _ => rfl) (asking_applyTombstone ..)
  case resyncEnd =>
    apply hdone
    exact hJ.ended (r := { r with log := r.log ++ [Ev.dispatched m] }) h
  all_goals
    apply hdone
    exact h

/-- `_release`. -/
theorem release (hJ : Keeps B J) (h : J r.merger r.data) (items : List (Msg β V δ)) :
    J (release B items r).merger (release B items r).data := by
  have hfold : J (items.foldl (Replica.dispatchFast B) r).merger
      (items.foldl (Replica.dispatchFast B) r).data := by
    induction items generalizing r with
    | nil => exact h
    | cons m items ih => exact ih (hJ.dispatchFast h m)
  exact hJ.same hfold (fun _ => rfl) rfl

/-- `_release(_merger.cold_done(seq))`. -/
theorem coldDone (hJ : Keeps B J) (h : J r.merger r.data) (seq : Option Nat) :
    J (coldDone B r seq).merger (coldDone B r seq).data :=
  hJ.release (r := { r with merger := r.merger.coldDone seq })
    (hJ.same h (fun _ => LaneMerger.coldDone_tracker ..) rfl) _

/-- One blob of a batch. -/
theorem applyNext (hJ : Keeps B J) (h : J r.merger r.data) (e : Pending β δ)
    (rest : List (Pending β δ)) :
    J (applyNext B r e rest).1.merger (applyNext B r e rest).1.data := by
  have hdone : ∀ {q : Replica β V δ S}, J q.merger q.data → J (q.merger.coldDone e.seq) q.data :=
    fun hq => hJ.same hq (fun _ => LaneMerger.coldDone_tracker ..) rfl
  simp only [Replica.applyNext, applyOne]
  split
  · rename_i q u hone
    apply hdone
    split at hone
    · cases hone
      exact hJ.boot (r := { r with pending := rest, log := r.log ++ [Ev.applied e] }) h
    · split at hone <;> cases hone
      exact hJ.same h (fun _ => rfl) rfl
  · apply hdone
    exact hJ.same h (fun _ => rfl) rfl

theorem batchLoop (hJ : Keeps B J) (budget : Nat) (es : List (Pending β δ)) (applied : Nat)
    (h : J r.merger r.data) (reapply : List Uuid) (due : List (Msg β V δ)) :
    J (batchLoop B budget es applied r reapply due).1.merger
      (batchLoop B budget es applied r reapply due).1.data := by
  induction es generalizing r applied reapply due with
  | nil => exact h
  | cons e rest ih =>
    simp only [Replica.batchLoop]
    split
    · exact h
    · split
      · exact hJ.applyNext h e rest
      · exact ih _ (hJ.applyNext h e rest) _ _

/-- `_apply_pending_batch`. -/
theorem applyPendingBatch (hJ : Keeps B J) (h : J r.merger r.data) (budget : Nat) :
    J (applyPendingBatch B budget r).merger (applyPendingBatch B budget r).data := by
  simp only [Replica.applyPendingBatch]
  apply hJ.release
  apply hJ.same (hJ.batchLoop budget r.pending 0 h [] []) (fun _ => rfl)
  exact asking_foldl (asking_reapplyAtState (B := B)) _ _

variable [Inhabited β]

/-- A chunk of a blob. -/
theorem dispatchChunk (hJ : Keeps B J) (h : J r.merger r.data) (m : Msg β V δ) (b : Chunk) :
    J (dispatchChunk B r m b).merger (dispatchChunk B r m b).data := by
  simp only [Replica.dispatchChunk]
  split
  · exact h
  · apply hJ.coldDone
    exact h

/-- A dispatched cold message. -/
theorem dispatchCold (hJ : Keeps B J) (h : J r.merger r.data) (m : Msg β V δ) :
    J (dispatchCold B r m).merger (dispatchCold B r m).data := by
  simp only [Replica.dispatchCold]
  -- each kind changes the data first, and moves the merger then
  cases m.header.kind
  case t1 =>
    apply hJ.coldDone
    exact hJ.applyT1 h r.merger m
  case tomb =>
    apply hJ.coldDone
    exact hJ.same h (fun _ => rfl) (asking_applyTombstone ..)
  case resyncEnd =>
    apply hJ.coldDone
    exact hJ.ended (r := { r with log := r.log ++ [Ev.dispatched m] }) h
  -- what carries data is assembled
  case libfile =>
    cases m.header.blob with
    | none => exact h
    | some b =>
      dsimp only
      split
      · apply hJ.coldDone
        exact hJ.same h (fun _ => rfl) rfl
      · exact h
  case t2 =>
    cases m.header.blob with
    | none => exact h
    | some b =>
      apply hJ.dispatchChunk
      exact h
  case boot =>
    cases m.header.blob with
    | none => exact h
    | some b =>
      apply hJ.dispatchChunk
      exact h
  -- a request for a library changes nothing
  all_goals
    apply hJ.coldDone
    exact hJ.same h (fun _ => rfl) rfl

/-- One message, once it was observed. -/
theorem handle (hJ : Keeps B J) {m : Msg β V δ}
    (hseen : J (r.observed m).merger (r.observed m).data) :
    J (handle B r m).merger (handle B r m).data := by
  simp only [Replica.handle, Replica.dispatch]
  split
  · split
    · exact hJ.dispatchFast hseen m
    · exact hJ.dispatchCold hseen m
  · exact hJ.same hseen (fun _ => LaneMerger.park_tracker ..) rfl

end Keeps

end Replica

end QCBridge
