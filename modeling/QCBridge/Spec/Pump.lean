import QCBridge.Ring0.Replica

/-!
# The order the replica does things in

Nothing the scene holds decides which message the apply loop takes, parks or
releases, or which blob it applies. The `Pump` is what is left of a `Replica`
when the scene, the statistics and the gap trackers are forgotten: how far the
cold lane has applied, what is parked, what is under assembly, what waits, and
what was done so far.

## Key results

- `Replica.pump_handle`, `Replica.pump_applyPendingBatch`: the pump of the next
  replica is the next pump
- `PumpNode.run_ofNode`: a run of the apply loop is a run of its pump
-/

namespace QCBridge

variable {β V δ S : Type}

/-- An event that changes what the replica holds. -/
def Ev.isEffect : Ev β V δ → Bool
  | .dispatched _ => true
  | .applied _ => true
  | .seen _ => false
  | .ended _ _ => false

/-- The effects in a log, oldest first. -/
def effects (log : List (Ev β V δ)) : List (Ev β V δ) := log.filter Ev.isEffect

/-- Nothing has no effect. -/
@[simp] theorem effects_nil : effects ([] : List (Ev β V δ)) = [] := rfl

/-- The effects of two stretches. -/
@[simp] theorem effects_append (l₁ l₂ : List (Ev β V δ)) :
    effects (l₁ ++ l₂) = effects l₁ ++ effects l₂ := List.filter_append ..

/-- A message that is dispatched is an effect. -/
@[simp] theorem effects_dispatched (m : Msg β V δ) :
    effects [Ev.dispatched m] = [Ev.dispatched m] := rfl

/-- A blob that is applied is one. -/
@[simp] theorem effects_applied (e : Pending β δ) :
    effects [(Ev.applied e : Ev β V δ)] = [Ev.applied e] := rfl

/-- A message that is only counted is none. -/
@[simp] theorem effects_seen (m : Msg β V δ) : effects [Ev.seen m] = [] := rfl

/-- Nor is the report at the end of a repair. -/
@[simp] theorem effects_ended (h : Header δ) (b : Bool) :
    effects [(Ev.ended h b : Ev β V δ)] = [] := rfl

/-- The blobs under assembly, and which one each datablock is receiving. -/
structure Assembly (β δ : Type) where
  blobByUuid : Dict Uuid BlobId := Dict.empty
  reassembler : Reassembler β δ := {}

namespace Assembly

variable [Inhabited β]

/-- The reassembler after a stale blob of the same datablock was dropped. -/
def supersede (a : Assembly β δ) (h : Header δ) (b : Chunk) : Reassembler β δ :=
  match a.blobByUuid.get? h.uuid with
  | some stale => if stale = b.id then a.reassembler else a.reassembler.drop stale
  | none => a.reassembler

/-- A chunk of a tier-2 blob or of a bootstrap. -/
def feed (a : Assembly β δ) (h : Header δ) (payload : List β) (b : Chunk) :
    Assembly β δ × Option (Header δ × List β) :=
  let fed := (a.supersede h b).feed h payload
  match fed.2 with
  | some out => (⟨a.blobByUuid.erase h.uuid, fed.1⟩, some out)
  | none => (⟨a.blobByUuid.insert h.uuid b.id, fed.1⟩, none)

/-- A chunk of a library file. -/
def feedLib (a : Assembly β δ) (h : Header δ) (payload : List β) :
    Assembly β δ × Option (Header δ × List β) :=
  let fed := a.reassembler.feed h payload
  (⟨a.blobByUuid, fed.1⟩, fed.2)

end Assembly

/-- What decides the order of the replica's effects, and those effects. -/
structure Pump (β V δ : Type) where
  coldApplied : Nat
  parked : List (Nat × Msg β V δ) := []
  assembly : Assembly β δ := {}
  pending : List (Pending β δ) := []
  done : List (Ev β V δ) := []

namespace Pump

/-- `cold_done`. -/
def coldDone (p : Pump β V δ) (seq : Option Nat) : Pump β V δ :=
  let applied := LaneMerger.appliedAfter p.coldApplied seq
  { p with coldApplied := applied, parked := p.parked.filter (fun q => applied < q.1) }

/-- The messages that `cold_done` hands back. -/
def due (p : Pump β V δ) (seq : Option Nat) : List (Msg β V δ) :=
  (p.parked.filter (fun q => q.1 ≤ (p.coldDone seq).coldApplied)).map Prod.snd

/-- `_release`. -/
def release (items : List (Msg β V δ)) (p : Pump β V δ) : Pump β V δ :=
  { p with done := p.done ++ items.map Ev.dispatched }

/-- `_release(_merger.cold_done(seq))`. -/
def advance (p : Pump β V δ) (seq : Option Nat) : Pump β V δ :=
  release (p.due seq) (p.coldDone seq)

/-- A fast message: dispatched once the cold seq it names has applied. -/
def fast (p : Pump β V δ) (m : Msg β V δ) : Pump β V δ :=
  if m.header.after ≤ p.coldApplied then { p with done := p.done ++ [Ev.dispatched m] }
  else { p with parked := p.parked ++ [(m.header.after, m)] }

/-- The batch loop, and the messages it must release. -/
def batchLoop (budget : Nat) :
    List (Pending β δ) → Nat → Pump β V δ → List (Msg β V δ) → Pump β V δ × List (Msg β V δ)
  | [], _, p, due => (p, due)
  | e :: rest, applied, p, due =>
    if applied ≠ 0 ∧ (e.isBoot ∨ budget ≤ applied) then (p, due)
    else
      let p := { p with pending := rest, done := p.done ++ [Ev.applied e] }
      if e.isBoot then (p.coldDone e.seq, due ++ p.due e.seq)
      else batchLoop budget rest (applied + 1) (p.coldDone e.seq) (due ++ p.due e.seq)

/-- `_apply_pending_batch`. -/
def batch (budget : Nat) (p : Pump β V δ) : Pump β V δ :=
  let out := batchLoop budget p.pending 0 p []
  release out.2 out.1

variable [Inhabited β]

/-- A chunk of a tier-2 blob or of a bootstrap: a blob it completes waits. -/
def chunk (p : Pump β V δ) (m : Msg β V δ) (b : Chunk) : Pump β V δ :=
  let fed := p.assembly.feed m.header m.data b
  let p := { p with assembly := fed.1 }
  match fed.2 with
  | some (h, blob) =>
    let waiting := if m.header.kind = .boot then [] else p.pending
    { p with pending := waiting ++ [⟨h, blob, m.header.seq⟩] }
  | none => p.advance m.header.seq

/-- A cold message: only completed blobs wait, everything else is applied now. -/
def cold (p : Pump β V δ) (m : Msg β V δ) : Pump β V δ :=
  let p := { p with done := p.done ++ [Ev.dispatched m] }
  match m.header.kind with
  | .t2 | .boot =>
    match m.header.blob with
    | none => p
    | some b => p.chunk m b
  | .libfile =>
    match m.header.blob with
    | none => p
    | some _ =>
      let fed := p.assembly.feedLib m.header m.data
      let p := { p with assembly := fed.1 }
      match fed.2 with
      | some _ => p.advance m.header.seq
      | none => p
  | _ => p.advance m.header.seq

/-- One message. -/
def handle (p : Pump β V δ) (m : Msg β V δ) : Pump β V δ :=
  if m.header.lane = .fast then p.fast m else p.cold m

end Pump

/-! ## The pump of a replica -/

namespace Replica

/-- The pump of a replica. -/
def pump (r : Replica β V δ S) : Pump β V δ where
  coldApplied := r.merger.coldApplied
  parked := r.merger.parked
  assembly := ⟨r.blobByUuid, r.reassembler⟩
  pending := r.pending
  done := effects r.log

variable (B : Blender β V δ S)

/-- The pump's counter is the merger's. -/
@[simp] theorem pump_coldDone_merger (r : Replica β V δ S) (seq : Option Nat) :
    { r with merger := r.merger.coldDone seq }.pump = r.pump.coldDone seq := rfl

/-- And so is what falls due. -/
@[simp] theorem pump_due (r : Replica β V δ S) (seq : Option Nat) :
    r.pump.due seq = r.merger.due seq := rfl

/-- Processing the end of a repair has no effect the pump knows of. -/
@[simp] theorem pump_endResync (r : Replica β V δ S) (m : Msg β V δ) :
    (r.endResync m).pump = r.pump := by
  simp only [endResync, pump, effects_append, effects_ended, List.append_nil]
  split <;> rfl

/-- A dispatched fast message is one effect. -/
private theorem pump_dispatchFast (r : Replica β V δ S) (m : Msg β V δ) :
    (dispatchFast B r m).pump = r.pump.release [m] := by
  have hend : ((r.endResync m).merger.coldApplied, (r.endResync m).merger.parked)
      = (r.merger.coldApplied, r.merger.parked) := by
    simp only [endResync]
    split <;> rfl
  have hlog := congrArg Pump.done (pump_endResync { r with log := r.log ++ [Ev.dispatched m] } m)
  simp only [dispatchFast]
  cases m.header.kind
  case resyncEnd =>
    simp only [pump, endResync, Pump.release, LaneMerger.fastDone_coldApplied,
      LaneMerger.fastDone_parked, effects_append, effects_dispatched, effects_ended,
      List.append_nil, List.map_cons, List.map_nil]
    split <;> rfl
  all_goals simp [pump, Pump.release]

/-- Fast messages, one by one, are what the pump releases. -/
private theorem pump_foldl_dispatchFast (items : List (Msg β V δ)) (r : Replica β V δ S) :
    (items.foldl (dispatchFast B) r).pump = r.pump.release items := by
  induction items generalizing r with
  | nil => simp [Pump.release]
  | cons m items ih =>
    rw [List.foldl_cons, ih, pump_dispatchFast]
    simp [Pump.release, List.append_assoc]

/-- So they are together. -/
@[simp] theorem pump_release (items : List (Msg β V δ)) (r : Replica β V δ S) :
    (release B items r).pump = r.pump.release items :=
  pump_foldl_dispatchFast B items r

/-- `cold_done` with what it lets go is what the pump's counter does. -/
@[simp] theorem pump_coldDone (r : Replica β V δ S) (seq : Option Nat) :
    (coldDone B r seq).pump = r.pump.advance seq := by
  simp only [coldDone, pump_release, pump_coldDone_merger, Pump.advance, pump_due]

/-- Applying one blob has no effect the pump knows of. -/
private theorem pump_applyOne {r r' : Replica β V δ S} {e : Pending β δ} {u : List Uuid}
    (h : applyOne B r e = some (r', u)) : r'.pump = r.pump := by
  simp only [applyOne] at h
  split at h
  · cases h
    simp [pump, applyBoot]
  · split at h
    · cases h
    · cases h
      rfl

/-- One blob of a batch, whether it applies or raises. -/
theorem pump_applyNext (r : Replica β V δ S) (e : Pending β δ) (rest : List (Pending β δ)) :
    (applyNext B r e rest).1.pump =
        { r.pump with pending := rest, done := r.pump.done ++ [Ev.applied e] }.coldDone e.seq ∧
      (applyNext B r e rest).2.2 = r.pump.due e.seq := by
  have hpop : { r with pending := rest, log := r.log ++ [Ev.applied e] }.pump =
      { r.pump with pending := rest, done := r.pump.done ++ [Ev.applied e] } := by
    simp [pump]
  simp only [applyNext]
  split
  · rename_i r' u hone
    have hr := pump_applyOne B hone
    constructor
    · rw [pump_coldDone_merger, hr, hpop]
    · rw [← pump_due, hr, hpop]
      rfl
  · constructor
    · rw [pump_coldDone_merger]
      exact congrArg (Pump.coldDone · e.seq) hpop
    · rfl

/-- The batch loop applies, and gathers what is due, as the pump does. -/
private theorem pump_batchLoop (budget : Nat) (es : List (Pending β δ)) (applied : Nat)
    (r : Replica β V δ S) (reapply : List Uuid) (due : List (Msg β V δ)) :
    (batchLoop B budget es applied r reapply due).1.pump =
        (Pump.batchLoop budget es applied r.pump due).1 ∧
      (batchLoop B budget es applied r reapply due).2.2 =
        (Pump.batchLoop budget es applied r.pump due).2 := by
  induction es generalizing applied r reapply due with
  | nil => exact ⟨rfl, rfl⟩
  | cons e rest ih =>
    obtain ⟨hpump, hdue⟩ := pump_applyNext B r e rest
    simp only [batchLoop, Pump.batchLoop]
    split
    · exact ⟨rfl, rfl⟩
    · split
      · exact ⟨hpump, by rw [hdue]; rfl⟩
      · rw [(ih ..).1, (ih ..).2, hpump, hdue]
        exact ⟨rfl, rfl⟩

/-- A batch of the replica is a batch of its pump. -/
theorem pump_applyPendingBatch (budget : Nat) (r : Replica β V δ S) :
    (applyPendingBatch B budget r).pump = r.pump.batch budget := by
  obtain ⟨hpump, hdue⟩ := pump_batchLoop B budget r.pending 0 r [] []
  simp only [applyPendingBatch, pump_release, Pump.batch]
  rw [hdue]
  exact congrArg (Pump.release _) hpump

variable [Inhabited β]

/-- A chunk is put together, and a whole blob waits, as in the pump. -/
private theorem pump_dispatchChunk (r : Replica β V δ S) (m : Msg β V δ) (b : Chunk) :
    (dispatchChunk B r m b).pump = r.pump.chunk m b := by
  have hsup : r.pump.assembly.supersede m.header b = r.supersede m b := rfl
  simp only [dispatchChunk, Pump.chunk, Assembly.feed, hsup]
  cases hfed : ((r.supersede m b).feed m.header m.data).2 with
  | none => simp only [pump_coldDone]; rfl
  | some out => rfl

/-- A cold message dispatched by the replica is one dispatched by its pump. -/
private theorem pump_dispatchCold (r : Replica β V δ S) (m : Msg β V δ) :
    (dispatchCold B r m).pump = r.pump.cold m := by
  have hlog : { r with log := r.log ++ [Ev.dispatched m] }.pump =
      { r.pump with done := r.pump.done ++ [Ev.dispatched m] } := by
    simp [pump]
  -- kind by kind, after the same entry in the log
  simp only [dispatchCold, Pump.cold]
  cases hkind : m.header.kind
  case t2 =>
    cases m.header.blob with
    | none => exact hlog
    | some b =>
      simp only [pump_dispatchChunk, hlog]
  case boot =>
    cases m.header.blob with
    | none => exact hlog
    | some b =>
      simp only [pump_dispatchChunk, hlog]
  case libfile =>
    cases m.header.blob with
    | none => exact hlog
    | some b =>
      simp only [Assembly.feedLib]
      have hasm : r.reassembler = r.pump.assembly.reassembler := rfl
      cases hfed : (r.reassembler.feed m.header m.data).2 with
      | none => rw [← hasm, hfed]; simp [pump]
      | some out => rw [← hasm, hfed]; simp only [pump_coldDone]; simp [pump]
  -- the rest moves the merger alone
  all_goals simp only [pump_coldDone, pump_endResync]; simp [pump]

omit [Inhabited β] in
/-- Observing a message has no effect the pump knows of. -/
@[simp] theorem pump_observed (r : Replica β V δ S) (m : Msg β V δ) :
    (r.observed m).pump = r.pump := by
  simp [observed, pump]

/-- One message handled by the replica is one handled by its pump. -/
theorem pump_handle (r : Replica β V δ S) (m : Msg β V δ) :
    (handle B r m).pump = r.pump.handle m := by
  have happlied : (r.observed m).merger.coldApplied = r.pump.coldApplied :=
    congrArg Pump.coldApplied (pump_observed r m)
  simp only [handle]
  split
  · rename_i hadm
    simp only [dispatch, Pump.handle]
    split
    · rename_i hlane
      have hle : m.header.after ≤ r.pump.coldApplied := by
        simpa [LaneMerger.admits, hlane, happlied] using hadm
      rw [pump_dispatchFast, pump_observed]
      simp [Pump.fast, hle, Pump.release]
    · rw [pump_dispatchCold, pump_observed]
  · rename_i hadm
    have hlane : m.header.lane = .fast ∧ ¬ m.header.after ≤ r.pump.coldApplied := by
      simpa [LaneMerger.admits, happlied] using hadm
    have hpark : ((r.observed m).parkMsg m).pump =
        { (r.observed m).pump with
          parked := (r.observed m).pump.parked ++ [(m.header.after, m)] } := rfl
    rw [hpark, pump_observed, Pump.handle, if_pos hlane.1, Pump.fast, if_neg hlane.2]

end Replica

/-! ## What is coming -/

namespace Replica

variable (B : Blender β V δ S)

/-- The two inboxes. Only taking a message changes them. -/
def inboxes (r : Replica β V δ S) : List (Msg β V δ) × List (Msg β V δ) := (r.inbox, r.inboxFast)

/-- A fast message is dispatched without a look at the inboxes. -/
private theorem inboxes_dispatchFast (r : Replica β V δ S) (m : Msg β V δ) :
    (dispatchFast B r m).inboxes = r.inboxes := by
  simp only [dispatchFast]
  cases m.header.kind <;> rfl

/-- And so are several. -/
@[simp] theorem inboxes_release (items : List (Msg β V δ)) (r : Replica β V δ S) :
    (release B items r).inboxes = r.inboxes := by
  have hfold : (items.foldl (dispatchFast B) r).inboxes = r.inboxes := by
    induction items generalizing r with
    | nil => rfl
    | cons m items ih => rw [List.foldl_cons, ih, inboxes_dispatchFast]
  exact hfold

/-- The counter is another matter than the inboxes. -/
@[simp] theorem inboxes_coldDone (r : Replica β V δ S) (seq : Option Nat) :
    (coldDone B r seq).inboxes = r.inboxes := by
  simp only [coldDone, inboxes_release]
  rfl

/-- Applying a blob takes no message. -/
private theorem inboxes_applyNext (r : Replica β V δ S) (e : Pending β δ)
    (rest : List (Pending β δ)) :
    (applyNext B r e rest).1.inboxes = r.inboxes := by
  simp only [applyNext, applyOne]
  split
  · rename_i r' u hone
    split at hone
    · cases hone; rfl
    · split at hone <;> cases hone
      rfl
  · rfl

/-- The batch loop takes none. -/
private theorem inboxes_batchLoop (budget : Nat) (es : List (Pending β δ)) (applied : Nat)
    (r : Replica β V δ S) (reapply : List Uuid) (due : List (Msg β V δ)) :
    (batchLoop B budget es applied r reapply due).1.inboxes = r.inboxes := by
  induction es generalizing applied r reapply due with
  | nil => rfl
  | cons e rest ih =>
    simp only [batchLoop]
    split
    · rfl
    · split
      · exact inboxes_applyNext B r e rest
      · rw [ih, inboxes_applyNext]

/-- Nor does a batch. -/
theorem inboxes_applyPendingBatch (budget : Nat) (r : Replica β V δ S) :
    (applyPendingBatch B budget r).inboxes = r.inboxes := by
  simp only [applyPendingBatch, inboxes_release]
  exact inboxes_batchLoop B budget r.pending 0 r [] []

variable [Inhabited β]

/-- A cold message is out of its inbox when it is dispatched. -/
private theorem inboxes_dispatchCold (r : Replica β V δ S) (m : Msg β V δ) :
    (dispatchCold B r m).inboxes = r.inboxes := by
  simp only [dispatchCold, dispatchChunk]
  repeat' split
  all_goals first
    | rfl
    | rw [inboxes_coldDone]; rfl

/-- So is every message when it is handled. -/
theorem inboxes_handle (r : Replica β V δ S) (m : Msg β V δ) :
    (handle B r m).inboxes = r.inboxes := by
  have hseen : (r.observed m).inboxes = r.inboxes := rfl
  simp only [handle, dispatch]
  split
  · split
    · rw [inboxes_dispatchFast, hseen]
    · rw [inboxes_dispatchCold, hseen]
  · exact hseen

end Replica

/-- A pump with the messages still to be taken, oldest first. -/
structure PumpNode (β V δ : Type) where
  pump : Pump β V δ
  cold : List (Msg β V δ)
  fast : List (Msg β V δ)

/-- What one action does: nothing, a message of either queue, or a batch. -/
inductive PumpStep [Inhabited β] : PumpNode β V δ → Option (Msg β V δ) → PumpNode β V δ → Prop where
  | idle (n : PumpNode β V δ) : PumpStep n none n
  | fast (p : Pump β V δ) (m : Msg β V δ) (c f : List (Msg β V δ)) :
      PumpStep ⟨p, c, m :: f⟩ (some m) ⟨p.handle m, c, f⟩
  | cold (p : Pump β V δ) (m : Msg β V δ) (c f : List (Msg β V δ)) :
      PumpStep ⟨p, m :: c, f⟩ (some m) ⟨p.handle m, c, f⟩
  | batch (p : Pump β V δ) (budget : Nat) (c f : List (Msg β V δ)) :
      PumpStep ⟨p, c, f⟩ none ⟨p.batch budget, c, f⟩

/-- The queues only ever lose messages. -/
theorem PumpStep.queues [Inhabited β] {n n' : PumpNode β V δ} {out : Option (Msg β V δ)}
    (h : PumpStep n out n') : n'.cold ⊆ n.cold ∧ n'.fast ⊆ n.fast := by
  cases h <;> simp

namespace Node

/-- The pump of a node, with what waits in the inboxes or on the lanes. -/
def order (n : Node β V δ S) : PumpNode β V δ where
  pump := n.replica.pump
  cold := n.replica.inbox ++ n.coldLane
  fast := n.replica.inboxFast ++ n.fastLane

/-- The message an action takes, if any. -/
def taken (n : Node β V δ S) : Act → Option (Msg β V δ)
  | .turn kf kc => (n.take kf kc).2
  | .batch _ => none

/-- Polling moves messages from a lane to its empty inbox and loses none. -/
private theorem poll_append {inbox lane : List (Msg β V δ)} (k : Nat) :
    (inbox ++ if inbox = [] then lane.take k else []) ++
      lane.drop (if inbox = [] then lane.take k else []).length = inbox ++ lane := by
  split
  · rename_i h
    rw [h, List.nil_append, List.nil_append, List.length_take]
    by_cases hk : k ≤ lane.length
    · rw [Nat.min_eq_left hk, List.take_append_drop]
    · rw [List.take_of_length_le (by omega), Nat.min_eq_right (by omega)]
      simp
  · simp

/-- A turn that takes a message takes the oldest of a queue, and touches nothing else. -/
theorem take_some {n n' : Node β V δ S} {kf kc : Nat} {m : Msg β V δ}
    (h : n.take kf kc = (n', some m)) :
    n'.order.pump = n.order.pump ∧ n'.replica.data = n.replica.data ∧
      n'.replica.log = n.replica.log ∧ n'.replica.merger = n.replica.merger ∧
      ((n.order.fast = m :: n'.order.fast ∧ n.order.cold = n'.order.cold) ∨
        (n.order.cold = m :: n'.order.cold ∧ n.order.fast = n'.order.fast)) := by
  have hfast := @poll_append _ _ _ n.replica.inboxFast n.fastLane (min kf 64)
  have hcold := @poll_append _ _ _ n.replica.inbox n.coldLane (min kc 8)
  -- the fast inbox first
  simp only [take] at h
  split at h
  · rename_i m' rest hpolled
    cases h
    rw [hpolled] at hfast
    exact ⟨rfl, rfl, rfl, rfl, .inl ⟨hfast.symm, rfl⟩⟩
  · -- it is empty: the cold one, if no blob waits
    rename_i hnone
    split at h
    · split at h
      · rename_i m' rest hpolled
        cases h
        rw [hpolled] at hcold
        refine ⟨rfl, rfl, rfl, rfl, .inr ⟨hcold.symm, ?_⟩⟩
        rw [hnone, List.nil_append] at hfast
        have hempty := (List.append_eq_nil_iff.mp hnone).1
        simp only [order, hempty, List.nil_append] at hfast ⊢
        exact hfast.symm
      · cases h
    · cases h

/-- A turn that finds nothing to take leaves everything as it was. -/
theorem take_none {n n' : Node β V δ S} {kf kc : Nat} (h : n.take kf kc = (n', none)) :
    n' = n := by
  simp only [take] at h
  split at h
  · cases h
  · split at h
    · split at h
      · cases h
      · cases h; rfl
    · cases h; rfl

variable [Inhabited β]

omit [Inhabited β] in
/-- Replacing the replica by one with the same inboxes keeps the queues. -/
theorem order_replica {n : Node β V δ S} {r : Replica β V δ S}
    (h : r.inboxes = n.replica.inboxes) :
    { n with replica := r }.order = ⟨r.pump, n.order.cold, n.order.fast⟩ := by
  simp only [Replica.inboxes, Prod.mk.injEq] at h
  simp only [order, h]

/-- One action of the apply loop is one step of its pump. -/
theorem step_order (B : Blender β V δ S) (n : Node β V δ S) (a : Act) :
    PumpStep n.order (n.taken a) (step B n a).order := by
  cases a with
  | turn kf kc =>
    simp only [taken, step]
    cases htake : n.take kf kc with
    | mk n' out =>
      cases out with
      | none =>
        rw [take_none htake]
        exact .idle _
      -- the message goes from its inbox to the pump
      | some m =>
        obtain ⟨hpump, -, -, -, hqueues⟩ := take_some htake
        have hstep : ({ n' with replica := n'.replica.handle B m } : Node β V δ S).order =
            ⟨n.order.pump.handle m, n'.order.cold, n'.order.fast⟩ := by
          rw [order_replica (Replica.inboxes_handle B n'.replica m), Replica.pump_handle, ← hpump]
          rfl
        simp only [hstep]
        rcases hqueues with ⟨hfast, hcold⟩ | ⟨hcold, hfast⟩
        · -- of the fast lane
          have : n.order = ⟨n.order.pump, n'.order.cold, m :: n'.order.fast⟩ := by
            rw [← hcold, ← hfast]
          rw [this]
          exact .fast ..
        · -- of the cold lane
          have : n.order = ⟨n.order.pump, m :: n'.order.cold, n'.order.fast⟩ := by
            rw [← hcold, ← hfast]
          rw [this]
          exact .cold ..
  -- a batch leaves both inboxes alone
  | batch budget =>
    have h : (step B n (.batch budget)).order =
        ⟨n.order.pump.batch budget, n.order.cold, n.order.fast⟩ := by
      rw [step, order_replica (Replica.inboxes_applyPendingBatch B budget n.replica)]
      rw [Replica.pump_applyPendingBatch]
      rfl
    rw [h]
    exact .batch ..

end Node

/-- A Blender in which everything works and nothing changes. -/
def Blender.inert : Blender Nat Nat Nat Unit where
  resolves _ _ := true
  writeRna s _ _ _ := some s
  remove s _ := some s
  applyBlob s _ := some (s, 0)
  openMainfile s _ := some (s, 0)
  applyLink s _ := s
  applyLibfile s _ _ := s

end QCBridge
