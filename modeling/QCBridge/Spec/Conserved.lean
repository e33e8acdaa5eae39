import QCBridge.ForStd.Guarded
import QCBridge.Ring1.Credit

/-!
# What an addon is charged

The addon's window is open or shut by what it was charged and not credited. That is right
while each frame of its own is somewhere on its way, or credited once.

A frame in the hands of a task that is aborted is nowhere: the fast task credits after it
sent, and is aborted while it sends. And an addon that attaches gets the credits of those
before it.

## Key results

- `CreditSystem.Conserved`: each frame is on its way or credited, and the charge is what is
  on its way
- `CreditSystem.Sound`: nothing is aborted with a frame in hand, and an addon finds nothing
  of another
- `credits_conserved`: runs of those
- `credits_conserved_counterexample`: a session that ends while a delta is sent
-/

namespace QCBridge

/-! ## Where frames are -/

/-- What tasks and `run_lanes` took and have not credited. -/
def LaneAgent.inHand (g : LaneAgent) : List LaneFrame :=
  g.lanes.owed ++ ((g.task .cold).owed ++ (g.task .fast).owed)

/-- What the agent has, credits that wait included. -/
def LaneAgent.frames (g : LaneAgent) : List LaneFrame :=
  g.queue .cold ++ (g.queue .fast ++ (g.inHand ++ credits g.prio))

/-- The frames on their way to the agent, in it, or on their way back as a credit. -/
def CreditSystem.inFlight (s : CreditSystem) : List LaneFrame :=
  s.up ++ (s.agent.frames ++ credits s.down)

/-- The bytes a frame takes of a lane's window. -/
def bytesOn (l : Lane) (f : LaneFrame) : Nat := if f.lane = l then f.len else 0

/-- The window of a lane. -/
def window : Lane → Nat
  | .cold => coldWindowBytes
  | .fast => fastWindowBytes

/-- A credit of the bytes of its frames, on their lane. -/
structure CreditAck.Exact (ack : CreditAck) : Prop where
  bytes : ack.bytes = weigh LaneFrame.len ack.frames
  lane : ∀ f ∈ ack.frames, f.lane = ack.lane

namespace CreditSystem

/-- Each frame of the addon is on its way or was credited, one or the other and once, with
    the bytes it was charged; the charge is what is on its way; and it is within the window
    or within one frame. -/
structure Conserved (s : CreditSystem) (a : Addon) : Prop where
  own : ∀ f ∈ s.sent, f.sender = a.id
  nodup : s.sent.Nodup
  once : s.sent.Perm (s.inFlight ++ credits s.credited)
  exact : ∀ ack ∈ s.credited, ack.Exact
  outstanding : ∀ l, a.outstanding l = weigh (bytesOn l) s.inFlight
  bounded : ∀ l, a.outstanding l ≤ window l ∨
    ∃ f ∈ s.sent, f.lane = l ∧ a.outstanding l ≤ f.len

/-- The actions that keep the account. A session ends with no frame in the hands of a task
    or of `run_lanes`. An addon attaches when nothing of another is on its way, and sends
    what is not too long, and not before it has the agent's reply. -/
def Sound (s : CreditSystem) : Act → Prop
  | .attach => s.agent.sink = none →
    s.agent.readers = [] ∧ s.up = [] ∧ s.agent.frames = [] ∧ s.agent.prio = []
  | .send _ head payload => frameSize head payload < maxFrame ∧
    ∀ a, s.addon = some a → a.linkUp = true → a.creditsBytes = true
  | .abort _ => s.agent.inHand = []
  | _ => True

end CreditSystem

/-! ## Weights -/

/-- No acknowledgement gives back nothing. -/
@[simp] theorem credits_nil : credits [] = [] := rfl

/-- One acknowledgement more. -/
@[simp] theorem credits_cons (ack : CreditAck) (acks : List CreditAck) :
    credits (ack :: acks) = ack.frames ++ credits acks := rfl

/-- What two stretches of acknowledgements give back. -/
@[simp] theorem credits_append (acks acks' : List CreditAck) :
    credits (acks ++ acks') = credits acks ++ credits acks' := List.flatMap_append

variable (w : LaneFrame → Nat)

/-- A frame in the agent is in a queue, with the session, with a lane's task, or its credit is on
    the way back. -/
private theorem LaneAgent.weigh_frames (g : LaneAgent) :
    weigh w g.frames = weigh w (g.queue .cold) + weigh w (g.queue .fast) +
      weigh w g.lanes.owed + weigh w (g.task .cold).owed + weigh w (g.task .fast).owed +
      weigh w (credits g.prio) := by
  unfold frames inHand
  simp only [weigh_append]
  omega

/-- A frame that is not credited is on the way to the agent, in it, or its credit is on the way to
    the addon. -/
private theorem CreditSystem.weigh_inFlight (s : CreditSystem) :
    weigh w s.inFlight = weigh w s.up + weigh w s.agent.frames + weigh w (credits s.down) := by
  unfold inFlight
  simp only [weigh_append]
  omega

/-- Frames of one lane take all their bytes of its window. -/
private theorem weigh_bytesOn {l : Lane} {fs : List LaneFrame} (h : ∀ f ∈ fs, f.lane = l)
    (l' : Lane) :
    weigh (bytesOn l') fs = if l = l' then weigh LaneFrame.len fs else 0 := by
  split
  · rename_i heq
    exact weigh_congr fun f hf => if_pos ((h f hf).trans heq)
  · rename_i hne
    exact weigh_eq_zero fun f hf => if_neg fun heq => hne ((h f hf).symm.trans heq)

/-! ## The agent -/

namespace LaneAgent

/-- Each lane's frames are on it, credits are exact, and tasks run while a session does. -/
structure Sorted (g : LaneAgent) : Prop where
  queue : ∀ l, ∀ f ∈ g.queue l, f.lane = l
  task : ∀ l, ∀ f ∈ (g.task l).owed, f.lane = l
  stale : ∀ l frames, g.lanes = .stale l frames → ∀ f ∈ frames, f.lane = l
  prio : ∀ ack ∈ g.prio, ack.Exact
  off : g.lanes ≠ .up → ∀ l, g.task l = .ended

variable {g : LaneAgent}

/-- The lengths that fit into the four bytes of a credit: those of a lane, together. -/
def Fits (g : LaneAgent) : Prop := ∀ l, weigh (bytesOn l) g.frames < UInt32.size

/-- Some of the frames of a lane fit too. -/
theorem Fits.part (hfits : g.Fits) {l : Lane} {fs : List LaneFrame} (hlane : ∀ f ∈ fs, f.lane = l)
    (hle : weigh (bytesOn l) fs ≤ weigh (bytesOn l) g.frames) :
    weigh LaneFrame.len fs < UInt32.size := by
  have hfs := weigh_bytesOn hlane l
  rw [if_pos rfl] at hfs
  have := hfits l
  omega

/-- A credit that is added is exact. -/
theorem Sorted.credit (h : g.Sorted) {l : Lane} {fs : List LaneFrame}
    (hlane : ∀ f ∈ fs, f.lane = l) (hfits : weigh LaneFrame.len fs < UInt32.size) :
    (g.credit l (weigh LaneFrame.len fs % UInt32.size) fs).Sorted where
  queue := h.queue
  task := h.task
  stale := h.stale
  off := h.off
  prio := by
    intro ack hack
    obtain hack | hack := List.mem_append.mp hack
    · exact h.prio ack hack
    · obtain rfl := List.mem_singleton.mp hack
      exact ⟨Nat.mod_eq_of_lt hfits, hlane⟩

/-- Credit for stale frames goes back in the lane that they came in. -/
theorem Sorted.creditStale (h : g.Sorted) {l : Lane} {fs : List LaneFrame}
    (hlane : ∀ f ∈ fs, f.lane = l) (hfits : weigh LaneFrame.len fs < UInt32.size) :
    (g.creditStale l fs).Sorted := by
  unfold LaneAgent.creditStale
  dsimp only
  split
  · exact h.credit hlane hfits
  · exact h

/-- The credit of what was drained stands for all of it: what weighs nothing is nothing. -/
private theorem credits_creditStale {l : Lane} {fs : List LaneFrame} (hpos : ∀ f ∈ fs, 0 < f.len)
    (hfits : weigh LaneFrame.len fs < UInt32.size) :
    weigh w (credits (g.creditStale l fs).prio) = weigh w (credits g.prio) + weigh w fs := by
  unfold creditStale
  rw [Nat.mod_eq_of_lt hfits]
  dsimp only
  split
  · simp [LaneAgent.credit]
  · rename_i hzero
    have hnil : fs = [] := eq_nil_of_weigh hpos (by omega)
    rw [hnil, weigh_nil, Nat.add_zero]

/-- The agent has the same frames afterwards, in other places. -/
structure Keeps (g g' : LaneAgent) : Prop where
  sorted : g'.Sorted
  weigh : ∀ w, weigh w g'.frames = weigh w g.frames
  sink : g'.sink = g.sink
  readers : g'.readers = g.readers

/-- Two steps that lose no frame. -/
theorem Keeps.trans {g' g'' : LaneAgent} (h : Keeps g g') (h' : Keeps g' g'') : Keeps g g'' where
  sorted := h'.sorted
  weigh w := (h'.weigh w).trans (h.weigh w)
  sink := h'.sink.trans h.sink
  readers := h'.readers.trans h.readers

/-- It touches nothing but the acknowledgements. -/
private theorem creditStale_rest (g : LaneAgent) (l : Lane) (fs : List LaneFrame) :
    (g.creditStale l fs).queue = g.queue ∧ (g.creditStale l fs).task = g.task ∧
      (g.creditStale l fs).lanes = g.lanes ∧ (g.creditStale l fs).sink = g.sink ∧
      (g.creditStale l fs).readers = g.readers := by
  unfold creditStale
  dsimp only
  split <;> exact ⟨rfl, rfl, rfl, rfl, rfl⟩

/-- What was drained is credited, and `run_lanes` has nothing in hand. -/
private theorem keeps_creditStale (h : g.Sorted) (hpos : ∀ f ∈ g.frames, 0 < f.len) (hfits : g.Fits)
    {l : Lane} {fs : List LaneFrame} (hlanes : g.lanes = .stale l fs) (lanes : Lanes)
    (hnone : lanes.owed = []) : Keeps g { g.creditStale l fs with lanes := lanes } := by
  have hlane := h.stale l fs hlanes
  obtain ⟨hqueue, htask, -, hsink, hreaders⟩ := creditStale_rest g l fs
  -- the sizes add up below what a counter holds
  have howed : g.lanes.owed = fs := by rw [hlanes]; rfl
  have hsmall : weigh LaneFrame.len fs < UInt32.size := by
    apply hfits.part hlane
    rw [g.weigh_frames, howed]
    omega
  have hpos : ∀ f ∈ fs, 0 < f.len := fun f hf => hpos f (by simp [frames, inHand, howed, hf])
  have hsorted := h.creditStale hlane hsmall
  -- what was in hand is credited now, so nothing is owed
  refine ⟨⟨hsorted.queue, hsorted.task, fun l' fs' heq f hf => ?_, hsorted.prio, fun _ l' => ?_⟩,
    fun w => ?_, hsink, hreaders⟩
  · have : lanes.owed = fs' := by rw [show lanes = .stale l' fs' from heq]; rfl
    rw [hnone] at this
    exact (List.not_mem_nil (this ▸ hf)).elim
  · exact (congrFun htask l').trans (h.off (by rw [hlanes]; exact Lanes.noConfusion) l')
  · -- every weight moves from the hand into the credit
    rw [LaneAgent.weigh_frames, LaneAgent.weigh_frames]
    simp only [hqueue, htask, hnone, howed, weigh_nil, credits_creditStale w hpos hsmall]
    omega

/-- What is drained of a stale queue is credited. -/
private theorem keeps_drain (h : g.Sorted) (hoff : g.lanes = .off) (l : Lane) :
    Keeps g (g.drain l) := by
  refine ⟨⟨fun l' f hf => ?_, h.task, fun l' fs heq f hf => ?_, h.prio, fun _ => ?_⟩,
    fun w => ?_, rfl, rfl⟩
  · -- queue: the drained one is empty
    change f ∈ Function.update g.queue l [] l' at hf
    by_cases heq : l' = l
    · subst heq
      simp at hf
    · rw [Function.update_of_ne heq] at hf
      exact h.queue l' f hf
  · -- stale: what was drained is of its lane
    obtain ⟨rfl, rfl⟩ := Lanes.stale.inj heq
    exact h.queue _ f hf
  · exact h.off (by rw [hoff]; exact Lanes.noConfusion)
  · -- every weight moves from the queue into the hand
    rw [LaneAgent.weigh_frames, LaneAgent.weigh_frames, hoff]
    cases l <;> simp [drain, Lanes.owed]
    omega

/-- `run_lanes` loses nothing by itself. -/
private theorem keeps_runLanes (h : g.Sorted) (hpos : ∀ f ∈ g.frames, 0 < f.len) (hfits : g.Fits) :
    Keeps g g.runLanes := by
  unfold runLanes
  cases hlanes : g.lanes with
  | off => exact keeps_drain h hlanes .cold
  | up => exact ⟨h, fun _ => rfl, rfl, rfl⟩
  | stale l fs =>
    -- what is in hand is credited, and the other lane is drained next
    cases l with
    | cold =>
      have hcredit := keeps_creditStale h hpos hfits hlanes .off rfl
      exact hcredit.trans (keeps_drain hcredit.sorted rfl .fast)
    -- both are drained: the tasks start, with nothing to do
    | fast =>
      have hcredit := keeps_creditStale h hpos hfits hlanes .up rfl
      have hover := h.off (by rw [hlanes]; exact Lanes.noConfusion)
      obtain ⟨hqueue, htask, -, -, -⟩ := creditStale_rest g .fast fs
      refine ⟨⟨hcredit.sorted.queue, fun l f hf => (by cases hf), hcredit.sorted.stale,
        hcredit.sorted.prio, fun hne => (hne rfl).elim⟩, fun w => ?_, hcredit.sink,
        hcredit.readers⟩
      rw [← hcredit.weigh w, LaneAgent.weigh_frames, LaneAgent.weigh_frames]
      simp [htask, hover, LaneTask.owed]

/-- A queue is replaced by one of frames of its lane. -/
private theorem Sorted.queue_update (h : g.Sorted) {l : Lane} {queue : List LaneFrame}
    (hqueue : ∀ f ∈ queue, f.lane = l) :
    ∀ l', ∀ f ∈ Function.update g.queue l queue l', f.lane = l' :=
  (Function.forall_update_iff g.queue fun l' fs => ∀ f ∈ fs, f.lane = l').mpr
    ⟨hqueue, fun l' _ => h.queue l'⟩

/-- A task is replaced by one that owes frames of its lane. -/
private theorem Sorted.task_update (h : g.Sorted) {l : Lane} {task : LaneTask}
    (htask : ∀ f ∈ task.owed, f.lane = l) :
    ∀ l', ∀ f ∈ (Function.update g.task l task l').owed, f.lane = l' :=
  (Function.forall_update_iff g.task fun l' t => ∀ f ∈ t.owed, f.lane = l').mpr
    ⟨htask, fun l' _ => h.task l'⟩

/-- A task that gets on owes what it took, and its credit is exact. -/
private theorem keeps_runTask (h : g.Sorted) (hfits : g.Fits) (l : Lane) (ok : Bool) :
    Keeps g (g.runTask l ok) := by
  have hkeep : Keeps g g := ⟨h, fun _ => rfl, rfl, rfl⟩
  -- a task that is not over is one of a session that runs
  have hup : g.task l ≠ .ended → ∀ task : Lane → LaneTask, g.lanes ≠ .up →
      ∀ l', task l' = .ended :=
    fun hne _ hoff => (hne (h.off hoff l)).elim
  unfold runTask
  cases htask : g.task l with
  | ended => exact hkeep
  | idle =>
    have hne : g.task l ≠ .ended := by rw [htask]; exact LaneTask.noConfusion
    cases hqueue : g.queue l with
    | nil => exact hkeep
    | cons f queue =>
      have hlane := h.queue l
      rw [hqueue] at hlane
      refine ⟨⟨h.queue_update fun f' hf' => hlane f' (List.mem_cons_of_mem _ hf'),
        h.task_update ?_, h.stale, h.prio,
        hup hne _⟩, fun w => ?_, rfl, rfl⟩
      · intro f' hf'
        have : f' = f := by cases l <;> exact List.mem_singleton.mp hf'
        exact this ▸ hlane f (List.mem_cons_self ..)
      · rw [LaneAgent.weigh_frames, LaneAgent.weigh_frames]
        cases l <;> simp [htask, hqueue, LaneTask.owed] <;> omega
  | sending f =>
    have hne : g.task l ≠ .ended := by rw [htask]; exact LaneTask.noConfusion
    have hlane := h.task l
    rw [htask] at hlane
    refine ⟨⟨h.queue, h.task_update hlane,
      h.stale, h.prio, hup hne _⟩, fun w => ?_, rfl, rfl⟩
    rw [LaneAgent.weigh_frames, LaneAgent.weigh_frames]
    cases l <;> simp [htask, LaneTask.owed]
  | owing f sent =>
    have hne : g.task l ≠ .ended := by rw [htask]; exact LaneTask.noConfusion
    have hlane := h.task l
    rw [htask] at hlane
    have hsmall : weigh LaneFrame.len [f] < UInt32.size := by
      apply hfits.part hlane
      rw [g.weigh_frames]
      cases l <;> simp [htask, LaneTask.owed] <;> omega
    have hsorted := h.credit hlane hsmall
    refine ⟨⟨h.queue, h.task_update ?_,
      h.stale, hsorted.prio, hup hne _⟩, fun w => ?_, rfl, rfl⟩
    · cases l with
      | cold => exact fun f hf => (List.not_mem_nil hf).elim
      | fast => cases sent <;> exact fun f hf => (List.not_mem_nil hf).elim
    · rw [LaneAgent.weigh_frames, LaneAgent.weigh_frames]
      cases l with
      | cold => simp [htask, LaneTask.owed, LaneAgent.credit]; omega
      | fast => cases sent <;> simp [htask, LaneTask.owed, LaneAgent.credit] <;> omega
  | handing f =>
    have hne : g.task l ≠ .ended := by rw [htask]; exact LaneTask.noConfusion
    refine ⟨⟨h.queue, h.task_update ?_,
      h.stale, h.prio, hup hne _⟩, fun w => ?_, rfl, rfl⟩
    · cases ok <;> exact fun f hf => (List.not_mem_nil hf).elim
    · rw [LaneAgent.weigh_frames, LaneAgent.weigh_frames]
      cases l <;> cases ok <;> simp [htask, LaneTask.owed]

/-- A session that ends with nothing in hand loses nothing. -/
private theorem keeps_abort (h : g.Sorted) (hnone : g.inHand = []) (store : Bool) :
    Keeps g (g.abort store) := by
  refine ⟨⟨h.queue, fun l f hf => (by cases hf), fun l fs heq => (by cases heq), h.prio,
    fun _ _ => rfl⟩, fun w => ?_, rfl, rfl⟩
  unfold frames
  rw [hnone]
  simp [abort, inHand, Lanes.owed, LaneTask.owed]

/-- The reader passes a frame on, or credits it. -/
theorem Sorted.read (h : g.Sorted) {f : LaneFrame} (hlen : f.len < UInt32.size)
    (connected : Bool) : (g.read f connected).Sorted := by
  unfold LaneAgent.read
  split
  · refine ⟨h.queue_update ?_, h.task, h.stale, h.prio, h.off⟩
    intro f' hf'
    obtain hf' | hf' := List.mem_append.mp hf'
    · exact h.queue f.lane f' hf'
    · rw [List.mem_singleton.mp hf']
  · have hone : ∀ f' ∈ [f], f'.lane = f.lane := fun f' hf' => by rw [List.mem_singleton.mp hf']
    exact h.credit hone hlen

/-- A frame that is read is in the agent. -/
private theorem weigh_read (g : LaneAgent) (f : LaneFrame) (connected : Bool) :
    weigh w (g.read f connected).frames = weigh w g.frames + w f := by
  rw [LaneAgent.weigh_frames, LaneAgent.weigh_frames]
  unfold LaneAgent.read
  split
  · cases hl : f.lane <;> simp <;> omega
  · simp [LaneAgent.credit]
    omega

/-- Reading a frame lets no addon come or go. -/
private theorem read_rest (g : LaneAgent) (f : LaneFrame) (connected : Bool) :
    (g.read f connected).sink = g.sink ∧ (g.read f connected).readers = g.readers := by
  unfold LaneAgent.read
  split <;> exact ⟨rfl, rfl⟩

end LaneAgent

/-! ## The addon -/

/-- With the link down nothing goes. -/
private theorem Addon.linkUp_of_mustWait {a : Addon} {l : Lane} {cost w : Nat}
    (hwait : a.mustWait l cost w = false) : a.linkUp = true := by
  unfold mustWait at hwait
  simp only [Bool.or_eq_false_iff, Bool.not_eq_false'] at hwait
  exact hwait.1

/-- What goes fits in the window, or finds the lane empty. -/
private theorem Addon.room_of_mustWait {a : Addon} {l : Lane} {cost : Nat}
    (hwait : a.mustWait l cost (window l) = false) :
    a.outstanding l = 0 ∨ a.outstanding l + cost ≤ window l := by
  unfold mustWait at hwait
  simp only [Bool.or_eq_false_iff, Bool.and_eq_false_iff, decide_eq_false_iff_not] at hwait
  omega

/-- `send_cold` goes through where the window has room, or nothing is outstanding: then a frame
    larger than the window does. -/
private theorem Addon.sendCold_eq_some {a a' : Addon} {size : Nat}
    (hbytes : a.linkUp = true → a.creditsBytes = true) (h : a.sendCold size = some a') :
    a' = a.charge .cold size ∧
      (a.outstanding .cold = 0 ∨ a.outstanding .cold + size ≤ window .cold) := by
  unfold sendCold at h
  cases hb : a.creditsBytes with
  | true =>
    simp only [hb, if_true] at h
    split at h
    · cases h
    · rename_i hwait
      exact ⟨(Option.some.inj h).symm, Addon.room_of_mustWait (Bool.not_eq_true _ ▸ hwait)⟩
  | false =>
    -- credits by the frame: with the link up they are in bytes
    simp only [hb, Bool.false_eq_true, if_false] at h
    split at h
    · cases h
    · rename_i hwait
      rw [hbytes (Addon.linkUp_of_mustWait (Bool.not_eq_true _ ▸ hwait))] at hb
      cases hb

/-- A frame that goes is charged its size, on the lane it goes on. -/
private theorem Addon.send_eq_some {a a' : Addon} {l l' : Lane} {size : Nat}
    (hbytes : a.linkUp = true → a.creditsBytes = true) (h : a.send l size = some (a', l')) :
    a' = a.charge l' size ∧ (a.outstanding l' = 0 ∨ a.outstanding l' + size ≤ window l') := by
  -- a cold frame
  have hcold : (a.sendCold size).map (fun a => (a, Lane.cold)) = some (a', l') →
      a' = a.charge l' size ∧
        (a.outstanding l' = 0 ∨ a.outstanding l' + size ≤ window l') := by
    intro h
    obtain ⟨a₀, ha₀, heq⟩ := Option.map_eq_some_iff.mp h
    obtain ⟨rfl, rfl⟩ := Prod.mk.inj heq
    exact Addon.sendCold_eq_some hbytes ha₀
  cases l with
  | cold => exact hcold h
  -- a fast one goes cold when it is too big, and waits when there is no room
  | fast =>
    unfold send sendFast at h
    dsimp only at h
    split at h
    · exact hcold h
    · split at h
      · cases h
      · rename_i hwait
        obtain ⟨rfl, rfl⟩ := Prod.mk.inj (Option.some.inj h)
        exact ⟨rfl, Addon.room_of_mustWait (Bool.not_eq_true _ ▸ hwait)⟩

/-! ## The account -/

namespace CreditSystem

/-- The account of an addon, and what keeps it. -/
structure Accounted (s : CreditSystem) (a : Addon) : Prop where
  sorted : s.agent.Sorted
  sink : s.agent.sink = some a.id
  readers : s.agent.readers = [a.id]
  own : ∀ f ∈ s.sent, f.sender = a.id ∧ f.n < a.sends
  len : ∀ f ∈ s.sent, 0 < f.len ∧ f.len < maxFrame
  nodup : s.sent.Nodup
  weigh : ∀ w, weigh w s.sent = weigh w s.inFlight + weigh w (credits s.credited)
  down : ∀ ack ∈ s.down, ack.Exact
  credited : ∀ ack ∈ s.credited, ack.Exact
  outstanding : ∀ l, a.outstanding l = QCBridge.weigh (bytesOn l) s.inFlight
  bounded : ∀ l, a.outstanding l ≤ window l ∨
    ∃ f ∈ s.sent, f.lane = l ∧ a.outstanding l ≤ f.len

namespace Accounted

variable {s : CreditSystem} {a : Addon}

/-- What was sent is in flight or credited, each once. -/
private theorem perm (h : s.Accounted a) : s.sent.Perm (s.inFlight ++ credits s.credited) :=
  perm_of_weigh fun w => (h.weigh w).trans (weigh_append w _ _).symm

/-- What is in flight was sent. -/
private theorem sent_of_inFlight (h : s.Accounted a) {f : LaneFrame} (hf : f ∈ s.inFlight) :
    f ∈ s.sent :=
  h.perm.mem_iff.mpr (List.mem_append_left _ hf)

/-- So the addon's count is what it has sent and not got credit for. -/
theorem conserved (h : s.Accounted a) : s.Conserved a where
  own f hf := (h.own f hf).1
  nodup := h.nodup
  once := h.perm
  exact := h.credited
  outstanding := h.outstanding
  bounded := h.bounded

/-- What is in flight of a lane fits into a credit. -/
theorem fits (h : s.Accounted a) : s.agent.Fits := by
  intro l
  have hle : QCBridge.weigh (bytesOn l) s.agent.frames ≤ a.outstanding l := by
    rw [h.outstanding, s.weigh_inFlight]
    omega
  apply Nat.lt_of_le_of_lt hle
  obtain hw | ⟨f, hf, -, hlen⟩ := h.bounded l
  · apply Nat.lt_of_le_of_lt hw
    cases l <;> decide
  · exact Nat.lt_of_le_of_lt hlen (Nat.lt_trans (h.len f hf).2 (by decide))

/-- A frame in the agent counts for something. -/
theorem pos (h : s.Accounted a) : ∀ f ∈ s.agent.frames, 0 < f.len := fun f hf =>
  (h.len f (h.sent_of_inFlight (List.mem_append_right _ (List.mem_append_left _ hf)))).1

/-- What the agent does by itself. -/
theorem agent (h : s.Accounted a) {g : LaneAgent} (hg : s.agent.Keeps g) :
    Accounted { s with agent := g } a where
  sorted := hg.sorted
  sink := hg.sink.trans h.sink
  readers := hg.readers.trans h.readers
  own := h.own
  len := h.len
  nodup := h.nodup
  weigh w := by
    rw [h.weigh w, weigh_inFlight, weigh_inFlight, hg.weigh w]
  down := h.down
  credited := h.credited
  outstanding l := by
    rw [h.outstanding l, weigh_inFlight, weigh_inFlight, hg.weigh]
  bounded := h.bounded

/-- What the addon learns of the link. -/
theorem addon (h : s.Accounted a) {a' : Addon} (hid : a'.id = a.id) (hsends : a'.sends = a.sends)
    (hout : a'.outstanding = a.outstanding) (x : Option Addon) :
    Accounted { s with addon := x } a' where
  sorted := h.sorted
  sink := hid ▸ h.sink
  readers := hid ▸ h.readers
  own f hf := hid ▸ hsends ▸ h.own f hf
  len := h.len
  nodup := h.nodup
  weigh := h.weigh
  down := h.down
  credited := h.credited
  outstanding l := hout ▸ h.outstanding l
  bounded l := hout ▸ h.bounded l

/-- A frame that goes is charged. -/
theorem send (h : s.Accounted a) {a' : Addon} {l : Lane} {size : Nat} (hpos : 0 < size)
    (hlen : size < maxFrame) (ha' : a' = a.charge l size)
    (hroom : a.outstanding l = 0 ∨ a.outstanding l + size ≤ window l) :
    Accounted { s with
      addon := some a'
      up := s.up ++ [⟨l, size, a.id, a.sends⟩]
      sent := s.sent ++ [⟨l, size, a.id, a.sends⟩] } a' := by
  subst ha'
  have hnew : (⟨l, size, a.id, a.sends⟩ : LaneFrame) ∉ s.sent := fun hf =>
    Nat.lt_irrefl _ (h.own _ hf).2
  have hout : ∀ l', (a.charge l size).outstanding l' =
      a.outstanding l' + (if l' = l then size else 0) := by
    intro l'
    unfold Addon.charge
    by_cases heq : l' = l
    · subst heq; simp
    · simp [heq]
  refine ⟨h.sorted, h.sink, h.readers, fun f hf => ?_, fun f hf => ?_, ?_, fun w => ?_, h.down,
    h.credited, fun l' => ?_, fun l' => ?_⟩
  · change f.sender = a.id ∧ f.n < a.sends + 1
    obtain hf | hf := List.mem_append.mp hf
    · exact ⟨(h.own f hf).1, Nat.lt_succ_of_lt (h.own f hf).2⟩
    · obtain rfl := List.mem_singleton.mp hf
      exact ⟨rfl, Nat.lt_succ_self _⟩
  · obtain hf | hf := List.mem_append.mp hf
    · exact h.len f hf
    · obtain rfl := List.mem_singleton.mp hf
      exact ⟨hpos, hlen⟩
  · apply List.nodup_append.mpr
    refine ⟨h.nodup, List.nodup_singleton _, fun f hf f' hf' heq => ?_⟩
    rw [List.mem_singleton.mp hf'] at heq
    exact hnew (heq ▸ hf)
  · have := h.weigh w
    rw [weigh_inFlight] at this ⊢
    simp only [weigh_append, weigh_cons, weigh_nil]
    omega
  · have := h.outstanding l'
    rw [weigh_inFlight] at this ⊢
    rw [hout, this]
    simp only [weigh_append, weigh_cons, weigh_nil, bytesOn, eq_comm (a := l) (b := l')]
    omega
  · rw [hout]
    by_cases heq : l' = l
    · subst heq
      rw [if_pos rfl]
      obtain hzero | hle := hroom
      · -- nothing was in flight: one frame may be larger than the window
        refine .inr ⟨_, List.mem_append_right _ (List.mem_singleton_self _), rfl, ?_⟩
        exact Nat.le_of_eq (by rw [hzero, Nat.zero_add])
      · exact .inl hle
    · rw [if_neg heq, Nat.add_zero]
      obtain hle | ⟨f, hf, hrest⟩ := h.bounded l'
      · exact .inl hle
      · exact .inr ⟨f, List.mem_append_left _ hf, hrest⟩

/-- A credit gives back what its frames were charged. -/
theorem onAck (h : s.Accounted a) {ack : CreditAck} {down : List CreditAck}
    (hdown : s.down = ack :: down) :
    Accounted { s with
      addon := some (a.onAck ack.lane ack.bytes)
      down := down
      credited := s.credited ++ [ack] } (a.onAck ack.lane ack.bytes) := by
  -- the ack is of its own lane and exact
  have hack : ack.Exact := h.down ack (hdown ▸ List.mem_cons_self ..)
  have hout : ∀ l, (a.onAck ack.lane ack.bytes).outstanding l =
      a.outstanding l - QCBridge.weigh (bytesOn l) ack.frames := by
    -- what is outstanding is less by the frames of the ack
    intro l
    rw [weigh_bytesOn hack.lane l, ← hack.bytes]
    unfold Addon.onAck
    by_cases heq : ack.lane = l
    · subst heq; simp
    · simp [heq, Ne.symm heq]
  -- and so is what is in flight
  have hflight : ∀ w, QCBridge.weigh w s.inFlight = QCBridge.weigh w ack.frames +
      QCBridge.weigh w (s.up ++ (s.agent.frames ++ credits down)) := by
    intro w
    rw [weigh_inFlight, hdown]
    simp only [credits_cons, weigh_append]
    omega
  refine ⟨h.sorted, h.sink, h.readers, h.own, h.len, h.nodup, fun w => ?_,
    fun ack' hack' => h.down ack' (hdown ▸ List.mem_cons_of_mem _ hack'), fun ack' hack' => ?_,
    fun l => ?_, fun l => ?_⟩
  · -- every weight that was sent is in flight or credited
    change QCBridge.weigh w s.sent = QCBridge.weigh w (s.up ++ (s.agent.frames ++ credits down)) +
      QCBridge.weigh w (credits (s.credited ++ [ack]))
    rw [h.weigh w, hflight]
    simp only [credits_append, credits_cons, credits_nil, List.append_nil, weigh_append]
    omega
  · -- the credits are exact
    obtain hack' | hack' := List.mem_append.mp hack'
    · exact h.credited ack' hack'
    · exact List.mem_singleton.mp hack' ▸ hack
  · -- outstanding is what is in flight
    rw [hout, h.outstanding, hflight]
    exact Nat.add_sub_cancel_left ..
  · -- and it stays below the bound, since it is less
    rw [hout]
    have := h.bounded l
    obtain hle | ⟨f, hf, hlane, hlen⟩ := this
    · exact .inl (Nat.le_trans (Nat.sub_le ..) hle)
    · exact .inr ⟨f, hf, hlane, Nat.le_trans (Nat.sub_le ..) hlen⟩

/-- What only moves frames. -/
theorem move (h : s.Accounted a) {s' : CreditSystem} (hsorted : s'.agent.Sorted)
    (hsink : s'.agent.sink = s.agent.sink) (hreaders : s'.agent.readers = s.agent.readers)
    (hsent : s'.sent = s.sent) (hcredited : s'.credited = s.credited)
    (hdown : ∀ ack ∈ s'.down, ack.Exact)
    (hflight : ∀ w, QCBridge.weigh w s'.inFlight = QCBridge.weigh w s.inFlight) :
    s'.Accounted a where
  sorted := hsorted
  sink := hsink.trans h.sink
  readers := hreaders.trans h.readers
  own := hsent ▸ h.own
  len := hsent ▸ h.len
  nodup := hsent ▸ h.nodup
  weigh w := by rw [hsent, hcredited, hflight, h.weigh]
  down := hdown
  credited := hcredited ▸ h.credited
  outstanding l := by rw [hflight, h.outstanding]
  bounded := hsent ▸ h.bounded

/-- The reader. -/
theorem read (h : s.Accounted a) (id : Nat) (connected : Bool) :
    (s.read id connected).Accounted a := by
  unfold CreditSystem.read
  split
  · exact h
  · -- the frame comes from the addon's stream
    rename_i f hfind
    have hf : f ∈ s.up := List.mem_of_find?_eq_some hfind
    have hlen := h.len f (h.sent_of_inFlight (List.mem_append_left _ hf))
    rw [if_neg (Nat.not_le.mpr hlen.2)]
    obtain ⟨hsink, hreaders⟩ := s.agent.read_rest f connected
    -- it is on a lane now, or credited at once
    refine h.move (h.sorted.read (Nat.lt_trans hlen.2 (by decide)) connected) hsink hreaders rfl
      rfl h.down fun w => ?_
    rw [weigh_inFlight, weigh_inFlight, LaneAgent.weigh_read]
    have := weigh_erase w hf
    dsimp only
    omega

/-- The writer: the addon is there to take the credit. -/
theorem write (h : s.Accounted a) (ha : s.addon = some a) (fails : Bool) :
    (s.write fails).Accounted a := by
  unfold CreditSystem.write
  rw [h.sink]
  split
  · -- a credit goes to the addon that is there
    rename_i ack prio id hprio hid
    obtain rfl := Option.some.inj hid
    rw [if_pos (by rw [ha]; simp)]
    have hack := h.sorted.prio ack (hprio ▸ List.mem_cons_self ..)
    refine h.move ⟨h.sorted.queue, h.sorted.task, h.sorted.stale, fun ack' hack' =>
      h.sorted.prio ack' (hprio ▸ List.mem_cons_of_mem _ hack'), h.sorted.off⟩ rfl rfl rfl
      rfl (fun ack' hack' => ?_) fun w => ?_
    · -- it is exact
      obtain hack' | hack' := List.mem_append.mp hack'
      · exact h.down ack' hack'
      · exact List.mem_singleton.mp hack' ▸ hack
    · -- and is on its way down
      rw [weigh_inFlight, weigh_inFlight, LaneAgent.weigh_frames, LaneAgent.weigh_frames, hprio]
      simp only [credits_cons, credits_append, weigh_append, credits_nil, List.append_nil]
      omega
  · exact h

end Accounted

/-! ## Tasks run while a session does, whoever is attached -/

/-- There is no task without a session. -/
def Off (g : LaneAgent) : Prop := g.lanes ≠ .up → ∀ l, g.task l = .ended

/-- While no session is on, the lanes' task starts none. -/
private theorem off_runLanes {g : LaneAgent} (h : Off g) : Off g.runLanes := by
  unfold LaneAgent.runLanes
  cases hlanes : g.lanes with
  | off => exact fun _ => h (by rw [hlanes]; exact Lanes.noConfusion)
  | up => exact h
  | stale l frames =>
    have hover := h (by rw [hlanes]; exact Lanes.noConfusion)
    cases l with
    | cold =>
      obtain ⟨-, htask, -⟩ := g.creditStale_rest .cold frames
      exact fun _ l => (congrFun htask l).trans (hover l)
    | fast => exact fun hne => (hne rfl).elim

/-- And no lane's task gets a frame to send. -/
private theorem off_runTask {g : LaneAgent} (h : Off g) (l : Lane) (ok : Bool) :
    Off (g.runTask l ok) := by
  have hlanes : (g.runTask l ok).lanes = g.lanes := by
    unfold LaneAgent.runTask
    cases g.task l with
    | idle => cases g.queue l <;> rfl
    | _ => rfl
  intro hne l'
  rw [hlanes] at hne
  have hover := h hne l
  unfold LaneAgent.runTask
  rw [hover]
  exact h hne l'

/-- No action of such a stretch starts one. -/
private theorem off_step {s : CreditSystem} (h : Off s.agent) (act : Act) :
    Off (s.step act).agent := by
  cases act with
  -- what starts no lane of a session
  | attached peerUp => exact h
  | peer up => exact h
  | detach kept => exact h
  | runLanes => exact off_runLanes h
  | runTask l ok => exact off_runTask h l ok
  | abort store => exact fun _ _ => rfl
  -- the addon's side leaves the agent's lanes alone
  | attach =>
    change Off s.attach.agent
    unfold CreditSystem.attach
    split <;> exact h
  | send l head payload =>
    change Off (s.send l (frameSize head payload)).agent
    unfold CreditSystem.send
    split
    · exact h
    · split <;> exact h
  | onAck =>
    change Off s.onAck.agent
    unfold CreditSystem.onAck
    split <;> exact h
  -- so do its readers and its writer
  | read id connected =>
    change Off (s.read id connected).agent
    unfold CreditSystem.read
    split
    · exact h
    · split
      · exact h
      · unfold LaneAgent.read
        split <;> exact h
  | endReader id =>
    change Off (s.endReader id).agent
    unfold CreditSystem.endReader
    split <;> exact h
  | write fails =>
    change Off (s.write fails).agent
    unfold CreditSystem.write
    split
    · split <;> exact h
    · exact h

/-! ## Runs -/

/-- Whoever is attached has its account. -/
structure Kept (s : CreditSystem) : Prop where
  off : Off s.agent
  accounted : ∀ a, s.addon = some a → s.Accounted a

/-- An addon that finds nothing of another starts from nothing. -/
theorem Kept.attach {s : CreditSystem} (h : s.Kept) (hs : s.Sound .attach) {a : Addon}
    (ha : s.attach.addon = some a) : s.attach.Accounted a := by
  cases hsink : s.agent.sink with
  | some id =>
    have hsame : s.attach = s := by
      unfold CreditSystem.attach
      rw [if_pos (by rw [hsink]; rfl)]
    rw [hsame] at ha ⊢
    exact h.accounted a ha
  | none =>
    obtain ⟨hreaders, hup, hframes, hprio⟩ := hs hsink
    unfold CreditSystem.attach at ha ⊢
    rw [if_neg (by rw [hsink]; exact Bool.false_ne_true)] at ha ⊢
    obtain rfl := Option.some.inj ha
    -- an agent without frames has none anywhere
    have hnone : ∀ f, f ∉ s.agent.frames := by
      intro f hf
      rw [hframes] at hf
      exact List.not_mem_nil hf
    have hhand : ∀ f, f ∉ s.agent.inHand := fun f hf =>
      hnone f (by simp [LaneAgent.frames, hf])
    have hflight : ∀ (w : LaneFrame → Nat) (sink : Option Nat) (readers : List Nat),
        0 = weigh w { s.agent with sink := sink, readers := readers }.frames := by
      intro w sink readers
      change 0 = weigh w s.agent.frames
      rw [hframes]
      rfl
    refine ⟨⟨fun l f hf => ?_, fun l f hf => ?_, fun l frames heq f hf => ?_, fun ack hack => ?_,
      h.off⟩, rfl, by rw [hreaders], fun f hf => (List.not_mem_nil hf).elim,
      fun f hf => (List.not_mem_nil hf).elim, List.nodup_nil, fun w => ?_,
      fun ack hack => (List.not_mem_nil hack).elim, fun ack hack => (List.not_mem_nil hack).elim,
      fun l => ?_, fun l => .inl (Nat.zero_le _)⟩
    · exact (hnone f (by cases l <;> simp [LaneAgent.frames] <;> simp [hf])).elim
    · exact (hhand f (by cases l <;> simp [LaneAgent.inHand] <;> simp [hf])).elim
    · exact (hhand f (by
        change s.agent.lanes = _ at heq
        simp [LaneAgent.inHand, heq, Lanes.owed, hf])).elim
    · change ack ∈ s.agent.prio at hack
      rw [hprio] at hack
      exact (List.not_mem_nil hack).elim
    · rw [weigh_inFlight, hup]
      simpa using hflight w _ _
    · rw [weigh_inFlight, hup]
      simpa using hflight (bytesOn l) _ _

/-- A frame that is sent is charged and on its way. -/
theorem Kept.send {s : CreditSystem} (h : s.Kept) {l : Lane} {head payload : Nat}
    (hs : s.Sound (.send l head payload)) {a : Addon}
    (ha : (s.send l (frameSize head payload)).addon = some a) :
    (s.send l (frameSize head payload)).Accounted a := by
  unfold CreditSystem.send at ha ⊢
  split
  · -- no addon: none sends
    rename_i hnone
    rw [hnone] at ha
    cases hnone.symm.trans ha
  · rename_i a₀ ha₀
    rw [ha₀] at ha
    dsimp only at ha
    split
    · -- it waits: nothing is charged
      rename_i hsend
      rw [hsend] at ha
      exact h.accounted a ha
    · -- it goes: its size is charged
      rename_i a' l' hsend
      rw [hsend] at ha
      obtain rfl := Option.some.inj ha
      obtain ⟨hcharge, hroom⟩ := Addon.send_eq_some (hs.2 a₀ ha₀) hsend
      exact (h.accounted a₀ ha₀).send (by unfold frameSize; omega) hs.1 hcharge hroom

/-- An acknowledgement that arrives gives its frames back. -/
theorem Kept.onAck {s : CreditSystem} (h : s.Kept) {a : Addon} (ha : s.onAck.addon = some a) :
    s.onAck.Accounted a := by
  unfold CreditSystem.onAck at ha ⊢
  split
  · rename_i a₀ ack down ha₀ hdown
    rw [ha₀, hdown] at ha
    obtain rfl := Option.some.inj ha
    exact (h.accounted a₀ ha₀).onAck hdown
  · rename_i hnone
    split at ha
    · rename_i ha₀ hdown
      exact (hnone _ _ _ ha₀ hdown).elim
    · exact h.accounted a ha

/-- One action. -/
theorem Kept.step {s : CreditSystem} (h : s.Kept) {act : Act} (hs : s.Sound act) :
    (s.step act).Kept := by
  refine ⟨off_step h.off act, ?_⟩
  cases act with
  | attach => exact fun a ha => h.attach hs ha
  | attached peerUp =>
    intro a' ha'
    obtain ⟨a, ha, rfl⟩ := Option.map_eq_some_iff.mp ha'
    exact (h.accounted a ha).addon (by rfl) (by rfl) (by rfl) _
  | peer up =>
    intro a' ha'
    obtain ⟨a, ha, rfl⟩ := Option.map_eq_some_iff.mp ha'
    exact (h.accounted a ha).addon (by rfl) (by rfl) (by rfl) _
  | detach kept => exact fun a ha => (by cases ha)
  | send l head payload => exact fun a ha => h.send hs ha
  | onAck => exact fun a ha => h.onAck ha
  | read id connected =>
    intro a ha
    have haddon : (s.read id connected).addon = s.addon := by
      unfold CreditSystem.read
      split
      · rfl
      · split <;> rfl
    exact (h.accounted a (haddon ▸ ha)).read id connected
  | endReader id =>
    intro a ha
    have haddon : (s.endReader id).addon = s.addon := by
      unfold CreditSystem.endReader
      split <;> rfl
    have hacc := h.accounted a (haddon ▸ ha)
    -- the one reader there is is that of the addon, which is there
    have hsame : s.endReader id = s := by
      unfold CreditSystem.endReader
      apply if_pos
      rw [haddon.symm.trans ha, hacc.readers]
      by_cases heq : a.id = id
      · simp [heq]
      · simp [heq, Ne.symm heq]
    change (s.endReader id).Accounted a
    rw [hsame]
    exact hacc
  | write fails =>
    intro a ha
    have haddon : (s.write fails).addon = s.addon := by
      unfold CreditSystem.write
      split
      · split <;> rfl
      · rfl
    exact (h.accounted a (haddon ▸ ha)).write (haddon ▸ ha) fails
  | runLanes =>
    intro a ha
    have hacc := h.accounted a ha
    exact hacc.agent (LaneAgent.keeps_runLanes hacc.sorted hacc.pos hacc.fits)
  | runTask l ok =>
    intro a ha
    have hacc := h.accounted a ha
    exact hacc.agent (LaneAgent.keeps_runTask hacc.sorted hacc.fits l ok)
  | abort store =>
    intro a ha
    have hacc := h.accounted a ha
    exact hacc.agent (LaneAgent.keeps_abort hacc.sorted hs store)

end CreditSystem

open CreditSystem

/-- In every run of those actions, whoever is attached has each of its frames on its way or
    credited, is charged what is on its way, and is within its windows. -/
theorem credits_conserved (acts : List Act) (hacts : Along step Sound {} acts) (a : Addon)
    (ha : (run acts).addon = some a) : (run acts).Conserved a :=
  ((Along.invariant (I := Kept) (fun _ _ h hs => h.step hs)
    ⟨fun _ _ => rfl, fun _ h => (by cases h)⟩ hacts).accounted a ha).conserved

/-! ## A session that ends too soon -/

namespace LostInHand

/-- A session runs, an addon is attached, and a delta of 10 bytes is in the hands of the
    fast task. -/
def sending : List Act :=
  [.runLanes, .runLanes, .runLanes, .attach, .attached true, .send .fast 4 1, .read 0 true,
    .runTask .fast true]

/-- It is sent and credited, and the session ends. -/
def credited : List Act :=
  sending ++ [.runTask .fast true, .runTask .fast true, .write false, .onAck, .abort true]

end LostInHand

open LostInHand in
/-- A delta that is credited before the session ends. -/
theorem credits_conserved_credited :
    ∃ a, (run credited).addon = some a ∧ (run credited).Conserved a := by
  refine ⟨_, rfl, credits_conserved credited ?_ _ rfl⟩
  refine ⟨trivial, trivial, trivial, fun _ => by decide, trivial, ⟨by decide, fun a ha _ => ?_⟩,
    trivial, trivial, trivial, trivial, trivial, trivial, rfl, trivial⟩
  obtain rfl := Option.some.inj ha
  rfl

open LostInHand in
/-- The session ends while the delta is sent: nothing is on its way, and the addon stays
    charged. -/
theorem credits_conserved_counterexample :
    ∃ a, (run (sending ++ [.abort true])).addon = some a ∧
      ¬ (run (sending ++ [.abort true])).Conserved a := by
  refine ⟨_, rfl, fun h => ?_⟩
  have := h.outstanding .fast
  revert this
  decide

end QCBridge
