import QCBridge.ForStd.Each
import QCBridge.Spec.Unattended

/-!
# What passes through the link

The writer sleeps on the cold queue only. Whoever queues a priority frame wakes it over that
queue afterwards, and if the queue has no room for the `Wake`, there is something in it to wake
the writer with. Frames leave each queue in the order they came, and no cold frame gets ahead of
a priority frame that was queued when it was taken.
-/

namespace QCBridge

/-- The queues toward the addon. -/
inductive LinkQueue where
  /-- `prio_tx`. -/
  | prio
  /-- `tx`. -/
  | cold
deriving DecidableEq, Repr

/-- What happened to a frame. -/
inductive Passage where
  | queued (q : LinkQueue) (f : OutFrame)
  /-- A cold frame woke the writer. -/
  | dequeued (f : OutFrame)
  /-- The writer put a frame of a queue down; the addon that it was written to, if any. -/
  | done (q : LinkQueue) (f : OutFrame) (addon : Option Nat)
  /-- A hot value was written, or the reply to an addon that attaches. -/
  | aside (c : Nat) (f : OutFrame)
deriving DecidableEq, Repr

namespace Passage

/-- The frame that went into `q`. -/
@[simp] def queuedOn (q : LinkQueue) : Passage → Option OutFrame
  | queued q' f => if q' = q then some f else none
  | _ => none

/-- The frame of `q` that was put down. -/
@[simp] def doneOn (q : LinkQueue) : Passage → Option OutFrame
  | done q' f _ => if q' = q then some f else none
  | _ => none

/-- What was written, and to which addon. -/
@[simp] def written : Passage → Option (Nat × OutFrame)
  | done _ f addon => addon.map (·, f)
  | aside c f => some (c, f)
  | _ => none

end Passage

/-- The frames that went into `q`. -/
def queuedOn (q : LinkQueue) (log : List Passage) : List OutFrame :=
  log.filterMap (Passage.queuedOn q)

/-- The frames of `q` that were put down. -/
def doneOn (q : LinkQueue) (log : List Passage) : List OutFrame :=
  log.filterMap (Passage.doneOn q)

/-- What went into a queue in two stretches. -/
@[simp] theorem queuedOn_append (q : LinkQueue) (l l' : List Passage) :
    queuedOn q (l ++ l') = queuedOn q l ++ queuedOn q l' := List.filterMap_append ..

/-- What was put down in two stretches. -/
@[simp] theorem doneOn_append (q : LinkQueue) (l l' : List Passage) :
    doneOn q (l ++ l') = doneOn q l ++ doneOn q l' := List.filterMap_append ..

/-- Nothing went in. -/
@[simp] theorem queuedOn_nil (q : LinkQueue) : queuedOn q [] = [] := rfl

/-- Nothing was put down. -/
@[simp] theorem doneOn_nil (q : LinkQueue) : doneOn q [] = [] := rfl

/-- One entry of the log, for what goes in. -/
@[simp] theorem queuedOn_singleton (q : LinkQueue) (e : Passage) :
    queuedOn q [e] = (e.queuedOn q).toList := by
  unfold queuedOn
  cases h : e.queuedOn q <;> rw [List.filterMap_cons, h] <;> rfl

/-- One entry of the log, for what is put down. -/
@[simp] theorem doneOn_singleton (q : LinkQueue) (e : Passage) :
    doneOn q [e] = (e.doneOn q).toList := by
  unfold doneOn
  cases h : e.doneOn q <;> rw [List.filterMap_cons, h] <;> rfl

/-- A frame is put down, written to `addon` if to anyone. -/
def AfterWrite.passages (f : OutFrame) (addon : Option Nat) : AfterWrite → List Passage
  | drain _ => [.done .prio f addon]
  | check => [.done .cold f addon]
  | hot _ => addon.toList.map (.aside · f)

namespace Link

/-- What becomes of the frame in the writer's hand. -/
def putDown (s : Link) (f : OutFrame) (after : AfterWrite) (fails : Bool) : List Passage :=
  if f.kind = .event ∨ s.addons.sink.isSome then
    after.passages f (if fails then none else s.addons.sink)
  -- it waits for an addon
  else []

/-- What an action does to frames. -/
def passages (s : Link) : Act → List Passage
  | .frame f =>
    if f.kind.isPrio then if s.prio.length < prioRoom then [.queued .prio f] else []
    else if s.cold.length < outRoom then [.queued .cold f]
    else []
  | .eventTry body => if s.prio.length < prioRoom then [.queued .prio ⟨.event, body⟩] else []
  | .serve reply fails _ =>
    match s.addons.server with
    | .replying _ =>
      (if fails then none else s.addons.sink).toList.map (.aside · ⟨.event, reply⟩)
    | _ => []
  | .write fails _ _ =>
    match s.writer, s.cold with
    | .waiting, .frame f :: _ => [.dequeued f]
    | .writing f after, _ => s.putDown f after fails
    | _, _ => []
  | _ => []

/-- How many threads an action takes through the priority queue to their `Wake`. -/
def calls (s : Link) : Act → Nat
  | .frame f => if f.kind.isPrio ∧ s.prio.length < prioRoom then 1 else 0
  | .eventTry _ => 1
  | _ => 0

end Link

/-- The link, with what passes through it. -/
structure Traffic where
  link : Link := {}
  /-- The threads between their priority send and their `Wake`. -/
  calling : Nat := 0
  /-- History. -/
  log : List Passage := []

namespace Traffic

/-- What may happen next. -/
inductive Act where
  /-- The `Wake` of a thread that came through the priority queue. -/
  | call
  /-- Anything else; a `wake` is that of a thread in `hot`. -/
  | link (act : Link.Act)

/-- One action. -/
def step (secret : String) (s : Traffic) : Act → Traffic
  | .call =>
    if s.calling = 0 then s else { s with link := s.link.wake, calling := s.calling - 1 }
  | .link .wake => if s.link.waking ≤ s.calling then s else { s with link := s.link.wake }
  | .link act =>
    { link := s.link.step secret act
      calling := s.calling + s.link.calls act
      log := s.log ++ s.link.passages act }

/-- Actions one after the other, from an agent that starts. -/
def run (secret : String) (acts : List Act) : Traffic := acts.foldl (step secret) {}

end Traffic

/-! ## Where the frames are -/

/-- The writer is busy with the priority queue. -/
def WriterPhase.Drains : WriterPhase → Prop
  | .draining _ => True
  | .writing _ (.drain _) => True
  | .telling _ (.drain _) => True
  | _ => False

/-- The frame of a queue that the writer took and did not put down. -/
def WriterPhase.hand : LinkQueue → WriterPhase → List OutFrame
  | .prio, .writing f (.drain _) => [f]
  | .cold, .draining item => item.frames
  | .cold, .writing _ (.drain item) => item.frames
  | .cold, .telling _ (.drain item) => item.frames
  | .cold, .writing f .check => [f]
  | _, _ => []

namespace WriterPhase

/-- While the writer is busy with the priority queue, the frame it writes is of that queue. -/
@[simp] theorem hand_prio_drain (f : OutFrame) (item : Out) :
    hand .prio (.writing f (.drain item)) = [f] := rfl

/-- The frame that woke it waits meanwhile. -/
@[simp] theorem hand_cold_drain (f : OutFrame) (item : Out) :
    hand .cold (.writing f (.drain item)) = item.frames := rfl

/-- Then the frame that woke it is written, and none of the priority queue is in hand. -/
@[simp] theorem hand_prio_check (f : OutFrame) : hand .prio (.writing f .check) = [] := rfl

/-- That one is in hand. -/
@[simp] theorem hand_cold_check (f : OutFrame) : hand .cold (.writing f .check) = [f] := rfl

/-- A hot value is of no queue. -/
@[simp] theorem hand_hot (q : LinkQueue) (f : OutFrame) (rest : List (List UInt8)) :
    hand q (.writing f (.hot rest)) = [] := by
  cases q <;> rfl

end WriterPhase

namespace Link

/-- What waits in a queue. -/
def queue (s : Link) : LinkQueue → List OutFrame
  | .prio => s.prio
  | .cold => s.cold.flatMap Out.frames

end Link

namespace Traffic

/-- What passes through the link is in order. -/
structure Orderly (s : Traffic) : Prop where
  /-- The writer does not sleep on a priority frame, unless its sender is about to wake it. -/
  awake : s.link.prio ≠ [] → s.link.writer = .waiting → s.link.cold = [] → 0 < s.calling
  /-- What came into a queue left it in that order, once each, or is there still. -/
  fifo : ∀ q, queuedOn q s.log = doneOn q s.log ++ s.link.writer.hand q ++ s.link.queue q
  /-- A priority frame that was queued when a cold frame was taken is ahead of it. -/
  ahead : ∀ before f between g addon rest,
    s.log = before ++ .dequeued f :: between ++ .done .cold g addon :: rest →
      queuedOn .prio before <+: doneOn .prio (before ++ .dequeued f :: between)
  /-- The log is about what was written, and to whom. -/
  written : s.link.written = s.log.filterMap Passage.written

/-- All priority frames that were queued when a cold frame was taken are done. -/
def Caught (log : List Passage) : Prop :=
  ∀ before f rest, log = before ++ .dequeued f :: rest →
    queuedOn .prio before <+: doneOn .prio log

/-- With all priority frames done, those queued before are. -/
private theorem caught_of_done {log : List Passage} (h : queuedOn .prio log = doneOn .prio log) :
    Caught log := by
  intro before f rest heq
  rw [← h, heq, queuedOn_append]
  exact List.prefix_append ..

/-- More entries do not matter until the next cold frame is taken. -/
theorem Caught.concat {log : List Passage} (h : Caught log) {e : Passage}
    (he : ∀ f, e ≠ .dequeued f) : Caught (log ++ [e]) := by
  intro before f rest heq
  rcases rest.eq_nil_or_concat with rfl | ⟨rest, last, rfl⟩
  · exact absurd (List.cons.inj (List.append_inj' heq rfl).2).1 (he f)
  · have hcut : log ++ [e] = (before ++ .dequeued f :: rest) ++ [last] := by simpa using heq
    have hlog := h before f rest (List.append_inj' hcut rfl).1
    rw [doneOn_append]
    exact hlog.trans (List.prefix_append ..)

/-- What makes the steps keep `Orderly`. -/
structure Sound (s : Traffic) : Prop where
  calling : s.calling ≤ s.link.waking
  awake : s.link.prio ≠ [] → s.link.cold ≠ [] ∨ s.link.writer.Drains ∨ 0 < s.calling
  fifo : ∀ q, queuedOn q s.log = doneOn q s.log ++ s.link.writer.hand q ++ s.link.queue q
  caught : s.link.writer.Drains ∨ Caught s.log
  ahead : Each (fun before e => ∀ g addon, e = .done .cold g addon → Caught before) s.log
  written : s.link.written = s.log.filterMap Passage.written

/-- The writer that sleeps with a priority frame in the queue is about to be woken. -/
private theorem Sound.orderly {s : Traffic} (h : s.Sound) : s.Orderly where
  awake hprio hw hcold := by
    rcases h.awake hprio with hne | hdrains | hcalling
    · exact absurd hcold hne
    · rw [hw] at hdrains
      exact hdrains.elim
    · exact hcalling
  fifo := h.fifo
  ahead before f between g addon rest heq := by
    have hcut : s.log = (before ++ .dequeued f :: between) ++ .done .cold g addon :: rest := by
      simpa using heq
    exact h.ahead _ _ rest hcut g addon rfl before f between rfl
  written := h.written

/-- At the start both queues are empty. -/
theorem sound_start : Sound {} where
  calling := Nat.le_refl 0
  awake h := absurd rfl h
  fifo q := by cases q <;> rfl
  caught := .inr (caught_of_done rfl)
  ahead := Each.nil
  written := rfl

/-! ## What the threads around the writer do -/

/-- A step that leaves the queues and the writer alone. -/
private theorem Sound.of_frame {s : Traffic} (h : s.Sound) {l : Link} (hprio : l.prio = s.link.prio)
    (hcold : l.cold = s.link.cold) (hwriter : l.writer = s.link.writer)
    (hwaking : s.link.waking ≤ l.waking) (hwritten : l.written = s.link.written) :
    Sound { s with link := l } where
  calling := Nat.le_trans h.calling hwaking
  awake := by
    show l.prio ≠ [] → l.cold ≠ [] ∨ l.writer.Drains ∨ 0 < s.calling
    rw [hprio, hcold, hwriter]
    exact h.awake
  fifo q := by
    have hqueue : l.queue q = s.link.queue q := by
      cases q
      · exact hprio
      · exact congrArg (List.flatMap Out.frames) hcold
    show queuedOn q s.log = doneOn q s.log ++ l.writer.hand q ++ l.queue q
    rw [hwriter, hqueue]
    exact h.fifo q
  caught := by
    show l.writer.Drains ∨ Caught s.log
    rw [hwriter]
    exact h.caught
  ahead := h.ahead
  written := hwritten.trans h.written

/-- A `Wake`, of whichever thread. -/
theorem Sound.wake {s : Traffic} (h : s.Sound) {n : Nat} (hwaking : s.link.waking ≠ 0)
    (hn : n ≤ s.link.waking - 1) : Sound { s with link := s.link.wake, calling := n } := by
  have heq : s.link.wake = { s.link with
      waking := s.link.waking - 1
      cold := if s.link.cold.length < outRoom then s.link.cold ++ [.wake] else s.link.cold } := by
    unfold Link.wake
    rw [if_neg hwaking]
  -- a channel without room for the `Wake` is not empty
  have hne : s.link.wake.cold ≠ [] := by
    rw [heq]
    dsimp only
    split
    · simp
    · rename_i hfull
      intro hnil
      simp [hnil, outRoom] at hfull
  have hqueue : s.link.wake.queue .cold = s.link.queue .cold := by
    rw [heq]
    show (if s.link.cold.length < outRoom then s.link.cold ++ [.wake] else s.link.cold).flatMap
      Out.frames = s.link.cold.flatMap Out.frames
    split
    · simp [Out.frames]
    · rfl
  have hwriter : s.link.wake.writer = s.link.writer := by rw [heq]
  exact {
    calling := by rw [heq]; exact hn
    awake := fun _ => .inl hne
    fifo := by
      intro q
      show queuedOn q s.log = doneOn q s.log ++ s.link.wake.writer.hand q ++ s.link.wake.queue q
      rw [hwriter]
      cases q with
      | prio =>
        have hprio : s.link.wake.queue .prio = s.link.queue .prio := by
          rw [heq]
          rfl
        rw [hprio]
        exact h.fifo .prio
      | cold =>
        rw [hqueue]
        exact h.fifo .cold
    caught := by
      show s.link.wake.writer.Drains ∨ Caught s.log
      rw [hwriter]
      exact h.caught
    ahead := h.ahead
    written := by rw [heq]; exact h.written }

/-- A frame goes into the priority queue, and its thread toward its `Wake`. -/
theorem Sound.pushPrio {s : Traffic} (h : s.Sound) (f : OutFrame) :
    Sound {
      link := { s.link.pushPrio f with waking := s.link.waking + 1 }
      calling := s.calling + 1
      log := s.log ++ [.queued .prio f] } where
  calling := Nat.succ_le_succ h.calling
  awake _ := .inr (.inr (Nat.succ_pos _))
  fifo q := by
    have hfifo := h.fifo q
    cases q with
    | prio =>
      have hprio : (s.link.pushPrio f).prio = s.link.prio ++ [f] := rfl
      simp only [queuedOn_append, doneOn_append, hfifo, Link.queue, hprio]
      simp [Link.pushPrio]
    | cold =>
      simp only [queuedOn_append, doneOn_append, hfifo]
      simp [Link.pushPrio, Link.queue]
  caught := h.caught.imp_right fun hcaught => hcaught.concat fun _ => by simp
  ahead := h.ahead.concat fun g addon he => by cases he
  written := by
    show s.link.written = _
    rw [List.filterMap_append, ← h.written]
    exact (List.append_nil _).symm

/-- A cold frame goes into its queue. -/
theorem Sound.pushCold {s : Traffic} (h : s.Sound) (f : OutFrame) :
    Sound { s with
      link := { s.link with cold := s.link.cold ++ [.frame f] }
      log := s.log ++ [.queued .cold f] } where
  calling := h.calling
  awake _ := .inl (by simp)
  fifo q := by
    have hfifo := h.fifo q
    cases q with
    | prio =>
      simp only [queuedOn_append, doneOn_append, hfifo]
      simp [Link.queue]
    | cold =>
      simp only [queuedOn_append, doneOn_append, hfifo]
      simp [Link.queue, Out.frames]
  caught := h.caught.imp_right fun hcaught => hcaught.concat fun _ => by simp
  ahead := h.ahead.concat fun g addon he => by cases he
  written := by
    rw [List.filterMap_append, ← h.written]
    exact (List.append_nil _).symm

/-- `frame` queues by kind; until there is room nothing has happened. -/
theorem Sound.frame {s : Traffic} (h : s.Sound) (secret : String) (f : OutFrame) :
    (s.step secret (.link (.frame f))).Sound := by
  show Sound ⟨s.link.frame f, s.calling + s.link.calls (.frame f),
    s.log ++ s.link.passages (.frame f)⟩
  unfold Link.frame Link.calls Link.passages
  by_cases hprio : f.kind.isPrio = true
  · by_cases hroom : s.link.prio.length < prioRoom
    · simpa [hprio, hroom] using h.pushPrio f
    · simpa [hprio, hroom] using h
  · by_cases hroom : s.link.cold.length < outRoom
    · simpa [hprio, hroom] using h.pushCold f
    · simpa [hprio, hroom] using h

/-- `event_try` goes on to its `Wake` whether there was room or not. -/
theorem Sound.eventTry {s : Traffic} (h : s.Sound) (secret : String) (body : List UInt8) :
    (s.step secret (.link (.eventTry body))).Sound := by
  by_cases hroom : s.link.prio.length < prioRoom
  · have heq : s.step secret (.link (.eventTry body)) =
        { link := { s.link.pushPrio ⟨.event, body⟩ with waking := s.link.waking + 1 }
          calling := s.calling + 1
          log := s.log ++ [.queued .prio ⟨.event, body⟩] } := by
      simp [step, Link.step, Link.eventTry, Link.pushPrio, Link.passages, Link.calls, hroom]
    rw [heq]
    exact h.pushPrio ⟨.event, body⟩
  · -- nothing was queued, and the thread wakes the writer all the same
    have heq : s.step secret (.link (.eventTry body)) =
        { s with
          link := { s.link with waking := s.link.waking + 1 }
          calling := s.calling + 1 } := by
      simp [step, Link.step, Link.eventTry, Link.passages, Link.calls, hroom]
    rw [heq]
    exact {
      calling := Nat.succ_le_succ h.calling
      awake := fun _ => .inr (.inr (Nat.succ_pos _))
      fifo := fun q => by cases q <;> exact h.fifo _
      caught := h.caught
      ahead := h.ahead
      written := h.written }

/-- What is written past the queues. -/
private theorem Sound.aside {s : Traffic} (h : s.Sound) (asides : List (Nat × OutFrame)) :
    Sound { s with
      link := { s.link with written := s.link.written ++ asides }
      log := s.log ++ asides.map fun a => .aside a.1 a.2 } := by
  induction asides generalizing s with
  | nil => simpa using h
  | cons a asides ih =>
    have hone : Sound { s with
        link := { s.link with written := s.link.written ++ [a] }
        log := s.log ++ [.aside a.1 a.2] } := {
      calling := h.calling
      awake := h.awake
      fifo := fun q => by
        have hfifo := h.fifo q
        cases q <;>
          simpa [Link.queue] using hfifo
      caught := h.caught.imp_right fun hcaught => hcaught.concat fun _ => by simp
      ahead := h.ahead.concat fun g addon he => by cases he
      written := by
        show s.link.written ++ [a] = _
        rw [List.filterMap_append, ← h.written]
        rfl }
    simpa using ih hone

/-- The next call of `serve_local` for an addon. -/
theorem Sound.serve {s : Traffic} (h : s.Sound) (secret : String) (reply : List UInt8)
    (fails spawned : Bool) : (s.step secret (.link (.serve reply fails spawned))).Sound := by
  have haddons : ∀ a, Sound { s with link := { s.link with addons := a } } := fun a =>
    h.of_frame rfl rfl rfl (Nat.le_refl _) rfl
  show Sound ⟨s.link.serve reply fails spawned, s.calling,
    s.log ++ s.link.passages (.serve reply fails spawned)⟩
  unfold Link.serve Link.passages
  cases hserver : s.link.addons.server with
  | replying c =>
    cases fails with
    | true => simpa [Link.eventDirect] using haddons _
    | false =>
      cases hsink : s.link.addons.sink with
      | none => simpa [Link.eventDirect, Link.writeSink, hsink] using haddons _
      | some d =>
        simpa [Link.eventDirect, Link.writeSink, hsink] using
          (haddons (s.link.addons.serve spawned)).aside [(d, ⟨.event, reply⟩)]
  | _ => simpa using haddons _

/-! ## The writer -/

/-- A write reaches the addon that there is, unless it fails. -/
private theorem writeSink_written (l : Link) (f : OutFrame) (fails : Bool) :
    (l.writeSink f fails).written =
      l.written ++ ((if fails then none else l.addons.sink).map (·, f)).toList := by
  unfold Link.writeSink
  cases l.addons.sink with
  | none => simp
  | some c => cases fails <;> simp

/-- What a turn of the writer has to see to. -/
theorem Sound.turn {s : Traffic} (h : s.Sound) {l : Link} {new : List Passage}
    (hwaking : l.waking = s.link.waking) (hnew : new.length ≤ 1)
    (hfifo : ∀ q, queuedOn q new = [] ∧ s.link.writer.hand q ++ s.link.queue q =
      doneOn q new ++ l.writer.hand q ++ l.queue q)
    (hgoes : l.writer.Drains ∨ (l.prio = [] ∧ l.writer.hand .prio = [] ∧ new = []) ∨
      (¬ s.link.writer.Drains ∧ l.prio = s.link.prio ∧ l.cold = s.link.cold ∧
        ∀ f, .dequeued f ∉ new))
    (hdone : ∀ g addon, .done .cold g addon ∈ new → ¬ s.link.writer.Drains)
    (hwritten : l.written = s.link.written ++ new.filterMap Passage.written) :
    Sound { s with link := l, log := s.log ++ new } := by
  have hall : ∀ q, queuedOn q (s.log ++ new) =
      doneOn q (s.log ++ new) ++ l.writer.hand q ++ l.queue q := by
    intro q
    rw [queuedOn_append, doneOn_append, (hfifo q).1, h.fifo q, List.append_nil, List.append_assoc,
      (hfifo q).2]
    simp
  have hcaught : ¬ s.link.writer.Drains → Caught s.log := h.caught.resolve_left
  refine ⟨hwaking ▸ h.calling, ?_, hall, ?_, ?_, ?_⟩
  · intro hne
    rcases hgoes with hd | ⟨hnil, -, -⟩ | ⟨hd, hprio, hcold, -⟩
    · exact .inr (.inl hd)
    · exact absurd hnil hne
    · rcases h.awake (hprio ▸ hne) with hc | hd' | hc
      · exact .inl (hcold ▸ hc)
      · exact absurd hd' hd
      · exact .inr (.inr hc)
  · rcases hgoes with hd | ⟨hnil, hhand, -⟩ | ⟨hd, -, -, hnot⟩
    · exact .inl hd
    · -- the queue is empty and so is the hand: all that came is done
      right
      apply caught_of_done
      have hprio := hall .prio
      rw [hhand, show l.queue .prio = [] from hnil] at hprio
      simpa using hprio
    · right
      cases new with
      | nil => simpa using hcaught hd
      | cons e rest =>
        obtain rfl : rest = [] := List.eq_nil_of_length_eq_zero (by simpa using hnew)
        exact (hcaught hd).concat fun f he => hnot f (by simp [he])
  · cases new with
    | nil => simpa using h.ahead
    | cons e rest =>
      obtain rfl : rest = [] := List.eq_nil_of_length_eq_zero (by simpa using hnew)
      exact h.ahead.concat fun g addon he => hcaught (hdone g addon (by simp [he]))
  · rw [hwritten, List.filterMap_append, ← h.written]

/-- A turn that passes nothing on. -/
private theorem Sound.silent {s : Traffic} (h : s.Sound) {l : Link}
    (hwaking : l.waking = s.link.waking)
    (hwritten : l.written = s.link.written)
    (hfifo : ∀ q, s.link.writer.hand q ++ s.link.queue q = l.writer.hand q ++ l.queue q)
    (hgoes : l.writer.Drains ∨ (l.prio = [] ∧ l.writer.hand .prio = []) ∨
      (¬ s.link.writer.Drains ∧ l.prio = s.link.prio ∧ l.cold = s.link.cold)) :
    Sound { s with link := l } := by
  have hturn : Sound { s with link := l, log := s.log ++ [] } := by
    refine h.turn hwaking (Nat.zero_le 1) (fun q => ⟨rfl, hfifo q⟩) ?_ (by simp)
      (by simpa using hwritten)
    rcases hgoes with hd | ⟨hnil, hhand⟩ | ⟨hd, hprio, hcold⟩
    · exact .inl hd
    · exact .inr (.inl ⟨hnil, hhand, rfl⟩)
    · exact .inr (.inr ⟨hd, hprio, hcold, fun _ => List.not_mem_nil⟩)
  simpa using hturn

/-- The writer away from the queues. -/
theorem Sound.idle {s : Traffic} (h : s.Sound) {l : Link} (hwaking : l.waking = s.link.waking)
    (hprio : l.prio = s.link.prio) (hcold : l.cold = s.link.cold)
    (hwritten : l.written = s.link.written) (hhand : ∀ q, l.writer.hand q = s.link.writer.hand q)
    (hdrains : ¬ s.link.writer.Drains) : Sound { s with link := l } := by
  have hqueue : ∀ q, l.queue q = s.link.queue q := by
    intro q
    cases q
    · exact hprio
    · exact congrArg (List.flatMap Out.frames) hcold
  exact h.silent hwaking hwritten (fun q => by rw [hhand, hqueue])
    (.inr (.inr ⟨hdrains, hprio, hcold⟩))

/-- The writer wakes up. -/
theorem Sound.wakes {s : Traffic} (h : s.Sound) {item : Out} {cold : List Out}
    (hw : s.link.writer = .waiting) (hcold : s.link.cold = item :: cold) :
    Sound { s with
      link := { s.link with cold := cold, writer := .draining item }
      log := s.log ++ item.frames.map .dequeued } := by
  refine h.turn rfl ?_ (fun q => ?_) (.inl trivial) ?_ ?_
  · cases item <;> simp [Out.frames]
  · cases q <;> cases item <;> simp [hw, hcold, WriterPhase.hand, Link.queue, Out.frames]
  · cases item <;> simp [Out.frames]
  · cases item <;> simp [Out.frames]

/-- The frame in hand was written, told or lost, and the writer goes on to `w`. -/
private theorem Sound.putDown {s : Traffic} (h : s.Sound) {f : OutFrame} {after : AfterWrite}
    (hw : s.link.writer = .writing f after) (fails : Bool)
    (hgo : f.kind = .event ∨ s.link.addons.sink.isSome) {w : WriterPhase}
    (hprio : w.hand .prio = []) (hcold : w.hand .cold = after.frames)
    (hdrains : ∀ item, after = .drain item → w.Drains) :
    Sound { s with
      link := { s.link.writeSink f fails with writer := w }
      log := s.log ++ s.link.putDown f after fails } := by
  -- writing leaves the queues alone
  have hqueue : ∀ q, ({ s.link.writeSink f fails with writer := w } : Link).queue q =
      s.link.queue q := by
    intro q
    cases q <;> simp [Link.queue]
  -- what the log gets is what passes: to the sink, or past it
  have hdown : s.link.putDown f after fails =
      after.passages f (if fails then none else s.link.addons.sink) := if_pos hgo
  have hwritten := writeSink_written s.link f fails
  rw [hdown]
  generalize (if fails then none else s.link.addons.sink) = addon at hwritten ⊢
  cases after with
  -- of the priority queue, while an item of the cold one is in hand
  | drain item =>
    refine h.turn (Link.writeSink_waking s.link f fails) (Nat.le_refl 1) (fun q => ?_)
      (.inl (hdrains item rfl)) (fun g addon hmem => by simp [AfterWrite.passages] at hmem) ?_
    · rw [hqueue, hw]
      cases q <;> simp [AfterWrite.passages, hprio, hcold, AfterWrite.frames]
    · rw [hwritten]
      cases addon <;> rfl
  -- the item of the cold queue itself
  | check =>
    refine h.turn (Link.writeSink_waking s.link f fails) (Nat.le_refl 1) (fun q => ?_)
      (.inr (.inr ?_))
      (fun g addon hmem => by simp [hw, WriterPhase.Drains]) ?_
    · rw [hqueue, hw]
      cases q <;> simp [AfterWrite.passages, hprio, hcold, AfterWrite.frames]
    · simp [hw, WriterPhase.Drains, AfterWrite.passages]
    · rw [hwritten]
      cases addon <;> rfl
  -- a value of the hot lane, which is of neither queue
  | hot rest =>
    refine h.turn (Link.writeSink_waking s.link f fails) ?_ (fun q => ?_) (.inr (.inr ?_))
      (fun g addon hmem => by simp [AfterWrite.passages] at hmem) ?_
    · cases addon <;> simp [AfterWrite.passages]
    · rw [hqueue, hw]
      cases q <;> cases addon <;>
        simp [AfterWrite.passages, hprio, hcold, AfterWrite.frames]
    · simp [hw, WriterPhase.Drains, AfterWrite.passages]
    · rw [hwritten]
      cases addon <;> rfl

/-- A turn of the writer, case by case. -/
theorem Sound.write {s : Traffic} (h : s.Sound) {fails : Bool} {lost : List Nat} {pick : Nat}
    {l : Link} (hstep : Link.WriterStep s.link fails lost l) :
    Sound { s with
      link := l
      log := s.log ++ s.link.passages (.write fails lost pick) } := by
  cases hstep with
  | asleep hw hcold => simpa [Link.passages, hw, hcold] using h
  -- the queues: an item is taken, and the frames before it go first
  | wakes item cold hw hcold =>
    have hwakes := h.wakes hw hcold
    cases item <;> simpa [Link.passages, hw, hcold, Out.frames] using hwakes
  | takes item f prio hw hprio =>
    have hturn : Sound { s with
        link := { s.link with prio := prio, writer := .writing f (.drain item) } } := by
      refine h.silent rfl rfl (fun q => ?_) (.inl trivial)
      cases q <;> simp [hw, hprio, WriterPhase.hand, Link.queue]
    simpa [Link.passages, hw] using hturn
  | turns f hw hprio =>
    have hturn : Sound { s with link := { s.link with writer := .writing f .check } } := by
      refine h.silent rfl rfl (fun q => ?_) (.inr (.inl ⟨hprio, rfl⟩))
      cases q <;> simp [hw, WriterPhase.hand, Link.queue, Out.frames]
    simpa [Link.passages, hw] using hturn
  | woken hw hprio =>
    have hturn : Sound { s with link := { s.link with writer := .checking } } := by
      refine h.silent rfl rfl (fun q => ?_) (.inr (.inl ⟨hprio, rfl⟩))
      cases q <;> simp [hw, WriterPhase.hand, Link.queue, Out.frames]
    simpa [Link.passages, hw] using hturn
  -- the frame in hand: to the auxiliary clients, to the sink, and told
  | event f after hw hevent =>
    have hdown := h.putDown hw fails (.inl hevent) (w := .telling f.body after)
      (by cases after <;> rfl) (by cases after <;> rfl) (fun item hitem => hitem ▸ trivial)
    simpa [Link.passages, hw] using hdown
  | waits f after hw hevent hsink =>
    simpa [Link.passages, Link.putDown, hw, hevent, hsink] using h
  | writes f after c hw hevent hsink =>
    have hdown := h.putDown hw fails (.inr (by simp [hsink])) (w := after.phase)
      (by cases after <;> rfl) (by cases after <;> rfl) (fun item hitem => hitem ▸ trivial)
    simpa [Link.passages, hw] using hdown
  | tells body after hw =>
    have hturn : Sound { s with
        link := { s.link.auxEvent body lost with writer := after.phase } } := by
      refine h.silent rfl rfl (fun q => ?_) ?_
      · cases q <;> cases after <;>
          simp [hw, WriterPhase.hand, AfterWrite.phase, Link.queue, Link.auxEvent]
      · cases after with
        | drain item => exact .inl trivial
        | _ => exact .inr (.inr ⟨by simp [hw, WriterPhase.Drains], rfl, rfl⟩)
    simpa [Link.passages, hw] using hturn
  -- the hot lane, which the queues know nothing of
  | checks hw =>
    have hidle : Sound { s with link := { s.link with
        hotDirty := false
        writer := if s.link.hotDirty then .collecting else .flushing } } := by
      refine h.idle rfl rfl rfl rfl (fun q => ?_) (by simp [hw, WriterPhase.Drains])
      cases q <;> cases s.link.hotDirty <;> simp [hw, WriterPhase.hand]
    simpa [Link.passages, hw] using hidle
  | collects hw =>
    have hidle : Sound { s with link := { s.link with
        hot := .empty, writer := .sendingHot (s.link.hot.entries.map Prod.snd) } } := by
      refine h.idle rfl rfl rfl rfl (fun q => ?_) (by simp [hw, WriterPhase.Drains])
      cases q <;> simp [hw, WriterPhase.hand]
    simpa [Link.passages, hw] using hidle
  | picks bodies rest body hw hperm hattached =>
    have hidle : Sound { s with link := { s.link with
        writer := .writing ⟨.hot, body⟩ (.hot rest) } } := by
      refine h.idle rfl rfl rfl rfl (fun q => ?_) (by simp [hw, WriterPhase.Drains])
      cases q <;> simp [hw, WriterPhase.hand]
    simpa [Link.passages, hw] using hidle
  | breaks bodies hw hne hattached =>
    have hidle :
        Sound { s with link := { s.link with hotDirty := true, writer := .flushing } } := by
      refine h.idle rfl rfl rfl rfl (fun q => ?_) (by simp [hw, WriterPhase.Drains])
      cases q <;> simp [hw, WriterPhase.hand]
    simpa [Link.passages, hw] using hidle
  | ends hw =>
    have hidle : Sound { s with link := { s.link with writer := .flushing } } := by
      refine h.idle rfl rfl rfl rfl (fun q => ?_) (by simp [hw, WriterPhase.Drains])
      cases q <;> simp [hw, WriterPhase.hand]
    simpa [Link.passages, hw] using hidle
  | flushes hw =>
    have hidle : Sound { s with link := { s.link with writer := .waiting } } := by
      refine h.idle rfl rfl rfl rfl (fun q => ?_) (by simp [hw, WriterPhase.Drains])
      cases q <;> simp [hw, WriterPhase.hand]
    simpa [Link.passages, hw] using hidle

/-! ## Runs -/

/-- Every action of the threads, the writer and the addons. -/
theorem Sound.step {s : Traffic} (h : s.Sound) (secret : String) (act : Act) :
    (s.step secret act).Sound := by
  cases act with
  | call =>
    -- a call that was made is answered by a wake-up
    show Sound (if s.calling = 0 then s
      else { s with link := s.link.wake, calling := s.calling - 1 })
    split
    · exact h
    · have hle := h.calling
      exact h.wake (by omega) (by omega)
  | link act =>
    cases act with
    -- the frames and events, and the wake-ups that no call has asked for
    | frame f => exact h.frame secret f
    | eventTry body => exact h.eventTry secret body
    | wake =>
      show Sound (if s.link.waking ≤ s.calling then s else { s with link := s.link.wake })
      split
      · exact h
      · exact h.wake (by omega) (by omega)
    -- the replies and the writer
    | serve reply fails spawned => exact h.serve secret reply fails spawned
    | write fails lost pick => exact h.write (s.link.write_step fails lost pick)
    -- what touches neither queue
    | putHot key body =>
      simpa [Traffic.step, Link.step, Link.passages, Link.calls] using
        h.of_frame (l := s.link.putHot key body) rfl rfl rfl (Nat.le_refl _) rfl
    | markHot =>
      have hmark : Sound { s with link := s.link.markHot } := by
        unfold Link.markHot
        split
        · exact h
        · exact h.of_frame rfl rfl rfl (Nat.le_succ _) rfl
      simpa [Traffic.step, Link.step, Link.passages, Link.calls] using hmark
    | connect first cloned wrote =>
      have hconnect : Sound { s with link := s.link.connect secret first cloned wrote } := by
        unfold Link.connect
        split
        · exact h
        · split
          · exact h
          · exact h
          · split
            · exact h.of_frame rfl rfl rfl (Nat.le_refl _) rfl
            · exact h
          · exact h.of_frame rfl rfl rfl (Nat.le_refl _) rfl
      simpa [Traffic.step, Link.step, Link.passages, Link.calls] using hconnect
    | reader c =>
      simpa [Traffic.step, Link.step, Link.passages, Link.calls] using
        h.of_frame (l := { s.link with addons := s.link.addons.read c }) rfl rfl rfl
          (Nat.le_refl _) rfl
    | auxRemove id =>
      simpa [Traffic.step, Link.step, Link.passages, Link.calls] using
        h.of_frame (l := { s.link with aux := s.link.aux.filter (· ≠ id) }) rfl rfl rfl
          (Nat.le_refl _) rfl

/-- So it is in every run. -/
private theorem run_sound (secret : String) (acts : List Act) : (run secret acts).Sound :=
  foldl_invariant (fun _ act hs => hs.step secret act) acts sound_start

/-- An addon that stays through a write gets what is written. -/
private theorem passages_attached {secret : String} {l : Link} {act : Link.Act} {c : Nat}
    (hsink : l.addons.sink = some c) (hstays : (l.step secret act).addons.sink = some c)
    {q : LinkQueue} {f : OutFrame} {addon : Option Nat}
    (hmem : .done q f addon ∈ l.passages act) : addon = some c := by
  cases act with
  | write fails lost pick =>
    cases hw : l.writer with
    | writing g after =>
      have haddon : addon = if fails then none else l.addons.sink := by
        simp only [Link.passages, hw, Link.putDown, hsink] at hmem ⊢
        cases after <;> cases fails <;> simp_all [AfterWrite.passages]
      cases fails with
      | false => simpa [hsink] using haddon
      | true =>
        -- a write that fails puts the addon out of the sink
        exfalso
        have hnone : (l.writeSink g true).addons.sink = none := by
          rw [Link.writeSink_addons]
          simp [Attachment.drop, hsink, Attachment.setSink]
        have hsame : (l.step secret (.write true lost pick)).addons =
            (l.writeSink g true).addons := by
          simp only [Link.step, Link.write, hw, Link.writeOut, Link.writeWhenAttached, hsink]
          split <;> rfl
        rw [hsame, hnone] at hstays
        cases hstays
    | waiting => cases hcold : l.cold with
      | nil => simp [Link.passages, hw, hcold] at hmem
      | cons item cold => cases item <;> simp [Link.passages, hw, hcold] at hmem
    | _ => simp [Link.passages, hw] at hmem
  | frame g =>
    simp only [Link.passages] at hmem
    split at hmem <;> split at hmem <;> simp at hmem
  | eventTry body =>
    simp only [Link.passages] at hmem
    split at hmem <;> simp at hmem
  | serve reply fails spawned =>
    simp only [Link.passages] at hmem
    split at hmem <;> simp at hmem
  | _ => simp [Link.passages] at hmem

/-- One action: what it puts down goes to the addon that is there. -/
private theorem step_attached {secret : String} {s : Traffic} {act : Act} {c : Nat}
    (hsink : s.link.addons.sink = some c)
    (hstays : (s.step secret act).link.addons.sink = some c) :
    ∃ new, (s.step secret act).log = s.log ++ new ∧
      ∀ q f addon, .done q f addon ∈ new → addon = some c := by
  cases act with
  | call =>
    refine ⟨[], ?_, by simp⟩
    simp only [step]
    split <;> simp
  | link act =>
    cases act with
    | wake =>
      refine ⟨[], ?_, by simp⟩
      simp only [step]
      split <;> simp
    | _ => exact ⟨_, rfl, fun q f addon hmem => passages_attached hsink hstays hmem⟩

/-- While one addon stays, all that is put down goes to it. -/
private theorem run_attached {secret : String} {c : Nat} {s : Traffic} {more : List Act}
    (hsink : Along (step secret) (fun s _ => s.link.addons.sink = some c) s more)
    (hend : (more.foldl (step secret) s).link.addons.sink = some c) :
    ∃ new, (more.foldl (step secret) s).log = s.log ++ new ∧
      ∀ q f addon, .done q f addon ∈ new → addon = some c := by
  induction more generalizing s with
  | nil => exact ⟨[], (List.append_nil _).symm, by simp⟩
  | cons act more ih =>
    have hnext : (s.step secret act).link.addons.sink = some c := by
      cases more with
      | nil => exact hend
      | cons act' more => exact hsink.2.1
    obtain ⟨new, hnew, haddon⟩ := step_attached hsink.1 hnext
    obtain ⟨new', hnew', haddon'⟩ := ih hsink.2 hend
    refine ⟨new ++ new', ?_, fun q f addon hmem => ?_⟩
    · rw [List.foldl_cons, hnew', hnew, List.append_assoc]
    · exact (List.mem_append.mp hmem).elim (haddon q f addon) (haddon' q f addon)

/-- An action of the link other than a `Wake` does to the link what it does. -/
theorem step_link (secret : String) (s : Traffic) {act : Link.Act} (h : act ≠ .wake) :
    (s.step secret (.link act)).link = s.link.step secret act := by
  cases act with
  | wake => exact absurd rfl h
  | _ => rfl

/-- No wake-up is lost, and each queue's frames go out in order, none twice and none left out,
    to the addon as long as one is attached. -/
theorem link_writer (secret : String) (acts : List Act) :
    (run secret acts).Orderly ∧
      ∀ before more c, acts = before ++ more →
        Along (step secret) (fun s _ => s.link.addons.sink = some c) (run secret before) more →
        (run secret acts).link.addons.sink = some c →
        ∃ new, (run secret acts).log = (run secret before).log ++ new ∧
          ∀ q f addon, .done q f addon ∈ new → addon = some c := by
  refine ⟨(run_sound secret acts).orderly, fun before more c heq hsink hend => ?_⟩
  rw [heq, run, List.foldl_append] at hend ⊢
  exact run_attached hsink hend

end Traffic

end QCBridge
