import QCBridge.ForStd.Guarded
import QCBridge.Spec.LinkWriter
import QCBridge.Agent.ControlLane

/-!
# While no addon is there

The writer writes events to whoever listens and waits for nobody. With any other frame in hand
it waits for an addon, and what is queued behind the frame waits along, the events of the
control clients too. None of that happens where only events are queued while no addon is
there, and no addon goes before the rest of its frames is written.
-/

namespace QCBridge

/-- No addon is attached, and none is being made the sink. -/
def Attachment.Absent (a : Attachment) : Prop :=
  a.sink = none ∧ ∀ c, a.server ≠ .seating c

instance (a : Attachment) : Decidable a.Absent :=
  match h : a.server with
  | .seating c => .isFalse fun habsent => habsent.2 c h
  | .accepting => decidable_of_iff (a.sink = none) (by simp [Attachment.Absent, h])
  | .greeting _ => decidable_of_iff (a.sink = none) (by simp [Attachment.Absent, h])
  | .replying _ => decidable_of_iff (a.sink = none) (by simp [Attachment.Absent, h])
  | .spawning _ => decidable_of_iff (a.sink = none) (by simp [Attachment.Absent, h])

/-! ## The frames on their way to the addon -/

def Out.frames : Out → List OutFrame
  | frame f => [f]
  | wake => []

def AfterWrite.frames : AfterWrite → List OutFrame
  | drain item => item.frames
  | check => []
  | hot _ => []

namespace WriterPhase

/-- The frame in the writer's hand. -/
def inHand : WriterPhase → List OutFrame
  | writing f _ => [f]
  | _ => []

/-- The frame that woke the writer, while it is busy with the priority queue. -/
def behind : WriterPhase → List OutFrame
  | draining item => item.frames
  | writing _ after => after.frames
  | telling _ after => after.frames
  | _ => []

/-- The event that is not told yet. -/
def event : WriterPhase → List (List UInt8)
  | writing f _ => if f.kind = .event then [f.body] else []
  | telling body _ => [body]
  | _ => []

@[simp] theorem inHand_writing (f : OutFrame) (after : AfterWrite) :
    (writing f after).inHand = [f] := rfl

@[simp] theorem inHand_telling (body : List UInt8) (after : AfterWrite) :
    (telling body after).inHand = [] := rfl

@[simp] theorem behind_draining (item : Out) : (draining item).behind = item.frames := rfl

@[simp] theorem behind_writing (f : OutFrame) (after : AfterWrite) :
    (writing f after).behind = after.frames := rfl

@[simp] theorem behind_telling (body : List UInt8) (after : AfterWrite) :
    (telling body after).behind = after.frames := rfl

@[simp] theorem event_writing (f : OutFrame) (after : AfterWrite) :
    (writing f after).event = if f.kind = .event then [f.body] else [] := rfl

@[simp] theorem event_telling (body : List UInt8) (after : AfterWrite) :
    (telling body after).event = [body] := rfl

end WriterPhase

namespace AfterWrite

/-- After a write the hand is empty. -/
@[simp] theorem phase_inHand (after : AfterWrite) : after.phase.inHand = [] := by
  cases after <;> rfl

/-- And what was behind it still is. -/
@[simp] theorem phase_behind (after : AfterWrite) : after.phase.behind = after.frames := by
  cases after <;> rfl

/-- And no event is left to tell. -/
@[simp] theorem phase_event (after : AfterWrite) : after.phase.event = [] := by
  cases after <;> rfl

end AfterWrite

/-- The events among some frames. -/
def eventsOf (frames : List OutFrame) : List (List UInt8) :=
  (frames.filter (·.kind = .event)).map OutFrame.body

/-- Events of two stretches of frames. -/
@[simp] theorem eventsOf_append (l l' : List OutFrame) :
    eventsOf (l ++ l') = eventsOf l ++ eventsOf l' := by
  simp [eventsOf]

def OnlyEvents (frames : List OutFrame) : Prop := ∀ f ∈ frames, f.kind = .event

instance (frames : List OutFrame) : Decidable (OnlyEvents frames) :=
  inferInstanceAs (Decidable (∀ f ∈ frames, f.kind = .event))

namespace Link

/-- What is queued, and what woke the writer. -/
def behind (s : Link) : List OutFrame :=
  s.writer.behind ++ s.prio ++ s.cold.flatMap Out.frames

/-- All frames on their way. -/
def held (s : Link) : List OutFrame := s.writer.inHand ++ s.behind

/-- Where a frame on its way may be. -/
private theorem mem_held {s : Link} {f : OutFrame} :
    f ∈ s.held ↔
      f ∈ s.writer.inHand ∨ f ∈ s.writer.behind ∨ f ∈ s.prio ∨
        ∃ item ∈ s.cold, f ∈ item.frames := by
  simp [held, behind]

/-- The writer waits for an addon. -/
def Waits (s : Link) : Prop := s.addons.Absent ∧ ∃ f ∈ s.writer.inHand, f.kind ≠ .event

/-- Frames other than events are queued only while an addon is there, and an addon goes only
    when no other such frame is left. -/
def Attended (s : Link) : Act → Prop
  | .frame f => f.kind = .event ∨ ¬ s.addons.Absent
  | .reader c => s.addons.reader c = .ended → s.addons.sink = none ∨ OnlyEvents s.held
  | .write fails _ _ =>
    fails = true → s.writer.inHand = [] ∨ s.addons.sink = none ∨ OnlyEvents s.behind
  | _ => True

instance (s : Link) : (act : Act) → Decidable (s.Attended act)
  | .frame f => inferInstanceAs (Decidable (f.kind = .event ∨ ¬ s.addons.Absent))
  | .reader c =>
    inferInstanceAs (Decidable (s.addons.reader c = .ended →
      s.addons.sink = none ∨ OnlyEvents s.held))
  | .write fails _ _ =>
    inferInstanceAs (Decidable (fails = true →
      s.writer.inHand = [] ∨ s.addons.sink = none ∨ OnlyEvents s.behind))
  | .eventTry _ | .wake | .putHot .. | .markHot | .connect .. | .serve .. | .auxRemove _ =>
    .isTrue trivial

/-! ## Events in order -/

/-- Every event that was queued is told, in hand or queued still, in order. -/
structure InOrder (s : Link) : Prop where
  told : s.events = s.told.map Prod.fst ++ s.writer.event ++ eventsOf s.prio
  /-- No event waits where only other frames do. -/
  plain : ∀ f ∈ s.writer.behind ++ s.cold.flatMap Out.frames, f.kind ≠ .event

/-- A turn of the writer moves the event at the head from the queue to its hand, or from there to
    those that are told. -/
theorem InOrder.write {s s' : Link} {fails : Bool} {lost : List Nat} (h : s.InOrder)
    (hstep : WriterStep s fails lost s') : s'.InOrder := by
  obtain ⟨htold, hplain⟩ := h
  cases hstep with
  | asleep hw hcold => exact ⟨htold, hplain⟩
  | wakes item cold hw hcold =>
    rw [hw] at htold hplain
    rw [hcold] at hplain
    exact ⟨htold, hplain⟩
  -- from the head of the queue into the hand, so the order stays
  | takes item f prio hw hprio =>
    rw [hw] at htold hplain
    rw [hprio] at htold
    refine ⟨?_, hplain⟩
    -- an event still counts as not told; another frame never counted
    by_cases hevent : f.kind = .event
    · simpa [WriterPhase.event, eventsOf, hevent] using htold
    · simpa [WriterPhase.event, eventsOf, hevent] using htold
  -- the frame that woke the writer came over the cold channel
  | turns f hw hprio =>
    rw [hw] at htold hplain
    have hevent : f.kind ≠ .event := hplain f List.mem_cons_self
    refine ⟨?_, fun g hg => hplain g (List.mem_cons_of_mem _ hg)⟩
    simpa [WriterPhase.event, hevent] using htold
  | woken hw hprio =>
    rw [hw] at htold hplain
    exact ⟨htold, hplain⟩
  | event f after hw hevent =>
    rw [hw] at htold hplain
    exact ⟨by simpa [hevent] using htold, by simpa using hplain⟩
  | waits f after hw hevent hsink => exact ⟨htold, hplain⟩
  | writes f after c hw hevent hsink =>
    rw [hw] at htold hplain
    exact ⟨by simpa [hevent] using htold, by simpa using hplain⟩
  | tells body after hw =>
    rw [hw] at htold hplain
    exact ⟨by simpa [auxEvent] using htold, by simpa [auxEvent] using hplain⟩
  | checks hw =>
    rw [hw] at htold hplain
    cases s.hotDirty <;> exact ⟨htold, hplain⟩
  | collects hw => rw [hw] at htold hplain; exact ⟨htold, hplain⟩
  | picks bodies rest body hw hperm hattached =>
    rw [hw] at htold hplain
    exact ⟨htold, hplain⟩
  | breaks bodies hw hne hattached => rw [hw] at htold hplain; exact ⟨htold, hplain⟩
  | ends hw => rw [hw] at htold hplain; exact ⟨htold, hplain⟩
  | flushes hw => rw [hw] at htold hplain; exact ⟨htold, hplain⟩

/-- A frame that is pushed comes behind the events that wait, and counts as queued if it is an
    event. -/
theorem InOrder.pushPrio {s : Link} (h : s.InOrder) (f : OutFrame) : (s.pushPrio f).InOrder := by
  refine ⟨?_, h.plain⟩
  have htold := h.told
  unfold Link.pushPrio
  by_cases hevent : f.kind = .event
  · simp [hevent, htold, eventsOf]
  · simp [hevent, htold, eventsOf]

/-- A frame takes the lane of its kind: an event never goes behind other frames. -/
theorem InOrder.frame {s : Link} (h : s.InOrder) (f : OutFrame) : (s.frame f).InOrder := by
  unfold Link.frame
  split
  -- to the priority queue, or refused
  · split
    · exact ⟨(h.pushPrio f).told, h.plain⟩
    · exact h
  · rename_i hprio
    split
    -- to the cold channel, where no event goes
    · refine ⟨h.told, fun g hg => ?_⟩
      have hevent : f.kind ≠ .event := by
        intro hevent
        simp [hevent, FrameKind.isPrio] at hprio
      simp only [List.flatMap_append, ← List.append_assoc] at hg
      rcases List.mem_append.mp hg with hg | hg
      · exact h.plain g hg
      · obtain rfl : g = f := by simpa [Out.frames] using hg
        exact hevent
    · exact h

/-- An event that finds no room is not queued, and not counted. -/
theorem InOrder.eventTry {s : Link} (h : s.InOrder) (body : List UInt8) :
    (s.eventTry body).InOrder := by
  unfold Link.eventTry
  split
  · exact ⟨(h.pushPrio ⟨.event, body⟩).told, h.plain⟩
  · exact ⟨h.told, h.plain⟩

/-- A wake-up is no frame. -/
theorem InOrder.wake {s : Link} (h : s.InOrder) : s.wake.InOrder := by
  unfold Link.wake
  split
  · exact h
  · refine ⟨h.told, ?_⟩
    dsimp only
    split
    · simpa [Out.frames] using h.plain
    · exact h.plain

/-- Every step of the link keeps the events in order, with an addon or without. -/
theorem InOrder.step {s : Link} (h : s.InOrder) (secret : String) (act : Act) :
    (s.step secret act).InOrder := by
  cases act with
  -- frames, events and wake-ups
  | frame f => exact h.frame f
  | eventTry body => exact h.eventTry body
  | wake => exact h.wake
  -- the hot lane, and who comes and goes, is no event
  | putHot key body => exact ⟨h.told, h.plain⟩
  | markHot =>
    show s.markHot.InOrder
    unfold markHot
    split <;> exact ⟨h.told, h.plain⟩
  | connect first cloned wrote =>
    show (s.connect secret first cloned wrote).InOrder
    unfold connect
    split
    · exact h
    · split
      · exact h
      · exact h
      · split <;> exact ⟨h.told, h.plain⟩
      · exact ⟨h.told, h.plain⟩
  | serve reply fails spawned =>
    obtain ⟨written, heq⟩ := s.serve_eq reply fails spawned
    show (s.serve reply fails spawned).InOrder
    rw [heq]
    exact ⟨h.told, h.plain⟩
  | reader c => exact ⟨h.told, h.plain⟩
  | auxRemove id => exact ⟨h.told, h.plain⟩
  -- the writer tells them in order
  | write fails lost pick => exact h.write (s.write_step fails lost pick)

/-! ## Nothing but events while no addon is there -/

/-- What makes the writer wait for nobody. -/
structure Tended (s : Link) : Prop where
  lit : s.addons.attached = true → ¬ s.addons.Absent
  quiet : s.addons.Absent → OnlyEvents s.held

/-- With only events on their way the writer has no other frame in hand. -/
private theorem Tended.not_waits {s : Link} (h : s.Tended) : ¬ s.Waits := by
  rintro ⟨habsent, f, hf, hevent⟩
  exact hevent (h.quiet habsent f (List.mem_append_left _ hf))

/-- A step that leaves the addons alone, and no frame on its way that was not before. -/
private theorem Tended.of_subset {s s' : Link} (h : s.Tended) (haddons : s'.addons = s.addons)
    (hheld : ∀ f ∈ s'.held, f ∈ s.held) : s'.Tended where
  lit := haddons ▸ h.lit
  quiet hs f hf := h.quiet (haddons ▸ hs) f (hheld f hf)

/-- A turn that puts no frame down and takes none up. -/
private theorem Tended.of_held {s s' : Link} (h : s.Tended) (haddons : s'.addons = s.addons)
    (hheld : s'.held = s.held) : s'.Tended := h.of_subset haddons fun _ hf => hheld ▸ hf

/-- A failed write clears the flag along with the sink. -/
private theorem drop_not_attached (a : Attachment) (h : a.attached = true → ¬ a.Absent) :
    a.drop.attached = true → ¬ a.drop.Absent := by
  unfold Attachment.drop
  cases hsink : a.sink with
  | none => exact h
  | some c =>
    intro hattached
    cases hattached

/-- After a write, whatever came of it. -/
theorem Tended.written {s : Link} (h : s.Tended) {f : OutFrame} {after : AfterWrite}
    (hw : s.writer = .writing f after) {fails : Bool}
    (hattended : s.Attended (.write fails [] 0)) {w : WriterPhase} (hhand : w.inHand = [])
    (hbehind : w.behind = after.frames) :
    Tended { s.writeSink f fails with writer := w } := by
  -- the frame in hand is gone, whether it was written or lost
  have hheld : Link.held { s.writeSink f fails with writer := w } = s.behind := by
    simp [held, behind, hw, hhand, hbehind]
  have hquiet : s.addons.Absent → OnlyEvents s.behind := by
    intro habsent g hg
    exact h.quiet habsent g (List.mem_append_right _ hg)
  refine ⟨?_, ?_⟩
  · show (s.writeSink f fails).addons.attached = true → ¬ (s.writeSink f fails).addons.Absent
    rw [writeSink_addons]
    cases fails with
    | true => exact drop_not_attached s.addons h.lit
    | false => exact h.lit
  · rw [hheld]
    show (s.writeSink f fails).addons.Absent → OnlyEvents s.behind
    rw [writeSink_addons]
    cases fails with
    | false => exact hquiet
    | true =>
      intro habsent
      -- the write failed: the addon goes, so the rest must be events
      rcases hattended rfl with hnone | hnone | honly
      · rw [hw] at hnone
        cases hnone
      · apply hquiet
        simpa [Attachment.drop, hnone] using habsent
      · exact honly

/-- A turn of the writer. Only a failed write takes the addon away, and then only events are left.
    -/
theorem Tended.write {s s' : Link} {fails : Bool} {lost : List Nat} (h : s.Tended)
    (hattended : s.Attended (.write fails [] 0)) (hstep : WriterStep s fails lost s') :
    s'.Tended := by
  cases hstep with
  | asleep hw hcold => exact h
  -- from the cold channel to behind the writer's hand
  | wakes item cold hw hcold =>
    refine h.of_subset rfl fun f hf => ?_
    rw [mem_held] at hf ⊢
    rw [hw, hcold]
    simp [WriterPhase.inHand, WriterPhase.behind] at hf ⊢
    tauto
  -- from the priority queue into the hand
  | takes item f prio hw hprio =>
    refine h.of_subset rfl fun f hf => ?_
    rw [mem_held] at hf ⊢
    rw [hw, hprio]
    simp [WriterPhase.inHand, AfterWrite.frames] at hf ⊢
    tauto
  | turns f hw hprio =>
    exact h.of_held rfl (by simp [held, behind, WriterPhase.inHand, hw, hprio, AfterWrite.frames,
      Out.frames])
  | woken hw hprio =>
    exact h.of_held rfl (by simp [held, behind, WriterPhase.inHand, WriterPhase.behind, hw,
      Out.frames])
  | event f after hw hevent => exact h.written hw hattended rfl rfl
  | waits f after hw hevent hsink => exact h
  | writes f after c hw hevent hsink =>
    exact h.written hw hattended after.phase_inHand after.phase_behind
  | tells body after hw => exact h.of_held rfl (by simp [held, behind, hw, auxEvent])
  | checks hw =>
    -- whether a hot map is to be sent or not, no frame is in hand
    cases s.hotDirty with
    | true =>
      exact h.of_held rfl (by simp [held, behind, WriterPhase.inHand, WriterPhase.behind, hw])
    | false =>
      exact h.of_held rfl (by simp [held, behind, WriterPhase.inHand, WriterPhase.behind, hw])
  | collects hw =>
    exact h.of_held rfl (by simp [held, behind, WriterPhase.inHand, WriterPhase.behind, hw])
  | picks bodies rest body hw hperm hattached =>
    -- a new frame in hand, but an addon is there
    exact ⟨h.lit, fun habsent => absurd habsent (h.lit hattached)⟩
  | breaks bodies hw hne hattached =>
    exact h.of_held rfl (by simp [held, behind, WriterPhase.inHand, WriterPhase.behind, hw])
  | ends hw =>
    exact h.of_held rfl (by simp [held, behind, WriterPhase.inHand, WriterPhase.behind, hw])
  | flushes hw =>
    exact h.of_held rfl (by simp [held, behind, WriterPhase.inHand, WriterPhase.behind, hw])

/-- A step that puts one frame on its way. -/
private theorem Tended.of_push {s s' : Link} (h : s.Tended) (f : OutFrame)
    (hf : f.kind = .event ∨ ¬ s.addons.Absent) (haddons : s'.addons = s.addons)
    (hheld : ∀ g ∈ s'.held, g ∈ s.held ∨ g = f) : s'.Tended where
  lit := haddons ▸ h.lit
  quiet habsent g hg := by
    rw [haddons] at habsent
    rcases hheld g hg with hg | rfl
    · exact h.quiet habsent g hg
    · exact hf.resolve_right fun hthere => hthere habsent

/-- One item more in the lane behind. -/
private theorem mem_held_cold {s : Link} {cold : List Out} {f : OutFrame} {g : OutFrame}
    (hcold : ∀ item ∈ cold, item ∈ s.cold ∨ item = .frame f ∨ item = .wake)
    (hg : g ∈ Link.held { s with cold := cold }) : g ∈ s.held ∨ g = f := by
  rw [mem_held] at hg ⊢
  rcases hg with hg | hg | hg | ⟨item, hitem, hg⟩
  · exact .inl (.inl hg)
  · exact .inl (.inr (.inl hg))
  · exact .inl (.inr (.inr (.inl hg)))
  · rcases hcold item hitem with hitem | rfl | rfl
    · exact .inl (.inr (.inr (.inr ⟨item, hitem, hg⟩)))
    · exact .inr (List.mem_singleton.mp hg)
    · cases hg

/-- One frame more in the priority queue. -/
private theorem mem_held_pushPrio {s : Link} {f g : OutFrame} (hg : g ∈ (s.pushPrio f).held) :
    g ∈ s.held ∨ g = f := by
  rw [mem_held] at hg ⊢
  rcases hg with hg | hg | hg | hg
  · exact .inl (.inl hg)
  · exact .inl (.inr (.inl hg))
  · rcases List.mem_append.mp hg with hg | hg
    · exact .inl (.inr (.inr (.inl hg)))
    · exact .inr (List.mem_singleton.mp hg)
  · exact .inl (.inr (.inr (.inr hg)))

/-- A frame other than an event is queued while an addon is there. -/
theorem Tended.frame {s : Link} (h : s.Tended) {f : OutFrame}
    (hf : f.kind = .event ∨ ¬ s.addons.Absent) : (s.frame f).Tended := by
  unfold Link.frame
  split
  · split
    · exact h.of_push f hf rfl fun g hg => mem_held_pushPrio hg
    · exact h
  · split
    · refine h.of_push f hf rfl fun g hg => mem_held_cold (fun item hitem => ?_) hg
      rcases List.mem_append.mp hitem with hitem | hitem
      · exact .inl hitem
      · exact .inr (.inl (List.mem_singleton.mp hitem))
    · exact h

/-- An event may be queued at any time. -/
theorem Tended.eventTry {s : Link} (h : s.Tended) (body : List UInt8) :
    (s.eventTry body).Tended := by
  unfold Link.eventTry
  split
  · exact h.of_push ⟨.event, body⟩ (.inl rfl) rfl fun g hg => mem_held_pushPrio hg
  · exact h.of_subset rfl fun g hg => hg

/-- A wake-up puts no frame on its way. -/
theorem Tended.wake {s : Link} (h : s.Tended) : s.wake.Tended := by
  unfold Link.wake
  split
  · exact h
  · -- a `Wake` is no frame; an event stands for it
    refine h.of_push ⟨.event, []⟩ (.inl rfl) rfl fun g hg => mem_held_cold (fun item hitem => ?_) hg
    split at hitem
    · rcases List.mem_append.mp hitem with hitem | hitem
      · exact .inl hitem
      · exact .inr (.inr (List.mem_singleton.mp hitem))
    · exact .inl hitem

end Link

/-! ## The addons -/

namespace Attachment

/-- An addon that is let in is being made the sink, and so there. -/
private theorem absent_admission {a : Attachment} (hserver : a.server = .accepting)
    (h : a.admission.Absent) : a.Absent :=
  ⟨h.1, fun c hc => by rw [hserver] at hc; cases hc⟩

/-- So the flag, which admission sets, is not ahead of it. -/
private theorem lit_admission {a : Attachment} (hserver : a.server = .accepting)
    (h : a.attached = true → ¬ a.Absent) : ¬ a.admission.Absent := by
  intro habsent
  cases hattached : a.attached with
  -- the swap found an addon there
  | true => exact h hattached (absent_admission hserver habsent)
  | false =>
    -- or the new one is being made the sink
    apply habsent.2 a.conns
    simp [admission, hattached]

/-- Serving makes the addon the sink: none is there afterwards only if none was before. -/
private theorem absent_serve {a : Attachment} {spawned : Bool} (h : (a.serve spawned).Absent) :
    a.Absent ∧ (a.serve spawned).attached = a.attached := by
  unfold serve at h ⊢
  cases hserver : a.server with
  -- the sink is set here, so there is one
  | seating c =>
    rw [hserver] at h
    cases h.1
  | accepting =>
    rw [hserver] at h
    exact ⟨h, rfl⟩
  | greeting c =>
    rw [hserver] at h
    exact ⟨⟨h.1, fun d hd => by rw [hserver] at hd; cases hd⟩, rfl⟩
  | replying c =>
    rw [hserver] at h
    exact ⟨⟨h.1, fun d hd => by rw [hserver] at hd; cases hd⟩, rfl⟩
  | spawning c =>
    rw [hserver] at h
    exact ⟨⟨h.1, fun d hd => by rw [hserver] at hd; cases hd⟩, rfl⟩

/-- A reader thread makes no addon absent but by clearing the sink. -/
private theorem absent_read {a : Attachment} {c : Nat} (h : (a.read c).Absent) :
    (a.Absent ∨ a.reader c = .ended ∧ a.sink ≠ none) ∧
      ((a.read c).attached = true → a.attached = true) := by
  unfold read at h ⊢
  cases hreader : a.reader c with
  | ended =>
    refine ⟨?_, fun hattached => by cases hattached⟩
    -- clearing an empty sink changes nothing
    by_cases hsink : a.sink = none
    · rw [hreader] at h
      exact .inl ⟨hsink, h.2⟩
    · exact .inr ⟨rfl, hsink⟩
  | _ =>
    rw [hreader] at h
    exact ⟨.inl h, id⟩

end Attachment

namespace Link

/-- Every step of the link, with its condition. -/
theorem Tended.step {s : Link} (h : s.Tended) (secret : String) (act : Act)
    (hattended : s.Attended act) : (s.step secret act).Tended := by
  cases act with
  | frame f => exact h.frame hattended
  | eventTry body => exact h.eventTry body
  | wake => exact h.wake
  | putHot key body => exact h.of_subset rfl fun g hg => hg
  | markHot =>
    show s.markHot.Tended
    unfold markHot
    split
    · exact h
    · exact h.of_subset rfl fun g hg => hg
  | connect first cloned wrote =>
    show (s.connect secret first cloned wrote).Tended
    unfold connect
    split
    · exact h
    · rename_i hserver
      have hserver : s.addons.server = .accepting := not_not.mp hserver
      split
      · exact h
      · exact h
      · split
        · exact h.of_subset rfl fun g hg => hg
        · exact h
      -- an addon that is let in
      · refine ⟨fun _ => Attachment.lit_admission hserver h.lit, fun habsent => ?_⟩
        exact h.quiet (Attachment.absent_admission hserver habsent)
  | serve reply fails spawned =>
    obtain ⟨written, heq⟩ := s.serve_eq reply fails spawned
    show (s.serve reply fails spawned).Tended
    rw [heq]
    refine ⟨fun hattached habsent => ?_, fun habsent => ?_⟩
    · obtain ⟨habsent', hsame⟩ := Attachment.absent_serve habsent
      exact h.lit (hsame.symm.trans hattached) habsent'
    · exact h.quiet (Attachment.absent_serve habsent).1
  | reader c =>
    refine ⟨fun hattached habsent => ?_, fun habsent => ?_⟩
    · have hlit := (Attachment.absent_read habsent).2 hattached
      rcases (Attachment.absent_read habsent).1 with habsent' | ⟨hended, -⟩
      · exact h.lit hlit habsent'
      · -- it has just put the light out
        simp [Link.step, Attachment.read, hended, Attachment.setSink] at hattached
    · rcases (Attachment.absent_read habsent).1 with habsent' | ⟨hended, hsink⟩
      · exact h.quiet habsent'
      · exact (hattended hended).resolve_left hsink
  | auxRemove id => exact h.of_subset rfl fun g hg => hg
  | write fails lost pick => exact h.write hattended (s.write_step fails lost pick)

end Link

/-! ## Who is told -/

namespace Link

/-- What was told since the first state reached every control client that was attached then and is
    attached still: a client to which a write fails is dropped. -/
def Reached (s s' : Link) : Prop :=
  ∃ new, s'.told = s.told ++ new ∧ ∀ e ∈ new, ∀ c ∈ s.aux, c ∈ s'.aux → c ∈ e.2

/-- Between two states, with the numbers of the clients: a client has a new one when it attaches. -/
structure Tells (s s' : Link) : Prop where
  reached : s.Reached s'
  fresh : s.auxSeq ≤ s'.auxSeq
  clients : ∀ c ∈ s'.aux, c ∈ s.aux ∨ s.auxSeq ≤ c
  numbered : (∀ c ∈ s.aux, c < s.auxSeq) → ∀ c ∈ s'.aux, c < s'.auxSeq

/-- Where nothing is told and no client comes or goes. -/
theorem Tells.of_same {s s' : Link} (htold : s'.told = s.told) (haux : s'.aux = s.aux)
    (hseq : s'.auxSeq = s.auxSeq) : s.Tells s' where
  reached := ⟨[], by rw [htold, List.append_nil], fun _ he => absurd he List.not_mem_nil⟩
  fresh := Nat.le_of_eq hseq.symm
  clients c hc := .inl (haux ▸ hc)
  numbered h c hc := hseq ▸ h c (haux ▸ hc)

/-- Two stretches. A client that came in between has a number that none had before, so that it is
    not taken for one that was there. -/
theorem Tells.trans {s s' s'' : Link} (h : s.Tells s') (h' : s'.Tells s'')
    (hnumbered : ∀ c ∈ s.aux, c < s.auxSeq) : s.Tells s'' := by
  obtain ⟨new, htold, hnew⟩ := h.reached
  obtain ⟨new', htold', hnew'⟩ := h'.reached
  -- a client that is there before and after is there in between, for no number comes again
  have hbetween : ∀ c ∈ s.aux, c ∈ s''.aux → c ∈ s'.aux := by
    intro c hc hc''
    refine (h'.clients c hc'').resolve_right fun hlate => ?_
    have hearly := hnumbered c hc
    have hfresh := h.fresh
    omega
  refine ⟨⟨new ++ new', by rw [htold', htold, List.append_assoc], fun e he c hc hc'' => ?_⟩,
    Nat.le_trans h.fresh h'.fresh, fun c hc => ?_, fun hs => h'.numbered (h.numbered hs)⟩
  · rcases List.mem_append.mp he with he | he
    · exact hnew e he c hc (hbetween c hc hc'')
    · exact hnew' e he c (hbetween c hc hc'') hc''
  · rcases h'.clients c hc with hc | hlate
    · exact h.clients c hc
    · exact .inr (Nat.le_trans h.fresh hlate)

/-- The writer tells an event to every client there is, and drops those it cannot write to. -/
private theorem tells_write {s s' : Link} {fails : Bool} {lost : List Nat}
    (hstep : WriterStep s fails lost s') : s.Tells s' := by
  cases hstep with
  | tells body after hw =>
    refine ⟨⟨[(body, s.aux.filter (· ∉ lost))], rfl, fun e he c _ hc => ?_⟩, Nat.le_refl _,
      fun c hc => .inl (List.mem_filter.mp hc).1, fun h c hc => h c (List.mem_filter.mp hc).1⟩
    obtain rfl := List.mem_singleton.mp he
    exact hc
  | event f after hw hevent =>
    exact .of_same (s.writeSink_told f fails) (s.writeSink_aux f fails) (s.writeSink_auxSeq f fails)
  | writes f after c hw hevent hsink =>
    exact .of_same (s.writeSink_told f fails) (s.writeSink_aux f fails) (s.writeSink_auxSeq f fails)
  | _ => exact .of_same rfl rfl rfl

/-- Queueing a frame tells nobody. -/
private theorem tells_frame (s : Link) (f : OutFrame) : s.Tells (s.frame f) := by
  unfold frame
  split
  · split <;> exact .of_same rfl rfl rfl
  · split <;> exact .of_same rfl rfl rfl

/-- Nor does a wake-up. -/
private theorem tells_wake (s : Link) : s.Tells s.wake := by
  unfold wake
  split <;> exact .of_same rfl rfl rfl

/-- Every step of the link: only the writer tells. -/
private theorem tells_step (s : Link) (secret : String) (act : Act) :
    s.Tells (s.step secret act) := by
  cases act with
  | frame f => exact s.tells_frame f
  | eventTry body =>
    show s.Tells (s.eventTry body)
    unfold Link.eventTry
    split <;> exact .of_same rfl rfl rfl
  | wake => exact s.tells_wake
  | putHot key body => exact .of_same rfl rfl rfl
  | markHot =>
    show s.Tells s.markHot
    unfold markHot
    split <;> exact .of_same rfl rfl rfl
  | connect first cloned wrote =>
    show s.Tells (s.connect secret first cloned wrote)
    unfold connect
    split
    · exact .of_same rfl rfl rfl
    · split
      · exact .of_same rfl rfl rfl
      · exact .of_same rfl rfl rfl
      · split
        -- a new client, with the next number
        · refine ⟨⟨[], (List.append_nil _).symm, fun _ he => absurd he List.not_mem_nil⟩,
            Nat.le_succ _, fun c hc => ?_, fun h c hc => ?_⟩
          · refine (List.mem_append.mp hc).imp id fun hnew => ?_
            exact Nat.le_of_eq (List.mem_singleton.mp hnew).symm
          · show c < s.auxSeq + 1
            rcases List.mem_append.mp hc with hold | hnew
            · exact Nat.lt_succ_of_lt (h c hold)
            · rw [List.mem_singleton.mp hnew]
              exact Nat.lt_succ_self _
        · exact .of_same rfl rfl rfl
      · exact .of_same rfl rfl rfl
  | serve reply fails spawned =>
    obtain ⟨written, heq⟩ := s.serve_eq reply fails spawned
    show s.Tells (s.serve reply fails spawned)
    rw [heq]
    exact .of_same rfl rfl rfl
  | reader c => exact .of_same rfl rfl rfl
  | auxRemove id =>
    exact ⟨⟨[], (List.append_nil _).symm, fun _ he => absurd he List.not_mem_nil⟩, Nat.le_refl _,
      fun c hc => .inl (List.mem_filter.mp hc).1, fun h c hc => h c (List.mem_filter.mp hc).1⟩
  | write fails lost pick => exact tells_write (s.write_step fails lost pick)

end Link

/-! ## The control lane -/

/-- A window that equals the tag is as long as the tag. -/
private theorem anyWindow_length {n : Nat} {tag payload : List UInt8}
    (h : anyWindow n tag payload = true) :
    tag.length = n := by
  unfold anyWindow at h
  obtain ⟨i, hi, hw⟩ := List.any_eq_true.mp h
  have hlt := List.mem_range.mp hi
  rw [← eq_of_beq hw, List.length_take, List.length_drop]
  omega

/-- A tag in the payload is found where the windows are as long as it. -/
private theorem anyWindow_append (before tag rest : List UInt8) :
    anyWindow tag.length tag (before ++ tag ++ rest) = true := by
  unfold anyWindow
  apply List.any_eq_true.mpr
  refine ⟨before.length, ?_, ?_⟩
  · simp only [List.mem_range, List.length_append]
    omega
  · rw [List.append_assoc, List.drop_left, List.take_left]
    exact beq_self_eq_true tag

section

variable (jsonOn : List UInt8 → Option Bool) (isHost : Bool)

/-- What a message has for the observer of a replica. -/
def meant (payload : List UInt8) : Option Observation :=
  if !isHost && payload.length < 512 then
    match parseAgentSession jsonOn payload with
    | some on => some (.session on)
    | none =>
      if anyWindow goodbyeTag.length goodbyeTag payload then some .goodbye else none
  else none

/-- The message of a host's agent, of which `serde_json` reads what was written. -/
theorem meant_agentSessionMsg {on : Bool} (h : jsonOn (agentSessionMsg on) = some on) :
    meant jsonOn false (agentSessionMsg on) = some (.session on) := by
  have hparse : parseAgentSession jsonOn (agentSessionMsg on) = some on := by
    unfold parseAgentSession
    rw [if_pos (by cases on <;> decide), h]
  have hshort : (agentSessionMsg on).length < 512 := by cases on <;> decide
  simp [meant, hshort, hparse]

/-- The message of a host's addon, in which there is no `"on"`. -/
theorem meant_goodbyeMsg {req : Nat} (hshort : (goodbyeMsg req).length < 512)
    (h : jsonOn (goodbyeMsg req) = none) :
    meant jsonOn false (goodbyeMsg req) = some .goodbye := by
  have hparse : parseAgentSession jsonOn (goodbyeMsg req) = none := by
    unfold parseAgentSession
    rw [h, ite_self]
  -- `json.dumps` without blanks puts the kind first
  have htag : anyWindow goodbyeTag.length goodbyeTag (goodbyeMsg req) = true := by
    have hcut : asciiBytes "\x7b\"kind\":\"goodbye\",\"req\":" =
        asciiBytes "\x7b" ++ goodbyeTag ++ asciiBytes ",\"req\":" := by decide
    unfold goodbyeMsg
    rw [hcut, List.append_assoc, List.append_assoc]
    exact anyWindow_append ..
  simp [meant, hshort, hparse, htag]

/-- The task looks for the goodbye among the windows of 17 bytes, and it has 16. -/
private theorem sniff_eq_meant_iff (payload : List UInt8) :
    (sniff jsonOn isHost payload).1 = meant jsonOn isHost payload ↔
      meant jsonOn isHost payload ≠ some .goodbye := by
  -- a window of 17 bytes is never a tag of 16
  have hmiss : anyWindow 17 goodbyeTag payload = false := by
    cases hany : anyWindow 17 goodbyeTag payload with
    | false => rfl
    | true => exact absurd (anyWindow_length hany) (by decide)
  unfold sniff meant
  split
  · cases hparse : parseAgentSession jsonOn payload with
    | some on => simp
    | none =>
      cases htag : anyWindow goodbyeTag.length goodbyeTag payload <;> simp [hmiss]
  · simp

end

namespace ControlLane

/-- The writer waits for an addon with an event behind it and a control client to tell it to. -/
def Starves (s : ControlLane) : Prop :=
  s.link.Waits ∧ s.link.aux ≠ [] ∧ ∃ f ∈ s.link.prio, f.kind = .event

/-- The task waits for room behind a writer that waits for an addon. -/
def Stalls (s : ControlLane) : Prop :=
  s.link.Waits ∧ (∃ body, s.task = .framing body) ∧ prioRoom ≤ s.link.prio.length

/-- An absent addon blocks nobody. -/
structure Unblocked (jsonOn : List UInt8 → Option Bool) (isHost : Bool) (s : ControlLane) :
    Prop where
  /-- What was queued of events is told, in the writer's hand or queued, in order. -/
  told : s.link.events =
    s.link.told.map Prod.fst ++ s.link.writer.event ++ eventsOf s.link.prio
  starves : ¬ s.Starves
  /-- What the task took is with the observer. -/
  observed : s.observed = s.taken.filterMap (meant jsonOn isHost)
  stalls : ¬ s.Stalls

section

variable (jsonOn : List UInt8 → Option Bool) (isHost : Bool)

/-- Frames other than events are queued only while an addon is there, an addon goes only when
    no other such frame is left, and nobody says goodbye. -/
def Attended (s : ControlLane) : Act → Prop
  | .link act => s.link.Attended act
  | .arrive payload => meant jsonOn isHost payload ≠ some .goodbye
  | .restart => True
  | .recv =>
    match s.task with
    | .framing _ => ¬ s.link.addons.Absent
    | _ => True

instance (s : ControlLane) : (act : Act) → Decidable (s.Attended jsonOn isHost act)
  | .link act => inferInstanceAs (Decidable (s.link.Attended act))
  | .arrive payload =>
    inferInstanceAs (Decidable (meant jsonOn isHost payload ≠ some .goodbye))
  | .restart => .isTrue trivial
  | .recv =>
    match h : s.task with
    | .framing _ => decidable_of_iff (¬ s.link.addons.Absent) (by simp [Attended, h])
    | .receiving => .isTrue (by simp [Attended, h])
    | .waking => .isTrue (by simp [Attended, h])

/-- What makes the steps keep `Unblocked`. -/
structure Sound (s : ControlLane) : Prop where
  order : s.link.InOrder
  tended : s.link.Tended
  observed : s.observed = s.taken.filterMap (meant jsonOn isHost)
  lane : ∀ payload ∈ s.lane, meant jsonOn isHost payload ≠ some .goodbye

variable {jsonOn isHost}

/-- What the steps keep makes an absent addon block nobody: a writer that waited would have another
    frame than an event in hand. -/
private theorem Sound.unblocked {s : ControlLane} (h : s.Sound jsonOn isHost) :
    s.Unblocked jsonOn isHost where
  told := h.order.told
  starves hs := h.tended.not_waits hs.1
  observed := h.observed
  stalls hs := h.tended.not_waits hs.1

/-- The task takes the next message from the lane, or puts the one that it has on its way to the
    addon. -/
theorem Sound.recv {s : ControlLane} (h : s.Sound jsonOn isHost)
    (hattended : s.Attended jsonOn isHost .recv) : (s.recv jsonOn isHost).Sound jsonOn isHost := by
  unfold ControlLane.recv
  cases htask : s.task with
  | receiving =>
    cases hlane : s.lane with
    | nil => exact h
    | cons payload lane =>
      have hpayload := h.lane payload (by rw [hlane]; exact List.mem_cons_self)
      refine ⟨h.order, h.tended, ?_, fun p hp => h.lane p (by
        rw [hlane]; exact List.mem_cons_of_mem _ hp)⟩
      show s.observed ++ (sniff jsonOn isHost payload).1.toList =
        (s.taken ++ [payload]).filterMap (meant jsonOn isHost)
      -- no goodbye is on the lane, so the task sees what is meant
      rw [(sniff_eq_meant_iff jsonOn isHost payload).mpr hpayload, h.observed,
        List.filterMap_append]
      cases hmeant : meant jsonOn isHost payload <;> simp [hmeant]
  | framing body =>
    dsimp only
    split
    -- the frame is queued while an addon is there
    · have hthere : ¬ s.link.addons.Absent := by
        unfold Attended at hattended
        rw [htask] at hattended
        exact hattended
      have htended := h.tended.frame (f := ⟨.control, body⟩) (.inr hthere)
      exact ⟨h.order.frame ⟨.control, body⟩, htended, h.observed, h.lane⟩
    · exact h
  | waking => exact ⟨h.order.wake, h.tended.wake, h.observed, h.lane⟩

/-- Every step of the lane's parties, with its condition. -/
theorem Sound.step {s : ControlLane} (h : s.Sound jsonOn isHost) (secret : String) (act : Act)
    (hattended : s.Attended jsonOn isHost act) :
    (s.step jsonOn isHost secret act).Sound jsonOn isHost := by
  cases act with
  | link act =>
    exact ⟨h.order.step secret act, h.tended.step secret act hattended, h.observed, h.lane⟩
  | arrive payload =>
    refine ⟨h.order, h.tended, h.observed, fun p hp => ?_⟩
    rcases List.mem_append.mp hp with hp | hp
    · exact h.lane p hp
    · rw [List.mem_singleton.mp hp]
      exact hattended
  | restart => exact ⟨h.order, h.tended, h.observed, fun p hp => by cases hp⟩
  | recv => exact h.recv hattended

/-- At the start nothing is queued. -/
theorem sound_start : Sound jsonOn isHost {} where
  order := ⟨rfl, fun _ hf => absurd hf List.not_mem_nil⟩
  tended := ⟨fun hattached => absurd hattached Bool.false_ne_true,
    fun _ _ hf => absurd hf List.not_mem_nil⟩
  observed := rfl
  lane := fun _ hp => absurd hp List.not_mem_nil

/-- Of the lane's steps only the link's tell anybody. -/
private theorem tells_step (secret : String) (s : ControlLane) (act : Act) :
    s.link.Tells (s.step jsonOn isHost secret act).link := by
  cases act with
  | link act => exact s.link.tells_step secret act
  | arrive payload => exact .of_same rfl rfl rfl
  | restart => exact .of_same rfl rfl rfl
  | recv =>
    show s.link.Tells (s.recv jsonOn isHost).link
    unfold ControlLane.recv
    split
    · split <;> exact .of_same rfl rfl rfl
    · rename_i body _
      split
      · exact s.link.tells_frame ⟨.control, body⟩
      · exact .of_same rfl rfl rfl
    · exact s.link.tells_wake

/-- In a part of a run. -/
private theorem tells_foldl (secret : String) {s : ControlLane}
    (hnumbered : ∀ c ∈ s.link.aux, c < s.link.auxSeq) (acts : List Act) :
    s.link.Tells (acts.foldl (step jsonOn isHost secret) s).link := by
  induction acts generalizing s with
  | nil => exact .of_same rfl rfl rfl
  | cons act acts ih =>
    have htells : s.link.Tells (s.step jsonOn isHost secret act).link := tells_step secret s act
    exact htells.trans (ih (htells.numbered hnumbered)) hnumbered

/-- From any moment of a run on, every control client that stays is told everything. -/
private theorem run_reached (secret : String) (done rest : List Act) :
    (run jsonOn isHost secret done).link.Reached
      (run jsonOn isHost secret (done ++ rest)).link := by
  have hstart : ∀ c ∈ (({} : ControlLane).link).aux, c < ({} : ControlLane).link.auxSeq :=
    fun _ hc => absurd hc List.not_mem_nil
  have hdone : ∀ c ∈ (run jsonOn isHost secret done).link.aux,
      c < (run jsonOn isHost secret done).link.auxSeq :=
    (tells_foldl secret hstart done).numbered hstart
  unfold run at hdone ⊢
  rw [List.foldl_append]
  exact (tells_foldl secret hdone rest).reached

end

/-- A control client attaches. -/
def clientActs (secret : String) : List Act :=
  [.link (.connect ⟨true, FrameKind.cmd.byte, 64, some "attach", some secret, some "control"⟩
    true true)]

/-- The writer is woken and goes on for `n` turns. -/
def writeActs (n : Nat) : List Act :=
  .link .wake :: List.replicate n (.link (.write false [] 0))

end ControlLane

end QCBridge
