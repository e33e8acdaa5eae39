import QCBridge.Agent.Link
import Mathlib.Data.List.Perm.Basic

/-!
# What the writer does in a turn

`WriterStep` lists the turns of `writer_thread` with what each finds and leaves. The invariants
of the link go through its cases.
-/

namespace QCBridge

namespace Link

/-! ## A write to the sink changes nothing else -/

section

variable (s : Link) (f : OutFrame) (fails : Bool)

/-- What neither the addons nor what is written decides. -/
private theorem writeSink_frame {α : Type} {field : Link → α}
    (hfield : ∀ (s : Link) addons written, field { s with addons, written } = field s) :
    field (s.writeSink f fails) = field s := by
  unfold writeSink
  split
  · rfl
  · split
    · exact hfield s _ s.written
    · exact hfield s s.addons _

@[simp] theorem writeSink_cold : (s.writeSink f fails).cold = s.cold :=
  writeSink_frame s f fails fun _ _ _ => rfl

@[simp] theorem writeSink_prio : (s.writeSink f fails).prio = s.prio :=
  writeSink_frame s f fails fun _ _ _ => rfl

@[simp] theorem writeSink_events : (s.writeSink f fails).events = s.events :=
  writeSink_frame s f fails fun _ _ _ => rfl

@[simp] theorem writeSink_told : (s.writeSink f fails).told = s.told :=
  writeSink_frame s f fails fun _ _ _ => rfl

@[simp] theorem writeSink_aux : (s.writeSink f fails).aux = s.aux :=
  writeSink_frame s f fails fun _ _ _ => rfl

@[simp] theorem writeSink_auxSeq : (s.writeSink f fails).auxSeq = s.auxSeq :=
  writeSink_frame s f fails fun _ _ _ => rfl

@[simp] theorem writeSink_hot : (s.writeSink f fails).hot = s.hot :=
  writeSink_frame s f fails fun _ _ _ => rfl

@[simp] theorem writeSink_hotDirty : (s.writeSink f fails).hotDirty = s.hotDirty :=
  writeSink_frame s f fails fun _ _ _ => rfl

@[simp] theorem writeSink_waking : (s.writeSink f fails).waking = s.waking :=
  writeSink_frame s f fails fun _ _ _ => rfl

@[simp] theorem writeSink_marking : (s.writeSink f fails).marking = s.marking :=
  writeSink_frame s f fails fun _ _ _ => rfl

theorem writeSink_addons :
    (s.writeSink f fails).addons = if fails then s.addons.drop else s.addons := by
  unfold writeSink
  cases hsink : s.addons.sink with
  | none => simp [Attachment.drop, hsink]
  | some c => cases fails <;> rfl

end

/-- A step of `serve_local` is one of the addons'; it may write to the sink. -/
theorem serve_eq (s : Link) (reply : List UInt8) (fails spawned : Bool) :
    ∃ written, s.serve reply fails spawned =
      { s with addons := s.addons.serve spawned, written := written } := by
  unfold serve eventDirect writeSink
  split
  · split
    · exact ⟨_, rfl⟩
    · split <;> exact ⟨_, rfl⟩
  · exact ⟨_, rfl⟩

/-! ## The turns -/

/-- A turn of the writer. -/
inductive WriterStep (s : Link) (fails : Bool) (lost : List Nat) : Link → Prop where
  /-- It is asleep. -/
  | asleep (hw : s.writer = .waiting) (hcold : s.cold = []) : WriterStep s fails lost s
  | wakes (item : Out) (cold : List Out) (hw : s.writer = .waiting)
      (hcold : s.cold = item :: cold) :
      WriterStep s fails lost { s with cold := cold, writer := .draining item }
  | takes (item : Out) (f : OutFrame) (prio : List OutFrame) (hw : s.writer = .draining item)
      (hprio : s.prio = f :: prio) :
      WriterStep s fails lost { s with prio := prio, writer := .writing f (.drain item) }
  /-- The priority queue is empty. -/
  | turns (f : OutFrame) (hw : s.writer = .draining (.frame f)) (hprio : s.prio = []) :
      WriterStep s fails lost { s with writer := .writing f .check }
  | woken (hw : s.writer = .draining .wake) (hprio : s.prio = []) :
      WriterStep s fails lost { s with writer := .checking }
  | event (f : OutFrame) (after : AfterWrite) (hw : s.writer = .writing f after)
      (hevent : f.kind = .event) :
      WriterStep s fails lost { s.writeSink f fails with writer := .telling f.body after }
  /-- It waits for an addon. -/
  | waits (f : OutFrame) (after : AfterWrite) (hw : s.writer = .writing f after)
      (hevent : f.kind ≠ .event) (hsink : s.addons.sink = none) : WriterStep s fails lost s
  | writes (f : OutFrame) (after : AfterWrite) (c : Nat) (hw : s.writer = .writing f after)
      (hevent : f.kind ≠ .event) (hsink : s.addons.sink = some c) :
      WriterStep s fails lost { s.writeSink f fails with writer := after.phase }
  | tells (body : List UInt8) (after : AfterWrite) (hw : s.writer = .telling body after) :
      WriterStep s fails lost { s.auxEvent body lost with writer := after.phase }
  | checks (hw : s.writer = .checking) :
      WriterStep s fails lost
        { s with
          hotDirty := false
          writer := if s.hotDirty then .collecting else .flushing }
  | collects (hw : s.writer = .collecting) :
      WriterStep s fails lost
        { s with hot := .empty, writer := .sendingHot (s.hot.entries.map Prod.snd) }
  | picks (bodies rest : List (List UInt8)) (body : List UInt8)
      (hw : s.writer = .sendingHot bodies) (hperm : bodies.Perm (body :: rest))
      (hattached : s.addons.attached = true) :
      WriterStep s fails lost { s with writer := .writing ⟨.hot, body⟩ (.hot rest) }
  /-- The addon went away. -/
  | breaks (bodies : List (List UInt8)) (hw : s.writer = .sendingHot bodies) (hne : bodies ≠ [])
      (hattached : s.addons.attached = false) :
      WriterStep s fails lost { s with hotDirty := true, writer := .flushing }
  | ends (hw : s.writer = .sendingHot []) :
      WriterStep s fails lost { s with writer := .flushing }
  | flushes (hw : s.writer = .flushing) :
      WriterStep s fails lost { s with writer := .waiting }

private theorem writeOut_step {s : Link} {f : OutFrame} {after : AfterWrite}
    (hw : s.writer = .writing f after) (fails : Bool) (lost : List Nat) :
    WriterStep s fails lost (s.writeOut f after fails) := by
  unfold writeOut
  split
  · rename_i hevent
    exact .event f after hw hevent
  · rename_i hevent
    unfold writeWhenAttached
    cases hsink : s.addons.sink with
    | none => exact .waits f after hw hevent hsink
    | some c => exact .writes f after c hw hevent hsink

private theorem sendHot_step {s : Link} {bodies : List (List UInt8)}
    (hw : s.writer = .sendingHot bodies)
    (pick : Nat) (fails : Bool) (lost : List Nat) :
    WriterStep s fails lost (s.sendHot bodies pick) := by
  unfold sendHot
  cases hbodies : bodies with
  | nil => exact .ends (hbodies ▸ hw)
  | cons b bs =>
    rw [← hbodies]
    -- a hash map gives its values in any order, and `pick` says in which
    have hlt : pick % bodies.length < bodies.length := by
      apply Nat.mod_lt
      rw [hbodies]
      exact Nat.succ_pos _
    rw [List.getElem?_eq_getElem hlt]
    dsimp only
    split
    · rename_i hattached
      exact .picks bodies _ _ hw (List.getElem_cons_eraseIdx_perm hlt).symm hattached
    · rename_i hattached
      exact .breaks bodies hw (by simp [hbodies]) (by simpa using hattached)

/-- Each turn of the writer is one of these. -/
theorem write_step (s : Link) (fails : Bool) (lost : List Nat) (pick : Nat) :
    WriterStep s fails lost (s.write fails lost pick) := by
  unfold write
  split
  · rename_i hw
    split
    · rename_i hcold
      exact .asleep hw hcold
    · rename_i item cold hcold
      exact .wakes item cold hw hcold
  · rename_i item hw
    split
    · rename_i f prio hprio
      exact .takes _ f prio hw hprio
    · rename_i f hprio
      -- `try_recv` finds the queue empty: on to the frame that woke it
      exact .turns f hw hprio
    · rename_i hprio
      exact .woken hw hprio
  · rename_i f after hw
    exact writeOut_step hw fails lost
  · rename_i body after hw
    exact .tells body after hw
  · rename_i hw
    exact .checks hw
  · rename_i hw
    exact .collects hw
  · rename_i bodies hw
    exact sendHot_step hw pick fails lost
  · rename_i hw
    exact .flushes hw

/-! ## The addons -/

/-- What an action does to the addons. -/
inductive AddonStep (s : Link) : Act → Attachment → Prop where
  | stays (act : Act) : AddonStep s act s.addons
  | admits (first : AttachFrame) (cloned wrote : Bool) :
      AddonStep s (.connect first cloned wrote) s.addons.admission
  | serves (reply : List UInt8) (fails spawned : Bool) :
      AddonStep s (.serve reply fails spawned) (s.addons.serve spawned)
  | reads (c : Nat) : AddonStep s (.reader c) (s.addons.read c)
  /-- A write failed. -/
  | drops (fails : Bool) (lost : List Nat) (pick : Nat) :
      AddonStep s (.write fails lost pick) s.addons.drop

theorem addons_step (secret : String) (s : Link) (act : Act) :
    AddonStep s act (s.step secret act).addons := by
  cases act with
  | frame f =>
    have heq : (s.frame f).addons = s.addons := by
      unfold frame
      split <;> split <;> rfl
    exact heq ▸ .stays _
  | eventTry body =>
    have heq : (s.eventTry body).addons = s.addons := by
      unfold eventTry
      split <;> rfl
    exact heq ▸ .stays _
  | wake =>
    have heq : s.wake.addons = s.addons := by
      unfold wake
      split <;> rfl
    exact heq ▸ .stays _
  | putHot key body => exact .stays _
  | markHot =>
    have heq : s.markHot.addons = s.addons := by
      unfold markHot
      split <;> rfl
    exact heq ▸ .stays _
  | connect first cloned wrote =>
    -- a control client or a refused connection is no addon
    show AddonStep s _ (s.connect secret first cloned wrote).addons
    unfold connect
    split
    · exact .stays _
    · split
      · exact .stays _
      · exact .stays _
      · split <;> exact .stays _
      · exact .admits first cloned wrote
  | serve reply fails spawned =>
    obtain ⟨written, heq⟩ := s.serve_eq reply fails spawned
    show AddonStep s _ (s.serve reply fails spawned).addons
    rw [heq]
    exact .serves reply fails spawned
  | reader c => exact .reads c
  | auxRemove id => exact .stays _
  | write fails lost pick =>
    have hwrite : ∀ f, AddonStep s (.write fails lost pick) (s.writeSink f fails).addons := by
      intro f
      rw [writeSink_addons]
      cases fails with
      | true => exact .drops true lost pick
      | false => exact .stays _
    have hstep := s.write_step fails lost pick
    show AddonStep s _ (s.write fails lost pick).addons
    generalize s.write fails lost pick = s' at hstep ⊢
    -- the writer leaves the addons alone, but for a write that fails
    cases hstep with
    | event f after hw hevent => exact hwrite f
    | writes f after c hw hevent hsink => exact hwrite f
    | _ => exact .stays _

end Link

end QCBridge
