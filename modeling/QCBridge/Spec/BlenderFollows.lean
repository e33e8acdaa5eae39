import QCBridge.ForStd.Guarded
import QCBridge.Agent.Lifecycle

/-!
# Blender follows the session

The flags run ahead of the events. While the session flag is off, a Blender that runs is asked to
quit or has its deadline, or an event that sees to that is still to come; and behind every event
that launches one there is such an event. The exit of an earlier Blender, when it is handled late,
takes the deadline of the one that was launched since.

## Key results

- `Tended`: what there is for a Blender while the session flag is off
- `Sound.step`: every step keeps it, but for an exit that is handled late
- `follows_session`: Blender follows the session in every run without one
-/

namespace QCBridge

namespace LifecycleEvent

/-- The event gives a Blender that runs a deadline, or asks it to quit. -/
def closes (e : LifecycleEvent) : Bool :=
  e = sessionOff || e = peerDown || e = goodbye || e = manualStop || e = shutdown

/-- The event launches Blender, whatever the flags are. -/
def opens (e : LifecycleEvent) : Bool := e = sessionOn || e = manualStart

/-- No event does both. -/
private theorem not_opens_of_closes {e : LifecycleEvent} : e.closes = true → e.opens = false := by
  cases e <;> decide

end LifecycleEvent

namespace Lifecycle

/-! ## Events to come -/

/-- One of the events closes. -/
def ToClose (events : List LifecycleEvent) : Prop := ∃ e ∈ events, e.closes = true

instance (events : List LifecycleEvent) : Decidable (ToClose events) :=
  inferInstanceAs (Decidable (∃ e ∈ events, e.closes = true))

/-- Behind every event that opens there is one that closes. -/
def Covered : List LifecycleEvent → Prop
  | [] => True
  | e :: events => (e.opens = true → ToClose events) ∧ Covered events

/-- One event more, anywhere. -/
theorem ToClose.insert {before after : List LifecycleEvent} (e : LifecycleEvent)
    (h : ToClose (before ++ after)) : ToClose (before ++ e :: after) := by
  obtain ⟨e', he', hcloses⟩ := h
  refine ⟨e', ?_, hcloses⟩
  rw [List.mem_append] at he' ⊢
  exact he'.imp_right (List.mem_cons_of_mem e)

/-- One that opens nothing, anywhere. -/
theorem Covered.insert {before after : List LifecycleEvent} {e : LifecycleEvent}
    (h : Covered (before ++ after)) (he : e.opens = false) : Covered (before ++ e :: after) := by
  induction before with
  | nil => exact ⟨fun hopens => absurd (hopens.symm.trans he) (by decide), h⟩
  | cons e' before ih => exact ⟨fun hopens => (h.1 hopens).insert e, ih h.2⟩

/-- An event that closes is to come when it is sent. -/
private theorem toClose_concat (events : List LifecycleEvent) {e : LifecycleEvent}
    (he : e.closes = true) : ToClose (events ++ [e]) :=
  ⟨e, List.mem_append_right _ List.mem_cons_self, he⟩

/-- And it is behind all the others. -/
private theorem covered_concat (events : List LifecycleEvent) {e : LifecycleEvent}
    (he : e.closes = true) : Covered (events ++ [e]) := by
  induction events with
  | nil =>
    have hnot := LifecycleEvent.not_opens_of_closes he
    exact ⟨fun hopens => absurd (hopens.symm.trans hnot) (by decide), trivial⟩
  | cons e' events ih => exact ⟨fun _ => toClose_concat events he, ih⟩

/-- The events that are still to be handled, with the one whose flags are set. -/
def coming (s : Lifecycle) : List LifecycleEvent := s.queue ++ s.sending.toList

/-! ## The invariant -/

/-- What there is for a Blender while the session flag is off. -/
structure Tended (s : Lifecycle) : Prop where
  covered : Covered s.coming
  relaunching : s.phase ≠ .waiting → s.phase ≠ .ended → ToClose s.coming
  running : ∀ k ∈ s.alive, k ∈ s.asked ∨ s.closeDeadline.isSome ∨ ToClose s.coming

/-- The Blender that runs is the one that is stored. -/
def Stored (s : Lifecycle) : Prop := s.alive = [] ∨ ∃ k, s.child = some k ∧ s.alive = [k]

structure Sound (s : Lifecycle) : Prop where
  stored : s.Stored
  tended : s.sessionOn = false → s.manual = false → s.Tended

/-- An exit that is handled with the session flag off finds no Blender that still needs its
    deadline; and no `try_wait` fails while its Blender runs. -/
def Heeds (s : Lifecycle) : Act → Prop
  | .next .. => s.phase = .waiting → s.queue.head? = some .childExited →
    s.sessionOn = false → s.manual = false → ∀ k ∈ s.alive, k ∈ s.asked ∨ ToClose s.coming
  | .look fails => fails = true → ∀ k ∈ s.alive, s.child ≠ some k
  | _ => True

instance (s : Lifecycle) : (act : Act) → Decidable (s.Heeds act)
  | .next .. => inferInstanceAs (Decidable (_ → _ → _ → _ → _))
  | .look fails => inferInstanceAs (Decidable (fails = true → _))
  | .observe _ | .send | .post _ | .timeout | .relaunch _ | .kill _ | .exits _ | .report
  | .connect .. | .link _ | .tick _ => .isTrue trivial

/-- A Blender that is alive is the one that is stored. -/
private theorem Stored.child_of_alive {s : Lifecycle} (h : s.Stored) {k : Nat} (hk : k ∈ s.alive) :
    s.child = some k := by
  rcases h with hnil | ⟨k', hchild, halive⟩
  · rw [hnil] at hk
    cases hk
  · rw [halive] at hk
    rw [hchild, List.mem_singleton.mp hk]

/-- It stays so where neither changes. -/
theorem Stored.same {s s' : Lifecycle} (h : s.Stored) (halive : s'.alive = s.alive)
    (hchild : s'.child = s.child) : s'.Stored := by
  unfold Stored
  rw [halive, hchild]
  exact h

/-- Where what counts is the same, and no other Blender runs. -/
theorem Sound.same {s s' : Lifecycle} (h : s.Sound) (hcoming : s'.coming = s.coming)
    (hon : s'.sessionOn = s.sessionOn) (hmanual : s'.manual = s.manual)
    (hphase : s'.phase = s.phase) (hdeadline : s'.closeDeadline = s.closeDeadline)
    (hasked : s'.asked = s.asked)
    (halive : s'.alive = [] ∨ s'.alive = s.alive ∧ s'.child = s.child) : s'.Sound := by
  refine ⟨?_, fun hon' hmanual' => ?_⟩
  · rcases halive with hnil | ⟨halive, hchild⟩
    · exact .inl hnil
    · exact h.stored.same halive hchild
  · obtain ⟨hcovered, hrelaunching, hrunning⟩ := h.tended (hon ▸ hon') (hmanual ▸ hmanual')
    refine ⟨hcoming ▸ hcovered, ?_, fun k hk => ?_⟩
    · rw [hphase, hcoming]
      exact hrelaunching
    · rw [hasked, hdeadline, hcoming]
      rcases halive with hnil | ⟨halive, -⟩
      · rw [hnil] at hk
        cases hk
      · exact hrunning k (halive ▸ hk)

/-- The Blenders that run, without one of them. -/
theorem Stored.without {s : Lifecycle} (h : s.Stored) (k : Nat) :
    s.alive.filter (· ≠ k) = [] ∨ s.alive.filter (· ≠ k) = s.alive := by
  rcases h with hnil | ⟨k', -, halive⟩
  · exact .inl (by rw [hnil]; rfl)
  · rw [halive]
    by_cases hk : k' = k
    · exact .inl (by simp [hk])
    · exact .inr (by simp [hk])

/-! ## Launching and closing -/

/-- A launch does nothing, or starts a Blender where none is stored. -/
private theorem spawnBlender_cases (s : Lifecycle) (l : Launch) :
    s.spawnBlender l = s ∨ s.child = none ∧ s.spawnBlender l =
      { s with
        child := some s.launched
        waiters := s.waiters + 1
        launched := s.launched + 1
        alive := s.launched :: s.alive } := by
  unfold spawnBlender blenderRunning
  split
  · exact .inl rfl
  · rename_i hchild
    split
    · exact .inl rfl
    · split
      · exact .inr ⟨Option.not_isSome_iff_eq_none.mp hchild, rfl⟩
      · exact .inl rfl

/-- A Blender is launched where, with the session flag off, an event to close it is to come. -/
theorem Sound.spawn {s : Lifecycle} (h : s.Sound) (l : Launch)
    (hclose : s.sessionOn = false → s.manual = false → ToClose s.coming) :
    (s.spawnBlender l).Sound := by
  rcases spawnBlender_cases s l with hsame | ⟨hchild, hspawn⟩
  · rw [hsame]
    exact h
  · rw [hspawn]
    refine ⟨.inr ⟨s.launched, rfl, ?_⟩, fun hon hmanual => ?_⟩
    · rcases h.stored with hnil | ⟨k, hk, -⟩
      · rw [hnil]
      · rw [hchild] at hk
        cases hk
    · exact ⟨(h.tended hon hmanual).covered, fun _ _ => hclose hon hmanual,
        fun _ _ => .inr (.inr (hclose hon hmanual))⟩

/-- `close_blender` touches the link, and what there is to close. -/
private theorem closeBlender_eq (s : Lifecycle) :
    s.closeBlender =
      { s with
        link := s.closeBlender.link
        kills := s.closeBlender.kills
        asked := s.closeBlender.asked
        aims := s.closeBlender.aims } := by
  unfold closeBlender
  split <;> rfl

/-- After `close_blender` every Blender that runs is asked to quit. -/
private theorem Stored.asked_of_alive {s : Lifecycle} (h : s.Stored) {k : Nat} (hk : k ∈ s.alive) :
    k ∈ s.closeBlender.asked := by
  have hchild := h.child_of_alive hk
  unfold closeBlender
  split
  · rename_i hnone
    rw [hnone] at hchild
    cases hchild
  · rename_i k' hsome
    rw [hsome] at hchild
    rw [Option.some.inj hchild]
    exact List.mem_cons_self

/-- `end_session` touches the deadline and nothing else. -/
theorem endSession_eq (s : Lifecycle) (grace : Nat) :
    s.endSession grace = { s with closeDeadline := (s.endSession grace).closeDeadline } := by
  unfold endSession
  split
  · split
    · rfl
    · split <;> rfl
  · rfl

/-- After `end_session` a Blender that runs has a deadline. -/
private theorem Stored.deadline_of_alive {s : Lifecycle} (h : s.Stored) (grace : Nat) {k : Nat}
    (hk : k ∈ s.alive) : (s.endSession grace).closeDeadline.isSome := by
  have hrunning : s.blenderRunning = true := by
    unfold blenderRunning
    rw [h.child_of_alive hk]
    rfl
  unfold endSession
  rw [if_pos hrunning]
  split
  · rfl
  · cases hdeadline : s.closeDeadline with
    | none => rfl
    | some t => simp [hdeadline]

/-! ## One step -/

/-- An event goes into the queue, ahead of the one that is being sent. -/
private theorem Sound.enqueue {s s' : Lifecycle} (h : s.Sound) {e : LifecycleEvent}
    (he : e.opens = false) (hcoming : s'.coming = s.queue ++ e :: s.sending.toList)
    (hon : s'.sessionOn = s.sessionOn) (hmanual : s'.manual = s.manual)
    (hphase : s'.phase = s.phase) (hdeadline : s'.closeDeadline = s.closeDeadline)
    (hasked : s'.asked = s.asked) (halive : s'.alive = s.alive) (hchild : s'.child = s.child) :
    s'.Sound := by
  refine ⟨h.stored.same halive hchild, fun hon' hmanual' => ?_⟩
  obtain ⟨hcovered, hrelaunching, hrunning⟩ := h.tended (hon ▸ hon') (hmanual ▸ hmanual')
  have hmore : ToClose s.coming → ToClose s'.coming := fun hc => hcoming ▸ hc.insert e
  refine ⟨hcoming ▸ hcovered.insert he, ?_, fun k hk => ?_⟩
  · rw [hphase]
    exact fun hw he => hmore (hrelaunching hw he)
  · rw [hasked, hdeadline]
    exact (hrunning k (halive ▸ hk)).imp_right (Or.imp_right hmore)

/-- An observer sets its flags when its event is sure to come. -/
theorem Sound.observe {s : Lifecycle} (h : s.Sound) (call : Call) : (s.observe call).Sound := by
  unfold Lifecycle.observe
  split
  · rename_i hnone
    have hqueue : s.coming = s.queue ++ [] := by
      unfold coming
      rw [hnone]
      rfl
    -- what a call sends, with the session flag off afterwards
    have hcloses : ∀ s' : Lifecycle, s'.alive = s.alive → s'.child = s.child →
        (∃ e, s'.coming = s.queue ++ [e] ∧ e.closes = true) → s'.Sound := by
      rintro s' halive hchild ⟨e, hcoming, he⟩
      refine ⟨h.stored.same halive hchild, fun _ _ => ?_⟩
      have hclose : ToClose s'.coming := hcoming ▸ toClose_concat _ he
      exact ⟨hcoming ▸ covered_concat _ he, fun _ _ => hclose, fun _ _ => .inr (.inr hclose)⟩
    cases call with
    | peerUp =>
      exact h.enqueue (e := .peerUp) rfl (by rw [hnone]; rfl) rfl rfl rfl rfl rfl rfl rfl
    | peerDown => exact hcloses _ rfl rfl ⟨.peerDown, rfl, rfl⟩
    | goodbye => exact hcloses _ rfl rfl ⟨.goodbye, rfl, rfl⟩
    | session on =>
      cases on with
      | false => exact hcloses _ rfl rfl ⟨.sessionOff, rfl, rfl⟩
      | true => exact ⟨h.stored, fun hon => by cases hon⟩
  · exact h

/-- A request comes behind all events; the tray's start with the session off is another matter. -/
theorem Sound.post {s : Lifecycle} (h : s.Sound) (r : Request) : (s.post r).Sound := by
  have hcoming : (s.post r).coming = s.queue ++ r.event :: s.sending.toList := by
    unfold coming Lifecycle.post
    rw [List.append_assoc]
    rfl
  by_cases hr : r = .manualStart
  · subst hr
    refine ⟨h.stored, fun hon hmanual => ?_⟩
    -- with the flag off this is the manual start that counts
    have hon' : s.sessionOn = false := hon
    simp [Lifecycle.post, hon'] at hmanual
  · refine h.enqueue (e := r.event) ?_ hcoming rfl ?_ rfl rfl rfl rfl rfl
    · cases r <;> first | rfl | exact absurd rfl hr
    · simp [Lifecycle.post, hr]

/-- The loop takes an event that opens nothing, and what it leaves to do is done. -/
theorem Sound.handle {s : Lifecycle} {e : LifecycleEvent} {queue : List LifecycleEvent}
    (h : s.Sound) (hphase : s.phase = .waiting) (hqueue : s.queue = e :: queue)
    (hlate : e = .childExited → s.sessionOn = false → s.manual = false →
      ∀ k ∈ s.alive, k ∈ s.asked ∨ ToClose s.coming) (grace : Nat) (l : Launch) :
    ({ s with queue }.handle grace l e).Sound := by
  have hcoming : s.coming = e :: coming { s with queue } := by
    unfold coming
    rw [hqueue]
    rfl
  -- an event that does not close leaves what is to close it
  have hstill : e.closes = false → ToClose s.coming → ToClose (coming { s with queue }) := by
    rintro he ⟨e', hmem, he'⟩
    rw [hcoming] at hmem
    rcases List.mem_cons.mp hmem with rfl | hmem
    · rw [he] at he'
      cases he'
    · exact ⟨e', hmem, he'⟩
  have hcovered : s.sessionOn = false → s.manual = false →
      (e.opens = true → ToClose (coming { s with queue })) ∧ Covered (coming { s with queue }) := by
    intro hon hmanual
    have hall := (h.tended hon hmanual).covered
    rw [hcoming] at hall
    exact hall
  -- the loop waits, so that a state with the same Blenders is sound where each is tended
  have hsound : ∀ s' : Lifecycle, s'.alive = s.alive → s'.child = s.child →
      s'.sessionOn = s.sessionOn → s'.manual = s.manual →
      (s'.phase = .waiting ∨ s'.phase = .ended) → s'.coming = coming { s with queue } →
      (s.sessionOn = false → s.manual = false → ∀ k ∈ s.alive,
        k ∈ s'.asked ∨ s'.closeDeadline.isSome ∨ ToClose s'.coming) → s'.Sound := by
    intro s' halive hchild hon hmanual hphase' hcoming' hrunning
    refine ⟨h.stored.same halive hchild, fun hon' hmanual' => ?_⟩
    rw [hon] at hon'
    rw [hmanual] at hmanual'
    refine ⟨hcoming' ▸ (hcovered hon' hmanual').2, fun hw he => ?_, fun k hk =>
      hrunning hon' hmanual' k (halive ▸ hk)⟩
    exact absurd hphase' (not_or.mpr ⟨hw, he⟩)
  have hidle : e.closes = false → s.sessionOn = false → s.manual = false → ∀ k ∈ s.alive,
      k ∈ s.asked ∨ s.closeDeadline.isSome ∨ ToClose (coming { s with queue }) :=
    fun he hon hmanual k hk =>
      ((h.tended hon hmanual).running k hk).imp_right (Or.imp_right (hstill he))
  have hopens : e.opens = true → ∀ s' : Lifecycle, s'.alive = s.alive → s'.child = s.child →
      s'.sessionOn = s.sessionOn → s'.manual = s.manual → s'.phase = s.phase →
      s'.coming = coming { s with queue } → (s'.spawnBlender l).Sound := by
    intro he s' halive hchild hon hmanual hphase' hcoming'
    refine (hsound s' halive hchild hon hmanual (.inl (hphase'.trans hphase)) hcoming'
      fun hon hmanual _ _ => ?_).spawn l fun hon' hmanual' => ?_
    · rw [hcoming']
      exact .inr (.inr ((hcovered hon hmanual).1 he))
    · rw [hcoming']
      exact (hcovered (hon ▸ hon') (hmanual ▸ hmanual')).1 he
  have hends : (({ s with queue } : Lifecycle).endSession grace).Sound := by
    rw [endSession_eq]
    exact hsound _ rfl rfl rfl rfl (.inl hphase) rfl fun _ _ k hk =>
      .inr (.inl (Stored.deadline_of_alive (s := { s with queue }) h.stored grace hk))
  cases e with
  | peerUp => exact hsound _ rfl rfl rfl rfl (.inl hphase) rfl (hidle rfl)
  | addonDetached => exact hsound _ rfl rfl rfl rfl (.inl hphase) rfl (hidle rfl)
  | sessionOn => exact hopens rfl _ rfl rfl rfl rfl rfl rfl
  | manualStart => exact hopens rfl _ rfl rfl rfl rfl rfl rfl
  | sessionOff => exact hends
  | peerDown => exact hends
  | goodbye => exact hends
  | childExited =>
    by_cases hflags : (s.wanted && s.sessionOn && s.peerUp) = true
    · have hrelaunch : ({ s with queue } : Lifecycle).handle grace l .childExited =
          { s with queue, phase := .relaunching (s.now + 3000) } := if_pos hflags
      rw [hrelaunch]
      -- the session is on
      refine ⟨h.stored, fun hon => ?_⟩
      have hon' : s.sessionOn = false := hon
      simp [hon'] at hflags
    · have hclear : ({ s with queue } : Lifecycle).handle grace l .childExited =
          { s with queue, closeDeadline := none } := if_neg hflags
      rw [hclear]
      refine hsound _ rfl rfl rfl rfl (.inl hphase) rfl fun hon hmanual k hk => ?_
      exact (hlate rfl hon hmanual k hk).imp_right fun hc => .inr (hstill rfl hc)
  | manualStop =>
    show (closeBlender { s with queue, wanted := false, closeDeadline := none }).Sound
    rw [closeBlender_eq]
    exact hsound _ rfl rfl rfl rfl (.inl hphase) rfl fun _ _ k hk =>
      .inl (Stored.asked_of_alive (s := { s with queue, wanted := false, closeDeadline := none })
        h.stored hk)
  | shutdown =>
    show Sound { closeBlender { s with queue } with phase := .ended }
    rw [closeBlender_eq]
    exact hsound _ rfl rfl rfl rfl (.inr rfl) rfl fun _ _ k hk =>
      .inl (Stored.asked_of_alive (s := { s with queue }) h.stored hk)

/-- An event is handled: what it covered is open no longer, or has its deadline. -/
theorem Sound.next {s : Lifecycle} (h : s.Sound) {grace : Nat} {l : Launch}
    (hact : s.Heeds (.next grace l)) : (s.next grace l).Sound := by
  unfold Lifecycle.next
  split
  · rename_i hphase
    split
    · exact h
    · rename_i e queue hqueue
      refine h.handle hphase hqueue (fun he => hact hphase ?_) grace l
      rw [hqueue, he]
      rfl
  · exact h

/-- A deadline that is over asks Blender to quit. -/
theorem Sound.timeout {s : Lifecycle} (h : s.Sound) : s.timeout.Sound := by
  unfold Lifecycle.timeout
  split
  · rename_i hphase hdeadline
    split
    · split
      · rename_i hon
        refine ⟨h.stored, fun hoff => ?_⟩
        rw [hon] at hoff
        cases hoff
      · rw [closeBlender_eq]
        refine ⟨h.stored, fun hon hmanual => ?_⟩
        have ht := h.tended hon hmanual
        exact ⟨ht.covered, fun hw _ => absurd hphase hw, fun k hk => .inl (Stored.asked_of_alive
          (s := { s with closeDeadline := none, wanted := false }) h.stored hk)⟩
    · exact h
  · exact h

/-- A relaunch is covered by an event to come. -/
theorem Sound.relaunch {s : Lifecycle} (h : s.Sound) (l : Launch) : (s.relaunch l).Sound := by
  unfold Lifecycle.relaunch
  split
  · rename_i t hphase
    split
    · have hclose : s.sessionOn = false → s.manual = false → ToClose s.coming := fun hon hmanual =>
        (h.tended hon hmanual).relaunching (by rw [hphase]; exact LifecyclePhase.noConfusion)
          (by rw [hphase]; exact LifecyclePhase.noConfusion)
      refine Sound.spawn (s := { s with phase := .waiting }) ⟨h.stored, fun hon hmanual => ?_⟩ l
        hclose
      exact ⟨(h.tended hon hmanual).covered, fun hw => absurd rfl hw,
        fun _ _ => .inr (.inr (hclose hon hmanual))⟩
    · exact h
  · exact h

/-- A kill ends what it finds. -/
theorem Sound.kill {s : Lifecycle} (h : s.Sound) (i : Nat) : (s.kill i).Sound := by
  unfold Lifecycle.kill
  split
  · exact h
  · split
    · dsimp only
      split
      · exact h.same rfl rfl rfl rfl rfl rfl (.inr ⟨rfl, rfl⟩)
      · rename_i k _
        exact h.same rfl rfl rfl rfl rfl rfl
          ((h.stored.without k).imp_right fun heq => ⟨heq, rfl⟩)
    · exact h

/-- A thread that finds its Blender gone. -/
theorem Sound.look {s : Lifecycle} (h : s.Sound) {fails : Bool}
    (hact : s.Heeds (.look fails)) : (s.look fails).Sound := by
  unfold Lifecycle.look
  split
  · exact h
  · split
    · exact h.same rfl rfl rfl rfl rfl rfl (.inr ⟨rfl, rfl⟩)
    · rename_i k hchild
      split
      · rename_i hgone
        refine h.same rfl rfl rfl rfl rfl rfl (.inl ?_)
        have hnot : k ∉ s.alive := hgone.elim (fun hfails hk => hact hfails k hk hchild) id
        refine List.eq_nil_iff_forall_not_mem.mpr fun k' hk' => ?_
        have hsame := h.stored.child_of_alive hk'
        rw [hchild] at hsame
        exact hnot (Option.some.inj hsame ▸ hk')
      · exact h

/-- A frame that is written. -/
theorem Sound.write {s : Lifecycle} (h : s.Sound) (fails : Bool) (lost : List Nat) (pick : Nat) :
    (s.write fails lost pick).Sound := by
  unfold Lifecycle.write
  dsimp only
  split
  · split <;> exact h.same rfl rfl rfl rfl rfl rfl (.inr ⟨rfl, rfl⟩)
  · exact h.same rfl rfl rfl rfl rfl rfl (.inr ⟨rfl, rfl⟩)

/-- Every step but an exit that is handled late. -/
theorem Sound.step {secret : String} {s : Lifecycle} (h : s.Sound) {act : Act}
    (hact : s.Heeds act) : (s.step secret act).Sound := by
  cases act with
  | observe call => exact h.observe call
  -- the session tells the lifecycle what it has to send
  | send =>
    unfold Lifecycle.step Lifecycle.send
    dsimp only
    split
    · exact h
    · rename_i e hsending
      refine h.same ?_ rfl rfl rfl rfl rfl (.inr ⟨rfl, rfl⟩)
      unfold coming
      rw [hsending]
      exact List.append_nil _
  | post r => exact h.post r
  | next grace l => exact h.next hact
  -- the lifecycle's own turns and its threads
  | timeout => exact h.timeout
  | relaunch l => exact h.relaunch l
  | kill i => exact h.kill i
  | exits k =>
    exact h.same rfl rfl rfl rfl rfl rfl ((h.stored.without k).imp_right fun heq => ⟨heq, rfl⟩)
  | look fails => exact h.look hact
  -- an exit is reported, behind what the session sends
  | report =>
    unfold Lifecycle.step Lifecycle.report
    dsimp only
    split
    · exact h
    · refine h.enqueue (e := .childExited) rfl ?_ rfl rfl rfl rfl rfl rfl rfl
      unfold coming
      rw [List.append_assoc]
      rfl
  -- Blender's addon attaches
  | connect blender first cloned wrote =>
    unfold Lifecycle.step Lifecycle.connect
    dsimp only
    split
    · exact h.same rfl rfl rfl rfl rfl rfl (.inr ⟨rfl, rfl⟩)
    · exact h
  -- the rest of the link
  | link act =>
    obtain ⟨act, hforeign⟩ := act
    show (s.linkStep secret act).Sound
    unfold Lifecycle.linkStep
    split
    · exact h.write _ _ _
    · exact h.same rfl rfl rfl rfl rfl rfl (.inr ⟨rfl, rfl⟩)
  | tick ms => exact h.same rfl rfl rfl rfl rfl rfl (.inr ⟨rfl, rfl⟩)

/-- At the start there is no Blender. -/
theorem sound_start : Sound {} where
  stored := .inl rfl
  tended _ _ :=
    { covered := trivial
      relaunching := fun hw => absurd rfl hw
      running := fun _ hk => by cases hk }

/-! ## Every run -/

/-- There is at most one Blender. And with nothing left to handle and the session over, one that
    runs has a deadline or is asked to quit. -/
structure FollowsSession (s : Lifecycle) : Prop where
  alone : s.alive.length ≤ 1
  closes : s.phase = .waiting → s.coming = [] → s.sessionOn = false → s.manual = false →
    ∀ k ∈ s.alive, s.closeDeadline.isSome ∨ k ∈ s.asked

/-- With nothing to come, what there is for Blender is a deadline or a close. -/
private theorem Sound.followsSession {s : Lifecycle} (h : s.Sound) : s.FollowsSession := by
  refine ⟨?_, fun _ hcoming hon hmanual k hk => ?_⟩
  · rcases h.stored with hnil | ⟨k, -, halive⟩
    · rw [hnil]
      exact Nat.zero_le 1
    · rw [halive]
      exact Nat.le_refl 1
  · rcases (h.tended hon hmanual).running k hk with hasked | hdeadline | ⟨e, he, -⟩
    · exact .inr hasked
    · exact .inl hdeadline
    · rw [hcoming] at he
      cases he

/-- Every run of the lifecycle, and every state in it: Blender follows the session, as long as no
    exit that is handled late takes its deadline and every `try_wait` goes well. -/
theorem follows_session {secret : String} {acts : List Act}
    (h : Along (step secret) Heeds {} acts) {done rest : List Act} (hsplit : acts = done ++ rest) :
    (run secret done).FollowsSession := by
  rw [hsplit, Along.append_iff] at h
  exact (h.1.invariant (I := Sound) (fun s act hs hact => hs.step hact) sound_start).followsSession

/-- The host is in a session, and Blender is launched for it. -/
private def sessionActs : List Act :=
  [.observe .peerUp, .send, .next 60 ⟨"blender", true⟩, .observe (.session true), .send,
    .next 60 ⟨"blender", true⟩]

/-- The session ends, and Blender exits by itself and is not launched again. -/
theorem follows_session_ends :
    (run "s" (sessionActs ++ [.observe (.session false), .send, .next 60 ⟨"blender", true⟩,
      .exits 0, .look false, .report, .next 60 ⟨"blender", true⟩])).FollowsSession :=
  follows_session (by decide : Along (step "s") Heeds {} (sessionActs ++
    [.observe (.session false), .send, .next 60 ⟨"blender", true⟩, .exits 0, .look false, .report,
      .next 60 ⟨"blender", true⟩])) (List.append_nil _).symm

/-- The session ends, starts and ends again while Blender exits, before the loop turns to it. The
    Blender that is launched for it stays. -/
theorem follows_session_counterexample :
    ¬ (run "s" (sessionActs ++ [.observe (.session false), .send, .observe (.session true), .send,
      .observe (.session false), .send, .exits 0, .look false, .report] ++
      List.replicate 4 (.next 60 ⟨"blender", true⟩))).FollowsSession := by
  intro h
  exact absurd (h.closes (by decide) (by decide) (by decide) (by decide) 1 (by decide)) (by decide)

end Lifecycle

end QCBridge
