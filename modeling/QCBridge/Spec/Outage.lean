import Mathlib.Data.List.Infix
import QCBridge.Ring0.Session
import QCBridge.ForStd.Guarded

/-!
# Every outage is answered

A link that went down may have taken frames with it that the transport accepted, so the
host pairs anew when the link is back. The session learns of the loss from the IO thread,
which only reports that the peer is no longer alive when it thought so before. A loss
that finds the peer taken for dead already, or that is over before the IO thread looks,
is not reported.

## Key results

- `Session.Watched`: what holds between any two events
- `Session.OutageSeen`: a loss is on its way to a new handshake
- `outage_answered`: it gets there once the link is up and pongs flow
-/

namespace QCBridge

namespace Session

/-! ## What always holds -/

/-- What holds between any two events. -/
structure Watched (s : Session) : Prop where
  /-- The callback tells what the IO thread saw. -/
  edge : ∀ alive, s.edge = some alive → s.transport.alive = alive
  /-- While a loss is flagged, the peer's return is still to be reported. -/
  lost : s.lost = true → s.reconnect = true ∨ s.transport.alive = false ∨ s.edge = some true
  /-- The epoch of the last handshake is not used again. -/
  shook : ∀ e, s.shook = some e → e ≤ s.epoch ∧ (s.armed = true → e < s.epoch)

namespace Watched

variable (cfg : Heartbeat) {s s' : Session}

/-- A session begins with no callback under way. -/
theorem start (peerUp : Bool) : (Session.start peerUp).Watched where
  edge _ h := nomatch h
  lost h := nomatch h
  shook _ h := nomatch h

/-- The reader's part changes neither flag. -/
theorem reader (hs : s.Watched) (hedge : s'.edge = s.edge)
    (halive : s'.transport.alive = s.transport.alive) (hlost : s'.lost = s.lost)
    (hreconnect : s'.reconnect = s.reconnect) (hshook : s'.shook = s.shook)
    (hepoch : s'.epoch = s.epoch) (harmed : s'.armed = s.armed) : s'.Watched where
  edge := by
    rw [hedge, halive]
    exact hs.edge
  lost := by
    rw [hlost, hreconnect, halive, hedge]
    exact hs.lost
  shook := by
    rw [hshook, hepoch, harmed]
    exact hs.shook

/-- A new handshake has an epoch that no other had. -/
theorem armHandshake (hs : s.Watched) : (s.armHandshake true).Watched := by
  unfold Session.armHandshake
  split
  · exact hs
  · refine ⟨hs.edge, hs.lost, fun e he => ?_⟩
    have hle := (hs.shook e he).1
    simp only [if_true]
    omega

/-- The IO thread looks, and reports where what it sees differs from what it thought. -/
theorem sample (hs : s.Watched) (now : Int) : (s.sample cfg now).Watched := by
  unfold Session.sample
  split
  · exact hs
  · rename_i hnone
    dsimp only
    split
    · exact hs
    · rename_i hchange
      constructor
      · intro alive halive
        exact Option.some.inj halive
      · intro hlost
        -- a peer that was dead is alive now, or the other way round
        cases hnow : s.transport.aliveAt cfg now with
        | false => exact .inr (.inl rfl)
        | true => exact .inr (.inr rfl)
      · exact hs.shook

/-- The callback sets its flag. -/
theorem notify (hs : s.Watched) (now : Int) : (s.notify now).Watched := by
  unfold Session.notify
  split
  · exact hs
  · rename_i alive hedge
    have halive := hs.edge alive hedge
    unfold onPeer
    split
    · rename_i htrue
      split
      · exact ⟨fun _ h => (nomatch h), fun _ => .inl rfl, hs.shook⟩
      · rename_i hlost
        exact ⟨fun _ h => (nomatch h), fun h => absurd h hlost, hs.shook⟩
    · rename_i hfalse
      rw [Bool.not_eq_true] at hfalse
      have hdead : s.transport.alive = false := halive.trans hfalse
      split
      · exact ⟨fun _ h => (nomatch h), fun _ => .inr (.inl hdead), hs.shook⟩
      · exact ⟨fun _ h => (nomatch h), fun _ => .inr (.inl hdead), hs.shook⟩

/-- The watch arms a handshake where the flags ask for one. -/
theorem watch (hs : s.Watched) : s.watch.Watched := by
  unfold Session.watch
  split
  · exact armHandshake ⟨hs.edge, fun h => (nomatch h), hs.shook⟩
  · split
    · exact armHandshake hs
    · exact hs

/-- A handshake goes out or its reply comes in. -/
theorem handshake (hs : s.Watched) (now : Int) (reply : Option HelloReply) :
    (s.handshake now reply).Watched := by
  unfold Session.handshake
  split
  · exact hs
  · split
    · exact hs.reader rfl rfl rfl rfl rfl rfl rfl
    · -- a handshake succeeds
      refine ⟨hs.edge, hs.lost, fun e he => ?_⟩
      obtain rfl := Option.some.inj he
      exact ⟨Nat.le_refl _, fun h => (nomatch h)⟩
    · exact hs.reader rfl rfl rfl rfl rfl rfl rfl
    · split
      · exact hs.reader rfl rfl rfl rfl rfl rfl rfl
      · exact hs

/-- Every event keeps it. -/
theorem step (hs : s.Watched) (ev : Event) : (s.step cfg ev).Watched := by
  cases ev with
  | peer up => cases up <;> exact hs.reader rfl rfl rfl rfl rfl rfl rfl
  | pong now status => exact hs.reader rfl rfl rfl rfl rfl rfl rfl
  | sample now => exact hs.sample cfg now
  | notify now => exact hs.notify now
  | watch => exact hs.watch
  | handshake now reply => exact hs.handshake now reply
  | boot => exact hs.reader rfl rfl rfl rfl rfl rfl rfl
  | bootSent now => exact hs.reader rfl rfl rfl rfl rfl rfl rfl

end Watched

/-! ## What a loss needs -/

/-- A loss is flagged, or a handshake is armed. -/
def flagged (s : Session) : Bool := s.armed || s.reconnect || s.lost

/-- The IO thread takes the peer for alive, or is about to report that it is not. -/
def looking (s : Session) : Bool := s.transport.alive || s.edge = some false

/-- A link that went down since the last handshake is flagged, or still down and about to
    be. -/
def OutageSeen (s : Session) : Prop :=
  s.shook.isSome = true → s.down = true →
    s.flagged = true ∨ s.transport.linkUp = false ∧ s.looking = true

/-- The link goes down while the IO thread can tell, and comes up when it has told. -/
def Noticed (s : Session) : Event → Prop
  | .peer false => s.shook.isSome = true → s.flagged = true ∨ s.looking = true
  | .peer true => s.shook.isSome = true → s.down = true → s.flagged = true
  | _ => True

instance (s : Session) (ev : Event) : Decidable (s.Noticed ev) := by
  cases ev with
  | peer up => cases up <;> (unfold Noticed; infer_instance)
  | _ => exact .isTrue trivial

/-- A loss is flagged in one of three ways. -/
private theorem flagged_iff (s : Session) :
    s.flagged = true ↔ s.armed = true ∨ s.reconnect = true ∨ s.lost = true := by
  simp [flagged, or_assoc]

/-- The IO thread can still tell in one of two. -/
private theorem looking_iff (s : Session) :
    s.looking = true ↔ s.transport.alive = true ∨ s.edge = some false := by
  simp [looking]

namespace OutageSeen

variable {cfg : Heartbeat} {s s' : Session}

/-- The flags stay, and so does what the IO thread knows. -/
theorem of_same (hs : s.OutageSeen) (hshook : s'.shook = s.shook) (hdown : s'.down = s.down)
    (hflagged : s.flagged = true → s'.flagged = true)
    (hlink : s'.transport.linkUp = s.transport.linkUp)
    (hlooking : s.transport.linkUp = false → s.looking = true →
      s'.flagged = true ∨ s'.looking = true) : s'.OutageSeen := by
  unfold OutageSeen
  rw [hshook, hdown, hlink]
  intro hshook hdown
  rcases hs hshook hdown with hf | ⟨hl, hk⟩
  · exact .inl (hflagged hf)
  · exact (hlooking hl hk).imp_right fun hk => ⟨hl, hk⟩

/-- With a handshake armed every loss is seen to. -/
theorem armHandshake (hs : s.OutageSeen) : (s.armHandshake true).OutageSeen := by
  unfold Session.armHandshake
  split
  · exact hs
  · exact fun _ _ => .inl (by simp [flagged])

/-- The IO thread finds the link down while it took the peer for alive: that is on its way. -/
theorem sample (hs : s.OutageSeen) (now : Int) : (s.sample cfg now).OutageSeen := by
  unfold Session.sample
  split
  · exact hs
  · dsimp only
    split
    · exact hs
    · rename_i hnone hchange
      refine hs.of_same rfl rfl id rfl ?_
      intro hlink _
      -- the link is down: what the IO thread sees is that the peer is gone
      have hdead : s.transport.aliveAt cfg now = false := by
        simp [HostTransport.aliveAt, hlink]
      right
      rw [looking_iff]
      right
      show some _ = some false
      rw [hdead]

/-- Then it is flagged. -/
theorem notify (hs : s.OutageSeen) (now : Int) : (s.notify now).OutageSeen := by
  unfold Session.notify
  split
  · exact hs
  · rename_i alive hedge
    unfold onPeer
    split
    · rename_i htrue
      have hlooking : s.looking = true → s.transport.alive = true := by
        rw [looking_iff, hedge, htrue]
        rintro (h | h)
        · exact h
        · cases h
      split
      · refine hs.of_same rfl rfl (fun _ => ?_) rfl (fun _ _ => .inl ?_)
        · simp [flagged]
        · simp [flagged]
      · refine hs.of_same rfl rfl id rfl ?_
        exact fun _ h => .inr (looking_iff _ |>.mpr (.inl (hlooking h)))
    · split
      · -- waited out: the link is up
        rename_i hwait
        refine hs.of_same rfl rfl id rfl ?_
        intro hlink
        have hup : s.transport.linkUp = true := by
          simp only [Bool.and_eq_true] at hwait
          exact hwait.1
        rw [hup] at hlink
        cases hlink
      · refine hs.of_same rfl rfl (fun _ => ?_) rfl (fun _ _ => .inl ?_)
        · simp [flagged]
        · simp [flagged]

/-- And then a handshake is armed. -/
theorem watch (hs : s.OutageSeen) : s.watch.OutageSeen := by
  unfold Session.watch
  split
  · -- the flags are cleared for a handshake
    intro _ _
    left
    unfold Session.armHandshake
    split
    · rename_i harmed
      rw [flagged_iff]
      exact .inl harmed
    · simp [flagged]
  · split
    · exact armHandshake hs
    · exact hs

/-- Only a handshake that was answered takes the loss off. -/
theorem handshake (hs : s.OutageSeen) (now : Int) (reply : Option HelloReply) :
    (s.handshake now reply).OutageSeen := by
  have hsame : ∀ req, ({ s with req := req } : Session).OutageSeen :=
    fun req => hs.of_same rfl rfl id rfl fun _ h => .inr h
  unfold Session.handshake
  split
  · exact hs
  · split
    · exact hsame _
    · exact fun _ h => nomatch h
    · exact hsame _
    · split
      · exact hsame _
      · exact hs

/-- The link goes down while the IO thread can tell. -/
theorem peer {up : Bool} (hseen : s.Noticed (.peer up)) :
    (s.step cfg (.peer up)).OutageSeen := by
  cases up with
  | true =>
    intro hshook hdown
    have hd : s.down = true := by simpa [Session.step] using hdown
    exact .inl (hseen hshook hd)
  | false =>
    intro hshook _
    exact (hseen hshook).imp_right fun hk => ⟨rfl, hk⟩

/-- Every event that is noticed keeps it. -/
theorem step (hs : s.OutageSeen) {ev : Event} (hseen : s.Noticed ev) :
    (s.step cfg ev).OutageSeen := by
  cases ev with
  | peer up => exact peer hseen
  | pong now status => exact hs.of_same rfl rfl id rfl fun _ h => .inr h
  | sample now => exact hs.sample now
  | notify now => exact hs.notify now
  | watch => exact hs.watch
  | handshake now reply => exact hs.handshake now reply
  | boot => exact hs.of_same rfl rfl id rfl fun _ h => .inr h
  | bootSent now => exact hs.of_same rfl rfl id rfl fun _ h => .inr h

end OutageSeen

/-! ## What is still to do -/

/-- What answers an outage: a round of the IO thread, in two parts, and the watch. -/
inductive Turn where
  | sample
  | notify
  | watch
deriving DecidableEq

/-- Whose turn an event is. -/
def Event.turn : Event → Option Turn
  | .sample _ => some .sample
  | .notify _ => some .notify
  | .watch => some .watch
  | _ => none

/-- The link stays up and pongs flow. -/
def Flows (cfg : Heartbeat) (s : Session) : Event → Prop
  | .peer up => up = true
  | .sample now => s.transport.aliveAt cfg now = true
  | _ => True

instance (cfg : Heartbeat) (s : Session) (ev : Event) : Decidable (s.Flows cfg ev) := by
  cases ev <;> (unfold Flows; infer_instance)

/-- A handshake is armed with an epoch other than `e`. -/
def Answered (e : Nat) (s : Session) : Prop := s.armed = true ∧ s.epoch ≠ e

instance (e : Nat) (s : Session) : Decidable (s.Answered e) :=
  inferInstanceAs (Decidable (_ ∧ _))

/-- A loss is flagged and no handshake is armed since the one with epoch `e`. -/
structure Waits (e : Nat) (s : Session) : Prop where
  watched : s.Watched
  shook : s.shook = some e
  armed : s.armed = false
  flag : s.reconnect = true ∨ s.lost = true

/-- The turns that a flagged loss still needs. -/
def remaining (s : Session) : List Turn :=
  if s.reconnect then [.watch]
  else match s.edge with
    | some true => [.notify, .watch]
    | none => [.sample, .notify, .watch]
    | some false => [.notify, .sample, .notify, .watch]

/-- At most one round, the one under way and the watch are left. -/
private theorem remaining_sublist (s : Session) :
    s.remaining.Sublist [.notify, .sample, .notify, .watch] := by
  unfold remaining
  split
  · decide
  · split <;> decide

/-- The turn that is due is over, the others change nothing. -/
def advance (t : Option Turn) (l : List Turn) : List Turn :=
  if t = l.head? then l.tail else l

/-- An event that is nobody's turn leaves what is left. -/
private theorem advance_none {l : List Turn} (hl : l ≠ []) : advance none l = l := by
  obtain ⟨t, l, rfl⟩ := List.exists_cons_of_ne_nil hl
  simp [advance]

namespace Waits

variable {cfg : Heartbeat} {e : Nat} {s : Session}

/-- The watch is always left. -/
private theorem remaining_ne_nil (s : Session) : s.remaining ≠ [] := by
  unfold remaining
  split
  · simp
  · split <;> simp

/-- An event that changes no flag. -/
theorem of_same {s' : Session} (hs : s.Waits e) (hwatched : s'.Watched)
    (hshook : s'.shook = s.shook) (harmed : s'.armed = s.armed) (hlost : s'.lost = s.lost)
    (hreconnect : s'.reconnect = s.reconnect) (hedge : s'.edge = s.edge) :
    s'.Waits e ∧ s'.remaining = s.remaining := by
  constructor
  · refine ⟨hwatched, hshook.trans hs.shook, harmed.trans hs.armed, ?_⟩
    rw [hreconnect, hlost]
    exact hs.flag
  · unfold remaining
    rw [hreconnect, hedge]

/-- Arming a handshake answers the outage. -/
private theorem arms (hs : s.Waits e) {s' : Session} (hepoch : s'.epoch = s.epoch)
    (harmed : s'.armed = s.armed) : (s'.armHandshake true).Answered e := by
  unfold armHandshake Answered
  rw [harmed, hs.armed, hepoch]
  have hle := (hs.watched.shook e hs.shook).1
  refine ⟨rfl, ?_⟩
  show s.epoch + 1 ≠ e
  omega

/-- The watch arms a handshake if it is its turn, and else changes nothing. -/
theorem watch (hs : s.Waits e) :
    s.watch.Answered e ∨
      s.watch.Waits e ∧ s.watch.remaining = advance (some .watch) s.remaining := by
  unfold Session.watch
  split
  · exact .inl (hs.arms rfl rfl)
  · rename_i hnot
    split
    · exact .inl (hs.arms rfl rfl)
    · refine .inr ⟨hs, ?_⟩
      unfold remaining
      rw [if_neg hnot]
      split <;> rfl

/-- While pongs flow the IO thread finds the peer alive again, and is to report it. -/
theorem sample (hs : s.Waits e) {now : Int} (hflow : s.transport.aliveAt cfg now = true) :
    (s.sample cfg now).Waits e ∧
      (s.sample cfg now).remaining = advance (some .sample) s.remaining := by
  have hwatched := hs.watched.sample cfg now
  unfold Session.sample at hwatched ⊢
  split
  · -- the IO thread is in the callback
    rename_i hsome
    refine ⟨hs, ?_⟩
    obtain ⟨alive, hedge⟩ := Option.isSome_iff_exists.mp hsome
    unfold remaining
    rw [hedge]
    split
    · rfl
    · cases alive <;> rfl
  · rename_i hnone
    rw [if_neg hnone] at hwatched
    rw [Bool.not_eq_true, Option.isSome_eq_false_iff, Option.isNone_iff_eq_none] at hnone
    dsimp only at hwatched ⊢
    rw [hflow] at hwatched ⊢
    split
    · -- the peer is known to be alive: its return is reported already
      rename_i halive
      refine ⟨hs, ?_⟩
      have hreconnect : s.reconnect = true := by
        rcases hs.flag with h | h
        · exact h
        · rcases hs.watched.lost h with h | h | h
          · exact h
          · rw [h] at halive
            cases halive
          · rw [h] at hnone
            cases hnone
      unfold remaining
      rw [if_pos hreconnect]
      rfl
    · rename_i halive
      rw [if_neg halive] at hwatched
      refine ⟨⟨hwatched, hs.shook, hs.armed, hs.flag⟩, ?_⟩
      unfold remaining
      rw [hnone]
      dsimp only
      split <;> rfl

/-- The report asks for a reconnect. -/
theorem notify (hs : s.Waits e) (now : Int) :
    (s.notify now).Waits e ∧
      (s.notify now).remaining = advance (some .notify) s.remaining := by
  have hwatched := hs.watched.notify now
  cases hedge : s.edge with
  | none =>
    have heq : s.notify now = s := by simp [Session.notify, hedge]
    rw [heq]
    refine ⟨hs, ?_⟩
    unfold remaining
    rw [hedge]
    split <;> rfl
  | some alive =>
    have hafter : s.remaining =
        if s.reconnect then [.watch] else .notify :: (if alive then [.watch]
          else [.sample, .notify, .watch]) := by
      unfold remaining
      rw [hedge]
      cases alive <;> rfl
    cases alive with
    | true =>
      -- the peer is back
      by_cases hlost : s.lost = true
      · have heq : s.notify now = { s with edge := none, reconnect := true } := by
          simp [Session.notify, hedge, onPeer, hlost]
        rw [heq] at hwatched ⊢
        refine ⟨⟨hwatched, hs.shook, hs.armed, .inl rfl⟩, ?_⟩
        rw [hafter]
        cases s.reconnect <;> rfl
      · have heq : s.notify now = { s with edge := none } := by
          simp [Session.notify, hedge, onPeer, hlost]
        have hreconnect : s.reconnect = true := hs.flag.resolve_right hlost
        rw [heq] at hwatched ⊢
        refine ⟨⟨hwatched, hs.shook, hs.armed, hs.flag⟩, ?_⟩
        rw [hafter, hreconnect]
        rfl
    | false =>
      have heq : s.notify now = { s with edge := none } ∨
          s.notify now = { s with edge := none, lost := true } := by
        unfold Session.notify
        rw [hedge]
        unfold onPeer
        dsimp only
        rw [if_neg Bool.false_ne_true]
        split
        · exact .inl rfl
        · exact .inr rfl
      rcases heq with heq | heq
      · rw [heq] at hwatched ⊢
        refine ⟨⟨hwatched, hs.shook, hs.armed, hs.flag⟩, ?_⟩
        rw [hafter]
        unfold remaining
        dsimp only
        cases s.reconnect <;> rfl
      · rw [heq] at hwatched ⊢
        refine ⟨⟨hwatched, hs.shook, hs.armed, .inr rfl⟩, ?_⟩
        rw [hafter]
        unfold remaining
        dsimp only
        cases s.reconnect <;> rfl

/-- One event, while the link is up and pongs flow. -/
theorem step (hs : s.Waits e) {ev : Event} (hflow : s.Flows cfg ev) :
    (s.step cfg ev).Answered e ∨
      (s.step cfg ev).Waits e ∧ (s.step cfg ev).remaining = advance ev.turn s.remaining := by
  have hwatched := hs.watched.step cfg ev
  -- an event that touches none of it leaves the wait as it is
  have hsame : ∀ {s' : Session}, s'.Watched → s'.shook = s.shook → s'.armed = s.armed →
      s'.lost = s.lost → s'.reconnect = s.reconnect → s'.edge = s.edge →
      s'.Waits e ∧ s'.remaining = advance none s.remaining := by
    intro s' hw hk ha hl hr he
    rw [advance_none (remaining_ne_nil s)]
    exact hs.of_same hw hk ha hl hr he
  cases ev with
  -- the network: the link is up and pongs flow
  | peer up =>
    obtain rfl : up = true := hflow
    exact .inr (hsame hwatched rfl rfl rfl rfl rfl)
  | pong now status => exact .inr (hsame hwatched rfl rfl rfl rfl rfl)
  | sample now => exact .inr (hs.sample hflow)
  -- the three turns that the answer takes
  | notify now => exact .inr (hs.notify now)
  | watch => exact hs.watch
  -- no handshake is armed, so none is begun
  | handshake now reply =>
    have heq : s.step cfg (.handshake now reply) = s := by
      show s.handshake now reply = s
      unfold Session.handshake
      rw [hs.armed]
      rfl
    rw [heq]
    exact .inr (hsame hs.watched rfl rfl rfl rfl rfl)
  | boot => exact .inr (hsame hwatched rfl rfl rfl rfl rfl)
  | bootSent now => exact .inr (hsame hwatched rfl rfl rfl rfl rfl)

/-- A flagged loss is answered once the remaining turns were taken. -/
theorem run (hs : s.Waits e) {more : List Event} (hflow : Along (Session.step cfg)
    (Session.Flows cfg) s more) (hturns : s.remaining.Sublist (more.filterMap Event.turn)) :
    ∃ before, before <+: more ∧ (s.run cfg before).Answered e := by
  induction more generalizing s with
  -- the remaining turns are never none, and so is the run
  | nil => exact absurd (List.sublist_nil.mp hturns) (remaining_ne_nil s)
  | cons ev more ih =>
    rcases hs.step hflow.1 with hanswered | ⟨hwaits, hremaining⟩
    · exact ⟨[ev], by simp, hanswered⟩
    · -- what remains after this event stands in the rest of the run
      have hrest : (s.step cfg ev).remaining.Sublist (more.filterMap Event.turn) := by
        rw [hremaining]
        obtain ⟨t, l, hl⟩ := List.exists_cons_of_ne_nil (remaining_ne_nil s)
        rw [hl] at hturns ⊢
        unfold advance
        cases hturn : ev.turn with
        -- an event that is no turn
        | none =>
          rw [List.filterMap_cons_none hturn] at hturns
          simpa using hturns
        -- the turn that is next is taken, any other changes nothing
        | some t' =>
          rw [List.filterMap_cons_some hturn] at hturns
          split
          · rename_i heq
            obtain rfl : t' = t := by simpa using heq
            exact List.cons_sublist_cons.mp hturns
          · rename_i hne
            have hne' : t ≠ t' := by
              rintro rfl
              exact hne rfl
            exact (List.cons_sublist_cons'.mp hturns).resolve_right fun h => hne' h.1
      obtain ⟨before, hprefix, hanswered⟩ := ih hwaits hflow.2 hrest
      refine ⟨ev :: before, ?_, hanswered⟩
      exact List.cons_prefix_cons.mpr ⟨rfl, hprefix⟩

end Waits

/-! ## Sessions -/

/-- In every session in which the link goes down only while the IO thread can tell, and
    comes up only when it has told, an outage since the last handshake is answered: once
    the link is up and pongs flow, and the IO thread and the watch had their turns, a
    handshake with a new epoch is armed. -/
theorem outage_answered (cfg : Heartbeat) (peerUp : Bool) (events more : List Event) (e : Nat)
    (hnoticed : Along (Session.step cfg) Noticed (start peerUp) events)
    (hshook : ((start peerUp).run cfg events).shook = some e)
    (hdown : ((start peerUp).run cfg events).down = true)
    (hup : ((start peerUp).run cfg events).transport.linkUp = true)
    (hflow : Along (Session.step cfg) (Flows cfg) ((start peerUp).run cfg events) more)
    (hturns : [Turn.notify, .sample, .notify, .watch].Sublist (more.filterMap Event.turn)) :
    ∃ before, before <+: more ∧
      (((start peerUp).run cfg events).run cfg before).Answered e := by
  have hwatched : ((start peerUp).run cfg events).Watched :=
    foldl_invariant (fun _ ev h => h.step cfg ev) events (Watched.start peerUp)
  have hseen : ((start peerUp).run cfg events).OutageSeen :=
    hnoticed.invariant (fun _ _ h hn => h.step hn) (fun h => nomatch h)
  generalize (start peerUp).run cfg events = s at *
  have hflagged : s.flagged = true := by
    rcases hseen (by rw [hshook]; rfl) hdown with h | ⟨h, -⟩
    · exact h
    · rw [hup] at h
      cases h
  cases harmed : s.armed with
  | true =>
    -- armed since the last handshake
    have hlt := (hwatched.shook e hshook).2 harmed
    exact ⟨[], List.nil_prefix, harmed, by show s.epoch ≠ e; omega⟩
  | false =>
    have hflag : s.reconnect = true ∨ s.lost = true := by
      rw [flagged_iff, harmed] at hflagged
      exact hflagged.resolve_left Bool.false_ne_true
    have hwaits : s.Waits e := ⟨hwatched, hshook, harmed, hflag⟩
    exact hwaits.run hflow (s.remaining_sublist.trans hturns)

/-! ## Losses that nobody reports -/

/-- The host pairs, a bootstrap is under way, and the peer answers. -/
def paired : List Event :=
  [.handshake 100 none, .handshake 400 (some (.ok (some 7))), .pong 500 none, .sample 500,
   .notify 500]

/-- The pongs are late while the bootstrap crosses, and then the link goes down. -/
def starved : List Event :=
  paired ++ [.sample 4000, .notify 4000, .peer false, .sample 4500, .notify 4500, .peer true]

/-- The link goes down and comes up between two rounds of the IO thread. -/
def blinked : List Event := paired ++ [.peer false, .peer true, .pong 540 none]

/-- The link goes down, and a round of the IO thread tells. -/
def told : List Event := paired ++ [.peer false, .sample 550, .notify 550, .peer true]

/-- Pongs flow again from `now` on: three rounds of the IO thread and of the watch. -/
def flowing (now : Int) : List Event :=
  [.bootSent now, .pong now none, .notify now, .sample now, .notify now, .watch,
   .sample (now + 50), .notify (now + 50), .watch, .sample (now + 100), .notify (now + 100), .watch]

/-- A loss that is waited out takes a real one with it, and a short one is not seen: no
    handshake is ever armed. -/
theorem outage_answered_counterexample :
    (∀ events ∈ [starved, blinked],
      ((start true).run {} events).shook = some 0 ∧
        ((start true).run {} events).down = true ∧
        ((start true).run {} events).transport.linkUp = true ∧
        Along (Session.step {}) (Flows {}) ((start true).run {} events) (flowing 5000) ∧
        ¬ ∃ before, before <+: flowing 5000 ∧
          (((start true).run {} events).run {} before).Answered 0) ∧
      [Turn.notify, .sample, .notify, .watch].Sublist ((flowing 5000).filterMap Event.turn) := by
  constructor
  · intro events hevents
    -- no prefix of the run answers it
    have hrun : ∀ before ∈ (flowing 5000).inits,
        ¬ (((start true).run {} events).run {} before).Answered 0 := by
      revert events
      decide +kernel
    -- the other facts are those of the run itself
    refine ⟨?_, ?_, ?_, ?_, ?_⟩
    · revert events
      decide +kernel
    · revert events
      decide +kernel
    · revert events
      decide +kernel
    · revert events
      decide +kernel
    · rintro ⟨before, hprefix, hanswered⟩
      exact hrun before ((List.mem_inits _ _).mpr hprefix) hanswered
  · decide +kernel

/-- With a round of the IO thread in between, the loss is answered. -/
theorem outage_answered_told :
    ∃ before, before <+: flowing 1000 ∧
      (((start true).run {} told).run {} before).Answered 0 :=
  outage_answered {} true told (flowing 1000) 0 (by decide +kernel) (by decide +kernel)
    (by decide +kernel) (by decide +kernel) (by decide +kernel) (by decide +kernel)

end Session

end QCBridge
