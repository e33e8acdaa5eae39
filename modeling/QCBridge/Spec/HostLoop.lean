import QCBridge.ForStd.Guarded
import QCBridge.Agent.HostLoop

/-!
# Waiting for a target

A notification that comes after the loop has read and before it is registered is lost. It does
no harm only if what the loop read is still what there is, or if another notification is ahead.
Where no notification is lost otherwise, the loop never sleeps on a target that it should dial.
-/

namespace QCBridge

namespace HostLoop

/-- The loop does not sleep on a target that is wanted. -/
structure Wakeful (s : HostLoop) : Prop where
  /-- It waits for a target only while there is none, or while a `set` that brings one is still
      to notify it. -/
  idle : s.phase = .idle → s.target = none ∨ 0 < s.storing + s.notifying
  /-- It waits next to a session of an older generation only while a `set` is still to notify
      it, and leaves the session then. -/
  session : ∀ target generation, s.phase = .session target generation .waiting →
    generation ≠ s.generation →
      0 < s.notifying ∧ ((s.step .notify).step .turn).phase = .reading

end HostLoop

namespace HostPhase

/-- The loop has found no target and is not registered. -/
def Idling (phase : HostPhase) : Prop := phase = .counting none ∨ phase = .idling

instance (phase : HostPhase) : Decidable phase.Idling := inferInstanceAs (Decidable (_ ∨ _))

/-- The generation of a session next to which the loop is not registered. -/
def starting : HostPhase → Option Nat
  | session _ generation .starting => some generation
  | _ => none

/-- The generation of a session next to which the loop waits or is about to. -/
def watched : HostPhase → Option Nat
  | session _ generation .starting => some generation
  | session _ generation .waiting => some generation
  | _ => none

end HostPhase

namespace HostLoop

/-- No notification is lost: where it comes after the loop has read and before it is registered,
    what the loop read is still what there is, or another thread is to notify after this one. -/
def Heard (s : HostLoop) : Act → Prop
  | .notify =>
    (s.phase.Idling → s.target = none ∨ 1 < s.storing + s.notifying) ∧
      ∀ generation ∈ s.phase.starting, generation = s.generation ∨ 1 < s.notifying
  | _ => True

instance (s : HostLoop) : (act : Act) → Decidable (s.Heard act)
  | .notify => inferInstanceAs (Decidable (_ ∧ _))
  | .store _ | .count | .turn | .sessionEnds => .isTrue trivial

/-- What the loop goes by, where it waits or is about to, is up to date, or a thread is still to
    notify it. -/
structure Current (s : HostLoop) : Prop where
  idle : s.phase.Idling ∨ s.phase = .idle → s.target = none ∨ 0 < s.storing + s.notifying
  session : ∀ generation ∈ s.phase.watched, generation = s.generation ∨ 0 < s.notifying

private theorem Current.wakeful {s : HostLoop} (h : s.Current) : s.Wakeful where
  idle hphase := h.idle (.inr hphase)
  session target generation hphase hne := by
    have hwatched : generation ∈ s.phase.watched := by simp [hphase, HostPhase.watched]
    have hpos : 0 < s.notifying := (h.session generation hwatched).resolve_left hne
    refine ⟨hpos, ?_⟩
    simp [step, Nat.pos_iff_ne_zero.mp hpos, hphase, notified, turn, Ne.symm hne]

/-! ## What a step preserves -/

/-- A thread that stores has its notification ahead. -/
theorem Current.store {s : HostLoop} (h : s.Current) (target : Option HostTarget) :
    (s.step (.store target)).Current where
  idle _ := by
    right
    show 0 < s.storing + 1 + s.notifying
    omega
  session := h.session

theorem Current.count {s : HostLoop} (h : s.Current) : (s.step .count).Current := by
  by_cases hnone : s.storing = 0
  · have heq : s.step .count = s := if_pos hnone
    rw [heq]
    exact h
  · have heq : s.step .count = { s with
        generation := s.generation + 1
        storing := s.storing - 1
        notifying := s.notifying + 1 } := if_neg hnone
    rw [heq]
    exact {
      idle := fun _ => .inr (by dsimp only; omega)
      session := fun _ _ => .inr (Nat.succ_pos _) }

private theorem idling_of_notified {phase : HostPhase}
    (h : (notified phase).Idling ∨ notified phase = .idle) : phase.Idling := by
  cases phase with
  | session target generation watch => cases watch <;> simp [notified, HostPhase.Idling] at h
  | counting target => simpa [notified, HostPhase.Idling] using h
  | idling => trivial
  | _ => simp [notified, HostPhase.Idling] at h

private theorem starting_of_notified {phase : HostPhase} {generation : Nat}
    (h : generation ∈ (notified phase).watched) : generation ∈ phase.starting := by
  cases phase with
  | session target g watch =>
    cases watch with
    | starting => exact h
    | _ => cases h
  | _ => simp [notified, HostPhase.watched] at h

/-- A waiter that is registered is woken; what is left after that was heard. -/
theorem Current.notify {s : HostLoop} (h : s.Current) (hheard : s.Heard .notify) :
    (s.step .notify).Current := by
  obtain ⟨hidling, hstarting⟩ := hheard
  by_cases hnone : s.notifying = 0
  · have heq : s.step .notify = s := if_pos hnone
    rw [heq]
    exact h
  · have heq : s.step .notify =
        { s with notifying := s.notifying - 1, phase := notified s.phase } := if_neg hnone
    rw [heq]
    refine ⟨fun hphase => ?_, fun generation hmem => ?_⟩
    · refine (hidling (idling_of_notified hphase)).imp_right fun hmore => ?_
      show 0 < s.storing + (s.notifying - 1)
      omega
    · refine (hstarting generation (starting_of_notified hmem)).imp_right fun hmore => ?_
      show 0 < s.notifying - 1
      omega

/-- The loop goes on: what it reads is what there is. -/
theorem Current.turn {s : HostLoop} (h : s.Current) : (s.step .turn).Current := by
  show Current { s with phase := s.turn }
  unfold HostLoop.turn
  cases hphase : s.phase with
  | reading =>
    refine ⟨fun hidle => .inl ?_, fun generation hmem => by cases hmem⟩
    simpa [HostPhase.Idling] using hidle
  | counting target =>
    cases target with
    | none =>
      exact ⟨fun _ => h.idle (by simp [hphase, HostPhase.Idling]), fun _ hmem => by cases hmem⟩
    | some target =>
      refine ⟨fun hidle => by simp [HostPhase.Idling] at hidle, fun generation hmem => .inl ?_⟩
      exact (Option.some.inj hmem).symm
  | idling =>
    exact ⟨fun _ => h.idle (by simp [hphase, HostPhase.Idling]), fun _ hmem => by cases hmem⟩
  | idle => exact ⟨fun _ => h.idle (.inr hphase), fun _ hmem => by cases hmem⟩
  | roused =>
    exact ⟨fun hidle => by simp [HostPhase.Idling] at hidle, fun _ hmem => by cases hmem⟩
  | pausing =>
    exact ⟨fun hidle => by simp [HostPhase.Idling] at hidle, fun _ hmem => by cases hmem⟩
  | session target generation watch =>
    have hsession := h.session generation
    rw [hphase] at hsession
    cases watch with
    | starting =>
      refine ⟨fun hidle => by simp [HostPhase.Idling] at hidle, fun g hmem => ?_⟩
      obtain rfl := Option.some.inj hmem
      exact hsession rfl
    | waiting =>
      refine ⟨fun hidle => by simp [HostPhase.Idling] at hidle, fun g hmem => ?_⟩
      obtain rfl := Option.some.inj hmem
      exact hsession rfl
    | woken =>
      dsimp only
      split
      · exact ⟨fun hidle => by simp [HostPhase.Idling] at hidle, fun _ hmem => by cases hmem⟩
      · -- it looked at the generation, and that is the one it has
        rename_i hsame
        refine ⟨fun hidle => by simp [HostPhase.Idling] at hidle, fun g hmem => .inl ?_⟩
        obtain rfl := Option.some.inj hmem
        exact (not_not.mp hsame).symm

theorem Current.sessionEnds {s : HostLoop} (h : s.Current) : (s.step .sessionEnds).Current := by
  dsimp only [HostLoop.step]
  split
  · exact ⟨fun hidle => by simp [HostPhase.Idling] at hidle, fun _ hmem => by cases hmem⟩
  · exact h

theorem Current.step {s : HostLoop} (h : s.Current) (act : Act) (hheard : s.Heard act) :
    (s.step act).Current := by
  cases act with
  | store target => exact h.store target
  | count => exact h.count
  | notify => exact h.notify hheard
  | turn => exact h.turn
  | sessionEnds => exact h.sessionEnds

private theorem current_start : Current {} where
  idle h := by simp [HostPhase.Idling] at h
  session _ h := by cases h

/-- Where no notification is lost, the loop never sleeps on a wanted target. -/
theorem run_wakeful {acts : List Act} (h : Along step Heard {} acts) : (run acts).Wakeful := by
  apply Current.wakeful
  exact h.invariant (fun _ act hs hact => hs.step act hact) current_start

/-- A call of `set`, from its first step to its last. -/
def setActs (target : Option HostTarget) : List Act := [.store target, .count, .notify]

/-- The targets of the runs below. -/
def replicaAt (addr : String) : HostTarget := ⟨addr, none, defaultMtu⟩

/-- The target changes while the loop waits next to its session. -/
theorem run_wakeful_moved :
    (run (setActs (some (replicaAt "a")) ++ List.replicate 3 .turn ++
        setActs (some (replicaAt "b")) ++ List.replicate 3 .turn)).phase =
        .session (replicaAt "b") 2 .starting ∧
      (run (setActs (some (replicaAt "a")) ++ List.replicate 3 .turn ++
        setActs (some (replicaAt "b")) ++ List.replicate 3 .turn)).Wakeful :=
  ⟨by decide, run_wakeful (by decide)⟩

/-- The loop reads that there is no target, one is set, and the loop goes to sleep. -/
theorem run_wakeful_counterexample : ¬ ∀ acts, (run acts).Wakeful := by
  intro hall
  have hwakeful := hall ([.turn, .turn] ++ setActs (some (replicaAt "a")) ++ [.turn])
  have hidle := hwakeful.idle (by decide)
  revert hidle
  decide

end HostLoop

end QCBridge
