import QCBridge.ForStd.Guarded
import QCBridge.Agent.SocketInfo

/-!
# Two agents and one file

An agent that registers looks once more whether its entry is what is on disk, and tries again if
it is not. That repairs what the other agent overwrote before it looked. What the other writes
afterwards goes over a call that has returned, and nobody looks again. The file is right in the
end exactly if that never happens.
-/

namespace QCBridge

namespace SocketRole

/-- There are two roles. -/
@[simp] theorem other_other (r : SocketRole) : r.other.other = r := by cases r <;> rfl

/-- The other role is another. -/
@[simp] theorem other_ne (r : SocketRole) : r.other ≠ r := by cases r <;> decide

/-- And its key is another. -/
private theorem key_other_ne (r : SocketRole) : r.other.key ≠ r.key := by cases r <;> decide

/-- A role is the one or the other. -/
private theorem eq_or_other (r r' : SocketRole) : r' = r ∨ r' = r.other := by
  cases r <;> cases r' <;> decide

end SocketRole

namespace SocketPhase

/-- The call has returned well. -/
def isReturned : SocketPhase → Bool
  | returned ok => ok
  | _ => false

/-- What the next access writes, the removal of the file too. -/
def writes : SocketPhase → Option (Dict String SocketValue)
  | filling d => some d
  | unlinking => some .empty
  | _ => none

/-- The document that the agent goes by. -/
def holds : SocketPhase → Option (Dict String SocketValue)
  | truncating d => some d
  | filling d => some d
  | unlinking => some .empty
  | _ => none

end SocketPhase

namespace SocketDir

/-- Both calls returned, the registering ones with `Ok`. -/
def Returned (s : SocketDir) : Prop := ∀ r, (s.agents r).phase.isReturned = true

/-- What an agent writes shows the other agent's call if that has returned. -/
def Respects (s : SocketDir) (r : SocketRole) : Prop :=
  match (s.agents r).phase.writes with
  | some d =>
    (s.agents r.other).phase.isReturned = true →
      d.get? r.other.key = (s.agents r.other).call.wanted
  | none => True

instance (s : SocketDir) (r : SocketRole) : Decidable (s.Respects r) := by
  unfold Respects
  split <;> infer_instance

/-- The file shows every call that has returned, unless the other agent is about to write. -/
def Shows (s : SocketDir) : Prop :=
  ∀ r, (s.agents r).phase.isReturned = true →
    s.file.get? r = (s.agents r).call.wanted ∨ (s.agents r.other).phase.writes ≠ none

/-- When both calls have returned nobody is about to write, so the file shows both. -/
theorem Shows.all {s : SocketDir} (h : s.Shows) (hret : s.Returned) (r : SocketRole) :
    s.file.get? r = (s.agents r).call.wanted := by
  refine (h r (hret r)).resolve_right fun hne => hne ?_
  have hother := hret r.other
  cases hphase : (s.agents r.other).phase with
  | returned ok => rfl
  | _ => simp [hphase, SocketPhase.isReturned] at hother

/-! ## One access -/

/-- A step is the agent's own next access. -/
private theorem step_self (s : SocketDir) (r : SocketRole) :
    (s.step r).agents r = (Registrar.next s.file r (s.agents r)).2 := Function.update_self ..

/-- And leaves the other agent where it is. -/
theorem step_other (s : SocketDir) (r : SocketRole) :
    (s.step r).agents r.other = s.agents r.other := Function.update_of_ne r.other_ne ..

/-- What an agent was called for does not change. -/
private theorem next_call (f : SocketFile) (r : SocketRole) (a : Registrar) :
    (Registrar.next f r a).2.call = a.call := by
  unfold Registrar.next Registrar.checked
  split <;> try rfl
  split
  · rfl
  · split <;> rfl

/-- Of either agent. -/
private theorem step_call (s : SocketDir) (r r' : SocketRole) :
    ((s.step r).agents r').call = (s.agents r').call := by
  rcases r.eq_or_other r' with rfl | rfl
  · rw [step_self, next_call]
  · rw [step_other]

/-- An access leaves the file, tears it, or writes. -/
private theorem next_file (f : SocketFile) (r : SocketRole) (a : Registrar) :
    (Registrar.next f r a).1 = f ∧ a.phase.writes = none ∨
      (Registrar.next f r a).2.phase.writes ≠ none ∨
      ∃ d, a.phase.writes = some d ∧ ∀ r', (Registrar.next f r a).1.get? r' = d.get? r'.key := by
  unfold Registrar.next
  cases hphase : a.phase with
  | reading => cases a.call <;> exact .inl ⟨rfl, rfl⟩
  | truncating d => exact .inr (.inl (by simp [SocketPhase.writes]))
  | filling d => cases a.call <;> exact .inr (.inr ⟨d, rfl, fun _ => rfl⟩)
  | unlinking => exact .inr (.inr ⟨.empty, rfl, fun _ => rfl⟩)
  | checking => cases a.call <;> exact .inl ⟨rfl, rfl⟩
  | returned ok => exact .inl ⟨rfl, rfl⟩

end SocketDir

/-! ## What an agent goes by -/

namespace Registrar

/-- The other's entry is kept if it is an object. -/
private theorem get?_withMine (f : SocketFile) (r : SocketRole) (mine : SocketEntry) :
    (withMine f r mine).get? r.other.key = (f.get? r.other).filter SocketValue.isObject := by
  have hkey : (r.other.key = "host" ∨ r.other.key = "replica") := by cases r <;> decide
  unfold withMine SocketFile.roles SocketFile.get?
  rw [Dict.get?_insert_of_ne _ _ (SocketRole.key_other_ne r).symm, Dict.get?_filter]
  congr 1
  funext v
  simp [hkey]

/-- What an agent holds fits its call. -/
structure Fit (r : SocketRole) (a : Registrar) : Prop where
  erased : a.call = .remove → ∀ d, a.phase.holds = some d → d.get? r.key = none
  unlinks : a.phase = .unlinking → a.call = .remove
  /-- "Only role keys survive", and of these only objects. -/
  kept : ∀ mine, a.call = .register mine → ∀ d, a.phase.holds = some d →
    ∀ v, d.get? r.other.key = some v → v.isObject = true

/-- An agent that holds nothing. -/
private theorem Fit.of_holds_none {r : SocketRole} {a : Registrar} (h : a.phase.holds = none) :
    a.Fit r where
  erased _ d hd := by simp [h] at hd
  unlinks hphase := by simp [hphase, SocketPhase.holds] at h
  kept _ _ d hd := by simp [h] at hd

/-- The next access of an agent holds what fits its call. -/
theorem Fit.next {r : SocketRole} {a : Registrar} (h : a.Fit r) (f : SocketFile) :
    (next f r a).2.Fit r := by
  unfold Registrar.next
  -- what is read: the own entry put into it, or taken out of it
  cases hphase : a.phase with
  | reading =>
    cases hcall : a.call with
    | register mine =>
      refine ⟨fun hc => (by cases hc), fun hp => (by cases hp), fun _ _ d hd v hv => ?_⟩
      obtain rfl := Option.some.inj hd
      rw [get?_withMine] at hv
      exact (Option.filter_eq_some_iff.mp hv).2
    | remove =>
      dsimp only [removing]
      split
      · split
        · refine ⟨fun _ d hd => ?_, fun _ => rfl, fun mine hc => by cases hc⟩
          obtain rfl := Option.some.inj hd
          rfl
        · refine ⟨fun _ d hd => ?_, fun hp => (by cases hp), fun mine hc => by cases hc⟩
          obtain rfl := Option.some.inj hd
          exact Dict.get?_erase_self ..
      · exact .of_holds_none rfl
  -- what was read is kept while the file is cut short
  | truncating d =>
    have herased := h.erased
    have hkept := h.kept
    rw [hphase] at herased hkept
    exact ⟨herased, fun hp => (by cases hp), hkept⟩
  -- after these the agent holds nothing
  | filling d => cases hcall : a.call <;> exact .of_holds_none rfl
  | unlinking => exact .of_holds_none rfl
  | checking =>
    cases hcall : a.call with
    | register mine =>
      dsimp only [checked]
      split
      · exact .of_holds_none rfl
      · split <;> exact .of_holds_none rfl
    | remove => exact .of_holds_none (by rw [hphase]; rfl)
  | returned ok => exact .of_holds_none (by rw [hphase]; rfl)

/-- A call that returns well leaves in the file what it was for. -/
private theorem Fit.returns {r : SocketRole} {a : Registrar} (h : a.Fit r) (f : SocketFile)
    (hret : (Registrar.next f r a).2.phase.isReturned = true) :
    a.phase.isReturned = true ∨ (Registrar.next f r a).1.get? r = a.call.wanted := by
  revert hret
  unfold Registrar.next
  -- only the removing of an entry that is not there returns from here
  cases hphase : a.phase with
  | reading =>
    cases hcall : a.call with
    | register mine => simp [SocketPhase.isReturned]
    | remove =>
      dsimp only [removing]
      split
      · split <;> simp [SocketPhase.isReturned]
      · rename_i hdoc
        intro _
        right
        cases f with
        | doc d => exact absurd rfl (hdoc d)
        | _ => rfl
  | truncating d => simp [SocketPhase.isReturned]
  -- the file is written as it was read, without the entry
  | filling d =>
    cases hcall : a.call with
    | register mine => simp [SocketPhase.isReturned]
    | remove => exact fun _ => .inr (h.erased hcall d (by rw [hphase]; rfl))
  -- the file is gone, and the entry with it
  | unlinking =>
    rw [h.unlinks hphase]
    exact fun _ => .inr rfl
  -- the entry is found to be there
  | checking =>
    cases hcall : a.call with
    | register mine =>
      dsimp only [checked]
      split
      · rename_i hmine
        exact fun _ => .inr hmine
      · split <;> simp [SocketPhase.isReturned]
    | remove => simp [SocketPhase.isReturned, hphase]
  -- it had returned already
  | returned ok =>
    intro hret
    rw [hphase] at hret
    exact .inl hret

end Registrar

namespace SocketDir

/-- Every agent holds what fits its call. -/
def Fit (s : SocketDir) : Prop := ∀ r, (s.agents r).Fit r

/-- A step of either. -/
theorem Fit.step {s : SocketDir} (h : s.Fit) (r : SocketRole) : (s.step r).Fit := by
  intro r'
  rcases r.eq_or_other r' with rfl | rfl
  · rw [step_self]
    exact (h r').next s.file
  · rw [step_other]
    exact h _

/-- At the start neither holds anything. -/
private theorem fit_start (file : SocketFile) (calls : SocketRole → SocketCall) :
    (start file calls).Fit := by
  exact fun r => .of_holds_none rfl

/-- What is written shows the calls that have returned. -/
theorem Shows.step {s : SocketDir} (h : s.Shows) (hfit : s.Fit) {r : SocketRole}
    (hrespects : s.Respects r) : (s.step r).Shows := by
  intro r' hret
  rw [step_call]
  rcases r.eq_or_other r' with rfl | rfl
  -- the agent that goes on returns now, or has returned before
  · rw [step_self] at hret
    rw [step_other]
    rcases (hfit r').returns s.file hret with hold | hnow
    · have heq : (s.step r').file = s.file := by
        cases hphase : (s.agents r').phase with
        | returned ok => simp [SocketDir.step, Registrar.next, hphase]
        | _ => simp [hphase, SocketPhase.isReturned] at hold
      rw [heq]
      exact h r' hold
    · exact .inl hnow
  -- the other agent has returned, and this one may write
  · rw [step_other] at hret
    have hshown := h r.other hret
    rw [SocketRole.other_other] at hshown ⊢
    rw [step_self]
    rcases next_file s.file r (s.agents r) with ⟨heq, hnone⟩ | hwrites | ⟨d, hd, hfile⟩
    · exact .inl ((congrArg (·.get? r.other) heq).trans (hshown.resolve_right (by simp [hnone])))
    · exact .inr hwrites
    · left
      unfold Respects at hrespects
      rw [hd] at hrespects
      exact (hfile r.other).trans (hrespects hret)

/-- And neither has returned. -/
private theorem shows_start (file : SocketFile) (calls : SocketRole → SocketCall) :
    (start file calls).Shows := by
  intro r hret
  cases hret

/-! ## What was written over stays lost -/

/-- What an agent goes by: what it holds, and else what is in the file. -/
def seenIn (f : SocketFile) (r : SocketRole) : Option (Dict String SocketValue) →
    Option SocketValue
  | some d => d.get? r.key
  | none => f.get? r

/-- What the other agent goes by of `r`. -/
def seen (s : SocketDir) (r : SocketRole) : Option SocketValue :=
  seenIn s.file r (s.agents r.other).phase.holds

/-- The call of `r` has returned, and the other agent goes by something else. -/
structure Lost (s : SocketDir) (r : SocketRole) : Prop where
  returned : (s.agents r).phase.isReturned = true
  differs : s.seen r ≠ (s.agents r).call.wanted
  /-- What an agent that registers would not keep does not count. -/
  kept : ∀ mine, (s.agents r.other).call = .register mine →
    ∀ v, s.seen r = some v → v.isObject = true

/-- A call that has returned makes no access. -/
private theorem step_of_returned {s : SocketDir} {r : SocketRole}
    (h : (s.agents r).phase.isReturned = true) : s.step r = s := by
  cases hphase : (s.agents r).phase with
  | returned ok => simp [SocketDir.step, Registrar.next, hphase, Function.update_eq_self]
  | _ => simp [hphase, SocketPhase.isReturned] at h

/-- Who registers goes by the other's entry, if it is an object. -/
private theorem seenIn_withMine {f : SocketFile} {r : SocketRole} {mine : SocketEntry}
    (hkept : ∀ v, f.get? r = some v → v.isObject = true) :
    (Registrar.withMine f r.other mine).get? r.key = f.get? r := by
  have hget := Registrar.get?_withMine f r.other mine
  rw [SocketRole.other_other] at hget
  rw [hget]
  cases hfile : f.get? r with
  | none => rfl
  | some v => simp [hkept v hfile]

/-- Who removes goes by all the other entries. -/
private theorem seenIn_removing (f : SocketFile) (r : SocketRole) :
    seenIn f r (Registrar.removing f r.other).holds = f.get? r := by
  unfold Registrar.removing
  cases f with
  | doc d =>
    have hget : (d.erase r.other.key).get? r.key = d.get? r.key :=
      Dict.get?_erase_of_ne _ (SocketRole.key_other_ne r)
    dsimp only
    split
    · rename_i hempty
      have hnone : (d.erase r.other.key).get? r.key = none := by
        rw [Dict.get?, List.isEmpty_iff.mp hempty]
        rfl
      exact hnone.symm.trans hget
    · exact hget
  | _ => rfl

/-- The other agent reads what is there, and writes what it has read. -/
theorem seen_step {s : SocketDir} {r : SocketRole}
    (hkept : ∀ mine, (s.agents r.other).call = .register mine →
      ∀ v, s.seen r = some v → v.isObject = true) : (s.step r.other).seen r = s.seen r := by
  unfold seen at hkept ⊢
  rw [step_self]
  dsimp only [SocketDir.step]
  unfold Registrar.next
  cases hphase : (s.agents r.other).phase with
  -- reading an object leaves its entries, taking the own one out leaves the others
  | reading =>
    rw [hphase] at hkept
    cases hcall : (s.agents r.other).call with
    | register mine => exact seenIn_withMine (hkept mine hcall)
    | remove => exact seenIn_removing s.file r
  -- what was read is what is written
  | truncating d => rfl
  | filling d => cases hcall : (s.agents r.other).call <;> rfl
  | unlinking => rfl
  -- a check writes nothing
  | checking =>
    cases hcall : (s.agents r.other).call with
    | register mine =>
      dsimp only [Registrar.checked]
      split
      · rfl
      · split <;> rfl
    | remove =>
      dsimp only
      rw [hphase]
  | returned ok =>
    dsimp only
    rw [hphase]

/-- Nobody brings back what is lost. -/
theorem Lost.step {s : SocketDir} {r : SocketRole} (h : s.Lost r) (r' : SocketRole) :
    (s.step r').Lost r := by
  rcases r.eq_or_other r' with rfl | rfl
  · rw [step_of_returned h.returned]
    exact h
  · have hsame : (s.step r.other).agents r = s.agents r := by
      have hother := step_other s r.other
      rwa [SocketRole.other_other] at hother
    have hseen := seen_step h.kept
    refine ⟨hsame ▸ h.returned, ?_, fun mine hcall => ?_⟩
    · rw [hseen, hsame]
      exact h.differs
    · rw [step_call] at hcall
      rw [hseen]
      exact h.kept mine hcall

/-- An agent that does not respect the other's call goes by something else. -/
private theorem lost_of_not_respects {s : SocketDir} (hfit : s.Fit) {r : SocketRole}
    (h : ¬ s.Respects r) : s.Lost r.other := by
  unfold Respects at h
  split at h
  · rename_i d hwrites
    obtain ⟨hret, hdiffers⟩ := Classical.not_imp.mp h
    have hholds : (s.agents r).phase.holds = some d := by
      cases hphase : (s.agents r).phase <;> simp_all [SocketPhase.writes, SocketPhase.holds]
    have hseen : s.seen r.other = d.get? r.other.key := by
      unfold seen
      rw [SocketRole.other_other, hholds]
      rfl
    refine ⟨hret, hseen ▸ hdiffers, fun mine hcall v hv => ?_⟩
    rw [SocketRole.other_other] at hcall
    exact (hfit r).kept mine hcall d hholds v (hseen ▸ hv)
  · exact absurd trivial h

/-- So when both have returned it is not in the file. -/
private theorem Lost.differs_of_returned {s : SocketDir} {r : SocketRole} (h : s.Lost r)
    (hret : s.Returned) : s.file.get? r ≠ (s.agents r).call.wanted := by
  have hdiffers := h.differs
  unfold seen at hdiffers
  have hother := hret r.other
  cases hphase : (s.agents r.other).phase with
  | returned ok =>
    rw [hphase] at hdiffers
    exact hdiffers
  | _ => simp [hphase, SocketPhase.isReturned] at hother

/-! ## The two calls -/

/-- In every run an agent does what it was called for. -/
private theorem run_call (file : SocketFile) (calls : SocketRole → SocketCall)
    (acts : List SocketRole)
    (r : SocketRole) : ((run file calls acts).agents r).call = calls r :=
  foldl_invariant (I := fun s => (s.agents r).call = calls r)
    (fun s r' hs => (step_call s r' r).trans hs) acts rfl

/-- After both calls have returned the file shows both, exactly if nothing was written over a
    call that had returned. -/
theorem file_shows_iff {file : SocketFile} {calls : SocketRole → SocketCall}
    {acts : List SocketRole} (hret : (run file calls acts).Returned) :
    (∀ r, (run file calls acts).file.get? r = (calls r).wanted) ↔
      Along step Respects (start file calls) acts := by
  constructor
  · intro hall
    apply Along.of_split
    intro done r rest heq
    by_contra hnot
    have hfit : (run file calls done).Fit :=
      foldl_invariant (fun s r hs => hs.step r) done (fit_start file calls)
    -- what it writes is never put right
    have hlost : (run file calls acts).Lost r.other := by
      rw [run, heq, List.foldl_append]
      exact foldl_invariant (I := fun s => Lost s r.other) (fun s r' hs => hs.step r') (r :: rest)
        (lost_of_not_respects hfit hnot)
    have hdiffers := hlost.differs_of_returned hret
    rw [run_call] at hdiffers
    exact hdiffers (hall r.other)
  · intro halong r
    have hshows : (run file calls acts).Fit ∧ (run file calls acts).Shows :=
      halong.invariant (I := fun s => s.Fit ∧ s.Shows)
        (fun s r hs hr => ⟨hs.1.step r, hs.2.step hs.1 hr⟩)
        ⟨fit_start file calls, shows_start file calls⟩
    rw [hshows.2.all hret r, run_call]

/-- Two agents that register, for the tests below. -/
private def twoCalls : SocketRole → SocketCall
  | .host => .register ⟨4001, "h", 10⟩
  | .replica => .register ⟨4002, "r", 11⟩

/-- The second registers while the first is writing, and both look again. -/
theorem file_shows_iff_overlapping :
    (run .absent twoCalls [.host, .host, .replica, .host, .replica, .replica, .host, .host,
      .host, .host, .replica, .host]).file.get? .host = (twoCalls .host).wanted ∧
    (run .absent twoCalls [.host, .host, .replica, .host, .replica, .replica, .host, .host,
      .host, .host, .replica, .host]).file.get? .replica = (twoCalls .replica).wanted := by
  have hshows := (file_shows_iff (fun r => by cases r <;> decide)).mpr
    (by decide : Along step Respects (start .absent twoCalls) [.host, .host, .replica, .host,
      .replica, .replica, .host, .host, .host, .host, .replica, .host])
  exact ⟨hshows .host, hshows .replica⟩

/-- The host's agent reads; the replica's registers, looks and returns; and the host's agent
    writes what it had read. -/
theorem file_shows_counterexample :
    (∀ r, ((run .absent twoCalls [.host, .replica, .replica, .replica, .replica, .host, .host,
      .host]).agents r).phase = .returned true) ∧
    (run .absent twoCalls [.host, .replica, .replica, .replica, .replica, .host, .host,
      .host]).file.get? .replica = none := by
  refine ⟨fun r => ?_, by decide⟩
  cases r <;> rfl

end SocketDir

end QCBridge
