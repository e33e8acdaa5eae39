import QCBridge.ForStd.Spaced
import QCBridge.Ring1.Liveness
import Mathlib.Algebra.Order.Ring.Int
import Mathlib.Data.List.Induction

/-!
# The rate limits of the resync policy

A policy that is asked, allowed and reset in any order, at times that do not run backwards,
never grants two full files less than `minInterval` apart, nor two repairs less than
`fastInterval` apart, and serves no state of the replica twice in a row.

Each of the three memories of the policy holds what the history says last: the time of the
last full file, the time of the last repair, the state that was served last.

## Key results

- `calls_gated`: a memory that gates its grants spaces them
- `calls_serves`: the state a policy serves is not the one it served before
- `rate_limited`: the three limits over every history
-/

namespace QCBridge.ResyncPolicy

variable {τ : Type} [AddCommGroup τ] [LinearOrder τ]

/-! ## Histories -/

/-- The file was granted. -/
def Answer.isFull : Answer → Bool
  | .verdict .full => true
  | .allowed true => true
  | _ => false

/-- A repair short of the file was granted. -/
def Answer.isRepair : Answer → Bool
  | .verdict .fast => true
  | .verdict .delta => true
  | _ => false

/-- A verdict other than "none". -/
def Answer.serves : Answer → Bool
  | .verdict .none => false
  | .verdict _ => true
  | _ => false

/-- The time a call is made at. A reset has none. -/
def Call.now? : Call τ → Option τ
  | .decide _ now _ _ _ => some now
  | .allowFull now => some now
  | .reset _ => none

/-- The state of the replica that a call asks about. -/
def Call.state? : Call τ → Option (Option Nat × Nat)
  | .decide status _ _ _ _ => some status.state
  | _ => none

/-- A reset, or a refused `allow_full`: the served state is not the last one. -/
def forgets : Call τ × Answer → Bool
  | (.reset _, _) => true
  | (_, .allowed false) => true
  | _ => false

/-- The times at which calls were answered in some way. -/
def times (k : Answer → Bool) (log : List (Call τ × Answer)) : List τ :=
  (log.filter fun e => k e.2).filterMap fun e => e.1.now?

/-- No state is served twice in a row, unless the policy forgot in between. -/
def ServedOnce (log : List (Call τ × Answer)) : Prop :=
  ∀ before e between e' after, log = before ++ e :: (between ++ e' :: after) →
    e.2.serves = true → e'.2.serves = true →
    (∀ x ∈ between, x.2.serves = false ∧ forgets x = false) → e.1.state? ≠ e'.1.state?

/-- The policy after a history of calls. -/
def after (p : ResyncPolicy τ) (cs : List (Call τ)) : ResyncPolicy τ :=
  cs.foldl (fun p c => (p.call c).1) p

private theorem after_snoc (p : ResyncPolicy τ) (cs : List (Call τ)) (c : Call τ) :
    p.after (cs ++ [c]) = ((p.after cs).call c).1 := by
  rw [after, List.foldl_concat, after]

private theorem calls_snoc (p : ResyncPolicy τ) (cs : List (Call τ)) (c : Call τ) :
    p.calls (cs ++ [c]) = p.calls cs ++ [(c, ((p.after cs).call c).2)] := by
  induction cs generalizing p with
  | nil => rfl
  | cons c' cs ih =>
    show _ :: (p.call c').1.calls (cs ++ [c]) = _
    rw [ih]
    rfl

private theorem calls_now (p : ResyncPolicy τ) (cs : List (Call τ)) :
    ((p.calls cs).filterMap fun e => e.1.now?) = cs.filterMap Call.now? := by
  induction cs generalizing p with
  | nil => rfl
  | cons c cs ih => simp only [calls, List.filterMap_cons, ih]

omit [AddCommGroup τ] [LinearOrder τ] in
private theorem times_snoc (k : Answer → Bool) (log : List (Call τ × Answer))
    (e : Call τ × Answer) :
    times k (log ++ [e]) = times k log ++ if k e.2 then e.1.now?.toList else [] := by
  unfold times
  rw [List.filter_append, List.filterMap_append]
  congr 1
  rw [List.filter_singleton]
  by_cases hk : k e.2 = true
  · rw [if_pos hk, hk]
    cases hnow : e.1.now? <;> simp [hnow]
  · rw [if_neg hk, eq_false_of_ne_true hk]
    rfl

/-! ## What one call does to the memories -/

/-- What `decide` can do: nothing, or serve a state it did not serve last, with a repair
    or with the file. -/
private theorem decide_cases (p : ResyncPolicy τ) (status : ReplicaStatus) (now : τ)
    (caps : List String) (fastCovers : Option (Option Nat → Bool))
    (deltaState : Option DeltaState) {q : ResyncPolicy τ} {v : Verdict}
    (h : p.decide status now caps fastCovers deltaState = (q, v)) :
    q = p ∧ v = .none ∨
    (q.minInterval = p.minInterval ∧ q.fastInterval = p.fastInterval) ∧
      (p.servedFor ≠ some status.state ∧ q.servedFor = some status.state) ∧
      ((v = .fast ∨ v = .delta) ∧ tooSoon now p.lastFast p.fastInterval = false ∧
          q.lastFast = some now ∧ q.lastSent = p.lastSent ∨
        v = .full ∧ tooSoon now p.lastSent p.minInterval = false ∧
          q.lastSent = some now ∧ q.lastFast = p.lastFast) := by
  unfold decide at h
  -- nothing is known of the replica, or nothing is missed
  split at h
  · cases h
    exact .inl ⟨rfl, rfl⟩
  split at h
  · cases h
    exact .inl ⟨rfl, rfl⟩
  -- the state was not served before
  rename_i hserved
  have hserved : p.servedFor ≠ some status.state := fun h => hserved h.symm
  -- the re-assert covers the gap: it is granted unless the last one is too near
  split at h
  · split at h
    · cases h
      exact .inl ⟨rfl, rfl⟩
    · rename_i hsoon
      cases h
      exact .inr ⟨⟨rfl, rfl⟩, ⟨hserved, rfl⟩,
        .inl ⟨.inl rfl, eq_false_of_ne_true hsoon, rfl, rfl⟩⟩
  -- a delta, which the replica must know and the host must have the state for
  split at h
  · split at h
    · cases h
      exact .inl ⟨rfl, rfl⟩
    split at h
    · cases h
      exact .inl ⟨rfl, rfl⟩
    · rename_i hsoon
      cases h
      exact .inr ⟨⟨rfl, rfl⟩, ⟨hserved, rfl⟩,
        .inl ⟨.inr rfl, eq_false_of_ne_true hsoon, rfl, rfl⟩⟩
  -- the file again
  split at h
  · cases h
    exact .inl ⟨rfl, rfl⟩
  · rename_i hsoon
    cases h
    exact .inr ⟨⟨rfl, rfl⟩, ⟨hserved, rfl⟩, .inr ⟨rfl, eq_false_of_ne_true hsoon, rfl, rfl⟩⟩

/-- What `allow_full` can do: refuse and forget, or grant the file. -/
private theorem allowFull_cases (p : ResyncPolicy τ) (now : τ) {q : ResyncPolicy τ} {b : Bool}
    (h : p.allowFull now = (q, b)) :
    (q.minInterval = p.minInterval ∧ q.fastInterval = p.fastInterval ∧
      q.lastFast = p.lastFast) ∧
      (b = false ∧ q.lastSent = p.lastSent ∨
        b = true ∧ tooSoon now p.lastSent p.minInterval = false ∧ q.lastSent = some now ∧
          q.servedFor = p.servedFor) := by
  unfold allowFull at h
  split at h
  · cases h
    exact ⟨⟨rfl, rfl, rfl⟩, .inl ⟨rfl, rfl⟩⟩
  · rename_i hsoon
    cases h
    exact ⟨⟨rfl, rfl, rfl⟩, .inr ⟨rfl, eq_false_of_ne_true hsoon, rfl, rfl⟩⟩

/-- What a call does to a memory that gates the answers `k` with an interval. -/
def Gates (k : Answer → Bool) (memory : ResyncPolicy τ → Option τ)
    (interval : ResyncPolicy τ → τ) : Prop :=
  ∀ (p : ResyncPolicy τ) (c : Call τ), interval (p.call c).1 = interval p ∧
    (k (p.call c).2 = true →
      ∃ now, c.now? = some now ∧ tooSoon now (memory p) (interval p) = false ∧
        memory (p.call c).1 = some now) ∧
    (k (p.call c).2 = false → memory (p.call c).1 = memory p)

/-- A full file is granted when the last one is long ago, and remembered. -/
private theorem gates_full : Gates (τ := τ) Answer.isFull lastSent minInterval := by
  intro p c
  cases c with
  | decide status now caps fastCovers deltaState =>
    dsimp only [call]
    generalize hout : p.decide status now caps fastCovers deltaState = out
    obtain ⟨q, v⟩ := out
    obtain ⟨rfl, rfl⟩ | ⟨⟨hmin, -⟩, -, ⟨rfl | rfl, -, -, hsent⟩ | ⟨rfl, hsoon, hsent, -⟩⟩ :=
      decide_cases p status now caps fastCovers deltaState hout
    · exact ⟨rfl, fun h => (by cases h), fun _ => rfl⟩
    · exact ⟨hmin, fun h => (by cases h), fun _ => hsent⟩
    · exact ⟨hmin, fun h => (by cases h), fun _ => hsent⟩
    · exact ⟨hmin, fun _ => ⟨now, rfl, hsoon, hsent⟩, fun h => (by cases h)⟩
  | allowFull now =>
    dsimp only [call]
    generalize hout : p.allowFull now = out
    obtain ⟨q, b⟩ := out
    obtain ⟨⟨hmin, -, -⟩, ⟨rfl, hsent⟩ | ⟨rfl, hsoon, hsent, -⟩⟩ := allowFull_cases p now hout
    · exact ⟨hmin, fun h => (by cases h), fun _ => hsent⟩
    · exact ⟨hmin, fun _ => ⟨now, rfl, hsoon, hsent⟩, fun h => (by cases h)⟩
  | reset servedFor => exact ⟨rfl, fun h => (by cases h), fun _ => rfl⟩

/-- A repair is granted when the last one is long ago, and remembered. -/
private theorem gates_repair : Gates (τ := τ) Answer.isRepair lastFast fastInterval := by
  intro p c
  cases c with
  | decide status now caps fastCovers deltaState =>
    dsimp only [call]
    generalize hout : p.decide status now caps fastCovers deltaState = out
    obtain ⟨q, v⟩ := out
    obtain ⟨rfl, rfl⟩ | ⟨⟨-, hfast⟩, -, ⟨rfl | rfl, hsoon, hlast, -⟩ | ⟨rfl, -, -, hlast⟩⟩ :=
      decide_cases p status now caps fastCovers deltaState hout
    · exact ⟨rfl, fun h => (by cases h), fun _ => rfl⟩
    · exact ⟨hfast, fun _ => ⟨now, rfl, hsoon, hlast⟩, fun h => (by cases h)⟩
    · exact ⟨hfast, fun _ => ⟨now, rfl, hsoon, hlast⟩, fun h => (by cases h)⟩
    · exact ⟨hfast, fun h => (by cases h), fun _ => hlast⟩
  | allowFull now =>
    dsimp only [call]
    generalize hout : p.allowFull now = out
    obtain ⟨q, b⟩ := out
    obtain ⟨⟨-, hfast, hlast⟩, -⟩ := allowFull_cases p now hout
    refine ⟨hfast, fun h => ?_, fun _ => hlast⟩
    cases b <;> cases h
  | reset servedFor => exact ⟨rfl, fun h => (by cases h), fun _ => rfl⟩

/-- A state is served when it is not the one served last, and remembered. -/
private theorem call_serves (p : ResyncPolicy τ) (c : Call τ) (h : (p.call c).2.serves = true) :
    c.state? ≠ p.servedFor ∧ c.state? = (p.call c).1.servedFor := by
  cases c with
  | decide status now caps fastCovers deltaState =>
    dsimp only [call] at h ⊢
    generalize hout : p.decide status now caps fastCovers deltaState = out at h
    obtain ⟨q, v⟩ := out
    obtain ⟨-, rfl⟩ | ⟨-, ⟨hne, hserved⟩, -⟩ :=
      decide_cases p status now caps fastCovers deltaState hout
    · cases h
    · exact ⟨hne.symm, hserved.symm⟩
  | allowFull now => cases h
  | reset servedFor => cases h

/-- What was served last stays so, unless the policy forgets. -/
private theorem call_keeps (p : ResyncPolicy τ) (c : Call τ) (h : (p.call c).2.serves = false)
    (hforgets : forgets (c, (p.call c).2) = false) :
    (p.call c).1.servedFor = p.servedFor := by
  cases c with
  | decide status now caps fastCovers deltaState =>
    dsimp only [call] at h ⊢
    generalize hout : p.decide status now caps fastCovers deltaState = out at h
    obtain ⟨q, v⟩ := out
    obtain ⟨rfl, -⟩ | ⟨-, -, ⟨rfl | rfl, -⟩ | ⟨rfl, -⟩⟩ :=
      decide_cases p status now caps fastCovers deltaState hout
    · rfl
    all_goals cases h
  | allowFull now =>
    dsimp only [call] at hforgets ⊢
    generalize hout : p.allowFull now = out at hforgets
    obtain ⟨q, b⟩ := out
    obtain ⟨-, ⟨rfl, -⟩ | ⟨-, -, -, hserved⟩⟩ := allowFull_cases p now hout
    · cases hforgets
    · exact hserved
  | reset servedFor => cases hforgets

/-! ## Histories of any length -/

omit [AddCommGroup τ] [LinearOrder τ] in
/-- The times of some answers come in the order of the calls. -/
private theorem times_sublist (k : Answer → Bool) (log : List (Call τ × Answer)) :
    (times k log).Sublist (log.filterMap fun e => e.1.now?) :=
  List.filter_sublist.filterMap _

/-- A memory that gates its grants is the time of the last one, and spaces them. -/
theorem calls_gated [IsOrderedAddMonoid τ] {k : Answer → Bool}
    {memory : ResyncPolicy τ → Option τ} {interval : ResyncPolicy τ → τ}
    (hgates : Gates k memory interval) (p : ResyncPolicy τ) (hfresh : memory p = none)
    (cs : List (Call τ)) (hmono : (cs.filterMap Call.now?).Pairwise (· ≤ ·)) :
    interval (p.after cs) = interval p ∧ (times k (p.calls cs)).getLast? = memory (p.after cs) ∧
      Spaced (interval p) (times k (p.calls cs)) := by
  induction cs using List.reverseRecOn with
  -- at the start nothing was granted
  | nil => exact ⟨rfl, hfresh.symm, List.Pairwise.nil⟩
  -- the induction is on the calls, at their end
  | append_singleton cs c ih =>
    rw [List.filterMap_append] at hmono
    obtain ⟨hinterval, hlast, hspaced⟩ := ih (List.pairwise_append.mp hmono).1
    obtain ⟨hinterval', hgrant, hkeep⟩ := hgates (p.after cs) c
    rw [calls_snoc, after_snoc, times_snoc]
    refine ⟨hinterval'.trans hinterval, ?_⟩
    -- granted: the time is the newest, and far enough from the last one
    by_cases hk : k ((p.after cs).call c).2 = true
    · obtain ⟨now, hnow, hsoon, hmemory⟩ := hgrant hk
      rw [if_pos hk, hnow, hmemory, Option.toList_some, List.getLast?_concat]
      refine ⟨rfl, hspaced.snoc ?_ fun last hget => ?_⟩
      · have hsub := times_sublist k (p.calls cs)
        rw [calls_now] at hsub
        exact (List.pairwise_append.mp hmono).1.sublist hsub
      · rw [← hlast, hget, hinterval] at hsoon
        simpa [tooSoon] using hsoon
    · -- not granted: the memory stays
      rw [if_neg hk, List.append_nil, hkeep (eq_false_of_ne_true hk)]
      exact ⟨hlast, hspaced⟩

/-- What a policy serves is not what it served before, as long as it does not forget. -/
theorem calls_serves (p : ResyncPolicy τ) (cs : List (Call τ)) :
    (∀ before e between, p.calls cs = before ++ e :: between → e.2.serves = true →
      (∀ x ∈ between, x.2.serves = false ∧ forgets x = false) →
      e.1.state? = (p.after cs).servedFor) ∧
    ServedOnce (p.calls cs) := by
  induction cs using List.reverseRecOn with
  -- at the start nothing was served
  | nil =>
    constructor
    · intro before e between hsplit
      simp [calls] at hsplit
    · intro before e between e' after hsplit
      simp [calls] at hsplit
  | append_singleton cs c ih =>
    obtain ⟨hserved, honce⟩ := ih
    rw [calls_snoc, after_snoc]
    -- what was served last is what the policy remembers
    constructor
    · intro before e between hsplit he hbetween
      -- it is this call, or one before it that nothing since has changed
      rcases List.eq_nil_or_concat between with rfl | ⟨between, x, rfl⟩
      · obtain ⟨-, heq⟩ := List.append_inj' hsplit rfl
        obtain rfl := List.singleton_inj.mp heq
        exact (call_serves _ c he).2
      · rw [List.concat_eq_append] at hsplit hbetween
        rw [← List.cons_append, ← List.append_assoc] at hsplit
        obtain ⟨hlog, heq⟩ := List.append_inj' hsplit rfl
        obtain rfl := List.singleton_inj.mp heq
        obtain ⟨hx, hforgets⟩ := hbetween (c, ((p.after cs).call c).2) (by simp)
        rw [call_keeps _ c hx hforgets]
        exact hserved before e between hlog he fun y hy => hbetween y (by simp [hy])
    · -- and it is not what was served before
      intro before e between e' after hsplit he he' hbetween
      -- this call serves, or both stand before it
      rcases List.eq_nil_or_concat after with rfl | ⟨after, x, rfl⟩
      · rw [← List.cons_append, ← List.append_assoc] at hsplit
        obtain ⟨hlog, heq⟩ := List.append_inj' hsplit rfl
        obtain rfl := List.singleton_inj.mp heq
        rw [hserved before e between hlog he hbetween]
        exact (call_serves _ c he').1.symm
      · apply honce before e between e' after _ he he' hbetween
        rw [List.concat_eq_append] at hsplit
        have hassoc : before ++ e :: (between ++ e' :: (after ++ [x])) =
            (before ++ e :: (between ++ e' :: after)) ++ [x] := by simp
        rw [hassoc] at hsplit
        exact (List.append_inj' hsplit rfl).1

/-- The limits of a policy, over every history of calls at times that do not run
    backwards: any two files `minInterval` apart, any two repairs `fastInterval` apart, and
    no state served twice in a row unless a reset or a refused `allow_full` came between. -/
theorem rate_limited [IsOrderedAddMonoid τ] (minInterval fastInterval : τ) (cs : List (Call τ))
    (hmono : (cs.filterMap Call.now?).Pairwise (· ≤ ·)) :
    Spaced minInterval (times Answer.isFull
        (calls { minInterval := minInterval, fastInterval := fastInterval } cs)) ∧
      Spaced fastInterval (times Answer.isRepair
        (calls { minInterval := minInterval, fastInterval := fastInterval } cs)) ∧
      ServedOnce (calls { minInterval := minInterval, fastInterval := fastInterval } cs) :=
  let p : ResyncPolicy τ := { minInterval := minInterval, fastInterval := fastInterval }
  ⟨(calls_gated gates_full p rfl cs hmono).2.2, (calls_gated gates_repair p rfl cs hmono).2.2,
    (calls_serves p cs).2⟩

/-- A replica that flaps: its second file is refused, a repair turns into the file. -/
def flapping : List (Call Int) :=
  [.decide { wantResync := true, bootstraps := some 1 } 0 [] none none,
    .decide { wantResync := true, bootstraps := some 2 } 900 [] none none,
    .decide { wantResync := true, bootstraps := some 2 } 1000 [capDelta] none (some .ready),
    .allowFull 1000, .allowFull 12000]

theorem rate_limited_flapping :
    times Answer.isFull (calls { minInterval := (10000 : Int), fastInterval := 1000 } flapping) =
        [0, 12000] ∧
      Spaced 10000 (times Answer.isFull
        (calls { minInterval := (10000 : Int), fastInterval := 1000 } flapping)) ∧
      Spaced 1000 (times Answer.isRepair
        (calls { minInterval := (10000 : Int), fastInterval := 1000 } flapping)) ∧
      ServedOnce (calls { minInterval := (10000 : Int), fastInterval := 1000 } flapping) :=
  ⟨by decide, rate_limited 10000 1000 flapping (by decide)⟩

end QCBridge.ResyncPolicy
