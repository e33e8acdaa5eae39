import QCBridge.ForStd.Weigh

/-!
# A line of jobs

Jobs that are begun in order, run side by side and are delivered in order. One end begins a job for
what waits and hands it over a channel of limited room; the other end takes a job and waits until it
is done. In the meantime the jobs finish in whatever order.

What waits, runs or is done stays in its order; there are at most two jobs more than the room; and
as long as there is something left, one of the two ends or a job can go on.
-/

namespace QCBridge

/-- A job, what it works on, and whether it is done. -/
structure Job (α : Type) where
  input : α
  done : Bool := false
deriving DecidableEq, Repr

/-- What waits for a job, and the jobs that are not delivered. -/
structure JobLine (α : Type) where
  waiting : List α := []
  /-- Begun, and not yet in the channel. -/
  begun : Option (Job α) := none
  channel : List (Job α) := []
  /-- Taken from the channel, and not yet delivered. -/
  awaited : Option (Job α) := none
deriving DecidableEq, Repr

namespace JobLine

variable {α : Type}

/-- Where a job is. -/
inductive Place where
  | begun
  | channel (i : Nat)
  | awaited
deriving DecidableEq, Repr

/-- A job for what has waited longest. -/
def begin (l : JobLine α) : JobLine α :=
  match l.begun, l.waiting with
  | none, a :: waiting => { l with begun := some ⟨a, false⟩, waiting := waiting }
  | _, _ => l

/-- The job that was begun goes into the channel, if there is room. -/
def hand (room : Nat) (l : JobLine α) : JobLine α :=
  match l.begun with
  | some j =>
    if l.channel.length < room then { l with begun := none, channel := l.channel ++ [j] } else l
  | none => l

/-- The job, done. -/
def finished (j : Job α) : Job α := { j with done := true }

/-- A job is done. -/
def finish (p : Place) (l : JobLine α) : JobLine α :=
  match p with
  | .begun => { l with begun := l.begun.map finished }
  | .channel i => { l with channel := l.channel.modify i finished }
  | .awaited => { l with awaited := l.awaited.map finished }

/-- The oldest job of the channel is waited for. -/
def await (l : JobLine α) : JobLine α :=
  match l.awaited, l.channel with
  | none, j :: channel => { l with awaited := some j, channel := channel }
  | _, _ => l

/-- What can be delivered. -/
def ready (l : JobLine α) : Option α := (l.awaited.filter Job.done).map Job.input

/-- The line after it is. -/
def deliver (l : JobLine α) : JobLine α := { l with awaited := none }

/-- What the line does by itself. -/
inductive Act where
  | begin
  | hand
  | finish (p : Place)
  | await
deriving DecidableEq, Repr

def step (room : Nat) (l : JobLine α) : Act → JobLine α
  | .begin => l.begin
  | .hand => l.hand room
  | .finish p => l.finish p
  | .await => l.await

/-! ## The order -/

/-- The jobs, oldest first. -/
def jobs (l : JobLine α) : List (Job α) := l.awaited.toList ++ (l.channel ++ l.begun.toList)

/-- What is not delivered yet, oldest first. -/
def rest (l : JobLine α) : List α := l.jobs.map Job.input ++ l.waiting

private theorem inputs_modify (l : List (Job α)) (i : Nat) :
    (l.modify i finished).map Job.input = l.map Job.input := by
  induction l generalizing i with
  | nil => simp
  | cons j l ih =>
    cases i with
    | zero => rfl
    | succ i => simpa using ih i

/-- What is not delivered stays in its order. -/
theorem rest_step (room : Nat) (l : JobLine α) (a : Act) : (l.step room a).rest = l.rest := by
  cases a with
  | begin =>
    -- the first of what waits becomes the begun job
    simp only [step, begin]
    split
    · rename_i hbegun hwaiting
      simp [rest, jobs, hbegun, hwaiting]
    · rfl
  | hand =>
    simp only [step, hand]
    split
    · -- the begun job goes behind the others of the channel
      rename_i j hbegun
      split
      · simp [rest, jobs, hbegun]
      · rfl
    · rfl
  -- a job keeps its place when it finishes
  | finish p =>
    cases p with
    | begun => cases hbegun : l.begun <;> simp [step, finish, rest, jobs, hbegun, finished]
    | channel i => simp [step, finish, rest, jobs, inputs_modify]
    | awaited => cases hawaited : l.awaited <;> simp [step, finish, rest, jobs, hawaited, finished]
  -- the first of the channel becomes the awaited job
  | await =>
    simp only [step, await]
    split
    · rename_i hawaited hchannel
      simp [rest, jobs, hawaited, hchannel]
    · rfl

/-- What is delivered is what is next. -/
theorem rest_deliver {l : JobLine α} {a : α} (h : l.ready = some a) :
    l.rest = a :: l.deliver.rest := by
  obtain ⟨j, hj, rfl⟩ := Option.map_eq_some_iff.mp h
  obtain ⟨hawaited, -⟩ := Option.filter_eq_some_iff.mp hj
  simp [rest, jobs, deliver, hawaited]

/-- More waits behind the rest. -/
theorem rest_append (l : JobLine α) (more : List α) :
    { l with waiting := l.waiting ++ more }.rest = l.rest ++ more := by
  simp [rest, jobs]

/-! ## The room -/

/-- The channel has no more jobs than it has room for. -/
def Fits (room : Nat) (l : JobLine α) : Prop := l.channel.length ≤ room

theorem Fits.step {room : Nat} {l : JobLine α} (h : l.Fits room) (a : Act) :
    (l.step room a).Fits room := by
  cases a with
  -- what begins is not in the channel yet
  | begin =>
    simp only [JobLine.step, begin]
    split <;> exact h
  -- a job is handed over only where there is room
  | hand =>
    simp only [JobLine.step, hand]
    split
    · split
      · rename_i hroom
        simp only [Fits, List.length_append, List.length_singleton]
        omega
      · exact h
    · exact h
  -- a channel loses none when a job in it finishes
  | finish p =>
    cases p with
    | channel i => simpa [JobLine.step, finish, Fits] using h
    | _ => exact h
  -- the awaited job leaves the channel
  | await =>
    simp only [JobLine.step, await]
    split
    · rename_i hchannel
      simp only [Fits, hchannel, List.length_cons] at h ⊢
      omega
    · exact h

/-- One job more at each end of the channel. -/
theorem Fits.length_jobs {room : Nat} {l : JobLine α} (h : l.Fits room) :
    l.jobs.length ≤ room + 2 := by
  have hbegun : l.begun.toList.length ≤ 1 := by cases l.begun <;> simp
  have hawaited : l.awaited.toList.length ≤ 1 := by cases l.awaited <;> simp
  simp only [Fits] at h
  simp only [jobs, List.length_append]
  omega

/-! ## Going on -/

/-- A job that runs still has to be done. -/
def runs (j : Job α) : Nat := if j.done then 0 else 1

/-- How much is left to do, if what is delivered costs `n` more. -/
def load (n : Nat) (l : JobLine α) : Nat :=
  (n + 6) * l.waiting.length + (l.begun.toList.map fun j => n + 3 + runs j).sum +
    (l.channel.map fun j => n + 2 + runs j).sum + (l.awaited.toList.map fun j => n + 1 + runs j).sum

/-- A job that is done comes nearer to its end, or was done already. -/
private theorem finished_or (j : Job α) : finished j = j ∨ runs (finished j) < runs j := by
  cases hdone : j.done with
  | true => exact .inl (by simp [finished, ← hdone])
  | false => exact .inr (by simp [finished, runs, hdone])

private theorem sum_modify_or (n : Nat) (l : List (Job α)) (i : Nat) :
    l.modify i finished = l ∨
      ((l.modify i finished).map fun j => n + runs j).sum < (l.map fun j => n + runs j).sum :=
  modify_or_weigh (fun j => (finished_or j).imp_right fun hlt => Nat.add_lt_add_left hlt n) l i

/-- Whatever the line does by itself is nothing, or leaves less to do; and a job that is begun
    leaves less by two. -/
theorem step_or (room n : Nat) (l : JobLine α) (a : Act) :
    l.step room a = l ∨ (l.step room a).load n + (if a = .begin then 1 else 0) < l.load n := by
  cases a with
  -- a waiting job weighs more than a begun one
  | begin =>
    simp only [step, begin]
    split
    · rename_i a waiting hbegun hwaiting
      refine .inr ?_
      simp only [load, hbegun, hwaiting, Option.toList_some, Option.toList_none, List.map_cons,
        List.map_nil, List.sum_cons, List.sum_nil, List.length_cons, runs, Bool.false_eq_true,
        if_false, if_true, Nat.mul_succ]
      omega
    · exact .inl rfl
  -- a begun job weighs more than one of the channel
  | hand =>
    simp only [step, hand]
    split
    · rename_i j hbegun
      split
      · refine .inr ?_
        simp only [load, hbegun, Option.toList_some, Option.toList_none, List.map_cons,
          List.map_nil, List.sum_cons, List.sum_nil, List.map_append, List.sum_append,
          reduceCtorEq, if_false]
        omega
      · exact .inl rfl
    · exact .inl rfl
  -- a job weighs less when it is done, and one that is done is left alone
  | finish p =>
    obtain ⟨waiting, begun, channel, awaited⟩ := l
    simp only [reduceCtorEq, if_false]
    cases p with
    | begun =>
      cases begun with
      | none => exact .inl rfl
      | some j =>
        rcases finished_or j with heq | hlt
        · exact .inl (by simp [step, finish, heq])
        · refine .inr ?_
          simp only [step, finish, load, Option.map_some, Option.toList_some, List.map_cons,
            List.map_nil, List.sum_cons, List.sum_nil]
          omega
    | channel i =>
      rcases sum_modify_or (n + 2) channel i with heq | hlt
      · exact .inl (by simp [step, finish, heq])
      · refine .inr ?_
        simp only [step, finish, load]
        omega
    | awaited =>
      cases awaited with
      | none => exact .inl rfl
      | some j =>
        rcases finished_or j with heq | hlt
        · exact .inl (by simp [step, finish, heq])
        · refine .inr ?_
          simp only [step, finish, load, Option.map_some, Option.toList_some, List.map_cons,
            List.map_nil, List.sum_cons, List.sum_nil]
          omega
  -- a job of the channel weighs more than the awaited one
  | await =>
    simp only [step, await]
    split
    · rename_i hawaited hchannel
      refine .inr ?_
      simp only [load, hawaited, hchannel, Option.toList_some, Option.toList_none, List.map_cons,
        List.map_nil, List.sum_cons, List.sum_nil, reduceCtorEq, if_false]
      omega
    · exact .inl rfl

/-- What is delivered leaves less to do. -/
theorem load_deliver (n : Nat) {l : JobLine α} {a : α} (h : l.ready = some a) :
    l.deliver.load n + n < l.load n := by
  obtain ⟨j, hj, rfl⟩ := Option.map_eq_some_iff.mp h
  obtain ⟨hawaited, -⟩ := Option.filter_eq_some_iff.mp hj
  simp only [load, deliver, hawaited, Option.toList_some, Option.toList_none, List.map_cons,
    List.map_nil, List.sum_cons, List.sum_nil]
  omega

theorem load_append (n : Nat) (l : JobLine α) (a : α) :
    { l with waiting := l.waiting ++ [a] }.load n = l.load n + (n + 6) := by
  simp only [load, List.length_append, List.length_singleton, Nat.mul_succ]
  omega

/-- Where nothing is left there is nothing to do. -/
theorem load_eq_zero (n : Nat) {l : JobLine α} (h : l.rest = []) : l.load n = 0 := by
  obtain ⟨hjobs, hwaiting⟩ := List.append_eq_nil_iff.mp h
  obtain ⟨hawaited, hothers⟩ := List.append_eq_nil_iff.mp (List.map_eq_nil_iff.mp hjobs)
  obtain ⟨hchannel, hbegun⟩ := List.append_eq_nil_iff.mp hothers
  simp [load, hwaiting, hawaited, hchannel, hbegun]

/-- As long as something is left, something can be delivered, or the line can go on. -/
theorem exists_act {room : Nat} (hroom : 0 < room) {l : JobLine α} (hrest : l.rest ≠ []) :
    l.ready.isSome ∨ ∃ a, l.step room a ≠ l := by
  cases hawaited : l.awaited with
  -- an awaited job is ready, or can finish
  | some j =>
    cases hdone : j.done with
    | true => exact .inl (by simp [ready, hawaited, hdone])
    | false =>
      refine .inr ⟨.finish .awaited, fun heq => ?_⟩
      have := congrArg JobLine.awaited heq
      simp only [step, finish, hawaited, Option.map_some, Option.some.injEq] at this
      have := congrArg Job.done this
      simp [finished, hdone] at this
  | none =>
    cases hchannel : l.channel with
    -- none is awaited: the first of the channel can be
    | cons j channel =>
      refine .inr ⟨.await, fun heq => ?_⟩
      have := congrArg JobLine.awaited heq
      simp [step, await, hawaited, hchannel] at this
    | nil =>
      cases hbegun : l.begun with
      -- an empty channel: the begun job can be handed over
      | some j =>
        refine .inr ⟨.hand, fun heq => ?_⟩
        have := congrArg JobLine.begun heq
        simp [step, hand, hbegun, hchannel, hroom] at this
      | none =>
        cases hwaiting : l.waiting with
        -- no begun job either: the first that waits can begin
        | cons a waiting =>
          refine .inr ⟨.begin, fun heq => ?_⟩
          have := congrArg JobLine.begun heq
          simp [step, begin, hbegun, hwaiting] at this
        | nil => simp [rest, jobs, hawaited, hchannel, hbegun, hwaiting] at hrest

end JobLine

end QCBridge
