import Mathlib.Data.List.Basic

/-!
# The host's dial loop

`HostControl` and `host_loop` of `session.rs`. Threads of the agent store a target, count the
generation up and notify whoever waits. The loop reads the target, then the generation, and only
then waits: for a notification where there is no target, and next to the session where there is
one. A notification reaches only a waiter that is registered by then.

The generation is a number that does not run over.
-/

namespace QCBridge

/-- `DEFAULT_MTU`. -/
def defaultMtu : Nat := 1344

/-- `HostTarget`. -/
structure HostTarget where
  addr : String
  fingerprint : Option (List UInt8)
  mtu : Nat
deriving DecidableEq, Repr

/-- The branch of `select!` that waits next to a session. -/
inductive TargetWatch where
  /-- Before `notified()`. -/
  | starting
  /-- Registered. -/
  | waiting
  /-- Notified, at `generation.load`. -/
  | woken
deriving DecidableEq, Repr

/-- Where `host_loop` is. -/
inductive HostPhase where
  /-- At `target.lock()`. -/
  | reading
  /-- At `generation.load`, with the target that it read. -/
  | counting (target : Option HostTarget)
  /-- In the branch without a target, before `notified()`. -/
  | idling
  /-- Registered there. -/
  | idle
  /-- Notified there. -/
  | roused
  /-- In `select!`: `connect_one`, and the watch for another generation. -/
  | session (target : HostTarget) (generation : Nat) (watch : TargetWatch)
  /-- The session is over: at `sleep(backoff)`. -/
  | pausing
deriving DecidableEq, Repr

/-- `HostControl`, with `host_loop` and the threads that are in `set`. -/
structure HostLoop where
  target : Option HostTarget := none
  generation : Nat := 0
  phase : HostPhase := .reading
  /-- How many threads stored a target and are at `fetch_add`. -/
  storing : Nat := 0
  /-- How many counted and are at `notify_waiters`. -/
  notifying : Nat := 0

namespace HostLoop

/-- `notify_waiters`, at the loop. -/
def notified : HostPhase → HostPhase
  | .idle => .roused
  | .session target generation .waiting => .session target generation .woken
  -- no permit is stored for a waiter that is not registered
  | phase => phase

/-- The next turn of `host_loop`. -/
def turn (s : HostLoop) : HostPhase :=
  match s.phase with
  | .reading => .counting s.target
  | .counting none => .idling
  | .counting (some target) => .session target s.generation .starting
  | .idling => .idle
  | .idle => .idle
  | .roused => .reading
  | .session target generation .starting => .session target generation .waiting
  | .session target generation .waiting => .session target generation .waiting
  | .session target generation .woken =>
    -- `peer_down("target changed")` and round again, or wait once more
    if s.generation ≠ generation then .reading else .session target generation .starting
  | .pausing => .reading

/-- What may happen next. -/
inductive Act where
  /-- A thread in `set` stores its target. -/
  | store (target : Option HostTarget)
  /-- A thread in `set` counts. -/
  | count
  /-- A thread in `set` notifies, and its call returns. -/
  | notify
  | turn
  /-- `connect_one` returns. -/
  | sessionEnds

/-- One action. -/
def step (s : HostLoop) : Act → HostLoop
  | .store target => { s with target := target, storing := s.storing + 1 }
  -- `fetch_add`, after the target was stored
  | .count =>
    if s.storing = 0 then s
    else
      { s with
        generation := s.generation + 1
        storing := s.storing - 1
        notifying := s.notifying + 1 }
  -- `notify_waiters`, which wakes only who waits already
  | .notify =>
    if s.notifying = 0 then s
    else { s with notifying := s.notifying - 1, phase := notified s.phase }
  | .turn => { s with phase := s.turn }
  | .sessionEnds =>
    match s.phase with
    | .session .. => { s with phase := .pausing }
    | _ => s

/-- Actions one after the other, from an agent that starts. -/
def run (acts : List Act) : HostLoop := acts.foldl step {}

end HostLoop

end QCBridge
