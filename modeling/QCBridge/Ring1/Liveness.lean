import QCBridge.Ring1.Merge
import Mathlib.Algebra.Order.Group.Defs

/-!
# Repairs, when

`ring1/liveness.py`: what the host does about a replica that wants a resync. The policy
answers each state of the replica once, and never faster than its two intervals.

The clock is any ordered group. `float("-inf")`, where nothing was sent, is `none`.
-/

namespace QCBridge

/-- The keys of a pong's status that the policy reads. An absent one is `none`. -/
structure ReplicaStatus where
  wantResync : Bool := false
  bootstraps : Option Nat := none
  resyncs : Option Nat := none
  gapLane : GapLane := .none
  fastGapAt : Option Nat := none
deriving DecidableEq

/-- `_state`: which repairs the replica has applied. -/
def ReplicaStatus.state (s : ReplicaStatus) : Option Nat × Nat := (s.bootstraps, s.resyncs.getD 0)

/-- `VERDICTS`. -/
inductive Verdict where
  | none
  | fast
  | delta
  | full
deriving DecidableEq

/-- What `delta_state` says of the replica's inventory. -/
inductive DeltaState where
  | ready
  | pending
  | mismatch
deriving DecidableEq

/-- `CAP_FAST_ACK`. -/
def capFastAck : String := "fast_ack"

/-- `CAP_DELTA`. -/
def capDelta : String := "delta_resync"

/-- `ResyncPolicy`. -/
structure ResyncPolicy (τ : Type) where
  minInterval : τ
  fastInterval : τ
  lastSent : Option τ := none
  lastFast : Option τ := none
  /-- `_served_for`: the state that was served last. -/
  servedFor : Option (Option Nat × Nat) := none
  sent : Nat := 0
  fastSent : Nat := 0
  deltaSent : Nat := 0
deriving DecidableEq

namespace ResyncPolicy

variable {τ : Type} [AddCommGroup τ] [LinearOrder τ]

/-- Whether less than an interval has passed since the last time. -/
def tooSoon (now : τ) (last : Option τ) (interval : τ) : Bool :=
  last.any fun last => now - last < interval

/-- `decide`. Absent capabilities are an empty list. -/
def decide (p : ResyncPolicy τ) (status : ReplicaStatus) (now : τ) (caps : List String)
    (fastCovers : Option (Option Nat → Bool)) (deltaState : Option DeltaState) :
    ResyncPolicy τ × Verdict :=
  if !status.wantResync then (p, .none)
  else if some status.state = p.servedFor then (p, .none)
  else if status.gapLane = .fast && caps.contains capFastAck &&
      fastCovers.any (· status.fastGapAt) then
    if tooSoon now p.lastFast p.fastInterval then (p, .none)
    else ({ p with
      lastFast := some now
      servedFor := some status.state
      fastSent := p.fastSent + 1 }, .fast)
  else if caps.contains capDelta &&
      (deltaState = some .ready || deltaState = some .pending) then
    -- the manifest is being fetched
    if deltaState = some .pending then (p, .none)
    else if tooSoon now p.lastFast p.fastInterval then (p, .none)
    else ({ p with
      lastFast := some now
      servedFor := some status.state
      deltaSent := p.deltaSent + 1 }, .delta)
  else if tooSoon now p.lastSent p.minInterval then (p, .none)
  else ({ p with
    lastSent := some now
    servedFor := some status.state
    sent := p.sent + 1 }, .full)

/-- `allow_full`: a delta that planned nothing wants the file instead. -/
def allowFull (p : ResyncPolicy τ) (now : τ) : ResyncPolicy τ × Bool :=
  if tooSoon now p.lastSent p.minInterval then ({ p with servedFor := none }, false)
  else ({ p with lastSent := some now, sent := p.sent + 1 }, true)

/-- `reset`, at a handshake. -/
def reset (p : ResyncPolicy τ) (servedFor : Option (Option Nat × Nat)) : ResyncPolicy τ :=
  { p with servedFor := servedFor }

/-- A call of the policy, with its arguments. -/
inductive Call (τ : Type) where
  | decide (status : ReplicaStatus) (now : τ) (caps : List String)
      (fastCovers : Option (Option Nat → Bool)) (deltaState : Option DeltaState)
  | allowFull (now : τ)
  | reset (servedFor : Option (Option Nat × Nat))

/-- What a call returned. -/
inductive Answer where
  | verdict (v : Verdict)
  | allowed (b : Bool)
  | done
deriving DecidableEq

/-- One call. -/
def call (p : ResyncPolicy τ) : Call τ → ResyncPolicy τ × Answer
  | .decide status now caps fastCovers deltaState =>
    let out := p.decide status now caps fastCovers deltaState
    (out.1, .verdict out.2)
  | .allowFull now =>
    let out := p.allowFull now
    (out.1, .allowed out.2)
  | .reset servedFor => (p.reset servedFor, .done)

/-- A history of calls: each with what it returned. -/
def calls (p : ResyncPolicy τ) : List (Call τ) → List (Call τ × Answer)
  | [] => []
  | c :: cs => (c, (p.call c).2) :: (p.call c).1.calls cs

end ResyncPolicy

end QCBridge
