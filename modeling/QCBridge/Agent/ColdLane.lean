import QCBridge.ForStd.Jobs
import QCBridge.Ring1.Wire

/-!
# The cold lane of a session

The cold tasks of `run_lanes`, on both sides. The host's agent compresses the bodies from its addon
on blocking threads and sends them in order; the replica's agent decompresses them the same way and
hands them to its addon in order. At each end a channel of `CODEC_PIPELINE` jobs is between the task
that begins them and the task that waits for them.

The lane is followed by whole messages. The frames on the local sockets, and what `run_lanes` does
with the bodies of an earlier session, are elsewhere.
-/

namespace QCBridge.Agent

open Wire

/-- `CODEC_PIPELINE`. -/
def codecPipeline : Nat := 4

/-- The cold lane, from `cold_rx` of the host's agent to the frames for the replica's addon. -/
structure ColdLane where
  /-- The bodies of `T_COLD` frames, in `cold_rx` and in the codec. -/
  host : JobLine Wire.Bytes
  /-- The host's task is at `ack_cold`, with so many bytes to credit. -/
  owed : Option Nat := none
  /-- What was credited. -/
  acked : Nat := 0
  /-- The messages on the wire and in the codec. -/
  replica : JobLine Wire.Bytes := {}
  /-- The bodies of the `T_COLD` frames for the replica's addon. -/
  frames : List Wire.Bytes := []
  /-- `run_lanes` returned, on either side. -/
  ended : Bool := false
deriving Repr

namespace ColdLane

variable (Z : Zstd) (s : ColdLane)

/-- `cold_wire_encode(&body.slice(1..))`. -/
def wireOf (body : Wire.Bytes) : Wire.Bytes := coldWireEncode Z (body.drop 1)

/-- What may happen next. -/
inductive Act where
  /-- A task or a job of the host. -/
  | host (a : JobLine.Act)
  /-- `ack_cold`. -/
  | ack
  /-- `send_msg` of what is compressed. -/
  | send
  /-- A task or a job of the replica. -/
  | replica (a : JobLine.Act)
  /-- `link.frame` of what is decompressed. -/
  | deliver
  /-- The session ends, for whatever reason. -/
  | lose
deriving DecidableEq, Repr

/-- The host's tasks, but for what they await elsewhere. -/
def hostStep : JobLine.Act → ColdLane
  | .begin =>
    match s.host.begun, s.host.waiting, s.owed with
    | none, body :: _, none => { s with host := s.host.begin, owed := some body.length }
    | _, _, _ => s
  -- the channel comes after the credit
  | .hand => if s.owed.isSome then s else { s with host := s.host.hand codecPipeline }
  | a => { s with host := s.host.step codecPipeline a }

/-- The replica's tasks, but for what they await elsewhere. -/
def replicaStep : JobLine.Act → ColdLane
  | .begin =>
    match s.replica.begun, s.replica.waiting with
    | none, wire :: _ =>
      -- `recv_msg` fails on a message that is too long
      if maxLaneFrame < wire.length then { s with ended := true }
      else { s with replica := s.replica.begin }
    | _, _ => s
  | a => { s with replica := s.replica.step codecPipeline a }

/-- One action. Nothing goes on when the session has ended. -/
def step (act : Act) : ColdLane :=
  if s.ended then s
  else
    match act with
    | .host a => s.hostStep a
    -- the ack of the frame that was read last
    | .ack =>
      match s.owed with
      | some len => { s with owed := none, acked := s.acked + len }
      | none => s
    -- the first compressed body goes onto the stream
    | .send =>
      match s.host.ready with
      | some body =>
        { s with
          host := s.host.deliver
          replica := { s.replica with waiting := s.replica.waiting ++ [wireOf Z body] } }
      | none => s
    | .replica a => s.replicaStep a
    -- what does not decode ends the session
    | .deliver =>
      match s.replica.ready with
      | some wire =>
        match coldWireDecode Z wire with
        | some raw =>
          { s with replica := s.replica.deliver, frames := s.frames ++ [Wire.laneBody 0 raw] }
        | none => { s with ended := true }
      | none => s
    | .lose => { s with ended := true }

/-- A session to which the host's addon sends `bodies`. -/
def start (bodies : List Wire.Bytes) : ColdLane := { host := { waiting := bodies } }

/-- Actions one after the other. -/
def run (bodies : List Wire.Bytes) (acts : List Act) : ColdLane :=
  acts.foldl (step Z) (start bodies)

end ColdLane

end QCBridge.Agent
