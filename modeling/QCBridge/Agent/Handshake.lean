import QCBridge.ForStd.ByteStream
import QCBridge.Ring1.Wire

/-!
# The handshake of a session

`dial`, `connect_one` and `serve_one` of `session.rs`. The host opens the control lane and sends its
token; the replica compares it with its own and answers "ok" or closes the connection. Then the host
opens the other three lanes, each with a tag in front, and the replica takes them in whatever order
they arrive.

Each action is what one end does up to its next access to a stream, or the network. Beside the host
there may be somebody else who writes on the host's streams and opens more. Left out are the QUIC
and TLS handshakes below it, a stream that its writer finishes, which ends the session like a lost
connection, and what the lanes carry.
-/

namespace QCBridge.Agent

open Wire (maxLaneFrame)

/-- `LANE_CONTROL`. -/
def laneControl : UInt8 := 1

/-- `LANE_HOT`. -/
def laneHot : UInt8 := 2

/-- `LANE_COLD`. -/
def laneCold : UInt8 := 3

/-- `LANE_FAST`. -/
def laneFast : UInt8 := 4

/-- The replica's answer to its own token, `b"ok"`. -/
def okReply : Wire.Bytes := [0x6f, 0x6b]

/-- The close reason for another token, `b"token rejected"`. -/
def tokenRejected : String := "token rejected"

/-- A token: a text of the configuration, whose length fits that of a frame. -/
abbrev Token := { bytes : Wire.Bytes // bytes.length < UInt32.size }

/-- `tokens_match`. -/
def tokensMatch (a b : Wire.Bytes) : Bool :=
  a.length = b.length && ((a.zip b).foldl (fun acc p => acc ||| (p.1 ^^^ p.2)) (0 : UInt8)) = 0

/-- The calls of `PeerObserver` that a session makes. -/
inductive PeerCall where
  | peerUp
  | peerDown
deriving DecidableEq, Repr

/-- Where the host is in `connect_one`. -/
inductive DialPhase where
  /-- At `open_bi`, and the tag of the control lane. -/
  | opening
  /-- At the token, the first frame of the control lane. -/
  | tagged
  /-- At `recv_msg`: the reply. -/
  | waiting
  /-- Accepted; so many of the other three lanes are open. -/
  | accepted (opened : Nat)
  /-- In `run_lanes`. -/
  | up
  /-- `connect_one` returned. -/
  | down
deriving DecidableEq, Repr

/-- Which stream is which lane, as far as the replica has taken them. Streams are numbered in the
    order they were opened. -/
structure TakenLanes where
  hotRecv : Option Nat := none
  coldRecv : Option Nat := none
  fastRecv : Option Nat := none
deriving DecidableEq, Repr

namespace TakenLanes

/-- The lanes with one more stream, by its tag. -/
def set (lanes : TakenLanes) (tag : UInt8) (stream : Nat) : Option TakenLanes :=
  if tag = laneHot then some { lanes with hotRecv := some stream }
  else if tag = laneCold then some { lanes with coldRecv := some stream }
  else if tag = laneFast then some { lanes with fastRecv := some stream }
  else none

/-- All three lanes are there, as `run_lanes` wants them. -/
def complete (lanes : TakenLanes) : Bool :=
  lanes.hotRecv.isSome && lanes.coldRecv.isSome && lanes.fastRecv.isSome

end TakenLanes

/-- Where the replica is in `serve_one`. -/
inductive ServePhase where
  /-- At `accept_bi`. -/
  | accepting
  /-- At `read_tag` of the control lane. -/
  | tagging
  /-- At `recv_msg`: the token. -/
  | reading
  /-- At `accept_uni`, with so many lanes still to take. -/
  | taking (lanes : TakenLanes) (left : Nat)
  /-- At `read_tag` of a stream that it took. -/
  | naming (lanes : TakenLanes) (left : Nat) (stream : Nat)
  /-- In `run_lanes`. -/
  | up (lanes : TakenLanes)
  /-- `serve_one` returned. -/
  | down
deriving DecidableEq, Repr

/-- A connection and its two ends. -/
structure Handshake where
  /-- The token in the configuration of the host, and of the replica. -/
  hostToken : Token
  replicaToken : Token
  control : ByteStream := {}
  reply : ByteStream := {}
  /-- The streams that carry one lane each, in the order they were opened. -/
  unis : List ByteStream := []
  /-- Those that the replica has taken. -/
  claimed : List Nat := []
  /-- The connection is closed, and why. -/
  closed : Option String := none
  host : DialPhase := .opening
  replica : ServePhase := .accepting
  hostCalls : List PeerCall := []
  replicaCalls : List PeerCall := []
  /-- The token that the host sent: history. -/
  sent : Option Token := none
  /-- The replica's token when it compared: history. -/
  compared : Option Token := none

namespace Handshake

variable (s : Handshake)

/-- The host's `connect_one` ends: with an error, or with its lanes. -/
def hostEnds : Handshake :=
  { s with
    host := .down
    hostCalls := s.hostCalls ++ [.peerDown]
    closed := some (s.closed.getD "session over") }

/-- The host goes on with a write, which fails on a closed connection. -/
def hostWrites (s' : Handshake) : Handshake := if s.closed.isSome then s.hostEnds else s'

/-- The tag of the lane that the host opens next. -/
def laneTag : Nat → UInt8
  | 0 => laneHot
  | 1 => laneCold
  | _ => laneFast

/-- The host's next access. -/
def hostStep : Handshake :=
  match s.host with
  | .opening =>
    s.hostWrites { s with control := s.control.write [laneControl], host := .tagged }
  | .tagged =>
    -- `cfg.with` reads the token that is in force now
    s.hostWrites
      { s with
        control := s.control.write (Wire.sendMsg s.hostToken.val)
        sent := some s.hostToken
        host := .waiting }
  | .waiting =>
    match s.reply.readFramed maxLaneFrame with
    | .frame payload reply =>
      if payload = okReply then { s with reply := reply, host := .accepted 0 }
      else { s with reply := reply }.hostEnds
    | .tooLong => s.hostEnds
    | .pending => if s.closed.isSome then s.hostEnds else s
  | .accepted opened =>
    if opened < 3 then
      s.hostWrites
        { s with
          unis := s.unis ++ [ByteStream.write [laneTag opened] {}]
          host := .accepted (opened + 1) }
    else { s with host := .up, hostCalls := s.hostCalls ++ [.peerUp] }
  | .up => if s.closed.isSome then s.hostEnds else s
  | .down => s

/-- The replica's `serve_one` ends: only after `peer_up` does it say so. -/
def replicaEnds : Handshake :=
  { s with
    replica := .down
    replicaCalls := s.replicaCalls ++ (match s.replica with | .up _ => [.peerDown] | _ => [])
    closed := some (s.closed.getD "session over") }

/-- A stream that the replica may take: it has heard of it and has not taken it. -/
def mayTake (pick : Nat) : Bool := (s.unis[pick]?).any (·.known) && pick ∉ s.claimed

/-- The replica waits for bytes that may not come any more. -/
def replicaWaits : Handshake := if s.closed.isSome then s.replicaEnds else s

/-- The replica's next access. `pick` is the stream that `accept_uni` hands out. -/
def replicaStep (pick : Nat) : Handshake :=
  match s.replica with
  | .accepting => if s.control.known then { s with replica := .tagging } else s.replicaWaits
  | .tagging =>
    match s.control.readByte with
    | some (tag, control) =>
      if tag = laneControl then { s with control := control, replica := .reading }
      else { s with control := control }.replicaEnds
    | none => s.replicaWaits
  | .reading =>
    match s.control.readFramed maxLaneFrame with
    | .frame token control =>
      let s := { s with control := control, compared := some s.replicaToken }
      if tokensMatch token s.replicaToken.val then
        if s.closed.isSome then s.replicaEnds
        else
          { s with
            reply := s.reply.write (Wire.sendMsg okReply)
            replica := .taking {} 3 }
      else
        -- the host finds this reason where it waits for its answer
        { s with closed := some (s.closed.getD tokenRejected) }.replicaEnds
    | .tooLong => s.replicaEnds
    | .pending => s.replicaWaits
  | .taking lanes left =>
    if left = 0 then
      let s := { s with replica := .up lanes, replicaCalls := s.replicaCalls ++ [.peerUp] }
      if lanes.complete then s else s.replicaEnds
    else if s.mayTake pick then
      { s with claimed := s.claimed ++ [pick], replica := .naming lanes (left - 1) pick }
    else s.replicaWaits
  | .naming lanes left stream =>
    match (s.unis[stream]?).bind (·.readByte) with
    | some (tag, uni) =>
      let s := { s with unis := s.unis.set stream uni }
      match lanes.set tag stream with
      | some lanes => { s with replica := .taking lanes left }
      | none => s.replicaEnds
    | none => s.replicaWaits
  | .up _ => s.replicaWaits
  | .down => s

/-- What may happen next. -/
inductive Act where
  | host
  | replica (pick : Nat)
  /-- Bytes of a stream arrive, or the word that it is open. -/
  | arriveControl (k : Nat)
  | arriveReply (k : Nat)
  | arriveUni (stream k : Nat)
  /-- The connection is lost. -/
  | lose
  /-- A timeout, another target, a lane that ends: one end gives the session up. -/
  | hostGivesUp
  | replicaGivesUp
  /-- Another token is set. -/
  | setHostToken (token : Token)
  | setReplicaToken (token : Token)
  /-- Somebody else than the host writes on its streams, or opens one more. -/
  | writeControl (bytes : Wire.Bytes)
  | writeUni (stream : Nat) (bytes : Wire.Bytes)
  | openUni
deriving DecidableEq, Repr

/-- What is done to a stream by number. -/
def onUni (stream : Nat) (f : ByteStream → ByteStream) : Handshake :=
  { s with unis := s.unis.modify stream f }

/-- One action. On a closed connection nothing arrives. -/
def step : Act → Handshake
  | .host => s.hostStep
  | .replica pick => s.replicaStep pick
  | .arriveControl k =>
    -- the first byte tells the other side of the stream
    if s.closed.isSome ∨ s.control.written = [] then s
    else { s with control := s.control.arrive k }
  | .arriveReply k => if s.closed.isSome then s else { s with reply := s.reply.arrive k }
  | .arriveUni stream k => if s.closed.isSome then s else s.onUni stream (·.arrive k)
  | .lose => { s with closed := some (s.closed.getD "connection lost") }
  | .hostGivesUp => if s.host = .down then s else s.hostEnds
  | .replicaGivesUp => if s.replica = .down then s else s.replicaEnds
  | .setHostToken token => { s with hostToken := token }
  | .setReplicaToken token => { s with replicaToken := token }
  | .writeControl bytes => { s with control := s.control.write bytes }
  | .writeUni stream bytes => s.onUni stream (·.write bytes)
  | .openUni => { s with unis := s.unis ++ [{}] }

/-- Actions one after the other, from a connection that has just come up. -/
def run (hostToken replicaToken : Token) (acts : List Act) : Handshake :=
  acts.foldl step { hostToken := hostToken, replicaToken := replicaToken }

end Handshake

end QCBridge.Agent
