import Mathlib.Data.List.Basic

/-!
# The host's session

`ring0/session.py` and `ring1/transport_agent.py`: the transport follows the link and the
pongs, its IO thread tells the session when the peer comes or goes, and the session's
watch arms a handshake when the peer is back.

Three threads meet here: the reader takes the agent's events, the IO thread looks at the
pongs and calls the session back, and the main thread runs the watch and the handshake.
An action is what one of them does without a pause. The clock counts milliseconds.
-/

namespace QCBridge

/-- The heartbeat of a `TransportConfig`. -/
structure Heartbeat where
  interval : Int := 1000
  misses : Int := 3

/-- A pong's `status`: the epoch of the replica that answered. -/
structure PeerStatus where
  epoch : Option Nat := none
deriving DecidableEq

/-! ## The transport -/

/-- `HostTransportAgent`, as far as the peer's state goes. -/
structure HostTransport where
  linkUp : Bool := false
  /-- `_last_pong`: zero when none came since the link went down. -/
  lastPong : Int := 0
  alive : Bool := false
  peerStatus : PeerStatus := {}
deriving DecidableEq

namespace HostTransport

/-- The `peer` event of `_handle_event`. -/
def handlePeer (t : HostTransport) (up : Bool) : HostTransport :=
  if up then { t with linkUp := true } else { t with linkUp := false, lastPong := 0 }

/-- The pong of `_handle_reply`. -/
def handlePong (t : HostTransport) (now : Int) (status : Option PeerStatus) : HostTransport :=
  { t with lastPong := now, peerStatus := status.getD t.peerStatus }

/-- Whether `_io_loop` takes the peer for alive. -/
def aliveAt (cfg : Heartbeat) (t : HostTransport) (now : Int) : Bool :=
  t.linkUp && 0 < t.lastPong && now - t.lastPong < cfg.interval * cfg.misses

end HostTransport

/-! ## The session -/

/-- The replica's answer to a hello. -/
inductive HelloReply where
  | ok (epoch : Option Nat)
  | denied
deriving DecidableEq

/-- What `_start_host` keeps. An epoch is a `uuid4`, drawn anew each time: here a
    number that was not used before. -/
structure Session where
  transport : HostTransport := {}
  /-- The call of the peer callback that the IO thread is about to make. -/
  edge : Option Bool := none
  lost : Bool := false
  reconnect : Bool := false
  armed : Bool := true
  /-- When the hello under way was sent. -/
  req : Option Int := none
  epoch : Nat := 0
  peerEpoch : Option Nat := none
  /-- Chunks of a bootstrap are queued. -/
  bootOutbox : Bool := false
  bootSentAt : Int := 0
  /-- The epoch of the last handshake that succeeded, and whether the link went down
      since: history. -/
  shook : Option Nat := none
  down : Bool := false
deriving DecidableEq

namespace Session

/-- `_HANDSHAKE_TIMEOUT`. -/
def handshakeTimeoutMs : Int := 8000

/-- `grace_s` of `boot_in_flight`. -/
def graceMs : Int := 30000

/-- `boot_in_flight`. -/
def bootInFlight (s : Session) (now : Int) : Bool :=
  s.bootOutbox || (0 < s.bootSentAt && now - s.bootSentAt < graceMs)

/-- `_arm_handshake`. -/
def armHandshake (s : Session) (newEpoch : Bool) : Session :=
  -- one handshake at a time
  if s.armed then s
  else { s with
    epoch := if newEpoch then s.epoch + 1 else s.epoch
    armed := true
    req := none }

/-- `_on_peer`. A loss with the link up and a bootstrap in flight is waited out. -/
def onPeer (s : Session) (now : Int) (alive : Bool) : Session :=
  if alive then
    -- only a peer that was lost comes back
    if s.lost then { s with reconnect := true } else s
  -- a replica that loads a bootstrap does not answer
  else if s.transport.linkUp && s.bootInFlight now then s
  else { s with lost := true }

/-- `replica_restarted`. -/
def replicaRestarted (status : PeerStatus) (known : Option Nat) : Bool :=
  status.epoch.isSome && known.isSome && status.epoch ≠ known

/-- `_watch`, the repairs and the mirrors apart. -/
def watch (s : Session) : Session :=
  if s.reconnect then { s with reconnect := false, lost := false }.armHandshake true
  -- the same link, and another replica behind it
  else if !s.armed && replicaRestarted s.transport.peerStatus s.peerEpoch then
    s.armHandshake true
  else s

/-- `_handshake`, given what `poll_reply` returns: its timer runs while a handshake is
    armed. -/
def handshake (s : Session) (now : Int) (reply : Option HelloReply) : Session :=
  if !s.armed then s
  else
    match s.req, reply with
    | none, _ => { s with req := some now }
    | some _, some (.ok epoch) =>
      { s with
        peerEpoch := epoch
        bootOutbox := true
        req := none
        armed := false
        shook := some s.epoch
        down := false }
    -- a denial can be fixed live
    | some _, some .denied => { s with req := none }
    | some sentAt, none => if handshakeTimeoutMs < now - sentAt then { s with req := none } else s

/-- What the IO thread does first in a round of `_io_loop`. It is not here while it is
    in the callback. -/
def sample (cfg : Heartbeat) (s : Session) (now : Int) : Session :=
  if s.edge.isSome then s
  else
    let alive := s.transport.aliveAt cfg now
    if alive = s.transport.alive then s
    else { s with transport := { s.transport with alive := alive }, edge := some alive }

/-- The callback at the end of a round of `_io_loop`. -/
def notify (s : Session) (now : Int) : Session :=
  match s.edge with
  | none => s
  | some alive => { s with edge := none }.onPeer now alive

/-- What can happen to a session. -/
inductive Event where
  /-- The QUIC session comes up or goes down. -/
  | peer (up : Bool)
  | pong (now : Int) (status : Option PeerStatus)
  | sample (now : Int)
  | notify (now : Int)
  | watch
  | handshake (now : Int) (reply : Option HelloReply)
  /-- A bootstrap is queued for another reason. -/
  | boot
  /-- The last chunk of a bootstrap leaves. -/
  | bootSent (now : Int)
deriving DecidableEq

/-- One event. -/
def step (cfg : Heartbeat) (s : Session) : Event → Session
  | .peer up => { s with transport := s.transport.handlePeer up, down := s.down || !up }
  | .pong now status => { s with transport := s.transport.handlePong now status }
  | .sample now => s.sample cfg now
  | .notify now => s.notify now
  | .watch => s.watch
  | .handshake now reply => s.handshake now reply
  | .boot => { s with bootOutbox := true }
  | .bootSent now => { s with bootOutbox := false, bootSentAt := now }

/-- A session that starts, with what the agent says of the link: a handshake is armed. -/
def start (peerUp : Bool) : Session := { transport := { linkUp := peerUp } }

/-- A session of events. -/
def run (cfg : Heartbeat) (s : Session) (events : List Event) : Session :=
  events.foldl (step cfg) s

end Session

end QCBridge
