import QCBridge.Ring1.Protocol
import QCBridge.ForStd.Weigh
import Mathlib.Logic.Function.Basic

/-!
# Credits

`ring1/transport_agent.py`, and `link.rs` and `session.rs` of the agent: the addon charges
itself the bytes of each cold or fast frame, and the agent credits them when the frame is
accepted or dropped.

A frame crosses the local socket, waits in its lane's queue, and is taken out by its lane's
task or, when a session starts over, by `run_lanes`. The credit waits in the link's
priority queue until an addon is attached. Queues outlive sessions and addons; a task may
be aborted wherever it waits, and what it had in hand is gone.

One addon is followed at a time, the one that attached last.
-/

namespace QCBridge

/-! ## Frames and credits -/

/-- The body of a `T_COLD` or `T_FAST` frame. -/
structure LaneFrame where
  lane : Lane
  len : Nat
  /-- The addon that sent it, and its place among that addon's: history. -/
  sender : Nat
  n : Nat
deriving DecidableEq

/-- A `T_COLD_ACK` or `T_FAST_ACK` frame. -/
structure CreditAck where
  lane : Lane
  bytes : Nat
  /-- The frames it credits: history. -/
  frames : List LaneFrame
deriving DecidableEq

/-- The frames that credits are for. -/
def credits (acks : List CreditAck) : List LaneFrame := acks.flatMap CreditAck.frames

/-! ## The addon -/

/-- `_COLD_WINDOW`. -/
def coldWindow : Nat := 64

/-- `_COLD_WINDOW_BYTES`. -/
def coldWindowBytes : Nat := 32 <<< 20

/-- `_FAST_WINDOW_BYTES`. -/
def fastWindowBytes : Nat := 4 <<< 20

/-- What `HostTransportAgent` keeps of its windows. -/
structure Addon where
  id : Nat
  linkUp : Bool := false
  creditsBytes : Bool := false
  hasFast : Bool := false
  /-- `_cold_outstanding` and `_fast_outstanding`. -/
  outstanding : Lane → Nat := fun _ => 0
  /-- How many frames it sent: history. -/
  sends : Nat := 0

namespace Addon

/-- Whether a frame that costs `cost` has to wait: one larger than the window still goes
    when nothing is in flight. -/
def mustWait (a : Addon) (l : Lane) (cost window : Nat) : Bool :=
  !a.linkUp || (0 < a.outstanding l && window < a.outstanding l + cost)

/-- The addon after it charged itself. -/
def charge (a : Addon) (l : Lane) (cost : Nat) : Addon :=
  { a with
    outstanding := Function.update a.outstanding l (a.outstanding l + cost)
    sends := a.sends + 1 }

/-- `send_cold` of a body of `size` bytes; `none` is `False`. -/
def sendCold (a : Addon) (size : Nat) : Option Addon :=
  -- an agent that does not credit bytes credits frames
  let cost := if a.creditsBytes then size else 1
  let window := if a.creditsBytes then coldWindowBytes else coldWindow
  if a.mustWait .cold cost window then none else some (a.charge .cold cost)

/-- `send_fast`, and the lane the body goes on. -/
def sendFast (a : Addon) (size : Nat) : Option (Addon × Lane) :=
  -- an older agent has no fast lane: the cold lane takes the message
  if !a.hasFast then (a.sendCold size).map fun a => (a, .cold)
  else if a.mustWait .fast size fastWindowBytes then none
  else some (a.charge .fast size, .fast)

/-- `send_cold` or `send_fast`. -/
def send (a : Addon) (l : Lane) (size : Nat) : Option (Addon × Lane) :=
  match l with
  | .cold => (a.sendCold size).map fun a => (a, .cold)
  | .fast => a.sendFast size

/-- `_on_frame` of a credit. -/
def onAck (a : Addon) (l : Lane) (count : Nat) : Addon :=
  { a with outstanding := Function.update a.outstanding l (a.outstanding l - count) }

/-- The `attached` event. The agent says `"credits": "bytes"` and `"lanes": ["fast"]`. -/
def onAttached (a : Addon) (peerUp : Bool) : Addon :=
  { a with linkUp := peerUp, creditsBytes := true, hasFast := true }

end Addon

/-! ## The agent -/

/-- The room of `cold_tx` and `fast_tx`. -/
def channelRoom : Lane → Nat
  | .cold => 256
  | .fast => 1024

/-- `MAX_FRAME`, which counts the type byte. -/
def maxFrame : Nat := 256 <<< 20

/-- Where the task of a lane is. -/
inductive LaneTask where
  /-- It ended, or there is no session. -/
  | ended
  /-- At `recv`. -/
  | idle
  /-- At `send_msg`, on the fast lane. -/
  | sending (f : LaneFrame)
  /-- At `ack_cold` or `ack_fast`. On the fast lane, `ok` is what `send_msg` returned. -/
  | owing (f : LaneFrame) (ok : Bool)
  /-- At `ptx.send`, on the cold lane. -/
  | handing (f : LaneFrame)
deriving DecidableEq

/-- What a task took and has not credited. -/
def LaneTask.owed : LaneTask → List LaneFrame
  | .sending f => [f]
  | .owing f _ => [f]
  | _ => []

/-- Where `run_lanes` is. -/
inductive Lanes where
  | off
  /-- At the `ack_cold` or `ack_fast` of what a lane's queue held when the session
      started. -/
  | stale (l : Lane) (frames : List LaneFrame)
  | up
deriving DecidableEq

/-- What `run_lanes` drained and has not credited. -/
def Lanes.owed : Lanes → List LaneFrame
  | .stale _ frames => frames
  | _ => []

/-- The agent, as far as the lanes of a host go. -/
structure LaneAgent where
  connected : Bool := false
  lanes : Lanes := .off
  /-- `cold_rx` and `fast_rx`. -/
  queue : Lane → List LaneFrame := fun _ => []
  task : Lane → LaneTask := fun _ => .ended
  /-- The credits of `prio_tx`. -/
  prio : List CreditAck := []
  /-- The addon whose socket the writer has. -/
  sink : Option Nat := none
  /-- The addons whose reader thread runs. -/
  readers : List Nat := []

namespace LaneAgent

/-- `link.frame` of a credit. -/
def credit (g : LaneAgent) (l : Lane) (bytes : Nat) (frames : List LaneFrame) : LaneAgent :=
  { g with prio := g.prio ++ [⟨l, bytes, frames⟩] }

/-- The `T_COLD` and `T_FAST` branches of `reader_loop`; `connected` is what the load of the
    flag returned. -/
def read (g : LaneAgent) (f : LaneFrame) (connected : Bool) : LaneAgent :=
  if connected && (g.queue f.lane).length < channelRoom f.lane then
    { g with queue := Function.update g.queue f.lane (g.queue f.lane ++ [f]) }
  -- no session, or no room: dropped, and credited at once
  else g.credit f.lane (f.len % UInt32.size) [f]

/-- The end of `reader_loop`, and what its thread does then. -/
def endReader (g : LaneAgent) (id : Nat) : LaneAgent :=
  { g with readers := g.readers.erase id, sink := none }

/-- The credit of what a lane's queue held, if it held anything. -/
def creditStale (g : LaneAgent) (l : Lane) (frames : List LaneFrame) : LaneAgent :=
  let stale := weigh LaneFrame.len frames % UInt32.size
  if 0 < stale then g.credit l stale frames else g

/-- `try_recv` on a lane's queue until it is empty. -/
def drain (g : LaneAgent) (l : Lane) : LaneAgent :=
  { g with lanes := .stale l (g.queue l), queue := Function.update g.queue l [] }

/-- `run_lanes`, up to where it waits next. -/
def runLanes (g : LaneAgent) : LaneAgent :=
  match g.lanes with
  | .off => g.drain .cold
  | .stale .cold frames => (g.creditStale .cold frames).drain .fast
  | .stale .fast frames =>
    { g.creditStale .fast frames with
      lanes := .up
      connected := true
      task := fun _ => .idle }
  | .up => g

/-- The task of a lane, up to where it waits next. `ok` is what `send_msg` or `ptx.send`
    returned. -/
def runTask (g : LaneAgent) (l : Lane) (ok : Bool) : LaneAgent :=
  match g.task l with
  | .ended => g
  | .idle =>
    match g.queue l with
    | [] => g
    | f :: queue =>
      { g with
        queue := Function.update g.queue l queue
        -- a cold frame owes its credit before it is handed on, a fast one after it was sent
        task := Function.update g.task l
          (match l with
          | .cold => .owing f true
          | .fast => .sending f) }
  | .sending f => { g with task := Function.update g.task l (.owing f ok) }
  -- `credit` names the lane and the bytes
  | .owing f sent =>
    { g.credit l (f.len % UInt32.size) [f] with
      task := Function.update g.task l
        (match l with
        | .cold => .handing f
        | .fast => if sent then .idle else .ended) }
  | .handing _ => { g with task := Function.update g.task l (if ok then .idle else .ended) }

/-- The end of a session: `run_lanes` returns, or, without `store`, is dropped. -/
def abort (g : LaneAgent) (store : Bool) : LaneAgent :=
  { g with
    lanes := .off
    connected := if store then false else g.connected
    task := fun _ => .ended }

end LaneAgent

/-! ## The two together -/

/-- An addon, the agent, and the local socket between them. -/
structure CreditSystem where
  addon : Option Addon := none
  /-- From the addons to the agent. -/
  up : List LaneFrame := []
  agent : LaneAgent := {}
  /-- From the agent to the addon. -/
  down : List CreditAck := []
  nextId : Nat := 0
  /-- What the addon sent, and the credits it took: history. -/
  sent : List LaneFrame := []
  credited : List CreditAck := []

namespace CreditSystem

/-- What may happen next. -/
inductive Act where
  /-- `serve_local` lets an addon in. -/
  | attach
  /-- The addon takes the agent's reply. -/
  | attached (peerUp : Bool)
  /-- The `peer` event. -/
  | peer (up : Bool)
  /-- `send_cold` or `send_fast` with a header of `head` bytes. -/
  | send (l : Lane) (head payload : Nat)
  /-- The addon takes a credit. -/
  | onAck
  /-- The addon goes away. The socket still brings the first `kept` of its frames. -/
  | detach (kept : Nat)
  /-- The reader of an addon takes its next frame. -/
  | read (id : Nat) (connected : Bool)
  /-- The reader of an addon finds its socket closed. -/
  | endReader (id : Nat)
  /-- The writer takes a credit. -/
  | write (fails : Bool)
  /-- A session starts, or gets on with starting. -/
  | runLanes
  | runTask (l : Lane) (ok : Bool)
  | abort (store : Bool)
deriving DecidableEq

/-- An addon that attaches. -/
def attach (s : CreditSystem) : CreditSystem :=
  if s.agent.sink.isSome then s
  else { s with
    addon := some { id := s.nextId }
    agent := { s.agent with sink := some s.nextId, readers := s.nextId :: s.agent.readers }
    down := []
    nextId := s.nextId + 1
    sent := []
    credited := [] }

/-- The size of `cold_parts`: the peer byte and the length of the header come first. -/
def frameSize (head payload : Nat) : Nat := 1 + 4 + head + payload

/-- `send_cold` or `send_fast`. -/
def send (s : CreditSystem) (l : Lane) (size : Nat) : CreditSystem :=
  match s.addon with
  | none => s
  | some a =>
    match a.send l size with
    | none => s
    | some (a', l') =>
      let f : LaneFrame := ⟨l', size, a.id, a.sends⟩
      { s with addon := some a', up := s.up ++ [f], sent := s.sent ++ [f] }

/-- The addon's `_on_frame`. -/
def onAck (s : CreditSystem) : CreditSystem :=
  match s.addon, s.down with
  | some a, ack :: down =>
    { s with
      addon := some (a.onAck ack.lane ack.bytes)
      down := down
      credited := s.credited ++ [ack] }
  | _, _ => s

/-- A turn of `reader_loop`. A frame that is too long ends it. -/
def read (s : CreditSystem) (id : Nat) (connected : Bool) : CreditSystem :=
  match s.up.find? (·.sender = id) with
  | none => s
  | some f =>
    if maxFrame ≤ f.len then
      { s with up := s.up.filter (·.sender ≠ id), agent := s.agent.endReader id }
    else { s with up := s.up.erase f, agent := s.agent.read f connected }

/-- `reader_loop` ends when the addon is gone and its frames are read. -/
def endReader (s : CreditSystem) (id : Nat) : CreditSystem :=
  if s.addon.any (·.id = id) || s.up.any (·.sender = id) || !s.agent.readers.contains id then s
  else { s with agent := s.agent.endReader id }

/-- `write_when_attached` of the first credit. A write to an addon that is gone may fail
    or not; the credit is lost either way. -/
def write (s : CreditSystem) (fails : Bool) : CreditSystem :=
  match s.agent.prio, s.agent.sink with
  | ack :: prio, some id =>
    if s.addon.any (·.id = id) then
      { s with agent := { s.agent with prio := prio }, down := s.down ++ [ack] }
    else
      { s with agent := { s.agent with
          prio := prio, sink := if fails then none else s.agent.sink } }
  | _, _ => s

/-- One action. -/
def step (s : CreditSystem) : Act → CreditSystem
  | .attach => s.attach
  | .attached peerUp => { s with addon := s.addon.map (·.onAttached peerUp) }
  | .peer up => { s with addon := s.addon.map fun a => { a with linkUp := up } }
  | .send l head payload => s.send l (frameSize head payload)
  | .onAck => s.onAck
  | .detach kept => { s with addon := none, up := s.up.take kept, down := [] }
  | .read id connected => s.read id connected
  | .endReader id => s.endReader id
  | .write fails => s.write fails
  | .runLanes => { s with agent := s.agent.runLanes }
  | .runTask l ok => { s with agent := s.agent.runTask l ok }
  | .abort store => { s with agent := s.agent.abort store }

/-- Actions one after the other, from an agent that starts. -/
def run (acts : List Act) : CreditSystem := acts.foldl step {}

end CreditSystem

end QCBridge
