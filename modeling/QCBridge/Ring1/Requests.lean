import QCBridge.ForStd.Dict
import Mathlib.Logic.Function.Basic

/-!
# Requests and their replies

`HostTransportAgent` in `ring1/transport_agent.py`: a request is a control message with a
number, the replica's reply carries the number back, and the table `_pending` brings the two
together. The reader thread fills the table, the main thread empties it.

Numbers start at 1 with every transport. The agent keeps what the replica sends until an addon
is attached, and does not know whose request a reply is for.
-/

namespace QCBridge

/-- A control message from the replica. -/
structure ControlReply where
  /-- Whether its `"kind"` is `"pong"`. -/
  pong : Bool := false
  /-- The number at `"req"`, if there is one. -/
  req : Option Nat
  /-- The transport whose request it answers: history. -/
  origin : Option Nat
deriving DecidableEq, Repr

/-- Where the reader thread of a transport is. -/
inductive ReplyPhase where
  | reading
  /-- In `_handle_reply`, with the slot of a request in hand. -/
  | storing (id : Nat) (r : ControlReply)
deriving DecidableEq, Repr

/-- What `HostTransportAgent` keeps of its requests. -/
structure RequestTable where
  /-- `_pending`: the replies in each slot. -/
  pending : Dict Nat (List ControlReply) := .empty
  /-- What `_req_ids` gives out next. -/
  nextId : Nat := 1
  reader : ReplyPhase := .reading
  /-- What is on the socket. -/
  inbox : List ControlReply := []

namespace RequestTable

/-- `request_nowait`, and `request` up to where it waits. -/
def request (t : RequestTable) : RequestTable :=
  { t with pending := t.pending.insert t.nextId [], nextId := t.nextId + 1 }

/-- `cancel_request`, and the end of `request`. -/
def cancelRequest (t : RequestTable) (id : Nat) : RequestTable :=
  { t with pending := t.pending.erase id }

/-- What `poll_reply` returns. -/
def pollReply (t : RequestTable) (id : Nat) : Option ControlReply :=
  (t.pending.get? id).bind List.head?

/-- What `poll_reply` leaves. -/
def polled (t : RequestTable) (id : Nat) : RequestTable :=
  if (t.pollReply id).isSome then { t with pending := t.pending.erase id } else t

/-- `_handle_reply`, up to the end of its lock. -/
def handleReply (t : RequestTable) (r : ControlReply) : RequestTable :=
  match r.req with
  | none => t
  | some id =>
    -- a pong, or a number that nothing waits under: the reply goes to no slot
    if !r.pong && (t.pending.get? id).isSome then { t with reader := .storing id r } else t

/-- `slot.append`. A slot that is out of the table by then is nobody's. -/
def store (t : RequestTable) (id : Nat) (r : ControlReply) : RequestTable :=
  { t with
    reader := .reading
    pending :=
      match t.pending.get? id with
      | some slot => t.pending.insert id (slot ++ [r])
      | none => t.pending }

/-- The next turn of the reader thread. -/
def read (t : RequestTable) : RequestTable :=
  match t.reader, t.inbox with
  | .storing id r, _ => t.store id r
  | .reading, [] => t
  | .reading, r :: inbox => { t with inbox := inbox }.handleReply r

end RequestTable

/-- A call of `cancel_request`, or of `poll_reply` with a reply to return. -/
inductive RequestEvent where
  | cancelled (t id : Nat)
  | polled (t id : Nat) (r : ControlReply)
deriving DecidableEq, Repr

/-- The transports one after the other, and the agent between them and the replica. -/
structure Requests where
  table : Nat → RequestTable := fun _ => {}
  /-- How many transports there were. -/
  count : Nat := 0
  /-- The transport that is attached. -/
  sink : Option Nat := none
  /-- The control frames that the agent holds. -/
  queue : List ControlReply := []
  /-- The requests that were made, and by which transport: history. -/
  sent : List (Nat × Nat) := []
  log : List RequestEvent := []

namespace Requests

/-- What may happen next. -/
inductive Act where
  /-- A new transport attaches. -/
  | attach
  | detach
  | request (t : Nat)
  /-- The end of `request`. -/
  | finish (t id : Nat)
  | cancel (t id : Nat)
  | poll (t id : Nat)
  /-- The replica answers a request, for the first time or again. -/
  | answer (t id : Nat) (pong : Bool)
  /-- It sends something that answers none. -/
  | stray (req : Option Nat) (pong : Bool)
  /-- The agent's writer. -/
  | write (fails : Bool)
  /-- The reader thread of a transport. -/
  | read (t : Nat)
deriving DecidableEq, Repr

/-- Transport `t` goes on. -/
def withTable (s : Requests) (t : Nat) (table : RequestTable) : Requests :=
  { s with table := Function.update s.table t table }

/-- `HostTransportAgent.__init__` and `start`; the agent lets one in. -/
def attach (s : Requests) : Requests :=
  { s with
    count := s.count + 1
    sink := if s.sink.isSome then s.sink else some s.count }

/-- `request` or `request_nowait`. -/
def request (s : Requests) (t : Nat) : Requests :=
  if t < s.count then
    { s.withTable t (s.table t).request with sent := s.sent ++ [(t, (s.table t).nextId)] }
  else s

/-- `cancel_request`, of a number that was given out. -/
def cancel (s : Requests) (t id : Nat) : Requests :=
  if id < (s.table t).nextId then
    { s.withTable t ((s.table t).cancelRequest id) with log := s.log ++ [.cancelled t id] }
  else s

/-- `poll_reply`. -/
def poll (s : Requests) (t id : Nat) : Requests :=
  { s.withTable t ((s.table t).polled id) with
    log := s.log ++ ((s.table t).pollReply id).toList.map (.polled t id) }

/-- The replica answers a request that it got. -/
def answer (s : Requests) (t id : Nat) (pong : Bool) : Requests :=
  if (t, id) ∈ s.sent then { s with queue := s.queue ++ [⟨pong, some id, some t⟩] } else s

/-- The writer writes the first frame to the addon that is attached, if one is. -/
def write (s : Requests) (fails : Bool) : Requests :=
  match s.queue, s.sink with
  | r :: queue, some t =>
    -- the frame is lost with the addon
    if fails then { s with queue := queue, sink := none }
    else
      { s.withTable t { s.table t with inbox := (s.table t).inbox ++ [r] } with queue := queue }
  -- without an addon the frame waits for the next one
  | _, _ => s

/-- One action. -/
def step (s : Requests) : Act → Requests
  | .attach => s.attach
  | .detach => { s with sink := none }
  | .request t => s.request t
  | .finish t id => s.withTable t ((s.table t).cancelRequest id)
  | .cancel t id => s.cancel t id
  | .poll t id => s.poll t id
  | .answer t id pong => s.answer t id pong
  | .stray req pong => { s with queue := s.queue ++ [⟨pong, req, none⟩] }
  | .write fails => s.write fails
  | .read t => s.withTable t (s.table t).read

/-- Actions one after the other, from an agent that starts. -/
def run (acts : List Act) : Requests := acts.foldl step {}

end Requests

end QCBridge
