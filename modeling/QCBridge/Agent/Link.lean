import QCBridge.ForStd.Dict
import Mathlib.Logic.Function.Basic

/-!
# The addon's link

`link.rs` of the agent, toward the addon. Frames wait in two queues, one for control, acks,
fast frames and events and one for cold frames, hot values in a map, one per key. A writer
thread takes them and writes them to the addon, and events to every control client too.
`serve_local` lets one addon in at a time and starts a reader thread for it, which lets it out
again when its socket ends.

Each action is what one thread does up to its next access to what it shares with the others.
The sink's lock is held for a whole write. `attached` changes under that lock except in
`serve_local`; its swap, coming between the sink's change and the flag's, acts as if it came
before both.
-/

namespace QCBridge

/-- The type byte of a frame. -/
inductive FrameKind where
  | control
  | hot
  | cold
  | coldAck
  | fast
  | fastAck
  | cmd
  | event
deriving DecidableEq, Repr

namespace FrameKind

/-- The byte itself. -/
def byte : FrameKind → UInt8
  | control => 0x01
  | hot => 0x02
  | cold => 0x03
  | coldAck => 0x04
  | fast => 0x05
  | fastAck => 0x06
  | cmd => 0x10
  | event => 0x20

/-- `is_prio`. -/
def isPrio (k : FrameKind) : Bool :=
  k = control || k = coldAck || k = fast || k = fastAck || k = event

end FrameKind

/-- A frame for the addon. -/
structure OutFrame where
  kind : FrameKind
  body : List UInt8
deriving DecidableEq, Repr

/-- `Out`. -/
inductive Out where
  | frame (f : OutFrame)
  | wake
deriving DecidableEq, Repr

/-- The room of `tx`. -/
def outRoom : Nat := 256

/-- The room of `prio_tx`. -/
def prioRoom : Nat := 1024

/-! ## Attaching -/

/-- The first frame of a client, as far as `serve_local` got to read it. -/
structure AttachFrame where
  /-- Whether its head and its body came whole. -/
  whole : Bool := true
  kind : UInt8 := FrameKind.cmd.byte
  len : Nat
  /-- The strings at `"cmd"`, `"secret"` and `"kind"`, if there are any. -/
  cmd : Option String
  secret : Option String
  client : Option String := none

/-- What `serve_local` takes a client for. -/
inductive Welcome where
  | dropped
  | rejected
  | control
  | addon
deriving DecidableEq, Repr

/-- The handshake of `serve_local`. `cloned` is whether `try_clone` went well. -/
def welcome (secret : String) (first : AttachFrame) (cloned : Bool) : Welcome :=
  if !first.whole || first.kind ≠ FrameKind.cmd.byte || first.len = 0 || 4096 < first.len then
    .dropped
  else if first.cmd ≠ some "attach" || first.secret ≠ some secret then .rejected
  else if !cloned then .dropped
  else if first.client = some "control" then .control
  else .addon

/-- Where `serve_local` is with an addon. -/
inductive ServerPhase where
  | accepting
  /-- At `set_sink(Some(stream))`. -/
  | seating (c : Nat)
  /-- At `on_attach()`. -/
  | greeting (c : Nat)
  /-- At `event_direct`. -/
  | replying (c : Nat)
  /-- About to start the reader thread. -/
  | spawning (c : Nat)
deriving DecidableEq, Repr

/-- Where the reader thread of an addon is. -/
inductive ReaderPhase where
  /-- It was not started. -/
  | absent
  /-- In `reader_loop`. -/
  | reading
  /-- At `set_sink(None)`. -/
  | ended
  /-- At `on_detach()`. -/
  | cleared
  | done
deriving DecidableEq, Repr

/-- A call of `on_attach` for an addon, or of `on_detach`. The callback is not told whose it
    is: history. -/
inductive Report where
  | attached (c : Nat)
  | detached (c : Nat)
deriving DecidableEq, Repr

/-- The sink and the threads that set it. Addons are numbered as they come. -/
structure Attachment where
  sink : Option Nat := none
  attached : Bool := false
  server : ServerPhase := .accepting
  reader : Nat → ReaderPhase := fun _ => .absent
  /-- How many asked to attach. -/
  conns : Nat := 0
  /-- The addons that were made the sink, the last one first: history. -/
  seated : List Nat := []
  /-- The addons to which a write failed: history. -/
  failed : List Nat := []
  /-- Each `set_sink(None)`: whose reader made it and what the sink was. History. -/
  clears : List (Nat × Option Nat) := []
  reports : List Report := []

namespace Attachment

/-- `set_sink`. -/
def setSink (a : Attachment) (stream : Option Nat) : Attachment :=
  { a with sink := stream, attached := stream.isSome }

/-- `attached.swap(true)`, for an addon that asks to attach. -/
def admission (a : Attachment) : Attachment :=
  { a with
    attached := true
    -- "already attached": the client is rejected, and the flag stays set
    server := if a.attached then .accepting else .seating a.conns
    conns := a.conns + 1 }

/-- The next call of `serve_local` for the addon that it let in. `spawned` is whether the
    thread could be started. -/
def serve (a : Attachment) (spawned : Bool) : Attachment :=
  match a.server with
  | .accepting => a
  | .seating c =>
    { a.setSink (some c) with server := .greeting c, seated := c :: a.seated }
  | .greeting c => { a with server := .replying c, reports := a.reports ++ [.attached c] }
  | .replying c => { a with server := .spawning c }
  | .spawning c =>
    { a with
      server := .accepting
      reader := if spawned then Function.update a.reader c .reading else a.reader }

/-- The next call of an addon's reader thread; a `reader_loop` returns. -/
def read (a : Attachment) (c : Nat) : Attachment :=
  match a.reader c with
  | .absent => a
  | .reading => { a with reader := Function.update a.reader c .ended }
  -- the thread clears the sink, whoever it is by now
  | .ended =>
    { a.setSink none with
      reader := Function.update a.reader c .cleared
      clears := a.clears ++ [(c, a.sink)] }
  -- and says so to the lifecycle afterwards
  | .cleared =>
    { a with
      reader := Function.update a.reader c .done
      reports := a.reports ++ [.detached c] }
  | .done => a

/-- What a failed write does. -/
def drop (a : Attachment) : Attachment :=
  match a.sink with
  | none => a
  -- the reader thread of the addon is not told
  | some c => { a.setSink none with failed := c :: a.failed }

end Attachment

/-! ## The writer -/

/-- What `writer_thread` turns to after a write. -/
inductive AfterWrite where
  /-- The rest of the priority queue, then what woke it. -/
  | drain (item : Out)
  /-- The hot values. -/
  | check
  /-- The rest of the hot values that it drained. -/
  | hot (rest : List (List UInt8))
deriving DecidableEq, Repr

/-- Where `writer_thread` is. -/
inductive WriterPhase where
  /-- At `rx.blocking_recv`. -/
  | waiting
  /-- At `prio_rx.try_recv`. -/
  | draining (item : Out)
  /-- At the sink, with a frame. -/
  | writing (f : OutFrame) (after : AfterWrite)
  /-- At `aux_event`. -/
  | telling (body : List UInt8) (after : AfterWrite)
  /-- At `hot_dirty.swap`. -/
  | checking
  /-- At the lock of the hot values. -/
  | collecting
  /-- At `attached.load`, with what is left of the hot values. -/
  | sendingHot (bodies : List (List UInt8))
  /-- At `flush`. -/
  | flushing
deriving DecidableEq, Repr

def AfterWrite.phase : AfterWrite → WriterPhase
  | drain item => .draining item
  | check => .checking
  | hot rest => .sendingHot rest

/-- `Link`, with the threads that run on it. -/
structure Link where
  /-- `tx`. -/
  cold : List Out := []
  /-- `prio_tx`. -/
  prio : List OutFrame := []
  hot : Dict (List UInt8) (List UInt8) := .empty
  hotDirty : Bool := false
  addons : Attachment := {}
  /-- The control clients. -/
  aux : List Nat := []
  auxSeq : Nat := 1
  writer : WriterPhase := .waiting
  /-- How many threads are about to set `hot_dirty` and how many are about to send a `Wake`. -/
  marking : Nat := 0
  waking : Nat := 0
  /-- The events that were queued: history. -/
  events : List (List UInt8) := []
  /-- The frames that were written to an addon: history. -/
  written : List (Nat × OutFrame) := []
  /-- The events that were written to control clients, and to which: history. -/
  told : List (List UInt8 × List Nat) := []

namespace Link

/-! ## Queueing -/

/-- A frame goes into the priority queue. -/
def pushPrio (s : Link) (f : OutFrame) : Link :=
  { s with
    prio := s.prio ++ [f]
    events := if f.kind = .event then s.events ++ [f.body] else s.events }

/-- `frame` and `frame_blocking`, once there is room: up to their `Wake`. -/
def frame (s : Link) (f : OutFrame) : Link :=
  if f.kind.isPrio then
    -- `send` waits for room; until then nothing has happened
    if s.prio.length < prioRoom then { s.pushPrio f with waking := s.waking + 1 } else s
  else if s.cold.length < outRoom then { s with cold := s.cold ++ [.frame f] }
  else s

/-- `event_try`, up to its `Wake`. -/
def eventTry (s : Link) (body : List UInt8) : Link :=
  -- dropped if the queue is full, but the writer is woken all the same
  let s := if s.prio.length < prioRoom then s.pushPrio ⟨.event, body⟩ else s
  { s with waking := s.waking + 1 }

/-- `tx.try_send(Out::Wake)`. -/
def wake (s : Link) : Link :=
  if s.waking = 0 then s
  else
    { s with
      waking := s.waking - 1
      -- a full channel wakes the writer anyway
      cold := if s.cold.length < outRoom then s.cold ++ [.wake] else s.cold }

/-- `hot`, up to `hot_dirty`. -/
def putHot (s : Link) (key body : List UInt8) : Link :=
  { s with hot := s.hot.insert key body, marking := s.marking + 1 }

/-- `hot`, its `hot_dirty.store(true)`. -/
def markHot (s : Link) : Link :=
  if s.marking = 0 then s
  else { s with hotDirty := true, marking := s.marking - 1, waking := s.waking + 1 }

/-! ## Writing -/

/-- `write_frame` to the addon that is the sink. -/
def writeSink (s : Link) (f : OutFrame) (fails : Bool) : Link :=
  match s.addons.sink with
  | none => s
  | some c =>
    if fails then { s with addons := s.addons.drop }
    else { s with written := s.written ++ [(c, f)] }

/-- `write_when_attached`; it waits where this is `none`. -/
def writeWhenAttached (s : Link) (f : OutFrame) (fails : Bool) : Option Link :=
  if s.addons.sink.isSome then some (s.writeSink f fails) else none

/-- `event_direct`. -/
def eventDirect (s : Link) (body : List UInt8) (fails : Bool) : Link :=
  -- the result is not looked at, so a failed write leaves the sink as it is
  if fails then s else s.writeSink ⟨.event, body⟩ false

/-- `aux_event`. `lost` are the clients to which the write fails. -/
def auxEvent (s : Link) (body : List UInt8) (lost : List Nat) : Link :=
  { s with
    aux := s.aux.filter (· ∉ lost)
    told := s.told ++ [(body, s.aux.filter (· ∉ lost))] }

/-- The writer at the sink, with a frame: `write_event_now`, up to `aux_event`, or
    `write_when_attached`. -/
def writeOut (s : Link) (f : OutFrame) (after : AfterWrite) (fails : Bool) : Link :=
  if f.kind = .event then { s.writeSink f fails with writer := .telling f.body after }
  else
    match s.writeWhenAttached f fails with
    | none => s
    | some s' => { s' with writer := after.phase }

/-- The writer in its loop of the hot values. `pick` is which of those left comes next. -/
def sendHot (s : Link) (bodies : List (List UInt8)) (pick : Nat) : Link :=
  match bodies[pick % bodies.length]? with
  -- no body is left
  | none => { s with writer := .flushing }
  | some body =>
    if s.addons.attached then
      { s with
        writer := .writing ⟨.hot, body⟩ (.hot (bodies.eraseIdx (pick % bodies.length))) }
    -- the flag is kept for the next addon; the values drained are gone
    else { s with hotDirty := true, writer := .flushing }

/-- The next turn of `writer_thread`. -/
def write (s : Link) (fails : Bool) (lost : List Nat) (pick : Nat) : Link :=
  match s.writer with
  | .waiting =>
    match s.cold with
    | [] => s
    | item :: cold => { s with cold := cold, writer := .draining item }
  -- the priority queue goes before the item of the cold one
  | .draining item =>
    match s.prio, item with
    | f :: prio, _ => { s with prio := prio, writer := .writing f (.drain item) }
    | [], .frame f => { s with writer := .writing f .check }
    | [], .wake => { s with writer := .checking }
  | .writing f after => s.writeOut f after fails
  | .telling body after => { s.auxEvent body lost with writer := after.phase }
  -- the flag is taken down before the map is drained
  | .checking =>
    { s with
      hotDirty := false
      writer := if s.hotDirty then .collecting else .flushing }
  | .collecting =>
    { s with hot := .empty, writer := .sendingHot (s.hot.entries.map Prod.snd) }
  | .sendingHot bodies => s.sendHot bodies pick
  | .flushing => { s with writer := .waiting }

/-! ## Clients -/

/-- `aux_add`. -/
def auxAdd (s : Link) : Link :=
  { s with aux := s.aux ++ [s.auxSeq], auxSeq := s.auxSeq + 1 }

/-- `serve_local` takes the next client, up to `set_sink` or, for a control client, through
    `aux_add`. `wrote` is whether the control client could be written to. -/
def connect (secret : String) (s : Link) (first : AttachFrame) (cloned wrote : Bool) : Link :=
  if s.addons.server ≠ .accepting then s
  else
    match welcome secret first cloned with
    -- `continue`: the stream is closed with the end of the turn
    | .dropped => s
    | .rejected => s
    | .control => if wrote then s.auxAdd else s
    | .addon => { s with addons := s.addons.admission }

/-- The next call of `serve_local` for an addon. `reply` is what `on_attach` returned. -/
def serve (s : Link) (reply : List UInt8) (fails spawned : Bool) : Link :=
  match s.addons.server with
  | .replying _ => { s.eventDirect reply fails with addons := s.addons.serve spawned }
  | _ => { s with addons := s.addons.serve spawned }

/-- What may happen next. -/
inductive Act where
  | frame (f : OutFrame)
  | eventTry (body : List UInt8)
  | wake
  | putHot (key body : List UInt8)
  | markHot
  | connect (first : AttachFrame) (cloned wrote : Bool)
  | serve (reply : List UInt8) (fails spawned : Bool)
  /-- The reader thread of an addon. -/
  | reader (c : Nat)
  /-- `aux_remove`, of the reader thread of a control client. -/
  | auxRemove (id : Nat)
  | write (fails : Bool) (lost : List Nat) (pick : Nat)

/-- One action. -/
def step (secret : String) (s : Link) : Act → Link
  | .frame f => s.frame f
  | .eventTry body => s.eventTry body
  | .wake => s.wake
  | .putHot key body => s.putHot key body
  | .markHot => s.markHot
  | .connect first cloned wrote => s.connect secret first cloned wrote
  | .serve reply fails spawned => s.serve reply fails spawned
  | .reader c => { s with addons := s.addons.read c }
  | .auxRemove id => { s with aux := s.aux.filter (· ≠ id) }
  | .write fails lost pick => s.write fails lost pick

/-- Actions one after the other, from an agent that starts. -/
def run (secret : String) (acts : List Act) : Link := acts.foldl (step secret) {}

end Link

end QCBridge
