import Mathlib.Data.List.Basic

/-!
# The threads of the encoder helper

`ring_loop`, `encode_loop` and the reader of stdin of `encode-win/src/main.rs`. The ring thread
converts what it finds in the ring and sends it to the encode thread, which gives it to the encoder
when that asks for input; a line "key" on stdin asks for a keyframe. `in_flight` and `force_key` are
atomics that the threads share.

Each action is what a thread does up to its next access to something shared. How the ring is read is
in `Ring0/FrameRing.lean`; here a look at it only comes to something. The encoder asks for input as
long as it holds fewer than `depth` frames, and puts out what it holds in order. The clock and the
counters of `Stats` are left out.
-/

namespace QCBridge.Agent

/-- The sizes that the checks of a descriptor let through. -/
abbrev FrameSize := { size : Nat × Nat // 16 ≤ size.1 ∧ 16 ≤ size.2 }

/-- A texture on its way to the encoder. -/
structure Submission where
  tex : Nat
  pts : Int
  key : Bool
deriving DecidableEq, Repr

/-- What the conversion of a frame comes to. -/
inductive Conversion where
  | done (tex : Nat)
  /-- The producer overwrote the slot. -/
  | overwritten
  | failed
deriving DecidableEq, Repr

/-- What a look at the ring comes to. -/
inductive RingLook where
  /-- Too early for the next frame, or the producer is inside the slot. -/
  | again
  /-- No other frame, no such slot, or a descriptor that is not valid. -/
  | nothing
  /-- A frame, and whether a converter and an encoder can be made for it. -/
  | frame (size : FrameSize) (made : Bool) (conversion : Conversion)
  | retired
  | producerGone
deriving DecidableEq, Repr

/-- Where the ring thread is. -/
inductive RingPhase where
  | looking
  /-- At `force_key.swap`. -/
  | checking (fresh : Option Nat)
  /-- At `force_key.store(true)`. -/
  | restoring
  /-- At `in_flight.load`. -/
  | weighing (tex : Nat) (wantKey : Bool)
  /-- At `in_flight.fetch_add`. -/
  | counting (tex : Nat) (wantKey : Bool)
  /-- At `tx.send`. -/
  | sending (frame : Submission)
deriving DecidableEq, Repr

/-- Where the encode thread is. -/
inductive EncodePhase where
  /-- At `GetEvent`. -/
  | waiting
  /-- At `rx.recv`. -/
  | taking
  /-- At `make_sample` and `ProcessInput`. -/
  | holding (frame : Submission)
  /-- At `in_flight.fetch_sub`. -/
  | leaving
deriving DecidableEq, Repr

/-- An event of the encoder, and what `ProcessOutput` comes to. -/
inductive EncoderEvent where
  | needInput
  /-- A sample, or an error in its place. -/
  | haveOutput
  /-- Another output type, or no sample. -/
  | noOutput
  | error
deriving DecidableEq, Repr

/-- A line on stdin, or its end. -/
inductive StdinLine where
  | key
  | quit
  | other
deriving DecidableEq, Repr

/-- The helper. -/
structure EncodeLoop where
  /-- The first frame is a key. -/
  forceKey : Bool := true
  inFlight : Int := 0
  /-- `session`, with which `conv` and `enc_tx` are set. -/
  session : Option FrameSize := none
  lastTex : Option Nat := none
  ring : RingPhase := .looking
  channel : List Submission := []
  encode : EncodePhase := .waiting
  /-- What the encoder holds. -/
  inside : List Submission := []
  /-- What the encode thread took from the channel: history. -/
  taken : List Submission := []
  /-- The exit code. -/
  exited : Option Nat := none
deriving DecidableEq, Repr

namespace EncodeLoop

/-- The room of the channel to the encode thread. -/
def channelRoom : Nat := 4

/-- The frames that may be under way. -/
def maxInFlight : Int := 3

/-- What may happen next. -/
inductive Act where
  | look (l : RingLook)
  /-- The ring thread goes on. Nothing was sent for the idle floor, the session is young, and the
      time. -/
  | ring (idle young : Bool) (pts : Int)
  | event (e : EncoderEvent)
  /-- The encode thread goes on. The encoder takes the frame. -/
  | encode (accepted : Bool)
  | line (l : StdinLine)
deriving DecidableEq, Repr

variable (depth : Nat) (s : EncodeLoop)

/-- `std::process::exit`. -/
def exit (code : Nat) : EncodeLoop := { s with exited := some code }

/-- What follows a conversion. -/
def convert : Conversion → EncodeLoop
  | .done tex => { s with ring := .checking (some tex) }
  | .overwritten => s
  | .failed => { s with ring := .checking none }

/-- The ring thread looks at the ring. -/
def look (l : RingLook) : EncodeLoop :=
  match l with
  | .again => s
  | .nothing => { s with ring := .checking none }
  | .retired => s.exit 7
  | .producerGone => s.exit 0
  | .frame size made conversion =>
    match s.session with
    | none =>
      if made then
        { s with session := some size, forceKey := true, lastTex := none }.convert conversion
      else s.exit 6
    -- another size takes another process
    | some size' => if size = size' then s.convert conversion else s.exit 8

/-- The ring thread goes on. -/
def ringStep (idle young : Bool) (pts : Int) : EncodeLoop :=
  match s.ring with
  | .looking => s
  | .checking fresh =>
    let wantKey := s.forceKey || (idle && young)
    let s := { s with forceKey := false }
    match fresh <|> if wantKey || idle then s.lastTex else none with
    | some tex =>
      -- without an encoder the wish for a key is gone
      if s.session.isNone then { s with ring := .looking }
      else { s with ring := .weighing tex wantKey }
    | none => { s with ring := if wantKey then .restoring else .looking }
  | .restoring => { s with forceKey := true, ring := .looking }
  | .weighing tex wantKey =>
    if maxInFlight ≤ s.inFlight then
      { s with lastTex := some tex, ring := if wantKey then .restoring else .looking }
    else { s with ring := .counting tex wantKey }
  | .counting tex wantKey =>
    { s with inFlight := s.inFlight + 1, ring := .sending ⟨tex, pts, wantKey⟩ }
  | .sending frame =>
    if s.channel.length < channelRoom then
      { s with channel := s.channel ++ [frame], lastTex := some frame.tex, ring := .looking }
    else s

/-- An event of the encoder. -/
def event (e : EncoderEvent) : EncodeLoop :=
  match s.session, s.encode, e with
  | some _, .waiting, .needInput =>
    if s.inside.length < depth then { s with encode := .taking } else s
  | some _, .waiting, .haveOutput =>
    match s.inside with
    | [] => s
    | _ :: inside => { s with inside, encode := .leaving }
  | some _, .waiting, .error => s.exit 3
  | _, _, _ => s

/-- The encode thread goes on. -/
def encodeStep (accepted : Bool) : EncodeLoop :=
  match s.encode with
  | .waiting => s
  | .taking =>
    match s.channel with
    | [] => s
    | frame :: channel =>
      { s with channel, taken := s.taken ++ [frame], encode := .holding frame }
  -- the encoder takes it, or `encode` failed and the frame is dropped
  | .holding frame =>
    if accepted then { s with inside := s.inside ++ [frame], encode := .waiting }
    else { s with encode := .leaving }
  | .leaving => { s with inFlight := s.inFlight - 1, encode := .waiting }

/-- A line on stdin. -/
def line : StdinLine → EncodeLoop
  | .key => { s with forceKey := true }
  | .quit => s.exit 0
  | .other => s

/-- One action. Nothing goes on once the process has exited. -/
def step (act : Act) : EncodeLoop :=
  if s.exited.isSome then s
  else
    match act with
    | .look l => if s.ring = .looking then s.look l else s
    | .ring idle young pts => s.ringStep idle young pts
    | .event e => s.event depth e
    | .encode accepted => s.encodeStep accepted
    | .line l => s.line l

/-- Actions one after the other. -/
def run (acts : List Act) : EncodeLoop := acts.foldl (step depth) {}

end EncodeLoop

end QCBridge.Agent
