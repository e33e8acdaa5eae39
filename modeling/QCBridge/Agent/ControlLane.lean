import QCBridge.Agent.Link

/-!
# The control lane, received

The `control-recv` task of `run_lanes` in `session.rs`. On a replica it looks at each short
message first: an `agent-session` is for the observer and nobody else, and a goodbye is for the
observer too. Everything but an `agent-session` goes on to the addon, by the link's priority
queue, and the task waits there for room.

`serde_json` is a parameter: what it finds at `"on"`.
-/

namespace QCBridge

/-- The bytes of a text in ASCII. -/
def asciiBytes (s : String) : List UInt8 := s.toList.map fun c => UInt8.ofNat c.toNat

/-- `payload.windows(n).any(|w| w == tag)`. -/
def anyWindow (n : Nat) (tag payload : List UInt8) : Bool :=
  (List.range (payload.length + 1 - n)).any fun i => (payload.drop i).take n == tag

/-- What the observer is told. -/
inductive Observation where
  | session (on : Bool)
  | goodbye
deriving DecidableEq, Repr

/-- `TAG`. -/
def sessionTag : List UInt8 := asciiBytes "\"kind\":\"agent-session\""

def goodbyeTag : List UInt8 := asciiBytes "\"kind\":\"goodbye\""

/-- `agent_session_msg`. -/
def agentSessionMsg (on : Bool) : List UInt8 :=
  asciiBytes "\x7b\"kind\":\"agent-session\",\"on\":" ++
    asciiBytes (if on then "true" else "false") ++ asciiBytes "\x7d"

/-- What `encode_control` makes of the goodbye of a host's addon. -/
def goodbyeMsg (req : Nat) : List UInt8 :=
  asciiBytes "\x7b\"kind\":\"goodbye\",\"req\":" ++ asciiBytes (toString req) ++
    asciiBytes "\x7d"

/-- `lane_body`. -/
def laneBody (peer : UInt8) (payload : List UInt8) : List UInt8 := peer :: payload

section

variable (jsonOn : List UInt8 → Option Bool)

/-- `parse_agent_session`. -/
def parseAgentSession (payload : List UInt8) : Option Bool :=
  if anyWindow sessionTag.length sessionTag payload then jsonOn payload else none

/-- What the task tells the observer about a message, and whether it keeps the message. -/
def sniff (isHost : Bool) (payload : List UInt8) : Option Observation × Bool :=
  if !isHost && payload.length < 512 then
    match parseAgentSession jsonOn payload with
    | some on => (some (.session on), true)
    -- the message goes on to the addon, a goodbye too
    | none => (if anyWindow 17 goodbyeTag payload then some .goodbye else none, false)
  else (none, false)

end

/-- Where the task is. -/
inductive RecvPhase where
  /-- At `recv_msg`. -/
  | receiving
  /-- At `link.frame`, with the body of a control frame. -/
  | framing (body : List UInt8)
  /-- In `link.frame`, at the `Wake`. -/
  | waking
deriving DecidableEq, Repr

/-- The agent, as far as its link and the control lane go. -/
structure ControlLane where
  link : Link := {}
  /-- What came and was not taken yet. -/
  lane : List (List UInt8) := []
  task : RecvPhase := .receiving
  observed : List Observation := []
  /-- The messages that the task took: history. -/
  taken : List (List UInt8) := []

namespace ControlLane

section

variable (jsonOn : List UInt8 → Option Bool) (isHost : Bool)

/-- The next turn of the task. -/
def recv (s : ControlLane) : ControlLane :=
  match s.task with
  | .receiving =>
    match s.lane with
    | [] => s
    | payload :: lane =>
      { s with
        lane := lane
        task :=
          if (sniff jsonOn isHost payload).2 then .receiving
          else .framing (laneBody 0 payload)
        observed := s.observed ++ (sniff jsonOn isHost payload).1.toList
        taken := s.taken ++ [payload] }
  | .framing body =>
    -- `send` waits while the queue is full, and the lane waits with it
    if s.link.prio.length < prioRoom then
      { s with link := s.link.frame ⟨.control, body⟩, task := .waking }
    else s
  | .waking => { s with link := s.link.wake, task := .receiving }

/-- What may happen next. -/
inductive Act where
  | link (act : Link.Act)
  /-- A message comes. -/
  | arrive (payload : List UInt8)
  /-- The session is over, and the task is aborted; another session may start. -/
  | restart
  | recv

/-- One action. -/
def step (secret : String) (s : ControlLane) : Act → ControlLane
  | .link act => { s with link := s.link.step secret act }
  | .arrive payload => { s with lane := s.lane ++ [payload] }
  | .restart => { s with lane := [], task := .receiving }
  | .recv => s.recv jsonOn isHost

/-- Actions one after the other, from an agent that starts. -/
def run (secret : String) (acts : List Act) : ControlLane :=
  acts.foldl (step jsonOn isHost secret) {}

end

end ControlLane

end QCBridge
