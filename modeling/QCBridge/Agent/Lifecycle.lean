import QCBridge.Agent.Config
import QCBridge.Agent.ControlLane
import QCBridge.Agent.Link

/-!
# The lifecycle of Blender

`blender.rs`: the agent of a replica launches Blender when the host is in a session and closes it
after a grace when the session has ended. `Lifecycle::run` takes its events one at a time. Who
observes the peer sets the flags first and then sends its event. Beside these run the threads that
wait for a Blender to exit, those that are to kill one, and the threads of the link.

Blenders are numbered as they are launched, and times are in milliseconds. Left out are the status
texts, the address of the peer, and the event of `peer_up` for the addon, which is one of those
that other threads queue.
-/

namespace QCBridge

/-- `Event`. -/
inductive LifecycleEvent where
  | peerUp
  | peerDown
  | goodbye
  | sessionOn
  | sessionOff
  | addonDetached
  | childExited
  | manualStart
  | manualStop
  | shutdown
deriving DecidableEq, Repr

/-- Where `Lifecycle::run` is. -/
inductive LifecyclePhase where
  /-- At `select!`. -/
  | waiting
  /-- In the sleep before a relaunch, and until when. -/
  | relaunching (until_ : Nat)
  | ended
deriving DecidableEq, Repr

/-- A thread of `close_blender`. -/
structure ForceKill where
  due : Nat
  /-- The Blender that ran when `close_blender` was called. The thread is not told: history. -/
  aim : Nat
deriving DecidableEq, Repr

/-- What a launch meets outside. -/
structure Launch where
  /-- `blender_path`. -/
  path : String
  /-- Whether the process can be started. -/
  spawns : Bool := true
deriving DecidableEq, Repr

/-- `json!({"event": "quit"})`. -/
def quitBody : List UInt8 := asciiBytes "\x7b\"event\":\"quit\"\x7d"

def quitFrame : OutFrame := ⟨.event, quitBody⟩

/-- `Lifecycle` and `run`, with the threads and processes around them. -/
structure Lifecycle where
  link : Link := {}
  child : Option Nat := none
  peerUp : Bool := false
  sessionOn : Bool := false
  /-- The events that were sent and not yet taken. -/
  queue : List LifecycleEvent := []
  /-- The event of an observer that has set its flags. -/
  sending : Option LifecycleEvent := none
  phase : LifecyclePhase := .waiting
  closeDeadline : Option Nat := none
  wanted : Bool := false
  now : Nat := 0
  /-- How many threads wait for a Blender to exit, and how many are about to send that it has. -/
  waiters : Nat := 0
  exited : Nat := 0
  kills : List ForceKill := []
  /-- How many Blenders were launched, and which of them run. -/
  launched : Nat := 0
  alive : List Nat := []
  /-- The Blender that an addon is part of, unless somebody else started it. -/
  owner : Nat → Option Nat := fun _ => none
  /-- The Blenders that `close_blender` was called for: history. -/
  asked : List Nat := []
  /-- The session flag has not gone off since `ManualStart` was last sent with it off: history. -/
  manual : Bool := false
  /-- For which Blender each quit event is that is queued or in the writer's hand: history. -/
  aims : List Nat := []
  /-- The quit events that were written and the kills that found a Blender: for which one, and
      which one it was. History. -/
  reached : List (Nat × Option Nat) := []

namespace Lifecycle

/-! ## Launching and closing -/

/-- `blender_running`. -/
def blenderRunning (s : Lifecycle) : Bool := s.child.isSome

/-- `spawn_blender`. -/
def spawnBlender (s : Lifecycle) (l : Launch) : Lifecycle :=
  if s.blenderRunning then s
  -- "do not supervise Blender"
  else if Agent.trim l.path.toList = [] then s
  else if l.spawns then
    { s with
      child := some s.launched
      waiters := s.waiters + 1
      launched := s.launched + 1
      alive := s.launched :: s.alive }
  else s

/-- `close_blender`. -/
def closeBlender (s : Lifecycle) : Lifecycle :=
  match s.child with
  | none => s
  | some k =>
    { s with
      link := s.link.eventTry quitBody
      kills := s.kills ++ [⟨s.now + 10000, k⟩]
      asked := k :: s.asked
      aims := if s.link.prio.length < prioRoom then s.aims ++ [k] else s.aims }

/-- The thread of `close_blender` when its sleep is over. -/
def kill (s : Lifecycle) (i : Nat) : Lifecycle :=
  match s.kills[i]? with
  | none => s
  | some t =>
    if t.due ≤ s.now then
      let s := { s with kills := s.kills.eraseIdx i }
      match s.child with
      | none => s
      -- whichever it is by now
      | some k =>
        { s with
          alive := s.alive.filter (· ≠ k)
          reached := s.reached ++ [(t.aim, some k)] }
    else s

/-- A turn of a thread that waits for a Blender to exit. `fails` is whether `try_wait` does. -/
def look (s : Lifecycle) (fails : Bool) : Lifecycle :=
  if s.waiters = 0 then s
  else
    match s.child with
    | none => { s with waiters := s.waiters - 1, exited := s.exited + 1 }
    | some k =>
      if fails ∨ k ∉ s.alive then
        { s with child := none, waiters := s.waiters - 1, exited := s.exited + 1 }
      else s

/-- That thread at `tx.send(ChildExited)`. -/
def report (s : Lifecycle) : Lifecycle :=
  if s.exited = 0 then s
  else { s with queue := s.queue ++ [.childExited], exited := s.exited - 1 }

/-! ## Observing the peer -/

/-- A call of `PeerObserver`. -/
inductive Call where
  | peerUp
  | peerDown
  | goodbye
  | session (on : Bool)
deriving DecidableEq, Repr

/-- `session_on.store`. -/
def setSession (s : Lifecycle) (on : Bool) : Lifecycle :=
  { s with sessionOn := on, manual := if s.sessionOn && !on then false else s.manual }

/-- A call, up to its event. The calls come one after the other. -/
def observe (s : Lifecycle) (call : Call) : Lifecycle :=
  if s.sending = none then
    match call with
    | .peerUp => { s with peerUp := true, sending := some .peerUp }
    -- "a lost link ends the session"
    | .peerDown => { s.setSession false with peerUp := false, sending := some .peerDown }
    | .goodbye => { s with sending := some .goodbye }
    | .session on =>
      { s.setSession on with sending := some (if on then .sessionOn else .sessionOff) }
  else s

/-- Its event. -/
def send (s : Lifecycle) : Lifecycle :=
  match s.sending with
  | none => s
  | some e => { s with queue := s.queue ++ [e], sending := none }

/-- Who else sends events: the link, the tray, and the end of the role. -/
inductive Request where
  | addonDetached
  | manualStart
  | manualStop
  | shutdown
deriving DecidableEq, Repr

def Request.event : Request → LifecycleEvent
  | addonDetached => .addonDetached
  | manualStart => .manualStart
  | manualStop => .manualStop
  | shutdown => .shutdown

def post (s : Lifecycle) (r : Request) : Lifecycle :=
  { s with
    queue := s.queue ++ [r.event]
    manual := s.manual || r = .manualStart && !s.sessionOn }

/-! ## `run` -/

/-- `end_session`, with the `idle_secs` that there are. -/
def endSession (s : Lifecycle) (grace : Nat) : Lifecycle :=
  if s.blenderRunning then
    if grace = 0 then { s with closeDeadline := some s.now }
    else
      match s.closeDeadline with
      | none => { s with closeDeadline := some (s.now + grace * 1000) }
      | some _ => s
  else s

/-- What `run` does with an event. -/
def handle (s : Lifecycle) (grace : Nat) (l : Launch) : LifecycleEvent → Lifecycle
  | .peerUp => s
  | .sessionOn => { s with closeDeadline := none, wanted := true }.spawnBlender l
  | .sessionOff => s.endSession grace
  | .peerDown => s.endSession grace
  | .goodbye => s.endSession grace
  | .addonDetached => s
  -- wanted, with a session and a peer: it is launched again after a pause; the deadline goes else
  | .childExited =>
    if s.wanted && s.sessionOn && s.peerUp then { s with phase := .relaunching (s.now + 3000) }
    else { s with closeDeadline := none }
  | .manualStart => { s with wanted := true }.spawnBlender l
  | .manualStop => { s with wanted := false, closeDeadline := none }.closeBlender
  | .shutdown => { s.closeBlender with phase := .ended }

/-- `run` takes the next event. -/
def next (s : Lifecycle) (grace : Nat) (l : Launch) : Lifecycle :=
  if s.phase = .waiting then
    match s.queue with
    | [] => s
    | e :: queue => { s with queue }.handle grace l e
  else s

/-- The other branch of `select!`. -/
def timeout (s : Lifecycle) : Lifecycle :=
  match s.phase, s.closeDeadline with
  | .waiting, some t =>
    if t ≤ s.now then
      if s.sessionOn then { s with closeDeadline := none }
      else { s with closeDeadline := none, wanted := false }.closeBlender
    else s
  | _, _ => s

/-- The sleep before a relaunch is over. -/
def relaunch (s : Lifecycle) (l : Launch) : Lifecycle :=
  match s.phase with
  | .relaunching t => if t ≤ s.now then { s with phase := .waiting }.spawnBlender l else s
  | _ => s

/-! ## The link -/

/-- An action on the link that is not one of the lifecycle's own and lets no addon in. -/
def foreign : Link.Act → Bool
  | .connect .. => false
  | .frame f => f ≠ quitFrame
  | .eventTry body => body ≠ quitBody
  | _ => true

abbrev LinkAct := { act : Link.Act // foreign act = true }

variable (secret : String)

/-- A client connects; if it is an addon, it is part of this Blender. -/
def connect (s : Lifecycle) (blender : Option Nat) (first : AttachFrame) (cloned wrote : Bool) :
    Lifecycle :=
  -- one that has been launched
  if ∀ k, blender = some k → k < s.launched then
    { s with
      link := s.link.connect secret first cloned wrote
      owner := Function.update s.owner s.link.addons.conns blender }
  else s

/-- The writer goes on. A quit event that it has in its hand goes to the addon that there is; it
    counts as having reached it also when the write fails, for nobody knows how far it came. -/
def write (s : Lifecycle) (fails : Bool) (lost : List Nat) (pick : Nat) : Lifecycle :=
  let link := s.link.write fails lost pick
  match s.link.writer with
  | .writing f _ =>
    -- the oldest quit event on its way
    if f = quitFrame then
      { s with
        link
        aims := s.aims.tail
        reached := s.reached ++
          match s.aims.head?, s.link.addons.sink with
          | some k, some c => [(k, s.owner c)]
          | _, _ => [] }
    else { s with link }
  | _ => { s with link }

/-- Any other action on the link. -/
def linkStep (s : Lifecycle) : Link.Act → Lifecycle
  | .write fails lost pick => s.write fails lost pick
  | act => { s with link := s.link.step secret act }

/-- What may happen next. -/
inductive Act where
  | observe (call : Call)
  | send
  | post (r : Request)
  | next (grace : Nat) (l : Launch)
  | timeout
  | relaunch (l : Launch)
  | kill (i : Nat)
  /-- A Blender ends. -/
  | exits (k : Nat)
  | look (fails : Bool)
  | report
  | connect (blender : Option Nat) (first : AttachFrame) (cloned wrote : Bool)
  | link (act : LinkAct)
  | tick (ms : Nat)

def step (s : Lifecycle) : Act → Lifecycle
  | .observe call => s.observe call
  | .send => s.send
  | .post r => s.post r
  | .next grace l => s.next grace l
  | .timeout => s.timeout
  | .relaunch l => s.relaunch l
  | .kill i => s.kill i
  | .exits k => { s with alive := s.alive.filter (· ≠ k) }
  | .look fails => s.look fails
  | .report => s.report
  | .connect blender first cloned wrote => s.connect secret blender first cloned wrote
  | .link act => s.linkStep secret act.val
  | .tick ms => { s with now := s.now + ms }

/-- A lifecycle that starts, and what happens. -/
def run (acts : List Act) : Lifecycle := acts.foldl (step secret) {}

end Lifecycle

end QCBridge
