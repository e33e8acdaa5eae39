import Mathlib.Data.List.Infix
import Mathlib.Logic.Function.Basic

/-!
# The replica's pixel path

`ring0/pixel_path.py`: a thread that spawns the encode helper and the mux with a pipe between them,
takes both down when either has left, and starts over; or, without a helper, spawns ffmpeg alone.
`start` and `stop` are called by Blender's main thread and by the worker of `_start_pixel_path`.

Each action is what a thread does up to its next wait, its next child or the next time it looks at
what another thread writes. Children are numbered as they are spawned. A wait may end early or time
out, so the clock is an argument. Left out are the logs, the environment that `find_encode_helper`
looks at, a platform without screen capture, and a child that another process owns.
-/

namespace QCBridge

/-- The part of `StreamParams` that the helper is told. -/
structure StreamParams where
  bitrateMbps : Nat := 50
  fps : Nat := 30
  /-- `matrix_arg(self.matrix)`. -/
  matrix : Option String := none

/-- `helper_argv`. -/
def StreamParams.helperArgv (p : StreamParams) (helper ringName : String) : List String :=
  [helper, "--shm", ringName, "--fps", toString p.fps, "--bitrate", toString p.bitrateMbps,
    "--gop", toString p.fps] ++ (p.matrix.map fun m => ["--matrix", m]).getD []

/-- The command line without `--matrix` and its value. -/
def stripMatrix (argv : List String) : List String :=
  if "--matrix" ∈ argv then
    let i := argv.idxOf "--matrix"
    argv.take i ++ argv.drop (i + 2)
  else argv

/-- What a child is spawned as: the helper, or the process in `_proc`. -/
inductive ChildKind where
  | helper
  | mux
deriving DecidableEq, Repr

/-- A child process. -/
structure Child where
  kind : ChildKind
  argv : List String
  /-- How it exited. -/
  exit : Option Int := none
  /-- `returncode`: how it had exited when Python looked last. -/
  returncode : Option Int := none
  killed : Bool := false
deriving DecidableEq, Repr

/-- Neither exited nor killed. -/
def Child.alive (c : Child) : Bool := c.exit.isNone && !c.killed

/-- `_status`. -/
inductive PixelStatus where
  | off
  | starting
  | helperNotFound
  | waitingForRing
  | encoderFailed (exc : String)
  | ffmpegFailed (exc : String)
  | readback
  | viewerConnected
  | streaming
  | outdated
  | ended (mux encoder : Option Int)
  | ffmpegExited (code : Option Int)
deriving DecidableEq, Repr

/-- A number or `None` in a text. -/
def codeText (code : Option Int) : String := (code.map toString).getD "None"

/-- What the panel shows. -/
def PixelStatus.text : PixelStatus → String
  | .off => "off"
  | .starting => "starting"
  | .helperNotFound => "encoder helper not found — screen capture fallback"
  | .waitingForRing => "waiting for the frame ring"
  | .encoderFailed exc => "encoder spawn failed: " ++ exc
  | .ffmpegFailed exc => "ffmpeg spawn failed: " ++ exc
  | .readback => "streaming (readback)"
  | .viewerConnected => "streaming (readback) · viewer connected"
  | .streaming => "streaming"
  | .outdated => "encoder helper outdated — rebuild (wire assumes Linear Rec.709)"
  | .ended mux encoder =>
    "stream ended (mux " ++ codeText mux ++ ", encoder " ++ codeText encoder ++ ") — restarting"
  | .ffmpegExited code => "ffmpeg exited (" ++ codeText code ++ ") — restarting"

/-- What a supervisor thread was started for. -/
inductive PixelWork where
  /-- `_supervise_native`, with what `cap_cmd_fn` knows and `mux_cmd`. -/
  | readback (helper : String) (params : StreamParams) (muxCmd : List String)
  /-- `_supervise`. -/
  | screen (cmd : List String)

/-- Where a supervisor thread is. -/
inductive SupervisorPhase where
  /-- At `while not _stop.is_set()`. -/
  | checking
  /-- At the `_stop.wait` of a backoff. -/
  | pausing
  /-- At `cap_cmd_fn()`. -/
  | building
  /-- At `Popen` of the helper, and with the new child at `_cap_proc =`. -/
  | spawningHelper
  | bornHelper (pid : Nat)
  /-- At `Popen` of the mux, or of ffmpeg alone, and with the new child at `_proc =`. -/
  | spawningMux
  | bornMux (pid : Nat)
  /-- In the `except OSError` of `_supervise_native`. -/
  | failed
  /-- At the loop that watches both children, or at `_proc.wait()`. -/
  | watching
  /-- In `_proc.wait()`. -/
  | waitingFor (pid : Nat)
  /-- At `mux_exited_first =`. -/
  | left
  /-- In the loop over both children, at `poll`. -/
  | reaping (pids : List Nat)
  /-- At `child.wait(timeout=2.0)`. -/
  | awaiting (pid : Nat) (pids : List Nat)
  /-- Past the children. -/
  | ended
  | done
  /-- `_proc` or `_cap_proc` was `None`. -/
  | crashed
deriving DecidableEq, Repr

/-- A supervisor thread. -/
structure Supervisor where
  work : PixelWork
  phase : SupervisorPhase := .checking
  capCmd : List String := []
  /-- `outdated["strip_matrix"]`. -/
  outdated : Bool := false
  muxExitedFirst : Bool := false

/-- The thread runs. -/
def Supervisor.live (t : Supervisor) : Bool := t.phase ≠ .done && t.phase ≠ .crashed

/-- The threads that call `start` and `stop`. -/
inductive Caller where
  | main
  | worker
deriving DecidableEq, Repr

/-- Where a caller of `stop` is. -/
inductive CallPhase where
  | idle
  /-- `_stop` is set. -/
  | stopping
  /-- In the loop over the children, at `poll`. -/
  | killing (pids : List Nat)
  /-- At `child.wait(timeout=3.0)`. -/
  | awaiting (pid : Nat) (pids : List Nat)
  /-- At `_thread.join(timeout=5.0)`. -/
  | joining (thread : Nat)
  /-- At `_proc = None`. -/
  | forgetting
deriving DecidableEq, Repr

/-- What a step of the supervisor meets outside. -/
structure Chance where
  /-- Why `Popen` raises, if it does. -/
  fails : Option String := none
  /-- A wait times out. -/
  timesOut : Bool := false
  /-- The children have lived for less than a second, and for more than five. -/
  quick : Bool := false
  late : Bool := false
deriving DecidableEq, Repr

/-- Where the pixels come from. -/
inductive PixelSource where
  | readback
  | screen
deriving DecidableEq, Repr

/-- What `start` is called with. -/
structure PixelStart where
  source : PixelSource
  /-- What `find_encode_helper` finds. -/
  helper : Option String
  params : StreamParams := {}
  /-- `build_mux`, and `build_command` of the fallback. -/
  muxCmd : List String := []
  screenCmd : List String := []
  ringName : Option String := none

/-- The module's state, its threads and their children. -/
structure PixelPath where
  children : List Child := []
  proc : Option Nat := none
  capProc : Option Nat := none
  thread : Option Nat := none
  supervisors : List Supervisor := []
  stop : Bool := false
  status : PixelStatus := .off
  ringName : Option String := none
  source : PixelSource := .readback
  calls : Caller → CallPhase := fun _ => .idle

namespace PixelPath

variable (s : PixelPath)

/-! ## Children -/

/-- `child.poll() is None`. -/
def runs (pid : Nat) : Bool := (s.children[pid]?).any (·.exit.isNone)

/-- What is done to a child by number. -/
def onChild (pid : Nat) (f : Child → Child) : PixelPath :=
  { s with children := s.children.modify pid f }

/-- `poll`, as far as the child remembers it. -/
def poll (pid : Nat) : PixelPath := s.onChild pid fun c => { c with returncode := c.exit }

/-- `kill`. -/
def kill (pid : Nat) : PixelPath := s.onChild pid fun c => { c with killed := true }

/-- `returncode`. -/
def codeOf (pid : Nat) : Option Int := (s.children[pid]?).bind Child.returncode

/-- `Popen`. -/
def spawn (kind : ChildKind) (argv : List String) : PixelPath :=
  { s with children := s.children ++ [⟨kind, argv, none, none, false⟩] }

/-! ## The supervisor -/

/-- The stream calls the host's viewer. -/
def calling (muxCmd : List String) : Bool :=
  "mode=caller".toList <:+: (" ".intercalate muxCmd).toList

/-- A step of `_supervise_native` or of `_supervise`: what it leaves of the module and of the
    thread. -/
def turn (t : Supervisor) (c : Chance) : PixelPath × Supervisor :=
  match t.phase with
  | .checking =>
    if s.stop then ({ s with status := .off }, { t with phase := .done })
    else
      match t.work with
      | .readback .. => (s, { t with phase := .building })
      | .screen _ => (s, { t with phase := .spawningMux })
  | .pausing => (s, { t with phase := .checking })
  | .building =>
    match t.work, s.ringName with
    | .readback helper params _, some name =>
      if name = "" then ({ s with status := .waitingForRing }, { t with phase := .pausing })
      else
        let argv := params.helperArgv helper name
        (s, { t with
          capCmd := if t.outdated then stripMatrix argv else argv
          phase := .spawningHelper })
    | _, _ => ({ s with status := .waitingForRing }, { t with phase := .pausing })
  | .spawningHelper =>
    match c.fails with
    | none => (s.spawn .helper t.capCmd, { t with phase := .bornHelper s.children.length })
    | some exc => ({ s with status := .encoderFailed exc }, { t with phase := .failed })
  | .bornHelper pid => ({ s with capProc := some pid }, { t with phase := .spawningMux })
  | .spawningMux =>
    match t.work, c.fails with
    | .readback _ _ cmd, none =>
      (s.spawn .mux cmd, { t with phase := .bornMux s.children.length })
    | .screen cmd, none => (s.spawn .mux cmd, { t with phase := .bornMux s.children.length })
    | .readback .., some exc =>
      ({ s with status := .encoderFailed exc }, { t with phase := .failed })
    | .screen _, some exc => ({ s with status := .ffmpegFailed exc }, { t with phase := .done })
  | .bornMux pid =>
    let status := match t.work with
      | .readback .. => .readback
      | .screen _ => .streaming
    ({ s with proc := some pid, status := status }, { t with phase := .watching })
  | .failed =>
    match s.capProc with
    | some pid => (if s.runs pid then s.kill pid else s.poll pid, { t with phase := .done })
    | none => (s, { t with phase := .done })
  | .watching =>
    match t.work, s.proc with
    | .readback _ _ cmd, proc =>
      if s.stop then (s, { t with phase := .left })
      else
        match proc, s.capProc with
        | some mux, some helper =>
          if s.runs mux && s.runs helper then
            if calling cmd && s.status = .readback && c.late then
              ({ s with status := .viewerConnected }, t)
            else (s, t)
          else ((s.poll mux).poll helper, { t with phase := .left })
        | _, _ => (s, { t with phase := .crashed })
    | .screen _, some pid => (s, { t with phase := .waitingFor pid })
    | .screen _, none => (s, { t with phase := .crashed })
  | .waitingFor pid => if s.runs pid then (s, t) else (s.poll pid, { t with phase := .ended })
  | .left =>
    match s.proc, s.capProc with
    | some mux, some helper =>
      ((s.poll mux).poll helper, { t with
        muxExitedFirst := !s.runs mux && s.runs helper
        phase := .reaping [mux, helper] })
    | _, _ => (s, { t with phase := .crashed })
  | .reaping [] => (s, { t with phase := .ended })
  | .reaping (pid :: pids) =>
    -- a child that runs is sent SIGTERM, which it may ignore
    if s.runs pid then (s, { t with phase := .awaiting pid pids })
    else (s.poll pid, { t with phase := .reaping pids })
  | .awaiting pid pids =>
    if s.runs pid then
      if c.timesOut then (s.kill pid, { t with phase := .reaping pids }) else (s, t)
    else (s.poll pid, { t with phase := .reaping pids })
  | .ended =>
    if s.stop then ({ s with status := .off }, { t with phase := .done })
    else
      match t.work, s.proc with
      | .readback .., proc =>
        match proc, s.capProc with
        | some mux, some helper =>
          -- an old helper exits 2 at once on a flag it does not know
          if s.codeOf helper = some 2 ∧ c.quick ∧ "--matrix" ∈ t.capCmd ∧ ¬ t.outdated then
            ({ s with status := .outdated }, { t with outdated := true, phase := .checking })
          else
            let died := (s.codeOf helper).any fun code => code ≠ 0 && code ≠ 7 && code ≠ 8
            ({ s with status := .ended (s.codeOf mux) (s.codeOf helper) },
              { t with phase := if died && !t.muxExitedFirst then .pausing else .checking })
        | _, _ => (s, { t with phase := .crashed })
      | .screen _, some pid => ({ s with status := .ffmpegExited (s.codeOf pid) },
          { t with phase := .pausing })
      | .screen _, none => (s, { t with phase := .crashed })
  | .done => (s, t)
  | .crashed => (s, t)

/-- A supervisor thread goes on. -/
def supervise (i : Nat) (c : Chance) : PixelPath :=
  match s.supervisors[i]? with
  | some t =>
    let r := s.turn t c
    { r.1 with supervisors := s.supervisors.set i r.2 }
  | none => s

/-! ## The calls -/

/-- Where a caller is next. -/
def setCall (who : Caller) (phase : CallPhase) : PixelPath :=
  { s with calls := Function.update s.calls who phase }

/-- `stop` is called. -/
def callStop (who : Caller) : PixelPath :=
  if s.calls who = .idle then { s with stop := true }.setCall who .stopping else s

/-- A thread has returned. -/
def joined (i : Nat) : Bool := (s.supervisors[i]?).all (!·.live)

/-- `stop` goes on. -/
def goOn (who : Caller) (timesOut : Bool) : PixelPath :=
  match s.calls who with
  | .idle => s
  | .stopping => s.setCall who (.killing (s.proc.toList ++ s.capProc.toList))
  -- every process was asked to end: now the thread is waited for
  | .killing [] =>
    match s.thread with
    | some i => s.setCall who (.joining i)
    | none => s.setCall who .forgetting
  -- `poll` first, then `kill`
  | .killing (pid :: pids) =>
    if s.runs pid then s.setCall who (.awaiting pid pids)
    else (s.poll pid).setCall who (.killing pids)
  -- `wait` with a timeout, and `kill` when it runs out
  | .awaiting pid pids =>
    if s.runs pid then if timesOut then (s.kill pid).setCall who (.killing pids) else s
    else (s.poll pid).setCall who (.killing pids)
  | .joining i => if s.joined i then { s with thread := none }.setCall who .forgetting else s
  | .forgetting => { s with proc := none, capProc := none }.setCall who .idle

/-- `_thread.join` times out. -/
def joinTimesOut (who : Caller) : PixelPath :=
  match s.calls who with
  | .joining _ => { s with thread := none }.setCall who .forgetting
  | _ => s

/-- `start`. -/
def start (a : PixelStart) : PixelPath :=
  -- a thread is there already
  if s.thread.isSome then s
  else
    let s := { s with
      stop := false
      ringName := a.ringName
      thread := some s.supervisors.length }
    match a.source, a.helper with
    | .readback, some helper =>
      { s with
        status := .starting
        source := .readback
        supervisors := s.supervisors ++ [{ work := .readback helper a.params a.muxCmd }] }
    -- no helper for the readback: the screen is captured
    | source, _ =>
      { s with
        status := if source = .readback then .helperNotFound else .starting
        source := .screen
        supervisors := s.supervisors ++ [{ work := .screen a.screenCmd }] }

/-- `restart_ring`: the helper is told to quit, which it does or does not. -/
def restartRing (name : String) : PixelPath := { s with ringName := some name }

/-! ## Runs -/

/-- What may happen next. -/
inductive Act where
  | supervise (i : Nat) (c : Chance)
  | callStop (who : Caller)
  | goOn (who : Caller) (timesOut : Bool)
  | joinTimesOut (who : Caller)
  | start (who : Caller) (a : PixelStart)
  | restartRing (name : String)
  /-- A child exits. -/
  | exit (pid : Nat) (code : Int)
  /-- `_kill_if_stuck`, after ffmpeg wrote of a fatal error. -/
  | killStuck (pid : Nat)

/-- One action. -/
def step : Act → PixelPath
  | .supervise i c => s.supervise i c
  | .callStop who => s.callStop who
  | .goOn who timesOut => s.goOn who timesOut
  | .joinTimesOut who => s.joinTimesOut who
  | .start who a => if s.calls who = .idle then s.start a else s
  | .restartRing name => s.restartRing name
  | .exit pid code =>
    s.onChild pid fun c => if c.exit.isNone then { c with exit := some code } else c
  | .killStuck pid => s.kill pid

/-- Actions one after the other, from a module that was just imported. -/
def run (acts : List Act) : PixelPath := acts.foldl step {}

end PixelPath

end QCBridge
