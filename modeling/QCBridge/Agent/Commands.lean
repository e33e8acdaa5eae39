import QCBridge.ForStd.Hex
import QCBridge.Agent.HostLoop
import QCBridge.Agent.Secrets

/-!
# The agent and its commands

`main.rs`: `start_role`, `stop_role` and `switch_role`, the commands that touch the
configuration, the start of the agent, and `HostObserver::peer_up`. Commands come one after the
other. A connection is under way beside them: it begins with the target that there is then, and
its callback comes whenever it comes.

Left out are the texts for the log, the tray and the listeners, the beacon, and what a role does
while it runs.
-/

namespace QCBridge

namespace Agent

/-- `to_lowercase().replace(':', "")`, then `hex::decode`: lower case does not matter to it. -/
def decodePin (fp : String) : Option (List UInt8) := Hex.decode (fp.toList.filter (· ≠ ':'))

/-- A SHA-256 hash. -/
abbrev Hash := { bytes : List UInt8 // bytes.length = 32 }

/-- `hex::encode`. -/
def encodePin (hash : Hash) : String := .ofList (Hex.encode hash.val)

/-- `RoleRuntime`, when there is one. -/
structure RoleRuntime where
  role : String
  /-- The address of a replica's listener. -/
  listen : Option String
deriving DecidableEq, Repr

/-- `Agent`, with what it leaves on the disk. -/
structure Running where
  cfg : Config
  disk : Disk
  runtime : Option RoleRuntime := none
  /-- The roles under which `agent.json` has this agent's socket. -/
  registered : List String := []
  /-- `host_control.target`. -/
  target : Option HostTarget := none
  /-- The target that `host_loop` is connecting to. -/
  dialling : Option HostTarget := none

/-- What a start of a role meets outside. -/
structure StartAnswers where
  /-- `session::listen`: the certificate is there, and the address can be bound. -/
  listens : Bool := true
  /-- `write_socket_info`. -/
  registers : Bool := true
deriving DecidableEq, Repr

namespace Running

variable (parsesAddr : String → Bool)

/-- The end of `start_role`. -/
def register (a : Running) (listen : Option String) (ans : StartAnswers) :
    Running × Option RoleRuntime :=
  if ans.registers then
    ({ a with registered := a.cfg.role :: a.registered.filter (· ≠ a.cfg.role) },
      some ⟨a.cfg.role, listen⟩)
  else (a, none)

/-- `start_role`. -/
def startRole (a : Running) (ans : StartAnswers) : Running × Option RoleRuntime :=
  if a.cfg.isHost then
    if a.cfg.peer = "" then a.register none ans
    -- "config fingerprint must be hex"
    else if a.cfg.fingerprint ≠ "" ∧ decodePin a.cfg.fingerprint = none then (a, none)
    else
      { a with
        target := some {
          addr := a.cfg.peer
          fingerprint := if a.cfg.fingerprint = "" then none else decodePin a.cfg.fingerprint
          mtu := defaultMtu } }.register none ans
  -- "listen must be IP:PORT"
  else if parsesAddr a.cfg.listen = false then (a, none)
  else if ans.listens = false then (a, none)
  else a.register (some a.cfg.listen) ans

/-- `stop_role`. -/
def stopRole (a : Running) (oldRole : String) : Running :=
  { a with
    runtime := none
    target := none
    registered := a.registered.filter (· ≠ oldRole) }

/-- What a switch meets outside. -/
structure SwitchAnswers where
  first : StartAnswers := {}
  savesBack : Save := .written
  second : StartAnswers := {}
deriving DecidableEq, Repr

/-- `switch_role`. -/
def switchRole (a : Running) (oldRole : String) (ans : SwitchAnswers) : Running :=
  let a := a.stopRole oldRole
  match a.startRole parsesAddr ans.first with
  | (a, some rt) => { a with runtime := some rt }
  | (a, none) =>
    -- "staying" with the old role
    let cfg := { a.cfg with role := oldRole }
    let a := { a with cfg, disk := (a.disk.save cfg ans.savesBack).1 }
    match a.startRole parsesAddr ans.second with
    | (a, some rt) => { a with runtime := some rt }
    | (a, none) => a

/-- `retarget`. -/
def retarget (a : Running) (addr fp : String) : Running :=
  -- the agent's own pin wins
  let fp := if a.cfg.fingerprint ≠ "" then a.cfg.fingerprint else fp
  let target : HostTarget :=
    { addr, fingerprint := if fp = "" then none else decodePin fp, mtu := defaultMtu }
  if a.target = some target then a else { a with target := some target }

/-- `old_role`, where the role is among the fields that changed and where it is not. -/
def oldRole (cfg : Config) (roleChanged : Bool) : String :=
  if roleChanged then if cfg.role = "host" then "replica" else "host" else cfg.role

/-- The `old_role` with which `set_config` calls `switch_role`, if it does. -/
def switchesFrom (cfg : Config) (changed : List String) : Option String :=
  if "role" ∈ changed ∨ "listen" ∈ changed ∧ cfg.isHost = false then
    some (oldRole cfg ("role" ∈ changed))
  else none

/-- What a `set_config` meets outside. -/
structure SetAnswers where
  saves : Save := .written
  takesToken : Bool := true
  switch : SwitchAnswers := {}
deriving DecidableEq, Repr

/-- `set_config`, up to the switch. -/
def setFields (a : Running) (cfg : Config) (changed : List String) (ans : SetAnswers) :
    Running :=
  let a := { a with cfg, disk := (a.disk.save cfg ans.saves).1 }
  let a :=
    -- its home is the store
    if "token" ∈ changed then
      { a with disk := (a.disk.store cfg.tokenStore cfg.role cfg.token ans.takesToken).1 }
    else a
  if "peer" ∈ changed ∧ cfg.isHost then a.retarget cfg.peer cfg.fingerprint else a

/-- `set_config`. -/
def setConfig (a : Running) (patch : Value) (ans : SetAnswers) : Running :=
  let (cfg, applied) := applyLive parsesAddr a.cfg patch
  if applied.changed = [] then { a with cfg }
  else
    let a := a.setFields cfg applied.changed ans
    match switchesFrom cfg applied.changed with
    | some oldRole => a.switchRole parsesAddr oldRole ans.switch
    | none => a

/-- `connect`. -/
def connect (a : Running) (peer fingerprint : String) : Running :=
  if a.cfg.isHost ∧ peer ≠ "" then a.retarget peer fingerprint else a

/-- `disconnect`. -/
def disconnect (a : Running) : Running :=
  if a.cfg.isHost then { a with target := none } else a

/-- `forget_fingerprint`. -/
def forgetFingerprint (a : Running) (saves : Save) : Running :=
  if a.cfg.isHost then
    let cfg := { a.cfg with fingerprint := "" }
    { a with cfg, disk := (a.disk.save cfg saves).1 }
  else a

/-! ## Connections -/

/-- `host_loop` takes the target that there is. -/
def dial (a : Running) : Running := { a with dialling := a.target }

/-- The connection is given up: another target takes its place, or the role ends. A task that is
    aborted goes on until it waits. -/
def giveUp (a : Running) : Running := { a with dialling := none }

/-- `verify_server_cert`, of the connection that is under way. -/
def accepts (t : HostTarget) (hash : Hash) : Bool :=
  match t.fingerprint with
  | some expected => expected = hash.val
  | none => true

/-- `peer_up`, with the certificate that the connection has seen. -/
def peerUp (a : Running) (fp : String) (saves : Save) : Running :=
  if a.cfg.fingerprint ≠ "" then a
  else
    let cfg := { a.cfg with fingerprint := fp }
    { a with
      cfg
      disk := (a.disk.save cfg saves).1
      -- "enforce from now on, no reconnect"
      target := a.target.map fun t => { t with fingerprint := Hex.decode fp.toList } }

/-- The certificate of the peer comes: it is refused, or the connection succeeds. -/
def answered (a : Running) (hash : Hash) (saves : Save) : Running :=
  match a.dialling with
  | none => a
  | some t => if accepts t hash then a.giveUp.peerUp (encodePin hash) saves else a.giveUp

/-- What may happen to an agent that runs. -/
inductive Act where
  | setConfig (patch : Value) (ans : SetAnswers)
  | connect (peer fingerprint : String)
  | disconnect
  | forgetFingerprint (saves : Save)
  | dial
  | giveUp
  | answered (hash : Hash) (saves : Save)

def step (a : Running) : Act → Running
  | .setConfig patch ans => a.setConfig parsesAddr patch ans
  | .connect peer fingerprint => a.connect peer fingerprint
  | .disconnect => a.disconnect
  | .forgetFingerprint saves => a.forgetFingerprint saves
  | .dial => a.dial
  | .giveUp => a.giveUp
  | .answered hash saves => a.answered hash saves

/-! ## The start of the agent -/

/-- What a start of the agent meets outside. -/
structure BootAnswers where
  creates : Save := .written
  reads : Bool := true
  takes : Bool := true
  moves : Save := .written
  start : StartAnswers := {}
deriving DecidableEq, Repr

/-- `load_or_create`, then `load_token`. -/
def loadConfig (p : Platform) (d : Disk) (ans : BootAnswers) : Disk × Option Config :=
  match d.loadOrCreate p ans.creates with
  | (d, some cfg) => d.loadToken cfg ans.reads ans.takes ans.moves
  | (d, none) => (d, none)

/-- The agent starts, or does not; no argument of its command line is taken for a setting. -/
def boot (p : Platform) (d : Disk) (ans : BootAnswers) : Disk × Option Running :=
  match loadConfig p d ans with
  | (d, none) => (d, none)
  | (d, some cfg) =>
    match startRole parsesAddr { cfg, disk := d } ans.start with
    | (a, some rt) => (a.disk, some { a with runtime := some rt })
    | (a, none) => (a.disk, none)

end Running

/-- The machine: the agent runs, or only its disk is there. -/
inductive Machine where
  | down (d : Disk)
  | up (a : Running)

/-- What happens to the token. -/
inductive TokenAct where
  /-- `set_config`; the store takes every token. -/
  | setConfig (patch : Value) (saves : Save) (switch : Running.SwitchAnswers)
  /-- The agent ends, if it runs, and starts again. -/
  | restart (creates moves : Save) (reads : Bool) (start : StartAnswers)

namespace Machine

variable (parsesAddr : String → Bool) (p : Platform)

def disk : Machine → Disk
  | down d => d
  | up a => a.disk

/-- What comes of a start. -/
def started : Disk × Option Running → Machine
  | (_, some a) => up a
  | (d, none) => down d

def step (m : Machine) : TokenAct → Machine
  | .setConfig patch saves switch =>
    match m with
    | down d => down d
    | up a => up (a.setConfig parsesAddr patch { saves, switch })
  | .restart creates moves reads start =>
    started (Running.boot parsesAddr p m.disk { creates, moves, reads, start })

end Machine

end Agent

end QCBridge
