import QCBridge.ForStd.Dict

/-!
# The agent's configuration

`config.rs`: the fields of `agent.toml`, and `apply_live`, which applies the patch of a
`set_config` command to them. A patch that is no object applies to nothing; of an object, each
key is set, kept for the next start, or rejected.

Whether a text is a socket address is a parameter, `parsesAddr`: the standard library decides it.
-/

namespace QCBridge

namespace Agent

/-- A number, as `serde_json` keeps it. -/
inductive Number where
  | posInt (n : UInt64)
  | negInt (i : Int64)
  | float (x : Float)

/-- A JSON value. -/
inductive Value where
  | null
  | bool (b : Bool)
  | num (n : Number)
  | str (s : String)
  | arr (items : List Value)
  | obj (fields : List (String × Value))

namespace Value

def asBool : Value → Option Bool
  | bool b => some b
  | _ => none

def asU64 : Value → Option UInt64
  | num (.posInt n) => some n
  | _ => none

def asF64 : Value → Option Float
  | num (.posInt n) => some n.toFloat
  | num (.negInt i) => some i.toFloat
  | num (.float x) => some x
  | _ => none

def asStr : Value → Option String
  | str s => some s
  | _ => none

def asArray : Value → Option (List Value)
  | arr items => some items
  | _ => none

/-- An object has each key once. -/
def asObject : Value → Option (Dict String Value)
  | obj fields => some (.ofList fields)
  | _ => none

end Value

/-- `PathMapping`. -/
structure PathMapping where
  win : String
  mac : String
  enabled : Bool
  label : String
deriving DecidableEq, Repr

/-- Where the token is kept; `STORES`, which `load_or_create` checks. -/
inductive TokenStore where
  | keychain
  | file
  | toml
deriving DecidableEq, Repr

/-- The systems that `default_blender_path` knows. -/
inductive Platform where
  | macos
  | windows
  | other
deriving DecidableEq, Repr

def defaultBlenderPath : Platform → String
  | .macos => "/Applications/Blender.app/Contents/MacOS/Blender"
  | .windows => "C:\\Program Files\\Blender Foundation\\Blender 5.2\\blender.exe"
  | .other => "blender"

/-- `Config`. -/
structure Config where
  role : String := "replica"
  /-- In memory only, unless it is kept in the file. -/
  token : String := ""
  tokenStore : TokenStore := .keychain
  listen : String := "0.0.0.0:19990"
  peer : String := "127.0.0.1:19990"
  /-- The pinned certificate; empty, it is learned on first use. -/
  fingerprint : String := ""
  capMbps : Float := 400.0
  localPort : UInt16 := 0
  blenderPath : String
  blenderArgs : List String := []
  kiosk : Bool := true
  replicaResolution : String := "1920x1080"
  replicaBackingScale : Float := 0.0
  idleSecs : UInt64 := 20
  tray : Bool := true
  name : String := ""
  discovery : String := "direct"
  phonebook : String := ""
  pathMappings : List PathMapping := []
  cacheRoot : String := ""
  sharedRoot : String := ""

/-- `Config::default`. -/
def Config.default (p : Platform) : Config := { blenderPath := defaultBlenderPath p }

def Config.isHost (c : Config) : Bool := c.role = "host"

/-! ## Checks of values -/

def discoveryModes : List String := ["off", "direct", "discoverable"]

def roles : List String := ["host", "replica"]

/-- The characters that `trim` takes off. -/
def isWhite (c : Char) : Bool :=
  (9 ≤ c.toNat && c.toNat ≤ 13) || c.toNat = 0x20 || c.toNat = 0x85 || c.toNat = 0xa0 ||
    c.toNat = 0x1680 || (0x2000 ≤ c.toNat && c.toNat ≤ 0x200a) || c.toNat = 0x2028 ||
    c.toNat = 0x2029 || c.toNat = 0x202f || c.toNat = 0x205f || c.toNat = 0x3000

/-- `trim`. -/
def trim (s : List Char) : List Char :=
  ((s.dropWhile isWhite).reverse.dropWhile isWhite).reverse

/-- `to_ascii_lowercase`. -/
def asciiLower (s : List Char) : List Char :=
  s.map fun c => if 'A' ≤ c ∧ c ≤ 'Z' then Char.ofNat (c.toNat + 32) else c

/-- The value of decimal digits. -/
def digits (s : List Char) : Option Nat :=
  if s ≠ [] ∧ s.all (fun c => '0' ≤ c && c ≤ '9') then
    some (s.foldl (fun n c => n * 10 + (c.toNat - 48)) 0)
  else none

/-- `parse::<u32>`. -/
def parseU32 (s : List Char) : Option Nat :=
  (digits (match s with | '+' :: rest => rest | _ => s)).filter (· < UInt32.size)

/-- `split_once('x')`. -/
def splitOnceX (s : List Char) : Option (List Char × List Char) :=
  match s.dropWhile (· ≠ 'x') with
  | _ :: rest => some (s.takeWhile (· ≠ 'x'), rest)
  | [] => none

/-- Whether `parse_resolution` takes the text. -/
def parsesResolution (s : String) : Bool :=
  let s := asciiLower (trim s.toList)
  if s = "fullscreen".toList then true
  else
    match splitOnceX s with
    | none => false
    | some (w, h) =>
      match parseU32 (trim w), parseU32 (trim h) with
      | some w, some h => 320 ≤ w && w ≤ 7680 && 200 ≤ h && h ≤ 4320
      | _, _ => false

/-- A row of `parse_mappings`. -/
def parseMapping (r : Value) : Option PathMapping := do
  let o ← r.asObject
  let win ← (← o.get? "win").asStr
  let mac ← (← o.get? "mac").asStr
  let enabled ← match o.get? "enabled" with
    | none => some true
    | some v => v.asBool
  let label ← match o.get? "label" with
    | none => some ""
    | some v => v.asStr
  return { win, mac, enabled, label }

/-- `parse_mappings`: the whole table, or nothing. -/
def parseMappings (val : Value) : Option (List PathMapping) := do
  (← val.asArray).mapM parseMapping

/-! ## `apply_live` -/

def liveFields : List String :=
  ["peer", "token", "fingerprint", "name", "discovery", "phonebook", "blender_path",
    "blender_args", "kiosk", "idle_secs", "cap_mbps", "path_mappings", "cache_root",
    "shared_root", "replica_resolution", "replica_backing_scale", "role", "listen"]

def restartFields : List String := ["local_port", "tray"]

/-- `Applied`. -/
structure Applied where
  changed : List String := []
  needsRestart : List String := []
  rejected : List String := []
deriving DecidableEq, Repr

variable (parsesAddr : String → Bool)

/-- What a live field is set to, unless the value is not one for it. -/
def setLive (cfg : Config) (k : String) (val : Value) : Option Config :=
  match k with
  | "peer" => val.asStr.map fun v => { cfg with peer := v }
  | "token" => val.asStr.map fun v => { cfg with token := v }
  | "fingerprint" => val.asStr.map fun v => { cfg with fingerprint := v }
  | "name" => val.asStr.map fun v => { cfg with name := v }
  | "phonebook" => val.asStr.map fun v => { cfg with phonebook := v }
  | "blender_path" => val.asStr.map fun v => { cfg with blenderPath := v }
  | "discovery" => (val.asStr.filter (· ∈ discoveryModes)).map fun m => { cfg with discovery := m }
  | "blender_args" =>
    (val.asArray.bind fun a => a.mapM Value.asStr).map fun a => { cfg with blenderArgs := a }
  | "kiosk" => val.asBool.map fun b => { cfg with kiosk := b }
  | "replica_resolution" =>
    (val.asStr.filter parsesResolution).map fun r =>
      { cfg with replicaResolution := .ofList (asciiLower (trim r.toList)) }
  | "replica_backing_scale" =>
    (val.asF64.filter fun f => f > 0.0 && f ≤ 4.0).map fun f =>
      { cfg with replicaBackingScale := f }
  | "idle_secs" => val.asU64.map fun n => { cfg with idleSecs := n }
  | "cap_mbps" => (val.asF64.filter (· > 0.0)).map fun f => { cfg with capMbps := f }
  | "cache_root" => val.asStr.map fun v => { cfg with cacheRoot := v }
  | "shared_root" => val.asStr.map fun v => { cfg with sharedRoot := v }
  | "role" => (val.asStr.filter (· ∈ roles)).map fun r => { cfg with role := r }
  | "listen" => (val.asStr.filter parsesAddr).map fun l => { cfg with listen := l }
  | "path_mappings" => (parseMappings val).map fun rows => { cfg with pathMappings := rows }
  | _ => none

/-- One turn of the loop of `apply_live`. -/
def applyKey (s : Config × Applied) (e : String × Value) : Config × Applied :=
  let (cfg, out) := s
  if e.1 ∈ restartFields then (cfg, { out with needsRestart := out.needsRestart ++ [e.1] })
  else if e.1 ∉ liveFields then (cfg, { out with rejected := out.rejected ++ [e.1] })
  else
    match setLive parsesAddr cfg e.1 e.2 with
    | some cfg => (cfg, { out with changed := out.changed ++ [e.1] })
    | none => (cfg, { out with rejected := out.rejected ++ [e.1] })

/-- `apply_live`. -/
def applyLive (cfg : Config) (patch : Value) : Config × Applied :=
  match patch.asObject with
  | none => (cfg, {})
  | some obj => obj.entries.foldl (applyKey parsesAddr) (cfg, {})

end Agent

end QCBridge
