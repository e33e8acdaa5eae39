import QCBridge.ForStd.Dict
import QCBridge.ForStd.Hex

/-!
# The hello and its secret

`make_hello` and `check_hello` of `ring1/protocol.py`, and from `ring0/session.py` what the two ends
take for the secret that they compare: with an agent, a derivation of its token; without one, the
token as the user typed it.

SHA-256 is a parameter, `sha256`, and so is what `str` makes of a value that is no string, `repr`.
Where a call raises, the result is `none`.
-/

namespace QCBridge

/-- A value that a message has under a key. -/
inductive PyValue where
  | null
  | bool (b : Bool)
  | int (n : Int)
  | float (x : Float)
  | str (s : String)
  | list (items : List PyValue)
  | dict (fields : List (String × PyValue))

namespace PyValue

/-- `==` with a string. -/
def eqStr (s : String) : PyValue → Bool
  | str t => t = s
  | _ => false

/-- `==` with a number: 2.0 is equal to 2, and so is `True` to 1. -/
def eqInt (n : Int) : PyValue → Bool
  | bool b => (if b then 1 else 0) = n
  | int i => i = n
  | float x => x == Float.ofInt n
  | _ => false

/-- `str`. -/
def text (repr : PyValue → String) : PyValue → String
  | str s => s
  | v => repr v

end PyValue

/-! ## Secrets -/

section

variable (sha256 : List UInt8 → List UInt8)

/-- `sha256(s.encode()).hexdigest()`. -/
def sha256Hex (s : String) : List Char := Hex.encode (sha256 s.toUTF8.toList)

/-- `srt_passphrase`. -/
def srtPassphrase (token : String) : String :=
  if token = "" then "" else .ofList ((sha256Hex sha256 ("qcb-srt:" ++ token)).take 32)

/-- `hello_secret`. -/
def helloSecret (token : String) : String :=
  if token = "" then "" else .ofList (sha256Hex sha256 ("qcb-hello:" ++ token))

/-- `agent_config`, as far as it is about the token. -/
structure AgentConfig where
  helloSecret : Option String := none
  srtPassphrase : Option String := none
  /-- An older agent has it here. -/
  token : Option String := none

/-- What the agent's `live_view` reports of its token. -/
def AgentConfig.ofToken (token : String) : AgentConfig where
  helloSecret := some (QCBridge.helloSecret sha256 token)
  srtPassphrase := some (QCBridge.srtPassphrase sha256 token)

/-- A transport, the zmq one if it is not in agent mode. -/
structure SecretTransport where
  agentMode : Bool := false
  agentConfig : AgentConfig := {}

/-- `_agent_secrets`. -/
def agentSecrets (t : SecretTransport) : Option (String × String) :=
  match t.agentConfig.helloSecret, t.agentConfig.srtPassphrase with
  | some hello, some srt => some (hello, srt)
  | _, _ =>
    let token := t.agentConfig.token.getD ""
    if token = "" then none else some (helloSecret sha256 token, srtPassphrase sha256 token)

/-- `_secrets`. -/
def secrets (prefsToken : String) (t : SecretTransport) (fallbackToken : Option String := none) :
    String × String :=
  match agentSecrets sha256 t with
  | some fromAgent => fromAgent
  | none =>
    -- attached but nothing mirrored: refuse rather than guess
    if t.agentMode then ("", "")
    else
      let token := fallbackToken.getD prefsToken
      (token, srtPassphrase sha256 token)

end

/-! ## The hello -/

/-- `PROTOCOL_VERSION`. -/
def protocolVersion : Int := 2

/-- `HOST_CAPS`. -/
def hostCaps : List String := ["fast_ack", "delta_resync", "cm"]

/-- What `make_hello` is given beside the token. -/
structure HelloArgs where
  epoch : String
  blenderVersion : String
  addonVersion : String := ""
  seq : Int := 0
  seqFast : Int := 0
  mappings : Option (List PyValue) := none
  sharedRoot : Option (List (String × PyValue)) := none
  cm : Option (List (String × PyValue)) := none
  viewer : Option (List (String × PyValue)) := none

/-- `make_hello`. -/
def makeHello (token : String) (a : HelloArgs) : Dict String PyValue :=
  .ofList [
    ("kind", .str "hello"),
    ("caps", .list (hostCaps.map .str)),
    ("token", .str token),
    ("viewer", .dict (a.viewer.getD [])),
    ("cm", .dict (a.cm.getD [])),
    ("mappings", .list (a.mappings.getD [])),
    ("shared_root", .dict (a.sharedRoot.getD [])),
    ("epoch", .str a.epoch),
    ("seq", .int a.seq),
    ("seq_fast", .int a.seqFast),
    ("protocol", .int protocolVersion),
    ("blender", .str a.blenderVersion),
    ("addon", .str a.addonVersion)]

def isAscii (s : String) : Bool := s.toList.all (·.toNat < 128)

/-- `hmac.compare_digest` of two strings: a `TypeError` if one is not ASCII. -/
def compareDigest (a b : String) : Option Bool :=
  if isAscii a && isAscii b then some (a = b) else none

/-- `check_hello`: the verdict, and why not. -/
def checkHello (repr : PyValue → String) (msg : Dict String PyValue) (expectedToken : String) :
    Option (Bool × String) :=
  if !(msg.get? "kind").any (·.eqStr "hello") then some (false, "not a hello")
  else do
    let token := ((msg.get? "token").getD (.str "")).text repr
    if !(← compareDigest token expectedToken) then return (false, "token mismatch")
    let protocol := (msg.get? "protocol").getD .null
    if !protocol.eqInt protocolVersion then
      return (false, "protocol " ++ protocol.text repr ++ " != " ++ toString protocolVersion)
    return (true, "")

end QCBridge
