import QCBridge.ForStd.Dict
import Mathlib.Logic.Function.Basic

/-!
# agent.json

`write_socket_info` and `remove_socket_info` of `config.rs`: where the addon finds the socket of
the agent of its role. The host's agent and the replica's share the file and no lock. Each
action is one access of one agent to the file: a read, the truncation that a write begins with,
the write itself, or the removal. `serde_json` reads what it printed.
-/

namespace QCBridge

/-- The roles that may stand in the file. -/
inductive SocketRole where
  | host
  | replica
deriving DecidableEq, Repr

namespace SocketRole

/-- The role's key in the file. -/
def key : SocketRole → String
  | host => "host"
  | replica => "replica"

def other : SocketRole → SocketRole
  | host => replica
  | replica => host

end SocketRole

/-- What an agent registers. -/
structure SocketEntry where
  port : Nat
  secret : String
  pid : Nat
deriving DecidableEq, Repr

/-- A value in the file. -/
inductive SocketValue where
  | entry (e : SocketEntry)
  /-- Any other object. -/
  | object (text : String)
  /-- Anything that is not an object. -/
  | plain (text : String)
deriving DecidableEq, Repr

def SocketValue.isObject : SocketValue → Bool
  | entry _ => true
  | object _ => true
  | plain _ => false

/-- `agent.json`. -/
inductive SocketFile where
  | absent
  /-- Between the truncation and the write. -/
  | torn
  /-- Text that is no JSON object. -/
  | garbage (text : String)
  | doc (d : Dict String SocketValue)

namespace SocketFile

/-- What is in the file. -/
def values : SocketFile → Dict String SocketValue
  | doc d => d
  | _ => .empty

/-- "Only role keys survive". -/
def roles (f : SocketFile) : Dict String SocketValue :=
  f.values.filter fun k v => (k = "host" || k = "replica") && v.isObject

/-- The entry of a role. -/
def get? (f : SocketFile) (r : SocketRole) : Option SocketValue := f.values.get? r.key

end SocketFile

/-- What an agent wants of the file. -/
inductive SocketCall where
  /-- `write_socket_info`. -/
  | register (mine : SocketEntry)
  /-- `remove_socket_info`. -/
  | remove
deriving DecidableEq, Repr

/-- What the file says of an agent whose call has returned. -/
def SocketCall.wanted : SocketCall → Option SocketValue
  | register mine => some (.entry mine)
  | remove => none

/-- Where an agent is in its call. -/
inductive SocketPhase where
  /-- At `read_to_string`. -/
  | reading
  /-- At `fs::write`, with the document. -/
  | truncating (d : Dict String SocketValue)
  /-- In `fs::write`. -/
  | filling (d : Dict String SocketValue)
  /-- At `remove_file`. -/
  | unlinking
  /-- After the sleep, at the second `read_to_string`. -/
  | checking
  | returned (ok : Bool)

/-- An agent in its call. -/
structure Registrar where
  call : SocketCall
  phase : SocketPhase := .reading
  attempt : Nat := 0

namespace Registrar

/-- What an agent that registers reads, with its own entry in it. -/
def withMine (f : SocketFile) (r : SocketRole) (mine : SocketEntry) : Dict String SocketValue :=
  f.roles.insert r.key (.entry mine)

/-- What `remove_socket_info` does with what it reads. -/
def removing (f : SocketFile) (r : SocketRole) : SocketPhase :=
  match f with
  | .doc d =>
    if (d.erase r.key).entries.isEmpty then .unlinking else .truncating (d.erase r.key)
  -- nothing that it could read
  | _ => .returned true

/-- Whether the agent's own entry is what is on disk; it tries five times. -/
def checked (a : Registrar) (f : SocketFile) (r : SocketRole) (mine : SocketEntry) : Registrar :=
  if f.get? r = some (.entry mine) then { a with phase := .returned true }
  else if a.attempt + 1 < 5 then { a with phase := .reading, attempt := a.attempt + 1 }
  else { a with phase := .returned false }

/-- The next access of an agent to the file. -/
def next (f : SocketFile) (r : SocketRole) (a : Registrar) : SocketFile × Registrar :=
  match a.phase, a.call with
  | .reading, .register mine => (f, { a with phase := .truncating (withMine f r mine) })
  | .reading, .remove => (f, { a with phase := removing f r })
  | .truncating d, _ => (.torn, { a with phase := .filling d })
  | .filling d, .register _ => (.doc d, { a with phase := .checking })
  | .filling d, .remove => (.doc d, { a with phase := .returned true })
  | .unlinking, _ => (.absent, { a with phase := .returned true })
  | .checking, .register mine => (f, a.checked f r mine)
  | .checking, .remove => (f, a)
  | .returned _, _ => (f, a)

end Registrar

/-- A directory with its two agents. -/
structure SocketDir where
  file : SocketFile
  agents : SocketRole → Registrar

namespace SocketDir

/-- The agent of a role goes on. -/
def step (s : SocketDir) (r : SocketRole) : SocketDir where
  file := (Registrar.next s.file r (s.agents r)).1
  agents := Function.update s.agents r (Registrar.next s.file r (s.agents r)).2

/-- Both agents begin their calls. -/
def start (file : SocketFile) (calls : SocketRole → SocketCall) : SocketDir where
  file := file
  agents r := { call := calls r }

/-- The agents go on in some order. -/
def run (file : SocketFile) (calls : SocketRole → SocketCall) (acts : List SocketRole) :
    SocketDir := acts.foldl step (start file calls)

end SocketDir

end QCBridge
