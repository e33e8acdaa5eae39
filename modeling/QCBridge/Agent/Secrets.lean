import QCBridge.Agent.Config

/-!
# The token and its places

`secrets.rs`, and `load_or_create`, `load_token` and `save` of `config.rs`. The token is held in
memory; `agent.toml` does not have it, unless its store is the file itself; and the credential
store has an entry for each role. Whether a store or the file system takes what is written to it
is an answer from outside.
-/

namespace QCBridge

namespace Agent

/-- `agent.toml`. -/
inductive TomlFile where
  | absent
  /-- Text that is no configuration. -/
  | broken
  | config (c : Config)

/-- What outlasts the agent: its directory, and its entries in the credential store. -/
structure Disk where
  file : TomlFile
  /-- By role; the directory is the agent's own. -/
  entries : Dict String String

/-- What comes of a write to `agent.toml`. -/
inductive Save where
  | written
  | refused
  /-- The file was opened and not written to its end. -/
  | torn
deriving DecidableEq, Repr

/-- `trim_end_matches(['\r', '\n'])`. -/
def trimLines (s : String) : String :=
  .ofList (s.toList.reverse.dropWhile fun c => c = '\r' || c = '\n').reverse

namespace Disk

/-- `secrets::load`; `none` if the store does not answer. -/
def load (d : Disk) (store : TokenStore) (role : String) (reads : Bool) :
    Option (Option String) :=
  match store with
  | .keychain => if reads then some (d.entries.get? role) else none
  | .file => if reads then some ((d.entries.get? role).map trimLines) else none
  | .toml => some none

/-- `secrets::store`, and whether the store takes it. -/
def store (d : Disk) (store : TokenStore) (role token : String) (takes : Bool) : Disk × Bool :=
  match store with
  | .toml => (d, true)
  | _ =>
    if takes then
      -- an empty token removes the entry
      ({ d with
        entries := if token = "" then d.entries.erase role else d.entries.insert role token },
        true)
    else (d, false)

/-- `save`. -/
def save (d : Disk) (cfg : Config) : Save → Disk × Bool
  | .written =>
    ({ d with
      file := .config (if cfg.tokenStore = .toml then cfg else { cfg with token := "" }) }, true)
  | .refused => (d, false)
  | .torn => ({ d with file := .broken }, false)

/-- `load_or_create`; `none` if the agent cannot start. -/
def loadOrCreate (d : Disk) (p : Platform) (created : Save) : Disk × Option Config :=
  match d.file with
  | .absent =>
    match d.save (.default p) created with
    | (d, true) => (d, some (.default p))
    | (d, false) => (d, none)
  | .broken => (d, none)
  | .config c => (d, some c)

/-- `load_token`; `none` if the agent cannot start. -/
def loadToken (d : Disk) (cfg : Config) (reads takes : Bool) (moved : Save) :
    Disk × Option Config :=
  if cfg.tokenStore = .toml then (d, some cfg)
  else
    let inToml := cfg.token
    match d.load cfg.tokenStore cfg.role reads with
    | none => (d, none)
    | some (some stored) =>
      let cfg := { cfg with token := stored }
      if inToml ≠ "" then
        -- the store wins; the copy in the file goes
        match d.save cfg moved with
        | (d, true) => (d, some cfg)
        | (d, false) => (d, none)
      else (d, some cfg)
    | some none =>
      if inToml ≠ "" then
        match d.store cfg.tokenStore cfg.role inToml takes with
        | (d, true) =>
          match d.save cfg moved with
          | (d, true) => (d, some cfg)
          | (d, false) => (d, none)
        -- kept where it was
        | (d, false) => (d, some { cfg with tokenStore := .toml })
      else (d, some cfg)

end Disk

end Agent

end QCBridge
