import QCBridge.Agent.Config

/-!
# The phonebook

`discovery.rs`, from `entry_name` on: agents that share a folder, each with a file of its own in it.
A beacon is written to a temporary file and renamed to the entry; an agent that goes removes its
entry; and a reader goes through the entries.

What the file system does is a list of acts on the folder, for the acts of several agents come in
between each other. Parameters are `alphanumeric`, a table of Unicode, and the text of a beacon,
`toText` and `fromText`, with what no reader takes for a beacon among the texts.
-/

namespace QCBridge

namespace Agent

/-- `Beacon`. -/
structure Beacon where
  t : String
  n : String
  role : String
  ip : String
  port : UInt16
  fp : String
  v : String
  paired : Bool
  ts : Nat
deriving DecidableEq, Repr

/-- `SelfId`. -/
structure SelfId where
  fp : String := ""
  name : String := ""
  role : String := ""

/-- `is_me`. -/
def SelfId.isMe (me : SelfId) (b : Beacon) : Bool :=
  if me.fp ≠ "" ∨ b.fp ≠ "" then me.fp ≠ "" ∧ me.fp = b.fp
  else me.name = b.n ∧ me.role = b.role

/-- `PHONEBOOK_STALE`, in milliseconds. -/
def phonebookStale : Nat := 60000

/-- What `display_name` gives is not empty. -/
abbrev DisplayName := { name : String // name ≠ "" }

/-! ## Files -/

abbrev FileName := List Char

/-- Where a file name is cut into its stem and its extension: at the last dot, unless that is its
    first character. -/
def splitExtension (file : FileName) : FileName × Option FileName :=
  let after := (file.reverse.takeWhile (· ≠ '.')).reverse
  match file.reverse.dropWhile (· ≠ '.') with
  | [] => (file, none)
  | _ :: before => if before = [] then (file, none) else (before.reverse, some after)

/-- `with_extension`. -/
def withExtension (file : FileName) (ext : FileName) : FileName :=
  (splitExtension file).1 ++ '.' :: ext

/-- The folder, with the text of each file. -/
abbrev Folder (T : Type) := Dict FileName T

inductive FileAct (T : Type) where
  /-- `std::fs::write`, whatever comes of it. -/
  | put (file : FileName) (text : T)
  /-- `std::fs::rename`. -/
  | rename (src dst : FileName)
  /-- `std::fs::remove_file`. -/
  | delete (file : FileName)

variable {T : Type}

def FileAct.run (folder : Folder T) : FileAct T → Folder T
  | put file text => folder.insert file text
  | rename src dst =>
    match folder.get? src with
    | some text => (folder.erase src).insert dst text
    | none => folder
  | delete file => folder.erase file

def runActs (folder : Folder T) (acts : List (FileAct T)) : Folder T :=
  acts.foldl FileAct.run folder

/-! ## Entries -/

section

variable (alphanumeric : Char → Bool)

/-- What takes the place of a character in `entry_name`. -/
def safeChar (c : Char) : Char :=
  if alphanumeric c || c = '-' || c = '_' then c else '_'

/-- The name as it is in the file's name. -/
def safeName (name : String) : FileName := name.toList.map (safeChar alphanumeric)

/-- `entry_name`. -/
def entryName (name : String) : FileName := safeName alphanumeric name ++ ".json".toList

/-- The temporary file. -/
def tmpName (name : String) : FileName :=
  withExtension (entryName alphanumeric name) "json.tmp".toList

/-- How far a write to the phonebook comes. -/
inductive WriteEnd (T : Type) where
  /-- There is no folder. -/
  | refused
  /-- The temporary file has something else. -/
  | torn (text : T)
  /-- It is not renamed. -/
  | stuck
  | done

/-- `phonebook_write_at`. -/
def phonebookWriteAt (toText : Beacon → T) (b : Beacon) : WriteEnd T → List (FileAct T)
  | .refused => []
  | .torn text => [.put (tmpName alphanumeric b.n) text]
  | .stuck => [.put (tmpName alphanumeric b.n) (toText b)]
  | .done =>
    [.put (tmpName alphanumeric b.n) (toText b),
      .rename (tmpName alphanumeric b.n) (entryName alphanumeric b.n)]

/-- `phonebook_remove`. -/
def phonebookRemove (name : DisplayName) : List (FileAct T) :=
  [.delete (entryName alphanumeric name.1)]

end

/-- `phonebook_scan_at`. -/
def phonebookScanAt (fromText : T → Option Beacon) (folder : Folder T) (me : SelfId) (now : Nat) :
    List Beacon :=
  folder.entries.filterMap fun e =>
    if (splitExtension e.1).2 ≠ some "json".toList then none
    else (fromText e.2).filter fun b => !me.isMe b && !(phonebookStale < now - b.ts)

/-! ## Agents -/

/-- What an agent with some name does to the phonebook. -/
inductive PhonebookCall (T : Type) where
  /-- `phonebook_write`, of what `beacon_for` gives besides the name. -/
  | write (b : Beacon) (e : WriteEnd T)
  | remove

def PhonebookCall.acts (alphanumeric : Char → Bool) (toText : Beacon → T) (name : DisplayName) :
    PhonebookCall T → List (FileAct T)
  | write b e => phonebookWriteAt alphanumeric toText { b with n := name.1 } e
  | remove => phonebookRemove alphanumeric name

end Agent

end QCBridge
