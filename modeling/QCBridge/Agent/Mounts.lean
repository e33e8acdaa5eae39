import QCBridge.Agent.Config
import Mathlib.Data.List.DropRight

/-!
# The other platform's form of a folder

`mounts.rs`: the table of the network mounts of this machine, from the text of `mount` or the rows
of the drives, and for a folder on a mount what it is called on the other platform.

A slice of a text is of its bytes, and one that cuts a character panics: `none`. The two case
mappings of the standard library are parameters.
-/

namespace QCBridge

namespace Agent

/-- `Mount`. -/
structure Mount where
  unc : List Char
  localRoot : List Char
deriving DecidableEq, Repr

/-! ## Texts -/

/-- The bytes of a text. -/
def byteLen (s : List Char) : Nat := s.foldr (fun c n => c.utf8Size + n) 0

/-- `&s[..n]` and `&s[n..]`. -/
def splitBytes? : List Char → Nat → Option (List Char × List Char)
  | s, 0 => some ([], s)
  | [], _ + 1 => none
  | c :: s, n + 1 =>
    if n + 1 < c.utf8Size then none
    else (splitBytes? s (n + 1 - c.utf8Size)).map fun cut => (c :: cut.1, cut.2)

/-- `split_once`. -/
def splitOnce (pat : List Char) : List Char → Option (List Char × List Char)
  | [] => if pat = [] then some ([], []) else none
  | c :: s =>
    if pat.isPrefixOf (c :: s) then some ([], (c :: s).drop pat.length)
    else (splitOnce pat s).map fun cut => (c :: cut.1, cut.2)

/-- `rsplit_once`, at a character. -/
def rsplitOnce (sep : Char) (s : List Char) : Option (List Char × List Char) :=
  (splitOnce [sep] s.reverse).map fun cut => (cut.2.reverse, cut.1.reverse)

/-- `strip_prefix`. -/
def stripPrefix (pat s : List Char) : Option (List Char) :=
  if pat.isPrefixOf s then some (s.drop pat.length) else none

/-- `trim_end_matches`. -/
def trimEnd (p : Char → Bool) (s : List Char) : List Char := s.rdropWhile p

/-- `replace`, of a character. -/
def replaceChar (a b : Char) (s : List Char) : List Char := s.map fun c => if c = a then b else c

/-- `lines`: a carriage return goes with the newline behind it. -/
def lines (s : List Char) : List (List Char) :=
  let parts := s.splitOn '\n'
  let ended := parts.dropLast.map fun line =>
    if line.getLast? = some '\r' then line.dropLast else line
  -- nothing comes behind the last newline
  let last := parts.getLast?.getD []
  if last = [] then ended else ended ++ [last]

/-! ## The table -/

/-- A line of `mount`. -/
def parseMacLine (line : List Char) : Option Mount := do
  let (src, rest) ← splitOnce " on ".toList line
  let root := trim ((splitOnce " (".toList rest).elim rest Prod.fst)
  if root.head? ≠ some '/' then none
  else
    let unc ← match stripPrefix "//".toList src with
      -- an SMB share, with or without a user
      | some stripped => do
        let hostShare := (rsplitOnce '@' stripped).elim stripped Prod.snd
        let (server, share) ← splitOnce ['/'] hostShare
        pure ("\\\\".toList ++ server ++ '\\' :: replaceChar '/' '\\' (trimEnd (· = '/') share))
      -- an NFS export
      | none => do
        let (server, exported) ← splitOnce ":/".toList src
        if server = [] ∨ '/' ∈ server then none
        else
          pure ("\\\\".toList ++ server ++
            '\\' :: replaceChar '/' '\\' (trimEnd (· = '/') exported))
    return ⟨unc, trimEnd (· = '/') root⟩

/-- `parse_mac_mount`. -/
def parseMacMount (text : List Char) : List Mount := (lines text).filterMap parseMacLine

section

variable (upper lower : List Char → List Char)

/-- `starts_with_root`. -/
def startsWithRoot (path root : List Char) (sep : Char) (caseInsensitive : Bool) : Bool :=
  let p := if caseInsensitive then lower path else path
  let r := if caseInsensitive then lower root else root
  p = r || (r ++ [sep]).isPrefixOf p

/-! ## The other form -/

/-- A UNC path. -/
def isUnc (p : List Char) : Bool := "\\\\".toList.isPrefixOf p

/-- `p.len() >= 2 && p.as_bytes()[1] == b':'`. -/
def hasDrive (p : List Char) : Bool :=
  match splitBytes? p 1 with
  | some (_, ':' :: _) => true
  | _ => false

/-- `\\server\share\a\b` as `/Volumes/share/a/b`; `none` if there is no share. -/
def uncToMac (unc : List Char) : Option (List Char) := do
  let body := unc.dropWhile (· = '\\')
  let (_server, path) ← splitOnce ['\\'] body
  let (share, rest) := (splitOnce ['\\'] path).getD (path, [])
  if rest = [] then return "/Volumes/".toList ++ share
  else return "/Volumes/".toList ++ share ++ '/' :: replaceChar '\\' '/' rest

def trimPath (path : List Char) : List Char := trimEnd (fun c => c = '/' || c = '\\') path

/-- `other_form`, with `windows` the platform. -/
def otherForm? (windows : Bool) (localPath : List Char) (table : List Mount) :
    Option (Option (List Char × List Char)) :=
  let p := trimPath localPath
  -- Windows, or a path that a Mac was given by it
  if windows || isUnc p || hasDrive p then do
    let unc ←
      if isUnc p then some (some p)
      else do
        -- a slice of a string: it panics in the middle of a character
        let (drive, rest) ← splitBytes? p 2
        let m := table.find? fun m => asciiLower m.localRoot = asciiLower (upper drive)
        pure (m.map fun m => m.unc ++ rest)
    return do
      let mac ← uncToMac (← unc)
      return (p, mac)
  else
    -- the first row that is a root of it
    match table.find? fun m => startsWithRoot lower p m.localRoot '/' false with
    | none => some none
    | some m => do
      let (_, rest) ← splitBytes? p (byteLen m.localRoot)
      return some (p, m.unc ++ replaceChar '/' '\\' rest)

end

end Agent

end QCBridge
