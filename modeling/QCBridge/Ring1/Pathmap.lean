import QCBridge.ForStd.Lower
import Mathlib.Data.List.DropRight
import Mathlib.Data.List.Sort

/-!
# Path translation

`ring1/pathmap.py`: a table of rows, each a Windows root and a mac root. `translate` tries the
rows whose source root is the longest text first, compares the path with the root at component
boundaries, and puts the row's target root in its place. A path that no row covers keeps its
components, with the separators of the target.

Drive letters of the Windows side are conventional: the root is compared without, and so is
the path. A root that is nothing but a drive keeps its letter.
-/

namespace QCBridge

/-- The platforms (`current_os_tag`). -/
inductive OsTag where
  | win
  | mac
  | lin
deriving DecidableEq, Repr

/-- `PathMapping`. -/
structure PathMapping where
  win : List Char
  mac : List Char
  enabled : Bool := true
deriving DecidableEq, Repr

/-- What `translate` reads of the machine: Python's character tables, `os.path.expanduser("~")`
    and `current_os_tag()`. -/
structure PathEnv where
  unicode : UnicodeData
  slash : unicode.Separator '/'
  home : List Char
  currentOs : OsTag

/-! ## Texts -/

def isSlash (c : Char) : Bool := c == '/'

def isSeparator (c : Char) : Bool := c == '/' || c == '\\'

/-- `s.replace("\\", "/")`. -/
def toSlashes (s : List Char) : List Char := s.map fun c => if c = '\\' then '/' else c

/-- `to_native`. -/
def toNative (path : List Char) : OsTag → List Char
  | .win => path.map fun c => if c = '/' then '\\' else c
  | _ => toSlashes path

/-- `s.lstrip("/")`, and `s.lstrip("/\\")`. -/
def lstrip (p : Char → Bool) (s : List Char) : List Char := s.dropWhile p

/-- `s.rstrip("/")`, and `s.rstrip("/\\")`. -/
def rstrip (p : Char → Bool) (s : List Char) : List Char := s.rdropWhile p

/-- `_mapping_prefix_for`. -/
def PathMapping.rootFor (m : PathMapping) : OsTag → Option (List Char)
  | .win => some m.win
  | .mac => some m.mac
  | .lin => none

/-- A row of the table whose two roots are there: `source_raw` and `target_raw`. -/
structure Candidate where
  source : List Char
  target : List Char
deriving DecidableEq, Repr

/-- The row as a candidate, if it is one. -/
def PathMapping.candidate (m : PathMapping) (source target : OsTag) : Option Candidate :=
  if m.enabled then
    match m.rootFor source, m.rootFor target with
    | some s, some t => if s = [] ∨ t = [] then none else some ⟨s, t⟩
    | _, _ => none
  else none

/-- What the candidates are sorted by: the length of the text of the root. -/
def Candidate.textLength (c : Candidate) : Nat := (rstrip isSlash (toSlashes c.source)).length

/-- `candidates`, sorted: the longest text first, and rows of one length as they stand in the
    table. -/
def candidates (source target : OsTag) (mappings : List PathMapping) : List Candidate :=
  (mappings.filterMap (·.candidate source target)).insertionSort
    fun c d => d.textLength ≤ c.textLength

namespace PathEnv

variable (e : PathEnv)

/-- `_expand_home`. -/
def expandHome (root : List Char) : List Char :=
  if root = ['~'] ∨ ['~', '/'].isPrefixOf root ∨ ['~', '\\'].isPrefixOf root then
    let home := rstrip isSlash (toSlashes e.home)
    let rest := lstrip isSeparator (root.drop 1)
    if rest = [] then home else home ++ '/' :: rest
  else root

/-- `_expand_mapping_prefix`. -/
def expand (root : List Char) (os : OsTag) : List Char :=
  if os = e.currentOs then e.expandHome root else root

/-- `_strip_for_win`. -/
def stripForWin (s : List Char) : List Char :=
  lstrip isSlash
    (if 2 ≤ s.length ∧ s[1]? = some ':' ∧ s.head?.any e.unicode.isAlpha then s.drop 2 else s)

/-- `norm_source`. -/
def normSource (source : OsTag) (c : Candidate) : List Char := toSlashes (e.expand c.source source)

/-- Whether the row's root is a bare drive root. -/
def bareDrive (source : OsTag) (c : Candidate) : Bool :=
  source == .win && lstrip isSlash (rstrip isSlash (e.stripForWin (e.normSource source c))) == []

/-- Windows does not tell upper case from lower. -/
def fold (source : OsTag) (s : List Char) : List Char :=
  if source = .win then e.unicode.lower s else s

/-- The root as it is compared, its case apart. -/
def sourceRoot (source : OsTag) (c : Candidate) : List Char :=
  if source = .win ∧ ¬ e.bareDrive source c then
    rstrip isSlash (e.stripForWin (e.normSource source c))
  else rstrip isSlash (e.normSource source c)

/-- `cmp_source`. -/
def cmpSource (source : OsTag) (c : Candidate) : List Char := e.fold source (e.sourceRoot source c)

/-- `case_path`. -/
def casePath (source : OsTag) (path : List Char) (c : Candidate) : List Char :=
  if source = .win ∧ ¬ e.bareDrive source c then e.stripForWin (toSlashes path)
  else toSlashes path

/-- `cmp_path`. -/
def cmpPath (source : OsTag) (path : List Char) (c : Candidate) : List Char :=
  e.fold source (e.casePath source path c)

/-- Whether the row covers the path. -/
def covers (source : OsTag) (path : List Char) (c : Candidate) : Bool :=
  e.cmpPath source path c = e.cmpSource source c ||
    (e.cmpSource source c ++ ['/']).isPrefixOf (e.cmpPath source path c)

/-- `target_norm`. -/
def targetRoot (target : OsTag) (c : Candidate) : List Char :=
  rstrip isSeparator (e.expand c.target target)

/-- The target root, and `remainder` below it. -/
def joined (target : OsTag) (c : Candidate) (remainder : List Char) : List Char :=
  toNative (if remainder = [] then e.targetRoot target c
    else e.targetRoot target c ++ '/' :: remainder) target

/-- `remainder`. -/
def remainder (source : OsTag) (path : List Char) (c : Candidate) : List Char :=
  lstrip isSeparator ((e.casePath source path c).drop (e.cmpSource source c).length)

/-- The path as a row that covers it translates it. -/
def through (source target : OsTag) (path : List Char) (c : Candidate) : List Char :=
  e.joined target c (e.remainder source path c)

/-- The row that is used: the first of the sorted candidates that covers the path. -/
def used (source target : OsTag) (path : List Char) (mappings : List PathMapping) :
    Option Candidate :=
  (candidates source target mappings).find? (e.covers source path)

/-- `translate`. -/
def translate (source target : OsTag) (path : List Char) (mappings : List PathMapping) :
    List Char :=
  match e.used source target path mappings with
  | some c => e.through source target path c
  -- no row covers the path
  | none => toNative path target

/-- The source forms `localize_any` tries, in their order. -/
def sourceForms : List OsTag := [.win, .mac, .lin]

/-- The first source form in which a row moves the path, where the loop of `localize_any`
    returns. -/
def movingForm (path : List Char) (mappings : List PathMapping) : Option OsTag :=
  sourceForms.find? fun source =>
    e.translate source e.currentOs path mappings ≠ toNative path e.currentOs

/-- `localize_any`. -/
def localizeAny (path : List Char) (mappings : List PathMapping) : List Char :=
  match e.movingForm path mappings with
  | some source => e.translate source e.currentOs path mappings
  -- the loop ran out, and the path stays as it was, its separators too
  | none => path

/-! ## Lemmas -/

variable {e} {source target : OsTag} {path : List Char} {mappings : List PathMapping}
  {c : Candidate}

theorem translate_of_used (h : e.used source target path mappings = some c) :
    e.translate source target path mappings = e.through source target path c := by
  unfold translate
  rw [h]

theorem covers_iff : e.covers source path c ↔
    ComponentPrefix '/' (e.cmpSource source c) (e.cmpPath source path c) := by
  rw [ComponentPrefix.iff_isPrefix]
  simp [covers]

end PathEnv

theorem mem_candidates {source target : OsTag} {mappings : List PathMapping} {c : Candidate} :
    c ∈ candidates source target mappings ↔
      ∃ m ∈ mappings, m.candidate source target = some c := by
  unfold candidates
  rw [List.mem_insertionSort, List.mem_filterMap]

end QCBridge
