import QCBridge.Agent.Mounts
import Mathlib.Data.List.MinMax

/-!
# Which mount a folder is under

A mount covers the folders below its root, and of those that cover one the deepest is the one that
it is on. The drives of Windows are all equally deep; what may go wrong there is the cut behind the
second byte, and a path that goes on behind its drive without a separator. On a Mac the first mount
of the table that covers the folder is taken, deepest or not.

## Key results

- `splitBytes?_eq_some_iff`: where a text can be cut
- `answersRight_windows_iff`, `answersRight_mac_iff`: when the answer is right
- `otherForm?_iff`: both
-/

namespace QCBridge

namespace Agent

/-! ## Cuts -/

/-- A text is as long as its characters, in UTF-8. -/
private theorem byteLen_cons (c : Char) (s : List Char) :
    byteLen (c :: s) = c.utf8Size + byteLen s := rfl

/-- Two texts, one behind the other. -/
private theorem byteLen_append (a b : List Char) : byteLen (a ++ b) = byteLen a + byteLen b := by
  induction a with
  | nil => exact (Nat.zero_add _).symm
  | cons c a ih => rw [List.cons_append, byteLen_cons, byteLen_cons, ih, Nat.add_assoc]

/-- A text can be cut where one of its parts ends. -/
private theorem splitBytes?_append (a b : List Char) :
    splitBytes? (a ++ b) (byteLen a) = some (a, b) := by
  induction a with
  | nil => cases b <;> rfl
  | cons c a ih =>
    obtain ⟨n, hn⟩ : ∃ n, c.utf8Size + byteLen a = n + 1 :=
      ⟨c.utf8Size + byteLen a - 1, by have := c.utf8Size_pos; omega⟩
    rw [byteLen_cons, hn, List.cons_append, splitBytes?, if_neg (by omega),
      show n + 1 - c.utf8Size = byteLen a by omega, ih]
    rfl

/-- And nowhere else: in the middle of a character Rust panics. -/
theorem splitBytes?_eq_some_iff {s a b : List Char} {n : Nat} :
    splitBytes? s n = some (a, b) ↔ s = a ++ b ∧ byteLen a = n := by
  constructor
  · intro h
    -- the induction is on the text, a character at a time
    induction s generalizing n a with
    | nil =>
      cases n with
      | zero =>
        cases h
        exact ⟨rfl, rfl⟩
      | succ n => cases h
    | cons c s ih =>
      cases n with
      | zero =>
        cases h
        exact ⟨rfl, rfl⟩
      | succ n =>
        -- a character that does not fit into what is left is cut in the middle
        rw [splitBytes?] at h
        split at h
        · cases h
        · obtain ⟨⟨a', b'⟩, hcut, heq⟩ := Option.map_eq_some_iff.mp h
          cases heq
          obtain ⟨rfl, hlen⟩ := ih hcut
          exact ⟨rfl, by rw [byteLen_cons, hlen]; omega⟩
  · -- and a cut between two characters is found
    rintro ⟨rfl, rfl⟩
    exact splitBytes?_append a b

/-- Without the separator there is nothing to split. -/
private theorem splitOnce_of_not_mem {c : Char} {s : List Char} (h : c ∉ s) :
    splitOnce [c] s = none := by
  induction s with
  | nil => rfl
  | cons d s ih =>
    rw [List.mem_cons, not_or] at h
    rw [splitOnce, if_neg (by simp [h.1]), ih h.2]
    rfl

/-- The split is at the first separator. -/
private theorem splitOnce_append_cons {c : Char} {a : List Char} (h : c ∉ a) (b : List Char) :
    splitOnce [c] (a ++ c :: b) = some (a, b) := by
  induction a with
  | nil =>
    rw [List.nil_append, splitOnce, if_pos (by simp)]
    rfl
  | cons d a ih =>
    rw [List.mem_cons, not_or] at h
    rw [List.cons_append, splitOnce, if_neg (by simp [h.1]), ih h.2]
    rfl

/-! ## UNC roots -/

/-- Behind the server. -/
def shareOf (unc : List Char) : Option (List Char) :=
  (splitOnce ['\\'] (unc.dropWhile (· = '\\'))).map Prod.snd

/-- The share is mounted under `/Volumes`; what ends in a backslash is another matter. -/
private theorem uncToMac_eq (unc : List Char)
    (h : ∀ path, shareOf unc = some path → path.getLast? ≠ some '\\') :
    uncToMac unc =
      (shareOf unc).map fun path => "/Volumes/".toList ++ replaceChar '\\' '/' path := by
  unfold uncToMac shareOf at *
  cases hsplit : splitOnce ['\\'] (unc.dropWhile (· = '\\')) with
  | none =>
    simp only [hsplit]
    rfl
  | some cut =>
    obtain ⟨server, path⟩ := cut
    rw [hsplit] at h
    have hlast := h path rfl
    -- a name with no backslash is left as it is
    have hsame : ∀ s : List Char, '\\' ∉ s → replaceChar '\\' '/' s = s := by
      intro s hs
      unfold replaceChar
      refine (List.map_congr_left fun c hc => if_neg ?_).trans (List.map_id' s)
      rintro rfl
      exact hs hc
    -- a share with a folder in it, or a share alone
    by_cases hmem : '\\' ∈ path
    · obtain ⟨share, rest, rfl, hshare⟩ := List.eq_append_cons_of_mem hmem
      have hrest : rest ≠ [] := by
        rintro rfl
        exact hlast (List.getLast?_concat ..)
      simp only [hsplit, Option.bind_eq_bind, Option.bind_some, splitOnce_append_cons hshare,
        Option.getD_some, if_neg hrest]
      have hreplace : replaceChar '\\' '/' (share ++ '\\' :: rest) =
          share ++ '/' :: replaceChar '\\' '/' rest := by
        have hshare' := hsame share hshare
        unfold replaceChar at hshare' ⊢
        rw [List.map_append, List.map_cons, if_pos rfl, hshare']
      exact congrArg some ((List.append_assoc ..).trans
        (congrArg ("/Volumes/".toList ++ ·) hreplace.symm))
    · simp only [hsplit, Option.bind_eq_bind, Option.bind_some, splitOnce_of_not_mem hmem,
        Option.getD_none]
      exact congrArg (fun tail => some ("/Volumes/".toList ++ tail)) (hsame path hmem).symm

/-- It is a path of a Mac. -/
private theorem head?_uncToMac {unc mac : List Char} (h : uncToMac unc = some mac) :
    mac.head? = some '/' := by
  unfold uncToMac at h
  simp only [Option.bind_eq_bind, Option.bind_eq_some_iff] at h
  obtain ⟨cut, -, h⟩ := h
  split at h <;> cases h <;> rfl

/-- A text behind a root that names no server. -/
private theorem dropWhile_append_of_all {unc : List Char} (h : ∀ c ∈ unc, c = '\\')
    (s : List Char) :
    (unc ++ s).dropWhile (· = '\\') = s.dropWhile (· = '\\') := by
  induction unc with
  | nil => rfl
  | cons c unc ih =>
    rw [List.cons_append, List.dropWhile_cons_of_pos (by simpa using h c (List.mem_cons_self ..)),
      ih fun d hd => h d (List.mem_cons_of_mem _ hd)]

/-- What stands behind a text that is not all backslashes does not change which of them are dropped.
    -/
private theorem dropWhile_append_of_exists {unc : List Char} (h : ¬ ∀ c ∈ unc, c = '\\')
    (s : List Char) :
    (unc ++ s).dropWhile (· = '\\') = unc.dropWhile (· = '\\') ++ s ∧
      unc.dropWhile (· = '\\') ≠ [] := by
  have hne : unc.dropWhile (· = '\\') ≠ [] := by
    intro hnil
    exact h fun c hc => by simpa using List.dropWhile_eq_nil_iff.mp hnil c hc
  refine ⟨?_, hne⟩
  rw [List.dropWhile_append, if_neg (by simpa using hne)]

/-- A separator that is missing, or one too many, makes it another folder. -/
private theorem uncToMac_insert_iff {unc rest : List Char} (hne : rest ≠ [])
    (hhead : rest.head? ≠ some '\\') (hlast : rest.getLast? ≠ some '\\') :
    uncToMac (unc ++ rest) = uncToMac (unc ++ '\\' :: rest) ↔ ∀ c ∈ unc, c = '\\' := by
  -- only backslashes: both forms are the same
  by_cases hall : ∀ c ∈ unc, c = '\\'
  · refine iff_of_true ?_ hall
    unfold uncToMac
    rw [dropWhile_append_of_all hall, dropWhile_append_of_all hall,
      List.dropWhile_cons_of_pos (by simp)]
  · -- anything else: the folder would need the separator
    refine iff_of_false (fun heq => ?_) hall
    obtain ⟨hbody, hserver⟩ := dropWhile_append_of_exists hall rest
    obtain ⟨hbody', -⟩ := dropWhile_append_of_exists hall ('\\' :: rest)
    -- neither path ends in a backslash
    have hend : ∀ s : List Char, (s ++ rest).getLast? ≠ some '\\' := by
      intro s
      rw [List.getLast?_append_of_ne_nil _ hne]
      exact hlast
    have hend' : ∀ s : List Char, (s ++ '\\' :: rest).getLast? ≠ some '\\' := by
      intro s
      rw [← List.singleton_append, ← List.append_assoc]
      exact hend _
    have hlen : ∀ s : List Char, (replaceChar '\\' '/' s).length = s.length :=
      fun s => List.length_map _
    -- the share is in the stem: the two folders differ in length
    by_cases hmem : '\\' ∈ unc.dropWhile (· = '\\')
    · obtain ⟨server, share, hcut, hno⟩ := List.eq_append_cons_of_mem hmem
      have hshare : shareOf (unc ++ rest) = some (share ++ rest) := by
        unfold shareOf
        rw [hbody, hcut, List.append_assoc, List.cons_append, splitOnce_append_cons hno]
        rfl
      have hshare' : shareOf (unc ++ '\\' :: rest) = some (share ++ '\\' :: rest) := by
        unfold shareOf
        rw [hbody', hcut, List.append_assoc, List.cons_append, splitOnce_append_cons hno]
        rfl
      rw [uncToMac_eq _ (by rw [hshare]; rintro _ ⟨⟩; exact hend share),
        uncToMac_eq _ (by rw [hshare']; rintro _ ⟨⟩; exact hend' share), hshare, hshare'] at heq
      have := congrArg List.length (List.append_cancel_left (Option.some.inj heq))
      simp only [hlen, List.length_append, List.length_cons] at this
      omega
    · -- the share begins behind the stem
      have hshare' : shareOf (unc ++ '\\' :: rest) = some rest := by
        unfold shareOf
        rw [hbody', splitOnce_append_cons hmem]
        rfl
      rw [uncToMac_eq (unc ++ '\\' :: rest) (by rw [hshare']; rintro _ ⟨⟩; exact hlast),
        hshare'] at heq
      -- the rest has a separator, so only one form has a share and a folder
      by_cases hrest : '\\' ∈ rest
      · obtain ⟨a, b, rfl, hno⟩ := List.eq_append_cons_of_mem hrest
        have hshare : shareOf (unc ++ (a ++ '\\' :: b)) = some b := by
          unfold shareOf
          rw [hbody, ← List.append_assoc, splitOnce_append_cons (by simp [hmem, hno])]
          rfl
        have hb : b.getLast? ≠ some '\\' := by
          intro hb
          refine hlast ?_
          cases b with
          | nil => cases hb
          | cons c b => rw [List.getLast?_append_cons, List.getLast?_cons_cons, hb]
        rw [uncToMac_eq _ (by rw [hshare]; rintro _ ⟨⟩; exact hb), hshare] at heq
        have := congrArg List.length (List.append_cancel_left (Option.some.inj heq))
        simp only [hlen, List.length_append, List.length_cons] at this
        omega
      · -- it has none, so only one form has a share
        have hshare : shareOf (unc ++ rest) = none := by
          unfold shareOf
          rw [hbody, splitOnce_of_not_mem (by simp [hmem, hrest])]
          rfl
        rw [uncToMac_eq _ (by rw [hshare]; rintro _ ⟨⟩), hshare] at heq
        cases heq

/-! ## The mount of a folder -/

section

variable (upper lower : List Char → List Char)

/-- The folder is on the mount: on its drive, or at its root or below it. -/
def Covers (windows : Bool) (p : List Char) (m : Mount) : Bool :=
  if windows then
    !isUnc p && (splitBytes? p 2).any fun cut => asciiLower m.localRoot = asciiLower (upper cut.1)
  else startsWithRoot lower p m.localRoot '/' false

/-- Of the mounts that it is on, the one with the longest root. -/
def mostSpecific (windows : Bool) (p : List Char) (table : List Mount) : Option Mount :=
  (table.filter (Covers upper lower windows p)).argmax fun m => m.localRoot.length

/-- It goes on with a new component. -/
def AtComponent (rest : List Char) : Prop :=
  rest = [] ∨ rest.head? = some '\\' ∨ rest.head? = some '/'

instance (rest : List Char) : Decidable (AtComponent rest) :=
  inferInstanceAs (Decidable (_ ∨ _ ∨ _))

/-- The form of a folder under a mount: the components behind the root, behind the share. -/
def formUnder (windows : Bool) (p : List Char) (m : Mount) : Option (List Char) :=
  if windows then
    (splitBytes? p 2).bind fun cut =>
      uncToMac (m.unc ++ if AtComponent cut.2 then cut.2 else '\\' :: cut.2)
  else some (m.unc ++ replaceChar '/' '\\' (p.drop m.localRoot.length))

/-- It returns; under a mount, the answer is the form under the deepest; and else there is none,
    unless the path is one of Windows by itself. -/
def AnswersRight (windows : Bool) (path : List Char) (table : List Mount) : Prop :=
  ∃ r, otherForm? upper lower windows path table = some r ∧
    (∀ best, mostSpecific upper lower windows (trimPath path) table = some best →
      r = (formUnder windows (trimPath path) best).map (trimPath path, ·)) ∧
    (mostSpecific upper lower windows (trimPath path) table = none →
      r = none ∨ isUnc (trimPath path) = true ∨ windows = false ∧ hasDrive (trimPath path) = true)

/-- On Windows: a drive is cut off, and what is behind it, if it is in the table with a share, is a
    component. -/
def CutsDrive (p : List Char) (table : List Mount) : Prop :=
  isUnc p = true ∨ ∃ drive rest, splitBytes? p 2 = some (drive, rest) ∧
    (AtComponent rest ∨
      ∀ m, table.find? (fun m => asciiLower m.localRoot = asciiLower (upper drive)) = some m →
        ∀ c ∈ m.unc, c = '\\')

/-- On a Mac: a path that is taken for one of Windows is on no mount; and of any other the first
    mount that it is on has the share of the deepest, as far as the folders between the two roots
    go. -/
def FirstIsDeepest (p : List Char) (table : List Mount) : Prop :=
  if isUnc p || hasDrive p then mostSpecific upper lower false p table = none
  else ∀ first, table.find? (Covers upper lower false p) = some first →
    ∀ best, mostSpecific upper lower false p table = some best →
      best.unc = first.unc ++
        replaceChar '/' '\\' (best.localRoot.drop first.localRoot.length)

variable {upper lower}

/-- There is a deepest if there is any, and it is one of them. -/
private theorem mostSpecific_spec {windows : Bool} {p : List Char} {table : List Mount}
    {best : Mount}
    (h : mostSpecific upper lower windows p table = some best) :
    best ∈ table ∧ Covers upper lower windows p best = true ∧
      ∀ m ∈ table, Covers upper lower windows p m = true →
        m.localRoot.length ≤ best.localRoot.length := by
  have hmem := List.mem_filter.mp (List.argmax_mem h)
  exact ⟨hmem.1, hmem.2, fun m hm hcovers =>
    List.le_of_mem_argmax (f := fun m : Mount => m.localRoot.length)
      (List.mem_filter.mpr ⟨hm, hcovers⟩) h⟩

/-- There is a deepest mount unless none covers the folder. -/
private theorem mostSpecific_eq_none_iff {windows : Bool} {p : List Char} {table : List Mount} :
    mostSpecific upper lower windows p table = none ↔
      ∀ m ∈ table, Covers upper lower windows p m = false := by
  unfold mostSpecific
  rw [List.argmax_eq_none, List.filter_eq_nil_iff]
  simp only [Bool.not_eq_true]

/-- Mounts with roots of one length: the first of them is taken. -/
private theorem mostSpecific_of_length {windows : Bool} {p : List Char} {table : List Mount}
    {n : Nat}
    (hn : ∀ m ∈ table, Covers upper lower windows p m = true → m.localRoot.length = n) :
    mostSpecific upper lower windows p table = table.find? (Covers upper lower windows p) := by
  have hall : ∀ m ∈ table.filter (Covers upper lower windows p), m.localRoot.length = n :=
    fun m hm => hn m (List.mem_filter.mp hm).1 (List.mem_filter.mp hm).2
  unfold mostSpecific
  rw [← List.head?_filter]
  revert hall
  cases table.filter (Covers upper lower windows p) with
  | nil => exact fun _ => rfl
  | cons first rest =>
    intro hall
    rw [List.argmax_cons]
    cases hrest : rest.argmax fun m => m.localRoot.length with
    | none => rfl
    | some m =>
      have hm := hall m (List.mem_cons_of_mem _ (List.argmax_mem hrest))
      have hfirst := hall first (List.mem_cons_self ..)
      show (if _ then some m else some first) = _
      rw [if_neg (by omega)]
      rfl

/-- Lowering ASCII keeps the length. -/
private theorem length_asciiLower (s : List Char) :
    (asciiLower s).length = s.length := List.length_map _

/-! ## The branches -/

/-- A path of the network is turned into its mount, on either platform. -/
private theorem otherForm?_unc {windows : Bool} {path : List Char} (table : List Mount)
    (hunc : isUnc (trimPath path) = true) :
    otherForm? upper lower windows path table =
      some ((uncToMac (trimPath path)).map (trimPath path, ·)) := by
  unfold otherForm?
  simp only [hunc, Bool.or_true, Bool.true_or, if_true, Option.bind_eq_bind, Option.bind_some,
    Option.map_eq_bind]
  rfl

/-- A path with a drive is cut behind the second byte, and the drive's share put in its place. -/
private theorem otherForm?_drive {windows : Bool} {path : List Char} (table : List Mount)
    (hunc : isUnc (trimPath path) = false) (h : (windows || hasDrive (trimPath path)) = true) :
    otherForm? upper lower windows path table =
      (splitBytes? (trimPath path) 2).map fun cut =>
        (table.find? fun m => asciiLower m.localRoot = asciiLower (upper cut.1)).bind fun m =>
          (uncToMac (m.unc ++ cut.2)).map (trimPath path, ·) := by
  unfold otherForm?
  simp only [hunc, Bool.or_false, h, Bool.false_eq_true, if_true, if_false, Option.bind_eq_bind]
  cases splitBytes? (trimPath path) 2 with
  | none => rfl
  | some cut =>
    show some _ = some _
    dsimp only
    cases table.find? fun m => asciiLower m.localRoot = asciiLower (upper cut.1) with
    | none => rfl
    | some m =>
      show some ((uncToMac (m.unc ++ cut.2)).bind fun mac => some (trimPath path, mac)) = _
      rw [Option.bind_some, Option.map_eq_bind]
      rfl

/-- What is at or below a root is behind it. -/
private theorem startsWithRoot_append {p root : List Char}
    (h : startsWithRoot lower p root '/' false = true) : ∃ rest, p = root ++ rest := by
  unfold startsWithRoot at h
  simp only [Bool.false_eq_true, if_false, Bool.or_eq_true, decide_eq_true_eq,
    List.isPrefixOf_iff_prefix] at h
  rcases h with rfl | ⟨rest, rfl⟩
  · exact ⟨[], (List.append_nil p).symm⟩
  · exact ⟨'/' :: rest, by rw [List.append_assoc]; rfl⟩

/-- Any other path is looked up among the mounts. -/
private theorem otherForm?_mac {path : List Char} (table : List Mount)
    (hunc : isUnc (trimPath path) = false) (hdrive : hasDrive (trimPath path) = false) :
    otherForm? upper lower false path table =
      some ((table.find? (Covers upper lower false (trimPath path))).bind fun m =>
        (formUnder false (trimPath path) m).map (trimPath path, ·)) := by
  unfold otherForm?
  simp only [hunc, hdrive, Bool.or_false, Bool.false_eq_true, if_false]
  have hcovers : (fun m : Mount => startsWithRoot lower (trimPath path) m.localRoot '/' false) =
      Covers upper lower false (trimPath path) := funext fun m => rfl
  rw [hcovers]
  cases hfind : table.find? (Covers upper lower false (trimPath path)) with
  | none => rfl
  | some m =>
    have hm : startsWithRoot lower (trimPath path) m.localRoot '/' false = true :=
      List.find?_some (p := Covers upper lower false (trimPath path)) hfind
    obtain ⟨rest, hrest⟩ := startsWithRoot_append hm
    dsimp only
    rw [hrest, splitBytes?_append]
    show some (some (_, _)) = some (some (_, _))
    rw [List.drop_left]

/-! ## On Windows -/

/-- A trimmed path ends in no separator. -/
private theorem getLast?_trimPath {path : List Char} {c : Char}
    (hc : (trimPath path).getLast? = some c) :
    ¬ (c = '/' ∨ c = '\\') := by
  by_cases hnil : trimPath path = []
  · rw [hnil] at hc
    cases hc
  · have hlast := List.rdropWhile_last_not _ path hnil
    rw [List.getLast?_eq_some_getLast hnil, Option.some.injEq] at hc
    unfold trimPath trimEnd at hc
    rw [hc] at hlast
    simpa using hlast

section

variable {windows : Bool} {path : List Char} {table : List Mount}

/-- On a mount there is one right answer. -/
private theorem answersRight_iff_of_best {r : Option (List Char × List Char)} {best : Mount}
    (hrun : otherForm? upper lower windows path table = some r)
    (hbest : mostSpecific upper lower windows (trimPath path) table = some best) :
    AnswersRight upper lower windows path table ↔
      r = (formUnder windows (trimPath path) best).map (trimPath path, ·) := by
  constructor
  · rintro ⟨r', hr', hform, -⟩
    rw [hrun, Option.some.injEq] at hr'
    rw [hr']
    exact hform best hbest
  · intro hform
    refine ⟨r, hrun, fun m hm => ?_, fun hnone => ?_⟩
    · rw [hbest, Option.some.injEq] at hm
      rw [hform, hm]
    · rw [hbest] at hnone
      cases hnone

/-- Off every mount none is right. -/
private theorem answersRight_of_none
    (hrun : otherForm? upper lower windows path table = some none)
    (hbest : mostSpecific upper lower windows (trimPath path) table = none) :
    AnswersRight upper lower windows path table := by
  refine ⟨none, hrun, fun m hm => ?_, fun _ => .inl rfl⟩
  rw [hbest] at hm
  cases hm

/-- One answer is another if the forms are. -/
private theorem map_path_inj {p : List Char} {a b : Option (List Char)} :
    a.map (p, ·) = b.map (p, ·) ↔ a = b :=
  ⟨fun h => Option.map_injective (fun _ _ h => congrArg Prod.snd h) h, fun h => by rw [h]⟩

end

/-- On Windows the answer is right exactly where the drive is cut off well. -/
theorem answersRight_windows_iff (path : List Char) (table : List Mount) :
    AnswersRight upper lower true path table ↔ CutsDrive upper (trimPath path) table := by
  by_cases hunc : isUnc (trimPath path) = true
  · -- it is taken as it is
    have hnone : mostSpecific upper lower true (trimPath path) table = none :=
      mostSpecific_eq_none_iff.mpr fun m _ => by simp [Covers, hunc]
    refine iff_of_true ⟨_, otherForm?_unc table hunc, ?_, fun _ => .inr (.inl hunc)⟩ (.inl hunc)
    rw [hnone]
    exact fun _ h => by cases h
  · have hdrive : otherForm? upper lower true path table = _ :=
      otherForm?_drive table (Bool.eq_false_iff.mpr hunc) rfl
    unfold CutsDrive
    cases hcut : splitBytes? (trimPath path) 2 with
    | none =>
      -- the cut panics
      refine iff_of_false ?_ (not_or.mpr ⟨hunc, ?_⟩)
      · rintro ⟨r, hr, -⟩
        rw [hdrive, hcut] at hr
        cases hr
      · rintro ⟨drive, rest, h, -⟩
        cases h
    | some cut =>
      obtain ⟨drive, rest⟩ := cut
      have hcovers : ∀ m : Mount, Covers upper lower true (trimPath path) m =
          decide (asciiLower m.localRoot = asciiLower (upper drive)) := by
        intro m
        simp only [Covers, Bool.eq_false_iff.mpr hunc, hcut, if_true, Bool.not_false,
          Bool.true_and, Option.any_some]
      have hbest : mostSpecific upper lower true (trimPath path) table =
          table.find? fun m => asciiLower m.localRoot = asciiLower (upper drive) := by
        rw [mostSpecific_of_length (n := (upper drive).length), funext hcovers]
        intro m _ hm
        rw [hcovers, decide_eq_true_eq] at hm
        rw [← length_asciiLower, hm, length_asciiLower]
      rw [hcut, Option.map_some] at hdrive
      cases hfind : table.find? fun m => asciiLower m.localRoot = asciiLower (upper drive) with
      | none =>
        rw [hfind] at hbest
        refine iff_of_true (answersRight_of_none ?_ hbest) (.inr ⟨drive, rest, rfl, .inr ?_⟩)
        · rw [hdrive]
          dsimp only
          rw [hfind]
          rfl
        · rw [hfind]
          exact fun _ h => by cases h
      | some m =>
        rw [hfind] at hbest
        dsimp only at hdrive
        rw [hfind, Option.bind_some] at hdrive
        rw [answersRight_iff_of_best hdrive hbest, map_path_inj]
        have hform : formUnder true (trimPath path) m =
            uncToMac (m.unc ++ if AtComponent rest then rest else '\\' :: rest) := by
          simp only [formUnder, hcut, if_true, Option.bind_some]
        rw [hform]
        by_cases hcomponent : AtComponent rest
        · rw [if_pos hcomponent]
          exact iff_of_true rfl (.inr ⟨drive, rest, rfl, .inl hcomponent⟩)
        · rw [if_neg hcomponent]
          obtain ⟨hne, hhead, -⟩ : rest ≠ [] ∧ rest.head? ≠ some '\\' ∧ rest.head? ≠ some '/' := by
            simpa only [AtComponent, not_or] using hcomponent
          have hlast : rest.getLast? ≠ some '\\' := by
            intro hlast
            have hend : (trimPath path).getLast? = some '\\' := by
              rw [(splitBytes?_eq_some_iff.mp hcut).1, List.getLast?_append_of_ne_nil _ hne, hlast]
            exact getLast?_trimPath hend (.inr rfl)
          rw [uncToMac_insert_iff hne hhead hlast]
          constructor
          · intro hall
            refine .inr ⟨drive, rest, rfl, .inr fun m' hm' => ?_⟩
            rw [hfind, Option.some.injEq] at hm'
            exact hm' ▸ hall
          · rintro (h | ⟨drive', rest', h, hor⟩)
            · exact absurd h hunc
            · cases h
              exact hor.resolve_left hcomponent m hfind

/-! ## On a Mac -/

/-- What is taken for a drive can be cut behind its colon. -/
private theorem splitBytes?_of_hasDrive {p : List Char} (h : hasDrive p = true) :
    ∃ cut, splitBytes? p 2 = some cut := by
  unfold hasDrive at h
  split at h
  · rename_i a rest hcut
    obtain ⟨rfl, hlen⟩ := splitBytes?_eq_some_iff.mp hcut
    refine ⟨(a ++ [':'], rest), splitBytes?_eq_some_iff.mpr ⟨by simp, ?_⟩⟩
    rw [byteLen_append, hlen]
    rfl
  · cases h

/-- A path of Windows is answered with one of a Mac, and that is right if it is on no mount. -/
private theorem answersRight_of_given {path : List Char} {table : List Mount}
    (hroots : ∀ m ∈ table, m.unc.head? = some '\\')
    (hgiven : (isUnc (trimPath path) || hasDrive (trimPath path)) = true)
    {r : Option (List Char × List Char)} (hrun : otherForm? upper lower false path table = some r)
    (hmac : ∀ q mac, r = some (q, mac) → mac.head? = some '/') :
    AnswersRight upper lower false path table ↔
      mostSpecific upper lower false (trimPath path) table = none := by
  -- on no mount there is nothing to answer
  cases hbest : mostSpecific upper lower false (trimPath path) table with
  | none =>
    refine iff_of_true ⟨r, hrun, fun m hm => ?_, fun _ => .inr ?_⟩ rfl
    · rw [hbest] at hm
      cases hm
    · rw [Bool.or_eq_true] at hgiven
      exact hgiven.imp_right fun h => ⟨rfl, h⟩
  -- on a mount the answer should be its path on the Mac
  | some best =>
    rw [answersRight_iff_of_best hrun hbest]
    refine iff_of_false (fun hr => ?_) (fun h => by cases h)
    have hroot := hroots best (mostSpecific_spec hbest).1
    -- which would have to begin with a slash, and an UNC name begins with a backslash
    have hhead := hmac _ _ hr
    obtain ⟨tail, htail⟩ : ∃ tail, best.unc = '\\' :: tail := by
      cases hunc : best.unc with
      | nil => rw [hunc] at hroot; cases hroot
      | cons c tail =>
        rw [hunc, List.head?_cons, Option.some.injEq] at hroot
        exact ⟨tail, by rw [hroot]⟩
    rw [htail] at hhead
    exact absurd (Option.some.inj hhead) (by decide)

/-- A mount and one below it give a path the same form if the share of the lower one is the folder
    between them on the share of the other. -/
private theorem formUnder_eq_iff {p rest between : List Char} {m below : Mount}
    (hrest : p = below.localRoot ++ rest) (hbetween : m.localRoot ++ between = below.localRoot) :
    formUnder false p m = formUnder false p below ↔
      m.unc ++ replaceChar '/' '\\' between = below.unc := by
  have hupper : formUnder false p m = some (m.unc ++
      (replaceChar '/' '\\' between ++ replaceChar '/' '\\' rest)) := by
    unfold formUnder replaceChar
    rw [if_neg (by decide), hrest, ← hbetween, List.append_assoc, List.drop_left,
      List.map_append]
  have hlower : formUnder false p below = some (below.unc ++ replaceChar '/' '\\' rest) := by
    unfold formUnder
    rw [if_neg (by decide), hrest, List.drop_left]
  rw [hupper, hlower, Option.some.injEq, ← List.append_assoc, List.append_left_inj]

/-- On a Mac it is right exactly where the first mount has the share of the deepest. -/
theorem answersRight_mac_iff (path : List Char) {table : List Mount}
    (hroots : ∀ m ∈ table, m.unc.head? = some '\\') :
    AnswersRight upper lower false path table ↔
      FirstIsDeepest upper lower (trimPath path) table := by
  have hmap : ∀ {unc q mac : List Char},
      (uncToMac unc).map (trimPath path, ·) = some (q, mac) → mac.head? = some '/' := by
    intro unc q mac h
    obtain ⟨mac', hmac', heq⟩ := Option.map_eq_some_iff.mp h
    cases heq
    exact head?_uncToMac hmac'
  unfold FirstIsDeepest
  cases hunc : isUnc (trimPath path) with
  | true =>
    exact answersRight_of_given hroots (by rw [hunc]; rfl) (otherForm?_unc table hunc)
      fun _ _ h => hmap h
  | false =>
    cases hdrive : hasDrive (trimPath path) with
    | true =>
      obtain ⟨cut, hcut⟩ := splitBytes?_of_hasDrive hdrive
      have hrun : otherForm? upper lower false path table = _ :=
        otherForm?_drive table hunc (by rw [hdrive]; rfl)
      rw [hcut, Option.map_some] at hrun
      refine answersRight_of_given hroots (by rw [hdrive, Bool.or_true]) hrun fun q mac h => ?_
      obtain ⟨m, -, hm⟩ := Option.bind_eq_some_iff.mp h
      exact hmap hm
    | false =>
      have hrun : otherForm? upper lower false path table = _ := otherForm?_mac table hunc hdrive
      rw [Bool.or_false, if_neg (by decide)]
      cases hfind : table.find? (Covers upper lower false (trimPath path)) with
      | none =>
        rw [hfind, Option.bind_none] at hrun
        refine iff_of_true (answersRight_of_none hrun ?_) fun _ h => by cases h
        exact mostSpecific_eq_none_iff.mpr fun m hm =>
          Bool.eq_false_iff.mpr (List.find?_eq_none.mp hfind m hm)
      | some first =>
        rw [hfind, Option.bind_some] at hrun
        have hfirst := List.mem_of_find?_eq_some hfind
        have hcovers := List.find?_some hfind
        cases hbest : mostSpecific upper lower false (trimPath path) table with
        | none =>
          have := mostSpecific_eq_none_iff.mp hbest first hfirst
          rw [hcovers] at this
          cases this
        | some best =>
          obtain ⟨-, hbestCovers, hdeepest⟩ := mostSpecific_spec hbest
          obtain ⟨rest, hrest⟩ : ∃ rest, trimPath path = best.localRoot ++ rest :=
            startsWithRoot_append (show startsWithRoot lower _ _ _ _ = true from hbestCovers)
          obtain ⟨tail, htail⟩ : ∃ tail, trimPath path = first.localRoot ++ tail :=
            startsWithRoot_append (show startsWithRoot lower _ _ _ _ = true from hcovers)
          -- the deepest is below the first, by some folders
          obtain ⟨between, hbetween⟩ : first.localRoot <+: best.localRoot :=
            List.prefix_of_prefix_length_le ⟨tail, htail.symm⟩ ⟨rest, hrest.symm⟩
              (hdeepest first hfirst hcovers)
          rw [answersRight_iff_of_best hrun hbest, map_path_inj,
            formUnder_eq_iff hrest hbetween]
          constructor
          · rintro heq first' ⟨⟩ best' ⟨⟩
            rw [← hbetween, List.drop_left, heq]
          · intro hcond
            have hshare := hcond first rfl best rfl
            rw [← hbetween, List.drop_left] at hshare
            exact hshare.symm

/-- The share of a line of `mount` is a UNC root. -/
private theorem head?_of_mem_parseMacMount (text : List Char) :
    ∀ m ∈ parseMacMount text, m.unc.head? = some '\\' := by
  intro m hm
  obtain ⟨line, -, hline⟩ := List.mem_filterMap.mp hm
  unfold parseMacLine at hline
  simp only [Option.bind_eq_bind, Option.bind_eq_some_iff] at hline
  obtain ⟨cut, -, hline⟩ := hline
  split at hline
  · cases hline
  · split at hline
    · obtain ⟨share, -, hline⟩ := Option.bind_eq_some_iff.mp hline
      cases hline
      rfl
    · obtain ⟨share, -, hline⟩ := Option.bind_eq_some_iff.mp hline
      split at hline <;> cases hline
      rfl

/-- On either platform: when the call returns with the form of the folder under the deepest mount
    that it is on. -/
theorem otherForm?_iff (upper lower : List Char → List Char) :
    (∀ path table, AnswersRight upper lower true path table ↔
      CutsDrive upper (trimPath path) table) ∧
    (∀ path table, (∀ m ∈ table, m.unc.head? = some '\\') →
      (AnswersRight upper lower false path table ↔
        FirstIsDeepest upper lower (trimPath path) table)) ∧
    ∀ text, ∀ m ∈ parseMacMount text, m.unc.head? = some '\\' :=
  ⟨answersRight_windows_iff, fun path _ hroots => answersRight_mac_iff path hroots,
    head?_of_mem_parseMacMount⟩

end

/-- A share with another one in a folder of it. -/
private def nested : List Mount :=
  [⟨"\\\\nas\\jobs".toList, "/Volumes/jobs".toList⟩,
    ⟨"\\\\old\\archive".toList, "/Volumes/jobs/archive".toList⟩]

/-- A folder of a drive, and one on a mount below another. -/
theorem otherForm?_iff_nested :
    AnswersRight id id true "M:\\2026".toList [⟨"\\\\nas\\jobs".toList, "M:".toList⟩] ∧
      AnswersRight id id false "/Volumes/jobs/2026".toList nested := by
  obtain ⟨hwindows, hmac, -⟩ := otherForm?_iff id id
  refine ⟨(hwindows _ _).mpr (.inr ⟨"M:".toList, "\\2026".toList, by decide, .inl (by decide)⟩),
    (hmac _ _ (by decide)).mpr ?_⟩
  unfold FirstIsDeepest
  rw [if_neg (by decide)]
  intro first hfirst best hbest
  have hfirst' : first = ⟨"\\\\nas\\jobs".toList, "/Volumes/jobs".toList⟩ :=
    (Option.some.inj hfirst).symm
  have hbest' : best = ⟨"\\\\nas\\jobs".toList, "/Volumes/jobs".toList⟩ :=
    (Option.some.inj hbest).symm
  rw [hfirst', hbest']
  decide

/-- The share of the parent; a cut inside a character, and one behind the end; and a share that is
    none. -/
theorem otherForm?_counterexample :
    otherForm? id id false "/Volumes/jobs/archive/x".toList nested =
        some (some ("/Volumes/jobs/archive/x".toList, "\\\\nas\\jobs\\archive\\x".toList)) ∧
      ¬ AnswersRight id id false "/Volumes/jobs/archive/x".toList nested ∧
      otherForm? id id true "€uro".toList nested = none ∧
      otherForm? id id true "".toList nested = none ∧
      otherForm? id id true "M:foo".toList [⟨"\\\\nas\\jobs".toList, "M:".toList⟩] =
        some (some ("M:foo".toList, "/Volumes/jobsfoo".toList)) := by
  have hrun : otherForm? id id false "/Volumes/jobs/archive/x".toList nested =
      some (some ("/Volumes/jobs/archive/x".toList,
        "\\\\nas\\jobs\\archive\\x".toList)) := by decide
  refine ⟨hrun, ?_, by decide, by decide, by decide⟩
  have hbest : mostSpecific id id false (trimPath "/Volumes/jobs/archive/x".toList) nested =
      some ⟨"\\\\old\\archive".toList, "/Volumes/jobs/archive".toList⟩ := rfl
  rw [answersRight_iff_of_best hrun hbest]
  decide

end Agent

end QCBridge
