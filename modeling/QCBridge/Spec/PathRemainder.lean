import QCBridge.Ring1.Pathmap

/-!
# What is left of a path below its root

A row is matched against the path in lower case, and the remainder is cut out of the path as
it was, at the length of the lower-case root. The two agree unless the lower-case root is
longer; then the cut is too far along, and takes separators first.

## Key results

- `PathEnv.Matched`: the path as its root, in its own spelling, and what follows
- `PathEnv.remainder_eq_iff`: when the remainder is what follows
- `PathEnv.translate_remainder`: the path that comes out
- `PathEnv.translate_remainder_counterexample`: a root of two letters that become four
-/

namespace QCBridge

/-! ## Cutting too far -/

theorem lstrip_suffix (p : Char → Bool) (s : List Char) : lstrip p s <:+ s :=
  List.dropWhile_suffix p

private theorem lstrip_drop_suffix (p : Char → Bool) (s : List Char) (k : Nat) :
    lstrip p (s.drop k) <:+ lstrip p s := by
  induction s generalizing k with
  | nil => exact ⟨[], congrArg (lstrip p) List.drop_nil⟩
  | cons c s ih =>
    cases k with
    | zero => exact List.suffix_refl _
    -- a character off the front: it was stripped anyway, or all of it was kept
    | succ k =>
      apply (ih k).trans
      unfold lstrip
      rw [List.dropWhile_cons]
      split
      · exact List.suffix_refl _
      · exact (List.dropWhile_suffix p).trans (List.suffix_cons c s)

/-- What is stripped anyway may be cut off before; nothing else may. -/
private theorem lstrip_drop_eq_iff (p : Char → Bool) (s : List Char) (k : Nat) :
    lstrip p (s.drop k) = lstrip p s ↔ lstrip p s = [] ∨ k ≤ (s.takeWhile p).length := by
  have hparts : s.takeWhile p ++ lstrip p s = s := List.takeWhile_append_dropWhile
  have hlen := congrArg List.length hparts
  rw [List.length_append] at hlen
  constructor
  · intro heq
    by_contra hno
    rw [not_or, ← List.length_eq_zero_iff] at hno
    obtain ⟨hne, hk⟩ := hno
    -- cut behind the stripped part, so something of the rest is missing
    have hle := (lstrip_suffix p (s.drop k)).length_le
    rw [heq, List.length_drop] at hle
    omega
  · rintro (hnil | hk)
    · have := lstrip_drop_suffix p s k
      rw [hnil, List.suffix_nil] at this
      rw [this, hnil]
    · -- the part cut off is one of those stripped
      have hdrop : s.drop k = (s.takeWhile p).drop k ++ lstrip p s := by
        conv_lhs => rw [← hparts]
        exact List.drop_append_of_le_length hk
      rw [hdrop]
      unfold lstrip
      rw [List.dropWhile_append_of_pos, List.dropWhile_idempotent]
      intro c hc
      exact List.mem_takeWhile_imp (List.mem_of_mem_drop hc)

namespace PathEnv

variable {e : PathEnv} {source target : OsTag} {path : List Char} {mappings : List PathMapping}
  {c : Candidate} {root rest : List Char}

/-! ## The matched root -/

/-- The path is a root that is the row's, case apart, and what follows it. -/
structure Matched (e : PathEnv) (source : OsTag) (path : List Char) (c : Candidate)
    (root rest : List Char) : Prop where
  path : e.casePath source path c = root ++ rest
  root : e.fold source root = e.cmpSource source c
  boundary : rest = [] ∨ ∃ more, rest = '/' :: more

theorem componentPrefix_fold {s p : List Char} :
    ComponentPrefix '/' s (e.fold source p) ↔
      ∃ s', ComponentPrefix '/' s' p ∧ e.fold source s' = s := by
  unfold fold
  split
  -- Windows: `str.lower` neither makes nor loses a separator
  · exact e.slash.componentPrefix_lower
  · constructor
    · exact fun h => ⟨s, h, rfl⟩
    · rintro ⟨s', h, rfl⟩
      exact h

theorem covers_iff_matched :
    e.covers source path c ↔ ∃ root rest, e.Matched source path c root rest := by
  rw [covers_iff]
  unfold cmpPath
  rw [componentPrefix_fold]
  constructor
  · rintro ⟨root, hpre, hroot⟩
    obtain ⟨rest, hpath, hrest⟩ := ComponentPrefix.iff_append.mp hpre
    exact ⟨root, rest, hpath, hroot, hrest⟩
  · rintro ⟨root, rest, h⟩
    exact ⟨root, ComponentPrefix.iff_append.mpr ⟨rest, h.path, h.boundary⟩, h.root⟩

theorem length_le_fold (s : List Char) : s.length ≤ (e.fold source s).length := by
  unfold fold
  split
  · exact e.unicode.length_le_lower s
  · exact Nat.le_refl _

/-! ## The remainder -/

/-- The cut falls behind the matched root, as far as that root is longer in lower case. -/
theorem Matched.remainder_eq (h : e.Matched source path c root rest) :
    e.remainder source path c =
      lstrip isSeparator (rest.drop ((e.fold source root).length - root.length)) := by
  have hle : root.length ≤ (e.fold source root).length := length_le_fold root
  unfold remainder
  -- the cut is at the length of the lower-case root, counted in the path as it was
  rw [h.path, ← h.root]
  conv_lhs => rw [← Nat.add_sub_cancel' hle]
  rw [← List.drop_drop, List.drop_left]

/-- The remainder is what follows the root: there is nothing to lose, or the extra characters
    of the lower-case root are separators of the path. -/
theorem Matched.remainder_eq_iff (h : e.Matched source path c root rest) :
    e.remainder source path c = lstrip isSeparator rest ↔
      lstrip isSeparator rest = [] ∨
        (e.fold source root).length ≤ root.length + (rest.takeWhile isSeparator).length := by
  rw [h.remainder_eq, lstrip_drop_eq_iff, Nat.sub_le_iff_le_add, Nat.add_comm]

private theorem Matched.remainder_suffix (h : e.Matched source path c root rest) :
    e.remainder source path c <:+ lstrip isSeparator rest := by
  rw [h.remainder_eq]
  exact lstrip_drop_suffix ..

private theorem length_toNative (s : List Char) : (toNative s target).length = s.length := by
  unfold toNative toSlashes
  split
  · exact List.length_map _
  · exact List.length_map _

/-- Remainders that differ make paths that differ. -/
private theorem joined_eq_iff {s t : List Char} (h : s <:+ t) :
    e.joined target c s = e.joined target c t ↔ s = t := by
  constructor
  · intro heq
    have hlen := congrArg List.length heq
    unfold joined at hlen
    rw [length_toNative, length_toNative] at hlen
    apply h.eq_of_length
    -- a separator goes before what is not empty, so the lengths tell the two apart
    by_cases hs : s = []
    · by_cases ht : t = []
      · rw [hs, ht]
      · rw [if_pos hs, if_neg ht, List.length_append, List.length_cons] at hlen
        omega
    · by_cases ht : t = []
      · rw [if_neg hs, if_pos ht, List.length_append, List.length_cons] at hlen
        omega
      · rw [if_neg hs, if_neg ht, List.length_append, List.length_append, List.length_cons,
          List.length_cons] at hlen
        omega
  · rintro rfl
    rfl

/-- The row that is used matches a root in the path; and the path that comes out is its target
    root and what follows the matched root, if and only if nothing follows but separators, or
    the root in lower case is longer by no more than the separators after it. -/
theorem translate_remainder (hused : e.used source target path mappings = some c) :
    (∃ root rest, e.Matched source path c root rest) ∧
      ∀ root rest, e.Matched source path c root rest →
        (e.translate source target path mappings =
            e.joined target c (lstrip isSeparator rest) ↔
          lstrip isSeparator rest = [] ∨
            (e.fold source root).length ≤
              root.length + (rest.takeWhile isSeparator).length) := by
  constructor
  -- the loop stopped at this row
  · exact covers_iff_matched.mp (List.find?_some hused)
  · intro root rest h
    rw [translate_of_used hused, through, joined_eq_iff h.remainder_suffix]
    exact h.remainder_eq_iff

/-- A mac, with the small table. -/
def basic : PathEnv where
  unicode := .basic
  slash := UnicodeData.basic_separator
  home := "/Users/a".toList
  currentOs := .mac

/-- A root that keeps its length. -/
theorem translate_remainder_studio :
    basic.used .win .mac "c:\\Studio\\X\\a.exr".toList [⟨"C:\\studio".toList, "/m".toList, true⟩] =
        some ⟨"C:\\studio".toList, "/m".toList⟩ ∧
      ∀ root rest, basic.Matched .win "c:\\Studio\\X\\a.exr".toList
          ⟨"C:\\studio".toList, "/m".toList⟩ root rest →
        (basic.translate .win .mac "c:\\Studio\\X\\a.exr".toList
            [⟨"C:\\studio".toList, "/m".toList, true⟩] =
            basic.joined .mac ⟨"C:\\studio".toList, "/m".toList⟩ (lstrip isSeparator rest) ↔
          lstrip isSeparator rest = [] ∨
            (basic.fold .win root).length ≤
              root.length + (rest.takeWhile isSeparator).length) :=
  ⟨by decide, (translate_remainder (by decide)).2⟩

/-- Two letters that become four: the cut takes the separator and the first letter of the
    file's name. -/
theorem translate_remainder_counterexample :
    basic.used .win .mac "C:\\İİ\\abc".toList [⟨"C:\\İİ".toList, "/m".toList, true⟩] =
        some ⟨"C:\\İİ".toList, "/m".toList⟩ ∧
      basic.Matched .win "C:\\İİ\\abc".toList ⟨"C:\\İİ".toList, "/m".toList⟩
        "İİ".toList "/abc".toList ∧
      basic.translate .win .mac "C:\\İİ\\abc".toList [⟨"C:\\İİ".toList, "/m".toList, true⟩] =
        "/m/bc".toList ∧
      basic.joined .mac ⟨"C:\\İİ".toList, "/m".toList⟩
        (lstrip isSeparator "/abc".toList) = "/m/abc".toList := by
  refine ⟨by decide, ⟨by decide, by decide, .inr ⟨"abc".toList, by decide⟩⟩, by decide, by decide⟩

end PathEnv

end QCBridge
