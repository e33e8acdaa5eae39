import QCBridge.ForStd.Priority
import QCBridge.Spec.PathRemainder

/-!
# Which row of the table is used

The rows are tried by the length of their text, the longest first, and compared in another
form: with the home directory in place, without drive letter, in lower case. Where the longest
text is not the longest of these forms, the row that is used is not the most specific one.

## Key results

- `PathEnv.MostSpecific`, `PathEnv.OrderFree`: what is asked of a table and a path
- `PathEnv.Clear`: the rows that cover the path are ordered by their text as by their form
- `PathEnv.most_specific_iff`: the one if and only if the other
- `PathEnv.most_specific_counterexample`: a drive letter is longer than a component
-/

namespace QCBridge

namespace PathEnv

variable {e : PathEnv} {source target : OsTag} {path : List Char}
  {mappings mappings' : List PathMapping} {c d : Candidate}

/-- The rows that cover the path. -/
def covering (e : PathEnv) (source target : OsTag) (path : List Char)
    (mappings : List PathMapping) : List Candidate :=
  (candidates source target mappings).filter (e.covers source path)

/-- A row is used if one covers the path, and none that does has a longer form. -/
def MostSpecific (e : PathEnv) (source target : OsTag) (path : List Char)
    (mappings : List PathMapping) : Prop :=
  e.covering source target path mappings ≠ [] →
    ∃ c, e.used source target path mappings = some c ∧
      ∀ d ∈ e.covering source target path mappings,
        (e.cmpSource source d).length ≤ (e.cmpSource source c).length

/-- Where the forms of the rows are distinct, their order does not matter. -/
def OrderFree (e : PathEnv) (source target : OsTag) (path : List Char)
    (mappings : List PathMapping) : Prop :=
  ((e.covering source target path mappings).map (e.cmpSource source)).Nodup →
    ∀ mappings', mappings'.Perm mappings →
      e.translate source target path mappings' = e.translate source target path mappings

/-- No row that covers the path has a longer text. -/
def Longest (e : PathEnv) (source target : OsTag) (path : List Char)
    (mappings : List PathMapping) (c : Candidate) : Prop :=
  c ∈ e.covering source target path mappings ∧
    ∀ d ∈ e.covering source target path mappings, d.textLength ≤ c.textLength

/-- The rows of the longest text have the longest form; and if one is a bare drive root and
    another is not, they translate the path alike. -/
structure Clear (e : PathEnv) (source target : OsTag) (path : List Char)
    (mappings : List PathMapping) : Prop where
  forms : ∀ c, e.Longest source target path mappings c →
    ∀ d ∈ e.covering source target path mappings,
      (e.cmpSource source d).length ≤ (e.cmpSource source c).length
  drives : ((e.covering source target path mappings).map (e.cmpSource source)).Nodup →
    ∀ c d, e.Longest source target path mappings c → e.Longest source target path mappings d →
      e.bareDrive source c → ¬ e.bareDrive source d →
      e.through source target path c = e.through source target path d

/-! ## The row that is used -/

theorem mem_covering : c ∈ e.covering source target path mappings ↔
    c ∈ candidates source target mappings ∧ e.covers source path c := List.mem_filter

private theorem mem_covering_perm (h : mappings'.Perm mappings) :
    c ∈ e.covering source target path mappings' ↔ c ∈ e.covering source target path mappings := by
  rw [mem_covering, mem_covering, mem_candidates, mem_candidates]
  simp only [h.mem_iff]

private theorem longest_perm (h : mappings'.Perm mappings) :
    e.Longest source target path mappings' c ↔ e.Longest source target path mappings c := by
  unfold Longest
  simp only [mem_covering_perm h]

theorem used_isSome (h : e.covering source target path mappings ≠ []) :
    ∃ c, e.used source target path mappings = some c := by
  obtain ⟨c, hc⟩ := List.exists_mem_of_ne_nil _ h
  rw [mem_covering] at hc
  exact Option.isSome_iff_exists.mp (List.find?_isSome.mpr ⟨c, hc.1, hc.2⟩)

theorem longest_of_used (h : e.used source target path mappings = some c) :
    e.Longest source target path mappings c := by
  refine ⟨mem_covering.mpr ⟨List.mem_of_find?_eq_some h, List.find?_some h⟩, fun d hd => ?_⟩
  -- rows are tried by the length of their text
  rw [mem_covering] at hd
  exact key_le_of_find?_insertionSort h ((List.mem_insertionSort _).mp hd.1) hd.2

/-- Each row of the longest text is the one that is used, in some order of the table. -/
private theorem exists_perm_used (h : e.Longest source target path mappings c) :
    ∃ mappings', mappings'.Perm mappings ∧ e.used source target path mappings' = some c := by
  obtain ⟨hin, hcov⟩ := mem_covering.mp h.1
  obtain ⟨m, hm, hcand⟩ := mem_candidates.mp hin
  obtain ⟨before, after, rfl⟩ := List.append_of_mem hm
  -- its row goes to the front of the table; the sort keeps the order of equal lengths
  have hperm : (m :: (before ++ after)).Perm (before ++ m :: after) := List.perm_middle.symm
  have hhead : (m :: (before ++ after)).filterMap (·.candidate source target) =
      c :: (before ++ after).filterMap (·.candidate source target) :=
    List.filterMap_cons_some hcand
  refine ⟨m :: (before ++ after), hperm, ?_⟩
  unfold used candidates
  rw [hhead]
  apply find?_insertionSort_cons hcov
  intro d hd hdcov
  apply h.2 d
  rw [← mem_covering_perm hperm, mem_covering]
  refine ⟨?_, hdcov⟩
  unfold candidates
  rw [List.mem_insertionSort, hhead]
  exact List.mem_cons_of_mem _ hd

private theorem translate_of_uncovered (h : e.covering source target path mappings = []) :
    e.translate source target path mappings = toNative path target := by
  have hnone : e.used source target path mappings = none := by
    rw [used, List.find?_eq_none]
    intro c hc hcov
    exact List.ne_nil_of_mem (mem_covering.mpr ⟨hc, hcov⟩) h
  unfold translate
  rw [hnone]

/-- Two rows that cover one path and are compared with it alike have one form, if they have
    forms of one length. -/
private theorem cmpSource_eq (hc : e.covers source path c) (hd : e.covers source path d)
    (hbare : e.bareDrive source c = e.bareDrive source d)
    (hlen : (e.cmpSource source c).length = (e.cmpSource source d).length) :
    e.cmpSource source c = e.cmpSource source d := by
  -- prefixes of one length of one path
  have hpath : e.cmpPath source path c = e.cmpPath source path d := by
    unfold cmpPath casePath
    rw [hbare]
  rw [covers_iff] at hc hd
  rw [hpath] at hc
  exact hc.eq_of_length_eq hd hlen

/-! ## Order of text and order of form -/

/-- Rows of the longest text translate the path alike. -/
private theorem Clear.alike (h : e.Clear source target path mappings)
    (hnodup : ((e.covering source target path mappings).map (e.cmpSource source)).Nodup)
    (hc : e.Longest source target path mappings c)
    (hd : e.Longest source target path mappings d) :
    e.through source target path c = e.through source target path d := by
  by_cases hbare : e.bareDrive source c = e.bareDrive source d
  -- both are the longest form, so they are one form, and one row
  · have hlen := Nat.le_antisymm (h.forms d hd c hc.1) (h.forms c hc d hd.1)
    have heq := cmpSource_eq (mem_covering.mp hc.1).2 (mem_covering.mp hd.1).2 hbare hlen
    rw [List.inj_on_of_nodup_map hnodup hc.1 hd.1 heq]
  -- one of the two is a bare drive root
  · by_cases hdrive : e.bareDrive source c = true
    · exact h.drives hnodup c d hc hd hdrive fun hd' => hbare (hdrive.trans hd'.symm)
    · have hdrive' : e.bareDrive source d = true := by
        rw [Bool.not_eq_true] at hdrive
        rw [hdrive] at hbare
        exact Bool.eq_true_of_not_eq_false fun hf => hbare hf.symm
      exact (h.drives hnodup d c hd hc hdrive' hdrive).symm

private theorem Clear.orderFree (h : e.Clear source target path mappings) :
    e.OrderFree source target path mappings := by
  intro hnodup mappings' hperm
  by_cases hnil : e.covering source target path mappings = []
  · have hnil' : e.covering source target path mappings' = [] := by
      rw [List.eq_nil_iff_forall_not_mem] at hnil ⊢
      intro c hc
      exact hnil c ((mem_covering_perm hperm).mp hc)
    rw [translate_of_uncovered hnil, translate_of_uncovered hnil']
  · have hnil' : e.covering source target path mappings' ≠ [] := by
      obtain ⟨c, hc⟩ := List.exists_mem_of_ne_nil _ hnil
      exact List.ne_nil_of_mem ((mem_covering_perm hperm).mpr hc)
    obtain ⟨c, hc⟩ := used_isSome hnil
    obtain ⟨d, hd⟩ := used_isSome hnil'
    rw [translate_of_used hc, translate_of_used hd]
    exact h.alike hnodup ((longest_perm hperm).mp (longest_of_used hd)) (longest_of_used hc)

theorem Clear.mostSpecific (h : e.Clear source target path mappings)
    (hperm : mappings'.Perm mappings) : e.MostSpecific source target path mappings' := by
  intro hne
  obtain ⟨c, hc⟩ := used_isSome hne
  refine ⟨c, hc, fun d hd => ?_⟩
  exact h.forms c ((longest_perm hperm).mp (longest_of_used hc)) d ((mem_covering_perm hperm).mp hd)

/-- Whatever the order of the table, the row that is used has the longest form of those that
    cover the path, and the order does not change what comes out, if and only if the rows of
    the longest text have the longest form, and a bare drive root among them translates the
    path as the others do. -/
theorem most_specific_iff (e : PathEnv) (source target : OsTag) (path : List Char)
    (mappings : List PathMapping) :
    ((∀ mappings', mappings'.Perm mappings → e.MostSpecific source target path mappings') ∧
        e.OrderFree source target path mappings) ↔
      e.Clear source target path mappings := by
  constructor
  · rintro ⟨hspecific, hfree⟩
    constructor
    case forms =>
      -- a row of the longest text is used in some order, and is the most specific one there
      intro c hc d hd
      obtain ⟨mappings', hperm, hused⟩ := exists_perm_used hc
      obtain ⟨c', hused', hlongest⟩ := hspecific mappings' hperm
        (List.ne_nil_of_mem ((mem_covering_perm hperm).mpr hc.1))
      obtain rfl : c = c' := Option.some.inj (hused.symm.trans hused')
      exact hlongest d ((mem_covering_perm hperm).mpr hd)
    case drives =>
      -- each of the two is used in some order, and the orders give one path
      intro hnodup c d hc hd _ _
      obtain ⟨mappings₁, hperm₁, hused₁⟩ := exists_perm_used hc
      obtain ⟨mappings₂, hperm₂, hused₂⟩ := exists_perm_used hd
      rw [← translate_of_used hused₁, ← translate_of_used hused₂, hfree hnodup _ hperm₁,
        hfree hnodup _ hperm₂]
  · intro h
    exact ⟨fun mappings' hperm => h.mostSpecific hperm, h.orderFree⟩

/-- A root of one component, with a drive letter, is tried before a root of two without. -/
theorem most_specific_counterexample :
    ¬ basic.MostSpecific .win .mac "C:\\a\\b\\x".toList
      [⟨"a\\b".toList, "/m".toList, true⟩, ⟨"C:\\a".toList, "/n".toList, true⟩] := by
  intro h
  obtain ⟨c, hused, hlongest⟩ := h (by decide)
  obtain rfl : c = ⟨"C:\\a".toList, "/n".toList⟩ := Option.some.inj (hused.symm.trans (by decide))
  exact absurd (hlongest ⟨"a\\b".toList, "/m".toList⟩ (by decide)) (by decide)

end PathEnv

end QCBridge
