import QCBridge.ForStd.Components

/-!
# `str.lower`

Each character becomes the characters of its full lower-case mapping, one or more of them.
Only the capital sigma looks around itself: it ends a word when a cased letter stands before
it and none after, the case-ignorable characters between not counted.

The tables are those of the Unicode character database, of whatever version.
-/

namespace QCBridge

/-- What `str.lower` and `str.isalpha` read of the Unicode character database. -/
structure UnicodeData where
  lowerFull : Char → List Char
  isAlpha : Char → Bool
  isCased : Char → Bool
  isCaseIgnorable : Char → Bool
  lowerFull_ne_nil : ∀ c, lowerFull c ≠ []

namespace UnicodeData

variable (u : UnicodeData)

/-- Whether a cased letter comes next, case-ignorable characters apart. -/
def casedNext (s : List Char) : Bool := (s.dropWhile u.isCaseIgnorable).head?.any u.isCased

/-- `s` in lower case, what stands before it being given from its end. -/
def lowerAt : List Char → List Char → List Char
  | _, [] => []
  | before, c :: rest =>
    (if c = 'Σ' then [if u.casedNext before && !u.casedNext rest then 'ς' else 'σ']
      else u.lowerFull c) ++ lowerAt (c :: before) rest

/-- `str.lower`. -/
def lower (s : List Char) : List Char := u.lowerAt [] s

@[simp] theorem lower_nil : u.lower [] = [] := rfl

private theorem length_le_lowerAt (before s : List Char) :
    s.length ≤ (u.lowerAt before s).length := by
  induction s generalizing before with
  | nil => exact Nat.zero_le _
  | cons c rest ih =>
    have hrest := ih (c :: before)
    have hc := List.length_pos_iff.mpr (u.lowerFull_ne_nil c)
    unfold lowerAt
    rw [List.length_append, List.length_cons]
    split
    · rw [List.length_singleton]
      omega
    · omega

/-- Nothing gets shorter. -/
theorem length_le_lower (s : List Char) : s.length ≤ (u.lower s).length := u.length_le_lowerAt [] s

/-- A character that is no letter, stands for itself only, and that no word goes across. -/
structure Separator (sep : Char) : Prop where
  not_alpha : u.isAlpha sep = false
  lowerFull : u.lowerFull sep = [sep]
  others : ∀ c, c ≠ sep → sep ∉ u.lowerFull c
  not_cased : u.isCased sep = false
  not_ignorable : u.isCaseIgnorable sep = false
  not_sigma : sep ≠ 'Σ' ∧ sep ≠ 'σ' ∧ sep ≠ 'ς'

namespace Separator

variable {u} {sep : Char} (h : u.Separator sep)

include h

/-- Nothing beyond a separator is seen. -/
private theorem casedNext_append (s t : List Char) :
    u.casedNext (s ++ sep :: t) = u.casedNext s := by
  induction s with
  | nil =>
    unfold casedNext
    rw [List.nil_append, List.dropWhile_cons_of_neg (by rw [h.not_ignorable]; simp)]
    exact h.not_cased
  | cons c s ih =>
    unfold casedNext at ih ⊢
    rw [List.cons_append, List.dropWhile_cons, List.dropWhile_cons]
    split
    · exact ih
    · rfl

private theorem lowerAt_before (s before more : List Char) :
    u.lowerAt (before ++ sep :: more) s = u.lowerAt before s := by
  induction s generalizing before with
  | nil => rfl
  | cons c rest ih =>
    unfold lowerAt
    rw [h.casedNext_append, ← List.cons_append, ih (c :: before)]

private theorem lowerAt_append (s t before : List Char) :
    u.lowerAt before (s ++ sep :: t) = u.lowerAt before s ++ sep :: u.lower t := by
  induction s generalizing before with
  | nil =>
    show (if sep = 'Σ' then _ else u.lowerFull sep) ++ u.lowerAt (sep :: before) t = _
    rw [if_neg h.not_sigma.1, h.lowerFull]
    exact congrArg (sep :: ·) (h.lowerAt_before t [] before)
  | cons c s ih =>
    rw [List.cons_append, lowerAt, lowerAt, h.casedNext_append, ih, List.append_assoc]

/-- Component by component. -/
theorem lower_append (s t : List Char) :
    u.lower (s ++ sep :: t) = u.lower s ++ sep :: u.lower t := h.lowerAt_append s t []

private theorem not_mem_lowerAt {s : List Char} (hs : sep ∉ s) (before : List Char) :
    sep ∉ u.lowerAt before s := by
  induction s generalizing before with
  | nil => exact List.not_mem_nil
  | cons c rest ih =>
    rw [List.mem_cons, not_or] at hs
    obtain ⟨hc, hrest⟩ := hs
    unfold lowerAt
    rw [List.mem_append]
    rintro (hin | hin)
    · split at hin
      · rw [List.mem_singleton] at hin
        split at hin
        · exact h.not_sigma.2.2 hin
        · exact h.not_sigma.2.1 hin
      · exact h.others c (Ne.symm hc) hin
    · exact ih hrest _ hin

/-- A separator of the lower-case text comes from one of the text, and parts it alike. -/
private theorem lower_eq_append {p : List Char} {s t : List Char}
    (heq : u.lower p = s ++ sep :: t) :
    ∃ s' t', p = s' ++ sep :: t' ∧ u.lower s' = s ∧ u.lower t' = t := by
  induction hn : p.length using Nat.strongRecOn generalizing p s with
  | ind n ih =>
    by_cases hp : sep ∈ p
    · -- the first component, and the rest of the text
      obtain ⟨a, b, hab, ha⟩ := List.eq_append_cons_of_mem hp
      subst hab
      rw [h.lower_append] at heq
      have hla : sep ∉ u.lower a := h.not_mem_lowerAt ha []
      rcases List.append_eq_append_iff.mp heq with ⟨more, rfl, hmore⟩ | ⟨more, hmore, htail⟩
      · cases more with
        | nil => exact ⟨a, b, rfl, (List.append_nil _).symm, (List.cons.inj hmore).2⟩
        | cons c more =>
          obtain ⟨rfl, hb⟩ := List.cons.inj hmore
          obtain ⟨s', t', rfl, hs', ht'⟩ := ih b.length (by
            rw [← hn, List.length_append, List.length_cons]
            omega) hb rfl
          refine ⟨a ++ sep :: s', t', by simp, ?_, ht'⟩
          rw [h.lower_append, hs']
      · cases more with
        | nil =>
          rw [List.append_nil] at hmore
          exact ⟨a, b, rfl, hmore, (List.cons.inj htail).2.symm⟩
        | cons c more =>
          obtain ⟨rfl, -⟩ := List.cons.inj htail
          exact absurd (hmore ▸ by simp) hla
    · have hin : sep ∈ u.lower p := by
        rw [heq]
        simp
      exact absurd hin (h.not_mem_lowerAt hp [])

/-- A prefix of the lower-case text is one of the text, in lower case. -/
theorem componentPrefix_lower {s p : List Char} :
    ComponentPrefix sep s (u.lower p) ↔ ∃ s', ComponentPrefix sep s' p ∧ u.lower s' = s := by
  constructor
  · rintro (rfl | ⟨rest, heq⟩)
    · exact ⟨p, .refl sep p, rfl⟩
    · obtain ⟨s', t', rfl, hs', -⟩ := h.lower_eq_append heq
      exact ⟨s', .inr ⟨t', rfl⟩, hs'⟩
  · rintro ⟨s', rfl | ⟨rest, rfl⟩, rfl⟩
    · exact .refl sep _
    · exact .inr ⟨u.lower rest, h.lower_append s' rest⟩

end Separator

/-! ## A small table -/

/-- ASCII, and the one letter whose lower case is two characters. -/
def basic : UnicodeData where
  lowerFull c := if c = 'İ' then ['i', Char.ofNat 0x307] else [c.toLower]
  isAlpha c := c.isAlpha || c == 'İ'
  isCased c := c.isAlpha || c == 'İ'
  isCaseIgnorable c := c == ':' || c == '.' || c == Char.ofNat 0x307
  lowerFull_ne_nil c := by
    split
    · exact List.cons_ne_nil _ _
    · exact List.cons_ne_nil _ _

private theorem toLower_ne_slash {c : Char} (hc : c ≠ '/') : c.toLower ≠ '/' := by
  unfold Char.toLower
  split
  next hupper =>
    intro heq
    have hval : c.val + 32 = 47 := congrArg Char.val heq
    have hchar : c.val = 15 := by grind
    rw [hchar] at hupper
    exact absurd hupper (by decide)
  · exact hc

theorem basic_separator : basic.Separator '/' where
  not_alpha := by decide
  lowerFull := by decide
  others c hc := by
    show '/' ∉ (if c = 'İ' then ['i', Char.ofNat 0x307] else [c.toLower])
    split
    · decide
    · rw [List.mem_singleton]
      exact Ne.symm (toLower_ne_slash hc)
  not_cased := by decide
  not_ignorable := by decide
  not_sigma := by decide

end UnicodeData

end QCBridge
