import Mathlib.Algebra.Group.Nat.Defs
import Mathlib.Data.Nat.Basic
import Mathlib.Data.List.Basic

/-!
# Bits of a word

A word put together from a list of bits, and the sum of its bytes: one bit more or less changes
the sum by less than a byte.
-/

namespace QCBridge

/-- The word with these bits, the lowest first: each is shifted to its place. -/
def ofBits (bits : List Bool) : Nat :=
  bits.zipIdx.foldl (fun word b => word ||| b.1.toNat <<< b.2) 0

private theorem testBit_toNat_shiftLeft (b : Bool) (i j : Nat) :
    (b.toNat <<< i).testBit j = (b && decide (i = j)) := by
  cases b with
  | false => simp
  | true =>
    rw [Bool.toNat_true, Nat.shiftLeft_eq, Nat.one_mul, Nat.testBit_two_pow, Bool.true_and]

@[simp] theorem testBit_ofBits (bits : List Bool) (j : Nat) :
    (ofBits bits).testBit j = bits[j]?.getD false := by
  -- generalised over the word that the fold has reached
  suffices hall : ∀ (k word : Nat), ((bits.zipIdx k).foldl
      (fun word b => word ||| b.1.toNat <<< b.2) word).testBit j =
        (word.testBit j || (decide (k ≤ j) && bits[j - k]?.getD false)) by
    have hzero := hall 0 0
    rw [Nat.zero_testBit, Bool.false_or, decide_eq_true (Nat.zero_le j), Bool.true_and,
      Nat.sub_zero] at hzero
    exact hzero
  -- the induction is on the bits, the first of which is the lowest
  induction bits with
  | nil =>
    intro k word
    rw [List.zipIdx_nil, List.foldl_nil, List.getElem?_nil, Option.getD_none, Bool.and_false,
      Bool.or_false]
  | cons b bits ih =>
    intro k word
    rw [List.zipIdx_cons, List.foldl_cons, ih, Nat.testBit_or, testBit_toNat_shiftLeft,
      Bool.or_assoc]
    congr 1
    -- below this bit, at it, and above it
    rcases Nat.lt_trichotomy j k with hlt | rfl | hgt
    · rw [decide_eq_false (by omega), decide_eq_false (by omega), decide_eq_false (by omega)]
      simp
    · rw [decide_eq_true rfl, decide_eq_false (by omega), decide_eq_true (Nat.le_refl j)]
      simp
    · obtain ⟨d, hd⟩ : ∃ d, j - k = d + 1 := ⟨j - k - 1, by omega⟩
      rw [decide_eq_false (by omega), decide_eq_true (by omega), decide_eq_true (by omega), hd,
        List.getElem?_cons_succ, show j - (k + 1) = d by omega]
      simp

/-- The bits of a word, put together. -/
theorem ofBits_testBit {n word : Nat} (hword : word < 2 ^ n) :
    ofBits ((List.range n).map fun i => word.testBit i) = word := by
  refine Nat.eq_of_testBit_eq fun j => ?_
  rw [testBit_ofBits, List.getElem?_map]
  by_cases hj : j < n
  · rw [List.getElem?_range hj]
    rfl
  · have hhigh : word < 2 ^ j :=
      Nat.lt_of_lt_of_le hword (Nat.pow_le_pow_right Nat.two_pos (Nat.le_of_not_lt hj))
    rw [List.getElem?_eq_none (by rw [List.length_range]; omega), Nat.testBit_lt_two_pow hhigh]
    rfl

/-- One of the bits, flipped. -/
theorem ofBits_modify {bits : List Bool} {j : Nat} (hj : j < bits.length) :
    ofBits (bits.modify j not) = ofBits bits ^^^ 2 ^ j := by
  refine Nat.eq_of_testBit_eq fun i => ?_
  rw [Nat.testBit_xor, testBit_ofBits, testBit_ofBits, Nat.testBit_two_pow, List.getElem?_modify]
  by_cases hij : j = i
  · subst hij
    rw [List.getElem?_eq_getElem hj]
    simp
  · simp [hij]

/-- The bit is there or it is not. -/
theorem xor_two_pow (word j : Nat) :
    word ^^^ 2 ^ j = word + 2 ^ j ∨ word = (word ^^^ 2 ^ j) + 2 ^ j := by
  -- the induction is on the bit
  induction j generalizing word with
  | zero =>
    have hdiv : (word ^^^ 1) / 2 = word / 2 :=
      (Nat.xor_div_two_pow (n := 1)).trans (Nat.xor_zero _)
    have hmod : (word ^^^ 1) % 2 = word % 2 ^^^ 1 := Nat.xor_mod_two_pow (n := 1)
    rw [Nat.pow_zero]
    -- the lowest bit: it flips
    rcases Nat.mod_two_eq_zero_or_one word with h | h
    · rw [h] at hmod
      change _ = 1 at hmod
      omega
    · rw [h] at hmod
      change _ = 0 at hmod
      omega
  -- a higher one: it is a lower one of the half
  | succ j ih =>
    have hdiv := Nat.xor_div_two_pow (a := word) (b := 2 ^ (j + 1)) (n := 1)
    have hmod := Nat.xor_mod_two_pow (a := word) (b := 2 ^ (j + 1)) (n := 1)
    have hhalf : 2 ^ (j + 1) / 2 = 2 ^ j := by
      rw [Nat.pow_succ, Nat.mul_div_cancel _ Nat.two_pos]
    have heven : 2 ^ (j + 1) % 2 = 0 := by rw [Nat.pow_succ, Nat.mul_mod_left]
    rw [Nat.pow_one, hhalf] at hdiv
    rw [Nat.pow_one, heven, Nat.xor_zero] at hmod
    have := ih (word / 2)
    have := Nat.pow_succ 2 j
    omega

/-- The sum of the first `n` bytes. -/
def byteSum : Nat → Nat → Nat
  | 0, _ => 0
  | n + 1, word => word % 256 + byteSum n (word / 256)

private theorem byteSum_xor {n j : Nat} (hj : j < 8 * n) (word : Nat) :
    byteSum n (word ^^^ 2 ^ j) = byteSum n word + 2 ^ (j % 8) ∨
      byteSum n word = byteSum n (word ^^^ 2 ^ j) + 2 ^ (j % 8) := by
  induction n generalizing j word with
  | zero => omega
  | succ n ih =>
    have hdiv := Nat.xor_div_two_pow (a := word) (b := 2 ^ j) (n := 8)
    have hmod := Nat.xor_mod_two_pow (a := word) (b := 2 ^ j) (n := 8)
    rw [show (2 : Nat) ^ 8 = 256 from rfl] at hdiv hmod
    simp only [byteSum]
    rw [hdiv, hmod]
    by_cases hlow : j < 8
    · have hsmall : 2 ^ j < 256 := Nat.pow_lt_pow_right (by decide) hlow
      rw [Nat.div_eq_of_lt hsmall, Nat.mod_eq_of_lt hsmall, Nat.xor_zero, Nat.mod_eq_of_lt hlow]
      have := xor_two_pow (word % 256) j
      omega
    · obtain ⟨i, rfl⟩ : ∃ i, j = i + 8 := ⟨j - 8, by omega⟩
      have hpow : 2 ^ (i + 8) = 2 ^ i * 256 := Nat.pow_add 2 i 8
      rw [hpow, Nat.mul_mod_left, Nat.xor_zero, Nat.mul_div_cancel _ (by decide),
        Nat.add_mod_right]
      have := ih (j := i) (by omega) (word / 256)
      omega

theorem byteSum_xor_of_le {n j : Nat} (hj : 8 * n ≤ j) (word : Nat) :
    byteSum n (word ^^^ 2 ^ j) = byteSum n word := by
  induction n generalizing j word with
  | zero => rfl
  | succ n ih =>
    obtain ⟨i, rfl⟩ : ∃ i, j = i + 8 := ⟨j - 8, by omega⟩
    have hdiv := Nat.xor_div_two_pow (a := word) (b := 2 ^ (i + 8)) (n := 8)
    have hmod := Nat.xor_mod_two_pow (a := word) (b := 2 ^ (i + 8)) (n := 8)
    have hpow : 2 ^ (i + 8) = 2 ^ i * 256 := Nat.pow_add 2 i 8
    rw [show (2 : Nat) ^ 8 = 256 from rfl, hpow] at hdiv hmod
    rw [Nat.mul_div_cancel _ (by decide)] at hdiv
    rw [Nat.mul_mod_left, Nat.xor_zero] at hmod
    simp only [byteSum]
    rw [hpow, hdiv, hmod, ih (by omega)]

/-- A sum of bytes modulo a byte tells a flipped bit. -/
theorem byteSum_xor_mod_ne {n j : Nat} (hj : j < 8 * n) (word : Nat) :
    byteSum n (word ^^^ 2 ^ j) % 256 ≠ byteSum n word % 256 := by
  have hpos : 0 < 2 ^ (j % 8) := Nat.two_pow_pos _
  have hsmall : 2 ^ (j % 8) < 2 ^ 8 := Nat.pow_lt_pow_right (by decide) (Nat.mod_lt j (by decide))
  have := byteSum_xor hj word
  omega

end QCBridge
