import Mathlib.Algebra.Group.Nat.Defs
import Mathlib.Algebra.Group.Int.Defs
import Mathlib.Data.Nat.Basic
import Mathlib.Data.List.Basic

/-!
# Numbers in bytes

Integers as bytes, the lowest first, and floats by their bits. A float of 32 bits is one of 64
bits as well; one of 64 bits is rounded to the nearest of 32, half to even, and there is none if
it is too large. A float that comes of one of 32 bits goes back to it.

## Key results

- `ofLe_le`: the number that the bytes of a number spell
- `Binary.ofBits_toBits`: the float that the bits of a float make
- `Binary64.narrow_widen`: widened and narrowed
-/

namespace QCBridge

/-! ## Bytes of an integer -/

/-- The `n` lowest bytes of a number, the lowest first. -/
def le : Nat → Nat → List UInt8
  | 0, _ => []
  | n + 1, x => UInt8.ofNat x :: le n (x / 256)

/-- The number that the bytes spell. -/
def ofLe (bytes : List UInt8) : Nat := bytes.foldr (fun b x => b.toNat + 256 * x) 0

@[simp] theorem length_le (n x : Nat) : (le n x).length = n := by
  induction n generalizing x with
  | zero => rfl
  | succ n ih => rw [le, List.length_cons, ih]

theorem ofLe_le (n x : Nat) : ofLe (le n x) = x % 256 ^ n := by
  induction n generalizing x with
  | zero => rw [Nat.pow_zero, Nat.mod_one]; rfl
  | succ n ih =>
    have hcons : ofLe (le (n + 1) x) = x % 256 + 256 * ofLe (le n (x / 256)) := by
      simp [le, ofLe, UInt8.toNat_ofNat']
    rw [hcons, ih, Nat.pow_succ', Nat.mod_mul]

theorem ofLe_le_of_lt {n x : Nat} (h : x < 256 ^ n) : ofLe (le n x) = x := by
  rw [ofLe_le, Nat.mod_eq_of_lt h]

/-! ## Floats by their bits -/

/-- A float with `e` bits of exponent and `m` of fraction: its sign, and exponent and fraction as
    one number. -/
structure Binary (e m : Nat) where
  negative : Bool
  magnitude : Nat
  lt : magnitude < 2 ^ (e + m)
deriving DecidableEq, Repr

abbrev Binary32 := Binary 8 23

abbrev Binary64 := Binary 11 52

namespace Binary

variable {e m : Nat}

def zero : Binary e m := ⟨false, 0, Nat.two_pow_pos _⟩

/-- Where the exponent has every bit. -/
def infinity (e m : Nat) : Nat := (2 ^ e - 1) * 2 ^ m

def IsNaN (x : Binary e m) : Prop := infinity e m < x.magnitude

/-- There are two. -/
def IsZero (x : Binary e m) : Prop := x.magnitude = 0

instance (x : Binary e m) : Decidable x.IsNaN := inferInstanceAs (Decidable (_ < _))

instance (x : Binary e m) : Decidable x.IsZero := inferInstanceAs (Decidable (_ = _))

/-- The equality of numbers: the two zeros are equal, and what is no number is equal to
    nothing. -/
def Equal (x y : Binary e m) : Prop := ¬ x.IsNaN ∧ ¬ y.IsNaN ∧ (x = y ∨ x.IsZero ∧ y.IsZero)

instance (x y : Binary e m) : Decidable (x.Equal y) := inferInstanceAs (Decidable (_ ∧ _))

theorem Equal.refl {x : Binary e m} (h : ¬ x.IsNaN) : x.Equal x := ⟨h, h, .inl rfl⟩

/-- The word of the float, the sign on top. -/
def toBits (x : Binary e m) : Nat := x.negative.toNat * 2 ^ (e + m) + x.magnitude

def ofBits (n : Nat) : Binary e m :=
  ⟨n / 2 ^ (e + m) % 2 = 1, n % 2 ^ (e + m), Nat.mod_lt _ (Nat.two_pow_pos _)⟩

theorem toBits_lt (x : Binary e m) : x.toBits < 2 * 2 ^ (e + m) := by
  have hlt := x.lt
  unfold toBits
  cases x.negative
  · rw [Bool.toNat_false]; omega
  · rw [Bool.toNat_true]; omega

@[simp] theorem ofBits_toBits (x : Binary e m) : ofBits x.toBits = x := by
  obtain ⟨negative, magnitude, hlt⟩ := x
  unfold ofBits toBits
  simp only [Binary.mk.injEq]
  rw [Nat.mul_add_mod_self_right, Nat.mod_eq_of_lt hlt, Nat.mul_comm,
    Nat.mul_add_div (Nat.two_pow_pos _), Nat.div_eq_of_lt hlt, Nat.add_zero]
  cases negative <;> exact ⟨rfl, rfl⟩

end Binary

/-! ## From 32 bits to 64 and back -/

/-- The bits of the same number, the sign aside. -/
def widenMagnitude (m : Nat) : Nat :=
  if m = 0 then 0
  -- what has no leading bit in 32 bits gets one in 64
  else if m < 2 ^ 23 then (m.log2 + 873) * 2 ^ 52 + m * 2 ^ (52 - m.log2)
  else if m < 255 * 2 ^ 23 then (m + 896 * 2 ^ 23) * 2 ^ 29
  else (m + 1792 * 2 ^ 23) * 2 ^ 29

/-- `round` of a quotient: to the nearest, and halves to the even one. -/
def roundHalfEven (n d : Nat) : Nat :=
  let q := n / d
  let r := n % d
  if 2 * r < d then q else if d < 2 * r then q + 1 else q + q % 2

/-- The bits of the nearest number, the sign aside, unless it is too large. What is no number stays
    none. -/
def narrowMagnitude (m : Nat) : Option Nat :=
  if 2047 * 2 ^ 52 < m then some (255 * 2 ^ 23 + (m % 2 ^ 52 / 2 ^ 29 ||| 2 ^ 22))
  else if m = 2047 * 2 ^ 52 then some (255 * 2 ^ 23)
  else
    let exponent := max (m / 2 ^ 52) 1
    let significand := if m < 2 ^ 52 then m else m % 2 ^ 52 + 2 ^ 52
    -- more is cut off where the exponent of 32 bits is at its end
    let shift := max 29 (926 - exponent)
    -- a carry out of the fraction goes on to the exponent
    let r := (exponent + shift - 926) * 2 ^ 23 + roundHalfEven significand (2 ^ shift)
    if r < 255 * 2 ^ 23 then some r else none

private theorem roundHalfEven_mul (n : Nat) {d : Nat} (hd : 0 < d) :
    roundHalfEven (n * d) d = n := by
  unfold roundHalfEven
  simp only
  rw [Nat.mul_mod_left, Nat.mul_zero, if_pos hd, Nat.mul_div_cancel n hd]

/-- A significand of full length. -/
private theorem narrowMagnitude_normal {e p : Nat} (hp : 2 ^ 52 ≤ p) (hp' : p < 2 ^ 53)
    (he : e < 2046) :
    narrowMagnitude (e * 2 ^ 52 + p) =
      if (e + max 29 (925 - e) - 925) * 2 ^ 23 + roundHalfEven p (2 ^ max 29 (925 - e)) <
          255 * 2 ^ 23 then
        some ((e + max 29 (925 - e) - 925) * 2 ^ 23 + roundHalfEven p (2 ^ max 29 (925 - e)))
      else none := by
  have hdiv : (e * 2 ^ 52 + p) / 2 ^ 52 = e + 1 := by omega
  have hmod : (e * 2 ^ 52 + p) % 2 ^ 52 + 2 ^ 52 = p := by omega
  unfold narrowMagnitude
  rw [if_neg (by omega), if_neg (by omega)]
  simp only
  rw [if_neg (by omega : ¬ e * 2 ^ 52 + p < 2 ^ 52), hmod, hdiv,
    show max (e + 1) 1 = e + 1 by omega, show 926 - (e + 1) = 925 - e by omega,
    show e + 1 + max 29 (925 - e) - 926 = e + max 29 (925 - e) - 925 by omega]

/-- A number too small for a full fraction has one when it is widened. -/
private theorem widenMagnitude_subnormal {m : Nat} (hpos : 0 < m) (hm : m < 2 ^ 23) :
    m.log2 ≤ 22 ∧ 2 ^ 52 ≤ m * 2 ^ (52 - m.log2) ∧ m * 2 ^ (52 - m.log2) < 2 ^ 53 := by
  have hlog : m.log2 < 23 := (Nat.log2_lt (Nat.ne_of_gt hpos)).mpr hm
  have hlow : 2 ^ m.log2 ≤ m := Nat.log2_self_le (Nat.ne_of_gt hpos)
  have hhigh : m < 2 ^ (m.log2 + 1) := Nat.lt_log2_self
  refine ⟨Nat.le_of_lt_succ hlog, ?_, ?_⟩
  · calc 2 ^ 52 = 2 ^ m.log2 * 2 ^ (52 - m.log2) := by rw [← Nat.pow_add]; congr 1; omega
      _ ≤ m * 2 ^ (52 - m.log2) := Nat.mul_le_mul_right _ hlow
  · calc m * 2 ^ (52 - m.log2) < 2 ^ (m.log2 + 1) * 2 ^ (52 - m.log2) :=
          Nat.mul_lt_mul_of_pos_right hhigh (Nat.two_pow_pos _)
      _ = 2 ^ 53 := by rw [← Nat.pow_add]; congr 1; omega

private theorem widenMagnitude_lt {m : Nat} (hm : m < 2 ^ 31) : widenMagnitude m < 2 ^ 63 := by
  unfold widenMagnitude
  split
  · exact Nat.two_pow_pos _
  · split
    · rename_i hpos hsmall
      obtain ⟨hlog, -, hhigh⟩ := widenMagnitude_subnormal (Nat.pos_of_ne_zero hpos) hsmall
      omega
    · split <;> omega

private theorem narrow_widenMagnitude {m : Nat} (hm : m ≤ 255 * 2 ^ 23) :
    narrowMagnitude (widenMagnitude m) = some m := by
  unfold widenMagnitude
  split
  · rename_i hzero
    subst hzero
    decide +kernel
  · split
    · rename_i hpos hsmall
      obtain ⟨hlog, hlow, hhigh⟩ := widenMagnitude_subnormal (Nat.pos_of_ne_zero hpos) hsmall
      -- the shift takes off what the widening put on
      rw [narrowMagnitude_normal hlow hhigh (by omega),
        show max 29 (925 - (m.log2 + 873)) = 52 - m.log2 by omega,
        roundHalfEven_mul m (Nat.two_pow_pos _),
        show m.log2 + 873 + (52 - m.log2) - 925 = 0 by omega, Nat.zero_mul, Nat.zero_add,
        if_pos (by omega)]
    · split
      · rename_i hnormal hfinite
        rw [show (m + 896 * 2 ^ 23) * 2 ^ 29 =
            (m / 2 ^ 23 + 895) * 2 ^ 52 + (2 ^ 23 + m % 2 ^ 23) * 2 ^ 29 by omega,
          narrowMagnitude_normal (by omega) (by omega) (by omega),
          show max 29 (925 - (m / 2 ^ 23 + 895)) = 29 by omega,
          roundHalfEven_mul _ (Nat.two_pow_pos _)]
        rw [show (m / 2 ^ 23 + 895 + 29 - 925) * 2 ^ 23 + (2 ^ 23 + m % 2 ^ 23) = m by omega,
          if_pos hfinite]
      · obtain rfl : m = 255 * 2 ^ 23 := by omega
        rfl

private theorem narrowMagnitude_lt {m r : Nat} (h : narrowMagnitude m = some r) : r < 2 ^ 31 := by
  unfold narrowMagnitude at h
  split at h
  · obtain rfl := Option.some.inj h
    have hor : m % 2 ^ 52 / 2 ^ 29 ||| 2 ^ 22 < 2 ^ 23 := Nat.or_lt_two_pow (by omega) (by omega)
    omega
  · split at h
    · obtain rfl := Option.some.inj h
      omega
    · simp only [Option.ite_none_right_eq_some] at h
      obtain ⟨hlt, heq⟩ := h
      obtain rfl := Option.some.inj heq
      omega

/-! ## Floats of both sizes -/

/-- The float of 64 bits with the same number. -/
def Binary32.widen (x : Binary32) : Binary64 :=
  ⟨x.negative, widenMagnitude x.magnitude, widenMagnitude_lt x.lt⟩

theorem Binary32.not_isNaN_widen {x : Binary32} (h : ¬ x.IsNaN) : ¬ x.widen.IsNaN := by
  refine Nat.not_lt.mpr (?_ : widenMagnitude x.magnitude ≤ 2047 * 2 ^ 52)
  have hle : x.magnitude ≤ 255 * 2 ^ 23 := Nat.le_of_not_lt h
  unfold widenMagnitude
  split
  · exact Nat.zero_le _
  · split
    · rename_i hpos hsmall
      obtain ⟨hlog, -, hhigh⟩ := widenMagnitude_subnormal (Nat.pos_of_ne_zero hpos) hsmall
      omega
    · split <;> omega

/-- The nearest float of 32 bits, unless the number is too large. -/
def Binary64.narrow (x : Binary64) : Option Binary32 :=
  match h : narrowMagnitude x.magnitude with
  | some r => some ⟨x.negative, r, narrowMagnitude_lt h⟩
  | none => none

theorem Binary64.narrow_widen {x : Binary32} (h : ¬ x.IsNaN) : x.widen.narrow = some x := by
  have hback := narrow_widenMagnitude (Nat.le_of_not_lt h)
  unfold Binary64.narrow
  split
  · rename_i r hr
    obtain rfl := Option.some.inj (hback.symm.trans hr)
    rfl
  · rename_i hr
    cases hback.symm.trans hr

/-! ## Products and quotients -/

/-- How many units of `2 ^ -1074` a number has, given its bits, the sign aside. -/
def unitsOf (magnitude : Nat) : Nat :=
  if magnitude < 2 ^ 52 then magnitude
  else (magnitude % 2 ^ 52 + 2 ^ 52) * 2 ^ (magnitude / 2 ^ 52 - 1)

/-- The bits of the number of 64 bits that is nearest to `n / d` units, and of two the even one. -/
def nearestUnits (n d : Nat) : Nat :=
  -- what does not fit into the 53 bits of the significand
  let cut := (n / d).log2 - 52
  -- a carry out of the fraction goes on to the exponent
  cut * 2 ^ 52 + roundHalfEven n (d * 2 ^ cut)

/-- The float that is nearest to `n / d`. -/
def Binary64.ofQuotient (n d : Nat) : Binary64 := .ofBits (nearestUnits (n * 2 ^ 1074) d)

/-- The product with `k`, rounded to a float, and cut to an integer. There is none of what is no
    number, or if the product is too large. -/
def Binary64.timesInt (x : Binary64) (k : Nat) : Option Int :=
  let product := nearestUnits (unitsOf x.magnitude * k) 1
  if 2047 * 2 ^ 52 ≤ x.magnitude ∨ 2047 * 2 ^ 52 ≤ product then none
  else
    let cut : Int := unitsOf product / 2 ^ 1074
    some (if x.negative then -cut else cut)

end QCBridge
