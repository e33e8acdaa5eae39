import Mathlib.Data.List.Basic

/-!
# Bytes in hexadecimal

Two lower-case digits a byte. The reader takes upper-case digits too, and nothing but digits.
-/

namespace QCBridge

namespace Hex

/-- The digit of a number below 16. -/
def digit (n : Nat) : Char := Char.ofNat (if n < 10 then 0x30 + n else 0x57 + n)

/-- The number of a digit. -/
def ofDigit (c : Char) : Option Nat :=
  if '0' ≤ c ∧ c ≤ '9' then some (c.toNat - 0x30)
  else if 'a' ≤ c ∧ c ≤ 'f' then some (c.toNat - 0x57)
  else if 'A' ≤ c ∧ c ≤ 'F' then some (c.toNat - 0x37)
  else none

/-- The digits of a byte. -/
def encodeByte (b : UInt8) : List Char := [digit (b.toNat / 16), digit (b.toNat % 16)]

/-- The digits of some bytes. -/
def encode (bytes : List UInt8) : List Char := bytes.flatMap encodeByte

/-- The bytes of some digits; an odd number of them is no text of bytes. -/
def decode : List Char → Option (List UInt8)
  | [] => some []
  | [_] => none
  | hi :: lo :: rest => do
    let hi ← ofDigit hi
    let lo ← ofDigit lo
    return UInt8.ofNat (hi * 16 + lo) :: (← decode rest)

private theorem ofDigit_digit : ∀ n < 16, ofDigit (digit n) = some n := by decide

theorem decode_encode (bytes : List UInt8) : decode (encode bytes) = some bytes := by
  induction bytes with
  | nil => rfl
  | cons b bytes ih =>
    have hb := b.toNat_lt
    have hbyte : UInt8.ofNat (b.toNat / 16 * 16 + b.toNat % 16) = b := by
      rw [Nat.div_add_mod', UInt8.ofNat_toNat]
    show decode (digit (b.toNat / 16) :: digit (b.toNat % 16) :: encode bytes) = _
    rw [decode, ofDigit_digit _ (by omega), ofDigit_digit _ (by omega), ih]
    exact congrArg (fun b => some (b :: bytes)) hbyte

/-- What the digits of a number below 16 have in common, the digits of bytes have. -/
theorem forall_mem_encode {P : Char → Prop} (h : ∀ n < 16, P (digit n)) (bytes : List UInt8) :
    ∀ c ∈ encode bytes, P c := by
  intro c hc
  obtain ⟨b, -, hb⟩ := List.mem_flatMap.mp hc
  have hlt := b.toNat_lt
  rcases List.mem_cons.mp hb with rfl | hb
  · exact h _ (by omega)
  · rw [List.mem_singleton.mp hb]
    exact h _ (by omega)

end Hex

end QCBridge
