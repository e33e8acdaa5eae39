import QCBridge.ForStd.Dict

/-!
# Two dictionaries that are inverse to each other

A one-to-one relation kept twice, so that it can be looked up from both sides. What has to be
done to the one when the other changes: a pair goes from both, a pair is added to both, and a
side that is bound anew loses its old partner.
-/

namespace QCBridge

variable {κ α : Type} [DecidableEq κ] [DecidableEq α]

namespace Dict

/-- Each is the inverse of the other. -/
def Inverse (d : Dict κ α) (d' : Dict α κ) : Prop :=
  ∀ k a, d.get? k = some a ↔ d'.get? a = some k

namespace Inverse

variable {d : Dict κ α} {d' : Dict α κ} {k k' : κ} {a a' : α}

theorem empty : Inverse (Dict.empty : Dict κ α) (Dict.empty : Dict α κ) := by
  intro k a
  simp

/-- Two keys with one value are one key. -/
theorem unique (h : Inverse d d') (hk : d.get? k = some a) (hk' : d.get? k' = some a) :
    k = k' := by
  rw [h k a] at hk
  rw [h k' a, hk] at hk'
  exact Option.some.inj hk'

/-- A pair goes from both. -/
theorem erase (h : Inverse d d') (hpair : d.get? k = some a) :
    Inverse (d.erase k) (d'.erase a) := by
  intro x y
  rw [get?_erase, get?_erase]
  by_cases hx : k = x
  · subst hx
    by_cases hy : a = y
    · simp [hy]
    · -- the partner of the key that went is `a`
      have hno : d'.get? y ≠ some k := by
        rw [ne_eq, ← h, hpair, Option.some.injEq]
        exact hy
      simp [hy, hno]
  · by_cases hy : a = y
    · subst hy
      have hno : d.get? x ≠ some a := fun hxa => hx (h.unique hpair hxa)
      simp [hx, hno]
    · simp [hx, hy, h x y]

/-- A pair of which neither side is bound is added to both. -/
theorem insert (h : Inverse d d') (hk : d.get? k = none) (ha : d'.get? a = none) :
    Inverse (d.insert k a) (d'.insert a k) := by
  intro x y
  rw [get?_insert, get?_insert]
  by_cases hx : k = x
  · subst hx
    by_cases hy : a = y
    · simp [hy]
    · have hno : d'.get? y ≠ some k := by
        rw [ne_eq, ← h, hk]
        simp
      simp [hy, hno]
  · by_cases hy : a = y
    · subst hy
      have hno : d.get? x ≠ some a := by
        rw [ne_eq, h, ha]
        simp
      simp [hx, hno]
    · simp [hx, hy, h x y]

/-- A value that is bound already gets another key, and the old key goes. -/
theorem rebind (h : Inverse d d') (hold : d'.get? a = some k') (hk : d.get? k = none) :
    Inverse ((d.erase k').insert k a) (d'.insert a k) := by
  have hne : k' ≠ k := by
    rintro rfl
    rw [← h, hk] at hold
    cases hold
  -- as if the old pair went from both first
  have hcleared := (h.erase ((h k' a).mpr hold)).insert (k := k) (a := a)
    (by rw [get?_erase, if_neg hne, hk]) (get?_erase_self ..)
  intro x y
  rw [hcleared x y, get?_insert, get?_insert, get?_erase]
  by_cases hy : a = y
  · simp [hy]
  · simp [hy]

end Inverse

end Dict

end QCBridge
