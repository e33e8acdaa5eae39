import Mathlib.Data.List.Basic

/-!
# Prefixes at component boundaries

A text with a separator is a list of components. `ComponentPrefix sep a p`: the first
components of `p` are those of `a`.
-/

namespace QCBridge

variable {α : Type} {sep : α} {a b p : List α}

/-- `p` is `a`, or goes on with a separator. -/
def ComponentPrefix (sep : α) (a p : List α) : Prop := p = a ∨ ∃ rest, p = a ++ sep :: rest

namespace ComponentPrefix

theorem refl (sep : α) (a : List α) : ComponentPrefix sep a a := .inl rfl

theorem iff_append : ComponentPrefix sep a p ↔
    ∃ rest, p = a ++ rest ∧ (rest = [] ∨ ∃ more, rest = sep :: more) := by
  constructor
  · rintro (rfl | ⟨rest, rfl⟩)
    · exact ⟨[], (List.append_nil _).symm, .inl rfl⟩
    · exact ⟨sep :: rest, rfl, .inr ⟨rest, rfl⟩⟩
  · rintro ⟨rest, rfl, rfl | ⟨more, rfl⟩⟩
    · exact .inl (List.append_nil _)
    · exact .inr ⟨more, rfl⟩

theorem iff_isPrefix : ComponentPrefix sep a p ↔ p = a ∨ (a ++ [sep]) <+: p := by
  apply or_congr_right
  constructor
  · rintro ⟨rest, rfl⟩
    exact ⟨rest, by rw [List.append_assoc, List.singleton_append]⟩
  · rintro ⟨rest, rfl⟩
    exact ⟨rest, by rw [List.append_assoc, List.singleton_append]⟩

instance [DecidableEq α] : Decidable (ComponentPrefix sep a p) :=
  decidable_of_iff _ iff_isPrefix.symm

theorem isPrefix (h : ComponentPrefix sep a p) : a <+: p := by
  obtain ⟨rest, rfl, -⟩ := iff_append.mp h
  exact List.prefix_append a rest

/-- Of two prefixes of one text, the shorter is one of the longer. -/
private theorem of_length_le (ha : ComponentPrefix sep a p) (hb : ComponentPrefix sep b p)
    (hle : a.length ≤ b.length) : ComponentPrefix sep a b := by
  obtain ⟨more, rfl⟩ := List.prefix_of_prefix_length_le ha.isPrefix hb.isPrefix hle
  rcases ha with rfl | ⟨rest, rfl⟩
  · -- nothing is left to go on with
    have hlen := hb.isPrefix.length_le
    rw [List.length_append] at hlen
    obtain rfl : more = [] := List.length_eq_zero_iff.mp (by omega)
    exact .inl (List.append_nil _)
  · obtain ⟨tail, htail⟩ := hb.isPrefix
    rw [List.append_assoc] at htail
    have hmore := List.append_cancel_left htail
    cases more with
    | nil => exact .inl (List.append_nil _)
    | cons c more =>
      obtain ⟨rfl, -⟩ := List.cons.inj hmore
      exact .inr ⟨more, rfl⟩

theorem comparable (ha : ComponentPrefix sep a p) (hb : ComponentPrefix sep b p) :
    ComponentPrefix sep a b ∨ ComponentPrefix sep b a :=
  (Nat.le_total a.length b.length).imp (of_length_le ha hb) (of_length_le hb ha)

theorem eq_of_length_eq (ha : ComponentPrefix sep a p) (hb : ComponentPrefix sep b p)
    (hlen : a.length = b.length) : a = b :=
  (List.prefix_of_prefix_length_le ha.isPrefix hb.isPrefix (Nat.le_of_eq hlen)).eq_of_length hlen

end ComponentPrefix

end QCBridge
