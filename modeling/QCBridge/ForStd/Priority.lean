import Mathlib.Data.List.Sort
import Mathlib.Data.List.TakeWhile

/-!
# The first match of a list sorted by priority

A list is sorted with the greatest key first, and searched for the first element with a
property. Which one it is depends on the keys of those that have it, and among equal keys on
the order of the list.
-/

namespace QCBridge

variable {α : Type} {key : α → Nat} {p : α → Bool} {a : α} {l : List α}

/-- What is found has the greatest key of all that could be. -/
theorem key_le_of_find?_insertionSort
    (h : (l.insertionSort fun a b => key b ≤ key a).find? p = some a) {b : α} (hb : b ∈ l)
    (hpb : p b) : key b ≤ key a := by
  obtain ⟨-, before, after, hsplit, hno⟩ := List.find?_eq_some_iff_append.mp h
  have hsorted : (before ++ a :: after).Pairwise fun a b => key b ≤ key a := by
    rw [← hsplit]
    have : IsTrans α fun a b => key b ≤ key a := ⟨fun _ _ _ h h' => Nat.le_trans h' h⟩
    have : Std.Total fun a b : α => key b ≤ key a := ⟨fun a b => Nat.le_total (key b) (key a)⟩
    exact List.pairwise_insertionSort _ l
  have hin : b ∈ before ++ a :: after := by
    rw [← hsplit, List.mem_insertionSort]
    exact hb
  rw [List.mem_append, List.mem_cons] at hin
  obtain hin | rfl | hin := hin
  · simpa [hpb] using hno b hin
  · exact Nat.le_refl _
  · exact List.rel_of_pairwise_cons (List.pairwise_append.mp hsorted).2.1 hin

/-- At the head of the list, an element of the greatest key is found. -/
theorem find?_insertionSort_cons (ha : p a) (hmax : ∀ b ∈ l, p b → key b ≤ key a) :
    ((a :: l).insertionSort fun a b => key b ≤ key a).find? p = some a := by
  rw [List.insertionSort_cons, List.orderedInsert_eq_take_drop]
  rw [List.find?_append, List.find?_cons_of_pos ha, Option.or_eq_some_iff]
  refine .inr ⟨List.find?_eq_none.mpr fun b hb hpb => ?_, rfl⟩
  -- what is sorted before it has a greater key
  have hlt := List.mem_takeWhile_imp hb
  have hin := (List.takeWhile_prefix _).mem hb
  rw [List.mem_insertionSort] at hin
  have hle := hmax b hin hpb
  simp only [decide_not, Bool.not_eq_true', decide_eq_false_iff_not] at hlt
  exact hlt hle

end QCBridge
