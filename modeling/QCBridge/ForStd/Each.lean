import Mathlib.Data.List.Basic

/-!
# Logs

A list that only grows at its end is a log. `Each P l` says that every entry of the log meets a
condition `P` on what was in the log before it.
-/

namespace QCBridge

variable {α : Type} {P Q : List α → α → Prop}

/-- Every entry meets `P`, with what was before it. -/
def Each (P : List α → α → Prop) (l : List α) : Prop :=
  ∀ before a rest, l = before ++ a :: rest → P before a

namespace Each

theorem nil : Each P [] := by
  intro before a rest h
  exact absurd h.symm (List.append_ne_nil_of_right_ne_nil _ (List.cons_ne_nil a rest))

theorem concat {l : List α} (h : Each P l) {a : α} (ha : P l a) : Each P (l ++ [a]) := by
  intro before b rest heq
  rcases rest.eq_nil_or_concat with rfl | ⟨rest, last, rfl⟩
  · -- it is the new entry
    obtain ⟨rfl, hlast⟩ := List.append_inj' heq rfl
    rw [← (List.cons.inj hlast).1]
    exact ha
  · have hcut : l ++ [a] = (before ++ b :: rest) ++ [last] := by simpa using heq
    exact h before b rest (List.append_inj' hcut rfl).1

theorem mono {l : List α} (h : Each P l) (hPQ : ∀ before a, P before a → Q before a) :
    Each Q l :=
  fun before a rest heq => hPQ before a (h before a rest heq)

end Each

end QCBridge
