import Mathlib.Data.List.Basic

/-!
# Justified histories

A log grows at its end. `History R log` says that every entry was justified by
what stood in the log before it: `R before entry`. A history is built one entry
at a time, and it is what a run owes about every moment of its past.
-/

namespace QCBridge

variable {α : Type} {R : List α → α → Prop}

/-- Every entry of the log is related to the entries before it. -/
def History (R : List α → α → Prop) (log : List α) : Prop :=
  ∀ before x after, log = before ++ x :: after → R before x

namespace History

theorem nil : History R [] := by
  intro before x after h
  simp at h

/-- Entries that need no justification. -/
theorem of_forall {log : List α} (h : ∀ x ∈ log, ∀ before, R before x) : History R log := by
  rintro before x after rfl
  exact h x (by simp) before

/-- A log one entry longer. -/
theorem snoc {log : List α} {x : α} (h : History R log) (hx : R log x) :
    History R (log ++ [x]) := by
  intro before y after hsplit
  rcases List.eq_nil_or_concat after with rfl | ⟨after', last, rfl⟩
  · obtain ⟨rfl, heq⟩ := List.append_inj' hsplit rfl
    obtain rfl : x = y := by simpa using heq
    exact hx
  · rw [List.concat_eq_append, ← List.cons_append, ← List.append_assoc] at hsplit
    exact h _ _ _ (List.append_inj' hsplit rfl).1

/-- An initial part of a log. -/
theorem of_append {log more : List α} (h : History R (log ++ more)) : History R log := by
  intro before x after hsplit
  exact h before x (after ++ more) (by rw [hsplit, List.append_assoc]; rfl)

/-- The last entry of a log. -/
theorem last {log : List α} {x : α} (h : History R (log ++ [x])) : R log x := h log x [] rfl

/-- Entries that the log already justifies, and goes on justifying as it grows. -/
theorem append {log items : List α} (h : History R log)
    (hmono : ∀ x ∈ items, ∀ more, R (log ++ more) x) : History R (log ++ items) := by
  induction items generalizing log with
  | nil => rwa [List.append_nil]
  | cons x items ih =>
    have hx : R log x := by simpa using hmono x (by simp) []
    have hrest : ∀ y ∈ items, ∀ more, R (log ++ [x] ++ more) y := by
      intro y hy more
      rw [List.append_assoc]
      exact hmono y (by simp [hy]) ([x] ++ more)
    have := ih (h.snoc hx) hrest
    rwa [List.append_assoc] at this

end History

end QCBridge
