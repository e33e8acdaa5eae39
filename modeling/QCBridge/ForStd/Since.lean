import Mathlib.Data.List.Basic

/-!
# Since

A history is a list of events, the latest last. `Since p q h`: some event of the history
satisfied `p` when it happened, and none after it satisfied `q`. What an event is said to
satisfy may depend on the events before it.

One equation for the history that grows by an event is all a proof by induction needs.
-/

namespace QCBridge

variable {α : Type} {p q : List α → α → Prop}

/-- An event that satisfied `p`, and since then none that satisfied `q`. -/
def Since (p q : List α → α → Prop) (h : List α) : Prop :=
  ∃ before x after, h = before ++ x :: after ∧ p before x ∧
    ∀ b y c, after = b ++ y :: c → ¬ q (before ++ x :: b) y

namespace Since

@[simp] theorem nil : ¬ Since p q [] := by
  rintro ⟨before, x, after, h, -⟩
  simp at h

/-- The last event satisfies `p`, or it was so before and the last event does not satisfy `q`. -/
theorem concat {h : List α} {a : α} :
    Since p q (h ++ [a]) ↔ p h a ∨ Since p q h ∧ ¬ q h a := by
  constructor
  · rintro ⟨before, x, after, heq, hp, hq⟩
    rcases List.eq_nil_or_concat after with rfl | ⟨after', last, rfl⟩
    · obtain ⟨rfl, hlast⟩ := List.append_inj' heq rfl
      obtain rfl : a = x := by simpa using hlast
      exact .inl hp
    · rw [List.concat_eq_append, ← List.cons_append, ← List.append_assoc] at heq
      obtain ⟨rfl, hlast⟩ := List.append_inj' heq rfl
      obtain rfl : a = last := by simpa using hlast
      right
      refine ⟨⟨before, x, after', rfl, hp, fun b y c hafter => ?_⟩, ?_⟩
      · exact hq b y (c ++ [a]) (by rw [hafter, List.concat_eq_append, List.append_assoc]; rfl)
      · exact hq after' a [] (List.concat_eq_append ..)
  · rintro (hp | ⟨⟨before, x, after, rfl, hp, hq⟩, hnot⟩)
    · exact ⟨h, a, [], rfl, hp, fun b y c hnil => by simp at hnil⟩
    · refine ⟨before, x, after ++ [a], by simp, hp, fun b y c hafter => ?_⟩
      -- the event is the last one, or it stood there before
      rcases List.eq_nil_or_concat c with rfl | ⟨c', last, rfl⟩
      · obtain ⟨rfl, hlast⟩ := List.append_inj' hafter rfl
        obtain rfl : a = y := by simpa using hlast
        exact hnot
      · rw [List.concat_eq_append, ← List.cons_append, ← List.append_assoc] at hafter
        exact hq b y c' (List.append_inj' hafter rfl).1

end Since

end QCBridge
