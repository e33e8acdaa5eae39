import Mathlib.Algebra.Order.Group.Defs
import Mathlib.Algebra.Order.Sub.Basic

/-!
# Spaced times

A rate limiter looks at the time of its last grant only. `Spaced δ times` says that any two
grants of a history are `δ` apart; it is enough to look at the last one as long as the clock
does not run backwards.
-/

namespace QCBridge

variable {τ : Type} [AddCommGroup τ] [LinearOrder τ] {δ t : τ} {times : List τ}

/-- Any two of the times are at least `δ` apart. -/
def Spaced (δ : τ) (times : List τ) : Prop := times.Pairwise fun t t' => δ ≤ t' - t

instance : DecidablePred (Spaced δ : List τ → Prop) :=
  fun times => inferInstanceAs (Decidable (times.Pairwise _))

namespace Spaced

omit [AddCommGroup τ] in
/-- The last of a list of times is at or after each of them. -/
private theorem le_last (hmono : times.Pairwise (· ≤ ·)) {last : τ}
    (hlast : times.getLast? = some last) : ∀ s ∈ times, s ≤ last := by
  obtain ⟨front, rfl⟩ : ∃ front, times = front ++ [last] := by
    rw [List.getLast?_eq_some_iff] at hlast
    exact hlast
  intro s hs
  rcases List.mem_append.mp hs with hs | hs
  · exact (List.pairwise_append.mp hmono).2.2 s hs last (List.mem_singleton_self last)
  · exact (List.mem_singleton.mp hs).le

/-- One more time, `δ` after the last one. -/
theorem snoc [IsOrderedAddMonoid τ] (h : Spaced δ times) (hmono : times.Pairwise (· ≤ ·))
    (hlast : ∀ last, times.getLast? = some last → δ ≤ t - last) : Spaced δ (times ++ [t]) := by
  unfold Spaced
  rw [List.pairwise_append]
  refine ⟨h, List.pairwise_singleton _ _, fun s hs t' ht' => ?_⟩
  obtain rfl := List.mem_singleton.mp ht'
  obtain ⟨last, hget⟩ : ∃ last, times.getLast? = some last :=
    Option.ne_none_iff_exists'.mp fun hnone => by
      rw [List.getLast?_eq_none_iff.mp hnone] at hs
      cases hs
  calc δ ≤ t' - last := hlast last hget
    _ ≤ t' - s := sub_le_sub_left (le_last hmono hget s hs) t'

end Spaced

end QCBridge
