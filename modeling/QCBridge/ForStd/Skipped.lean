import Mathlib.Data.Set.Card

/-!
# Numbers that a stream skips

A stream of increasing numbers above a base. A number is skipped if it lies above the base and
below one that came, and did not come itself; the skipped numbers fall into maximal runs, one
for each place where the stream jumped.
-/

namespace QCBridge

/-- The stream increases, from above the base. -/
def IncreasingFrom (base : Nat) (seqs : List Nat) : Prop := (base :: seqs).Pairwise (· < ·)

/-- The last number of the stream, and the base before there is one. -/
def lastFrom (base : Nat) (seqs : List Nat) : Nat := seqs.getLast?.getD base

/-- Above the base and below a number that came, but did not come. -/
def Skipped (base : Nat) (seqs : List Nat) (x : Nat) : Prop :=
  base < x ∧ x ∉ seqs ∧ ∃ s ∈ seqs, x < s

/-- From `a` to `b` every number is skipped, and the numbers on both sides are not. -/
structure MaximalRun (base : Nat) (seqs : List Nat) (a b : Nat) : Prop where
  le : a ≤ b
  inside : ∀ x, a ≤ x → x ≤ b → Skipped base seqs x
  before : ¬ Skipped base seqs (a - 1)
  after : ¬ Skipped base seqs (b + 1)

variable {base s x a b : Nat} {seqs : List Nat}

@[simp] theorem lastFrom_nil : lastFrom base [] = base := rfl

@[simp] theorem lastFrom_concat : lastFrom base (seqs ++ [s]) = s := by simp [lastFrom]

namespace IncreasingFrom

theorem of_append {more : List Nat} (h : IncreasingFrom base (seqs ++ more)) :
    IncreasingFrom base seqs := by
  unfold IncreasingFrom at h ⊢
  rw [← List.cons_append, List.pairwise_append] at h
  exact h.1

theorem lastFrom_mem (base : Nat) (seqs : List Nat) : lastFrom base seqs ∈ base :: seqs := by
  unfold lastFrom
  cases hlast : seqs.getLast? with
  | none => exact List.mem_cons_self
  | some l => exact List.mem_cons_of_mem _ (List.mem_of_getLast? hlast)

/-- The next number is above all that came. -/
theorem lt_of_mem (h : IncreasingFrom base (seqs ++ [s])) (hx : x ∈ base :: seqs) : x < s := by
  unfold IncreasingFrom at h
  rw [← List.cons_append, List.pairwise_append] at h
  exact h.2.2 x hx s List.mem_cons_self

private theorem le_lastFrom (h : IncreasingFrom base seqs) (hx : x ∈ base :: seqs) :
    x ≤ lastFrom base seqs := by
  rcases List.eq_nil_or_concat seqs with rfl | ⟨init, l, rfl⟩
  · exact Nat.le_of_eq (List.mem_singleton.mp hx)
  · rw [List.concat_eq_append] at h hx ⊢
    rw [lastFrom_concat]
    rw [← List.cons_append, List.mem_append, List.mem_singleton] at hx
    rcases hx with hx | rfl
    · exact Nat.le_of_lt (h.lt_of_mem hx)
    · exact Nat.le_refl x

end IncreasingFrom

namespace Skipped

theorem lt_lastFrom (h : IncreasingFrom base seqs) (hx : Skipped base seqs x) :
    x < lastFrom base seqs := by
  obtain ⟨-, -, s, hs, hlt⟩ := hx
  exact Nat.lt_of_lt_of_le hlt (h.le_lastFrom (List.mem_cons_of_mem _ hs))

/-- The next number skips those between it and the last. -/
theorem concat (h : IncreasingFrom base (seqs ++ [s])) :
    Skipped base (seqs ++ [s]) x ↔
      Skipped base seqs x ∨ lastFrom base seqs < x ∧ x < s := by
  have hlast := IncreasingFrom.lastFrom_mem base seqs
  have hle := fun y => h.of_append.le_lastFrom (x := y)
  have hbase := hle base List.mem_cons_self
  have hs := h.lt_of_mem hlast
  unfold Skipped
  simp only [List.mem_append, List.mem_singleton, not_or]
  constructor
  · rintro ⟨hlo, ⟨hnot, hne⟩, y, hy | rfl, hxy⟩
    · exact .inl ⟨hlo, hnot, y, hy, hxy⟩
    · -- below the new number: below the last one, or between the two
      by_cases hx : x < lastFrom base seqs
      · rcases List.mem_cons.mp hlast with heq | hmem
        · omega
        · exact .inl ⟨hlo, hnot, _, hmem, hx⟩
      · have hxne : x ≠ lastFrom base seqs := by
          rintro rfl
          rcases List.mem_cons.mp hlast with heq | hmem
          · omega
          · exact hnot hmem
        exact .inr ⟨by omega, hxy⟩
  · rintro (⟨hlo, hnot, y, hy, hxy⟩ | ⟨hlo, hhi⟩)
    · have := h.lt_of_mem (List.mem_cons_of_mem _ hy)
      exact ⟨hlo, ⟨hnot, by omega⟩, y, .inl hy, hxy⟩
    · refine ⟨by omega, ⟨fun hmem => ?_, by omega⟩, s, .inr rfl, hhi⟩
      have := hle x (List.mem_cons_of_mem _ hmem)
      omega

end Skipped

namespace MaximalRun

theorem lt_lastFrom (h : IncreasingFrom base seqs) (hrun : MaximalRun base seqs a b) :
    b < lastFrom base seqs := (hrun.inside b hrun.le (Nat.le_refl b)).lt_lastFrom h

/-- A jump is one more run. -/
theorem concat (h : IncreasingFrom base (seqs ++ [s])) :
    MaximalRun base (seqs ++ [s]) a b ↔
      MaximalRun base seqs a b ∨ lastFrom base seqs + 1 < s ∧ a = lastFrom base seqs + 1 ∧
        b = s - 1 := by
  have hskip := fun x => Skipped.concat (x := x) h
  have hlt := fun x => Skipped.lt_lastFrom (x := x) h.of_append
  generalize lastFrom base seqs = l at *
  constructor
  · rintro ⟨hle, hinside, hbefore, hafter⟩
    simp only [hskip, not_or] at hinside hbefore hafter
    -- the last number is not skipped, so the run is on one side of it
    have hside : b < l ∨ l < a := by
      by_contra hacross
      rcases hinside l (by omega) (by omega) with hl | hl
      · exact absurd (hlt l hl) (Nat.lt_irrefl l)
      · omega
    rcases hside with hbelow | habove
    · refine .inl ⟨hle, fun x hxa hxb => ?_, hbefore.1, hafter.1⟩
      rcases hinside x hxa hxb with hx | hx
      · exact hx
      · omega
    · have hnew : ∀ x, a ≤ x → x ≤ b → l < x ∧ x < s := by
        intro x hxa hxb
        rcases hinside x hxa hxb with hx | hx
        · have := hlt x hx
          omega
        · exact hx
      have ha := hnew a (Nat.le_refl a) hle
      have hb := hnew b hle (Nat.le_refl b)
      exact .inr (by omega)
  · rintro (hrun | ⟨hjump, rfl, rfl⟩)
    · have hbl := hlt b (hrun.inside b hrun.le (Nat.le_refl b))
      have hle := hrun.le
      refine ⟨hle, fun x hxa hxb => (hskip x).mpr (.inl (hrun.inside x hxa hxb)), ?_, ?_⟩
      · rw [hskip, not_or]
        exact ⟨hrun.before, by omega⟩
      · rw [hskip, not_or]
        exact ⟨hrun.after, by omega⟩
    · refine ⟨by omega, fun x hxa hxb => (hskip x).mpr (.inr (by omega)), ?_, ?_⟩
      · rw [hskip, not_or]
        exact ⟨fun hx => by have := hlt _ hx; omega, by omega⟩
      · rw [hskip, not_or]
        exact ⟨fun hx => by have := hlt _ hx; omega, by omega⟩

theorem finite (h : IncreasingFrom base seqs) :
    {r : Nat × Nat | MaximalRun base seqs r.1 r.2}.Finite := by
  have hbelow := Set.finite_lt_nat (lastFrom base seqs)
  apply (hbelow.prod hbelow).subset
  rintro ⟨a, b⟩ hrun
  have hb := hrun.lt_lastFrom h
  have hle := hrun.le
  exact ⟨Nat.lt_of_le_of_lt hle hb, hb⟩

end MaximalRun

end QCBridge
