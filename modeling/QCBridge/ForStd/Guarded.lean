import Mathlib.Data.List.Basic

/-!
# Guarded runs

A system with a step function `f : σ → α → σ` runs over a list of actions by
a left fold. `Along f P s as` says that every step of that run meets the
condition `P`, a predicate of the state before the step and the action taken.
An invariant that the steps meeting `P` preserve holds at the end of every run
along `P`, and of every prefix of it.
-/

namespace QCBridge

variable {σ α : Type} {f : σ → α → σ} {P Q : σ → α → Prop}

/-- Every step of the run of `as` from `s` meets `P`. -/
def Along (f : σ → α → σ) (P : σ → α → Prop) : σ → List α → Prop
  | _, [] => True
  | s, a :: as => P s a ∧ Along f P (f s a) as

instance Along.decide [∀ s a, Decidable (P s a)] :
    (s : σ) → (as : List α) → Decidable (Along f P s as)
  | _, [] => .isTrue trivial
  | s, a :: as =>
    have := Along.decide (f s a) as
    inferInstanceAs (Decidable (P s a ∧ Along f P (f s a) as))

namespace Along

@[simp] theorem nil (s : σ) : Along f P s [] := trivial

@[simp] theorem cons_iff (s : σ) (a : α) (as : List α) :
    Along f P s (a :: as) ↔ P s a ∧ Along f P (f s a) as := Iff.rfl

theorem append_iff (s : σ) (as bs : List α) :
    Along f P s (as ++ bs) ↔ Along f P s as ∧ Along f P (as.foldl f s) bs := by
  induction as generalizing s with
  | nil => simp
  | cons a as ih => simp [ih, and_assoc]

/-- A run is along `P` when each of its steps is, wherever it is cut. -/
theorem of_split {s : σ} {as : List α}
    (h : ∀ done a rest, as = done ++ a :: rest → P (done.foldl f s) a) : Along f P s as := by
  induction as generalizing s with
  | nil => trivial
  | cons a as ih =>
    refine ⟨h [] a as rfl, ih fun done b rest has => ?_⟩
    exact h (a :: done) b rest (congrArg (a :: ·) has)

/-- Two conditions at once. -/
theorem and {s : σ} {as : List α} (hP : Along f P s as) (hQ : Along f Q s as) :
    Along f (fun s a => P s a ∧ Q s a) s as := by
  induction as generalizing s with
  | nil => trivial
  | cons a as ih => exact ⟨⟨hP.1, hQ.1⟩, ih hP.2 hQ.2⟩

/-- An invariant preserved by the steps that meet `P` holds at the end of a run
    along `P`. -/
theorem invariant {I : σ → Prop} (hstep : ∀ s a, I s → P s a → I (f s a))
    {s : σ} {as : List α} (hinit : I s) (h : Along f P s as) :
    I (as.foldl f s) := by
  induction as generalizing s with
  | nil => exact hinit
  | cons a as ih => exact ih (hstep s a hinit h.1) h.2

end Along

/-- Where a step keeps the property exactly if it meets the condition, a run keeps it throughout
    exactly if it is a run along the condition. -/
theorem along_iff_throughout {I K : σ → Prop} (hI : ∀ s a, I s → I (f s a))
    (hstep : ∀ s a, I s → K s → (K (f s a) ↔ P s a)) {s : σ} (hs : I s) (hK : K s)
    (as : List α) :
    Along f P s as ↔ ∀ done rest, as = done ++ rest → K (done.foldl f s) := by
  induction as generalizing s with
  | nil =>
    refine ⟨fun _ done rest heq => ?_, fun _ => trivial⟩
    obtain ⟨rfl, -⟩ := List.append_eq_nil_iff.mp heq.symm
    exact hK
  | cons a as ih =>
    rw [Along.cons_iff]
    constructor
    · rintro ⟨hP, hrest⟩ done rest heq
      have hnext := (hstep s a hs hK).mpr hP
      cases done with
      | nil => exact hK
      | cons b done =>
        obtain ⟨rfl, hsplit⟩ := List.cons.inj heq
        exact (ih (hI s a hs) hnext).mp hrest done rest hsplit
    · intro h
      have hnext : K (f s a) := h [a] as rfl
      refine ⟨(hstep s a hs hK).mp hnext, (ih (hI s a hs) hnext).mpr fun done rest heq => ?_⟩
      exact h (a :: done) rest (congrArg (a :: ·) heq)

/-- Two conditions that agree wherever the invariant holds, one of which preserves it, are met by
    the same runs. -/
theorem along_congr {I : σ → Prop} (hI : ∀ s a, I s → P s a → I (f s a))
    (hPQ : ∀ s a, I s → (Q s a ↔ P s a)) {s : σ} (hs : I s) (as : List α) :
    Along f Q s as ↔ Along f P s as := by
  induction as generalizing s with
  | nil => exact Iff.rfl
  | cons a as ih =>
    rw [Along.cons_iff, Along.cons_iff, hPQ s a hs]
    exact and_congr_right fun hP => ih (hI s a hs hP)

/-- The unguarded case: an invariant that every step preserves holds at the end
    of every run. -/
theorem foldl_invariant {I : σ → Prop} (hstep : ∀ s a, I s → I (f s a))
    {s : σ} (as : List α) (hinit : I s) : I (as.foldl f s) := by
  induction as generalizing s with
  | nil => exact hinit
  | cons a as ih => exact ih (hstep s a hinit)

end QCBridge
