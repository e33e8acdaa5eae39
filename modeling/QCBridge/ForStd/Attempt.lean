import Mathlib.Data.List.Basic

/-!
# Calls that may raise

A call that raises still leaves the state where it was when it raised: the result is
that state, and an answer or what was raised. A sequence of calls stops at the first
one that raises, and so does a loop.
-/

namespace QCBridge

/-- The state after a call, and its answer or what it raised. -/
abbrev Attempt (ε σ α : Type) := σ × Except ε α

namespace Attempt

variable {ε σ α γ : Type}

/-- A call that did not raise. -/
def returned (r : σ × α) : Attempt ε σ α := (r.1, .ok r.2)

@[simp] theorem returned_mk (s : σ) (a : α) : (returned (s, a) : Attempt ε σ α) = (s, .ok a) := rfl

/-- One call after another. -/
def andThen (r : Attempt ε σ α) (f : σ → α → Attempt ε σ γ) : Attempt ε σ γ :=
  match r with
  | (s, .ok a) => f s a
  | (s, .error e) => (s, .error e)

@[simp] theorem andThen_ok (s : σ) (a : α) (f : σ → α → Attempt ε σ γ) :
    andThen (s, .ok a) f = f s a := rfl

@[simp] theorem andThen_error (s : σ) (e : ε) (f : σ → α → Attempt ε σ γ) :
    andThen (s, .error e) f = (s, .error e) := rfl

@[simp] theorem andThen_returned (r : σ × α) (f : σ → α → Attempt ε σ γ) :
    andThen (returned r) f = f r.1 r.2 := rfl

/-- What both calls preserve holds wherever they stop. -/
theorem andThen_invariant {I : σ → Prop} {r : Attempt ε σ α} {f : σ → α → Attempt ε σ γ}
    (hr : I r.1) (hf : ∀ s a, r = (s, .ok a) → I s → I (f s a).1) : I (r.andThen f).1 := by
  obtain ⟨s, e | a⟩ := r
  · exact hr
  · exact hf s a rfl hr

/-- A call that raises nothing returns. -/
theorem exists_ok {r : Attempt ε σ α} (h : ∀ e, r.2 ≠ .error e) : ∃ a, r.2 = .ok a := by
  obtain ⟨s, e | a⟩ := r
  · exact absurd rfl (h e)
  · exact ⟨a, rfl⟩

/-- Two calls that return are two calls that return. -/
theorem of_andThen_ok {r : Attempt ε σ α} {f : σ → α → Attempt ε σ γ} {c : γ}
    (h : (r.andThen f).2 = .ok c) : ∃ s a, r = (s, .ok a) ∧ (f s a).2 = .ok c := by
  obtain ⟨s, e | a⟩ := r
  · cases h
  · exact ⟨s, a, rfl, h⟩

/-- What two calls raise is raised by one of them. -/
theorem of_andThen_error {r : Attempt ε σ α} {f : σ → α → Attempt ε σ γ} {e : ε}
    (h : (r.andThen f).2 = .error e) :
    r.2 = .error e ∨ ∃ s a, r = (s, .ok a) ∧ (f s a).2 = .error e := by
  obtain ⟨s, e' | a⟩ := r
  · exact .inl (congrArg Except.error (Except.error.inj h))
  · exact .inr ⟨s, a, rfl, h⟩

/-- A loop over the elements of a list. -/
def forEach (f : σ → α → Attempt ε σ Unit) : List α → σ → Attempt ε σ Unit
  | [], s => (s, .ok ())
  | a :: as, s => (f s a).andThen fun s _ => forEach f as s

@[simp] theorem forEach_nil (f : σ → α → Attempt ε σ Unit) (s : σ) :
    forEach f [] s = (s, .ok ()) := rfl

theorem forEach_cons (f : σ → α → Attempt ε σ Unit) (a : α) (as : List α) (s : σ) :
    forEach f (a :: as) s = (f s a).andThen fun s _ => forEach f as s := rfl

/-- A loop over one list and then over another. -/
theorem forEach_append (f : σ → α → Attempt ε σ Unit) (as as' : List α) (s : σ) :
    forEach f (as ++ as') s = (forEach f as s).andThen fun s _ => forEach f as' s := by
  induction as generalizing s with
  | nil => rfl
  | cons a as ih =>
    rw [List.cons_append, forEach_cons, forEach_cons]
    obtain ⟨s', e | ⟨⟩⟩ := f s a
    · rfl
    · exact ih s'

/-- What every turn preserves holds wherever the loop stops. -/
theorem forEach_invariant {I : σ → Prop} {f : σ → α → Attempt ε σ Unit}
    (hf : ∀ s a, I s → I (f s a).1) (as : List α) {s : σ} (hs : I s) :
    I (forEach f as s).1 := by
  induction as generalizing s with
  | nil => exact hs
  | cons a as ih =>
    rw [forEach_cons]
    exact andThen_invariant (hf s a hs) fun s' _ _ hs' => ih hs'

end Attempt

/-! ## Calls without a state -/

theorem isSome_filter_iff {α : Type} {o : Option α} {p : α → Bool} :
    (o.filter p).isSome ↔ ∃ a, o = some a ∧ p a := by
  cases o <;> simp

theorem isSome_bind_iff {α γ : Type} {o : Option α} {f : α → Option γ} :
    (o.bind f).isSome ↔ ∃ a, o = some a ∧ (f a).isSome := by
  cases o <;> simp

/-- A list of calls none of which fails. -/
theorem mapM_some {α γ : Type} {f : α → Option γ} {g : α → γ} {l : List α}
    (h : ∀ a ∈ l, f a = some (g a)) : l.mapM f = some (l.map g) := by
  induction l with
  | nil => rfl
  | cons a l ih =>
    rw [List.mapM_cons, h a (List.mem_cons_self ..), ih fun b hb => h b (List.mem_cons_of_mem _ hb)]
    rfl

/-- None of the calls fails exactly if they give something together. -/
theorem mapM_isSome_iff {α γ : Type} {f : α → Option γ} {l : List α} :
    (l.mapM f).isSome ↔ ∀ a ∈ l, (f a).isSome := by
  induction l with
  | nil => simp
  | cons a l ih =>
    rw [List.mapM_cons, List.forall_mem_cons, ← ih]
    cases f a with
    | none => simp
    | some b => cases l.mapM f <;> simp

end QCBridge
