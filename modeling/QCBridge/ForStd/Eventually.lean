import Mathlib.Data.Nat.Pairing
import Mathlib.Logic.Encodable.Basic
import Mathlib.Order.OrderIsoNat

/-!
# What happens in the end

Something waits from moment to moment until it leaves. It leaves in the end if it cannot wait
at some later moment, or if a number falls as long as it waits. A queue from which something is
taken at every moment becomes empty, and what was in it has been taken. A schedule that comes back
to every kind of action brings a state on as long as one of the kinds does.
-/

namespace QCBridge

/-! ## Waiting and leaving -/

section Waiting

variable {P Q : Nat → Prop} {n N : Nat}

/-- What leaves (`Q`) or goes on waiting (`P`) at every moment leaves in the end, or waits for
    good. -/
theorem exists_or_stays (hn : P n)
    (hstep : ∀ m, n ≤ m → P m → Q m ∨ P (m + 1)) :
    (∃ m, n ≤ m ∧ Q m) ∨ ∀ m, n ≤ m → ¬ Q m ∧ P m := by
  by_cases hleft : ∃ m, n ≤ m ∧ Q m
  · exact .inl hleft
  · have hno : ∀ m, n ≤ m → ¬ Q m := fun m hm hl => hleft ⟨m, hm, hl⟩
    refine .inr fun m hm => ⟨hno m hm, ?_⟩
    induction m, hm using Nat.le_induction with
    | base => exact hn
    | succ m hm ih => exact (hstep m hm ih).resolve_left (hno m hm)

/-- What cannot but leave at a later moment leaves in the end. -/
theorem exists_of_ends (hn : P n)
    (hstep : ∀ m, n ≤ m → P m → Q m ∨ P (m + 1)) (hle : n ≤ N)
    (hend : P N → Q N) : ∃ m, n ≤ m ∧ Q m := by
  rcases exists_or_stays hn hstep with hleft | hstays
  · exact hleft
  · obtain ⟨hno, hwaits⟩ := hstays N hle
    exact absurd (hend hwaits) hno

/-- No number falls for good, however seldom. -/
theorem not_falls {f : Nat → Nat} {p : Nat} (h : ∀ m, N ≤ m → f (m + p) < f m) : False := by
  have hanti : StrictAnti fun i => f (N + p * i) := by
    apply strictAnti_nat_of_succ_lt
    intro i
    have hfall := h (N + p * i) (Nat.le_add_right _ _)
    rwa [Nat.add_assoc, ← Nat.mul_succ] at hfall
  exact not_strictAnti_of_wellFoundedLT _ hanti

/-- What comes nearer to leaving at every turn leaves in the end, if there is always another
    turn. -/
theorem exists_of_falls {turn : Nat → Prop} {f : Nat → Nat}
    (hturn : ∀ m, ∃ k, m ≤ k ∧ turn k) (hn : P n)
    (hstep : ∀ m, n ≤ m → P m →
      Q m ∨ P (m + 1) ∧ f (m + 1) ≤ f m ∧ (turn m → f (m + 1) < f m)) :
    ∃ m, n ≤ m ∧ Q m := by
  -- by induction on how far away it is
  induction hv : f n using Nat.strongRecOn generalizing n with
  | ind v ih =>
    rcases exists_or_stays hn fun m hm hP => (hstep m hm hP).imp_right And.left with hleft | hstays
    · exact hleft
    · have hgoes : ∀ m, n ≤ m → f (m + 1) ≤ f m ∧ (turn m → f (m + 1) < f m) := fun m hm =>
        ((hstep m hm (hstays m hm).2).resolve_left (hstays m hm).1).2
      have hle : ∀ m, n ≤ m → f m ≤ f n := by
        intro m hm
        induction m, hm using Nat.le_induction with
        | base => exact Nat.le_refl _
        | succ m hm ih => exact Nat.le_trans (hgoes m hm).1 ih
      obtain ⟨k, hk, hkturn⟩ := hturn n
      have hfall : f (k + 1) < v := by
        rw [← hv]
        exact Nat.lt_of_lt_of_le ((hgoes k hk).2 hkturn) (hle k hk)
      have hk' : n ≤ k + 1 := Nat.le_succ_of_le hk
      obtain ⟨m, hm, hQ⟩ := ih _ hfall (hstays (k + 1) hk').2
        (fun m hm => hstep m (Nat.le_trans hk' hm)) rfl
      exact ⟨m, Nat.le_trans hk' hm, hQ⟩

/-- What stays as it is or falls at every moment, and falls sooner or later as long as it is not
    done, is done in the end. -/
theorem exists_done {ν : Type} {v : Nat → ν} {f : ν → Nat} {D : ν → Prop}
    (hstep : ∀ k, v (k + 1) = v k ∨ f (v (k + 1)) < f (v k))
    (hmoves : ∀ k, ¬ D (v k) →
      ∃ m, k ≤ m ∧ (v m = v k → f (v (m + 1)) < f (v k))) (k : Nat) :
    ∃ m, k ≤ m ∧ D (v m) := by
  -- by induction on the number; it falls at the first moment at which anything changes
  induction hload : f (v k) using Nat.strongRecOn generalizing k with
  | ind l ih =>
    by_cases hdone : D (v k)
    · exact ⟨k, Nat.le_refl _, hdone⟩
    · have hleaves := exists_or_stays (n := k) (P := fun m => v m = v k)
        (Q := fun m => f (v (m + 1)) < l) rfl fun m _ heq => by
          rcases hstep m with hsame | hlt
          · exact .inr (hsame.trans heq)
          · exact .inl (by rwa [heq, hload] at hlt)
      rcases hleaves with ⟨m, hm, hlt⟩ | hstays
      · obtain ⟨m', hm', hd⟩ := ih _ hlt (m + 1) rfl
        exact ⟨m', by omega, hd⟩
      · obtain ⟨m, hm, hfall⟩ := hmoves k hdone
        obtain ⟨hno, heq⟩ := hstays m hm
        exact absurd (hload ▸ hfall heq) hno

/-- What an event brings on comes in the end, if there is always another one and what it takes
    stays. -/
theorem exists_stage {E : Nat → Prop} (hagain : ∀ k, ∃ m, k ≤ m ∧ E m)
    (hkeeps : ∀ m, n ≤ m → P m → P (m + 1)) (hbrings : ∀ m, n ≤ m → P m → E m → Q (m + 1))
    (hn : P n) : ∃ m, n ≤ m ∧ Q m := by
  obtain ⟨k, hk, hE⟩ := hagain n
  have hstays : ∀ m, n ≤ m → P m := by
    intro m hm
    induction m, hm using Nat.le_induction with
    | base => exact hn
    | succ m hm ih => exact hkeeps m hm ih
  exact ⟨k + 1, Nat.le_succ_of_le hk, hbrings k hk (hstays k hk) hE⟩

/-- What comes nearer as long as it does not happen, sooner or later, happens. -/
theorem exists_of_nearer {ν : Type} {v : Nat → ν} {f : ν → Nat} {E : Nat → Prop}
    (hstep : ∀ m, n ≤ m → ¬ E m → v (m + 1) = v m ∨ f (v (m + 1)) < f (v m))
    (hmoves : ∀ m, n ≤ m → ∃ k, m ≤ k ∧ (v k = v m → E k ∨ f (v (k + 1)) < f (v k))) :
    ∃ m, n ≤ m ∧ E m := by
  by_contra hnever
  have hno : ∀ m, n ≤ m → ¬ E m := fun m hm hE => hnever ⟨m, hm, hE⟩
  obtain ⟨m, -, hfalse⟩ := exists_done (v := fun j => v (n + j)) (f := f) (D := fun _ => False)
    (fun j => hstep (n + j) (Nat.le_add_right n j) (hno _ (Nat.le_add_right n j)))
    (fun j _ => by
      obtain ⟨k, hk, hnext⟩ := hmoves (n + j) (Nat.le_add_right n j)
      obtain ⟨i, rfl⟩ := Nat.exists_eq_add_of_le (Nat.le_trans (Nat.le_add_right n j) hk)
      refine ⟨i, by omega, fun heq => ?_⟩
      have hfall := (hnext heq).resolve_left (hno _ (Nat.le_add_right n i))
      rwa [show v (n + i) = v (n + j) from heq] at hfall) 0
  exact hfalse

end Waiting

/-! ## Schedules -/

section Schedule

variable {σ α : Type} {step : σ → α → σ} {s : σ} {acts : Nat → α}

/-- A state after `k` actions of a schedule. -/
def scheduled (step : σ → α → σ) (s : σ) (acts : Nat → α) : Nat → σ
  | 0 => s
  | k + 1 => step (scheduled step s acts k) (acts k)

/-- What every action of the schedule keeps holds at every moment. -/
theorem scheduled_invariant {I : σ → Prop} {P : α → Prop}
    (hstep : ∀ s a, I s → P a → I (step s a)) (hs : I s) (hacts : ∀ k, P (acts k)) (k : Nat) :
    I (scheduled step s acts k) := by
  induction k with
  | zero => exact hs
  | succ k ih => exact hstep _ _ ih (hacts k)

/-- If a schedule comes back to every kind of action, and there is a kind that brings on what is
    seen of a state as long as it is not done, it is done in the end. -/
theorem exists_viewed_done (step : σ → α → σ) (s : σ) {ν κ : Type} (v : σ → ν)
    {K : κ → α → Prop} {f : ν → Nat} {D : ν → Prop}
    (hagain : ∀ kind k, ∃ m, k ≤ m ∧ K kind (acts m))
    (hstep : ∀ k, v (scheduled step s acts (k + 1)) = v (scheduled step s acts k) ∨
      f (v (scheduled step s acts (k + 1))) < f (v (scheduled step s acts k)))
    (hkind : ∀ k, ¬ D (v (scheduled step s acts k)) → ∃ kind, ∀ m,
      v (scheduled step s acts m) = v (scheduled step s acts k) → ∀ a, K kind a →
        f (v (step (scheduled step s acts m) a)) < f (v (scheduled step s acts m))) (k : Nat) :
    ∃ m, k ≤ m ∧ D (v (scheduled step s acts m)) := by
  refine exists_done (v := fun k => v (scheduled step s acts k)) hstep (fun k hnot => ?_) k
  obtain ⟨kind, hfalls⟩ := hkind k hnot
  obtain ⟨m, hm, hof⟩ := hagain kind k
  exact ⟨m, hm, fun heq => heq ▸ hfalls m heq _ hof⟩

/-- If a schedule comes back to every kind of action, and every state that is not done has a kind
    that brings it on, it is done in the end. -/
theorem exists_scheduled_done (step : σ → α → σ) (s : σ) {κ : Type} {K : κ → α → Prop}
    {f : σ → Nat} {D : σ → Prop}
    (hagain : ∀ kind k, ∃ m, k ≤ m ∧ K kind (acts m))
    (hstep : ∀ k, scheduled step s acts (k + 1) = scheduled step s acts k ∨
      f (scheduled step s acts (k + 1)) < f (scheduled step s acts k))
    (hkind : ∀ k, ¬ D (scheduled step s acts k) → ∃ kind, ∀ a, K kind a →
      f (step (scheduled step s acts k) a) < f (scheduled step s acts k)) (k : Nat) :
    ∃ m, k ≤ m ∧ D (scheduled step s acts m) := by
  refine exists_viewed_done step s id hagain hstep (fun k hnot => ?_) k
  obtain ⟨kind, hfalls⟩ := hkind k hnot
  refine ⟨kind, fun m heq a ha => ?_⟩
  rw [id, id, show scheduled step s acts m = scheduled step s acts k from heq]
  exact hfalls a ha

/-- A schedule that comes back to every action. -/
def everyAct [Encodable α] (a : α) (k : Nat) : α := (Encodable.decode k.unpair.1).getD a

theorem exists_everyAct [Encodable α] (a act : α) (k : Nat) :
    ∃ m, k ≤ m ∧ everyAct a m = act :=
  ⟨Nat.pair (Encodable.encode act) k, Nat.right_le_pair _ _, by simp [everyAct]⟩

end Schedule

/-! ## Queues that are taken from -/

section Queue

variable {α : Type} {q : Nat → List α} {k : Nat → Nat} {n N : Nat}

/-- What is in a queue that is empty later was taken. -/
theorem exists_mem_take (hq : ∀ n, q (n + 1) = (q n).drop (k n)) (hle : n ≤ N)
    (hnil : q N = []) {a : α} (ha : a ∈ q n) : ∃ m, n ≤ m ∧ a ∈ (q m).take (k m) := by
  apply exists_of_ends (P := fun m => a ∈ q m) ha _ hle
  · intro hmem
    rw [hnil] at hmem
    cases hmem
  · intro m _ hmem
    rw [hq]
    rw [← List.take_append_drop (k m) (q m)] at hmem
    exact List.mem_append.mp hmem

/-- A queue that is taken from becomes empty. -/
theorem exists_nil (hq : ∀ n, q (n + 1) = (q n).drop (k n))
    (hk : ∀ m, n ≤ m → 0 < k m) : ∃ N, n ≤ N ∧ ∀ m, N ≤ m → q m = [] := by
  have hshort : ∀ i, (q (n + i)).length ≤ (q n).length - i := by
    intro i
    induction i with
    | zero => exact Nat.le_refl _
    | succ i ih =>
      have hpos := hk (n + i) (Nat.le_add_right _ _)
      rw [← Nat.add_assoc, hq, List.length_drop]
      omega
  refine ⟨n + (q n).length, Nat.le_add_right _ _, fun m hm => ?_⟩
  obtain ⟨i, rfl⟩ := Nat.exists_eq_add_of_le (Nat.le_trans (Nat.le_add_right _ _) hm)
  have := hshort i
  exact List.eq_nil_of_length_eq_zero (by omega)

end Queue

end QCBridge
