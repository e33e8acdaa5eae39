import Mathlib.Data.List.Count
import Mathlib.Data.List.Flatten
import Mathlib.Algebra.GroupWithZero.Nat
import Mathlib.Algebra.BigOperators.Group.List.Basic

/-!
# Weighing a list

The sum of a weight over a list does not see the order of the list, and it adds up over
appended lists. Two lists that every weight finds equal have the same elements, each as
often: so what moves between places without being lost or doubled is followed by one
equation, whatever the weight.
-/

namespace QCBridge

variable {α γ : Type}

/-- The weights of a list's elements, added up. -/
def weigh (w : α → Nat) (as : List α) : Nat := (as.map w).sum

variable (w : α → Nat)

@[simp] theorem weigh_nil : weigh w [] = 0 := rfl

@[simp] theorem weigh_cons (a : α) (as : List α) : weigh w (a :: as) = w a + weigh w as := rfl

@[simp] theorem weigh_append (as bs : List α) :
    weigh w (as ++ bs) = weigh w as + weigh w bs := by
  unfold weigh
  rw [List.map_append, List.sum_append]

theorem weigh_erase [DecidableEq α] {a : α} {as : List α} (h : a ∈ as) :
    weigh w (as.erase a) + w a = weigh w as := by
  unfold weigh
  rw [((List.perm_cons_erase h).map w).sum_nat, List.map_cons, List.sum_cons, Nat.add_comm]

variable {w}

theorem weigh_congr {w' : α → Nat} {as : List α} (h : ∀ a ∈ as, w a = w' a) :
    weigh w as = weigh w' as := by
  unfold weigh
  rw [List.map_congr_left h]

theorem weigh_eq_zero {as : List α} (h : ∀ a ∈ as, w a = 0) : weigh w as = 0 := by
  induction as with
  | nil => rfl
  | cons a as ih =>
    rw [weigh_cons, h a (List.mem_cons_self ..), ih fun b hb => h b (List.mem_cons_of_mem _ hb)]

theorem weigh_set_lt {as : List α} {i : Nat} {a b : α} (hi : as[i]? = some a) (h : w b < w a) :
    weigh w (as.set i b) < weigh w as := by
  induction as generalizing i with
  | nil => cases hi
  | cons c as ih =>
    cases i with
    | zero =>
      obtain rfl := Option.some.inj hi
      simp only [List.set_cons_zero, weigh_cons]
      omega
    | succ i =>
      have := ih hi
      simp only [List.set_cons_succ, weigh_cons]
      omega

/-- What leaves an element as it is or makes it lighter does so with the list. -/
theorem modify_or_weigh {f : α → α} (hf : ∀ a, f a = a ∨ w (f a) < w a) (as : List α) (i : Nat) :
    as.modify i f = as ∨ weigh w (as.modify i f) < weigh w as := by
  induction as generalizing i with
  | nil => exact .inl (by simp)
  | cons a as ih =>
    cases i with
    | zero =>
      refine (hf a).imp (fun heq => by simp [heq]) fun hlt => ?_
      simp only [List.modify_zero_cons, weigh_cons]
      omega
    | succ i =>
      refine (ih i).imp (fun heq => by simp [heq]) fun hlt => ?_
      simp only [List.modify_succ_cons, weigh_cons]
      omega

/-- A list of positive weights that weighs nothing is empty. -/
theorem eq_nil_of_weigh {as : List α} (hpos : ∀ a ∈ as, 0 < w a) (h : weigh w as = 0) :
    as = [] := by
  cases as with
  | nil => rfl
  | cons a as =>
    have := hpos a (List.mem_cons_self ..)
    rw [weigh_cons] at h
    omega

/-- What every weight finds equal is the same up to order. -/
theorem perm_of_weigh [DecidableEq α] {as bs : List α}
    (h : ∀ w : α → Nat, weigh w as = weigh w bs) : as.Perm bs := by
  apply List.perm_iff_count.mpr
  intro a
  have hcount : ∀ cs : List α, weigh (fun b => if b = a then 1 else 0) cs = cs.count a := by
    intro cs
    induction cs with
    | nil => rfl
    | cons c cs ih => rw [weigh_cons, ih, List.count_cons, Nat.add_comm]; simp
  rw [← hcount as, h, hcount]

end QCBridge
