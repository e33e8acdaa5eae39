import Mathlib.Data.List.Basic

/-!
# Chunks and partial writes

A list cut into pieces of one length, the last one shorter; and a list some of whose cells are
written, each at most once. Pieces that are written one by one, each at its own place, make up
the list written at once.
-/

namespace QCBridge

variable {α β : Type}

/-- The first `m` pieces of length `n`. -/
def chunks (n : Nat) : Nat → List α → List (List α)
  | 0, _ => []
  | m + 1, l => l.take n :: chunks n m (l.drop n)

theorem flatten_chunks {n m : Nat} {l : List α} (h : l.length ≤ m * n) :
    (chunks n m l).flatten = l := by
  induction m generalizing l with
  | zero =>
    rw [Nat.zero_mul] at h
    exact (List.eq_nil_of_length_eq_zero (Nat.le_zero.mp h)).symm
  | succ m ih =>
    rw [chunks, List.flatten_cons, ih, List.take_append_drop]
    rw [List.length_drop, Nat.sub_le_iff_le_add, ← Nat.succ_mul]
    exact h

theorem length_flatten_of_forall {n : Nat} {L : List (List α)} (h : ∀ l ∈ L, l.length = n) :
    L.flatten.length = n * L.length := by
  induction L with
  | nil => rfl
  | cons l L ih =>
    rw [List.flatten_cons, List.length_append, h l (List.mem_cons_self ..),
      ih fun l' hl' => h l' (List.mem_cons_of_mem _ hl'), List.length_cons, Nat.mul_succ,
      Nat.add_comm]

/-- A piece of a list put together from pieces of one length. -/
theorem take_drop_flatten {n : Nat} {L : List (List α)} (h : ∀ l ∈ L, l.length = n) {i : Nat}
    (hi : i < L.length) : (L.flatten.drop (n * i)).take n = L[i] := by
  induction L generalizing i with
  | nil => exact absurd hi (Nat.not_lt_zero i)
  | cons l L ih =>
    have hl : l.length = n := h l (List.mem_cons_self ..)
    rw [List.flatten_cons]
    cases i with
    | zero =>
      rw [Nat.mul_zero, List.drop_zero, List.take_left' hl]
      rfl
    | succ i =>
      have hdrop : (l ++ L.flatten).drop (n * (i + 1)) = L.flatten.drop (n * i) := by
        rw [Nat.mul_succ, Nat.add_comm, ← List.drop_drop, ← hl, List.drop_left]
      rw [hdrop, ih (fun l' hl' => h l' (List.mem_cons_of_mem _ hl')) (Nat.lt_of_succ_lt_succ hi)]
      rfl

/-- Cell `i` of the list is written where `p i` has a value for it. -/
def patch (w : α → β → α) (p : Nat → Option β) (l : List α) : List α :=
  l.mapIdx fun i a => match p i with
    | some b => w a b
    | none => a

variable {w : α → β → α} {p q : Nat → Option β} {l l' : List α}

@[simp] theorem length_patch : (patch w p l).length = l.length := List.length_mapIdx

theorem getElem?_patch (i : Nat) :
    (patch w p l)[i]? = l[i]?.map fun a => match p i with
      | some b => w a b
      | none => a := List.getElem?_mapIdx

theorem patch_congr (h : ∀ i < l.length, p i = q i) : patch w p l = patch w q l := by
  apply List.ext_getElem?
  intro i
  rw [getElem?_patch, getElem?_patch]
  by_cases hi : i < l.length
  · rw [h i hi]
  · rw [List.getElem?_eq_none (Nat.le_of_not_lt hi)]
    rfl

theorem patch_none : patch w (fun _ => none) l = l := by
  apply List.ext_getElem?
  intro i
  rw [getElem?_patch]
  exact Option.map_id'

theorem take_patch (n : Nat) : (patch w p l).take n = patch w p (l.take n) := by
  apply List.ext_getElem?
  intro i
  rw [List.getElem?_take, getElem?_patch, getElem?_patch, List.getElem?_take]
  split <;> rfl

theorem drop_patch (n : Nat) :
    (patch w p l).drop n = patch w (fun i => p (n + i)) (l.drop n) := by
  apply List.ext_getElem?
  intro i
  rw [List.getElem?_drop, getElem?_patch, getElem?_patch, List.getElem?_drop]

/-- One cell. -/
theorem modify_eq_patch (i : Nat) (b : β) :
    l.modify i (fun a => w a b) = patch w (fun j => if j = i then some b else none) l := by
  apply List.ext_getElem?
  intro j
  rw [List.getElem?_modify, getElem?_patch]
  cases l[j]? with
  | none => rfl
  | some a =>
    by_cases hj : j = i
    · simp [hj]
    · simp [hj, Ne.symm hj]

/-- Writes to different cells. -/
theorem patch_patch (h : ∀ i, p i = none ∨ q i = none) :
    patch w p (patch w q l) = patch w (fun i => (q i).or (p i)) l := by
  apply List.ext_getElem?
  intro i
  rw [getElem?_patch, getElem?_patch, getElem?_patch, Option.map_map]
  congr 1
  funext a
  rcases h i with hp | hq
  · rw [Function.comp_apply, hp]
    cases q i <;> rfl
  · rw [Function.comp_apply, hq]
    rfl

end QCBridge
