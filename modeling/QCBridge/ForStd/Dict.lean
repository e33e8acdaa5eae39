import Mathlib.Data.List.Nodup
import Mathlib.Data.List.Induction

/-!
# Insertion-ordered dictionaries

A finite map kept as a list of bindings with distinct keys. Overwriting a key
keeps its place and a new key goes to the end, so iteration visits the keys in
the order of their first insertion. The order is part of the value: two
dictionaries are equal only when they iterate alike.

The distinctness of the keys is a field, so every lemma about lookups can rely
on it without a side condition.
-/

namespace QCBridge

/-- A finite map with distinct keys that remembers insertion order. -/
structure Dict (κ α : Type) where
  entries : List (κ × α)
  nodup : (entries.map Prod.fst).Nodup
deriving DecidableEq

namespace Dict

variable {κ α : Type} [DecidableEq κ]

/-- The binding of `k` in a list of bindings, the first one if there are many. -/
def lookup (k : κ) : List (κ × α) → Option α
  | [] => none
  | (k', v) :: t => if k' = k then some v else lookup k t

/-- Overwrite the binding of `k` in place, or append one. -/
def upsert (k : κ) (v : α) : List (κ × α) → List (κ × α)
  | [] => [(k, v)]
  | (k', v') :: t => if k' = k then (k, v) :: t else (k', v') :: upsert k v t

/-- One key more at most. -/
private theorem upsert_keys_subset (k : κ) (v : α) (l : List (κ × α)) (x : κ)
    (hx : x ∈ (upsert k v l).map Prod.fst) : x = k ∨ x ∈ l.map Prod.fst := by
  induction l with
  | nil => simpa [upsert] using hx
  | cons p t ih =>
    obtain ⟨k', v'⟩ := p
    simp only [upsert] at hx
    split at hx
    · rename_i hk
      simp only [List.map_cons, List.mem_cons] at hx ⊢
      rcases hx with rfl | hx
      · exact .inl rfl
      · exact .inr (.inr hx)
    · simp only [List.map_cons, List.mem_cons] at hx ⊢
      rcases hx with rfl | hx
      · exact .inr (.inl rfl)
      · rcases ih hx with h | h
        · exact .inl h
        · exact .inr (.inr h)

/-- A key is in once. -/
private theorem upsert_nodup (k : κ) (v : α) (l : List (κ × α))
    (h : (l.map Prod.fst).Nodup) : ((upsert k v l).map Prod.fst).Nodup := by
  induction l with
  | nil => simp [upsert]
  | cons p t ih =>
    obtain ⟨k', v'⟩ := p
    simp only [List.map_cons, List.nodup_cons] at h
    simp only [upsert]
    split
    · rename_i hk
      subst hk
      simpa using h
    · rename_i hk
      simp only [List.map_cons, List.nodup_cons]
      refine ⟨fun hmem => ?_, ih h.2⟩
      rcases upsert_keys_subset k v t k' hmem with hk' | hk'
      · exact hk hk'
      · exact h.1 hk'

/-- The dictionary with no binding. -/
def empty : Dict κ α := ⟨[], List.nodup_nil⟩

instance : Inhabited (Dict κ α) := ⟨empty⟩

/-- The value bound to `k`. -/
def get? (d : Dict κ α) (k : κ) : Option α := lookup k d.entries

/-- The value bound to `k`, or `v` when there is none. -/
def getD (d : Dict κ α) (k : κ) (v : α) : α := (d.get? k).getD v

/-- Bind `k` to `v`: in place if `k` is bound already, at the end otherwise. -/
def insert (d : Dict κ α) (k : κ) (v : α) : Dict κ α :=
  ⟨upsert k v d.entries, upsert_nodup k v d.entries d.nodup⟩

/-- Drop the binding of `k`. -/
def erase (d : Dict κ α) (k : κ) : Dict κ α :=
  ⟨d.entries.filter (fun p => p.1 ≠ k), d.nodup.sublist (List.filter_sublist.map _)⟩

/-- The keys, in insertion order. -/
def keys (d : Dict κ α) : List κ := d.entries.map Prod.fst

/-- Keep the bindings that satisfy `p`. -/
def filter (p : κ → α → Bool) (d : Dict κ α) : Dict κ α :=
  ⟨d.entries.filter (fun e => p e.1 e.2), d.nodup.sublist (List.filter_sublist.map _)⟩

/-- Bind the pairs of a list one after the other, later ones winning. -/
def ofList (l : List (κ × α)) : Dict κ α := l.foldl (fun d p => d.insert p.1 p.2) empty

/-! ## Lookups -/

/-- The empty dictionary has no value. -/
@[simp] theorem get?_empty (k : κ) : (empty : Dict κ α).get? k = none := rfl

omit [DecidableEq κ] in
/-- And no key. -/
@[simp] theorem keys_empty : (empty : Dict κ α).keys = [] := rfl

/-- The value of the key is the new one, and the others are as they were. -/
private theorem lookup_upsert (k : κ) (v : α) (l : List (κ × α)) (x : κ) :
    lookup x (upsert k v l) = if k = x then some v else lookup x l := by
  induction l with
  | nil => simp [upsert, lookup]
  | cons p t ih =>
    obtain ⟨k', v'⟩ := p
    simp only [upsert]
    split
    · rename_i hk
      subst hk
      by_cases hx : k' = x <;> simp [lookup, hx]
    · rename_i hk
      by_cases hx : k' = x
      · subst hx
        simp [lookup, Ne.symm hk]
      · simp [lookup, hx, ih]

/-- Reading after a write. -/
theorem get?_insert (d : Dict κ α) (k : κ) (v : α) (x : κ) :
    (d.insert k v).get? x = if k = x then some v else d.get? x :=
  lookup_upsert k v d.entries x

/-- The key that was written. -/
@[simp] theorem get?_insert_self (d : Dict κ α) (k : κ) (v : α) :
    (d.insert k v).get? k = some v := by
  simp [get?_insert]

/-- Another key. -/
theorem get?_insert_of_ne (d : Dict κ α) {k x : κ} (v : α) (h : k ≠ x) :
    (d.insert k v).get? x = d.get? x := by
  simp [get?_insert, h]

/-- Without the key, the others are as they were. -/
private theorem lookup_filter_ne (k : κ) (l : List (κ × α)) (x : κ) :
    lookup x (l.filter (fun p => p.1 ≠ k)) = if k = x then none else lookup x l := by
  induction l with
  | nil => simp [lookup]
  | cons p t ih =>
    obtain ⟨k', v'⟩ := p
    by_cases hk : k' = k
    · subst hk
      rw [List.filter_cons_of_neg (by simp), ih]
      by_cases hx : k' = x <;> simp [lookup, hx]
    · rw [List.filter_cons_of_pos (by simpa using hk)]
      by_cases hx : k' = x
      · subst hx
        simp [lookup, Ne.symm hk]
      · simp only [lookup, hx, ↓reduceIte]
        exact ih

/-- Reading after a removal. -/
theorem get?_erase (d : Dict κ α) (k x : κ) :
    (d.erase k).get? x = if k = x then none else d.get? x :=
  lookup_filter_ne k d.entries x

/-- The key that was removed. -/
@[simp] theorem get?_erase_self (d : Dict κ α) (k : κ) : (d.erase k).get? k = none := by
  simp [get?_erase]

/-- Another key. -/
theorem get?_erase_of_ne (d : Dict κ α) {k x : κ} (h : k ≠ x) :
    (d.erase k).get? x = d.get? x := by
  simp [get?_erase, h]

/-! ## Keys -/

/-- A key that is in keeps its place; another comes last. -/
private theorem map_fst_upsert (k : κ) (v : α) (l : List (κ × α)) :
    (upsert k v l).map Prod.fst =
      if k ∈ l.map Prod.fst then l.map Prod.fst else l.map Prod.fst ++ [k] := by
  induction l with
  | nil => simp [upsert]
  | cons p t ih =>
    obtain ⟨k', v'⟩ := p
    unfold upsert
    by_cases hk : k' = k
    · simp [hk]
    · have hne : k ≠ k' := fun h => hk h.symm
      rw [if_neg hk, List.map_cons, List.map_cons, ih]
      by_cases hmem : k ∈ t.map Prod.fst
      · rw [if_pos hmem, if_pos (List.mem_cons_of_mem _ hmem)]
      · rw [if_neg hmem, if_neg (by simpa [hne] using hmem), List.cons_append]

/-- A key that is bound keeps its place, and a new one goes to the end. -/
theorem keys_insert (d : Dict κ α) (k : κ) (v : α) :
    (d.insert k v).keys = if k ∈ d.keys then d.keys else d.keys ++ [k] :=
  map_fst_upsert k v d.entries

/-- A removal keeps the order of the others. -/
theorem keys_erase (d : Dict κ α) (k : κ) : (d.erase k).keys = d.keys.filter (· ≠ k) := by
  unfold keys erase
  rw [List.filter_map]
  rfl

/-- No value, no key. -/
private theorem lookup_eq_none_iff (k : κ) (l : List (κ × α)) :
    lookup k l = none ↔ k ∉ l.map Prod.fst := by
  induction l with
  | nil => simp [lookup]
  | cons p t ih =>
    obtain ⟨k', v'⟩ := p
    by_cases hk : k' = k
    · simp [lookup, hk]
    · simp [lookup, hk, Ne.symm hk, ih]

/-- A key without a value is not in. -/
theorem get?_eq_none_iff (d : Dict κ α) (k : κ) : d.get? k = none ↔ k ∉ d.keys :=
  lookup_eq_none_iff k d.entries

/-- A key that is in has a value. -/
theorem mem_keys_iff (d : Dict κ α) (k : κ) : k ∈ d.keys ↔ ∃ v, d.get? k = some v := by
  rw [← Option.ne_none_iff_exists', ne_eq, get?_eq_none_iff, not_not]

/-- A write adds one key at most. -/
theorem mem_keys_insert {d : Dict κ α} {k x : κ} {v : α} (h : x ∈ (d.insert k v).keys) :
    x = k ∨ x ∈ d.keys := by
  obtain ⟨v', hv⟩ := (mem_keys_iff ..).mp h
  rw [get?_insert] at hv
  split at hv
  · rename_i heq
    exact .inl heq.symm
  · exact .inr ((mem_keys_iff ..).mpr ⟨v', hv⟩)

/-- As keys are in once, an entry is the one that is found. -/
private theorem lookup_of_mem {k : κ} {v : α} {l : List (κ × α)} (h : (l.map Prod.fst).Nodup)
    (hm : (k, v) ∈ l) : lookup k l = some v := by
  induction l with
  | nil => simp at hm
  | cons p t ih =>
    obtain ⟨k', v'⟩ := p
    simp only [List.map_cons, List.nodup_cons] at h
    rcases List.mem_cons.mp hm with heq | ht
    · cases heq
      simp [lookup]
    · have hne : k' ≠ k := by
        rintro rfl
        exact h.1 (List.mem_map_of_mem ht)
      simp [lookup, hne, ih h.2 ht]

/-- An entry is the value of its key. -/
theorem get?_of_mem {d : Dict κ α} {k : κ} {v : α} (h : (k, v) ∈ d.entries) :
    d.get? k = some v :=
  lookup_of_mem d.nodup h

/-- What is found is an entry. -/
private theorem mem_of_lookup {k : κ} {v : α} {l : List (κ × α)} (h : lookup k l = some v) :
    (k, v) ∈ l := by
  induction l with
  | nil => simp [lookup] at h
  | cons p t ih =>
    obtain ⟨k', v'⟩ := p
    simp only [lookup] at h
    split at h
    · rename_i hk
      cases h
      simp [hk]
    · exact List.mem_cons_of_mem _ (ih h)

/-- Entries are keys with their values. -/
theorem mem_entries_iff (d : Dict κ α) (k : κ) (v : α) :
    (k, v) ∈ d.entries ↔ d.get? k = some v :=
  ⟨get?_of_mem, mem_of_lookup⟩

/-- Reading after a filter. -/
theorem get?_filter (d : Dict κ α) (p : κ → α → Bool) (k : κ) :
    (d.filter p).get? k = (d.get? k).filter (p k) := by
  apply Option.ext
  intro v
  rw [← mem_entries_iff, Option.filter_eq_some_iff, ← mem_entries_iff]
  exact List.mem_filter

/-! ## Bindings one after the other -/

/-- The last pair is written last. -/
private theorem ofList_append_singleton (l : List (κ × α)) (p : κ × α) :
    ofList (l ++ [p]) = (ofList l).insert p.1 p.2 := List.foldl_append

/-- The keys stand in the order in which they came first. -/
theorem keys_ofList (l : List (κ × α)) : (ofList l).keys = (l.map Prod.fst).eraseDups := by
  induction l using List.reverseRecOn with
  | nil => rfl
  | append_singleton l p ih =>
    rw [ofList_append_singleton, keys_insert, ih, List.map_append, List.map_singleton,
      List.eraseDups_append]
    simp only [List.mem_eraseDups]
    by_cases hmem : p.1 ∈ l.map Prod.fst
    · have hnone : [p.1].removeAll (l.map Prod.fst) = [] := by
        simpa [List.removeAll] using hmem
      rw [if_pos hmem, hnone, List.eraseDups_nil, List.append_nil]
    · have hone : [p.1].removeAll (l.map Prod.fst) = [p.1] := by
        simpa [List.removeAll] using hmem
      rw [if_neg hmem, hone]
      rfl

/-- A key has the value it was given last. -/
theorem get?_ofList (l : List (κ × α)) (k : κ) (v : α) :
    (ofList l).get? k = some v ↔
      ∃ before after, l = before ++ (k, v) :: after ∧ k ∉ after.map Prod.fst := by
  induction l using List.reverseRecOn with
  | nil => simp [ofList]
  | append_singleton l p ih =>
    rw [ofList_append_singleton, get?_insert]
    split
    next hk =>
      subst hk
      constructor
      · intro hv
        obtain rfl := Option.some.inj hv
        exact ⟨l, [], rfl, List.not_mem_nil⟩
      · rintro ⟨before, after, hsplit, hlast⟩
        rcases List.eq_nil_or_concat after with rfl | ⟨after', p', rfl⟩
        · obtain ⟨-, heq⟩ := List.append_inj' hsplit rfl
          rw [List.singleton_inj.mp heq]
        · -- the last binding is of this very key
          rw [List.concat_eq_append, ← List.cons_append, ← List.append_assoc] at hsplit
          obtain ⟨-, heq⟩ := List.append_inj' hsplit rfl
          rw [List.singleton_inj.mp heq] at hlast
          simp at hlast
    next hk =>
      rw [ih]
      constructor
      · rintro ⟨before, after, rfl, hlast⟩
        refine ⟨before, after ++ [p], by simp, ?_⟩
        rw [List.map_append, List.mem_append, not_or]
        exact ⟨hlast, by simpa using Ne.symm hk⟩
      · rintro ⟨before, after, hsplit, hlast⟩
        rcases List.eq_nil_or_concat after with rfl | ⟨after', p', rfl⟩
        · obtain ⟨-, heq⟩ := List.append_inj' hsplit rfl
          rw [List.singleton_inj.mp heq] at hk
          exact absurd rfl hk
        · rw [List.concat_eq_append, ← List.cons_append, ← List.append_assoc] at hsplit
          obtain ⟨rfl, heq⟩ := List.append_inj' hsplit rfl
          refine ⟨before, after', rfl, fun hmem => hlast ?_⟩
          rw [List.concat_eq_append, List.map_append]
          exact List.mem_append_left _ hmem

end Dict

end QCBridge
