import QCBridge.Spec.MergerHistory
import Mathlib.Order.Bounds.Basic

/-!
# How far the fast lane has applied

Fast messages apply in any order, those that were parked when they are released. The merger
keeps a counter and the seqs that are done above it, and the counter moves on while the next
seq is done. Whatever the order, it stops in front of the first seq that is not done: the host
asserts again from there.

## Key results

- `Reached`: every seq from a base up to here is done
- `LaneMerger.Counted`: the counter and the set, in terms of the seqs that were applied
- `LaneMerger.fast_applied_law`: any calls on a primed merger, and the end of a repair
-/

namespace QCBridge

/-- Every seq above the base, up to `k`, is done. -/
def Reached (base : Nat) (done : Nat → Prop) (k : Nat) : Prop :=
  base ≤ k ∧ ∀ j, base < j → j ≤ k → done j

/-- The seqs reached end in front of the first that is not done. -/
private theorem isGreatest_reached {base k : Nat} {done : Nat → Prop} (h : Reached base done k)
    (hnext : ¬ done (k + 1)) : IsGreatest {j | Reached base done j} k := by
  refine ⟨h, fun j hj => ?_⟩
  by_contra hlt
  have hle := h.1
  exact hnext (hj.2 (k + 1) (by omega) (by omega))

namespace LaneMerger

variable {β V δ : Type} {g : LaneMerger β V δ} {base : Nat} {seqs : List Nat}

/-- One call. -/
def call (g : LaneMerger β V δ) : MergerCall β V δ → LaneMerger β V δ
  | .observe m => g.observe m
  | .admission m => if g.admits m then g else g.park m
  | .coldDone seq => g.coldDone seq
  | .fastDone seq => g.fastDone seq
  | .clearFastGap => g.clearFastGap
  | .clearColdGap => g.clearColdGap

/-- Calls one after the other. -/
def calls (g : LaneMerger β V δ) (cs : List (MergerCall β V δ)) : LaneMerger β V δ :=
  cs.foldl call g

/-- The seq that a call applies. -/
def appliedBy : MergerCall β V δ → Option Nat
  | .fastDone seq => seq
  | _ => none

/-- The fast seq that a call observes. -/
def observedBy : MergerCall β V δ → Option Nat
  | .observe m => if m.header.lane = .fast then m.header.seq else none
  | _ => none

/-- The seqs given to `fast_done`. -/
def applied (cs : List (MergerCall β V δ)) : List Nat := cs.filterMap appliedBy

/-- The fast seqs given to `observe`. -/
def observed (cs : List (MergerCall β V δ)) : List Nat := cs.filterMap observedBy

/-! ## The loop -/

/-- The loop takes the seqs that follow out of the set, and stops in front of one that is not
    there. -/
private theorem catchUp_spec (fuel counter : Nat) {done : List Nat} (hfuel : done.length ≤ fuel)
    (hnodup : done.Nodup) :
    Reached counter (· ∈ done) (catchUp fuel counter done).1 ∧
      (catchUp fuel counter done).1 + 1 ∉ done ∧
      (catchUp fuel counter done).2.Nodup ∧
      ∀ s, s ∈ (catchUp fuel counter done).2 ↔
        s ∈ done ∧ ¬ (counter < s ∧ s ≤ (catchUp fuel counter done).1) := by
  induction fuel generalizing counter done with
  | zero =>
    obtain rfl := List.eq_nil_of_length_eq_zero (Nat.le_zero.mp hfuel)
    simp [catchUp, Reached]
  | succ fuel ih =>
    unfold catchUp
    split
    next hnext =>
      -- one seq less in the set
      have hless : (done.filter (· ≠ counter + 1)).length ≤ fuel := by
        have := List.length_filter_lt_length_iff_exists (p := (· ≠ counter + 1)) (l := done)
        have hlt := this.mpr ⟨counter + 1, hnext, by simp⟩
        omega
      obtain ⟨hreached, hstop, hnodup', hrest⟩ := ih (counter + 1) hless (hnodup.filter _)
      generalize catchUp fuel (counter + 1) (done.filter (· ≠ counter + 1)) = r at *
      have hle := hreached.1
      refine ⟨⟨by omega, fun j hj hjr => ?_⟩, fun hmem => hstop ?_, hnodup', fun s => ?_⟩
      · by_cases heq : j = counter + 1
        · exact heq ▸ hnext
        · exact List.mem_of_mem_filter (hreached.2 j (by omega) hjr)
      · rw [List.mem_filter]
        exact ⟨hmem, by simpa using (by omega : r.1 ≠ counter)⟩
      · rw [hrest, List.mem_filter]
        simp only [ne_eq, decide_not, Bool.not_eq_true', decide_eq_false_iff_not]
        constructor
        · rintro ⟨⟨hs, hne⟩, hout⟩
          exact ⟨hs, by omega⟩
        · rintro ⟨hs, hout⟩
          exact ⟨⟨hs, by omega⟩, by omega⟩
    next hnext => exact ⟨⟨Nat.le_refl _, fun j hj hjr => by omega⟩, hnext, hnodup, fun s => by
        simp only [iff_self_and]; omega⟩

/-! ## The counter and the set -/

/-- The counter is in front of the first seq that was not applied, and the set has the applied
    seqs above it. -/
structure Counted (base : Nat) (seqs : List Nat) (g : LaneMerger β V δ) : Prop where
  reached : Reached base (· ∈ seqs) g.fastApplied
  next : g.fastApplied + 1 ∉ seqs
  done : ∀ s, s ∈ g.fastDoneSet ↔ s ∈ seqs ∧ g.fastApplied < s
  nodup : g.fastDoneSet.Nodup

namespace Counted

theorem primed (h : g.fastDoneSet = []) : Counted g.fastApplied [] g where
  reached := ⟨Nat.le_refl _, fun j hj hjk => by omega⟩
  next := List.not_mem_nil
  done := by simp [h]
  nodup := by
    rw [h]
    exact List.nodup_nil

/-- Calls that leave the counter and the set alone. -/
theorem of_eq (h : Counted base seqs g) {g' : LaneMerger β V δ}
    (hcounter : g'.fastApplied = g.fastApplied) (hset : g'.fastDoneSet = g.fastDoneSet) :
    Counted base seqs g' where
  reached := hcounter ▸ h.reached
  next := hcounter ▸ h.next
  done := by
    rw [hcounter, hset]
    exact h.done
  nodup := hset ▸ h.nodup

/-- `fast_done`. -/
theorem fastDone (h : Counted base seqs g) (s : Nat) :
    Counted base (seqs ++ [s]) (g.fastDone (some s)) := by
  obtain ⟨⟨hbase, hbelow⟩, hnext, hdone, hnodup⟩ := h
  unfold LaneMerger.fastDone
  simp only
  split
  next hold =>
    -- applied before, or below the base
    refine ⟨⟨hbase, fun j hj hjk => ?_⟩, ?_, fun x => ?_, hnodup⟩
    · exact List.mem_append_left _ (hbelow j hj hjk)
    · simp only [List.mem_append, hnext, List.mem_singleton, false_or]
      omega
    · rw [hdone, List.mem_append, List.mem_singleton]
      constructor
      · exact fun hx => ⟨.inl hx.1, hx.2⟩
      · rintro ⟨hx | rfl, hlt⟩
        · exact ⟨hx, hlt⟩
        · omega
  next hnew =>
    obtain ⟨hreached, hstop, hnodup', hrest⟩ := catchUp_spec (g.fastDoneSet.insert s).length
      g.fastApplied (Nat.le_refl _) (hnodup.insert)
    generalize catchUp _ g.fastApplied (g.fastDoneSet.insert s) = r at *
    have hset : ∀ x, x ∈ g.fastDoneSet.insert s ↔ x ∈ seqs ++ [s] ∧ g.fastApplied < x := by
      intro x
      rw [List.mem_insert_iff, hdone, List.mem_append, List.mem_singleton]
      constructor
      · rintro (rfl | hx)
        · exact ⟨.inr rfl, by omega⟩
        · exact ⟨.inl hx.1, hx.2⟩
      · rintro ⟨hx | rfl, hlt⟩
        · exact .inr ⟨hx, hlt⟩
        · exact .inl rfl
    have hle := hreached.1
    refine ⟨⟨Nat.le_trans hbase hle, fun j hj hjr => ?_⟩, fun hmem => hstop ?_, fun x => ?_,
      hnodup'⟩
    · -- below the old counter, or taken out of the set by the loop
      by_cases hold : j ≤ g.fastApplied
      · exact List.mem_append_left _ (hbelow j hj hold)
      · exact ((hset j).mp (hreached.2 j (by omega) hjr)).1
    · exact (hset _).mpr ⟨hmem, by omega⟩
    · show x ∈ r.2 ↔ x ∈ seqs ++ [s] ∧ r.1 < x
      rw [hrest, hset]
      constructor
      · rintro ⟨⟨hx, hlt⟩, hout⟩
        exact ⟨hx, by omega⟩
      · rintro ⟨hx, hlt⟩
        exact ⟨⟨hx, by omega⟩, by omega⟩

/-- Any call but `clear_fast_gap`. -/
theorem call (h : Counted base seqs g) {c : MergerCall β V δ} (hc : c ≠ .clearFastGap) :
    Counted base (seqs ++ (appliedBy c).toList) (g.call c) := by
  cases c with
  | fastDone seq =>
    cases seq with
    | none => exact (List.append_nil seqs).symm ▸ h
    | some s => exact h.fastDone s
  | observe m =>
    apply (List.append_nil seqs).symm ▸ h.of_eq
    · show (g.observe m).fastApplied = g.fastApplied
      unfold LaneMerger.observe
      split <;> rfl
    · show (g.observe m).fastDoneSet = g.fastDoneSet
      unfold LaneMerger.observe
      split <;> rfl
  | admission m =>
    unfold LaneMerger.call
    simp only
    split
    · exact (List.append_nil seqs).symm ▸ h
    · exact (List.append_nil seqs).symm ▸ h.of_eq rfl rfl
  | coldDone seq => exact (List.append_nil seqs).symm ▸ h.of_eq rfl rfl
  | clearFastGap => exact absurd rfl hc
  | clearColdGap => exact (List.append_nil seqs).symm ▸ h.of_eq rfl rfl

theorem calls (h : Counted base seqs g) {cs : List (MergerCall β V δ)}
    (hcs : .clearFastGap ∉ cs) : Counted base (seqs ++ applied cs) (g.calls cs) := by
  induction cs generalizing g seqs with
  | nil => exact (List.append_nil seqs).symm ▸ h
  | cons c cs ih =>
    rw [List.mem_cons, not_or] at hcs
    have hone := h.call (Ne.symm hcs.1)
    have hrest := ih hone hcs.2
    have happlied : applied (c :: cs) = (appliedBy c).toList ++ applied cs := by
      unfold applied
      cases hseq : appliedBy c with
      | none => rw [List.filterMap_cons_none hseq]; rfl
      | some s => rw [List.filterMap_cons_some hseq]; rfl
    rwa [List.append_assoc, ← happlied] at hrest

/-- The counter and the set depend on which seqs were applied, not on their order. -/
theorem unique {g' : LaneMerger β V δ} {seqs' : List Nat} (h : Counted base seqs g)
    (h' : Counted base seqs' g') (hsame : ∀ s, s ∈ seqs' ↔ s ∈ seqs) :
    g'.fastApplied = g.fastApplied ∧ g'.fastDoneSet.Perm g.fastDoneSet := by
  have hreach : {k | Reached base (· ∈ seqs') k} = {k | Reached base (· ∈ seqs) k} := by
    simp only [hsame]
  have hgreatest := isGreatest_reached h.reached h.next
  have hgreatest' := isGreatest_reached h'.reached h'.next
  rw [hreach] at hgreatest'
  have heq := hgreatest'.unique hgreatest
  refine ⟨heq, (List.perm_ext_iff_of_nodup h'.nodup h.nodup).mpr fun s => ?_⟩
  rw [h'.done, h.done, heq, hsame]

end Counted

/-! ## The end of a repair -/

/-- The last seq seen is at least this one. -/
def Seen (g : LaneMerger β V δ) (s : Nat) : Prop := ∃ l, g.fast.lastSeen = some l ∧ s ≤ l

theorem Seen.observe {s : Nat} (h : g.Seen s) (m : Msg β V δ) : (g.observe m).Seen s := by
  obtain ⟨l, hl, hle⟩ := h
  unfold LaneMerger.observe
  split
  · exact ⟨l, hl, hle⟩
  · rename_i seq _ _
    refine ⟨max l seq, ?_, Nat.le_trans hle (Nat.le_max_left _ _)⟩
    simp [SeqTracker.observe, hl]
  · exact ⟨l, hl, hle⟩

theorem Seen.call {s : Nat} (h : g.Seen s) (c : MergerCall β V δ) : (g.call c).Seen s := by
  cases c with
  | observe m => exact h.observe m
  | admission m =>
    unfold LaneMerger.call
    simp only
    split
    · exact h
    · exact h
  | coldDone seq => exact h
  | fastDone seq =>
    obtain ⟨l, hl, hle⟩ := h
    refine ⟨l, ?_, hle⟩
    exact (congrArg SeqTracker.lastSeen (fastDone_tracker g seq .fast)).trans hl
  | clearFastGap => exact h
  | clearColdGap => exact h

private theorem seen_of_observedBy {s : Nat} {c : MergerCall β V δ} (h : observedBy c = some s) :
    (g.call c).Seen s := by
  cases c with
  | observe m =>
    simp only [observedBy, Option.ite_none_right_eq_some] at h
    obtain ⟨hlane, hseq⟩ := h
    show (g.observe m).Seen s
    unfold LaneMerger.observe
    rw [hseq, hlane]
    cases hlast : g.fast.lastSeen with
    | none => exact ⟨s, by simp [SeqTracker.observe, hlast], Nat.le_refl s⟩
    | some l => exact ⟨max l s, by simp [SeqTracker.observe, hlast], Nat.le_max_right l s⟩
  | admission m => cases h
  | coldDone seq => cases h
  | fastDone seq => cases h
  | clearFastGap => cases h
  | clearColdGap => cases h

theorem Seen.calls {s : Nat} (h : g.Seen s) (cs : List (MergerCall β V δ)) :
    (g.calls cs).Seen s := by
  induction cs generalizing g with
  | nil => exact h
  | cons c cs ih => exact ih (h.call c)

private theorem seen_of_observed {s : Nat} {cs : List (MergerCall β V δ)} (h : s ∈ observed cs) :
    (g.calls cs).Seen s := by
  obtain ⟨c, hc, hby⟩ := List.mem_filterMap.mp h
  obtain ⟨before, after, rfl⟩ := List.append_of_mem hc
  unfold LaneMerger.calls
  rw [List.foldl_append]
  exact (seen_of_observedBy hby).calls after

/-- Any calls but `clear_fast_gap`, on a merger with nothing done above its counter: the
    counter ends at the largest seq up to which all were applied, and the set has the applied
    seqs above it; calls that apply the same seqs, in another order or more often, end with the
    same counter and set. Where every applied seq above the old counter was observed too, after
    `clear_fast_gap` the counter is at the last one seen if that is further, and the set is
    empty. -/
theorem fast_applied_law (g : LaneMerger β V δ) (hprimed : g.fastDoneSet = [])
    (cs : List (MergerCall β V δ)) (hcs : .clearFastGap ∉ cs) :
    IsGreatest {k | Reached g.fastApplied (· ∈ applied cs) k} (g.calls cs).fastApplied ∧
      (g.calls cs).fastDoneSet.Nodup ∧
      (∀ s, s ∈ (g.calls cs).fastDoneSet ↔ s ∈ applied cs ∧ (g.calls cs).fastApplied < s) ∧
      (∀ cs' : List (MergerCall β V δ), .clearFastGap ∉ cs' →
        (∀ s, s ∈ applied cs' ↔ s ∈ applied cs) →
        (g.calls cs').fastApplied = (g.calls cs).fastApplied ∧
          (g.calls cs').fastDoneSet.Perm (g.calls cs).fastDoneSet) ∧
      ((∀ s ∈ applied cs, g.fastApplied < s → s ∈ observed cs) →
        (g.calls cs).clearFastGap.fastApplied =
            max (g.calls cs).fastApplied ((g.calls cs).fast.lastSeen.getD 0) ∧
          (g.calls cs).clearFastGap.fastDoneSet = []) := by
  have hcounted : Counted g.fastApplied (applied cs) (g.calls cs) :=
    (Counted.primed hprimed).calls hcs
  refine ⟨isGreatest_reached hcounted.reached hcounted.next, hcounted.nodup, hcounted.done,
    fun cs' hcs' hsame => ?_, fun hobserved => ⟨rfl, ?_⟩⟩
  · have hcounted' : Counted g.fastApplied (applied cs') (g.calls cs') :=
      (Counted.primed hprimed).calls hcs'
    exact hcounted.unique hcounted' hsame
  · -- what is left in the set was seen, so it is not above the new counter
    unfold clearFastGap
    rw [List.filter_eq_nil_iff]
    intro s hs
    obtain ⟨happlied, hlt⟩ := (hcounted.done s).mp hs
    have hbase := hcounted.reached.1
    obtain ⟨l, hl, hle⟩ := seen_of_observed (g := g) (hobserved s happlied (by omega))
    rw [hl, Option.getD_some, decide_eq_true_eq]
    omega

/-- Seqs 7, 9 and 8, the last two parked and released the wrong way round. -/
theorem fast_applied_law_released :
    IsGreatest {k | Reached 6 (· ∈ [7, 9, 8]) k}
      (({ fastApplied := 6 } : LaneMerger Unit Unit Unit).calls
        [.fastDone (some 7), .fastDone (some 9), .fastDone (some 8)]).fastApplied :=
  (fast_applied_law (β := Unit) (V := Unit) (δ := Unit) { fastApplied := 6 } rfl
    [.fastDone (some 7), .fastDone (some 9), .fastDone (some 8)] (by simp)).1

end LaneMerger

end QCBridge
