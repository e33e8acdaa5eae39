import QCBridge.Ring1.Merge
import Mathlib.Data.List.Perm.Basic

/-!
# The merger keeps every message, once

`admit` lets a fast message through or parks it, and `cold_done` rebuilds the parked list each
time. The messages given to `admit` are numbered here as they come, and a message keeps its
number wherever the merger puts it.

## Key results

- `MergerHistory.Conserved`: each number is in one place: let through at once, parked, or
  returned by one `cold_done`
- `MergerHistory.run_conserved`: any calls but `reset`, from a new merger
-/

namespace QCBridge

variable {β V δ : Type}

/-- The calls of a `LaneMerger`, `reset` apart. -/
inductive MergerCall (β V δ : Type) where
  | observe (m : Msg β V δ)
  | admission (m : Msg β V δ)
  | coldDone (seq : Option Nat)
  | fastDone (seq : Option Nat)
  | clearFastGap
  | clearColdGap

/-- A merger, what it was given and what it answered. -/
structure MergerHistory (β V δ : Type) where
  merger : LaneMerger β V δ := {}
  /-- What `admit` was given. The number of a message is its place here. -/
  given : List (Msg β V δ) := []
  /-- The numbers `admit` answered with True. -/
  atOnce : List Nat := []
  /-- The parked list, with numbers. -/
  waiting : List (Nat × Nat × Msg β V δ) := []
  /-- What each `cold_done` returned, with numbers. -/
  released : List (List (Nat × Msg β V δ)) := []
  /-- What each `cold_done` returned. -/
  answers : List (List (Msg β V δ)) := []

namespace MergerHistory

/-- One call. -/
def call (s : MergerHistory β V δ) : MergerCall β V δ → MergerHistory β V δ
  | .observe m => { s with merger := s.merger.observe m }
  | .admission m =>
    if s.merger.admits m then
      { s with
        given := s.given ++ [m]
        atOnce := s.atOnce ++ [s.given.length] }
    else
      { s with
        merger := s.merger.park m
        given := s.given ++ [m]
        waiting := s.waiting ++ [(s.given.length, m.header.after, m)] }
  | .coldDone seq =>
    let applied := (s.merger.coldDone seq).coldApplied
    { s with
      merger := s.merger.coldDone seq
      waiting := s.waiting.filter fun w => applied < w.2.1
      released := s.released ++
        [(s.waiting.filter fun w => w.2.1 ≤ applied).map fun w => (w.1, w.2.2)]
      answers := s.answers ++ [s.merger.due seq] }
  | .fastDone seq => { s with merger := s.merger.fastDone seq }
  | .clearFastGap => { s with merger := s.merger.clearFastGap }
  | .clearColdGap => { s with merger := s.merger.clearColdGap }

/-- Calls one after the other, from a new merger. -/
def run (calls : List (MergerCall β V δ)) : MergerHistory β V δ := calls.foldl call {}

theorem run_append (before after : List (MergerCall β V δ)) :
    run (before ++ after) = after.foldl call (run before) := List.foldl_append

/-- One number more, wherever it is put. -/
private theorem perm_range_succ {xs ys : List Nat} {n : Nat} (h : (xs ++ ys).Perm (List.range n)) :
    (xs ++ [n] ++ ys).Perm (List.range (n + 1)) := by
  rw [List.range_succ, List.append_assoc]
  -- the new number to the front of both lists
  apply List.perm_middle.trans
  apply List.Perm.trans _ List.perm_append_comm
  exact List.Perm.cons n h

/-- Each message is in one place, and where it should be. -/
structure Conserved (s : MergerHistory β V δ) : Prop where
  parked : s.merger.parked = s.waiting.map Prod.snd
  answered : s.answers = s.released.map (List.map Prod.snd)
  once : (s.atOnce ++ s.waiting.map Prod.fst ++ s.released.flatten.map Prod.fst).Perm
    (List.range s.given.length)
  waiting_given : ∀ w ∈ s.waiting, s.given[w.1]? = some w.2.2
  released_given : ∀ rel ∈ s.released, ∀ e ∈ rel, s.given[e.1]? = some e.2
  behind : ∀ p ∈ s.merger.parked, s.merger.coldApplied < p.1
  fast : ∀ p ∈ s.merger.parked, p.2.header.lane = .fast
  cold : ∀ (n : Nat) (m : Msg β V δ), s.given[n]? = some m → m.header.lane = .cold → n ∈ s.atOnce
  arrival : (s.waiting.map Prod.fst).Pairwise (· < ·)
  in_order : ∀ rel ∈ s.released, (rel.map Prod.fst).Pairwise (· < ·)

namespace Conserved

variable {s : MergerHistory β V δ}

/-- Calls that leave the cold lane and the parked list alone. -/
private theorem of_merger (h : s.Conserved) {g : LaneMerger β V δ}
    (hparked : g.parked = s.merger.parked)
    (happlied : g.coldApplied = s.merger.coldApplied) : Conserved { s with merger := g } where
  parked := hparked.trans h.parked
  answered := h.answered
  once := h.once
  waiting_given := h.waiting_given
  released_given := h.released_given
  behind := by
    show ∀ p ∈ g.parked, g.coldApplied < p.1
    rw [hparked, happlied]
    exact h.behind
  fast := by
    show ∀ p ∈ g.parked, p.2.header.lane = .fast
    rw [hparked]
    exact h.fast
  cold := h.cold
  arrival := h.arrival
  in_order := h.in_order

/-- A number that is given already still names its message. -/
private theorem still_given {n : Nat} {m : Msg β V δ} (hn : s.given[n]? = some m) (m' : Msg β V δ) :
    (s.given ++ [m'])[n]? = some m := by
  obtain ⟨hlt, -⟩ := List.getElem?_eq_some_iff.mp hn
  rw [List.getElem?_append_left hlt, hn]

private theorem given_snoc {n : Nat} {m m' : Msg β V δ} (hn : (s.given ++ [m'])[n]? = some m) :
    s.given[n]? = some m ∨ n = s.given.length ∧ m = m' := by
  -- a number below the old length is an old one
  rcases Nat.lt_or_ge n s.given.length with hlt | hge
  · rw [List.getElem?_append_left hlt] at hn
    exact .inl hn
  · rw [List.getElem?_append_right hge, List.getElem?_singleton] at hn
    split at hn
    · exact .inr ⟨by omega, (Option.some.inj hn).symm⟩
    · simp at hn

private theorem admit_atOnce (h : s.Conserved) (m : Msg β V δ) :
    Conserved { s with
      given := s.given ++ [m]
      atOnce := s.atOnce ++ [s.given.length] } where
  parked := h.parked
  answered := h.answered
  once := by
    show (s.atOnce ++ [s.given.length] ++ _ ++ _).Perm (List.range (s.given ++ [m]).length)
    -- the new number is the old length of `given`
    rw [List.length_append, List.length_singleton, List.append_assoc (s.atOnce ++ _)]
    apply perm_range_succ
    rw [← List.append_assoc]
    exact h.once
  waiting_given := fun w hw => still_given (h.waiting_given w hw) m
  released_given := fun rel hrel e he => still_given (h.released_given rel hrel e he) m
  behind := h.behind
  fast := h.fast
  cold := fun n m' hn hcold => by
    rcases given_snoc hn with hn | ⟨rfl, -⟩
    · exact List.mem_append_left _ (h.cold n m' hn hcold)
    · exact List.mem_append_right _ List.mem_cons_self
  arrival := h.arrival
  in_order := h.in_order

private theorem admit_parked (h : s.Conserved) {m : Msg β V δ} (hm : s.merger.admits m = false) :
    Conserved { s with
      merger := s.merger.park m
      given := s.given ++ [m]
      waiting := s.waiting ++ [(s.given.length, m.header.after, m)] } := by
  -- `admit` parks nothing else
  obtain ⟨hlane, hafter⟩ : m.header.lane = .fast ∧ s.merger.coldApplied < m.header.after := by
    simpa [LaneMerger.admits] using hm
  have hmem : ∀ p ∈ (s.merger.park m).parked, p ∈ s.merger.parked ∨ p = (m.header.after, m) := by
    intro p hp
    rw [LaneMerger.park_parked, List.mem_append, List.mem_singleton] at hp
    exact hp
  constructor
  case parked =>
    show (s.merger.park m).parked = _
    rw [LaneMerger.park_parked, h.parked, List.map_append, List.map_singleton]
  case answered => exact h.answered
  case once =>
    show (s.atOnce ++ (s.waiting ++ [_]).map Prod.fst ++ _).Perm
      (List.range (s.given ++ [m]).length)
    rw [List.length_append, List.length_singleton, List.map_append, List.map_singleton,
      ← List.append_assoc]
    exact perm_range_succ h.once
  case waiting_given =>
    intro w hw
    rcases List.mem_append.mp hw with hw | hw
    · exact still_given (h.waiting_given w hw) m
    · rw [List.mem_singleton.mp hw]
      exact List.getElem?_concat_length
  case released_given => exact fun rel hrel e he => still_given (h.released_given rel hrel e he) m
  case behind =>
    intro p hp
    rcases hmem p hp with hp | rfl
    · exact h.behind p hp
    · exact hafter
  case fast =>
    intro p hp
    rcases hmem p hp with hp | rfl
    · exact h.fast p hp
    · exact hlane
  case cold =>
    intro n m' hn hcold
    rcases given_snoc hn with hn | ⟨rfl, rfl⟩
    · exact h.cold n m' hn hcold
    · rw [hlane] at hcold
      cases hcold
  case arrival =>
    show ((s.waiting ++ [_]).map Prod.fst).Pairwise (· < ·)
    rw [List.map_append, List.pairwise_append]
    -- the numbers before it are those of earlier messages
    refine ⟨h.arrival, List.pairwise_singleton _ _, fun n hn k hk => ?_⟩
    obtain ⟨w, hw, rfl⟩ := List.mem_map.mp hn
    obtain ⟨hlt, -⟩ := List.getElem?_eq_some_iff.mp (h.waiting_given w hw)
    rw [List.map_singleton, List.mem_singleton] at hk
    omega
  case in_order => exact h.in_order

/-- What waits is split in two: what is due, and what goes on waiting. -/
private theorem waiting_split (s : MergerHistory β V δ) (applied : Nat) :
    (((s.waiting.filter fun w => applied < w.2.1).map Prod.fst) ++
      ((s.waiting.filter fun w => w.2.1 ≤ applied).map Prod.fst)).Perm
      (s.waiting.map Prod.fst) := by
  -- the two conditions exclude each other, so no message is lost or doubled
  have hnot : (s.waiting.filter fun w => w.2.1 ≤ applied) =
      s.waiting.filter fun w => !decide (applied < w.2.1) := by
    apply List.filter_congr
    intro w _
    rw [← decide_not]
    exact decide_eq_decide.mpr Nat.not_lt.symm
  rw [← List.map_append, hnot]
  exact (List.filter_append_perm _ s.waiting).map _

theorem coldDone (h : s.Conserved) (seq : Option Nat) : (s.call (.coldDone seq)).Conserved := by
  constructor
  case parked =>
    show s.merger.parked.filter _ = _
    rw [h.parked, List.filter_map]
    rfl
  case answered =>
    show s.answers ++ [s.merger.due seq] = (s.released ++ [_]).map (List.map Prod.snd)
    rw [h.answered, List.map_append, List.map_singleton, List.map_map, LaneMerger.due, h.parked,
      List.filter_map, List.map_map]
    rfl
  case once =>
    show (s.atOnce ++ List.map Prod.fst (s.waiting.filter _) ++
      List.map Prod.fst (s.released ++ [_]).flatten).Perm (List.range s.given.length)
    -- what is due goes over from `waiting` to `released`
    rw [List.flatten_concat, List.map_append, List.map_map, List.append_assoc s.atOnce]
    refine List.Perm.trans ?_ (by simpa only [List.append_assoc] using h.once)
    apply List.Perm.append_left
    have hsplit := waiting_split s (s.merger.coldDone seq).coldApplied
    refine List.Perm.trans ?_ (hsplit.append_right _)
    rw [List.append_assoc]
    exact List.Perm.append_left _ List.perm_append_comm
  case waiting_given => exact fun w hw => h.waiting_given w (List.mem_filter.mp hw).1
  case released_given =>
    intro rel hrel e he
    rcases List.mem_append.mp hrel with hrel | hrel
    · exact h.released_given rel hrel e he
    · rw [List.mem_singleton.mp hrel] at he
      obtain ⟨w, hw, rfl⟩ := List.mem_map.mp he
      exact h.waiting_given w (List.mem_filter.mp hw).1
  case behind => exact fun p hp => ((LaneMerger.mem_coldDone_parked ..).mp hp).2
  case fast => exact fun p hp => h.fast p ((LaneMerger.mem_coldDone_parked ..).mp hp).1
  case cold => exact h.cold
  -- both halves keep the order of the list
  case arrival => exact h.arrival.sublist (List.filter_sublist.map _)
  case in_order =>
    intro rel hrel
    rcases List.mem_append.mp hrel with hrel | hrel
    · exact h.in_order rel hrel
    · rw [List.mem_singleton.mp hrel, List.map_map]
      exact h.arrival.sublist (List.filter_sublist.map _)

/-- One call of any kind. -/
theorem call (h : s.Conserved) (c : MergerCall β V δ) : (s.call c).Conserved := by
  cases c with
  | observe m =>
    exact h.of_merger (LaneMerger.observe_parked ..) (LaneMerger.observe_coldApplied ..)
  | admission m =>
    unfold MergerHistory.call
    dsimp only
    split
    · exact h.admit_atOnce m
    next hno => exact h.admit_parked (Bool.eq_false_iff.mpr hno)
  | coldDone seq => exact h.coldDone seq
  | fastDone seq =>
    exact h.of_merger (LaneMerger.fastDone_parked ..) (LaneMerger.fastDone_coldApplied ..)
  | clearFastGap => exact h.of_merger rfl rfl
  | clearColdGap => exact h.of_merger rfl rfl

theorem foldl (h : s.Conserved) (calls : List (MergerCall β V δ)) :
    (calls.foldl MergerHistory.call s).Conserved := by
  induction calls generalizing s with
  | nil => exact h
  | cons c calls ih => exact ih (h.call c)

end Conserved

private theorem conserved_new : Conserved ({} : MergerHistory β V δ) := by
  constructor <;> simp

/-- `cold_applied` never goes back. -/
private theorem coldApplied_call (s : MergerHistory β V δ) (c : MergerCall β V δ) :
    s.merger.coldApplied ≤ (s.call c).merger.coldApplied := by
  cases c with
  | observe m => exact Nat.le_of_eq (LaneMerger.observe_coldApplied ..).symm
  | admission m =>
    unfold call
    dsimp only
    split
    · exact Nat.le_refl _
    · exact Nat.le_refl _
  | coldDone seq => exact LaneMerger.le_appliedAfter _ seq
  | fastDone seq => exact Nat.le_of_eq (LaneMerger.fastDone_coldApplied ..).symm
  | clearFastGap => exact Nat.le_refl _
  | clearColdGap => exact Nat.le_refl _

private theorem coldApplied_foldl (s : MergerHistory β V δ) (calls : List (MergerCall β V δ)) :
    s.merger.coldApplied ≤ (calls.foldl call s).merger.coldApplied := by
  induction calls generalizing s with
  | nil => exact Nat.le_refl _
  | cons c calls ih => exact Nat.le_trans (coldApplied_call s c) (ih (s.call c))

/-- Whatever is called, and at every moment of it: no message is lost or doubled, the parked
    ones wait for a cold seq still to come, what `cold_done` returns is in arrival order, the
    cold lane is not parked, and `cold_applied` never goes back. -/
theorem run_conserved (before after : List (MergerCall β V δ)) :
    (run (before ++ after)).Conserved ∧
      (run before).merger.coldApplied ≤ (run (before ++ after)).merger.coldApplied := by
  constructor
  · exact conserved_new.foldl _
  · rw [run_append]
    exact coldApplied_foldl _ after

end MergerHistory

end QCBridge
