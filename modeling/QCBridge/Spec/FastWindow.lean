import QCBridge.Ring1.Resync

/-!
# What a bounded log forgets

The fast log keeps the last messages only, as many as its capacity. The window of a hole asks
for the messages from the hole on. If the hole is not in front of the oldest entry, everything
that was forgotten lies in front of the hole, and the window is the one of the whole history.

## Key results

- `FastLog.bounded_entries`: what a log of some capacity keeps
- `FastLog.mem_windowSince_iff`, `FastLog.keys_windowSince`: what a window says
- `FastLog.bounded_window`: every history, capacity and covered hole
-/

namespace QCBridge

namespace FastLog

variable {capacity seq : Nat} {history : List (Nat × Uuid × Kind)} {u : Uuid} {kind : Kind}

/-- A log of some capacity after a history of records. -/
def bounded (capacity : Nat) (history : List (Nat × Uuid × Kind)) : FastLog :=
  history.foldl (recordWithin capacity) {}

/-- A log that forgets nothing. -/
def unbounded (history : List (Nat × Uuid × Kind)) : FastLog := ⟨history⟩

/-- The log keeps the end of its history. -/
theorem bounded_entries (capacity : Nat) (history : List (Nat × Uuid × Kind)) :
    (bounded capacity history).entries = history.drop (history.length - capacity) := by
  induction history using List.reverseRecOn with
  | nil => exact List.drop_nil.symm
  | append_singleton history e ih =>
    unfold bounded
    rw [List.foldl_append]
    exact recordWithin_entries ih e

/-! ## A window -/

private theorem windowSince_eq (l : FastLog) (seq : Nat) :
    l.windowSince seq =
      (Dict.ofList ((l.entries.filter fun e => seq ≤ e.1).map Prod.snd)).entries := by
  unfold windowSince Dict.ofList
  rw [List.foldl_map]

/-- The datablocks stand in the order in which they were first named, each once. -/
theorem keys_windowSince (l : FastLog) (seq : Nat) :
    (l.windowSince seq).map Prod.fst =
      ((l.entries.filter fun e => seq ≤ e.1).map fun e => e.2.1).eraseDups := by
  rw [windowSince_eq]
  show Dict.keys _ = _
  rw [Dict.keys_ofList, List.map_map]
  rfl

/-- A datablock stands with the kind of the last entry that names it. -/
theorem mem_windowSince_iff (l : FastLog) (seq : Nat) :
    (u, kind) ∈ l.windowSince seq ↔
      ∃ before s after, l.entries.filter (fun e => seq ≤ e.1) = before ++ (s, u, kind) :: after ∧
        ∀ e ∈ after, e.2.1 ≠ u := by
  rw [windowSince_eq, Dict.mem_entries_iff, Dict.get?_ofList]
  constructor
  · rintro ⟨before, after, hsplit, hlast⟩
    obtain ⟨before', rest, hfilter, rfl, hrest⟩ := List.map_eq_append_iff.mp hsplit
    obtain ⟨⟨s, u', kind'⟩, after', rfl, heq, rfl⟩ := List.map_eq_cons_iff.mp hrest
    obtain ⟨rfl, rfl⟩ := Prod.mk.inj heq
    refine ⟨before', s, after', hfilter, fun e he heq => hlast ?_⟩
    rw [List.map_map]
    exact List.mem_map.mpr ⟨e, he, heq⟩
  · rintro ⟨before, s, after, hsplit, hlast⟩
    refine ⟨before.map Prod.snd, after.map Prod.snd, by rw [hsplit, List.map_append]; rfl, ?_⟩
    rw [List.map_map]
    rintro hmem
    obtain ⟨e, he, heq⟩ := List.mem_map.mp hmem
    exact hlast e he heq

/-! ## Forgetting -/

/-- What was forgotten lies in front of a covered hole. -/
private theorem forgotten_lt (hinc : (history.map Prod.fst).Pairwise (· < ·))
    (hcovers : (bounded capacity history).covers seq) {e : Nat × Uuid × Kind}
    (he : e ∈ history.take (history.length - capacity)) : e.1 < seq := by
  unfold covers oldestSeq at hcovers
  rw [bounded_entries] at hcovers
  cases hkept : history.drop (history.length - capacity) with
  | nil =>
    rw [hkept] at hcovers
    cases hcovers
  | cons oldest kept =>
    rw [hkept] at hcovers
    have hle : oldest.1 ≤ seq := by simpa using hcovers
    -- the forgotten entries stand in front of the oldest
    rw [← List.take_append_drop (history.length - capacity) history, hkept, List.map_append,
      List.pairwise_append] at hinc
    have hlt := hinc.2.2 e.1 (List.mem_map_of_mem he) oldest.1 List.mem_cons_self
    omega

/-- The entries from a covered hole on are all there. -/
private theorem bounded_filter (hinc : (history.map Prod.fst).Pairwise (· < ·))
    (hcovers : (bounded capacity history).covers seq) :
    ((bounded capacity history).entries.filter fun e => seq ≤ e.1) =
      history.filter fun e => seq ≤ e.1 := by
  have hnone : (history.take (history.length - capacity)).filter (fun e => seq ≤ e.1) = [] := by
    rw [List.filter_eq_nil_iff]
    intro e he
    have := forgotten_lt hinc hcovers he
    simpa using this
  rw [bounded_entries]
  conv_rhs => rw [← List.take_append_drop (history.length - capacity) history, List.filter_append,
    hnone, List.nil_append]

/-- For every history of increasing seqs, every capacity and every covered hole, the window of
    the bounded log is the window of the whole history: each datablock with a record from the
    hole on, once and in the order of their first such records, with the kind of its last. -/
theorem bounded_window (capacity : Nat) (history : List (Nat × Uuid × Kind))
    (hinc : (history.map Prod.fst).Pairwise (· < ·)) (seq : Nat)
    (hcovers : (bounded capacity history).covers seq) :
    (bounded capacity history).windowSince seq = (unbounded history).windowSince seq ∧
      ((unbounded history).windowSince seq).map Prod.fst =
        ((history.filter fun e => seq ≤ e.1).map fun e => e.2.1).eraseDups ∧
      (((unbounded history).windowSince seq).map Prod.fst).Nodup ∧
      ∀ u kind, (u, kind) ∈ (unbounded history).windowSince seq ↔
        ∃ before s after, history.filter (fun e => seq ≤ e.1) = before ++ (s, u, kind) :: after ∧
          ∀ e ∈ after, e.2.1 ≠ u := by
  refine ⟨?_, keys_windowSince _ seq, ?_, fun u kind => mem_windowSince_iff _ seq⟩
  · rw [windowSince_eq, windowSince_eq, bounded_filter hinc hcovers]
    rfl
  · rw [windowSince_eq]
    exact (Dict.ofList _).nodup

/-- Two entries at most: the first is forgotten, and a hole at 5 is covered. -/
theorem bounded_window_two :
    (bounded 2 [(3, "a", .t1), (5, "b", .t1), (6, "b", .tomb)]).windowSince 5 =
      (unbounded [(3, "a", .t1), (5, "b", .t1), (6, "b", .tomb)]).windowSince 5 :=
  (bounded_window 2 [(3, "a", .t1), (5, "b", .t1), (6, "b", .tomb)] (by decide) 5 (by decide)).1

end FastLog

end QCBridge
