import QCBridge.ForStd.Since
import QCBridge.ForStd.Skipped
import QCBridge.Ring1.Protocol
import Mathlib.Data.List.Induction

/-!
# What a tracker says about its stream

A tracker sees the increasing seqs of one lane, and the host has its hole cleared from time to
time. It keeps one number for the hole, and that is enough: a later hole starts above an
earlier one, so the first that is not cleared is the smallest.

## Key results

- `SeqTracker.SkippedSince`: a seq was skipped, and the hole was not cleared since
- `SeqTracker.Tracks`: the fields of the tracker, in terms of the calls
- `SeqTracker.tracker_law`: any increasing stream, with clears anywhere
-/

namespace QCBridge

/-- The calls of a `SeqTracker`. -/
inductive TrackerCall where
  | observe (seq : Nat)
  | clearGap

namespace SeqTracker

/-- One call. -/
def call (t : SeqTracker) : TrackerCall → SeqTracker
  | .observe seq => t.observe seq
  | .clearGap => t.clearGap

/-- Calls one after the other. -/
def calls (t : SeqTracker) (cs : List TrackerCall) : SeqTracker := cs.foldl call t

/-- The seq that a call observes. -/
def observedBy : TrackerCall → Option Nat
  | .observe seq => some seq
  | .clearGap => none

/-- The seqs that were observed. -/
def stream (cs : List TrackerCall) : List Nat := cs.filterMap observedBy

/-- The call goes over the seq: it observes a later one, and the one before is earlier. -/
def StepsOver (base x : Nat) (before : List TrackerCall) (c : TrackerCall) : Prop :=
  ∃ seq, c = .observe seq ∧ lastFrom base (stream before) < x ∧ x < seq

/-- The hole is cleared. -/
def Clears (_ : List TrackerCall) (c : TrackerCall) : Prop := c = .clearGap

/-- The seq was skipped since the last clear. -/
def SkippedSince (base : Nat) (cs : List TrackerCall) (x : Nat) : Prop :=
  Since (StepsOver base x) Clears cs

/-- The fields of a tracker after the calls. -/
structure Tracks (base gaps : Nat) (cs : List TrackerCall) (t : SeqTracker) : Prop where
  last : t.lastSeen = some (lastFrom base (stream cs))
  below : ∀ x, SkippedSince base cs x → x < lastFrom base (stream cs)
  whole : t.firstMissing = none → ∀ x, ¬ SkippedSince base cs x
  first : ∀ x, t.firstMissing = some x → IsLeast {x | SkippedSince base cs x} x
  count : t.gaps = gaps + {r : Nat × Nat | MaximalRun base (stream cs) r.1 r.2}.ncard

variable {base gaps x seq : Nat} {cs : List TrackerCall} {t : SeqTracker}

private theorem stream_observe : stream (cs ++ [.observe seq]) = stream cs ++ [seq] := by
  unfold stream
  rw [List.filterMap_append]
  rfl

private theorem stream_clearGap : stream (cs ++ [.clearGap]) = stream cs := by
  unfold stream
  rw [List.filterMap_append]
  exact List.append_nil _

private theorem skippedSince_observe : SkippedSince base (cs ++ [.observe seq]) x ↔
    lastFrom base (stream cs) < x ∧ x < seq ∨ SkippedSince base cs x := by
  unfold SkippedSince
  rw [Since.concat]
  simp [StepsOver, Clears]

private theorem not_skippedSince_clearGap : ¬ SkippedSince base (cs ++ [.clearGap]) x := by
  unfold SkippedSince
  rw [Since.concat]
  simp [StepsOver, Clears]

namespace Tracks

theorem primed (hlast : t.lastSeen = some base) (hwhole : t.firstMissing = none) :
    Tracks base t.gaps [] t where
  last := hlast
  below := fun x hx => absurd hx Since.nil
  whole := fun _ x => Since.nil
  first := by simp [hwhole]
  count := by
    -- an empty stream skips nothing
    have hno : {r : Nat × Nat | MaximalRun base (stream []) r.1 r.2} = ∅ := by
      ext r
      simp only [Set.mem_ofPred_eq, Set.mem_empty_iff_false, iff_false]
      intro hrun
      obtain ⟨-, -, s, hs, -⟩ := hrun.inside r.1 (Nat.le_refl _) hrun.le
      exact absurd hs List.not_mem_nil
    rw [hno, Set.ncard_empty, Nat.add_zero]

/-- A clear forgets the hole, and the count stays. -/
theorem clearGap (h : Tracks base gaps cs t) : Tracks base gaps (cs ++ [.clearGap]) t.clearGap where
  last := by
    rw [stream_clearGap]
    exact h.last
  below := fun x hx => absurd hx not_skippedSince_clearGap
  whole := fun _ x => not_skippedSince_clearGap
  first := by simp
  count := by
    rw [stream_clearGap]
    exact h.count

/-- `follows` on a tracker that has seen the stream. -/
private theorem follows_iff (h : Tracks base gaps cs t) :
    t.follows seq ↔ seq = lastFrom base (stream cs) + 1 := by
  unfold follows
  rw [h.last]
  simp

/-- Every seq that is observed after the primed one adds the seqs between to the hole. -/
private theorem skipped_between (h : Tracks base gaps cs t) (hwhole : t.firstMissing = none) :
    SkippedSince base (cs ++ [.observe seq]) x ↔
      lastFrom base (stream cs) < x ∧ x < seq := by
  rw [skippedSince_observe]
  exact or_iff_left (h.whole hwhole x)

private theorem observe_whole (h : Tracks base gaps cs t)
    (hnone : (t.observe seq).firstMissing = none) (x : Nat) :
    ¬ SkippedSince base (cs ++ [.observe seq]) x := by
  cases hfirst : t.firstMissing with
  | some m =>
    rw [observe_firstMissing_of_some t seq hfirst] at hnone
    cases hnone
  | none =>
    simp only [observe, h.last, hfirst] at hnone
    rw [h.skipped_between hfirst]
    split at hnone
    · cases hnone
    · omega

/-- The hole on record is the oldest: a new one starts above all that came. -/
private theorem observe_first (h : Tracks base gaps cs t)
    (hsome : (t.observe seq).firstMissing = some x) :
    IsLeast {x | SkippedSince base (cs ++ [.observe seq]) x} x := by
  cases hfirst : t.firstMissing with
  | some m =>
    rw [observe_firstMissing_of_some t seq hfirst] at hsome
    -- what is skipped now lies above all that came, the old hole below
    obtain rfl := Option.some.inj hsome
    obtain ⟨hm, hleast⟩ := h.first m hfirst
    refine ⟨skippedSince_observe.mpr (.inr hm), fun y hy => ?_⟩
    rcases skippedSince_observe.mp hy with hnew | hold
    · have := h.below m hm
      omega
    · exact hleast hold
  | none =>
    simp only [observe, h.last, hfirst] at hsome
    split at hsome
    · -- no hole before: the first seq that is jumped over
      rename_i hjump
      obtain rfl := Option.some.inj hsome
      refine ⟨(h.skipped_between hfirst).mpr ⟨by omega, hjump⟩, fun y hy => ?_⟩
      exact ((h.skipped_between hfirst).mp hy).1
    · cases hsome

/-- A jump is counted, and it is one more run. -/
private theorem observe_count (h : Tracks base gaps cs t)
    (hincreasing : IncreasingFrom base (stream cs ++ [seq])) :
    (t.observe seq).gaps =
      gaps + {r : Nat × Nat | MaximalRun base (stream cs ++ [seq]) r.1 r.2}.ncard := by
  have hseq := hincreasing.lt_of_mem (IncreasingFrom.lastFrom_mem base (stream cs))
  have hruns := fun a b => MaximalRun.concat (a := a) (b := b) hincreasing
  by_cases hfollows : seq = lastFrom base (stream cs) + 1
  · -- the next seq: the runs are those before
    have hsame : {r : Nat × Nat | MaximalRun base (stream cs ++ [seq]) r.1 r.2} =
        {r : Nat × Nat | MaximalRun base (stream cs) r.1 r.2} := by
      ext r
      simp only [Set.mem_ofPred_eq, hruns]
      exact or_iff_left fun hjump => by omega
    rw [hsame, ← h.count]
    unfold observe
    simp only
    rw [if_pos (h.follows_iff.mpr hfollows)]
  · -- a jump: one run more, from the seq expected to the one before this
    have hmore : {r : Nat × Nat | MaximalRun base (stream cs ++ [seq]) r.1 r.2} =
        insert (lastFrom base (stream cs) + 1, seq - 1)
          {r : Nat × Nat | MaximalRun base (stream cs) r.1 r.2} := by
      ext ⟨a, b⟩
      simp only [Set.mem_ofPred_eq, hruns, Set.mem_insert_iff, Prod.mk.injEq]
      constructor
      · rintro (hrun | ⟨-, rfl, rfl⟩)
        · exact .inr hrun
        · exact .inl ⟨rfl, rfl⟩
      · rintro (⟨rfl, rfl⟩ | hrun)
        · exact .inr ⟨by omega, rfl, rfl⟩
        · exact .inl hrun
    -- and it is new: every other run ends below the last seq seen
    have hnew : (lastFrom base (stream cs) + 1, seq - 1) ∉
        {r : Nat × Nat | MaximalRun base (stream cs) r.1 r.2} := by
      intro hrun
      have hlt := MaximalRun.lt_lastFrom hincreasing.of_append hrun
      omega
    rw [hmore, Set.ncard_insert_of_notMem hnew (MaximalRun.finite hincreasing.of_append)]
    unfold observe
    simp only
    rw [if_neg fun hf => hfollows (h.follows_iff.mp hf), h.count]
    omega

theorem observe (h : Tracks base gaps cs t)
    (hincreasing : IncreasingFrom base (stream (cs ++ [.observe seq]))) :
    Tracks base gaps (cs ++ [.observe seq]) (t.observe seq) := by
  rw [stream_observe] at hincreasing
  have hseq := hincreasing.lt_of_mem (IncreasingFrom.lastFrom_mem base (stream cs))
  constructor
  · rw [stream_observe, lastFrom_concat]
    simp only [SeqTracker.observe, h.last]
    rw [Nat.max_eq_right (Nat.le_of_lt hseq)]
  · intro x hx
    rw [stream_observe, lastFrom_concat]
    rcases skippedSince_observe.mp hx with hnew | hold
    · exact hnew.2
    · exact Nat.lt_trans (h.below x hold) hseq
  · exact h.observe_whole
  · exact fun x hx => h.observe_first hx
  · rw [stream_observe]
    exact h.observe_count hincreasing

/-- Any calls whose seqs increase. -/
theorem calls (hlast : t.lastSeen = some base) (hwhole : t.firstMissing = none)
    (hincreasing : IncreasingFrom base (stream cs)) : Tracks base t.gaps cs (t.calls cs) := by
  induction cs using List.reverseRecOn with
  | nil => exact primed hlast hwhole
  | append_singleton cs c ih =>
    have hcall : t.calls (cs ++ [c]) = (t.calls cs).call c := by
      unfold SeqTracker.calls
      rw [List.foldl_append]
      rfl
    rw [hcall]
    cases c with
    | observe seq =>
      rw [stream_observe] at hincreasing
      apply (ih hincreasing.of_append).observe
      rwa [stream_observe]
    | clearGap =>
      rw [stream_clearGap] at hincreasing
      exact (ih hincreasing).clearGap

end Tracks

/-- An increasing stream above a primed seq, with clears anywhere: there is a hole on record if
    and only if a seq was skipped since the last clear, and then the smallest of them; the
    jumps counted are the maximal runs of skipped seqs; and `observe` finds a seq contiguous if
    and only if it is the next of the one before. -/
theorem tracker_law (t : SeqTracker) (base : Nat) (hlast : t.lastSeen = some base)
    (hwhole : t.firstMissing = none) (cs : List TrackerCall)
    (hincreasing : IncreasingFrom base (stream cs)) :
    ((t.calls cs).firstMissing = none ↔ ∀ x, ¬ SkippedSince base cs x) ∧
      (∀ x, (t.calls cs).firstMissing = some x ↔ IsLeast {x | SkippedSince base cs x} x) ∧
      (t.calls cs).gaps =
        t.gaps + {r : Nat × Nat | MaximalRun base (stream cs) r.1 r.2}.ncard ∧
      ∀ before seq after, cs = before ++ .observe seq :: after →
        ((t.calls before).follows seq ↔ seq = lastFrom base (stream before) + 1) := by
  have htracks := Tracks.calls hlast hwhole hincreasing
  refine ⟨⟨htracks.whole, fun hno => ?_⟩, fun x => ⟨htracks.first x, fun hx => ?_⟩,
    htracks.count, fun before seq after hsplit => ?_⟩
  · cases hfirst : (t.calls cs).firstMissing with
    | none => rfl
    | some m => exact absurd (htracks.first m hfirst).1 (hno m)
  · cases hfirst : (t.calls cs).firstMissing with
    | none => exact absurd hx.1 (htracks.whole hfirst x)
    | some m => rw [(htracks.first m hfirst).unique hx]
  · -- what came before is a stream of its own
    have hbefore : IncreasingFrom base (stream before) := by
      rw [hsplit] at hincreasing
      unfold stream at hincreasing ⊢
      rw [List.filterMap_append] at hincreasing
      exact hincreasing.of_append
    exact (Tracks.calls hlast hwhole hbefore).follows_iff

/-- Primed at 4; 6 skips 5, a clear, 9 skips 7 and 8. -/
theorem tracker_law_cleared :
    (({ lastSeen := some 4 } : SeqTracker).calls
        [.observe 6, .clearGap, .observe 9]).firstMissing = some 7 ↔
      IsLeast {x | SkippedSince 4 [.observe 6, .clearGap, .observe 9] x} 7 :=
  (tracker_law { lastSeen := some 4 } 4 rfl rfl [.observe 6, .clearGap, .observe 9]
    (by unfold IncreasingFrom; decide)).2.1 7

end SeqTracker

end QCBridge
