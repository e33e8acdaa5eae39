import QCBridge.Ring1.Protocol

/-!
# Merging two ordered lanes

`ring1/merge.py`: the cold lane and the fast lane are each in order, and nothing
orders one against the other. A fast message names the cold seq it must follow
(`after`); the merger parks it until the cold lane has applied that seq.
-/

namespace QCBridge

/-- Which lane has an unresolved hole. `unknown` is the replica's own addition
    (a delta named a datablock it never got). -/
inductive GapLane where
  | none
  | cold
  | fast
  | both
  | unknown
deriving DecidableEq, Repr

/-- `LaneMerger`. -/
structure LaneMerger (β V δ : Type) where
  cold : SeqTracker := {}
  fast : SeqTracker := {}
  coldApplied : Nat := 0
  fastApplied : Nat := 0
  fastDoneSet : List Nat := []
  parked : List (Nat × Msg β V δ) := []
deriving DecidableEq

namespace LaneMerger

variable {β V δ : Type}

/-- The tracker of a lane. -/
def tracker (g : LaneMerger β V δ) : Lane → SeqTracker
  | .cold => g.cold
  | .fast => g.fast

/-- The property `gaps`. -/
def gaps (g : LaneMerger β V δ) : Nat := g.cold.gaps + g.fast.gaps

/-- The property `gap_lane`. -/
def gapLane (g : LaneMerger β V δ) : GapLane :=
  match g.cold.firstMissing, g.fast.firstMissing with
  | some _, some _ => .both
  | some _, none => .cold
  | none, some _ => .fast
  | none, none => .none

/-- Whether `observe` finds the message contiguous on its lane. -/
def follows (g : LaneMerger β V δ) (m : Msg β V δ) : Bool :=
  match m.header.seq with
  | none => true
  | some seq => (g.tracker m.header.lane).follows seq

/-- `observe`: track the lane's seq. The return value is `g.follows m`. -/
def observe (g : LaneMerger β V δ) (m : Msg β V δ) : LaneMerger β V δ :=
  match m.header.seq, m.header.lane with
  -- a message without a seq is tracked on no lane
  | none, _ => g
  | some seq, .fast => { g with fast := g.fast.observe seq }
  | some seq, .cold => { g with cold := g.cold.observe seq }

/-- Whether `admit` lets a message through at once. -/
def admits (g : LaneMerger β V δ) (m : Msg β V δ) : Bool :=
  m.header.lane ≠ .fast || m.header.after ≤ g.coldApplied

/-- `admit` on a message it does not let through: parked behind the cold seq the
    message names. -/
def park (g : LaneMerger β V δ) (m : Msg β V δ) : LaneMerger β V δ :=
  { g with parked := g.parked ++ [(m.header.after, m)] }

/-- `cold_applied` once the cold message `seq` has applied. -/
def appliedAfter (applied : Nat) : Option Nat → Nat
  | some s => max applied s
  | none => applied

/-- `cold_done`: a cold message has fully applied. -/
def coldDone (g : LaneMerger β V δ) (seq : Option Nat) : LaneMerger β V δ :=
  let applied := appliedAfter g.coldApplied seq
  { g with coldApplied := applied, parked := g.parked.filter (fun p => applied < p.1) }

/-- What `cold_done` returns: the parked messages now admissible, in arrival
    order. -/
def due (g : LaneMerger β V δ) (seq : Option Nat) : List (Msg β V δ) :=
  (g.parked.filter (fun p => p.1 ≤ (g.coldDone seq).coldApplied)).map Prod.snd

/-- The loop of `fast_done`: advance while the next seq is in the set. -/
def catchUp : Nat → Nat → List Nat → Nat × List Nat
  | 0, applied, done => (applied, done)
  | fuel + 1, applied, done =>
    -- a hole holds the counter, which is what the host reads as "re-assert from here"
    if applied + 1 ∈ done then catchUp fuel (applied + 1) (done.filter (· ≠ applied + 1))
    else (applied, done)

/-- `fast_done`. Every turn of the loop takes a seq out of the set, so the size
    of the set bounds the turns. -/
def fastDone (g : LaneMerger β V δ) (seq : Option Nat) : LaneMerger β V δ :=
  match seq with
  | none => g
  | some s =>
    -- counted already
    if s ≤ g.fastApplied then g
    else
      let done := g.fastDoneSet.insert s
      let r := catchUp done.length g.fastApplied done
      { g with fastApplied := r.1, fastDoneSet := r.2 }

/-- `clear_fast_gap`. -/
def clearFastGap (g : LaneMerger β V δ) : LaneMerger β V δ :=
  -- the host re-asserted everything from the hole on, so applied catches up with seen
  let applied := max g.fastApplied (g.fast.lastSeen.getD 0)
  { g with
    fast := g.fast.clearGap
    fastApplied := applied
    fastDoneSet := g.fastDoneSet.filter (fun s => applied < s) }

/-- `clear_cold_gap`. -/
def clearColdGap (g : LaneMerger β V δ) : LaneMerger β V δ := { g with cold := g.cold.clearGap }

/-! ## What each operation leaves alone -/

/-- Counting a message applies nothing. -/
@[simp] theorem observe_coldApplied (g : LaneMerger β V δ) (m : Msg β V δ) :
    (g.observe m).coldApplied = g.coldApplied := by
  simp only [observe]; split <;> rfl

/-- And it parks nothing. -/
@[simp] theorem observe_parked (g : LaneMerger β V δ) (m : Msg β V δ) :
    (g.observe m).parked = g.parked := by
  simp only [observe]; split <;> rfl

/-- It is counted on its own lane. -/
theorem observe_tracker (g : LaneMerger β V δ) {m : Msg β V δ} {seq : Nat}
    (hseq : m.header.seq = some seq) (l : Lane) :
    (g.observe m).tracker l =
      if m.header.lane = l then (g.tracker l).observe seq else g.tracker l := by
  simp only [observe, hseq]
  cases m.header.lane <;> cases l <;> rfl

/-- Parking applies nothing. -/
@[simp] theorem park_coldApplied (g : LaneMerger β V δ) (m : Msg β V δ) :
    (g.park m).coldApplied = g.coldApplied := rfl

/-- The message is behind the others, with the seq that it follows. -/
@[simp] theorem park_parked (g : LaneMerger β V δ) (m : Msg β V δ) :
    (g.park m).parked = g.parked ++ [(m.header.after, m)] := rfl

/-- It is counted elsewhere. -/
@[simp] theorem park_tracker (g : LaneMerger β V δ) (m : Msg β V δ) (l : Lane) :
    (g.park m).tracker l = g.tracker l := by cases l <;> rfl

/-- `fast_done` leaves the counter of the cold lane. -/
@[simp] theorem fastDone_coldApplied (g : LaneMerger β V δ) (s : Option Nat) :
    (g.fastDone s).coldApplied = g.coldApplied := by
  simp only [fastDone]; split
  · rfl
  · split <;> rfl

/-- It lets nothing go that is parked. -/
@[simp] theorem fastDone_parked (g : LaneMerger β V δ) (s : Option Nat) :
    (g.fastDone s).parked = g.parked := by
  simp only [fastDone]; split
  · rfl
  · split <;> rfl

/-- It leaves the trackers of both lanes. -/
@[simp] theorem fastDone_tracker (g : LaneMerger β V δ) (s : Option Nat) (l : Lane) :
    (g.fastDone s).tracker l = g.tracker l := by
  simp only [fastDone]; split
  · rfl
  · split <;> cases l <;> rfl

/-- A gap that is cleared applies nothing. -/
@[simp] theorem clearFastGap_coldApplied (g : LaneMerger β V δ) :
    g.clearFastGap.coldApplied = g.coldApplied := rfl

/-- It lets nothing go that is parked. -/
@[simp] theorem clearFastGap_parked (g : LaneMerger β V δ) : g.clearFastGap.parked = g.parked := rfl

/-- A gap of the cold lane that is cleared applies nothing either. -/
@[simp] theorem clearColdGap_coldApplied (g : LaneMerger β V δ) :
    g.clearColdGap.coldApplied = g.coldApplied := rfl

/-- Nor does it let anything go. -/
@[simp] theorem clearColdGap_parked (g : LaneMerger β V δ) : g.clearColdGap.parked = g.parked := rfl

/-- `cold_done` leaves the gaps. -/
@[simp] theorem coldDone_tracker (g : LaneMerger β V δ) (s : Option Nat) (l : Lane) :
    (g.coldDone s).tracker l = g.tracker l := by cases l <;> rfl

/-! ## `cold_done` -/

/-- `cold_applied` never goes back. -/
theorem le_appliedAfter (applied : Nat) (s : Option Nat) : applied ≤ appliedAfter applied s := by
  cases s with
  | none => exact Nat.le_refl _
  | some s => exact Nat.le_max_left _ _

/-- It lets go what follows a seq that is reached now. -/
theorem mem_coldDone_parked (g : LaneMerger β V δ) (s : Option Nat) (p : Nat × Msg β V δ) :
    p ∈ (g.coldDone s).parked ↔ p ∈ g.parked ∧ (g.coldDone s).coldApplied < p.1 := by
  simp [coldDone]

/-- Every message that `cold_done` returns was parked behind a seq now applied. -/
theorem mem_due (g : LaneMerger β V δ) (s : Option Nat) (m : Msg β V δ) :
    m ∈ g.due s ↔ ∃ a, (a, m) ∈ g.parked ∧ a ≤ (g.coldDone s).coldApplied := by
  simp only [due, List.mem_map, List.mem_filter, decide_eq_true_eq, Prod.exists]
  constructor
  · rintro ⟨a, m', ⟨hp, ha⟩, rfl⟩
    exact ⟨a, hp, ha⟩
  · rintro ⟨a, hp, ha⟩
    exact ⟨a, m, ⟨hp, ha⟩, rfl⟩

end LaneMerger

end QCBridge
