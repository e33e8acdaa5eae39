import QCBridge.ForStd.Eventually
import QCBridge.Spec.Recovery

/-!
# A session that goes on

A tick that raises ends where it is. If that is at the head of a repair queue, the next
tick begins with the same head, and nothing behind it is ever sent. Where it is the last
entry of the drain, nothing else is held up.

## Key results

- `Host.Recovers`: the heads move, and everything queued or dirty is sent in the end
- `Host.recovers`: it is so while nothing raises but the last entry of a drain
-/

namespace QCBridge

variable {β V δ : Type}

/-! ## Runs of ticks -/

/-- What happens from one tick to the next: the artist edits, and the tick finds a world and
    what raises in it. -/
structure Turn (β V : Type) where
  faults : Faults := {}
  world : World β V
  edits : List Host.Update := []

namespace Host

section Run

variable [BEq V] [DecidableEq δ]

/-- The host after `n` ticks. -/
def after (H : Digests β V δ) (T : Nat → Turn β V) (h : Host β V δ) : Nat → Host β V δ
  | 0 => h
  | n + 1 => Raising.flushTick (T n).faults H (T n).world
      ((after H T h n).onDepsgraph (T n).world (T n).edits)

/-- The host when the next tick begins. -/
def begins (H : Digests β V δ) (T : Nat → Turn β V) (h : Host β V δ) (n : Nat) : Host β V δ :=
  (after H T h n).onDepsgraph (T n).world (T n).edits

/-- The transport takes everything, and time passes. -/
structure Runs (T : Nat → Turn β V) : Prop where
  accepts : ∀ n, (T n).world.Accepting
  clock : ∀ n, (T n).world.now ≤ (T (n + 1)).world.now
  passes : ∀ t, ∃ n, t ≤ (T n).world.now

/-- The heads of the repair queues move on in every tick, and everything that is queued or
    dirty is sent after finitely many ticks: each repair entry, the ends, each tombstone, and
    the edit of each datablock that does not raise, that the debouncer holds, and that is not
    edited again. -/
structure Recovers (H : Digests β V δ) (T : Nat → Turn β V) (h : Host β V δ) : Prop where
  repaired : ∀ n, Repaired H (T n).world (begins H T h n) (after H T h (n + 1))
  fast : ∀ n, ∀ e ∈ (begins H T h n).fastResendQueue, ∃ m, n ≤ m ∧
    (Said (Note.Reasserts e.1) (begins H T h m).journal (after H T h (m + 1)) ∨
      FastBare H (T m).world (begins H T h m) e)
  blobs : ∀ n, ∀ e ∈ (begins H T h n).deltaQueue, ∃ m, n ≤ m ∧
    (Said (Note.Resends e.1) (begins H T h m).journal (after H T h (m + 1)) ∨
      DeltaBare H (T m).world (begins H T h m) e)
  reasserts : ∀ n, ∀ u ∈ (begins H T h n).deltaTail, ∃ m, n ≤ m ∧
    (Said (Note.Reasserts u) (begins H T h m).journal (after H T h (m + 1)) ∨
      TailBare H (T m).world (begins H T h m) u)
  fastEnd : ∀ n, (begins H T h n).fastResendEnd = true → ∃ m, n ≤ m ∧
    Said (· = .act .endFast) (begins H T h m).journal (after H T h (m + 1))
  deltaEnd : ∀ n, (begins H T h n).deltaEndPending = true → ∃ m, n ≤ m ∧
    Said (· = .act .endCold) (begins H T h m).journal (after H T h (m + 1))
  edits : ∀ n u, (∃ t, (begins H T h n).dirty.entries.get? u = some (.dirty t)) →
    ((begins H T h n).debounce.touched.get? u).isSome →
    (∀ m, n ≤ m → (T m).faults.raises u = false) →
    (∀ m, n < m → ∀ x ∈ (T m).edits, x.uuid ≠ u) →
    ∃ m, n ≤ m ∧ Answered (T m).faults H (T m).world (begins H T h m) u
  tombs : ∀ n u, TombWaits u (begins H T h n) → ∃ m, n ≤ m ∧
    Said (· = .act (.tomb u)) (begins H T h m).journal (after H T h (m + 1))

/-! ## The repairs -/

section Flow

variable {H : Digests β V δ} {T : Nat → Turn β V} {h : Host β V δ} (hruns : Runs T)
  (hloaded : h.ledger.Loaded) (hmarks : h.suppressMarks = false)
  (hflows : ∀ n, Flows (T n).faults H (T n).world (begins H T h n))
include hruns hloaded hmarks hflows

/-- Blobs can leave, and the host has had its first bootstrap. -/
private theorem begins_ready (n : Nat) :
    (begins H T h n).ledger.Loaded ∧ (begins H T h n).suppressMarks = false := by
  -- edits leave the outbox and the suppression of marks
  have hedits : ∀ n, (after H T h n).ledger.Loaded ∧ (after H T h n).suppressMarks = false →
      (begins H T h n).ledger.Loaded ∧ (begins H T h n).suppressMarks = false := by
    intro n hn
    obtain ⟨hrepairs, hledger, -⟩ :=
      onDepsgraph_repairs (T n).world (T n).edits (after H T h n)
    simp only [repairs, Prod.mk.injEq] at hrepairs
    unfold begins
    rw [hledger, hrepairs.2.2.2.2.2]
    exact hn
  -- the induction is over the ticks
  apply hedits
  induction n with
  | zero => exact ⟨hloaded, hmarks⟩
  | succ n ih =>
    obtain ⟨hclear, hrepaired, -⟩ := flushTick_repaired (hruns.accepts n) (T n).faults H
      (hedits n ih).1 (hedits n ih).2 (hflows n)
    have hqueues := hrepaired.queues
    simp only [repairs, Prod.mk.injEq] at hqueues
    constructor
    · -- after a tick with no refusal no blob is left queued
      intro u o hget
      have hnone := hclear u
      rw [show (Raising.flushTick (T n).faults H (T n).world (begins H T h n)).ledger =
        (after H T h (n + 1)).ledger from rfl] at hnone
      rw [hnone] at hget
      cases hget
    · exact hqueues.2.2.2.2.2.trans (hedits n ih).2

private theorem begins_repaired (n : Nat) :
    Repaired H (T n).world (begins H T h n) (after H T h (n + 1)) := by
  obtain ⟨hl, hm⟩ := begins_ready hruns hloaded hmarks hflows n
  exact (flushTick_repaired (hruns.accepts n) (T n).faults H hl hm (hflows n)).2.1

/-- The queues of one tick and of the next. -/
private theorem begins_queues (n : Nat) :
    (begins H T h (n + 1)).repairs = (deltaDone (fastDone (begins H T h n))).repairs :=
  (onDepsgraph_repairs (T (n + 1)).world (T (n + 1)).edits (after H T h (n + 1))).1.trans
    (begins_repaired hruns hloaded hmarks hflows n).queues

/-- Each queue loses what a tick takes of it. -/
private theorem begins_drop (n : Nat) :
    (begins H T h (n + 1)).fastResendQueue =
        (begins H T h n).fastResendQueue.drop fastResendPerTick ∧
      (begins H T h (n + 1)).fastResendEnd = (fastDone (begins H T h n)).fastResendEnd ∧
      (begins H T h (n + 1)).deltaQueue = (begins H T h n).deltaQueue.drop deltaPerTick ∧
      (begins H T h (n + 1)).deltaTail =
        (begins H T h n).deltaTail.drop (deltaPerTick - (begins H T h n).deltaQueue.length) ∧
      (begins H T h (n + 1)).deltaEndPending =
        (deltaDone (begins H T h n)).deltaEndPending := by
  have hqueues := begins_queues hruns hloaded hmarks hflows n
  simp only [repairs, Prod.mk.injEq] at hqueues
  obtain ⟨hfast, hend, hqueue, htail, hdone, -⟩ := hqueues
  exact ⟨hfast, hend, hqueue, htail, hdone⟩

/-- In the end the repair queues are empty. -/
private theorem exists_drained (n : Nat) : ∃ N, n ≤ N ∧ ∀ m, N ≤ m →
    (begins H T h m).fastResendQueue = [] ∧ (begins H T h m).deltaQueue = [] ∧
      (begins H T h m).deltaTail = [] := by
  have hdrop := begins_drop hruns hloaded hmarks hflows
  obtain ⟨N₁, hn₁, hfast⟩ := exists_nil (q := fun m => (begins H T h m).fastResendQueue)
    (k := fun _ => fastResendPerTick) (fun m => (hdrop m).1) (n := n) fun _ _ => by decide
  obtain ⟨N₂, hn₂, hqueue⟩ := exists_nil (q := fun m => (begins H T h m).deltaQueue)
    (k := fun _ => deltaPerTick) (fun m => (hdrop m).2.2.1) (n := N₁) fun _ _ => by decide
  obtain ⟨N₃, hn₃, htail⟩ := exists_nil (q := fun m => (begins H T h m).deltaTail)
    (k := fun m => deltaPerTick - (begins H T h m).deltaQueue.length)
    (fun m => (hdrop m).2.2.2.1) (n := N₂) fun m hm => by
      rw [hqueue m hm]
      show 0 < deltaPerTick
      decide
  exact ⟨N₃, by omega, fun m hm =>
    ⟨hfast m (by omega), hqueue m (by omega), htail m hm⟩⟩

private theorem fastEnd_sent {n : Nat} (hflag : (begins H T h n).fastResendEnd = true) :
    ∃ m, n ≤ m ∧ Said (· = .act .endFast) (begins H T h m).journal (after H T h (m + 1)) := by
  obtain ⟨N, hn, hempty⟩ := exists_drained hruns hloaded hmarks hflows n
  have hsends := fun m => (begins_repaired hruns hloaded hmarks hflows m).fastEnd
  apply exists_of_ends (P := fun m => (begins H T h m).fastResendEnd = true) hflag _ hn
  · -- nothing is left in front of the end
    intro hlast
    apply hsends N hlast
    unfold fastDone
    rw [(hempty N (Nat.le_refl N)).1]
    simp
  · intro m _ hm
    rw [(begins_drop hruns hloaded hmarks hflows m).2.1]
    by_cases hdone : (fastDone (begins H T h m)).fastResendEnd = true
    · exact .inr hdone
    · exact .inl (hsends m hm (Bool.eq_false_iff.mpr hdone))

private theorem deltaEnd_sent {n : Nat} (hflag : (begins H T h n).deltaEndPending = true) :
    ∃ m, n ≤ m ∧ Said (· = .act .endCold) (begins H T h m).journal (after H T h (m + 1)) := by
  obtain ⟨N, hn, hempty⟩ := exists_drained hruns hloaded hmarks hflows n
  have hsends := fun m => (begins_repaired hruns hloaded hmarks hflows m).deltaEnd
  apply exists_of_ends (P := fun m => (begins H T h m).deltaEndPending = true) hflag _ hn
  · intro hlast
    apply hsends N hlast
    unfold deltaDone
    rw [(hempty N (Nat.le_refl N)).2.1, (hempty N (Nat.le_refl N)).2.2]
    simp
  · intro m _ hm
    rw [(begins_drop hruns hloaded hmarks hflows m).2.2.2.2]
    by_cases hdone : (deltaDone (begins H T h m)).deltaEndPending = true
    · exact .inr hdone
    · exact .inl (hsends m hm (Bool.eq_false_iff.mpr hdone))

/-- In the end no repair is under way. -/
private theorem exists_idle (n : Nat) : ∃ N, n ≤ N ∧ ∀ m, N ≤ m → ¬ (begins H T h m).Pending ∧
    (reasserted H (T m).world (begins H T h m)).autoBootAt = (begins H T h m).autoBootAt := by
  obtain ⟨N, hn, hempty⟩ := exists_drained hruns hloaded hmarks hflows n
  -- from the tick after the last queue ran empty on
  refine ⟨N + 1, by omega, fun m hm => ?_⟩
  obtain ⟨i, rfl⟩ := Nat.exists_eq_add_of_le' hm
  obtain ⟨hfast, hqueue, htail⟩ := hempty (i + (N + 1)) (by omega)
  obtain ⟨hfast', hqueue', htail'⟩ := hempty (i + N) (by omega)
  have hdrop := begins_drop hruns hloaded hmarks hflows (i + N)
  -- the queues were empty one tick before, so no end is pending either
  have hpending : (begins H T h (i + (N + 1))).deltaEndPending = false := by
    rw [← Nat.add_assoc, hdrop.2.2.2.2]
    unfold deltaDone
    rw [hqueue', htail']
    simp
  have hend : (begins H T h (i + (N + 1))).fastResendEnd = false := by
    rw [← Nat.add_assoc, hdrop.2.1]
    unfold fastDone
    rw [hfast']
    simp
  constructor
  · unfold Pending
    simp [hqueue, htail, hpending]
  · -- and with nothing to repair the timer of the bootstrap is left alone
    have hl := (begins_ready hruns hloaded hmarks hflows (i + (N + 1))).1
    obtain ⟨-, -, -, -, hsteady⟩ := atRepairs_accepted (hruns.accepts (i + (N + 1))) hl
    unfold reasserted
    rw [drainFastResend_idle H _ ((fastResendQueue_of_frame hsteady.frame).trans hfast)
      ((fastResendEnd_of_frame hsteady.frame).trans hend)]
    exact autoBootAt_atRepairs _ _

/-! ## The dirty set -/

omit hruns hloaded hmarks hflows in
/-- The automatic bootstrap does not come twice in a row. -/
private theorem not_boot_twice {m : Nat}
    (hnone : (after H T h (m + 1)).autoBootAt = none)
    (hat : (reasserted H (T (m + 1)).world (begins H T h (m + 1))).autoBootAt =
      (begins H T h (m + 1)).autoBootAt) :
    (reasserted H (T (m + 1)).world (begins H T h (m + 1))).autoBootAt = none := by
  obtain ⟨-, -, hauto, -⟩ :=
    onDepsgraph_repairs (T (m + 1)).world (T (m + 1)).edits (after H T h (m + 1))
  rw [hat]
  exact hauto.trans hnone

private theorem tomb_sent {n : Nat} {u : Uuid} (hwaits : TombWaits u (begins H T h n)) :
    ∃ m, n ≤ m ∧ Said (· = .act (.tomb u)) (begins H T h m).journal (after H T h (m + 1)) := by
  obtain ⟨N, hn, hidle⟩ := exists_idle hruns hloaded hmarks hflows n
  have hturn := fun m => flushTick_tomb (hruns.accepts m) (T m).faults H
    (begins_ready hruns hloaded hmarks hflows m).1
    (begins_ready hruns hloaded hmarks hflows m).2 (hflows m) (u := u)
  rcases exists_or_stays (P := fun m => TombWaits u (begins H T h m)) hwaits fun m _ hm =>
    (hturn m hm).imp_right fun hleft =>
      (onDepsgraph_repairs (T (m + 1)).world (T (m + 1)).edits _).2.2.2.2 u hleft.1
    with hsent | hstays
  · exact hsent
  · -- a repair is over by then, and no bootstrap comes twice in a row
    have hblocked := fun m hm => ((hturn m (hstays m hm).2).resolve_left (hstays m hm).1).2
    rcases hblocked N hn with hpending | ⟨-, hnone⟩
    · exact absurd hpending (hidle N (Nat.le_refl N)).1
    · rcases hblocked (N + 1) (by omega) with hpending | ⟨hsome, -⟩
      · exact absurd hpending (hidle (N + 1) (by omega)).1
      · exact absurd (not_boot_twice hnone (hidle (N + 1) (by omega)).2) hsome

/-- The entry of `u` waits at the beginning of tick `m`. -/
structure WaitsAt (H : Digests β V δ) (T : Nat → Turn β V) (h : Host β V δ) (u : Uuid)
    (m : Nat) : Prop where
  marked : ∃ t, (begins H T h m).dirty.entries.get? u = some (.dirty t)
  touched : ((begins H T h m).debounce.touched.get? u).isSome

omit hruns hloaded hmarks hflows in
/-- What happens to an entry that waits in a tick that does not answer it, and in the edits
    that come then. -/
theorem WaitsAt.step {u : Uuid} {m : Nat}
    (hother : ∀ x ∈ (T (m + 1)).edits, x.uuid ≠ u)
    (hwaits : Waits (T m).world u (begins H T h m) (after H T h (m + 1))) :
    WaitsAt H T h u (m + 1) ∧
      (begins H T h (m + 1)).debounce.touched.get? u =
        (after H T h (m + 1)).debounce.touched.get? u ∧
      (begins H T h (m + 1)).dirty.ahead u = (after H T h (m + 1)).dirty.ahead u := by
  obtain ⟨t, hmarked⟩ := hwaits.marked
  obtain ⟨τ, hτ, -⟩ := hwaits.touched
  have hmem : u ∈ (after H T h (m + 1)).dirty.entries.keys :=
    (Dict.mem_keys_iff ..).mpr ⟨_, hmarked⟩
  obtain ⟨hget, htouched, hahead⟩ :=
    onDepsgraph_other (T (m + 1)).world (T (m + 1)).edits hother hmem
  refine ⟨⟨⟨t, hget.trans hmarked⟩, ?_⟩, htouched, hahead⟩
  rw [show (begins H T h (m + 1)).debounce.touched.get? u = _ from htouched, hτ]
  rfl

omit [BEq V] [DecidableEq δ] hruns hloaded hmarks hflows in
/-- The entry of `u` waits from tick `n` on, and what holds each tick up. -/
structure LeftWaiting (H : Digests β V δ) (T : Nat → Turn β V) (h : Host β V δ) (u : Uuid)
    (n : Nat) : Prop where
  at_ : ∀ m, n ≤ m → WaitsAt H T h u m
  waits : ∀ m, n ≤ m → Waits (T m).world u (begins H T h m) (after H T h (m + 1))
  touched : ∀ m, n ≤ m → (begins H T h (m + 1)).debounce.touched.get? u =
    (after H T h (m + 1)).debounce.touched.get? u
  ahead : ∀ m, n ≤ m →
    (begins H T h (m + 1)).dirty.ahead u = (after H T h (m + 1)).dirty.ahead u
  held : ∀ m, n ≤ m → (begins H T h m).Pending ∨
    (reasserted H (T m).world (begins H T h m)).autoBootAt ≠ none ∧
      (after H T h (m + 1)).autoBootAt = none ∨
    ((∀ τ, (begins H T h m).debounce.touched.get? u = some τ →
        τ + debounceMs ≤ (T m).world.now) →
      (u ∈ (begins H T h m).uuidToDb ∨ u ∉ (after H T h (m + 1)).uuidToDb) →
      (after H T h (m + 1)).dirty.ahead u + t2PerTick ≤ (begins H T h m).dirty.ahead u)

omit hruns hloaded hmarks hflows in
/-- From some tick on no sweep finds the datablock. -/
theorem LeftWaiting.settled {u : Uuid} {n : Nat} (hleft : LeftWaiting H T h u n) :
    ∃ N, n ≤ N ∧ ∀ m, N ≤ m →
      u ∈ (begins H T h m).uuidToDb ∨ u ∉ (after H T h (m + 1)).uuidToDb := by
  have hknown : ∀ m, u ∈ (after H T h (m + 1)).uuidToDb →
      u ∈ (begins H T h (m + 1)).uuidToDb := fun m hu =>
    (onDepsgraph_repairs (T (m + 1)).world (T (m + 1)).edits _).2.2.2.1 u hu
  by_cases hfound : ∃ m, n ≤ m ∧ u ∈ (begins H T h m).uuidToDb
  · obtain ⟨N, hn, hu⟩ := hfound
    refine ⟨N, hn, fun m hm => .inl ?_⟩
    induction m, hm using Nat.le_induction with
    | base => exact hu
    | succ m hm ih => exact hknown m ((hleft.waits m (by omega)).known ih)
  · refine ⟨n, Nat.le_refl n, fun m hm => .inr fun hu => hfound ⟨m + 1, by omega, ?_⟩⟩
    exact hknown m hu

omit hloaded hmarks hflows in
/-- Once no sweep finds the datablock, its window is over for good. -/
theorem LeftWaiting.due {u : Uuid} {n N : Nat} (hleft : LeftWaiting H T h u n) (hn : n ≤ N)
    (hsettled : ∀ m, N ≤ m →
      u ∈ (begins H T h m).uuidToDb ∨ u ∉ (after H T h (m + 1)).uuidToDb) :
    ∃ M, N ≤ M ∧ ∀ m, M ≤ m → ∀ τ, (begins H T h m).debounce.touched.get? u = some τ →
      τ + debounceMs ≤ (T m).world.now := by
  obtain ⟨τ₀, hτ₀⟩ := Option.isSome_iff_exists.mp (hleft.at_ N hn).touched
  -- it is touched no later than now, but for a sweep that marks it as if long ago
  have htouched : ∀ m, N ≤ m → ∀ τ, (begins H T h m).debounce.touched.get? u = some τ →
      τ ≤ τ₀ ∨ τ ≤ (T m).world.now - debounceMs := by
    intro m hm
    induction m, hm using Nat.le_induction with
    | base =>
      intro τ hτ
      rw [hτ₀] at hτ
      cases hτ
      exact .inl (Int.le_refl _)
    | succ m hm ih =>
      intro τ hτ
      rw [hleft.touched m (by omega)] at hτ
      obtain ⟨τ', hτ', hor⟩ := (hleft.waits m (by omega)).touched
      rw [hτ] at hτ'
      cases hτ'
      have hclock := hruns.clock m
      rcases hor with hsame | hnow | ⟨-, hnew, hfound⟩
      · rcases ih τ hsame with hold | hlate
        · exact .inl hold
        · exact .inr (by omega)
      · exact .inr (by omega)
      · exact absurd ((hsettled m hm).resolve_right fun hnot => hnot hfound) hnew
  obtain ⟨N₂, hpasses⟩ := hruns.passes (τ₀ + debounceMs)
  have hclock : ∀ m, N₂ ≤ m → τ₀ + debounceMs ≤ (T m).world.now := by
    intro m hm
    induction m, hm using Nat.le_induction with
    | base => exact hpasses
    | succ m hm ih => exact ih.trans (hruns.clock m)
  refine ⟨max N N₂, by omega, fun m hm τ hτ => ?_⟩
  have hnow := hclock m (by omega)
  rcases htouched m (by omega) τ hτ with hold | hlate
  · omega
  · omega

/-- An entry that is left waiting comes nearer with every tick or the next one. -/
private theorem not_leftWaiting {u : Uuid} {n : Nat} : ¬ LeftWaiting H T h u n := by
  intro hleft
  obtain ⟨N, hn, hsettled⟩ := hleft.settled
  obtain ⟨N₁, hn₁, hidle⟩ := exists_idle hruns hloaded hmarks hflows N
  obtain ⟨M, hM, hdue⟩ := hleft.due hruns (by omega : n ≤ N₁) fun m hm =>
    hsettled m (by omega)
  have hfall : ∀ m, M ≤ m → (after H T h (m + 1)).autoBootAt = none ∧
      (reasserted H (T m).world (begins H T h m)).autoBootAt ≠ none ∨
      (begins H T h (m + 1)).dirty.ahead u + t2PerTick ≤ (begins H T h m).dirty.ahead u := by
    intro m hm
    rw [hleft.ahead m (by omega)]
    rcases hleft.held m (by omega) with hpending | ⟨hsome, hnone⟩ | hprogress
    · exact absurd hpending (hidle m (by omega)).1
    · exact .inl ⟨hnone, hsome⟩
    · exact .inr (hprogress (hdue m hm) (hsettled m (by omega)))
  have hmono : ∀ m, n ≤ m →
      (begins H T h (m + 1)).dirty.ahead u ≤ (begins H T h m).dirty.ahead u := by
    intro m hm
    rw [hleft.ahead m hm]
    exact (hleft.waits m hm).ahead
  -- a bootstrap takes a tick, but not two in a row
  have htwo : ∀ m, M ≤ m →
      (begins H T h (m + 2)).dirty.ahead u < (begins H T h m).dirty.ahead u := by
    intro m hm
    have hfirst := hmono m (by omega)
    have hsecond := hmono (m + 1) (by omega)
    rw [show m + 2 = m + 1 + 1 from rfl]
    unfold t2PerTick at hfall
    rcases hfall m hm with ⟨hnone, -⟩ | hfell
    · rcases hfall (m + 1) (by omega) with ⟨-, hsome⟩ | hfell
      · exact absurd (not_boot_twice hnone (hidle (m + 1) (by omega)).2) hsome
      · omega
    · omega
  exact not_falls (f := fun m => (begins H T h m).dirty.ahead u) htwo

/-- The edit of a datablock that does not raise is answered. -/
private theorem edit_answered {n : Nat} {u : Uuid} (hwaits : WaitsAt H T h u n)
    (hquiet : ∀ m, n ≤ m → (T m).faults.raises u = false)
    (hother : ∀ m, n < m → ∀ x ∈ (T m).edits, x.uuid ≠ u) :
    ∃ m, n ≤ m ∧ Answered (T m).faults H (T m).world (begins H T h m) u := by
  have hturn := fun m (hm : n ≤ m) (hh : WaitsAt H T h u m) =>
    flushTick_turn (hruns.accepts m) (T m).faults H
      (begins_ready hruns hloaded hmarks hflows m).1
      (begins_ready hruns hloaded hmarks hflows m).2 (hflows m) (hquiet m hm) hh.marked hh.touched
  rcases exists_or_stays hwaits fun m hm hh => (hturn m hm hh).imp_right fun hleft =>
    (WaitsAt.step (hother (m + 1) (by omega)) hleft.1).1 with hanswered | hstays
  · exact hanswered
  · have hleft := fun m hm => (hturn m hm (hstays m hm).2).resolve_left (hstays m hm).1
    have hnext := fun m hm => (WaitsAt.step (hother (m + 1) (by omega)) (hleft m hm).1).2
    refine absurd ?_ (not_leftWaiting hruns hloaded hmarks hflows (u := u) (n := n))
    exact ⟨fun m hm => (hstays m hm).2, fun m hm => (hleft m hm).1, fun m hm => (hnext m hm).1,
      fun m hm => (hnext m hm).2, fun m hm => (hleft m hm).2⟩

/-- While nothing raises but the last entry of a drain, the session goes on. -/
private theorem recovers_of_flows : Recovers H T h := by
  have hdrop := begins_drop hruns hloaded hmarks hflows
  have hrepaired := begins_repaired hruns hloaded hmarks hflows
  have hempty := exists_drained hruns hloaded hmarks hflows
  refine ⟨hrepaired, fun n e he => ?_, fun n e he => ?_, fun n u hu => ?_,
    fun n => fastEnd_sent hruns hloaded hmarks hflows,
    fun n => deltaEnd_sent hruns hloaded hmarks hflows,
    fun n u hmarked htouched => edit_answered hruns hloaded hmarks hflows ⟨hmarked, htouched⟩,
    fun n u => tomb_sent hruns hloaded hmarks hflows⟩
  · -- an entry of the re-assert: the queue is empty once, so it was taken before
    obtain ⟨N, hn, hnil⟩ := hempty n
    obtain ⟨m, hm, hmem⟩ := exists_mem_take
      (q := fun m => (begins H T h m).fastResendQueue) (k := fun _ => fastResendPerTick)
      (fun m => (hdrop m).1) hn (hnil N (Nat.le_refl N)).1 he
    exact ⟨m, hm, (hrepaired m).fast e hmem⟩
  · -- an entry of the repair, the same way
    obtain ⟨N, hn, hnil⟩ := hempty n
    obtain ⟨m, hm, hmem⟩ := exists_mem_take
      (q := fun m => (begins H T h m).deltaQueue) (k := fun _ => deltaPerTick)
      (fun m => (hdrop m).2.2.1) hn (hnil N (Nat.le_refl N)).2.1 he
    exact ⟨m, hm, (hrepaired m).blobs e hmem⟩
  · -- one of its tail, the same way
    obtain ⟨N, hn, hnil⟩ := hempty n
    obtain ⟨m, hm, hmem⟩ := exists_mem_take
      (q := fun m => (begins H T h m).deltaTail)
      (k := fun m => deltaPerTick - (begins H T h m).deltaQueue.length)
      (fun m => (hdrop m).2.2.2.1) hn (hnil N (Nat.le_refl N)).2.2 hu
    exact ⟨m, hm, (hrepaired m).reasserts u hmem⟩

end Flow

private theorem loaded_run (H : Digests β V δ) (w₀ : World β V) (c0 f0 : Nat)
    (calls : List (Faults × World β V × Call β δ)) :
    (Raising.run H (start w₀ c0 f0) calls).ledger.Loaded := by
  apply Raising.ledger_run (P := Ledger.Loaded) (fun _ a hl => hl.step a) H calls
  have hstart := initialScan_scanned w₀ ({ ledger := Ledger.start c0 f0 } : Host β V δ)
  simp only [scanned, Prod.mk.injEq] at hstart
  intro u o hget
  rw [show (start w₀ c0 f0 : Host β V δ).ledger = Ledger.start c0 f0 from hstart.1] at hget
  cases hget

/-- In every session that has had its first bootstrap, ticks in which nothing raises but the
    last entry of a drain go on with everything that is queued or dirty. -/
theorem recovers (H : Digests β V δ) (w₀ : World β V) (c0 f0 : Nat)
    (calls : List (Faults × World β V × Call β δ)) (T : Nat → Turn β V) (hruns : Runs T)
    (hmarks : (Raising.run H (start w₀ c0 f0) calls).suppressMarks = false)
    (hflows : ∀ n, Flows (T n).faults H (T n).world
      (begins H T (Raising.run H (start w₀ c0 f0) calls) n)) :
    Recovers H T (Raising.run H (start w₀ c0 f0) calls) :=
  recovers_of_flows hruns (loaded_run H w₀ c0 f0 calls) hmarks hflows

/-- Where nothing raises and every handle works, nothing holds a tick up. -/
private theorem flows_of_quiet {F : Faults} (H : Digests β V δ) {w : World β V} (h : Host β V δ)
    (hF : ∀ u, F.raises u = false) (hsample : ∀ u, F.sample u = false)
    (hworks : ∀ u ∈ w.dbs.keys, u ∈ (atDrain F H w h).uuidToDb) (hpaused : w.paused = false) :
    Flows F H w h where
  paused := hpaused
  -- no entry of a repair raises
  fast i _ := by
    unfold fastRaises
    split
    · rfl
    · split
      · rfl
      · exact Raising.eq_nil_of_quiet hF fun _ hx => Raising.raises_of_mem_fullRaises hx
  delta := by
    constructor
    · intro i _
      unfold deltaRaises
      split
      · rfl
      · exact Raising.eq_nil_of_quiet hF fun _ hx => Raising.raises_of_mem_resendRaises hx
    · intro i _
      unfold tailRaises
      split
      · rfl
      · exact Raising.eq_nil_of_quiet hF fun _ hx => Raising.raises_of_mem_fullRaises hx
  -- no sample raises
  sweep _ _ e _ _ := Faults.sampling_quiet hF hsample e
  -- and no entry of the drain does, at any state that its turns come to
  last _ := by
    have hall : ∀ (ready : List Uuid) (es : List (Uuid × Tier)) (s : Host β V δ × Nat),
        (∀ u ∈ w.dbs.keys, u ∈ s.1.uuidToDb) → TurnsSafe F H w ready s es := by
      intro ready es
      induction es with
      | nil => exact fun _ _ => trivial
      | cons e es ih =>
        -- the turn is quiet, and it leaves the handles working
        intro s hs
        have hquiet : Raising.turnRaises F w ready s e = [] :=
          Raising.eq_nil_of_quiet hF fun _ hx => Raising.raises_of_mem_turnRaises hx
        refine ⟨fun x hx => ?_, fun _ hmem => hs _ hmem, ih _ fun u hu => ?_⟩
        · rw [hquiet] at hx
          cases hx
        · have hknown := known_flushEntry F H ready s e (w := w) (hs u hu)
          rwa [Raising.flushEntry_eq H ready s e hquiet] at hknown
    exact hall _ _ _ fun u hu => known_drained (hworks u hu)

end Run

end Host

/-! ## A blob that raises -/

namespace Broken

open Camera (Digest digests)

/-- The bootstrap leaves, and the replica asks for the blobs of both cameras. -/
def repair : List (Faults × World (Entry String) String × Host.Call (Entry String) Digest) :=
  [({}, file "50" 0, .bootstrap), ({}, file "50" 0, .tick),
   ({}, file "50" 0, .delta { resend := ["a", "b"] } Dict.empty)]

/-- A tick every 80 ms, in which the blob of `"a"` raises. -/
def failing (n : Nat) : Turn (Entry String) String where
  faults := { serialize := fun u => u = "a" }
  world := file "50" (80 * n)

/-- The cameras are deleted. -/
def empty (now : Int) : World (Entry String) String where
  dbs := Dict.empty
  stamps := by simp
  now := now

/-- Both cameras are edited, `"a"` raises in the first tick, and they are deleted then. -/
def failsOnce : Nat → Turn (Entry String) String
  | 0 => { faults := faults, world := file "35" 80 }
  | n + 1 => { world := empty (80 * (n + 2)) }

private theorem runs_failing : Host.Runs failing where
  accepts _ _ := rfl
  clock n := by
    show (80 * n : Int) ≤ 80 * (n + 1 : Nat)
    omega
  passes t := ⟨t.toNat, by
    show t ≤ 80 * (t.toNat : Int)
    omega⟩

private theorem runs_failsOnce : Host.Runs failsOnce where
  accepts n := by
    cases n with
    | zero => exact fun _ => rfl
    | succ n => exact fun _ => rfl
  clock n := by
    cases n with
    | zero =>
      show (80 : Int) ≤ 80 * ((0 : Nat) + 2)
      omega
    | succ n =>
      show (80 * (n + 2) : Int) ≤ 80 * ((n + 1 : Nat) + 2)
      omega
  passes t := ⟨t.toNat + 1, by
    show t ≤ 80 * ((t.toNat : Int) + 2)
    omega⟩

end Broken

open Broken in
/-- Camera `"a"` stays at the head of the delta, and the blob of `"b"` waits behind it. -/
theorem recovers_counterexample :
    Host.Runs failing ∧
      (Host.Raising.run Camera.digests (Host.start (file "50" 0) 0 0) repair).suppressMarks =
        false ∧
      ¬ Host.Recovers Camera.digests failing
        (Host.Raising.run Camera.digests (Host.start (file "50" 0) 0 0) repair) := by
  refine ⟨runs_failing, by decide +kernel, fun h => ?_⟩
  have hqueues := congrArg (fun r => r.2.2.1.length) (h.repaired 0).queues
  revert hqueues
  decide +kernel

open Broken in
/-- The edit of `"b"` leaves before `"a"` raises, and then the tombstones of both. -/
theorem recovers_last :
    Host.Recovers Camera.digests failsOnce
        (Host.Raising.run Camera.digests (Host.start (file "50" 0) 0 0)
          ((calls ["b", "a"]).map fun c => ({}, c))) ∧
      (Host.Raising.flushTickInner faults Camera.digests (file "35" 80)
        (Host.Raising.run Camera.digests (Host.start (file "50" 0) 0 0)
          ((calls ["b", "a"]).map fun c => ({}, c)))).2 = .error "a" := by
  refine ⟨?_, by decide +kernel⟩
  apply Host.recovers Camera.digests (file "50" 0) 0 0
    ((calls ["b", "a"]).map fun c => ({}, c)) failsOnce runs_failsOnce (by decide +kernel)
  -- the first tick meets the condition, and every later one is quiet
  intro n
  cases n with
  | zero =>
    refine ⟨rfl, ?_, ⟨?_, ?_⟩, fun _ => ?_, by decide +kernel⟩
    · unfold Host.FastSafe
      decide +kernel
    · unfold Host.BlobsSafe
      decide +kernel
    · unfold Host.TailSafe
      decide +kernel
    · unfold Host.SweepSafe
      decide +kernel
  | succ n =>
    exact Host.flows_of_quiet Camera.digests _ (fun _ => rfl) (fun _ => rfl)
      (fun u hu => nomatch hu) rfl

end QCBridge
