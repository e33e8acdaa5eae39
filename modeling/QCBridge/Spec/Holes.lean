import QCBridge.Spec.Pump
import QCBridge.ForStd.Guarded
import QCBridge.ForStd.History

/-!
# Losses that are detected and forgotten

A lane's tracker keeps the first missing seq until a repair ends, and then drops
it, whatever else went missing while the repair was under way. The replica is
right about a loss as long as no repair ends on a lane that has lost a message
sent after the repair was planned.

The host's side is a list: every message of the session in the order it was
sent, and for each repair how many of them had been sent when it was planned and
the header its end is processed with.

## Key results

- `Remembers`: the invariant, one lemma for each kind of log entry
- `losses_remembered`: no detected loss is forgotten while the condition holds
-/

namespace QCBridge

variable {β V δ S : Type}

/-! ## Runs that lose messages -/

/-- An action of the apply loop, or the loss of the next message of a lane. -/
inductive LossyAct where
  | act (a : Node.Act)
  | lose (l : Lane)
deriving DecidableEq, Repr

/-- One step of a run over lanes that lose messages. -/
def Node.lossyStep [Inhabited β] (B : Blender β V δ S) (n : Node β V δ S) : LossyAct → Node β V δ S
  | .act a => n.step B a
  | .lose .cold => { n with coldLane := n.coldLane.tail }
  | .lose .fast => { n with fastLane := n.fastLane.tail }

/-- A repair: how many messages the host had sent when it planned it, and the
    header its end is processed with (a `resync_end`'s, or the bootstrap's). -/
structure Repair (δ : Type) where
  planned : Nat
  done : Header δ

/-- The lanes whose hole the end of a repair clears. -/
def Header.clears (h : Header δ) (l : Lane) : Bool :=
  if h.kind = .boot then true else if h.lane = .fast then l = .fast else l = .cold

/-- The messages of one lane. -/
def onLane (l : Lane) (sent : List (Msg β V δ)) : List (Msg β V δ) :=
  sent.filter fun m => m.header.lane = l

/-- The seqs of a lane count on from `base`. -/
def Sequenced (base : Nat) (ms : List (Msg β V δ)) : Prop :=
  ms.map (·.header.seq) = (List.range ms.length).map fun i => some (base + i + 1)

/-! ## What the log says about a loss -/

/-- A later message of the lane was observed, and `x` was not. -/
def Missed (log : List (Ev β V δ)) (x : Msg β V δ) : Prop :=
  Ev.seen x ∉ log ∧ ∃ y s s', Ev.seen y ∈ log ∧ y.header.lane = x.header.lane ∧
    x.header.seq = some s ∧ y.header.seq = some s' ∧ s < s'

/-- A message that re-asserts what `x` said, sent after it, was applied. -/
def Reasserted (reasserts : Msg β V δ → Msg β V δ → Prop) (sent : List (Msg β V δ))
    (log : List (Ev β V δ)) (x : Msg β V δ) : Prop :=
  ∃ before after z, sent = before ++ x :: after ∧ z ∈ after ∧ reasserts z x ∧
    (Ev.dispatched z ∈ log ∨ ∃ e, Ev.applied e ∈ log ∧ e.seq = z.header.seq)

/-- The end of the repair was not processed yet. -/
def UnderWay (log : List (Ev β V δ)) (R : Repair δ) : Prop :=
  ∀ reported, Ev.ended R.done reported ∉ log

section

variable (reasserts : Msg β V δ → Msg β V δ → Prop) (sent : List (Msg β V δ))
  (repairs : List (Repair δ))

/-- `x` was sent after a repair still under way was planned, and it is missing. -/
def Owed (log : List (Ev β V δ)) (x : Msg β V δ) : Prop :=
  (∃ R ∈ repairs, UnderWay log R ∧ x ∈ sent.drop R.planned) ∧
    Missed log x ∧ ¬ Reasserted reasserts sent log x

/-- When a repair ends, a message that was sent after it was planned and is missing
    makes the replica go on reporting. -/
def ReportsLoss (log : List (Ev β V δ)) : Ev β V δ → Prop
  | .ended h reported => ∀ R ∈ repairs, R.done = h → UnderWay log R →
      ∀ x ∈ sent.drop R.planned, Missed log x → ¬ Reasserted reasserts sent log x →
        reported = true
  | _ => True

/-- No repair ends on a lane that owes a message. -/
def SafeEnd (log : List (Ev β V δ)) : Ev β V δ → Prop
  | .ended h _ => ∀ x, Owed reasserts sent repairs log x → h.clears x.header.lane = false
  | _ => True

/-- While every end so far was safe, the lane of every owed message shows a hole,
    and every loss was reported. -/
def Remembers (g : LaneMerger β V δ) (log : List (Ev β V δ)) : Prop :=
  History (SafeEnd reasserts sent repairs) log →
    (∀ x, Owed reasserts sent repairs log x → (g.tracker x.header.lane).firstMissing ≠ none) ∧
      History (ReportsLoss reasserts sent repairs) log

variable {reasserts sent repairs}

/-! ## What the log entries change -/

/-- What the log shows of a loss, entries other than observations aside. -/
theorem Missed.of_append {log more : List (Ev β V δ)} {x : Msg β V δ}
    (hmore : ∀ y, Ev.seen y ∉ more) (h : Missed (log ++ more) x) : Missed log x := by
  obtain ⟨hx, y, s, s', hy, hrest⟩ := h
  exact ⟨fun hin => hx (List.mem_append_left _ hin), y, s, s',
    (List.mem_append.mp hy).resolve_right (hmore y), hrest⟩

theorem UnderWay.of_append {log more : List (Ev β V δ)} {R : Repair δ}
    (h : UnderWay (log ++ more) R) : UnderWay log R :=
  fun reported hin => h reported (List.mem_append_left _ hin)

theorem Reasserted.append {log : List (Ev β V δ)} {x : Msg β V δ}
    (h : Reasserted reasserts sent log x) (more : List (Ev β V δ)) :
    Reasserted reasserts sent (log ++ more) x := by
  obtain ⟨before, after, z, hsent, hz, hre, happ⟩ := h
  refine ⟨before, after, z, hsent, hz, hre, ?_⟩
  rcases happ with hd | ⟨e, he, hseq⟩
  · exact .inl (List.mem_append_left _ hd)
  · exact .inr ⟨e, List.mem_append_left _ he, hseq⟩

/-- Only an observation makes a message owed. -/
theorem Owed.of_append {log more : List (Ev β V δ)} {x : Msg β V δ}
    (hmore : ∀ y, Ev.seen y ∉ more) (h : Owed reasserts sent repairs (log ++ more) x) :
    Owed reasserts sent repairs log x := by
  obtain ⟨⟨R, hR, hunder, hx⟩, hmissed, hnot⟩ := h
  exact ⟨⟨R, hR, hunder.of_append, hx⟩, hmissed.of_append hmore, fun hre => hnot (hre.append more)⟩

namespace Remembers

variable {g g' : LaneMerger β V δ} {log : List (Ev β V δ)}

/-- Something was done that is neither an observation nor an end. -/
private theorem effect (h : Remembers reasserts sent repairs g log)
    (hg : ∀ l, g'.tracker l = g.tracker l) {ev : Ev β V δ} (hev : ev.isEffect = true) :
    Remembers reasserts sent repairs g' (log ++ [ev]) := by
  intro hsafe
  obtain ⟨hholes, hpast⟩ := h hsafe.of_append
  have hmore : ∀ y, Ev.seen y ∉ [ev] := by
    rintro y hy
    rw [List.mem_singleton] at hy
    rw [← hy] at hev
    cases hev
  refine ⟨fun x hx => ?_, hpast.snoc ?_⟩
  · rw [hg]
    exact hholes x (hx.of_append hmore)
  · cases ev with
    | ended => cases hev
    | _ => trivial

/-- A repair ended: the lanes it clears show no hole any more, and what is left is
    reported. -/
theorem ended (h : Remembers reasserts sent repairs g log) {hd : Header δ} {reported : Bool}
    (hkeep : ∀ l, hd.clears l = false → g'.tracker l = g.tracker l)
    (hreport : ∀ l, (g'.tracker l).firstMissing ≠ none → reported = true) :
    Remembers reasserts sent repairs g' (log ++ [.ended hd reported]) := by
  intro hsafe
  obtain ⟨hholes, hpast⟩ := h hsafe.of_append
  have hleft : ∀ x, Owed reasserts sent repairs log x →
      (g'.tracker x.header.lane).firstMissing ≠ none := by
    intro x hx
    rw [hkeep _ (hsafe.last x hx)]
    exact hholes x hx
  refine ⟨fun x hx => hleft x (hx.of_append (by simp)), hpast.snoc ?_⟩
  intro R hR hdone hunder x hx hmissed hnot
  exact hreport _ (hleft x ⟨⟨R, hR, hunder, hx⟩, hmissed, hnot⟩)

end Remembers

/-! ## The replica -/

/-- The seqs of the session: on each lane they count on from its base. -/
def Numbered (base : Lane → Nat) (sent : List (Msg β V δ)) : Prop :=
  ∀ l, Sequenced (base l) (onLane l sent)

theorem Numbered.seq {base : Lane → Nat} (h : Numbered base sent) {x : Msg β V δ}
    (hx : x ∈ sent) :
    ∃ i, (onLane x.header.lane sent)[i]? = some x ∧
      x.header.seq = some (base x.header.lane + i + 1) := by
  have hmem : x ∈ onLane x.header.lane sent := by simp [onLane, hx]
  obtain ⟨i, hi⟩ := List.mem_iff_getElem?.mp hmem
  have hlt := (List.getElem?_eq_some_iff.mp hi).1
  have hseq := congrArg (·[i]?) (h x.header.lane)
  simp only [List.getElem?_map, hi, Option.map_some, List.getElem?_range hlt,
    Option.some.injEq] at hseq
  exact ⟨i, hi, hseq⟩

/-- A seq names one message of its lane. -/
theorem Numbered.inj {base : Lane → Nat} (h : Numbered base sent) {x y : Msg β V δ}
    (hx : x ∈ sent) (hy : y ∈ sent) (hlane : x.header.lane = y.header.lane)
    (hseq : x.header.seq = y.header.seq) : x = y := by
  obtain ⟨i, hi, hsx⟩ := h.seq hx
  obtain ⟨j, hj, hsy⟩ := h.seq hy
  rw [hsx, hsy, hlane, Option.some.injEq] at hseq
  obtain rfl : i = j := by omega
  rw [hlane, hj, Option.some.injEq] at hi
  exact hi.symm

variable (reasserts sent repairs) in
/-- What holds of the replica between two messages. -/
structure Watch (base : Lane → Nat) (r : Replica β V δ S) : Prop where
  heard : ∀ l, ∃ k, (r.merger.tracker l).lastSeen = some k ∧
    (k = base l ∨ ∃ y, Ev.seen y ∈ r.log ∧ y.header.lane = l ∧ y.header.seq = some k)
  known : ∀ y, Ev.seen y ∈ r.log → y ∈ sent
  remembers : Remembers reasserts sent repairs r.merger r.log

namespace Watch

open Replica

variable {base : Lane → Nat} {r q : Replica β V δ S}

/-- Something that concerns neither the trackers nor the log. -/
theorem same (h : Watch reasserts sent repairs base r)
    (hg : ∀ l, q.merger.tracker l = r.merger.tracker l) (hlog : q.log = r.log) :
    Watch reasserts sent repairs base q := by
  refine ⟨fun l => ?_, hlog ▸ h.known, ?_⟩
  · rw [hg, hlog]
    exact h.heard l
  · intro hsafe
    rw [hlog] at hsafe ⊢
    obtain ⟨hholes, hpast⟩ := h.remembers hsafe
    exact ⟨fun x hx => by rw [hg]; exact hholes x hx, hpast⟩

/-- Log entries other than observations. -/
theorem append (h : Watch reasserts sent repairs base r) {x : Ev β V δ}
    (hev : ∀ y, x ≠ .seen y) (hlog : q.log = r.log ++ [x])
    (hlast : ∀ l, (q.merger.tracker l).lastSeen = (r.merger.tracker l).lastSeen)
    (hrem : Remembers reasserts sent repairs q.merger (r.log ++ [x])) :
    Watch reasserts sent repairs base q := by
  have hseen : ∀ y, Ev.seen y ∈ r.log ++ [x] ↔ Ev.seen y ∈ r.log := by
    intro y
    simp [(hev y).symm]
  refine ⟨fun l => ?_, fun y hy => ?_, hlog ▸ hrem⟩
  · simp only [hlast, hlog, hseen]
    exact h.heard l
  · rw [hlog, hseen] at hy
    exact h.known y hy

/-- An effect. -/
private theorem effect (h : Watch reasserts sent repairs base r) {ev : Ev β V δ}
    (hev : ev.isEffect = true) (hlog : q.log = r.log ++ [ev])
    (hg : ∀ l, q.merger.tracker l = r.merger.tracker l) :
    Watch reasserts sent repairs base q := by
  refine h.append (fun y hy => ?_) hlog (fun l => by rw [hg]) (h.remembers.effect hg hev)
  rw [hy] at hev
  cases hev

private theorem reports_of_gapLane {d : ReplicaData V δ S} (h : d.stats.gapLane ≠ .none) :
    reports d = true := by
  simp [reports, h]

/-- What a replica reports once its statistics are up to date. -/
private theorem reports_refresh (g : LaneMerger β V δ) (d : ReplicaData V δ S) (l : Lane)
    (h : (g.tracker l).firstMissing ≠ none) : (refreshGapStats g d).stats.gapLane ≠ .none := by
  have hgap : g.gapLane ≠ .none := by
    simp only [LaneMerger.gapLane]
    cases l <;> split <;> simp_all [LaneMerger.tracker]
  simp [refreshGapStats, hgap]

/-- `_end_resync`. -/
theorem endResync (h : Watch reasserts sent repairs base r) {m : Msg β V δ}
    (hm : m.header.kind = .resyncEnd) :
    Watch reasserts sent repairs base (r.endResync m) := by
  refine h.append (x := .ended m.header _) (by simp) rfl (fun l => ?_)
    (h.remembers.ended (fun l hl => ?_) fun l hl => ?_)
  · simp only [Replica.endResync]
    cases l <;> split <;> rfl
  · simp only [Header.clears, hm, reduceCtorEq, if_false] at hl
    simp only [Replica.endResync]
    split at hl <;> cases l <;> simp_all [LaneMerger.tracker, LaneMerger.clearFastGap,
      LaneMerger.clearColdGap]
  · exact reports_of_gapLane (reports_refresh _ _ l hl)

/-- `_apply_one` of a bootstrap. -/
theorem applyBoot (h : Watch reasserts sent repairs base r) (B : Blender β V δ S)
    (e : Pending β δ) (hboot : e.isBoot = true) :
    Watch reasserts sent repairs base (applyBoot B r e) := by
  have hkind : e.header.kind = .boot := by simpa [Pending.isBoot] using hboot
  refine h.append (x := .ended e.header _) (by simp) rfl (fun l => by cases l <;> rfl)
    (h.remembers.ended (fun l hl => ?_) fun l hl => ?_)
  · simp [Header.clears, hkind] at hl
  · cases l <;> exact absurd rfl hl

/-- A message newly missed is one the tracker has just skipped. -/
private theorem skipped (h : Watch reasserts sent repairs base r) (hnum : Numbered base sent)
    {m x : Msg β V δ} {seq : Nat} (hseq : m.header.seq = some seq) (hx : x ∈ sent)
    (hnew : Missed (r.log ++ [Ev.seen m]) x) (hold : ¬ Missed r.log x) :
    m.header.lane = x.header.lane ∧
      ((r.merger.tracker x.header.lane).observe seq).firstMissing ≠ none := by
  obtain ⟨hnot, y, s, s', hy, hlane, hs, hs', hlt⟩ := hnew
  have hnotlog : Ev.seen x ∉ r.log := fun hin => hnot (List.mem_append_left _ hin)
  -- an observation already in the log would have shown the miss before
  have hle : ∀ y ∈ sent, Ev.seen y ∈ r.log → y.header.lane = x.header.lane →
      ∀ t, y.header.seq = some t → t < s := by
    intro y hysent hy hlane t ht
    rcases Nat.lt_trichotomy t s with hlt | heq | hgt
    · exact hlt
    · have hxy := hnum.inj hysent hx hlane (by rw [ht, hs, heq])
      exact absurd (hxy ▸ hy) hnotlog
    · exact absurd ⟨hnotlog, y, s, t, hy, hlane, hs, ht, hgt⟩ hold
  have hym : y = m := by
    rcases List.mem_append.mp hy with hy | hy
    · have := hle y (h.known y hy) hy hlane s' hs'
      omega
    · simpa using hy
  subst hym
  rw [hseq, Option.some.injEq] at hs'
  subst hs'
  refine ⟨hlane, ?_⟩
  obtain ⟨k, hk, hfrom⟩ := h.heard x.header.lane
  refine SeqTracker.observe_firstMissing_of_skip _ hk ?_
  rcases hfrom with hbase | ⟨y', hy', hlane', hseq'⟩
  · obtain ⟨i, -, hxs⟩ := hnum.seq hx
    rw [hs, Option.some.injEq] at hxs
    omega
  · have := hle y' (h.known y' hy') hy' hlane' k hseq'
    omega

/-- A message of the session is observed. -/
theorem observed (h : Watch reasserts sent repairs base r) (hnum : Numbered base sent)
    {m : Msg β V δ} (hm : m ∈ sent) : Watch reasserts sent repairs base (r.observed m) := by
  obtain ⟨i, -, hseq⟩ := hnum.seq hm
  have htracker := r.merger.observe_tracker hseq
  refine ⟨fun l => ?_, fun y hy => ?_, fun hsafe => ?_⟩
  · -- heard: the number of the message, or what the tracker had
    obtain ⟨k, hk, hfrom⟩ := h.heard l
    have hkeep : k = base l ∨ ∃ y, Ev.seen y ∈ r.log ++ [Ev.seen m] ∧ y.header.lane = l ∧
        y.header.seq = some k := by
      rcases hfrom with hbase | ⟨y, hy, hrest⟩
      · exact .inl hbase
      · exact .inr ⟨y, List.mem_append_left _ hy, hrest⟩
    simp only [Replica.observed, htracker]
    split
    · rename_i hlane
      simp only [SeqTracker.observe, hk]
      by_cases hlt : k ≤ base m.header.lane + i + 1
      · exact ⟨_, rfl, .inr ⟨m, by simp, hlane, by rw [hseq, Nat.max_eq_right hlt]⟩⟩
      · exact ⟨_, rfl, by rw [Nat.max_eq_left (by omega)]; exact hkeep⟩
    · exact ⟨k, hk, hkeep⟩
  · -- known: the message was sent
    rcases List.mem_append.mp hy with hy | hy
    · exact h.known y hy
    · obtain rfl : y = m := by simpa using hy
      -- remembers: a hole of before, or one that this message leaves
      exact hm
  · obtain ⟨hholes, hpast⟩ := h.remembers hsafe.of_append
    refine ⟨fun x hx => ?_, hpast.snoc trivial⟩
    obtain ⟨⟨R, hR, hunder, hxR⟩, hmissed, hnot⟩ := hx
    have hxsent : x ∈ sent := List.mem_of_mem_drop hxR
    simp only [Replica.observed, htracker]
    -- a hole of before is remembered already
    by_cases hold : Missed r.log x
    · have hhole := hholes x
        ⟨⟨R, hR, hunder.of_append, hxR⟩, hold, fun hre => hnot (hre.append _)⟩
      split
      · obtain ⟨k, hk⟩ := Option.ne_none_iff_exists'.mp hhole
        rw [SeqTracker.observe_firstMissing_of_some _ _ hk]
        simp
      · exact hhole
    · -- a new one is opened by this message
      obtain ⟨hlane, hhole⟩ := h.skipped hnum hseq hxsent hmissed hold
      rw [if_pos hlane]
      exact hhole

/-! ### The apply loop -/

variable (B : Blender β V δ S)

/-- A dispatched fast message. -/
theorem dispatchFast (h : Watch reasserts sent repairs base r) (m : Msg β V δ) :
    Watch reasserts sent repairs base (dispatchFast B r m) := by
  have hlog : Watch reasserts sent repairs base { r with log := r.log ++ [Ev.dispatched m] } :=
    h.effect rfl rfl fun _ => rfl
  have hdone : ∀ {r' : Replica β V δ S} {d : ReplicaData V δ S},
      Watch reasserts sent repairs base r' → Watch reasserts sent repairs base
        { r' with merger := r'.merger.fastDone m.header.seq, data := d } :=
    fun h' => h'.same (fun _ => LaneMerger.fastDone_tracker ..) rfl
  simp only [Replica.dispatchFast]
  cases hk : m.header.kind
  case resyncEnd => exact hdone (hlog.endResync hk)
  all_goals exact hdone (hlog.same (fun _ => rfl) rfl)

/-- `_release`. -/
theorem release (h : Watch reasserts sent repairs base r) (items : List (Msg β V δ)) :
    Watch reasserts sent repairs base (release B items r) := by
  have hfold : Watch reasserts sent repairs base (items.foldl (Replica.dispatchFast B) r) := by
    induction items generalizing r with
    | nil => exact h
    | cons m items ih => exact ih (h.dispatchFast B m)
  exact hfold.same (fun _ => rfl) rfl

/-- `_release(_merger.cold_done(seq))`. -/
theorem coldDone (h : Watch reasserts sent repairs base r) (seq : Option Nat) :
    Watch reasserts sent repairs base (coldDone B r seq) :=
  (h.same (q := { r with merger := r.merger.coldDone seq })
    (fun _ => LaneMerger.coldDone_tracker ..) rfl).release B _

/-- One blob of a batch. -/
theorem applyNext (h : Watch reasserts sent repairs base r) (e : Pending β δ)
    (rest : List (Pending β δ)) : Watch reasserts sent repairs base (applyNext B r e rest).1 := by
  have hlog : Watch reasserts sent repairs base
      { r with pending := rest, log := r.log ++ [Ev.applied e] } :=
    h.effect rfl rfl fun _ => rfl
  have hdone : ∀ {r' : Replica β V δ S}, Watch reasserts sent repairs base r' →
      Watch reasserts sent repairs base { r' with merger := r'.merger.coldDone e.seq } :=
    fun h' => h'.same (fun _ => LaneMerger.coldDone_tracker ..) rfl
  simp only [Replica.applyNext, applyOne]
  split
  · rename_i r' u hone
    refine hdone ?_
    split at hone
    · rename_i hboot
      cases hone
      exact hlog.applyBoot B e hboot
    · split at hone <;> cases hone
      exact hlog.same (fun _ => rfl) rfl
  · exact hdone (hlog.same (fun _ => rfl) rfl)

/-- The batch loop. -/
theorem batchLoop (budget : Nat) (es : List (Pending β δ)) (applied : Nat)
    (h : Watch reasserts sent repairs base r) (reapply : List Uuid) (due : List (Msg β V δ)) :
    Watch reasserts sent repairs base (batchLoop B budget es applied r reapply due).1 := by
  induction es generalizing r applied reapply due with
  | nil => exact h
  | cons e rest ih =>
    simp only [Replica.batchLoop]
    split
    · exact h
    · split
      · exact h.applyNext B e rest
      · exact ih _ (h.applyNext B e rest) _ _

/-- `_apply_pending_batch`. -/
theorem applyPendingBatch (h : Watch reasserts sent repairs base r) (budget : Nat) :
    Watch reasserts sent repairs base (applyPendingBatch B budget r) := by
  simp only [Replica.applyPendingBatch]
  refine release B ?_ _
  exact (h.batchLoop B budget r.pending 0 [] []).same (fun _ => rfl) rfl

variable [Inhabited β]

/-- A chunk of a blob. -/
theorem dispatchChunk (h : Watch reasserts sent repairs base r) (m : Msg β V δ) (b : Chunk) :
    Watch reasserts sent repairs base (dispatchChunk B r m b) := by
  simp only [Replica.dispatchChunk]
  split
  · exact h.same (fun _ => rfl) rfl
  · refine coldDone B ?_ _
    exact h.same (fun _ => rfl) rfl

/-- A dispatched cold message. -/
theorem dispatchCold (h : Watch reasserts sent repairs base r) (m : Msg β V δ) :
    Watch reasserts sent repairs base (dispatchCold B r m) := by
  have hlog : Watch reasserts sent repairs base { r with log := r.log ++ [Ev.dispatched m] } :=
    h.effect rfl rfl fun _ => rfl
  simp only [Replica.dispatchCold]
  -- an end takes its repair's holes off
  cases hk : m.header.kind
  case resyncEnd => exact (hlog.endResync hk).coldDone B _
  -- what carries data is assembled, and the rest moves the merger
  case libfile =>
    cases m.header.blob with
    | none => exact hlog
    | some b =>
      dsimp only
      split
      · refine coldDone B ?_ _
        exact hlog.same (fun _ => rfl) rfl
      · exact hlog.same (fun _ => rfl) rfl
  case t2 =>
    cases m.header.blob with
    | none => exact hlog
    | some b => exact hlog.dispatchChunk B m b
  case boot =>
    cases m.header.blob with
    | none => exact hlog
    | some b => exact hlog.dispatchChunk B m b
  all_goals
    refine coldDone B ?_ _
    exact hlog.same (fun _ => rfl) rfl

/-- One message. -/
theorem handle (h : Watch reasserts sent repairs base r) (hnum : Numbered base sent)
    {m : Msg β V δ} (hm : m ∈ sent) : Watch reasserts sent repairs base (handle B r m) := by
  have hseen := h.observed hnum hm
  simp only [Replica.handle, Replica.dispatch]
  split
  · split
    · exact hseen.dispatchFast B m
    · exact hseen.dispatchCold B m
  · exact hseen.same (fun _ => LaneMerger.park_tracker ..) rfl

end Watch

/-! ## Runs -/

/-- Where the lane counters of a session start. -/
def laneBase (c0 f0 : Nat) : Lane → Nat
  | .cold => c0
  | .fast => f0

/-- A node whose queues hold messages of the session, and its replica. -/
def Watched (reasserts : Msg β V δ → Msg β V δ → Prop) (sent : List (Msg β V δ))
    (repairs : List (Repair δ)) (base : Lane → Nat) (n : Node β V δ S) : Prop :=
  Watch reasserts sent repairs base n.replica ∧ n.order.cold ⊆ sent ∧ n.order.fast ⊆ sent

/-- One step of a lossy run. -/
theorem Watched.step [Inhabited β] (B : Blender β V δ S) {base : Lane → Nat}
    (hnum : Numbered base sent) {n : Node β V δ S} {a : LossyAct}
    (h : Watched reasserts sent repairs base n) :
    Watched reasserts sent repairs base (n.lossyStep B a) := by
  obtain ⟨hwatch, hcold, hfast⟩ := h
  cases a with
  -- a message of a lane is lost: the inboxes have less of what was sent
  | lose l =>
    cases l with
    | cold =>
      refine ⟨hwatch, fun x hx => hcold ?_, hfast⟩
      exact List.mem_append.mpr ((List.mem_append.mp hx).imp_right List.mem_of_mem_tail)
    | fast =>
      refine ⟨hwatch, hcold, fun x hx => hfast ?_⟩
      exact List.mem_append.mpr ((List.mem_append.mp hx).imp_right List.mem_of_mem_tail)
  | act a =>
    -- the inboxes have only what was sent
    have hqueues : (n.step B a).order.cold ⊆ sent ∧ (n.step B a).order.fast ⊆ sent := by
      have hstep := n.step_order B a
      generalize n.order = o at hstep hcold hfast
      generalize n.taken a = out at hstep
      generalize (n.step B a).order = o' at hstep
      cases hstep with
      | fast => exact ⟨hcold, fun x hx => hfast (List.mem_cons_of_mem _ hx)⟩
      | cold => exact ⟨fun x hx => hcold (List.mem_cons_of_mem _ hx), hfast⟩
      | _ => exact ⟨hcold, hfast⟩
    refine ⟨?_, hqueues⟩
    cases a with
    -- a turn: the message is one that was sent
    | turn kf kc =>
      simp only [Node.lossyStep, Node.step]
      cases htake : n.take kf kc with
      | mk n' out =>
        cases out with
        | none => exact Node.take_none htake ▸ hwatch
        | some m =>
          obtain ⟨-, -, hlog, hmerger, hq⟩ := Node.take_some htake
          have hm : m ∈ sent := by
            rcases hq with ⟨hq, -⟩ | ⟨hq, -⟩
            · exact hfast (by rw [hq]; exact List.mem_cons_self ..)
            · exact hcold (by rw [hq]; exact List.mem_cons_self ..)
          exact (hwatch.same (q := n'.replica) (fun l => by rw [hmerger]) hlog).handle B hnum hm
    -- a batch
    | batch budget => exact hwatch.applyPendingBatch B budget

end

/-- In every run of a session in which no repair ends on a lane that owes a message,
    a repair that ends leaves the replica reporting whatever went missing since the
    repair was planned. -/
theorem losses_remembered [Inhabited β] (B : Blender β V δ S) (scene : S) (c0 f0 : Nat)
    (reasserts : Msg β V δ → Msg β V δ → Prop) (sent : List (Msg β V δ))
    (repairs : List (Repair δ)) (hnum : Numbered (laneBase c0 f0) sent) (acts : List LossyAct)
    (hsafe : History (SafeEnd reasserts sent repairs)
      (acts.foldl (Node.lossyStep B)
        (Node.start scene c0 f0 (onLane .cold sent) (onLane .fast sent))).replica.log) :
    History (ReportsLoss reasserts sent repairs)
      (acts.foldl (Node.lossyStep B)
        (Node.start scene c0 f0 (onLane .cold sent) (onLane .fast sent))).replica.log := by
  have hstart : Watched reasserts sent repairs (laneBase c0 f0)
      (Node.start scene c0 f0 (onLane .cold sent) (onLane .fast sent)) := by
    refine ⟨⟨fun l => ?_, fun y hy => (List.not_mem_nil hy).elim, fun _ => ⟨?_, History.nil⟩⟩,
      List.filter_subset_self _, List.filter_subset_self _⟩
    · cases l <;> exact ⟨_, rfl, .inl rfl⟩
    · rintro x ⟨-, ⟨-, y, s, s', hy, -⟩, -⟩
      exact (List.not_mem_nil hy).elim
  have hrun := foldl_invariant (f := Node.lossyStep B)
    (I := Watched reasserts sent repairs (laneBase c0 f0)) (fun n a hn => hn.step B hnum) acts
    hstart
  exact (hrun.1.remembers hsafe).2

/-! ## A loss that a repair wipes out -/

namespace Forgotten

/-- A fast-lane message of datablock `u`. -/
def fast (kind : Kind) (seq : Nat) (u : Uuid) : Msg Nat Nat Nat where
  header := { kind := kind, lane := .fast, seq := some seq, uuid := u }

/-- A tombstone of datablock `u`, on the cold lane. -/
def cold (seq : Nat) (u : Uuid) : Msg Nat Nat Nat where
  header := { kind := .tomb, lane := .cold, seq := some seq, uuid := u }

/-- An edit, the re-assert it calls for once it is lost, another edit while the
    re-assert is under way, an edit of another datablock, and the repair's end. -/
def sent : List (Msg Nat Nat Nat) :=
  [fast .t1 1 "a", fast .t1 2 "b", fast .t1 3 "a", fast .t1 4 "c", fast .t1 5 "b",
    fast .resyncEnd 6 ""]

/-- The window of the re-assert was computed after the second edit. -/
def repairs : List (Repair Nat) := [⟨2, (fast .resyncEnd 6 "").header⟩]

/-- The first edit is lost, the window re-sends it, and then the edit of `"c"` is
    lost. -/
def acts : List LossyAct :=
  [.lose .fast, .act (.turn 1 0), .act (.turn 1 0), .lose .fast, .act (.turn 1 0),
    .act (.turn 1 0)]

theorem numbered : Numbered (laneBase 0 0) sent := by
  intro l
  cases l <;> rfl

/-- The log of a run over the lanes with what was sent. -/
def log (sent : List (Msg Nat Nat Nat)) (acts : List LossyAct) : List (Ev Nat Nat Nat) :=
  (acts.foldl (Node.lossyStep Blender.inert)
    (Node.start () 0 0 (onLane .cold sent) (onLane .fast sent))).replica.log

/-- The same edits, but while the re-assert is under way two tombstones are sent on the cold
    lane. -/
def sentBoth : List (Msg Nat Nat Nat) :=
  [fast .t1 1 "a", fast .t1 2 "b", fast .t1 3 "a", cold 1 "c", cold 2 "d", fast .resyncEnd 4 ""]

/-- The window was computed after the second edit here too. -/
def repairsBoth : List (Repair Nat) := [⟨2, (fast .resyncEnd 4 "").header⟩]

/-- The first edit is lost and then the first tombstone, and the other one shows the hole
    before the repair ends. -/
def actsBoth : List LossyAct :=
  [.lose .fast, .act (.turn 1 0), .act (.turn 1 0), .lose .cold, .act (.turn 0 1),
    .act (.turn 1 0)]

end Forgotten

open Forgotten in
/-- The edit of `"c"` was sent after the window was computed, is missing and stays
    missing, and the replica reports nothing. -/
theorem losses_remembered_counterexample :
    Numbered (laneBase 0 0) sent ∧
      ¬ History (ReportsLoss (fun z x => z.header.uuid = x.header.uuid) sent repairs)
        (log sent acts) := by
  refine ⟨numbered, fun h => ?_⟩
  have hend := h [.seen (fast .t1 2 "b"), .dispatched (fast .t1 2 "b"), .seen (fast .t1 3 "a"),
    .dispatched (fast .t1 3 "a"), .seen (fast .t1 5 "b"), .dispatched (fast .t1 5 "b"),
    .seen (fast .resyncEnd 6 ""), .dispatched (fast .resyncEnd 6 "")]
    (.ended (fast .resyncEnd 6 "").header false) [] rfl _ (List.mem_cons_self ..) rfl
      (by simp [UnderWay])
    (fast .t1 4 "c") (by simp [sent])
    ⟨by simp [fast], fast .t1 5 "b", 4, 5, by simp, rfl, rfl, rfl, by decide⟩
  refine Bool.false_ne_true (hend ?_)
  rintro ⟨before, after, z, hsent, hz, huuid, happ⟩
  have hmem : z ∈ sent := by
    rw [hsent]
    exact List.mem_append_right _ (List.mem_cons_of_mem _ hz)
  have hnone : ∀ z ∈ sent, z.header.uuid = "c" → z = fast .t1 4 "c" := by decide
  obtain rfl := hnone z hmem huuid
  rcases happ with hd | ⟨e, he, -⟩
  · simp [fast] at hd
  · simp at he

open Forgotten in
/-- A tombstone is lost on the cold lane while the re-assert of the fast one is under way: the
    end of the re-assert clears the fast lane only, and the replica goes on reporting. -/
theorem losses_remembered_repaired :
    History (ReportsLoss (fun z x => z.header.uuid = x.header.uuid) sentBoth repairsBoth)
        (log sentBoth actsBoth) ∧
      Ev.ended (fast .resyncEnd 4 "").header true ∈ log sentBoth actsBoth := by
  have hnum : Numbered (laneBase 0 0) sentBoth := by
    intro l
    cases l <;> rfl
  refine ⟨?_, by decide⟩
  refine losses_remembered Blender.inert () 0 0 (fun z x => z.header.uuid = x.header.uuid) sentBoth
    repairsBoth hnum actsBoth ?_
  -- before the last entry of the log no repair ends
  have hinit : History (SafeEnd (fun z x => z.header.uuid = x.header.uuid) sentBoth repairsBoth)
      ((log sentBoth actsBoth).take 8) := by
    have hnone : ∀ ev ∈ (log sentBoth actsBoth).take 8, (match ev with
      | .ended _ _ => false
      | _ => true) = true := by decide
    refine History.of_forall fun ev hev before => ?_
    cases ev with
    | ended => exact absurd (hnone _ hev) (by simp)
    | _ => trivial
  refine hinit.snoc (x := .ended (fast .resyncEnd 4 "").header true) ?_
  -- then all that is owed is the tombstone
  rintro x ⟨⟨R, hR, -, hx⟩, ⟨hnot, -⟩, -⟩
  obtain rfl : R = ⟨2, (fast .resyncEnd 4 "").header⟩ := by simpa [repairsBoth] using hR
  have hseen : ∀ x ∈ sentBoth.drop 2, x = cold 1 "c" ∨
      Ev.seen x ∈ (log sentBoth actsBoth).take 8 := by decide
  obtain rfl := (hseen x hx).resolve_right hnot
  rfl

end QCBridge
