import QCBridge.ForStd.Eventually
import QCBridge.Spec.ApplyOrder
import QCBridge.Spec.FastOrder

/-!
# Everything lands

Over lanes that lose nothing, a replica that goes on working is done in the end with everything the
host sent: each cold message was handled in its turn, each fast message was dispatched once, none
stays parked, and each blob was applied once, unless a later bootstrap superseded it.

A parked message waits for the counter. The counter reaches the seq of every cold message that is
behind the replica, at once or with the batch of a blob that waits; and what a fast message
follows is a cold message of the same session.

## Key results

- `Pump.Kept`, `Pump.Answers`, `Pump.Held`: the invariants, and one lemma for each thing a pump does
- `Pump.Held.step`, `PumpNode.Carried.step`: every action keeps them
- `PumpStep.load_lt`: every action that does anything comes nearer to the end
- `everything_lands`: the end of every fair run
-/

namespace QCBridge

variable {β V δ S : Type}

/-! ## The cold lane -/

/-- The seqs of the blobs applied so far. -/
def appliedSeqs (done : List (Ev β V δ)) : List Nat :=
  done.filterMap fun
    | .applied e => some (e.seq.getD 0)
    | _ => none

/-- What was applied in two stretches. -/
@[simp] theorem appliedSeqs_append (l₁ l₂ : List (Ev β V δ)) :
    appliedSeqs (l₁ ++ l₂) = appliedSeqs l₁ ++ appliedSeqs l₂ := List.filterMap_append

/-- A message that is dispatched applies no blob. -/
@[simp] theorem appliedSeqs_dispatched (items : List (Msg β V δ)) :
    appliedSeqs (items.map Ev.dispatched) = [] := by
  induction items with
  | nil => rfl
  | cons m items ih => exact ih

/-- Blobs that are applied are effects. -/
private theorem appliedSeqs_effects (log : List (Ev β V δ)) :
    appliedSeqs (effects log) = appliedSeqs log := by
  simp only [appliedSeqs, effects, List.filterMap_filter]
  congr 1
  funext ev
  cases ev <;> rfl

/-- The seqs of the blobs that were applied or wait, oldest first. -/
def Pump.turns (p : Pump β V δ) : List Nat :=
  appliedSeqs p.done ++ p.pending.map fun e => e.seq.getD 0

/-- A blob's end has its turn, or a bootstrap that was taken later supersedes it. -/
def Pump.HasTurn (p : Pump β V δ) (s : Nat) : Prop :=
  s ∈ p.turns ∨ ∃ c ∈ coldTaken p.done, c.header.kind = .boot ∧ c.isLastChunk ∧
    ∃ s', c.header.seq = some s' ∧ s < s'

/-- What holds of a pump that has taken the cold messages of `cold` up to `rest`, however it
    batches. -/
structure Pump.Kept (c0 : Nat) (cold rest : List (Msg β V δ)) (p : Pump β V δ) : Prop where
  taken : cold = coldTaken p.done ++ rest
  tracks : p.assembly.Tracks (coldTaken p.done)
  turns : p.turns.Pairwise (· < ·)
  turns_le : ∀ s ∈ p.turns, s ≤ c0 + (coldTaken p.done).length
  seqs : ∀ e ∈ p.pending, ∃ s, e.seq = some s
  settled : ∀ c ∈ coldTaken p.done, c.isLastChunk → ∀ s, c.header.seq = some s → p.HasTurn s
  parked : ∀ q ∈ p.parked, q.2.header.lane = .fast

/-- The counter has reached every cold message that was taken, or will with a blob that waits. The
    chunks of a library file do not count. -/
def Pump.Answers (p : Pump β V δ) : Prop :=
  ∀ c ∈ coldTaken p.done, c.header.kind ≠ .libfile → ∀ s, c.header.seq = some s →
    s ≤ p.coldApplied ∨ ∃ e ∈ p.pending, ∃ s', e.seq = some s' ∧ s ≤ s'

/-- A turn that was had is kept, if those that wait stay in line or are superseded. -/
theorem Pump.HasTurn.mono {p p' : Pump β V δ} {s : Nat} (h : p.HasTurn s)
    (hturns : s ∈ p.turns → p'.HasTurn s) (htaken : coldTaken p.done ⊆ coldTaken p'.done) :
    p'.HasTurn s := by
  rcases h with hs | ⟨c, hc, hrest⟩
  · exact hturns hs
  · exact .inr ⟨c, htaken hc, hrest⟩

namespace Pump.Kept

variable {c0 : Nat} {cold rest : List (Msg β V δ)} {p : Pump β V δ}

/-- Moving the counter changes nothing of this. -/
theorem coldDone (h : p.Kept c0 cold rest) (seq : Option Nat) :
    (p.coldDone seq).Kept c0 cold rest where
  taken := h.taken
  tracks := h.tracks
  turns := h.turns
  turns_le := h.turns_le
  seqs := h.seqs
  settled := h.settled
  parked q hq := h.parked q (List.mem_of_mem_filter hq)

/-- What falls due when the counter moves was parked, and only fast messages are. -/
theorem due (h : p.Kept c0 cold rest) (seq : Option Nat) :
    ∀ m ∈ p.due seq, m.header.lane = .fast := by
  intro m hm
  obtain ⟨q, hq, rfl⟩ := List.mem_map.mp hm
  exact h.parked q (List.mem_of_mem_filter hq)

/-- Fast messages are dispatched. -/
theorem release (h : p.Kept c0 cold rest) {items : List (Msg β V δ)}
    (hitems : ∀ m ∈ items, m.header.lane = .fast) : (p.release items).Kept c0 cold rest := by
  have htaken : coldTaken (p.release items).done = coldTaken p.done := by
    simp only [Pump.release, coldTaken_append, coldTaken_fast hitems, List.append_nil]
  have hturns : (p.release items).turns = p.turns := by simp [Pump.turns, Pump.release]
  refine ⟨htaken ▸ h.taken, htaken ▸ h.tracks, hturns ▸ h.turns, ?_, h.seqs, ?_, h.parked⟩
  · rw [htaken, hturns]
    exact h.turns_le
  · intro c hc hlast s hs
    rw [htaken] at hc
    exact (h.settled c hc hlast s hs).mono (fun hs => .inl (hturns ▸ hs)) (by rw [htaken]; simp)

/-- The counter moves, and what falls due is dispatched. -/
theorem advance (h : p.Kept c0 cold rest) (seq : Option Nat) : (p.advance seq).Kept c0 cold rest :=
  (h.coldDone seq).release (h.due seq)

/-- A fast message is dispatched or parked. -/
theorem fast (h : p.Kept c0 cold rest) {m : Msg β V δ} (hm : m.header.lane = .fast) :
    (p.fast m).Kept c0 cold rest := by
  simp only [Pump.fast]
  split
  · have hitems : ∀ m' ∈ [m], m'.header.lane = .fast := by simpa using hm
    exact h.release hitems
  · refine ⟨h.taken, h.tracks, h.turns, h.turns_le, h.seqs, h.settled, fun q hq => ?_⟩
    rcases List.mem_append.mp hq with hq | hq
    · exact h.parked q hq
    · obtain rfl := List.mem_singleton.mp hq
      exact hm

/-- The oldest waiting blob is applied. -/
theorem applyNext (h : p.Kept c0 cold rest) {e : Pending β δ} {es : List (Pending β δ)}
    (hpending : p.pending = e :: es) :
    ({ p with pending := es, done := p.done ++ [Ev.applied e] }.coldDone e.seq).Kept c0
      cold rest := by
  refine Pump.Kept.coldDone ?_ e.seq
  -- applying takes nothing of the lane, and moves no turn
  have htaken : coldTaken (p.done ++ [Ev.applied e]) = coldTaken p.done := by simp [coldTaken]
  have hturns : Pump.turns { p with pending := es, done := p.done ++ [Ev.applied e] } =
      p.turns := by
    simp [Pump.turns, hpending, appliedSeqs]
  refine ⟨htaken ▸ h.taken, htaken ▸ h.tracks, hturns ▸ h.turns, ?_, ?_, ?_, h.parked⟩
  · rw [htaken, hturns]
    exact h.turns_le
  · exact fun e' he' => h.seqs e' (by simp [hpending, he'])
  · -- settled: what a blob's turn is stays so
    intro c hc hlast s hs
    rw [htaken] at hc
    exact (h.settled c hc hlast s hs).mono (fun hs => .inl (hturns ▸ hs)) (by rw [htaken]; simp)

/-- The batch loop. -/
theorem batchLoop (budget applied : Nat) (due : List (Msg β V δ)) (h : p.Kept c0 cold rest)
    (hdue : ∀ m ∈ due, m.header.lane = .fast) :
    let out := Pump.batchLoop budget p.pending applied p due
    out.1.Kept c0 cold rest ∧ ∀ m ∈ out.2, m.header.lane = .fast := by
  generalize hes : p.pending = es
  induction es generalizing p applied due with
  | nil => exact ⟨h, hdue⟩
  | cons e es ih =>
    -- what comes due is of the fast lane
    have hdue' : ∀ m ∈ due ++ p.due e.seq, m.header.lane = .fast := by
      intro m hm
      rcases List.mem_append.mp hm with hm | hm
      · exact hdue m hm
      · exact h.due e.seq m hm
    simp only [Pump.batchLoop]
    -- the batch is full
    split
    · exact ⟨h, hdue⟩
    · -- a bootstrap ends it, any other blob goes on
      split
      · exact ⟨h.applyNext hes, hdue'⟩
      · exact ih _ _ (h.applyNext hes) hdue' rfl

/-- A batch applies the oldest blobs, and dispatches what was due by then. -/
theorem batch (h : p.Kept c0 cold rest) (budget : Nat) : (p.batch budget).Kept c0 cold rest := by
  obtain ⟨hloop, hdue⟩ := h.batchLoop budget 0 [] (by simp)
  exact hloop.release hdue

/-- A cold message that ends no blob was dispatched. -/
theorem took {m : Msg β V δ} (h : p.Kept c0 cold (m :: rest)) (hm : m.header.lane = .cold)
    (hlast : m.isLastChunk = false) {a : Assembly β δ}
    (ha : a.Tracks (coldTaken p.done ++ [m])) :
    Pump.Kept c0 cold rest { p with assembly := a, done := p.done ++ [Ev.dispatched m] } := by
  have htaken : coldTaken (p.done ++ [Ev.dispatched m]) = coldTaken p.done ++ [m] := by
    simp [coldTaken, hm]
  have hturns : Pump.turns { p with assembly := a, done := p.done ++ [Ev.dispatched m] } =
      p.turns := by
    simp [Pump.turns, appliedSeqs]
  refine ⟨by rw [htaken, h.taken, List.append_assoc]; rfl, htaken ▸ ha, hturns ▸ h.turns, ?_,
    h.seqs, ?_, h.parked⟩
  · intro s hs
    have := h.turns_le s (hturns ▸ hs)
    rw [htaken, List.length_append, List.length_singleton]
    omega
  · intro c hc hclast s hs
    rw [htaken, List.mem_append, List.mem_singleton] at hc
    rcases hc with hc | rfl
    · exact (h.settled c hc hclast s hs).mono (fun hs => .inl (hturns ▸ hs)) (by rw [htaken]; simp)
    · rw [hlast] at hclast
      cases hclast

/-- A cold message that ends a blob was dispatched, and the blob waits; a bootstrap makes the blobs
    that waited before it superseded. -/
theorem queued {m : Msg β V δ} (h : p.Kept c0 cold (m :: rest)) (hm : m.header.lane = .cold)
    (hseq : m.header.seq = some (c0 + (coldTaken p.done).length + 1))
    (hlast : m.isLastChunk = true) {a : Assembly β δ}
    (ha : a.Tracks (coldTaken p.done ++ [m])) {e : Pending β δ} (he : e.seq = m.header.seq) :
    Pump.Kept c0 cold rest
      { p with
        assembly := a
        done := p.done ++ [Ev.dispatched m]
        pending := (if m.header.kind = .boot then [] else p.pending) ++ [e] } := by
  have htaken : coldTaken (p.done ++ [Ev.dispatched m]) = coldTaken p.done ++ [m] := by
    simp [coldTaken, hm]
  have hlen : (coldTaken p.done ++ [m]).length = (coldTaken p.done).length + 1 := by simp
  -- the new turns are some of the old ones, in order, and the seq of `m`
  have hsub : (appliedSeqs p.done ++
      (if m.header.kind = .boot then [] else p.pending).map fun e => e.seq.getD 0).Sublist
        p.turns := by
    split
    · simp [Pump.turns]
    · exact List.Sublist.refl _
  have hturns : Pump.turns { p with
      assembly := a
      done := p.done ++ [Ev.dispatched m]
      pending := (if m.header.kind = .boot then [] else p.pending) ++ [e] } =
      (appliedSeqs p.done ++
        (if m.header.kind = .boot then [] else p.pending).map fun e => e.seq.getD 0) ++
          [c0 + (coldTaken p.done).length + 1] := by
    simp [Pump.turns, appliedSeqs, he, hseq]
  refine ⟨by rw [htaken, h.taken, List.append_assoc]; rfl, htaken ▸ ha, ?_, ?_, ?_, ?_, h.parked⟩
  · rw [hturns]
    refine List.pairwise_append.mpr ⟨h.turns.sublist hsub, List.pairwise_singleton _ _, ?_⟩
    intro s hs s' hs'
    have := h.turns_le s (hsub.subset hs)
    rw [List.mem_singleton.mp hs']
    omega
  · intro s hs
    rw [hturns, List.mem_append, List.mem_singleton] at hs
    rw [htaken, hlen]
    rcases hs with hs | rfl
    · have := h.turns_le s (hsub.subset hs)
      omega
    · omega
  · intro e' he'
    rcases List.mem_append.mp he' with he' | he'
    · split at he'
      · cases he'
      · exact h.seqs e' he'
    · obtain rfl := List.mem_singleton.mp he'
      exact ⟨_, he.trans hseq⟩
  · intro c hc hclast s hs
    rw [htaken, List.mem_append, List.mem_singleton] at hc
    rcases hc with hc | rfl
    · refine (h.settled c hc hclast s hs).mono (fun hs => ?_) (by rw [htaken]; simp)
      by_cases hboot : m.header.kind = .boot
      · have hle := h.turns_le s hs
        exact .inr ⟨m, by rw [htaken]; simp, hboot, hlast, _, hseq, by omega⟩
      · refine .inl ?_
        rw [hturns, if_neg hboot]
        exact List.mem_append_left _ hs
    · refine .inl ?_
      rw [hseq, Option.some.injEq] at hs
      rw [hturns, hs]
      simp

end Pump.Kept

namespace Pump.Answers

variable {c0 : Nat} {cold rest : List (Msg β V δ)} {p : Pump β V δ}

/-- Nothing is unanswered that was answered, as long as the counter does not fall and every blob
    still waits or is behind the counter. -/
private theorem of_le (h : p.Answers) {p' : Pump β V δ}
    (htaken : coldTaken p'.done = coldTaken p.done)
    (hle : p.coldApplied ≤ p'.coldApplied)
    (hpending : ∀ e ∈ p.pending, ∀ s, e.seq = some s → s ≤ p'.coldApplied ∨ e ∈ p'.pending) :
    p'.Answers := by
  intro c hc hkind s hs
  rw [htaken] at hc
  rcases h c hc hkind s hs with hs | ⟨e, he, s', hes, hle'⟩
  · exact .inl (Nat.le_trans hs hle)
  · rcases hpending e he s' hes with hs' | he'
    · exact .inl (Nat.le_trans hle' hs')
    · exact .inr ⟨e, he', s', hes, hle'⟩

/-- The counter moves up. -/
theorem coldDone (h : p.Answers) (seq : Option Nat) : (p.coldDone seq).Answers :=
  h.of_le rfl (LaneMerger.le_appliedAfter p.coldApplied seq) fun _ he _ _ => .inr he

/-- Fast messages are no cold ones. -/
theorem release (h : p.Answers) {items : List (Msg β V δ)}
    (hitems : ∀ m ∈ items, m.header.lane = .fast) : (p.release items).Answers :=
  h.of_le (by simp only [Pump.release, coldTaken_append, coldTaken_fast hitems, List.append_nil])
    (Nat.le_refl _) fun _ he _ _ => .inr he

/-- Whether a fast message is dispatched or parked, no cold one is taken. -/
theorem fast (h : p.Answers) {m : Msg β V δ} (hm : m.header.lane = .fast) : (p.fast m).Answers := by
  simp only [Pump.fast]
  split
  · have hitems : ∀ m' ∈ [m], m'.header.lane = .fast := by simpa using hm
    exact h.release hitems
  · exact h

/-- The counter reaches the seq of the blob that is applied. -/
theorem applyNext (h : p.Answers) {e : Pending β δ} {es : List (Pending β δ)}
    (hpending : p.pending = e :: es) :
    ({ p with pending := es, done := p.done ++ [Ev.applied e] }.coldDone e.seq).Answers := by
  refine h.of_le (by simp [Pump.coldDone, coldTaken])
    (LaneMerger.le_appliedAfter p.coldApplied e.seq) fun e' he' s hs => ?_
  rw [hpending, List.mem_cons] at he'
  rcases he' with rfl | he'
  · refine .inl ?_
    simp only [Pump.coldDone, hs, LaneMerger.appliedAfter]
    omega
  · exact .inr he'

/-- In the loop each blob that leaves the line brings the counter up to its seq. -/
theorem batchLoop (budget applied : Nat) (due : List (Msg β V δ)) (h : p.Answers) :
    (Pump.batchLoop budget p.pending applied p due).1.Answers := by
  generalize hes : p.pending = es
  induction es generalizing p applied due with
  | nil => exact h
  | cons e es ih =>
    simp only [Pump.batchLoop]
    split
    · exact h
    · split
      · exact h.applyNext hes
      · exact ih _ _ (h.applyNext hes) rfl

/-- So a batch answers for the blobs that it applies. -/
theorem batch (h : p.Answers) (hkept : p.Kept c0 cold rest) (budget : Nat) :
    (p.batch budget).Answers :=
  (h.batchLoop budget 0 []).release (hkept.batchLoop budget 0 [] (by simp)).2

/-- A cold message was dispatched; it counts if it is no part of a library file. -/
theorem snoc (h : p.Answers) {p' : Pump β V δ} {m : Msg β V δ}
    (htaken : coldTaken p'.done = coldTaken p.done ++ [m]) (hle : p.coldApplied ≤ p'.coldApplied)
    (hpending : ∀ e ∈ p.pending, ∀ s, e.seq = some s →
      s ≤ p'.coldApplied ∨ ∃ e' ∈ p'.pending, ∃ s', e'.seq = some s' ∧ s ≤ s')
    (hm : m.header.kind ≠ .libfile → ∀ s, m.header.seq = some s →
      s ≤ p'.coldApplied ∨ ∃ e ∈ p'.pending, ∃ s', e.seq = some s' ∧ s ≤ s') : p'.Answers := by
  intro c hc hkind s hs
  rw [htaken, List.mem_append, List.mem_singleton] at hc
  rcases hc with hc | rfl
  · rcases h c hc hkind s hs with hs | ⟨e, he, s', hes, hle'⟩
    · exact .inl (Nat.le_trans hs hle)
    · rcases hpending e he s' hes with hs' | ⟨e', he', s'', hes', hle''⟩
      · exact .inl (Nat.le_trans hle' hs')
      · exact .inr ⟨e', he', s'', hes', Nat.le_trans hle' hle''⟩
  · exact hm hkind s hs

end Pump.Answers

section Cold

variable {c0 : Nat} {cold rest : List (Msg β V δ)} {p : Pump β V δ}

/-- A cold message that is applied the moment it is taken. -/
theorem Pump.Kept.tookAtOnce {m : Msg β V δ} (h : p.Kept c0 cold (m :: rest)) (hans : p.Answers)
    (hm : m.header.lane = .cold) (hlast : m.isLastChunk = false) {a : Assembly β δ}
    (ha : a.Tracks (coldTaken p.done ++ [m])) :
    let p' := Pump.advance { p with assembly := a, done := p.done ++ [Ev.dispatched m] }
      m.header.seq
    p'.Kept c0 cold rest ∧ p'.Answers := by
  have htook := h.took hm hlast ha
  refine ⟨htook.advance _, ?_⟩
  have htaken : coldTaken (p.done ++ [Ev.dispatched m]) = coldTaken p.done ++ [m] := by
    simp [coldTaken, hm]
  refine hans.snoc (m := m) ?_ (LaneMerger.le_appliedAfter p.coldApplied m.header.seq)
    (fun e he s hs => .inr ⟨e, he, s, hs, Nat.le_refl _⟩) fun _ s hs => .inl ?_
  · simp only [Pump.advance, Pump.release, coldTaken_append,
      coldTaken_fast (htook.due m.header.seq), List.append_nil]
    exact htaken
  · simp only [Pump.advance, Pump.release, Pump.coldDone, hs, LaneMerger.appliedAfter]
    omega

/-- A cold message that ends a blob. -/
private theorem Pump.Kept.queuedAnswers {m : Msg β V δ} (h : p.Kept c0 cold (m :: rest))
    (hans : p.Answers)
    (hm : m.header.lane = .cold) (hseq : m.header.seq = some (c0 + (coldTaken p.done).length + 1))
    {a : Assembly β δ} {e : Pending β δ} (he : e.seq = m.header.seq) :
    Pump.Answers
      { p with
        assembly := a
        done := p.done ++ [Ev.dispatched m]
        pending := (if m.header.kind = .boot then [] else p.pending) ++ [e] } := by
  have htaken : coldTaken (p.done ++ [Ev.dispatched m]) = coldTaken p.done ++ [m] := by
    simp [coldTaken, hm]
  have hnew : ∃ e' ∈ (if m.header.kind = .boot then [] else p.pending) ++ [e], ∃ s',
      e'.seq = some s' ∧ c0 + (coldTaken p.done).length + 1 ≤ s' :=
    ⟨e, by simp, _, he.trans hseq, Nat.le_refl _⟩
  refine hans.snoc htaken (Nat.le_refl _) (fun e' he' s hs => .inr ?_) fun _ s hs => .inr ?_
  · -- a blob that waited has a smaller seq than the one that ends now
    obtain ⟨e'', he'', s', hs', hle⟩ := hnew
    have := h.turns_le s (List.mem_append_right _
      (List.mem_map.mpr ⟨e', he', by rw [hs, Option.getD_some]⟩))
    exact ⟨e'', he'', s', hs', by omega⟩
  · rw [hseq, Option.some.injEq] at hs
    exact hs ▸ hnew

variable [Inhabited β]

/-- A cold message is dispatched. -/
theorem Pump.Kept.dispatchCold {m : Msg β V δ} (h : p.Kept c0 cold (m :: rest)) (hans : p.Answers)
    (hcold : ColdStream c0 cold) : (p.cold m).Kept c0 cold rest ∧ (p.cold m).Answers := by
  have hnext := hcold.mayFollow h.taken
  cases hkind : m.header.kind.isChunk with
  | false =>
    have hblob := hnext.noChunk hkind
    have hlast : m.isLastChunk = false := by simp [Msg.isLastChunk, hblob]
    have htook := h.tookAtOnce hans hnext.lane hlast (h.tracks.snoc_noChunk hblob)
    simp only [Pump.cold]
    cases hk : m.header.kind
    case t2 => simp [hk, Kind.isChunk] at hkind
    case boot => simp [hk, Kind.isChunk] at hkind
    case libfile => simp [hk, Kind.isChunk] at hkind
    all_goals exact htook
  | true =>
    obtain ⟨b, mine, hm, hprog⟩ := hnext.chunk hkind
    have hblob := hm.blob_eq
    by_cases hlib : b.id.kind = .libfile
    · -- a library file: its last chunk moves the counter, the others do nothing
      have hk : m.header.kind = .libfile := hm.kind_eq.trans hlib
      have hlast : m.isLastChunk = false := by simp [Msg.isLastChunk, Msg.isBlobChunk, hk]
      obtain ⟨htracks, hout⟩ := h.tracks.feedLib hm hprog
      simp only [Pump.cold, hk, hblob, hout]
      split
      · rename_i hdone
        exact h.tookAtOnce hans hnext.lane hlast htracks
      · refine ⟨h.took hnext.lane hlast htracks, ?_⟩
        exact hans.snoc (by simp [coldTaken, hnext.lane]) (Nat.le_refl _)
          (fun e he s hs => .inr ⟨e, he, s, hs, Nat.le_refl _⟩) fun hne => absurd hk hne
    · -- a chunk of a blob: the last one makes it wait, the others do nothing else
      obtain ⟨htracks, hout⟩ := h.tracks.feed hm hprog hlib
      have hlast := hm.isLastChunk_eq hlib
      have hk : m.header.kind = .t2 ∨ m.header.kind = .boot := by
        have := hm.kind_eq
        cases hb : b.id <;> simp_all [BlobId.kind]
      have hchunk : p.cold m =
          Pump.chunk { p with done := p.done ++ [Ev.dispatched m] } m (b.position mine.length) := by
        rcases hk with hk | hk <;> simp only [Pump.cold, hk, hblob]
      simp only [hchunk, Pump.chunk, hout]
      by_cases hend : mine.length + 1 = b.count
      · simp only [if_pos hend]
        exact ⟨h.queued hnext.lane hnext.seq (by simp [hlast, hend]) htracks rfl,
          h.queuedAnswers hans hnext.lane hnext.seq rfl⟩
      · simp only [if_neg hend]
        exact h.tookAtOnce hans hnext.lane (by simp [hlast, hend]) htracks

end Cold

/-! ## The fast lane -/

/-- Every fast message of `sent` was dispatched, is due, is parked or is still coming, and no other
    is; and what is parked is behind the counter. -/
structure Pump.Held (sent due coming : List (Msg β V δ)) (p : Pump β V δ) : Prop where
  once : (fastDone p.done ++ (due ++ (p.parked.map Prod.snd ++ coming))).Perm sent
  parked : ∀ q ∈ p.parked, q.1 = q.2.header.after ∧ p.coldApplied < q.1 ∧ q.2.header.lane = .fast

namespace Pump.Held

variable {sent due coming : List (Msg β V δ)} {p : Pump β V δ}

/-- `cold_done`: what is not parked any more is due. -/
theorem coldDone (h : p.Held sent due coming) (seq : Option Nat) :
    (p.coldDone seq).Held sent (due ++ p.due seq) coming where
  once := by
    have hsplit : (p.due seq ++ (p.coldDone seq).parked.map Prod.snd).Perm
        (p.parked.map Prod.snd) := by
      have hperm := List.filter_append_perm
        (fun q : Nat × Msg β V δ => decide (q.1 ≤ (p.coldDone seq).coldApplied)) p.parked
      have hrest : (p.coldDone seq).parked =
          p.parked.filter fun q => !decide (q.1 ≤ (p.coldDone seq).coldApplied) :=
        List.filter_congr fun q _ => (decide_eq_decide.mpr Nat.not_le.symm).trans decide_not
      rw [Pump.due, hrest, ← List.map_append]
      exact hperm.map Prod.snd
    refine List.Perm.trans (List.Perm.append_left _ ?_) h.once
    rw [List.append_assoc, ← List.append_assoc (p.due seq)]
    exact (hsplit.append_right coming).append_left due
  parked q hq := by
    obtain ⟨hafter, -, hlane⟩ := h.parked q (List.mem_of_mem_filter hq)
    exact ⟨hafter, by simpa [Pump.coldDone] using List.of_mem_filter hq, hlane⟩

/-- What is due is dispatched. -/
theorem release (h : p.Held sent due coming) (hdue : ∀ m ∈ due, m.header.lane = .fast) :
    (p.release due).Held sent [] coming where
  once := by
    simp only [Pump.release, fastDone_append, fastDone_dispatched hdue, List.nil_append]
    rw [List.append_assoc]
    exact h.once
  parked := h.parked

/-- What falls due is dispatched at once. -/
theorem advance (h : p.Held sent [] coming) (seq : Option Nat) :
    (p.advance seq).Held sent [] coming := by
  have hdue : ∀ m ∈ p.due seq, m.header.lane = .fast := fun m hm => by
    obtain ⟨q, hq, rfl⟩ := List.mem_map.mp hm
    exact (h.parked q (List.mem_of_mem_filter hq)).2.2
  exact Pump.Held.release (h.coldDone seq) hdue

/-- Nothing of this changes with what else was done. -/
theorem of_eq (h : p.Held sent due coming) {p' : Pump β V δ}
    (hdone : fastDone p'.done = fastDone p.done) (happlied : p'.coldApplied = p.coldApplied)
    (hparked : p'.parked = p.parked) : p'.Held sent due coming :=
  ⟨by rw [hdone, hparked]; exact h.once, by rw [hparked, happlied]; exact h.parked⟩

/-- A fast message is dispatched or parked. -/
theorem fast {m : Msg β V δ} (h : p.Held sent [] (m :: coming)) (hm : m.header.lane = .fast) :
    (p.fast m).Held sent [] coming := by
  have hmove : (fastDone p.done ++ (m :: (p.parked.map Prod.snd ++ coming))).Perm sent :=
    List.Perm.trans (List.Perm.append_left _ (List.perm_middle.symm)) h.once
  simp only [Pump.fast]
  split
  · refine ⟨?_, h.parked⟩
    have hone : fastDone [(Ev.dispatched m : Ev β V δ)] = [m] := by simp [fastDone, hm]
    simp only [fastDone_append, hone, List.nil_append]
    rw [List.append_assoc]
    exact hmove
  · rename_i hnot
    refine ⟨?_, fun q hq => ?_⟩
    · simp only [List.map_append, List.map_cons, List.map_nil, List.nil_append]
      rw [List.append_assoc]
      exact h.once
    · rcases List.mem_append.mp hq with hq | hq
      · exact h.parked q hq
      · obtain rfl := List.mem_singleton.mp hq
        exact ⟨rfl, by simpa using hnot, hm⟩

/-- The oldest waiting blob is applied. -/
theorem applyNext (h : p.Held sent due coming) (e : Pending β δ) (es : List (Pending β δ)) :
    ({ p with pending := es, done := p.done ++ [Ev.applied e] }.coldDone e.seq).Held sent
      (due ++ p.due e.seq) coming := by
  have hpop : Pump.Held sent due coming
      { p with pending := es, done := p.done ++ [Ev.applied e] } :=
    h.of_eq (by simp [fastDone]) rfl rfl
  exact hpop.coldDone e.seq

/-- In the loop what falls due is gathered. -/
theorem batchLoop (h : p.Held sent due coming) (budget : Nat) (es : List (Pending β δ))
    (applied : Nat) :
    (Pump.batchLoop budget es applied p due).1.Held sent
      (Pump.batchLoop budget es applied p due).2 coming := by
  induction es generalizing p applied due with
  | nil => exact h
  | cons e es ih =>
    simp only [Pump.batchLoop]
    split
    · exact h
    · split
      · exact h.applyNext e es
      · exact ih (h.applyNext e es) _

/-- After it, that is dispatched. -/
theorem batch {c0 : Nat} {cold rest : List (Msg β V δ)} (h : p.Held sent [] coming)
    (hkept : p.Kept c0 cold rest) (budget : Nat) : (p.batch budget).Held sent [] coming :=
  (h.batchLoop budget p.pending 0).release (hkept.batchLoop budget 0 [] (by simp)).2

variable [Inhabited β]

/-- A cold message is taken. -/
theorem cold (h : p.Held sent [] coming) {m : Msg β V δ} (hm : m.header.lane = .cold) :
    (p.cold m).Held sent [] coming := by
  have hdone : fastDone (p.done ++ [Ev.dispatched m]) = fastDone p.done := by
    simp [fastDone, hm]
  have hstep : ∀ (a : Assembly β δ) (pending : List (Pending β δ)),
      Pump.Held sent [] coming { p with
        assembly := a, pending := pending, done := p.done ++ [Ev.dispatched m] } :=
    fun _ _ => h.of_eq hdone rfl rfl
  simp only [Pump.cold, Pump.chunk]
  repeat' split
  all_goals first
    | exact hstep _ _
    | exact (hstep _ _).advance _

end Pump.Held

/-! ## Every action -/

/-- What holds of a node at every moment of a session, however it batches. -/
structure PumpNode.Carried (c0 : Nat) (cold fast : List (Msg β V δ)) (n : PumpNode β V δ) :
    Prop where
  kept : n.pump.Kept c0 cold n.cold
  answers : n.pump.Answers
  held : n.pump.Held fast [] n.fast
  lane : ∀ m ∈ n.fast, m.header.lane = .fast

/-- One step of the pump. -/
theorem PumpNode.Carried.step [Inhabited β] {c0 : Nat} {cold fast : List (Msg β V δ)}
    (hcold : ColdStream c0 cold) {n n' : PumpNode β V δ} {out : Option (Msg β V δ)}
    (hstep : PumpStep n out n') (h : n.Carried c0 cold fast) : n'.Carried c0 cold fast := by
  cases hstep with
  | idle => exact h
  | fast p m c f =>
    have hm : m.header.lane = .fast := h.lane m (by simp)
    rw [Pump.handle, if_pos hm]
    exact ⟨h.kept.fast hm, h.answers.fast hm, h.held.fast hm,
      fun m' hm' => h.lane m' (by simp [hm'])⟩
  | cold p m c f =>
    have hm := (hcold.mayFollow h.kept.taken).lane
    rw [Pump.handle, if_neg (by simp [hm])]
    obtain ⟨hkept, hans⟩ := h.kept.dispatchCold h.answers hcold
    exact ⟨hkept, hans, h.held.cold hm, h.lane⟩
  | batch p budget c f =>
    exact ⟨h.kept.batch budget, h.answers.batch h.kept budget, h.held.batch h.kept budget, h.lane⟩

/-- A fresh session. -/
theorem PumpNode.Carried.start (scene : S) (c0 f0 : Nat) {cold fast : List (Msg β V δ)}
    (hfast : ∀ m ∈ fast, m.header.lane = .fast) :
    (Node.start scene c0 f0 cold fast).order.Carried c0 cold fast where
  kept := ⟨rfl, Assembly.Tracks.empty, List.Pairwise.nil, by simp [Node.order, Node.start,
    Replica.handleNewSession, Replica.pump, Pump.turns, appliedSeqs], by simp [Node.order,
    Node.start, Replica.handleNewSession, Replica.pump], by simp [Node.order, Node.start,
    Replica.handleNewSession, Replica.pump, coldTaken], by simp [Node.order, Node.start,
    Replica.handleNewSession, Replica.pump]⟩
  answers := by
    intro c hc
    simp [Node.order, Node.start, Replica.handleNewSession, Replica.pump, coldTaken] at hc
  held := ⟨by simp [Node.order, Node.start, Replica.handleNewSession, Replica.pump, fastDone],
    by simp [Node.order, Node.start, Replica.handleNewSession, Replica.pump]⟩
  lane := hfast

/-- Nothing is on a lane, in an inbox or waiting for a batch. -/
def PumpNode.Quiet (n : PumpNode β V δ) : Prop := n.cold = [] ∧ n.fast = [] ∧ n.pump.pending = []

/-- What a fast message must follow was sent in this session, and is no part of a library file. -/
def FollowsSent (cold fast : List (Msg β V δ)) : Prop :=
  ∀ m ∈ fast, m.header.after = 0 ∨
    ∃ c ∈ cold, c.header.kind ≠ .libfile ∧ c.header.seq = some m.header.after

/-- Nothing is parked when nothing is left to do. -/
private theorem PumpNode.Carried.parked_nil {c0 : Nat} {cold fast : List (Msg β V δ)}
    {n : PumpNode β V δ}
    (h : n.Carried c0 cold fast) (hfollows : FollowsSent cold fast) (hquiet : n.Quiet) :
    n.pump.parked = [] := by
  obtain ⟨hc, -, hpending⟩ := hquiet
  rw [List.eq_nil_iff_forall_not_mem]
  intro q hq
  obtain ⟨hafter, hlt, -⟩ := h.held.parked q hq
  have hmem : q.2 ∈ fast := h.held.once.subset
    (by simpa using .inr (.inl ⟨q.1, hq⟩))
  rcases hfollows q.2 hmem with hzero | ⟨c, hcmem, hkind, hs⟩
  · omega
  · have htaken := h.kept.taken
    rw [hc, List.append_nil] at htaken
    rcases h.answers c (htaken ▸ hcmem) hkind _ hs with hle | ⟨e, he, -⟩
    · omega
    · rw [hpending] at he
      cases he

/-! ## What the host sends -/

namespace Ledger

/-- A cold seq that a fast message may be told to follow. -/
def Names (l : Ledger β V δ) (a : Nat) : Prop :=
  a = 0 ∨ ∃ c ∈ l.coldLane, c.header.kind ≠ .libfile ∧ c.header.seq = some a

/-- What was sent stays sent. -/
theorem Names.mono {l l' : Ledger β V δ} {a : Nat} (h : l.Names a)
    (hcold : l.coldLane ⊆ l'.coldLane) : l'.Names a :=
  h.imp_right fun ⟨c, hc, hrest⟩ => ⟨c, hcold hc, hrest⟩

/-- The later of two seqs. -/
private theorem names_max {l : Ledger β V δ} {a b : Nat} (ha : l.Names a) (hb : l.Names b) :
    l.Names (max a b) := by
  rcases Nat.le_total a b with hle | hle
  · rwa [Nat.max_eq_right hle]
  · rwa [Nat.max_eq_left hle]

/-- The seqs the host keeps for `_after_for` are of cold messages that left, and so is what the
    fast messages were told. -/
structure Follows (l : Ledger β V δ) : Prop where
  uuid : ∀ u s, l.uuidColdSeq.get? u = some s → l.Names s
  boot : l.Names l.bootLastSeq
  link : l.Names l.linkSeq
  fast : ∀ m ∈ l.fastLane, l.Names m.header.after

namespace Follows

variable {l l' : Ledger β V δ}

/-- At the start nothing is kept. -/
theorem start (c0 f0 : Nat) : (Ledger.start c0 f0 : Ledger β V δ).Follows :=
  ⟨by simp [Ledger.start], .inl rfl, .inl rfl, by simp [Ledger.start, fastLane]⟩

/-- What is kept is what was kept, or names a cold message by now. -/
theorem of (h : l.Follows) (hcold : l.coldLane ⊆ l'.coldLane)
    (huuid : ∀ u s, l'.uuidColdSeq.get? u = some s →
      l.uuidColdSeq.get? u = some s ∨ l'.Names s)
    (hboot : l'.bootLastSeq = l.bootLastSeq ∨ l'.Names l'.bootLastSeq)
    (hlink : l'.linkSeq = l.linkSeq ∨ l'.Names l'.linkSeq)
    (hfast : ∀ m ∈ l'.fastLane, m ∈ l.fastLane ∨ l'.Names m.header.after) : l'.Follows where
  uuid u s hs := (huuid u s hs).elim (fun hs => (h.uuid u s hs).mono hcold) id
  boot := hboot.elim (fun heq => heq ▸ h.boot.mono hcold) id
  link := hlink.elim (fun heq => heq ▸ h.link.mono hcold) id
  fast m hm := (hfast m hm).elim (fun hm => (h.fast m hm).mono hcold) id

/-- A message about a datablock follows its blob, the bootstrap or the last link, which were sent.
    -/
theorem afterFor (h : l.Follows) (uuid : Uuid) : l.Names (l.afterFor uuid) := by
  refine names_max ?_ (names_max h.boot h.link)
  rw [Dict.getD]
  cases hget : l.uuidColdSeq.get? uuid with
  | none => exact .inl rfl
  | some s => exact h.uuid uuid s hget

/-- And the blobs of its targets. -/
theorem afterAll (h : l.Follows) (uuid : Uuid) (targets : List Uuid) :
    l.Names (l.afterAll uuid targets) := by
  refine foldl_invariant (f := fun after t => max after (l.uuidColdSeq.getD t 0)) (I := l.Names)
    (fun after t hafter => names_max hafter ?_) targets (h.afterFor uuid)
  rw [Dict.getD]
  cases hget : l.uuidColdSeq.get? t with
  | none => exact .inl rfl
  | some s => exact h.uuid t s hget

/-- A cold message left that is no part of a library file. -/
private theorem names_pushed {m : Msg β V δ}
    (hcold : l'.coldLane = l.coldLane ++ [m.withSeq (l.seq + 1)])
    (hkind : m.header.kind ≠ .libfile) : l'.Names (l.seq + 1) :=
  .inr ⟨m.withSeq (l.seq + 1), by simp [hcold], hkind, rfl⟩

/-- A chunk of the bootstrap left; the seq of the last one is kept. -/
theorem sendBoot {c0 f0 : Nat} (h : l.Follows) (hs : l.Streams c0 f0) : l.sendBoot.Follows := by
  have hchunk : ∀ id data chunks, l.bootOutbox = some ⟨id, data, chunks⟩ → ∀ m ∈ chunks,
      m.header.kind ≠ .libfile := by
    intro id data chunks heq m hm
    obtain ⟨hon, n, s, hid, -⟩ := hs.boot _ heq
    rw [(hon.label hm).1, hid]
    simp [BlobId.kind]
  simp only [Ledger.sendBoot]
  split
  · rename_i id data m heq
    have hcold : ({ (l.pushCold m).finish ⟨id, data, []⟩ with
        bootOutbox := none
        bootLastSeq := l.seq + 1
        uuidColdSeq := Dict.empty } : Ledger β V δ).coldLane =
          l.coldLane ++ [m.withSeq (l.seq + 1)] := by
      simp [coldLane, finish, pushCold]
    refine h.of (by simp [hcold]) (by simp) (.inr ?_) (.inl rfl) fun m' hm' => .inl ?_
    · exact names_pushed hcold (hchunk id data _ heq m (by simp))
    · simpa [fastLane, finish, pushCold] using hm'
  · refine h.of ?_ (fun u s hs => .inl hs) (.inl rfl) (.inl rfl) fun m' hm' => .inl ?_
    · simp [coldLane, pushCold]
    · simpa [fastLane, pushCold] using hm'
  · exact h

/-- A chunk of a blob left; the seq of the last one is kept for its datablock. -/
theorem sendT2 {c0 f0 : Nat} (h : l.Follows) (hs : l.Streams c0 f0) (uuid : Uuid) :
    (l.sendT2 uuid).Follows := by
  -- what is in the outbox of a datablock is no library
  have hchunk : ∀ id data chunks, l.t2Outbox.get? uuid = some ⟨id, data, chunks⟩ → ∀ m ∈ chunks,
      m.header.kind ≠ .libfile := by
    intro id data chunks heq m hm
    obtain ⟨hon, s, hid, -⟩ := hs.t2 _ _ heq
    rw [(hon.label hm).1, hid]
    simp [BlobId.kind]
  -- the number kept for the datablock is that of the chunk just pushed
  have hentry : ∀ {l' : Ledger β V δ} {m : Msg β V δ},
      l'.coldLane = l.coldLane ++ [m.withSeq (l.seq + 1)] → m.header.kind ≠ .libfile →
      ∀ u s, (l.uuidColdSeq.insert uuid (l.seq + 1)).get? u = some s →
        l.uuidColdSeq.get? u = some s ∨ l'.Names s := by
    intro l' m hcold hkind u s hget
    rw [Dict.get?_insert] at hget
    split at hget
    · rw [← Option.some.inj hget]
      exact .inr (names_pushed hcold hkind)
    · exact .inl hget
  simp only [Ledger.sendT2]
  split
  · -- the last chunk: the blob leaves the outbox
    rename_i id data m heq
    have hcold : ({ (l.pushCold m).finish ⟨id, data, []⟩ with
        uuidColdSeq := l.uuidColdSeq.insert uuid (l.seq + 1)
        t2Outbox := l.t2Outbox.erase uuid } : Ledger β V δ).coldLane =
          l.coldLane ++ [m.withSeq (l.seq + 1)] := by
      simp [coldLane, finish, pushCold]
    refine h.of (by simp [hcold]) (hentry hcold (hchunk id data _ heq m (by simp))) (.inl rfl)
      (.inl rfl) fun m' hm' => .inl ?_
    simpa [fastLane, finish, pushCold] using hm'
  · -- another chunk: the rest of it stays
    rename_i id data m rest hmore heq
    have hcold : ({ l.pushCold m with
        uuidColdSeq := l.uuidColdSeq.insert uuid (l.seq + 1)
        t2Outbox := l.t2Outbox.insert uuid ⟨id, data, rest⟩ } : Ledger β V δ).coldLane =
          l.coldLane ++ [m.withSeq (l.seq + 1)] := by
      simp [coldLane, pushCold]
    refine h.of (by simp [hcold]) (hentry hcold (hchunk id data _ heq m (by simp))) (.inl rfl)
      (.inl rfl) fun m' hm' => .inl ?_
    simpa [fastLane, pushCold] using hm'
  · exact h

/-- One step of the host's sending half. -/
theorem step {c0 f0 : Nat} (h : l.Follows) (hs : l.Streams c0 f0) {a : LedgerAct β V δ}
    (ha : a.Valid) : (l.step a).Follows := by
  -- a logged message waits for a number that the cold lane names
  have hlogged : ∀ m : Msg β V δ, l.Names m.header.after → (l.pushLogged m).Follows := by
    intro m hm
    refine h.of (by simp) (fun u s hs => .inl hs) (.inl rfl) (.inl rfl) fun m' hm' => ?_
    rw [fastLane_pushLogged, List.mem_append, List.mem_singleton] at hm'
    rcases hm' with hm' | rfl
    · exact .inl hm'
    · exact .inr (Names.mono (l := l) hm (by simp))
  cases a with
  | sendBoot => exact h.sendBoot hs
  | sendT2 uuid => exact h.sendT2 hs uuid
  -- a library's chunk names no datablock
  | sendLib =>
    simp only [Ledger.step, Ledger.sendLib]
    split
    · refine h.of ?_ (fun u s hs => .inl hs) (.inl rfl) (.inl rfl) fun m' hm' => .inl ?_
      · simp [coldLane, finish, pushCold]
      · simpa [fastLane, finish, pushCold] using hm'
    · refine h.of ?_ (fun u s hs => .inl hs) (.inl rfl) (.inl rfl) fun m' hm' => .inl ?_
      · simp [coldLane, pushCold]
      · simpa [fastLane, pushCold] using hm'
    · exact h
  -- a request of the cold lane is named by its own number
  | sendCold kind lib =>
    have hcold : (l.step (.sendCold kind lib)).coldLane =
        l.coldLane ++ [({ header := { kind := kind, lib := lib } } : Msg β V δ).withSeq
          (l.seq + 1)] := by
      simp [Ledger.step, coldLane, pushCold]
    refine h.of (by simp [hcold]) (fun u s hs => .inl hs) (.inl rfl) (.inr ?_) fun m' hm' => .inl ?_
    · refine names_pushed hcold ?_
      rcases ha with rfl | rfl | rfl <;> simp
    · simpa [Ledger.step, fastLane, pushCold] using hm'
  -- the ends of the lanes wait for what was there before
  | endCold =>
    refine h.of (by simp [Ledger.step]) (fun u s hs => .inl hs) (.inl rfl) (.inl rfl)
      fun m' hm' => .inl ?_
    simpa [Ledger.step] using hm'
  | t1 uuid changes targets full sd => exact hlogged _ (h.afterAll uuid targets)
  | tomb uuid => exact hlogged _ (h.afterFor uuid)
  | endFast =>
    refine h.of (by simp [Ledger.step]) (fun u s hs => .inl hs) (.inl rfl) (.inl rfl)
      fun m' hm' => ?_
    simp only [Ledger.step, fastLane_pushFast, List.mem_append, List.mem_singleton] at hm'
    rcases hm' with hm' | rfl
    · exact .inl hm'
    · exact .inr (.inl rfl)
  -- what is cut or noted is on no lane
  | _ =>
    refine h.of ?_ (fun u s hs => .inl hs) (.inl rfl) (.inl rfl) fun m' hm' => .inl ?_
    · simp [Ledger.step, coldLane]
    · simpa [Ledger.step, fastLane] using hm'

/-- A session. -/
theorem run {c0 f0 : Nat} {acts : List (LedgerAct β V δ)} (hacts : ∀ a ∈ acts, a.Valid) :
    ((Ledger.start c0 f0).run acts : Ledger β V δ).Follows := by
  induction acts using List.reverseRecOn with
  | nil => exact start c0 f0
  | append_singleton acts a ih =>
    rw [Ledger.run_append]
    exact (ih fun b hb => hacts b (by simp [hb])).step
      ((Ledger.Streams.start c0 f0).run fun b hb => hacts b (by simp [hb])) (hacts a (by simp))

end Follows

end Ledger

/-- What a session sends: every fast message follows a cold one that was sent. -/
private theorem Host.run_followsSent [BEq V] [DecidableEq δ] (H : Digests β V δ) (w : World β V)
    (c0 f0 : Nat) (calls : List (World β V × Call β δ)) :
    FollowsSent ((start w c0 f0).run H calls).ledger.coldLane
      ((start w c0 f0).run H calls).ledger.fastLane := by
  obtain ⟨hledger, hvalid⟩ := run_ledger H w c0 f0 calls
  rw [hledger]
  exact (Ledger.Follows.run hvalid).fast

/-! ## Coming to an end -/

/-- How much there is left to do: a message counts twice, for it may make a blob wait. -/
def PumpNode.load (n : PumpNode β V δ) : Nat :=
  2 * (n.cold.length + n.fast.length) + n.pump.pending.length

namespace Pump

variable (p : Pump β V δ)

/-- Fast messages make no blob wait. -/
@[simp] theorem pending_advance (seq : Option Nat) : (p.advance seq).pending = p.pending := rfl

/-- The batch loop takes from the head of the line. -/
private theorem length_batchLoop (budget applied : Nat) (due : List (Msg β V δ)) :
    (batchLoop budget p.pending applied p due).1.pending.length ≤ p.pending.length := by
  generalize hes : p.pending = es
  induction es generalizing p applied due with
  | nil => simp [batchLoop, hes]
  | cons e es ih =>
    simp only [batchLoop]
    split
    · rw [hes]
    · split
      · simp [coldDone]
      · exact Nat.le_succ_of_le (ih
          ({ p with pending := es, done := p.done ++ [Ev.applied e] }.coldDone e.seq) _ _ rfl)

/-- A batch applies at least the oldest blob that waits. -/
private theorem length_batch (budget : Nat) (hpending : p.pending ≠ []) :
    (p.batch budget).pending.length < p.pending.length := by
  obtain ⟨e, es, hes⟩ := List.exists_cons_of_ne_nil hpending
  simp only [batch, release, hes, batchLoop]
  rw [if_neg (by simp)]
  split
  · simp [coldDone]
  · exact Nat.lt_succ_of_le (length_batchLoop
      ({ p with pending := es, done := p.done ++ [Ev.applied e] }.coldDone e.seq) _ _ _)

/-- With no blob in line a batch does nothing. -/
private theorem batch_nil (budget : Nat) (hpending : p.pending = []) : p.batch budget = p := by
  obtain ⟨coldApplied, parked, assembly, pending, done⟩ := p
  obtain rfl : pending = [] := hpending
  simp [batch, release, batchLoop]

variable [Inhabited β]

/-- A message makes at most one blob wait. -/
private theorem length_handle (m : Msg β V δ) :
    (p.handle m).pending.length ≤ p.pending.length + 1 := by
  simp only [handle, fast, cold, chunk]
  repeat' split
  all_goals first
    | exact Nat.le_succ _
    | simp

end Pump

/-- Every step comes nearer to the end, or does nothing. -/
theorem PumpStep.load_lt [Inhabited β] {n n' : PumpNode β V δ} {out : Option (Msg β V δ)}
    (h : PumpStep n out n') : n' = n ∨ n'.load < n.load := by
  cases h with
  | idle => exact .inl rfl
  -- the message leaves its inbox
  | fast p m c f =>
    have := p.length_handle m
    refine .inr ?_
    simp only [PumpNode.load, List.length_cons]
    omega
  | cold p m c f =>
    have := p.length_handle m
    refine .inr ?_
    simp only [PumpNode.load, List.length_cons]
    omega
  -- an empty batch, or one that applies a blob at least
  | batch p budget c f =>
    by_cases hpending : p.pending = []
    · exact .inl (by rw [p.batch_nil budget hpending])
    · have := p.length_batch budget hpending
      refine .inr ?_
      simp only [PumpNode.load]
      omega

namespace Node

/-- A turn to which a message of each lane has arrived, if there is one. -/
def Act.IsTurn : Act → Prop
  | .turn kf kc => 0 < kf ∧ 0 < kc
  | .batch _ => False

def Act.IsBatch : Act → Prop
  | .turn _ _ => False
  | .batch _ => True

/-- A turn takes a message, if there is one and no blob waits. -/
private theorem take_isSome {n : Node β V δ S} {kf kc : Nat} (hkf : 0 < kf) (hkc : 0 < kc)
    (hpending : n.replica.pending = []) (hcoming : n.order.fast ≠ [] ∨ n.order.cold ≠ []) :
    ∃ m, (n.take kf kc).2 = some m := by
  -- an empty poll means that nothing is there
  have hpoll : ∀ (inbox lane : List (Msg β V δ)) (k : Nat), 0 < k →
      (inbox ++ if inbox = [] then lane.take k else []) = [] → inbox ++ lane = [] := by
    intro inbox lane k hk h
    obtain ⟨hinbox, hlane⟩ := List.append_eq_nil_iff.mp h
    rw [if_pos hinbox, List.take_eq_nil_iff] at hlane
    rw [hinbox, hlane.resolve_left (by omega)]
    rfl
  -- the fast inbox first, and the cold one if it is empty
  simp only [take, hpending]
  split
  · exact ⟨_, rfl⟩
  · rename_i hfast
    rw [if_pos (by simp [batchMax])]
    split
    · exact ⟨_, rfl⟩
    · rename_i hcold
      have hf := hpoll _ _ (min kf 64) (by omega) hfast
      have hc := hpoll _ _ (min kc 8) (by omega) hcold
      exact absurd (hcoming.resolve_left (not_not_intro hf)) (not_not_intro hc)

variable [Inhabited β] (B : Blender β V δ S)

/-- A turn does something if there is a message and no blob waits, and a batch if one does. -/
private theorem load_step_lt {n : Node β V δ S} {a : Act} (hquiet : ¬ n.order.Quiet)
    (hturn : n.replica.pending = [] → a.IsTurn) (hbatch : n.replica.pending ≠ [] → a.IsBatch) :
    (step B n a).order.load < n.order.load := by
  have hstep := n.step_order B a
  -- no blob waits, so the action is a turn and there is a message to take
  by_cases hpending : n.replica.pending = []
  · have hcoming : n.order.fast ≠ [] ∨ n.order.cold ≠ [] := by
      by_contra hnot
      rw [not_or, not_not, not_not] at hnot
      exact hquiet ⟨hnot.2, hnot.1, hpending⟩
    cases a with
    | batch => exact (hturn hpending).elim
    | turn kf kc =>
      obtain ⟨hkf, hkc⟩ := hturn hpending
      obtain ⟨m, hm⟩ := take_isSome hkf hkc hpending hcoming
      rw [taken, hm] at hstep
      generalize (step B n (.turn kf kc)).order = n' at hstep ⊢
      generalize n.order = n₀ at hstep ⊢
      -- the message leaves its inbox, and handling it adds at most one blob
      cases hstep with
      | fast p m c f =>
        have := p.length_handle m
        simp only [PumpNode.load, List.length_cons]
        omega
      | cold p m c f =>
        have := p.length_handle m
        simp only [PumpNode.load, List.length_cons]
        omega
  · -- a blob waits, so the action is a batch, which applies one at least
    cases a with
    | turn => exact (hbatch hpending).elim
    | batch budget =>
      refine hstep.load_lt.resolve_left fun heq => ?_
      have hlt := Pump.length_batch n.order.pump budget hpending
      have hpump : (step B n (.batch budget)).order.pump = n.order.pump.batch budget :=
        Replica.pump_applyPendingBatch B budget n.replica
      rw [← hpump, heq] at hlt
      exact Nat.lt_irrefl _ hlt

/-- The apply loop after `k` of its actions. -/
def after (n : Node β V δ S) (acts : Nat → Act) : Nat → Node β V δ S
  | 0 => n
  | k + 1 => step B (after n acts k) (acts k)

/-- The actions of a fair schedule: turns and batches come again and again, and what a lane carries
    arrives in the end. -/
structure Fair (acts : Nat → Act) : Prop where
  turns : ∀ k, ∃ m, k ≤ m ∧ (acts m).IsTurn
  batches : ∀ k, ∃ m, k ≤ m ∧ (acts m).IsBatch

/-- A fair schedule comes to an end of the work. -/
private theorem exists_quiet (n : Node β V δ S) {acts : Nat → Act} (hfair : Fair acts) (k : Nat) :
    ∃ m, k ≤ m ∧ (after B n acts m).order.Quiet := by
  refine exists_done (v := fun k => (after B n acts k).order) (f := PumpNode.load)
    (fun k => ((after B n acts k).step_order B (acts k)).load_lt) (fun k hquiet => ?_) k
  -- some later action is of the kind that is needed
  have hact : ∃ m, k ≤ m ∧ ((after B n acts k).replica.pending = [] → (acts m).IsTurn) ∧
      ((after B n acts k).replica.pending ≠ [] → (acts m).IsBatch) := by
    by_cases hpending : (after B n acts k).replica.pending = []
    · obtain ⟨m, hm, hturn⟩ := hfair.turns k
      exact ⟨m, hm, fun _ => hturn, fun h => absurd hpending h⟩
    · obtain ⟨m, hm, hbatch⟩ := hfair.batches k
      exact ⟨m, hm, fun h => absurd h hpending, fun _ => hbatch⟩
  -- until then nothing changes, or it is done already
  obtain ⟨m, hm, hturn, hbatch⟩ := hact
  refine ⟨m, hm, fun heq => ?_⟩
  have hpending : (after B n acts m).replica.pending = (after B n acts k).replica.pending :=
    congrArg (fun o => o.pump.pending) heq
  rw [← heq]
  exact load_step_lt B (heq ▸ hquiet) (hpending ▸ hturn) (hpending ▸ hbatch)

end Node

/-! ## The end -/

/-- Everything the host sent has landed. -/
structure Landed (cold fast : List (Msg β V δ)) (n : Node β V δ S) : Prop where
  inboxes : n.replica.inbox = [] ∧ n.replica.inboxFast = [] ∧ n.coldLane = [] ∧ n.fastLane = []
  pending : n.replica.pending = []
  parked : n.replica.merger.parked = []
  /-- The cold messages were handled in the order they were sent, each once. -/
  coldOrder : coldTaken n.replica.log = cold
  /-- The fast messages were dispatched, each once. -/
  fastOnce : (fastDone n.replica.log).Perm fast
  /-- Every blob was applied, and no blob twice, unless a later bootstrap made it pointless. -/
  blobs : (appliedSeqs n.replica.log).Pairwise (· < ·) ∧
    ∀ c ∈ cold, c.isLastChunk → ∀ s, c.header.seq = some s →
      s ∈ appliedSeqs n.replica.log ∨
        ∃ c' ∈ cold, c'.header.kind = .boot ∧ c'.isLastChunk ∧
          ∃ s', c'.header.seq = some s' ∧ s < s'

/-- The cold messages among the effects are those in the log. -/
private theorem coldTaken_effects (log : List (Ev β V δ)) :
    coldTaken (effects log) = coldTaken log := by
  simp only [coldTaken, effects, List.filterMap_filter]
  congr 1
  funext ev
  cases ev <;> rfl

/-- Nothing left to do means that everything has landed. -/
theorem PumpNode.Carried.landed {c0 : Nat} {cold fast : List (Msg β V δ)} {n : Node β V δ S}
    (h : n.order.Carried c0 cold fast) (hfollows : FollowsSent cold fast)
    (hquiet : n.order.Quiet) : Landed cold fast n := by
  have hparked := h.parked_nil hfollows hquiet
  obtain ⟨hc, hf, hpending⟩ := hquiet
  -- all of the cold lane is taken, since nothing of it is coming
  have htaken : coldTaken n.replica.log = cold := by
    have := h.kept.taken
    rw [hc, List.append_nil] at this
    rw [this, ← coldTaken_effects]
    rfl
  -- no blob waits, so the turns are the applied ones
  have hseqs : n.order.pump.turns = appliedSeqs n.replica.log := by
    rw [Pump.turns, hpending, List.map_nil, List.append_nil]
    exact appliedSeqs_effects _
  have hinbox := List.append_eq_nil_iff.mp hc
  have hinboxFast := List.append_eq_nil_iff.mp hf
  refine ⟨⟨hinbox.1, hinboxFast.1, hinbox.2, hinboxFast.2⟩, hpending, hparked, htaken, ?_,
    hseqs ▸ h.kept.turns, ?_⟩
  · -- of the fast lane nothing is coming or parked, so all of it is done
    have honce := h.held.once
    rw [hparked, hf, List.map_nil, List.append_nil, List.append_nil, List.append_nil] at honce
    rw [← fastDone_effects]
    exact honce
  · -- the turn of the last chunk of a blob is over, or a bootstrap came in its place
    intro c hcmem hlast s hs
    have hmem : c ∈ coldTaken n.order.pump.done := by
      rw [← htaken, ← coldTaken_effects] at hcmem
      exact hcmem
    rcases h.kept.settled c hmem hlast s hs with hturn | ⟨c', hc', hboot⟩
    · exact .inl (hseqs ▸ hturn)
    · refine .inr ⟨c', ?_, hboot⟩
      rw [← htaken, ← coldTaken_effects]
      exact hc'

variable [Inhabited β] (B : Blender β V δ S)

/-- What holds at every moment of a session. -/
private theorem carried_after (scene : S) (c0 f0 : Nat) {cold fast : List (Msg β V δ)}
    (hcold : ColdStream c0 cold) (hfast : ∀ m ∈ fast, m.header.lane = .fast) (acts : Nat → Node.Act)
    (k : Nat) :
    (Node.after B (Node.start scene c0 f0 cold fast) acts k).order.Carried c0 cold fast := by
  induction k with
  | zero => exact PumpNode.Carried.start scene c0 f0 hfast
  | succ k ih => exact ih.step hcold (Node.step_order B _ (acts k))

/-- Once nothing is left to do, nothing is done any more. -/
theorem Node.Quiet.step {n : Node β V δ S} (h : n.order.Quiet) (a : Node.Act) :
    (Node.step B n a).order.Quiet := by
  have hzero : n.order.load = 0 := by simp [PumpNode.load, h.1, h.2.1, h.2.2]
  rcases (n.step_order B a).load_lt with heq | hlt
  · rw [heq]
    exact h
  · omega

/-- In every session and in every fair order of what the replica does, everything the host has sent
    has landed from some moment on: the cold messages in order, every message once, every blob once
    or behind a later bootstrap, and nothing stays parked or waiting. -/
theorem everything_lands [BEq V] [DecidableEq δ] (H : Digests β V δ) (w : World β V)
    (c0 f0 : Nat) (calls : List (World β V × Host.Call β δ)) (scene : S) (acts : Nat → Node.Act)
    (hfair : Node.Fair acts) :
    let l := ((Host.start w c0 f0).run H calls).ledger
    ∃ N, ∀ k, N ≤ k → Landed l.coldLane l.fastLane
      (Node.after B (Node.start scene c0 f0 l.coldLane l.fastLane) acts k) := by
  intro l
  -- the session's messages are as the streams ask
  have hstreams : l.Streams c0 f0 := Host.run_streams H w c0 f0 calls
  obtain ⟨N, -, hquiet⟩ :=
    Node.exists_quiet B (Node.start scene c0 f0 l.coldLane l.fastLane) hfair 0
  refine ⟨N, fun k hk => ?_⟩
  -- once all is done it stays so
  have hstays :
      (Node.after B (Node.start scene c0 f0 l.coldLane l.fastLane) acts k).order.Quiet := by
    induction k, hk using Nat.le_induction with
    | base => exact hquiet
    | succ k hk ih => exact Node.Quiet.step B ih (acts k)
  exact (carried_after B scene c0 f0 hstreams.stream hstreams.lane_fast acts k).landed
    (Host.run_followsSent H w c0 f0 calls) hstays

/-- Turns and batches in turn are fair. -/
private theorem Node.fair_alternating :
    Node.Fair fun k => if k % 2 = 0 then .turn 1 1 else .batch 1 where
  turns k := ⟨2 * k, by omega, by simp [Act.IsTurn]⟩
  batches k := by
    refine ⟨2 * k + 1, by omega, ?_⟩
    rw [if_neg (by omega)]
    trivial

open Camera in
/-- A session with a bootstrap, two blobs and two deltas, one of which is parked on the way. -/
theorem everything_lands_alternating :
    let l := (host "c").ledger
    ∃ N, ∀ k, N ≤ k → Landed l.coldLane l.fastLane
      (Node.after (.keyed String Digest) (Node.start (fun _ => none) 0 0 l.coldLane l.fastLane)
        (fun k => if k % 2 = 0 then .turn 1 1 else .batch 1) k) :=
  everything_lands (.keyed String Digest) digests file 0 0 (calls "c") (fun _ => none) _
    Node.fair_alternating

end QCBridge
