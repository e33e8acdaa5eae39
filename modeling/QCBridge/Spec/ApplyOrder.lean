import QCBridge.Spec.ColdStream
import QCBridge.ForStd.Guarded
import QCBridge.ForStd.History

/-!
# Fast messages wait for the cold lane

A fast message names the cold seq it must follow, and the replica parks it until
`cold_applied` has reached that seq. `cold_applied` is a single counter, and a
completed blob only waits for its batch: a message that is applied the moment it
is taken moves the counter past every blob still waiting.

As long as no such message is taken while a blob waits, what the counter says is
true: everything up to it was handled, and every blob up to it was applied or
superseded.

## Key results

- `Pump.Ordered`: the invariant, and one lemma for each thing a pump does
- `dispatched_covered`: fast messages follow what they name
-/

namespace QCBridge

variable {β V δ S : Type}

/-- The cold messages dispatched so far, in order. -/
def coldTaken (done : List (Ev β V δ)) : List (Msg β V δ) :=
  done.filterMap fun
    | .dispatched m => if m.header.lane = .cold then some m else none
    | _ => none

@[simp] theorem coldTaken_append (l₁ l₂ : List (Ev β V δ)) :
    coldTaken (l₁ ++ l₂) = coldTaken l₁ ++ coldTaken l₂ := List.filterMap_append

theorem coldTaken_fast {items : List (Msg β V δ)} (h : ∀ m ∈ items, m.header.lane = .fast) :
    coldTaken (items.map Ev.dispatched) = [] := by
  induction items with
  | nil => rfl
  | cons m items ih =>
    have hm := h m (by simp)
    rw [List.map_cons, coldTaken, List.filterMap_cons_none (by simp [hm])]
    exact ih fun m' hm' => h m' (by simp [hm'])

theorem dispatched_of_mem_coldTaken {done : List (Ev β V δ)} {c : Msg β V δ}
    (h : c ∈ coldTaken done) : Ev.dispatched c ∈ done := by
  obtain ⟨ev, hev, hc⟩ := List.mem_filterMap.mp h
  cases ev with
  | dispatched m =>
    simp only [Option.ite_none_right_eq_some, Option.some.injEq] at hc
    exact hc.2 ▸ hev
  | _ => cases hc

/-- Everything the cold lane carried up to seq `a` is behind us: handled, and
    where it was the end of a blob, the blob applied or superseded by a later
    bootstrap. -/
structure Covered (cold : List (Msg β V δ)) (a : Nat) (before : List (Ev β V δ)) : Prop where
  handled : ∀ c ∈ cold, ∀ s, c.header.seq = some s → s ≤ a → Ev.dispatched c ∈ before
  applied : ∀ c ∈ cold, ∀ s, c.isLastChunk → c.header.seq = some s → s ≤ a →
    (∃ e, Ev.applied e ∈ before ∧ e.seq = some s) ∨
      ∃ c' s', Ev.dispatched c' ∈ before ∧ c'.header.kind = .boot ∧ c'.isLastChunk ∧
        c'.header.seq = some s' ∧ s < s'

/-- What is behind us stays behind us. -/
theorem Covered.mono {cold : List (Msg β V δ)} {a : Nat} {before log : List (Ev β V δ)}
    (h : Covered cold a before) (hsub : before ⊆ log) : Covered cold a log where
  handled c hc s hs hle := hsub (h.handled c hc s hs hle)
  applied c hc s hlast hs hle := by
    rcases h.applied c hc s hlast hs hle with ⟨e, he, hes⟩ | ⟨c', s', hd, hrest⟩
    · exact .inl ⟨e, hsub he, hes⟩
    · exact .inr ⟨c', s', hsub hd, hrest⟩

theorem Covered.append {cold : List (Msg β V δ)} {a : Nat} {before : List (Ev β V δ)}
    (h : Covered cold a before) (more : List (Ev β V δ)) : Covered cold a (before ++ more) :=
  h.mono fun _ => List.mem_append_left _

/-- What is behind us among the effects is behind us in the log. -/
theorem Covered.of_effects {cold : List (Msg β V δ)} {a : Nat} {log : List (Ev β V δ)}
    (h : Covered cold a (effects log)) : Covered cold a log :=
  h.mono fun _ => List.mem_of_mem_filter

/-- A fast message is dispatched behind everything it names. -/
def InTime (cold : List (Msg β V δ)) (before : List (Ev β V δ)) : Ev β V δ → Prop
  | .dispatched m => m.header.lane = .fast → Covered cold m.header.after before
  | _ => True

/-- Whether a cold message moves the counter as soon as it is taken: all but the
    last chunk of a blob, which waits for its batch, and the chunks of a library
    file before its last. -/
def Msg.appliesAtOnce (m : Msg β V δ) : Bool :=
  match m.header.kind with
  | .t2 | .boot => !m.isLastChunk
  | .libfile => m.header.blob.any (fun b => b.i + 1 = b.n)
  | _ => true

/-- A blob's end is applied, superseded by a bootstrap taken later, or waits. -/
def Settled (p : Pump β V δ) (s : Nat) : Prop :=
  (∃ e, Ev.applied e ∈ p.done ∧ e.seq = some s) ∨
    (∃ c' s', Ev.dispatched c' ∈ p.done ∧ c'.header.kind = .boot ∧ c'.isLastChunk ∧
      c'.header.seq = some s' ∧ s < s') ∨
    ∃ e ∈ p.pending, e.seq = some s

/-- What holds of a pump that has taken the cold messages of `cold` up to `rest`. -/
structure Pump.Ordered (c0 : Nat) (cold rest : List (Msg β V δ)) (p : Pump β V δ) : Prop where
  taken : cold = coldTaken p.done ++ rest
  tracks : p.assembly.Tracks (coldTaken p.done)
  applied_le : p.coldApplied ≤ c0 + (coldTaken p.done).length
  waiting : ∀ e ∈ p.pending, ∃ s, e.seq = some s ∧ p.coldApplied < s ∧
    s ≤ c0 + (coldTaken p.done).length
  sorted : p.pending.Pairwise fun e e' => e.seq.getD 0 < e'.seq.getD 0
  settled : ∀ c ∈ coldTaken p.done, c.isLastChunk → ∀ s, c.header.seq = some s → Settled p s
  parked : ∀ q ∈ p.parked, q.1 = q.2.header.after ∧ q.2.header.lane = .fast
  history : History (InTime cold) p.done

namespace Pump.Ordered

variable {c0 : Nat} {cold rest : List (Msg β V δ)} {p : Pump β V δ}

/-- Everything up to `cold_applied` is covered. -/
theorem covered (h : p.Ordered c0 cold rest) (hcold : ColdStream c0 cold) {a : Nat}
    (ha : a ≤ p.coldApplied) : Covered cold a p.done := by
  have htaken : ∀ c ∈ cold, ∀ s, c.header.seq = some s → s ≤ a → c ∈ coldTaken p.done := by
    intro c hc s hs hle
    have := h.applied_le
    exact (hcold.mem_taken_iff ⟨rest, h.taken.symm⟩ hc hs).mp (by omega)
  refine ⟨fun c hc s hs hle => dispatched_of_mem_coldTaken (htaken c hc s hs hle), ?_⟩
  intro c hc s hlast hs hle
  rcases h.settled c (htaken c hc s hs hle) hlast s hs with happ | hsup | ⟨e, he, hes⟩
  · exact .inl happ
  · exact .inr hsup
  · -- a blob that waits has a seq the counter has not reached
    obtain ⟨s', hs', hlt, -⟩ := h.waiting e he
    rw [hes, Option.some.injEq] at hs'
    omega

/-- Messages whose time has come are dispatched behind what they name. -/
theorem release (h : p.Ordered c0 cold rest) (hcold : ColdStream c0 cold) {items : List (Msg β V δ)}
    (hitems : ∀ m ∈ items, m.header.lane = .fast ∧ m.header.after ≤ p.coldApplied) :
    (p.release items).Ordered c0 cold rest := by
  have htaken : coldTaken (p.release items).done = coldTaken p.done := by
    simp only [Pump.release, coldTaken_append, coldTaken_fast fun m hm => (hitems m hm).1,
      List.append_nil]
  refine ⟨htaken ▸ h.taken, htaken ▸ h.tracks, htaken ▸ h.applied_le, htaken ▸ h.waiting,
    h.sorted, ?_, h.parked, ?_⟩
  · intro c hc hlast s hs
    rw [htaken] at hc
    rcases h.settled c hc hlast s hs with ⟨e, he, hes⟩ | ⟨c', s', hd, hrest⟩ | hw
    · exact .inl ⟨e, List.mem_append_left _ he, hes⟩
    · exact .inr (.inl ⟨c', s', List.mem_append_left _ hd, hrest⟩)
    · exact .inr (.inr hw)
  · refine h.history.append fun ev hev more => ?_
    obtain ⟨m, hm, rfl⟩ := List.mem_map.mp hev
    exact fun _ => (h.covered hcold (hitems m hm).2).append more

/-- The counter reaches `s`, which no waiting blob has passed. -/
theorem coldDone (h : p.Ordered c0 cold rest) {s : Nat} (hs : s ≤ c0 + (coldTaken p.done).length)
    (hwait : ∀ e ∈ p.pending, ∀ s', e.seq = some s' → s < s') :
    (p.coldDone (some s)).Ordered c0 cold rest where
  taken := h.taken
  tracks := h.tracks
  applied_le := by
    have := h.applied_le
    simp only [Pump.coldDone, LaneMerger.appliedAfter]
    omega
  waiting e he := by
    obtain ⟨s', hs', hlt, hle⟩ := h.waiting e he
    have := hwait e he s' hs'
    refine ⟨s', hs', ?_, hle⟩
    simp only [Pump.coldDone, LaneMerger.appliedAfter]
    omega
  sorted := h.sorted
  settled := h.settled
  parked q hq := h.parked q (List.mem_of_mem_filter hq)
  history := h.history

/-- What `cold_done` hands back was parked behind what is covered now. -/
theorem due (h : p.Ordered c0 cold rest) (seq : Option Nat) :
    ∀ m ∈ p.due seq, m.header.lane = .fast ∧ m.header.after ≤ (p.coldDone seq).coldApplied := by
  intro m hm
  simp only [Pump.due, List.mem_map, List.mem_filter, decide_eq_true_eq] at hm
  obtain ⟨q, ⟨hq, hle⟩, rfl⟩ := hm
  obtain ⟨hafter, hlane⟩ := h.parked q hq
  exact ⟨hlane, hafter ▸ hle⟩

/-- `_release(_merger.cold_done(seq))`. -/
theorem advance (h : p.Ordered c0 cold rest) (hcold : ColdStream c0 cold) {s : Nat}
    (hs : s ≤ c0 + (coldTaken p.done).length)
    (hwait : ∀ e ∈ p.pending, ∀ s', e.seq = some s' → s < s') :
    (p.advance (some s)).Ordered c0 cold rest :=
  (h.coldDone hs hwait).release hcold (h.due (some s))

/-- A fast message is dispatched or parked. -/
theorem fast (h : p.Ordered c0 cold rest) (hcold : ColdStream c0 cold) {m : Msg β V δ}
    (hm : m.header.lane = .fast) : (p.fast m).Ordered c0 cold rest := by
  simp only [Pump.fast]
  split
  · rename_i hle
    refine release h hcold fun m' (hm' : m' ∈ [m]) => ?_
    obtain rfl : m' = m := by simpa using hm'
    exact ⟨hm, hle⟩
  · refine ⟨h.taken, h.tracks, h.applied_le, h.waiting, h.sorted, h.settled, ?_, h.history⟩
    intro q hq
    rcases List.mem_append.mp hq with hq | hq
    · exact h.parked q hq
    · obtain rfl : q = (m.header.after, m) := by simpa using hq
      exact ⟨rfl, hm⟩

/-- The oldest waiting blob is applied; the messages behind it come due. -/
theorem applyNext (h : p.Ordered c0 cold rest) {e : Pending β δ} {es : List (Pending β δ)}
    (hpending : p.pending = e :: es) :
    ({ p with pending := es, done := p.done ++ [Ev.applied e] }.coldDone e.seq).Ordered c0
      cold rest := by
  have hsorted := h.sorted
  rw [hpending, List.pairwise_cons] at hsorted
  obtain ⟨s, hs, hlt, hle⟩ := h.waiting e (by simp [hpending])
  -- applying takes nothing of the lane
  have htaken : coldTaken (p.done ++ [Ev.applied e]) = coldTaken p.done := by simp [coldTaken]
  -- the queue without its head
  have hpop : Pump.Ordered c0 cold rest
      { p with pending := es, done := p.done ++ [Ev.applied e] } := by
    refine ⟨htaken ▸ h.taken, htaken ▸ h.tracks, htaken ▸ h.applied_le, ?_, hsorted.2, ?_,
      h.parked, h.history.snoc trivial⟩
    · -- waiting: the others wait as before
      intro e' he'
      rw [htaken]
      exact h.waiting e' (by simp [hpending, he'])
    · -- settled: the head is applied, and what a bootstrap made superseded stays so
      intro c hc hlast s' hs'
      rw [htaken] at hc
      rcases h.settled c hc hlast s' hs' with ⟨e', he', hes⟩ | ⟨c', s'', hd, hrest⟩ | ⟨e', he', hes⟩
      · exact .inl ⟨e', List.mem_append_left _ he', hes⟩
      · exact .inr (.inl ⟨c', s'', List.mem_append_left _ hd, hrest⟩)
      · rw [hpending, List.mem_cons] at he'
        rcases he' with rfl | he'
        · exact .inl ⟨e', by simp, hes⟩
        · exact .inr (.inr ⟨e', he', hes⟩)
  -- what comes due is in order, since the head was the oldest
  rw [hs]
  refine hpop.coldDone (htaken ▸ hle) fun e' he' s' hs' => ?_
  have := hsorted.1 e' he'
  rw [hs, hs'] at this
  exact this

/-- The batch loop. -/
theorem batchLoop (budget : Nat) (applied : Nat) (due : List (Msg β V δ))
    (h : p.Ordered c0 cold rest)
    (hdue : ∀ m ∈ due, m.header.lane = .fast ∧ m.header.after ≤ p.coldApplied) :
    let out := Pump.batchLoop budget p.pending applied p due
    out.1.Ordered c0 cold rest ∧
      ∀ m ∈ out.2, m.header.lane = .fast ∧ m.header.after ≤ out.1.coldApplied := by
  generalize hes : p.pending = es
  induction es generalizing p applied due with
  | nil => exact ⟨h, hdue⟩
  | cons e es ih =>
    have hnext := h.applyNext hes
    have hdue' : ∀ m ∈ due ++ p.due e.seq, m.header.lane = .fast ∧
        m.header.after ≤ (p.coldDone e.seq).coldApplied := by
      intro m hm
      rcases List.mem_append.mp hm with hm | hm
      · have := LaneMerger.le_appliedAfter p.coldApplied e.seq
        exact ⟨(hdue m hm).1, Nat.le_trans (hdue m hm).2 this⟩
      · exact h.due e.seq m hm
    simp only [Pump.batchLoop]
    split
    · exact ⟨h, hdue⟩
    · split
      · exact ⟨hnext, hdue'⟩
      · exact ih _ _ hnext hdue' rfl

/-- `_apply_pending_batch`. -/
theorem batch (h : p.Ordered c0 cold rest) (hcold : ColdStream c0 cold) (budget : Nat) :
    (p.batch budget).Ordered c0 cold rest := by
  obtain ⟨hloop, hdue⟩ := h.batchLoop budget 0 [] (by simp)
  exact hloop.release hcold hdue

/-- A cold message that ends no blob was dispatched. -/
theorem took {m : Msg β V δ} (h : p.Ordered c0 cold (m :: rest)) (hm : m.header.lane = .cold)
    (hlast : m.isLastChunk = false) {a : Assembly β δ}
    (ha : a.Tracks (coldTaken p.done ++ [m])) :
    Pump.Ordered c0 cold rest { p with assembly := a, done := p.done ++ [Ev.dispatched m] } := by
  -- the message is the next one taken of its lane
  have htaken : coldTaken (p.done ++ [Ev.dispatched m]) = coldTaken p.done ++ [m] := by
    simp [coldTaken, hm]
  have hlen : (coldTaken p.done ++ [m]).length = (coldTaken p.done).length + 1 := by simp
  have happlied := h.applied_le
  refine ⟨by rw [htaken, h.taken, List.append_assoc]; rfl, htaken ▸ ha, ?_, ?_, h.sorted, ?_,
    h.parked, ?_⟩
  · -- applied_le, waiting: one more is taken
    rw [htaken, hlen]
    exact Nat.le_succ_of_le happlied
  · intro e he
    obtain ⟨s, hs, hlt, hle⟩ := h.waiting e he
    exact ⟨s, hs, hlt, by rw [htaken, hlen]; omega⟩
  · -- settled: the message ends no blob, so nothing more is asked
    intro c hc hclast s hs
    rw [htaken, List.mem_append, List.mem_singleton] at hc
    rcases hc with hc | rfl
    · rcases h.settled c hc hclast s hs with ⟨e, he, hes⟩ | ⟨c', s', hd, hrest⟩ | hw
      · exact .inl ⟨e, List.mem_append_left _ he, hes⟩
      · exact .inr (.inl ⟨c', s', List.mem_append_left _ hd, hrest⟩)
      · exact .inr (.inr hw)
    · rw [hlast] at hclast
      cases hclast
  · -- history: a cold message waits for nothing
    refine h.history.snoc fun hfast => ?_
    rw [hm] at hfast
    cases hfast

/-- A cold message that ends a blob was dispatched, and the blob waits; a
    bootstrap makes the blobs that waited before it superseded. -/
theorem queued {m : Msg β V δ} (h : p.Ordered c0 cold (m :: rest)) (hm : m.header.lane = .cold)
    (hseq : m.header.seq = some (c0 + (coldTaken p.done).length + 1))
    (hlast : m.isLastChunk = true) {a : Assembly β δ}
    (ha : a.Tracks (coldTaken p.done ++ [m])) {e : Pending β δ} (he : e.seq = m.header.seq) :
    Pump.Ordered c0 cold rest
      { p with
        assembly := a
        done := p.done ++ [Ev.dispatched m]
        pending := (if m.header.kind = .boot then [] else p.pending) ++ [e] } := by
  -- the message is the next one taken of its lane
  have htaken : coldTaken (p.done ++ [Ev.dispatched m]) = coldTaken p.done ++ [m] := by
    simp [coldTaken, hm]
  have hlen : (coldTaken p.done ++ [m]).length = (coldTaken p.done).length + 1 := by simp
  have happlied := h.applied_le
  -- a bootstrap empties the queue first
  have hsub : ∀ e', e' ∈ (if m.header.kind = .boot then [] else p.pending) → e' ∈ p.pending := by
    intro e' he'
    split at he'
    · cases he'
    · exact he'
  refine ⟨by rw [htaken, h.taken, List.append_assoc]; rfl, htaken ▸ ha, ?_, ?_, ?_, ?_, h.parked,
    ?_⟩
  · -- applied_le, waiting: one more is taken, and the new blob has its number
    rw [htaken, hlen]
    exact Nat.le_succ_of_le happlied
  · intro e' he'
    rw [htaken, hlen]
    rcases List.mem_append.mp he' with he' | he'
    · obtain ⟨s, hs, hlt, hle⟩ := h.waiting e' (hsub e' he')
      exact ⟨s, hs, hlt, by omega⟩
    · obtain rfl : e' = e := by simpa using he'
      exact ⟨_, he.trans hseq, by simp only; omega, by omega⟩
  · -- sorted: the new blob is the youngest
    refine List.pairwise_append.mpr ⟨?_, List.pairwise_singleton _ _, ?_⟩
    · split
      · exact List.Pairwise.nil
      · exact h.sorted
    · intro e' he' e'' he''
      obtain rfl : e'' = e := by simpa using he''
      obtain ⟨s, hs, hlt, hle⟩ := h.waiting e' (hsub e' he')
      rw [hs, he, hseq, Option.getD_some, Option.getD_some]
      omega
  · -- settled: of the older blobs, a bootstrap makes those that waited superseded
    intro c hc hclast s hs
    rw [htaken, List.mem_append, List.mem_singleton] at hc
    rcases hc with hc | rfl
    · rcases h.settled c hc hclast s hs with ⟨e', he', hes⟩ | ⟨c', s', hd, hrest⟩ | ⟨e', he', hes⟩
      · exact .inl ⟨e', List.mem_append_left _ he', hes⟩
      · exact .inr (.inl ⟨c', s', List.mem_append_left _ hd, hrest⟩)
      · by_cases hboot : m.header.kind = .boot
        · obtain ⟨s', hs', -, hle⟩ := h.waiting e' he'
          rw [hes, Option.some.injEq] at hs'
          exact .inr (.inl ⟨m, _, by simp, hboot, hlast, hseq, by omega⟩)
        · exact .inr (.inr ⟨e', by simp [hboot, he'], hes⟩)
    · -- and the new one waits
      exact .inr (.inr ⟨e, by simp, he.trans hs⟩)
  · -- history: a cold message waits for nothing
    refine h.history.snoc fun hfast => ?_
    rw [hm] at hfast
    cases hfast

/-- A cold message that is applied the moment it is taken. -/
theorem tookAtOnce {m : Msg β V δ} (h : p.Ordered c0 cold (m :: rest))
    (hcold : ColdStream c0 cold) (hlast : m.isLastChunk = false) {a : Assembly β δ}
    (ha : a.Tracks (coldTaken p.done ++ [m])) (hclear : p.pending = []) :
    (Pump.advance { p with assembly := a, done := p.done ++ [Ev.dispatched m] }
      m.header.seq).Ordered c0 cold rest := by
  have hnext := hcold.mayFollow h.taken
  have htook := h.took hnext.lane hlast ha
  rw [hnext.seq]
  refine htook.advance hcold ?_ (by simp [hclear])
  have htaken : coldTaken (p.done ++ [Ev.dispatched m]) = coldTaken p.done ++ [m] := by
    simp [coldTaken, hnext.lane]
  rw [htaken, List.length_append, List.length_singleton]
  omega

variable [Inhabited β]

/-- A cold message is dispatched, and none that moves the counter at once while a
    blob waits. -/
theorem dispatchCold {m : Msg β V δ} (h : p.Ordered c0 cold (m :: rest))
    (hcold : ColdStream c0 cold) (hclear : m.appliesAtOnce = true → p.pending = []) :
    (p.cold m).Ordered c0 cold rest := by
  have hnext := hcold.mayFollow h.taken
  cases hkind : m.header.kind.isChunk with
  | false =>
    have hblob := hnext.noChunk hkind
    have hlast : m.isLastChunk = false := by simp [Msg.isLastChunk, hblob]
    have htook := h.tookAtOnce hcold hlast (h.tracks.snoc_noChunk hblob)
    simp only [Pump.cold]
    cases hk : m.header.kind
    case t2 => simp [hk, Kind.isChunk] at hkind
    case boot => simp [hk, Kind.isChunk] at hkind
    case libfile => simp [hk, Kind.isChunk] at hkind
    all_goals exact htook (hclear (by simp [Msg.appliesAtOnce, hk]))
  | true =>
    obtain ⟨b, mine, hm, hprog⟩ := hnext.chunk hkind
    have hblob := hm.blob_eq
    by_cases hlib : b.id.kind = .libfile
    · -- a library file: its last chunk applies it, the others do nothing
      have hk : m.header.kind = .libfile := hm.kind_eq.trans hlib
      have hlast : m.isLastChunk = false := by simp [Msg.isLastChunk, Msg.isBlobChunk, hk]
      obtain ⟨htracks, hout⟩ := h.tracks.feedLib hm hprog
      simp only [Pump.cold, hk, hblob, hout]
      split
      · rename_i hdone
        split at hdone
        · rename_i hend
          refine h.tookAtOnce hcold hlast htracks (hclear ?_)
          simp [Msg.appliesAtOnce, hk, hblob, Blob.position, hend]
        · cases hdone
      · exact h.took hnext.lane hlast htracks
    · -- a chunk of a blob: the last one makes it wait, the others do nothing else
      obtain ⟨htracks, hout⟩ := h.tracks.feed hm hprog hlib
      have hlast := hm.isLastChunk_eq hlib
      have hk : m.header.kind = .t2 ∨ m.header.kind = .boot := by
        have := hm.kind_eq
        cases hb : b.id <;> simp_all [BlobId.kind]
      have hchunk : p.cold m =
          Pump.chunk { p with done := p.done ++ [Ev.dispatched m] } m (b.position mine.length) := by
        rcases hk with hk | hk <;> simp only [Pump.cold, hk, hblob]
      simp only [hchunk, Pump.chunk, hout]
      by_cases hend : mine.length + 1 = b.count
      · simp only [if_pos hend]
        exact h.queued hnext.lane hnext.seq (by simp [hlast, hend]) htracks rfl
      · simp only [if_neg hend]
        refine h.tookAtOnce hcold (by simp [hlast, hend]) htracks (hclear ?_)
        rcases hk with hk | hk <;> simp [Msg.appliesAtOnce, hk, hlast, hend]

end Pump.Ordered

/-! ## Runs -/

/-- What holds of a node at every moment of a session. -/
structure PumpNode.Ordered (c0 : Nat) (cold : List (Msg β V δ)) (n : PumpNode β V δ) : Prop where
  pump : n.pump.Ordered c0 cold n.cold
  fastLane : ∀ m ∈ n.fast, m.header.lane = .fast

/-- The message an action takes does not move the counter past a waiting blob. -/
def Node.NoBlobOvertaken (n : Node β V δ S) (a : Node.Act) : Prop :=
  ∀ m ∈ n.taken a, m.header.lane = .cold → m.appliesAtOnce = true → n.replica.pending = []

instance (n : Node β V δ S) (a : Node.Act) : Decidable (n.NoBlobOvertaken a) := by
  unfold Node.NoBlobOvertaken
  infer_instance

variable [Inhabited β]

/-- One step of the pump. -/
theorem PumpNode.Ordered.step {c0 : Nat} {cold : List (Msg β V δ)} (hcold : ColdStream c0 cold)
    {n n' : PumpNode β V δ} {out : Option (Msg β V δ)} (hstep : PumpStep n out n')
    (h : n.Ordered c0 cold)
    (hclear : ∀ m ∈ out, m.header.lane = .cold → m.appliesAtOnce = true → n.pump.pending = []) :
    n'.Ordered c0 cold := by
  cases hstep with
  | idle => exact h
  | fast p m c f =>
    have hm : m.header.lane = .fast := h.fastLane m (by simp)
    refine ⟨?_, fun m' hm' => h.fastLane m' (by simp [hm'])⟩
    rw [Pump.handle, if_pos hm]
    exact h.pump.fast hcold hm
  | cold p m c f =>
    have hm := (hcold.mayFollow h.pump.taken).lane
    refine ⟨?_, h.fastLane⟩
    rw [Pump.handle, if_neg (by simp [hm])]
    exact h.pump.dispatchCold hcold (hclear m rfl hm)
  | batch p budget c f => exact ⟨h.pump.batch hcold budget, h.fastLane⟩

omit [Inhabited β] in
/-- A fresh session. -/
theorem PumpNode.Ordered.start (scene : S) (c0 f0 : Nat) {cold fast : List (Msg β V δ)}
    (hfast : ∀ m ∈ fast, m.header.lane = .fast) :
    (Node.start scene c0 f0 cold fast).order.Ordered c0 cold where
  pump := ⟨rfl, Assembly.Tracks.empty, Nat.le_refl _, by simp [Node.order, Node.start,
    Replica.handleNewSession, Replica.pump], by simp [Node.order, Node.start,
    Replica.handleNewSession, Replica.pump], by simp [Node.order, Node.start,
    Replica.handleNewSession, Replica.pump, coldTaken], by simp [Node.order, Node.start,
    Replica.handleNewSession, Replica.pump], History.nil⟩
  fastLane := hfast

/-- A run that never moves the counter past a waiting blob. -/
theorem ordered_run (B : Blender β V δ S) (scene : S) (c0 f0 : Nat) {cold fast : List (Msg β V δ)}
    (hcold : ColdStream c0 cold) (hfast : ∀ m ∈ fast, m.header.lane = .fast)
    {acts : List Node.Act}
    (h : Along (Node.step B) Node.NoBlobOvertaken (Node.start scene c0 f0 cold fast) acts) :
    (Node.run B (Node.start scene c0 f0 cold fast) acts).order.Ordered c0 cold :=
  h.invariant (I := fun n => n.order.Ordered c0 cold)
    (fun n a hn hP => hn.step hcold (n.step_order B a) hP)
    (PumpNode.Ordered.start scene c0 f0 hfast)

omit [Inhabited β] in
theorem effects_split {log before after : List (Ev β V δ)} {m : Msg β V δ}
    (h : log = before ++ Ev.dispatched m :: after) :
    effects log = effects before ++ Ev.dispatched m :: effects after := by
  rw [h, effects_append]
  rfl

/-- In every run in which no message that is applied the moment it is taken is
    taken while a blob waits, every fast message is dispatched behind everything
    it names. -/
theorem dispatched_covered (B : Blender β V δ S) (scene : S) (c0 f0 : Nat)
    (cold fast : List (Msg β V δ)) (hcold : ColdStream c0 cold)
    (hfast : ∀ m ∈ fast, m.header.lane = .fast) (acts : List Node.Act)
    (h : Along (Node.step B) Node.NoBlobOvertaken (Node.start scene c0 f0 cold fast) acts)
    (before after : List (Ev β V δ)) (m : Msg β V δ)
    (hlog : (Node.run B (Node.start scene c0 f0 cold fast) acts).replica.log =
      before ++ Ev.dispatched m :: after)
    (hm : m.header.lane = .fast) : Covered cold m.header.after before := by
  have hinv := ordered_run B scene c0 f0 hcold hfast h
  have hcov : Covered cold m.header.after (effects before) :=
    hinv.pump.history _ _ _ (effects_split hlog) hm
  exact hcov.of_effects

/-! ## A blob that is overtaken -/

namespace Overtaken

/-- A one-chunk blob of datablock `"a"`. -/
def blob : Blob Nat Nat where
  id := .t2 "a" 0
  bytes := [7]
  info := { kind := .t2, uuid := "a" }
  chunkSize := 4
  named := by simp [BlobId.Named, mainfileUuid]
  uuid_eq := rfl
  lane_eq := rfl
  seq_eq := rfl
  chunkSize_pos := by decide

/-- The blob, then the removal of a library link. -/
def cold : List (Msg Nat Nat Nat) :=
  [(blob.chunk 0).withSeq 1, { header := { kind := .unlink, seq := some 2, lib := "lib.blend" } }]

/-- An edit of `"a"` that must follow the blob. -/
def edit : Msg Nat Nat Nat where
  header := { kind := .t1, lane := .fast, seq := some 1, uuid := "a", after := 1 }
  payload := .changes [(.rna "location", 3)]

/-- A session with that cold lane and that edit. -/
def session : Node Nat Nat Nat Unit := Node.start () 0 0 cold [edit]

theorem coldStream : ColdStream 0 cold := by
  have hone : ColdStream 0 [((blob.chunk 0).withSeq 1 : Msg Nat Nat Nat)] := by
    refine .snoc .nil ⟨rfl, rfl, by decide, fun _ => ?_⟩
    exact ⟨blob, [], ⟨rfl, by decide⟩, [], rfl, rfl, by simp⟩
  exact hone.snoc ⟨rfl, rfl, fun _ => rfl, fun h => by cases h⟩

end Overtaken

open Overtaken in
/-- The blob is complete and waits, the unlink is applied at once, and the edit
    goes ahead of the blob. -/
theorem dispatched_covered_counterexample :
    ColdStream 0 cold ∧ (∀ m ∈ [edit], m.header.lane = .fast) ∧
      ¬ ∀ (acts : List Node.Act) (before after : List (Ev Nat Nat Nat)) (m : Msg Nat Nat Nat),
        (Node.run Blender.inert session acts).replica.log = before ++ Ev.dispatched m :: after →
        m.header.lane = .fast → Covered cold m.header.after before := by
  refine ⟨coldStream, by decide, fun hall => ?_⟩
  have hcov := hall [.turn 0 8, .turn 0 8, .turn 64 0]
    [.seen ((blob.chunk 0).withSeq 1), .dispatched ((blob.chunk 0).withSeq 1),
      .seen { header := { kind := .unlink, seq := some 2, lib := "lib.blend" } },
      .dispatched { header := { kind := .unlink, seq := some 2, lib := "lib.blend" } },
      .seen edit] [] edit rfl rfl
  rcases hcov.applied _ (List.mem_cons_self ..) 1 (by decide) rfl (by decide) with
    ⟨e, he, -⟩ | ⟨c', s', hd, hboot, -⟩
  · simp at he
  · simp only [List.mem_cons, Ev.dispatched.injEq, List.not_mem_nil, or_false, reduceCtorEq,
      false_or] at hd
    rcases hd with rfl | rfl <;> cases hboot

open Overtaken in
/-- With a batch before the unlink, the edit follows the blob. -/
theorem dispatched_covered_batch_first :
    ∃ before after, (Node.run Blender.inert session
        [.turn 0 8, .batch 16, .turn 0 8, .turn 64 0]).replica.log =
          before ++ Ev.dispatched edit :: after ∧ Covered cold 1 before :=
  ⟨_, [], rfl, dispatched_covered Blender.inert () 0 0 cold [edit] coldStream (by decide)
    [.turn 0 8, .batch 16, .turn 0 8, .turn 64 0] (by decide)
    [.seen ((blob.chunk 0).withSeq 1), .dispatched ((blob.chunk 0).withSeq 1),
      .applied ⟨((blob.chunk 0 : Msg Nat Nat Nat).withSeq 1).header, [7], some 1⟩,
      .seen { header := { kind := .unlink, seq := some 2, lib := "lib.blend" } },
      .dispatched { header := { kind := .unlink, seq := some 2, lib := "lib.blend" } },
      .seen edit] [] edit rfl rfl⟩

end QCBridge
