import QCBridge.Spec.ApplyOrder

/-!
# Blobs come out as they were cut, and in turn

What waits for a batch is what the host cut, and when it is applied no message that
names its seq has been dispatched.

## Key results

- `Pump.Faithful`: the invariant, and one lemma for each thing a pump does
- `faithful_run`: every run that never moves the counter past a waiting blob
-/

namespace QCBridge

variable {β V δ S : Type}

/-- A blob is applied before every fast message that names its seq or a later one. -/
def InTurn (before : List (Ev β V δ)) : Ev β V δ → Prop
  | .applied e => ∀ m, Ev.dispatched m ∈ before → m.header.lane = .fast →
    ∀ s, e.seq = some s → m.header.after < s
  | _ => True

/-- The waiting blob is one that the lane carried whole, as it was cut. -/
def Completed (cold : List (Msg β V δ)) (e : Pending β δ) : Prop :=
  ∃ taken c rest, cold = taken ++ c :: rest ∧ c.isLastChunk = true ∧ e.seq = c.header.seq ∧
    e.header.kind = c.header.kind ∧ e.header.uuid = c.header.uuid ∧
    e.header.blob.map Chunk.id = c.blobId ∧
    ∀ (b : Blob β δ) mine, IsChunk c b mine.length → Progress taken b mine →
      mine.length + 1 = b.count → e.blob = b.bytes

/-- What is said of the blobs that wait and of those that were applied. -/
structure Pump.Faithful (cold : List (Msg β V δ)) (p : Pump β V δ) : Prop where
  parked : ∀ q ∈ p.parked, q.1 = q.2.header.after
  reached : ∀ m, Ev.dispatched m ∈ p.done → m.header.lane = .fast →
    m.header.after ≤ p.coldApplied
  turns : History InTurn p.done
  waiting : ∀ e ∈ p.pending, Completed cold e
  applied : ∀ e, Ev.applied e ∈ p.done → Completed cold e

/-- The blob's first chunk has the blob's label. -/
private theorem Progress.headD_label {sent mine : List (Msg β V δ)} {b : Blob β δ} {c : Msg β V δ}
    (h : Progress sent b mine) (hc : IsChunk c b mine.length) :
    (mine.headD c).header.kind = c.header.kind ∧ (mine.headD c).header.uuid = c.header.uuid ∧
      (mine.headD c).blobId = c.blobId := by
  cases mine with
  | nil => exact ⟨rfl, rfl, rfl⟩
  | cons first mine =>
    obtain ⟨-, -, hmine, -⟩ := h
    have hfirst : IsChunk first b 0 := by
      refine ⟨?_, b.count_pos⟩
      have := congrArg List.head? hmine
      simpa [List.range_succ_eq_map] using this
    exact ⟨hfirst.kind_eq.trans hc.kind_eq.symm, hfirst.uuid_eq.trans hc.uuid_eq.symm,
      hfirst.blobId_eq.trans hc.blobId_eq.symm⟩

namespace Pump.Faithful

variable {c0 : Nat} {cold rest : List (Msg β V δ)} {p : Pump β V δ}

/-- `_release` of messages whose time has come. -/
theorem release (h : p.Faithful cold) {items : List (Msg β V δ)}
    (hitems : ∀ m ∈ items, m.header.after ≤ p.coldApplied) : (p.release items).Faithful cold where
  parked := h.parked
  reached m hm hlane := by
    rcases List.mem_append.mp hm with hm | hm
    · exact h.reached m hm hlane
    · obtain ⟨m', hm', heq⟩ := List.mem_map.mp hm
      cases heq
      exact hitems _ hm'
  turns := by
    refine h.turns.append fun ev hev more => ?_
    obtain ⟨m, -, rfl⟩ := List.mem_map.mp hev
    trivial
  waiting := h.waiting
  applied e he := by
    rcases List.mem_append.mp he with he | he
    · exact h.applied e he
    · simp at he

/-- `cold_done`. -/
theorem coldDone (h : p.Faithful cold) (seq : Option Nat) : (p.coldDone seq).Faithful cold where
  parked q hq := h.parked q (List.mem_of_mem_filter hq)
  reached m hm hlane :=
    Nat.le_trans (h.reached m hm hlane) (LaneMerger.le_appliedAfter p.coldApplied seq)
  turns := h.turns
  waiting := h.waiting
  applied := h.applied

/-- What `cold_done` hands back may go. -/
theorem due (h : p.Faithful cold) (seq : Option Nat) :
    ∀ m ∈ p.due seq, m.header.after ≤ (p.coldDone seq).coldApplied := by
  intro m hm
  simp only [Pump.due, List.mem_map, List.mem_filter, decide_eq_true_eq] at hm
  obtain ⟨q, ⟨hq, hle⟩, rfl⟩ := hm
  exact h.parked q hq ▸ hle

/-- `_release(_merger.cold_done(seq))`. -/
theorem advance (h : p.Faithful cold) (seq : Option Nat) : (p.advance seq).Faithful cold :=
  (h.coldDone seq).release (h.due seq)

/-- A fast message is dispatched or parked. -/
theorem fast (h : p.Faithful cold) (m : Msg β V δ) : (p.fast m).Faithful cold := by
  simp only [Pump.fast]
  split
  · rename_i hle
    have hdue : ∀ m' ∈ [m], m'.header.after ≤ p.coldApplied := by simpa using hle
    exact h.release hdue
  · refine ⟨fun q hq => ?_, h.reached, h.turns, h.waiting, h.applied⟩
    rcases List.mem_append.mp hq with hq | hq
    · exact h.parked q hq
    · obtain rfl : q = (m.header.after, m) := by simpa using hq
      rfl

/-- The oldest waiting blob is applied: its seq is one the counter has not reached. -/
theorem applyNext (h : p.Faithful cold) (ho : p.Ordered c0 cold rest) {e : Pending β δ}
    {es : List (Pending β δ)} (hpending : p.pending = e :: es) :
    ({ p with pending := es, done := p.done ++ [Ev.applied e] }.coldDone e.seq).Faithful cold := by
  have hpop : Pump.Faithful cold { p with pending := es, done := p.done ++ [Ev.applied e] } := by
    refine ⟨h.parked, fun m hm hlane => ?_, h.turns.snoc fun m hm hlane s hs => ?_,
      fun e' he' => h.waiting e' (by simp [hpending, he']), fun e' he' => ?_⟩
    · exact h.reached m (by simpa using hm) hlane
    · obtain ⟨s', hs', hlt, -⟩ := ho.waiting e (by simp [hpending])
      obtain rfl : s' = s := Option.some.inj (hs'.symm.trans hs)
      exact Nat.lt_of_le_of_lt (h.reached m hm hlane) hlt
    · rcases List.mem_append.mp he' with he' | he'
      · exact h.applied e' he'
      · cases List.mem_singleton.mp he'
        exact h.waiting e (by simp [hpending])
  exact hpop.coldDone e.seq

/-- The batch loop. -/
theorem batchLoop (budget : Nat) (applied : Nat) (due : List (Msg β V δ))
    (h : p.Faithful cold) (ho : p.Ordered c0 cold rest)
    (hdue : ∀ m ∈ due, m.header.after ≤ p.coldApplied) :
    let out := Pump.batchLoop budget p.pending applied p due
    out.1.Faithful cold ∧ ∀ m ∈ out.2, m.header.after ≤ out.1.coldApplied := by
  generalize hes : p.pending = es
  induction es generalizing p applied due with
  | nil => exact ⟨h, hdue⟩
  | cons e es ih =>
    have hnext := h.applyNext ho hes
    have hdue' : ∀ m ∈ due ++ p.due e.seq, m.header.after ≤ (p.coldDone e.seq).coldApplied := by
      intro m hm
      rcases List.mem_append.mp hm with hm | hm
      · exact Nat.le_trans (hdue m hm) (LaneMerger.le_appliedAfter p.coldApplied e.seq)
      · exact h.due e.seq m hm
    simp only [Pump.batchLoop]
    split
    · exact ⟨h, hdue⟩
    · split
      · exact ⟨hnext, hdue'⟩
      · exact ih _ _ hnext (ho.applyNext hes) hdue' rfl

/-- `_apply_pending_batch`. -/
theorem batch (h : p.Faithful cold) (ho : p.Ordered c0 cold rest) (budget : Nat) :
    (p.batch budget).Faithful cold := by
  obtain ⟨hloop, hdue⟩ := h.batchLoop budget 0 [] ho (by simp)
  exact hloop.release hdue

/-- A cold message was dispatched, and what waits came out whole. -/
theorem took (h : p.Faithful cold) {m : Msg β V δ} (hm : m.header.lane = .cold)
    (a : Assembly β δ) {waiting : List (Pending β δ)} (hwaiting : ∀ e ∈ waiting, Completed cold e) :
    Pump.Faithful cold { p with
      assembly := a, pending := waiting, done := p.done ++ [Ev.dispatched m] } where
  parked := h.parked
  reached m' hm' hlane := by
    rcases List.mem_append.mp hm' with hm' | hm'
    · exact h.reached m' hm' hlane
    · cases List.mem_singleton.mp hm'
      rw [hm] at hlane
      cases hlane
  turns := h.turns.snoc trivial
  waiting := hwaiting
  applied e he := by
    rcases List.mem_append.mp he with he | he
    · exact h.applied e he
    · simp at he

variable [Inhabited β]

/-- The last chunk of a blob: what comes out is the blob, whoever says what it was cut
    from. -/
private theorem completed {m : Msg β V δ} (ho : p.Ordered c0 cold (m :: rest)) {b : Blob β δ}
    {mine : List (Msg β V δ)} (hm : IsChunk m b mine.length)
    (hp : Progress (coldTaken p.done) b mine) (hkind : b.id.kind ≠ .libfile)
    (hend : mine.length + 1 = b.count) :
    Completed cold ⟨(mine.headD m).header, b.bytes, m.header.seq⟩ := by
  obtain ⟨hk, hu, hid⟩ := hp.headD_label hm
  refine ⟨coldTaken p.done, m, rest, ho.taken, by simp [hm.isLastChunk_eq hkind, hend], rfl, hk, hu,
    hid, fun b' mine' hm' hp' hend' => ?_⟩
  have hkind' : b'.id.kind ≠ .libfile := hm'.kind_eq ▸ hm.kind_eq ▸ hkind
  have hpos : b.position mine.length = b'.position mine'.length :=
    Option.some.inj (hm.blob_eq.symm.trans hm'.blob_eq)
  have hout := (ho.tracks.feed hm hp hkind).2
  have hout' := (ho.tracks.feed hm' hp' hkind').2
  rw [if_pos hend] at hout
  rw [← hpos, if_pos hend', hout] at hout'
  exact congrArg Prod.snd (Option.some.inj hout')

/-- A cold message is dispatched. -/
theorem dispatchCold {m : Msg β V δ} (h : p.Faithful cold) (ho : p.Ordered c0 cold (m :: rest))
    (hcold : ColdStream c0 cold) : (p.cold m).Faithful cold := by
  have hnext := hcold.mayFollow ho.taken
  have htook := fun a => h.took hnext.lane a h.waiting
  -- no chunk: nothing is completed
  cases hkind : m.header.kind.isChunk with
  | false =>
    simp only [Pump.cold]
    cases hk : m.header.kind
    case t2 => simp [hk, Kind.isChunk] at hkind
    case boot => simp [hk, Kind.isChunk] at hkind
    case libfile => simp [hk, Kind.isChunk] at hkind
    all_goals exact (htook p.assembly).advance m.header.seq
  -- a chunk: of a library, which is not queued, or of a blob
  | true =>
    obtain ⟨b, mine, hm, hprog⟩ := hnext.chunk hkind
    have hblob := hm.blob_eq
    by_cases hlib : b.id.kind = .libfile
    · have hk : m.header.kind = .libfile := hm.kind_eq.trans hlib
      simp only [Pump.cold, hk, hblob]
      split
      · exact (htook _).advance m.header.seq
      · exact htook _
    · have hk : m.header.kind = .t2 ∨ m.header.kind = .boot := by
        have := hm.kind_eq
        cases hb : b.id <;> simp_all [BlobId.kind]
      have hchunk : p.cold m =
          Pump.chunk { p with done := p.done ++ [Ev.dispatched m] } m (b.position mine.length) := by
        rcases hk with hk | hk <;> simp only [Pump.cold, hk, hblob]
      obtain ⟨-, hout⟩ := ho.tracks.feed hm hprog hlib
      simp only [hchunk, Pump.chunk, hout]
      -- the last one: the blob is as it was cut
      by_cases hend : mine.length + 1 = b.count
      · simp only [if_pos hend]
        refine h.took hnext.lane _ fun e he => ?_
        rcases List.mem_append.mp he with he | he
        · split at he
          · cases he
          · exact h.waiting e he
        · obtain rfl := List.mem_singleton.mp he
          exact completed ho hm hprog hlib hend
      · -- any other only moves the merger
        simp only [if_neg hend]
        exact (htook _).advance m.header.seq

/-- One step of the pump. -/
theorem step {n n' : PumpNode β V δ} {out : Option (Msg β V δ)} (hstep : PumpStep n out n')
    (h : n.pump.Faithful cold) (ho : n.Ordered c0 cold) (hcold : ColdStream c0 cold) :
    n'.pump.Faithful cold := by
  cases hstep with
  | idle => exact h
  | fast p m c f =>
    have hm : m.header.lane = .fast := ho.fastLane m (by simp)
    rw [Pump.handle, if_pos hm]
    exact h.fast m
  | cold p m c f =>
    have hm := (hcold.mayFollow ho.pump.taken).lane
    rw [Pump.handle, if_neg (by simp [hm])]
    exact h.dispatchCold ho.pump hcold
  | batch p budget c f => exact h.batch ho.pump budget

end Pump.Faithful

/-- A run that never moves the counter past a waiting blob. -/
theorem faithful_run [Inhabited β] (B : Blender β V δ S) (scene : S) (c0 f0 : Nat)
    {cold fast : List (Msg β V δ)} (hcold : ColdStream c0 cold)
    (hfast : ∀ m ∈ fast, m.header.lane = .fast) {acts : List Node.Act}
    (h : Along (Node.step B) Node.NoBlobOvertaken (Node.start scene c0 f0 cold fast) acts) :
    (Node.run B (Node.start scene c0 f0 cold fast) acts).order.pump.Faithful cold := by
  have hinv := h.invariant
    (I := fun n => n.order.Ordered c0 cold ∧ n.order.pump.Faithful cold)
    (fun n a hn hP => ⟨hn.1.step hcold (n.step_order B a) hP,
      hn.2.step (n.step_order B a) hn.1 hcold⟩)
    ⟨PumpNode.Ordered.start scene c0 f0 hfast, by
      constructor <;> simp [Node.order, Node.start, Replica.handleNewSession, Replica.pump,
        History.nil]⟩
  exact hinv.2

end QCBridge
