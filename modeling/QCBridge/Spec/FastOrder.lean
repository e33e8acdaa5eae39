import QCBridge.Spec.HostStream
import QCBridge.Spec.Standing

/-!
# The fast messages of one datablock

A fast message overtakes the ones that are parked, also those of its own
datablock: it only waits for the cold seq it names itself. As long as no message
of a datablock names an earlier cold seq than one sent before it, what is parked
is never overtaken, and the replica handles the datablock's messages in the order
they were sent.

## Key results

- `Pump.InOrder`: the invariant, and one lemma for each thing a pump does
- `Ledger.KeepsOrder`: what each send must meet
-/

namespace QCBridge

variable {β V δ S : Type}

/-- A tier-1 message or a tombstone of the datablock. -/
def Msg.names (u : Uuid) (m : Msg β V δ) : Bool :=
  (m.header.kind = .t1 || m.header.kind = .tomb) && m.header.uuid = u

theorem Msg.uuid_of_names {u : Uuid} {m : Msg β V δ} (h : m.names u = true) :
    m.header.uuid = u := by
  simp only [Msg.names, Bool.and_eq_true, decide_eq_true_eq] at h
  exact h.2

/-- The messages of a datablock among `l`. -/
def namedIn (u : Uuid) (l : List (Msg β V δ)) : List (Msg β V δ) := l.filter (Msg.names u)

@[simp] theorem namedIn_append (u : Uuid) (l₁ l₂ : List (Msg β V δ)) :
    namedIn u (l₁ ++ l₂) = namedIn u l₁ ++ namedIn u l₂ := List.filter_append ..

@[simp] theorem namedIn_nil (u : Uuid) : namedIn u ([] : List (Msg β V δ)) = [] := rfl

/-- The fast messages dispatched so far, in order. -/
def fastDone (done : List (Ev β V δ)) : List (Msg β V δ) :=
  done.filterMap fun
    | .dispatched m => if m.header.lane = .fast then some m else none
    | _ => none

@[simp] theorem fastDone_append (l₁ l₂ : List (Ev β V δ)) :
    fastDone (l₁ ++ l₂) = fastDone l₁ ++ fastDone l₂ := List.filterMap_append

theorem fastDone_effects (log : List (Ev β V δ)) : fastDone (effects log) = fastDone log := by
  simp only [fastDone, effects, List.filterMap_filter]
  congr 1
  funext ev
  cases ev <;> rfl

theorem fastDone_dispatched {items : List (Msg β V δ)} (h : ∀ m ∈ items, m.header.lane = .fast) :
    fastDone (items.map Ev.dispatched) = items := by
  induction items with
  | nil => rfl
  | cons m items ih =>
    have hm := h m (by simp)
    rw [List.map_cons, fastDone, List.filterMap_cons_some (b := m) (by simp [hm])]
    exact congrArg (m :: ·) (ih fun m' hm' => h m' (by simp [hm']))

/-- Splitting a list in order at a bound, and putting it together again. -/
private theorem filter_le_append_filter_lt {α : Type} (f : α → Nat) (a : Nat) {l : List α}
    (h : l.Pairwise fun x y => f x ≤ f y) :
    l.filter (fun x => f x ≤ a) ++ l.filter (fun x => a < f x) = l := by
  induction l with
  | nil => rfl
  | cons x l ih =>
    rw [List.pairwise_cons] at h
    by_cases hx : f x ≤ a
    · rw [List.filter_cons_of_pos (by simpa using hx), List.filter_cons_of_neg (by simpa using hx),
        List.cons_append, ih h.2]
    · have hall : ∀ y ∈ x :: l, a < f y := by
        intro y hy
        rcases List.mem_cons.mp hy with rfl | hy
        · omega
        · have := h.1 y hy
          omega
      rw [List.filter_eq_nil_iff.mpr (by simpa using hall), List.nil_append,
        List.filter_eq_self.mpr (by simpa using hall)]

/-! ## The replica -/

/-- The messages of `u` are handled in the order of `sent`: those dispatched, then
    those due, then those parked, then those still coming. -/
structure Pump.InOrder (u : Uuid) (sent due coming : List (Msg β V δ)) (p : Pump β V δ) :
    Prop where
  order : namedIn u sent =
    namedIn u (fastDone p.done) ++ namedIn u due ++ namedIn u (p.parked.map Prod.snd) ++
      namedIn u coming
  sorted : (namedIn u (p.parked.map Prod.snd) ++ namedIn u coming).Pairwise fun m m' =>
    m.header.after ≤ m'.header.after
  parked : ∀ q ∈ p.parked, q.1 = q.2.header.after ∧ p.coldApplied < q.1 ∧ q.2.header.lane = .fast
  due : ∀ m ∈ due, m.header.lane = .fast
  others : ∀ m, Ev.dispatched m ∈ p.done → m.names u = true → m.header.lane = .fast

namespace Pump.InOrder

variable {u : Uuid} {sent due coming : List (Msg β V δ)} {p : Pump β V δ}

/-- `cold_done`: the messages of `u` that come due are the first ones parked. -/
theorem coldDone (h : p.InOrder u sent due coming) (seq : Option Nat) :
    (p.coldDone seq).InOrder u sent (due ++ p.due seq) coming := by
  have hparked : ∀ q ∈ p.parked, q.1 = q.2.header.after := fun q hq => (h.parked q hq).1
  have hdue : p.due seq =
      (p.parked.map Prod.snd).filter fun m =>
        m.header.after ≤ LaneMerger.appliedAfter p.coldApplied seq := by
    rw [List.filter_map]
    refine congrArg (List.map Prod.snd) (List.filter_congr fun q hq => ?_)
    simp [Pump.coldDone, hparked q hq]
  have hleft : (p.coldDone seq).parked.map Prod.snd =
      (p.parked.map Prod.snd).filter fun m =>
        LaneMerger.appliedAfter p.coldApplied seq < m.header.after := by
    rw [List.filter_map]
    refine congrArg (List.map Prod.snd) (List.filter_congr fun q hq => ?_)
    simp [hparked q hq]
  have hcomm : ∀ (f : Msg β V δ → Bool) (l : List (Msg β V δ)),
      namedIn u (l.filter f) = (namedIn u l).filter f := by
    intro f l
    simp only [namedIn, List.filter_filter, Bool.and_comm]
  have hsplit := filter_le_append_filter_lt (fun m : Msg β V δ => m.header.after)
    (LaneMerger.appliedAfter p.coldApplied seq) (List.pairwise_append.mp h.sorted).1
  refine ⟨?_, ?_, ?_, ?_, h.others⟩
  · -- order: what comes due goes before what stays parked
    have hdone : (p.coldDone seq).done = p.done := rfl
    rw [h.order, hleft, hdone, namedIn_append, hdue, hcomm, hcomm]
    conv_lhs => rw [← hsplit]
    simp only [List.append_assoc]
  · -- sorted: what stays waits for more than what came due
    rw [hleft, hcomm]
    exact h.sorted.sublist (List.filter_sublist.append (List.Sublist.refl _))
  · -- parked: it waits for more than the new count
    intro q hq
    obtain ⟨hmem, hlt⟩ := List.mem_filter.mp hq
    obtain ⟨hafter, -, hlane⟩ := h.parked q hmem
    exact ⟨hafter, of_decide_eq_true hlt, hlane⟩
  · -- due: what came due was parked, on the fast lane
    intro m hm
    rcases List.mem_append.mp hm with hm | hm
    · exact h.due m hm
    · rw [hdue] at hm
      obtain ⟨q, hq, rfl⟩ := List.mem_map.mp (List.mem_of_mem_filter hm)
      exact (h.parked q hq).2.2

/-- `_release` of everything due. -/
theorem release (h : p.InOrder u sent due coming) : (p.release due).InOrder u sent [] coming := by
  refine ⟨?_, h.sorted, h.parked, by simp, ?_⟩
  · rw [h.order]
    simp [Pump.release, fastDone_dispatched h.due]
  · intro m hm hnames
    rcases List.mem_append.mp hm with hm | hm
    · exact h.others m hm hnames
    · obtain ⟨m', hm', heq⟩ := List.mem_map.mp hm
      cases heq
      exact h.due _ hm'

/-- `_release(_merger.cold_done(seq))`. -/
theorem advance (h : p.InOrder u sent [] coming) (seq : Option Nat) :
    (p.advance seq).InOrder u sent [] coming :=
  (h.coldDone seq).release

/-- What happens on the cold lane or to blobs does not matter. -/
theorem of_eq (h : p.InOrder u sent due coming) {p' : Pump β V δ}
    (hdone : fastDone p'.done = fastDone p.done) (hparked : p'.parked = p.parked)
    (happlied : p'.coldApplied = p.coldApplied)
    (hnew : ∀ m, Ev.dispatched m ∈ p'.done → m.names u = true → Ev.dispatched m ∈ p.done) :
    p'.InOrder u sent due coming :=
  ⟨by rw [hdone, hparked]; exact h.order, hparked ▸ h.sorted, by
    rw [hparked, happlied]; exact h.parked, h.due,
    fun m hm hnames => h.others m (hnew m hm hnames) hnames⟩

/-- A fast message is taken: no message of its datablock that was sent before it is
    parked if it is dispatched at once. -/
theorem fast {m : Msg β V δ} (h : p.InOrder u sent [] (m :: coming)) (hm : m.header.lane = .fast) :
    (p.fast m).InOrder u sent [] coming := by
  have horder := h.order
  have hsorted := h.sorted
  have hsplit : namedIn u (m :: coming) = namedIn u [m] ++ namedIn u coming :=
    namedIn_append u [m] coming
  rw [hsplit] at horder hsorted
  simp only [Pump.fast]
  split
  · rename_i hle
    -- a parked message of the same datablock would name no later seq than this one
    have hnone : m.names u = true → namedIn u (p.parked.map Prod.snd) = [] := by
      intro hnames
      refine List.eq_nil_iff_forall_not_mem.mpr fun m' hm' => ?_
      have hsingle : namedIn u [m] = [m] := by simp [namedIn, hnames]
      rw [hsingle] at hsorted
      have hafter := (List.pairwise_append.mp hsorted).2.2 m' hm' m (by simp)
      obtain ⟨q, hq, rfl⟩ := List.mem_map.mp (List.mem_of_mem_filter hm')
      obtain ⟨heq, hlt, -⟩ := h.parked q hq
      omega
    refine ⟨?_, ?_, h.parked, by simp, ?_⟩
    · rw [horder, fastDone_append]
      have hone : fastDone [Ev.dispatched m] = [m] := by simp [fastDone, hm]
      rw [hone, namedIn_append]
      cases hnames : m.names u with
      | true => rw [hnone hnames, namedIn_nil]; simp only [List.append_assoc, List.nil_append]
      | false =>
        have hnot : namedIn u [m] = [] := by simp [namedIn, hnames]
        rw [hnot]
        simp only [List.append_nil, List.nil_append]
    · exact hsorted.sublist ((List.Sublist.refl _).append (List.sublist_append_right _ _))
    · intro m' hm' hnames
      rcases List.mem_append.mp hm' with hm' | hm'
      · exact h.others m' hm' hnames
      · cases List.mem_singleton.mp hm'
        exact hm
  · rename_i hgt
    refine ⟨?_, ?_, ?_, by simp, h.others⟩
    · rw [horder]
      simp [List.append_assoc]
    · simpa [List.append_assoc] using hsorted
    · intro q hq
      rcases List.mem_append.mp hq with hq | hq
      · exact h.parked q hq
      · obtain rfl : q = (m.header.after, m) := by simpa using hq
        exact ⟨rfl, Nat.lt_of_not_le hgt, hm⟩

/-- The oldest waiting blob is applied. -/
theorem applyNext (h : p.InOrder u sent due coming) (e : Pending β δ) (es : List (Pending β δ)) :
    ({ p with pending := es, done := p.done ++ [Ev.applied e] }.coldDone e.seq).InOrder u sent
      (due ++ p.due e.seq) coming := by
  have hpop : Pump.InOrder u sent due coming
      { p with pending := es, done := p.done ++ [Ev.applied e] } :=
    h.of_eq (by simp [fastDone]) rfl rfl (by simp +contextual)
  exact hpop.coldDone e.seq

/-- The batch loop. -/
theorem batchLoop (h : p.InOrder u sent due coming) (budget : Nat) (es : List (Pending β δ))
    (applied : Nat) :
    (Pump.batchLoop budget es applied p due).1.InOrder u sent
      (Pump.batchLoop budget es applied p due).2 coming := by
  induction es generalizing p applied due with
  | nil => exact h
  | cons e es ih =>
    simp only [Pump.batchLoop]
    split
    · exact h
    · split
      · exact h.applyNext e es
      · exact ih (h.applyNext e es) _

/-- `_apply_pending_batch`. -/
theorem batch (h : p.InOrder u sent [] coming) (budget : Nat) :
    (p.batch budget).InOrder u sent [] coming :=
  (h.batchLoop budget p.pending 0).release

variable [Inhabited β]

/-- A cold message is taken. -/
theorem cold (h : p.InOrder u sent [] coming) {m : Msg β V δ} (hm : m.header.lane = .cold)
    (hnames : m.names u = false) : (p.cold m).InOrder u sent [] coming := by
  have hnew : ∀ m', Ev.dispatched m' ∈ p.done ++ [Ev.dispatched m] → m'.names u = true →
      Ev.dispatched m' ∈ p.done := by
    intro m' hm' hnames'
    rcases List.mem_append.mp hm' with hm' | hm'
    · exact hm'
    · cases List.mem_singleton.mp hm'
      rw [hnames] at hnames'
      cases hnames'
  have hdone : fastDone (p.done ++ [Ev.dispatched m]) = fastDone p.done := by
    simp [fastDone, hm]
  have hstep : ∀ (a : Assembly β δ) (pending : List (Pending β δ)),
      Pump.InOrder u sent [] coming { p with
        assembly := a, pending := pending, done := p.done ++ [Ev.dispatched m] } :=
    fun _ _ => h.of_eq hdone rfl rfl hnew
  simp only [Pump.cold, Pump.chunk]
  repeat' split
  all_goals first
    | exact hstep _ _
    | exact (hstep _ _).advance _

/-- One step of the pump. -/
theorem step {n n' : PumpNode β V δ} {out : Option (Msg β V δ)} (hstep : PumpStep n out n')
    (hcold : ∀ m ∈ n.cold, m.header.lane = .cold ∧ m.names u = false)
    (hfast : ∀ m ∈ n.fast, m.header.lane = .fast) (h : n.pump.InOrder u sent [] n.fast) :
    n'.pump.InOrder u sent [] n'.fast := by
  cases hstep with
  | idle => exact h
  | fast p m c f =>
    have hm : m.header.lane = .fast := hfast m (by simp)
    rw [Pump.handle, if_pos hm]
    exact h.fast hm
  | cold p m c f =>
    obtain ⟨hm, hnames⟩ := hcold m (by simp)
    rw [Pump.handle, if_neg (by simp [hm])]
    exact h.cold hm hnames
  | batch p budget c f => exact h.batch budget

end Pump.InOrder

/-- The messages of a datablock that are parked or on their way. -/
def Node.underway (u : Uuid) (n : Node β V δ S) : List (Msg β V δ) :=
  namedIn u (n.order.pump.parked.map Prod.snd) ++ namedIn u n.order.fast

/-- A run of the replica over lanes on which no message of `u` names an earlier cold
    seq than one before it. -/
private theorem inOrder_run [Inhabited β] (B : Blender β V δ S) (scene : S) (c0 f0 : Nat) (u : Uuid)
    {cold fast : List (Msg β V δ)}
    (hcold : ∀ m ∈ cold, m.header.lane = .cold ∧ m.names u = false)
    (hfast : ∀ m ∈ fast, m.header.lane = .fast)
    (hsorted : (namedIn u fast).Pairwise fun m m' => m.header.after ≤ m'.header.after)
    (acts : List Node.Act) :
    let n := Node.run B (Node.start scene c0 f0 cold fast) acts
    n.order.pump.InOrder u fast [] n.order.fast := by
  have hinv := foldl_invariant (f := Node.step B)
    (I := fun n => (∀ m ∈ n.order.cold, m.header.lane = .cold ∧ m.names u = false) ∧
      (∀ m ∈ n.order.fast, m.header.lane = .fast) ∧ n.order.pump.InOrder u fast [] n.order.fast)
    (fun n a ⟨hc, hf, h⟩ => by
      have hstep := n.step_order B a
      obtain ⟨hsubc, hsubf⟩ := hstep.queues
      exact ⟨fun m hm => hc m (hsubc hm), fun m hm => hf m (hsubf hm), h.step hstep hc hf⟩)
    (s := Node.start scene c0 f0 cold fast) acts
    ⟨hcold, hfast, ⟨by simp [Node.order, Node.start, Replica.handleNewSession, Replica.pump,
        fastDone, namedIn],
      by simpa [Node.order, Node.start, Replica.handleNewSession, Replica.pump, namedIn]
        using hsorted,
      by simp [Node.order, Node.start, Replica.handleNewSession, Replica.pump], by simp,
      by simp [Node.order, Node.start, Replica.handleNewSession, Replica.pump]⟩⟩
  exact hinv.2.2

/-! ## The host -/

namespace Ledger

/-- Whether a message of `u` that points at `targets` would wait for the cold seq `a`:
    the last bootstrap, the last link or the last blob of one of them is no earlier. -/
def waitsFor (l : Ledger β V δ) (u : Uuid) (targets : List Uuid) (a : Nat) : Prop :=
  a ≤ l.bootLastSeq ∨ a ≤ l.linkSeq ∨ ∃ t ∈ u :: targets, a ≤ l.uuidColdSeq.getD t 0

/-- Nothing that a message of the same datablock sent before had to wait for comes
    after everything that this one waits for. -/
def KeepsOrder (l : Ledger β V δ) : LedgerAct β V δ → Prop
  | .t1 u _ targets _ _ => ∀ m ∈ l.fastLane, m.names u = true → l.waitsFor u targets m.header.after
  | .tomb u => ∀ m ∈ l.fastLane, m.names u = true → l.waitsFor u [] m.header.after
  | _ => True

instance (l : Ledger β V δ) (u : Uuid) (targets : List Uuid) (a : Nat) :
    Decidable (l.waitsFor u targets a) := by
  unfold waitsFor
  infer_instance

instance (l : Ledger β V δ) (a : LedgerAct β V δ) : Decidable (l.KeepsOrder a) := by
  unfold KeepsOrder
  split <;> infer_instance

theorem waitsFor_iff (l : Ledger β V δ) (u : Uuid) (targets : List Uuid) (a : Nat) :
    l.waitsFor u targets a ↔ a ≤ l.afterAll u targets := by
  -- the fold is a maximum, by induction on the targets
  have hfold : ∀ (ts : List Uuid) (b : Nat),
      a ≤ ts.foldl (fun after t => max after (l.uuidColdSeq.getD t 0)) b ↔
        a ≤ b ∨ ∃ t ∈ ts, a ≤ l.uuidColdSeq.getD t 0 := by
    intro ts
    induction ts with
    | nil => simp
    | cons t ts ih =>
      intro b
      rw [List.foldl_cons, ih, le_max_iff]
      simp [or_assoc]
  rw [waitsFor, afterAll, hfold, afterFor, le_max_iff, le_max_iff]
  simp only [List.mem_cons, exists_eq_or_imp]
  -- the same four cases on both sides
  constructor
  · rintro (h | h | h | h)
    · exact .inl (.inr (.inl h))
    · exact .inl (.inr (.inr h))
    · exact .inl (.inl h)
    · exact .inr h
  · rintro ((h | h | h) | h)
    · exact .inr (.inr (.inl h))
    · exact .inl h
    · exact .inr (.inl h)
    · exact .inr (.inr (.inr h))

/-- What a step puts on the fast lane. -/
def fastSent (l : Ledger β V δ) : LedgerAct β V δ → List (Msg β V δ)
  | .t1 u changes targets full sd =>
    [(t1Msg u changes (l.afterAll u targets) full sd).withSeq (l.seqFast + 1)]
  | .tomb u => [(tombMsg u (l.afterFor u)).withSeq (l.seqFast + 1)]
  | .endFast =>
    [({ header := { kind := .resyncEnd, lane := .fast } } : Msg β V δ).withSeq (l.seqFast + 1)]
  | _ => []

theorem fastLane_step (l : Ledger β V δ) (a : LedgerAct β V δ) :
    (l.step a).fastLane = l.fastLane ++ l.fastSent a := by
  cases a with
  | sendBoot =>
    simp only [step, sendBoot, fastSent, List.append_nil]
    split <;> simp [fastLane, pushCold, finish]
  | sendT2 u =>
    simp only [step, sendT2, fastSent, List.append_nil]
    split <;> simp [fastLane, pushCold, finish]
  | sendLib =>
    simp only [step, sendLib, fastSent, List.append_nil]
    split <;> simp [fastLane, pushCold, finish]
  | t1 u changes targets full sd => exact l.fastLane_pushLogged _
  | tomb u => exact l.fastLane_pushLogged _
  | endFast => exact l.fastLane_pushFast _
  | _ => simp [step, fastSent, fastLane, pushCold]

/-- The messages of a datablock name no earlier cold seq than those before them. -/
def Sorted (u : Uuid) (l : Ledger β V δ) : Prop :=
  (namedIn u l.fastLane).Pairwise fun m m' => m.header.after ≤ m'.header.after

/-- One step. -/
theorem Sorted.step {u : Uuid} {l : Ledger β V δ} {a : LedgerAct β V δ} (h : l.Sorted u)
    (ha : l.KeepsOrder a) : (l.step a).Sorted u := by
  -- a new message waits for at least what the ones before it wait for
  have hnew : ∀ m ∈ namedIn u l.fastLane, ∀ m' ∈ namedIn u (l.fastSent a),
      m.header.after ≤ m'.header.after := by
    intro m hm m' hm'
    obtain ⟨hmem, hnames⟩ := List.mem_filter.mp hm
    obtain ⟨hmem', hnames'⟩ := List.mem_filter.mp hm'
    cases a with
    | t1 u' changes targets full sd =>
      obtain rfl := List.mem_singleton.mp hmem'
      obtain rfl : u' = u := Msg.uuid_of_names hnames'
      exact (l.waitsFor_iff u' targets _).mp (ha m hmem hnames)
    | tomb u' =>
      obtain rfl := List.mem_singleton.mp hmem'
      obtain rfl : u' = u := Msg.uuid_of_names hnames'
      exact (l.waitsFor_iff u' [] _).mp (ha m hmem hnames)
    | endFast =>
      obtain rfl := List.mem_singleton.mp hmem'
      simp [Msg.names] at hnames'
    | _ => cases hmem'
  -- one step sends one fast message at most
  have hone : (namedIn u (l.fastSent a)).Pairwise fun m m' => m.header.after ≤ m'.header.after := by
    have hlen : (l.fastSent a).length ≤ 1 := by
      cases a <;> simp [fastSent]
    have hlen' := Nat.le_trans (List.length_filter_le (Msg.names u) (l.fastSent a)) hlen
    match hl : namedIn u (l.fastSent a) with
    | [] => exact List.Pairwise.nil
    | [m] => exact List.pairwise_singleton _ _
    | m :: m' :: rest =>
      rw [← namedIn, hl] at hlen'
      simp at hlen'
  rw [Sorted, fastLane_step, namedIn_append]
  exact List.pairwise_append.mpr ⟨h, hone, hnew⟩

/-- A run whose messages keep the order. -/
private theorem sorted_run (u : Uuid) (c0 f0 : Nat) {acts : List (LedgerAct β V δ)}
    (h : Along step KeepsOrder (Ledger.start c0 f0 : Ledger β V δ) acts) :
    ((Ledger.start c0 f0).run acts).Sorted u :=
  h.invariant (I := Sorted u) (fun _ _ hl ha => hl.step ha) List.Pairwise.nil

end Ledger

/-! ## What is left standing -/

/-- The last value that messages wrote to a path. -/
def lastSent (p : Path) (msgs : List (Msg β V δ)) : Option V :=
  Content.writes (fun _ => none) (msgs.flatMap Msg.changes) p

private theorem Content.writes_append (c : Content V) (cs cs' : List (Path × V)) :
    c.writes (cs ++ cs') = (c.writes cs).writes cs' := List.foldl_append

/-- What was written stands, whatever was there before. -/
theorem Content.writes_of_some (c : Content V) (cs : List (Path × V)) {p : Path} {v : V}
    (h : Content.writes (fun _ => none) cs p = some v) : c.writes cs p = some v :=
  Content.writes_mono (fun _ _ h => by cases h) cs p v h

/-- What was written later stands. -/
private theorem lastSent_append (p : Path) (msgs msgs' : List (Msg β V δ)) {v : V}
    (h : lastSent p msgs' = some v) : lastSent p (msgs ++ msgs') = some v := by
  rw [lastSent, List.flatMap_append, Content.writes_append]
  exact Content.writes_of_some _ _ h

/-- Without a blob that brings the datablock, only its fast messages count. -/
theorem Trail.foldl_step (u : Uuid) (t : Trail V) {log : List (Ev (Entry V) V δ)}
    (hlane : ∀ m, Ev.dispatched m ∈ log → m.names u = true → m.header.lane = .fast)
    (hbrings : ∀ e, Ev.applied e ∈ log → e.brings u = false) :
    log.foldl (Trail.step u) t = none ∨ ∃ f, t = some f ∧ log.foldl (Trail.step u) t =
      some (f.writes ((namedIn u (fastDone log)).flatMap Msg.changes)) := by
  -- the induction is on the log
  induction log generalizing t with
  | nil =>
    cases t with
    | none => exact .inl rfl
    | some f => exact .inr ⟨f, rfl, rfl⟩
  | cons ev log ih =>
    have ih := fun t => ih t (fun m hm => hlane m (List.mem_cons_of_mem _ hm))
      (fun e he => hbrings e (List.mem_cons_of_mem _ he))
    have hcons : fastDone (ev :: log) = fastDone [ev] ++ fastDone log :=
      fastDone_append [ev] log
    rw [List.foldl_cons, hcons, namedIn_append, List.flatMap_append]
    -- an event that names nothing and brings nothing is skipped
    have hskip : Trail.step u t ev = t → namedIn u (fastDone [ev]) = [] →
        log.foldl (Trail.step u) (Trail.step u t ev) = none ∨ ∃ f, t = some f ∧
          log.foldl (Trail.step u) (Trail.step u t ev) = some (f.writes
            ((namedIn u (fastDone [ev])).flatMap Msg.changes ++
              (namedIn u (fastDone log)).flatMap Msg.changes)) := by
      intro hstep hnone
      rw [hstep, hnone]
      exact ih t
    cases ev with
    -- nothing is dispatched or applied here
    | seen m => exact hskip rfl rfl
    | ended h b => exact hskip rfl rfl
    -- a blob that does not bring the datablock
    | applied e =>
      refine hskip ?_ rfl
      simp [Trail.step, hbrings e (by simp)]
    | dispatched m =>
      -- a message of another datablock
      cases hnames : m.names u with
      | false =>
        refine hskip ?_ ?_
        · simp only [Trail.step, Trail.message]
          split
          · rename_i hu
            cases hk : m.header.kind <;> simp_all [Msg.names]
          · rfl
        · simp only [fastDone, List.filterMap_cons, List.filterMap_nil]
          split <;> simp_all [namedIn]
      -- one of this datablock: its values, or its tombstone
      | true =>
        have hfast := hlane m (by simp) hnames
        have hone : namedIn u (fastDone [Ev.dispatched m]) = [m] := by
          simp [fastDone, hfast, namedIn, hnames]
        rw [hone]
        simp only [Msg.names, Bool.and_eq_true, Bool.or_eq_true, decide_eq_true_eq] at hnames
        obtain ⟨hk | hk, hu⟩ := hnames
        · -- the values are written behind what is known
          have hstep : Trail.step u t (.dispatched m) = t.map (·.writes m.changes) := by
            simp [Trail.step, Trail.message, hu, hk]
          rw [hstep]
          cases t with
          | none =>
            rcases ih none with hnone | ⟨f, hf, -⟩
            · exact .inl hnone
            · cases hf
          | some f =>
            rcases ih (some (f.writes m.changes)) with hnone | ⟨f', hf', hrest⟩
            · exact .inl hnone
            · cases hf'
              refine .inr ⟨f, rfl, ?_⟩
              rw [Content.writes_append]
              simpa using hrest
        · -- after a tombstone nothing is known any more
          have hstep : Trail.step u t (.dispatched m) = none := by
            simp [Trail.step, Trail.message, hu, hk]
          rw [hstep]
          rcases ih none with hnone | ⟨f, hf, -⟩
          · exact .inl hnone
          · cases hf

/-! ## Runs -/

/-- The fast messages of `u` are handled in the order they were sent, and when none is
    under way the last value sent for a path stands, unless a blob that brought the
    datablock was applied since. -/
structure FastInOrder (u : Uuid) (l : Ledger (Entry V) V δ)
    (n : Node (Entry V) V δ (Scene V)) : Prop where
  handled : namedIn u (fastDone n.replica.log) <+: namedIn u l.fastLane
  complete : n.underway u = [] → namedIn u (fastDone n.replica.log) = namedIn u l.fastLane
  stands : n.underway u = [] → ∀ before after, n.replica.log = before ++ after →
    (∀ e, Ev.applied e ∈ after → e.brings u = false) →
    ∀ p, lastSent p (namedIn u (fastDone after)) ≠ none →
      ∀ v, lastSent p (namedIn u l.fastLane) = some v →
        ∀ c, n.replica.data.scene u = some c → c p = some v

/-- What the order of the log says about the scene. -/
private theorem FastInOrder.of_order {u : Uuid} {l : Ledger (Entry V) V δ}
    {n : Node (Entry V) V δ (Scene V)}
    (horder : n.order.pump.InOrder u l.fastLane [] n.order.fast)
    (hstands : Stands [] n.replica.data n.replica.log) : FastInOrder u l n := by
  have hdone : fastDone n.order.pump.done = fastDone n.replica.log := fastDone_effects _
  have hsent := horder.order
  rw [hdone, namedIn_nil, List.append_nil, List.append_assoc] at hsent
  have hcomplete : n.underway u = [] →
      namedIn u (fastDone n.replica.log) = namedIn u l.fastLane := by
    intro hnone
    rw [Node.underway] at hnone
    rw [hsent, hnone, List.append_nil]
  refine ⟨⟨_, hsent.symm⟩, hcomplete, fun hnone before after hlog hbrings p hp v hv c hc => ?_⟩
  obtain ⟨v', hv'⟩ := Option.ne_none_iff_exists'.mp hp
  -- what was handled last was sent last
  have hlast : lastSent p (namedIn u l.fastLane) = some v' := by
    rw [← hcomplete hnone, hlog, fastDone_append, namedIn_append]
    exact lastSent_append p _ _ hv'
  obtain rfl : v' = v := Option.some.inj (hlast.symm.trans hv)
  have hlane : ∀ m, Ev.dispatched m ∈ after → m.names u = true → m.header.lane = .fast := by
    intro m hm hnames
    refine horder.others m ?_ hnames
    refine List.mem_filter.mpr ⟨?_, rfl⟩
    rw [hlog]
    exact List.mem_append_right _ hm
  have hholds := (hstands u).1
  rw [hlog, Trail.ofLog_append] at hholds
  rcases Trail.foldl_step u (Trail.ofLog u before) hlane hbrings with hgone | ⟨f, -, hshown⟩
  · rw [hgone] at hholds
    exact absurd (hc.symm.trans hholds) (by simp)
  · rw [hshown] at hholds
    exact hholds c hc p v' (Content.writes_of_some f _ hv')

namespace Camera

/-- A digest that says it all. -/
abbrev Digest := List (Entry String) × Option String

/-- Digests of blobs; the scene's structure does not matter here. -/
def digests : Digests (Entry String) String Digest where
  blob data pcache := (data, pcache)
  scene _ := ([], none)

/-- The scene `"s"`, seen through a camera. -/
def scene (camera : String) : Datablock (Entry String) String where
  kind := .scene
  snapshot := .ofList [(.setter "camera", camera)]
  blend := none

/-- A camera. -/
def camera (u : Uuid) : Datablock (Entry String) String where
  snapshot := Dict.empty
  blend := some [(u, Dict.empty)]

/-- The scene and camera `"a"`. -/
def file : World (Entry String) String where
  dbs := .ofList [("s", scene "a"), ("a", camera "a")]
  stamps := by decide
  mainfile := [("s", (scene "a").snapshot), ("a", Dict.empty)]

/-- Cameras `"b"` and `"c"` are there too, and the scene is seen through one of them. -/
def seen (through : String) (now : Int) : World (Entry String) String where
  dbs := ⟨[("s", scene through), ("a", camera "a"), ("b", camera "b"), ("c", camera "c")],
    by simp⟩
  stamps := by simp [Dict.keys, mainfileUuid]
  target p v := if p = .setter "camera" ∧ (v = "a" ∨ v = "b" ∨ v = "c") then some v else none
  stamps_target := by
    intro p v t h
    split at h
    · rename_i hv
      cases h
      rcases hv.2 with rfl | rfl | rfl <;> simp [Dict.keys]
    · cases h
  now := now

/-- The bootstrap leaves; the scene is seen through `"b"`, then through `second`. -/
def calls (second : String) :
    List (World (Entry String) String × Host.Call (Entry String) Digest) :=
  [(file, .bootstrap), (file, .tick),
   (seen "b" 0, .depsgraph [{ uuid := "s" }]), (seen "b" 80, .tick),
   (seen second 80, .depsgraph [{ uuid := "s" }]), (seen second 160, .tick)]

/-- The host after that. -/
def host (second : String) : Host (Entry String) String Digest :=
  (Host.start file 0 0).run digests (calls second)

/-- The bootstrap is applied; both deltas are there before the blobs of the cameras. -/
def acts : List Node.Act :=
  [.turn 0 8, .batch 16, .turn 64 0, .turn 64 0, .turn 0 8, .batch 16, .turn 0 8, .batch 16]

/-- The replica after that. -/
def node (second : String) : Node (Entry String) String Digest (Scene String) :=
  let l := (host second).ledger
  Node.run (.keyed String Digest) (Node.start (fun _ => none) 0 0 l.coldLane l.fastLane) acts

end Camera

end QCBridge
