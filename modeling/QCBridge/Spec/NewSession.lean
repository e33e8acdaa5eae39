import QCBridge.Spec.ApplyOrder
import QCBridge.Spec.Gapless

/-!
# The hello of a new epoch

The hello comes on the control lane, which nothing orders against the other two. The tick
that handles it primes the trackers with the counters it reports and starts the merger and
the reassembler afresh, but leaves the inboxes, the lanes and the completed blobs as they
are. When it falls exactly between the two sessions, and no blob waits, the new session goes
on as if the old one had not been.

## Key results

- `Pump.Keeping`: no fast message is lost
- `PumpNode.Partway`: an old session with the new one behind it on the lanes
- `Node.newSession_resumes`: what the new session owes
-/

namespace QCBridge

variable {β V δ S : Type}

/-- `_handle_new_session` between two actions of the apply loop: what waits in the inboxes
    and on the lanes, and the completed blobs, are left alone. -/
def Node.newSession (seqs : Nat × Nat) (n : Node β V δ S) : Node β V δ S :=
  { n with replica := n.replica.handleNewSession seqs }

/-- What is still to be taken is the new session, all of it and nothing else, and no
    completed blob waits. -/
structure Node.Between (cold fast : List (Msg β V δ)) (n : Node β V δ S) : Prop where
  cold : n.order.cold = cold
  fast : n.order.fast = fast
  idle : n.replica.pending = []

/-- What a session owes that began at `hello`: no gap and no request but for an unknown
    datablock, no fast message dropped, none dispatched before what it names. -/
structure Node.Resumed (oldCold cold fast : List (Msg β V δ)) (hello n : Node β V δ S) : Prop where
  unbroken : n.replica.merger.gaps = 0 ∧ n.replica.merger.gapLane = .none
  unasked : n.replica.data.stats.wantResync = true → n.replica.data.unknownGap = true
  kept : ∀ m ∈ fast, m ∈ n.order.fast ∨ (m.header.after, m) ∈ n.replica.merger.parked ∨
    Ev.dispatched m ∈ n.replica.log
  inTime : ∀ m before after,
    n.replica.log = hello.replica.log ++ (before ++ Ev.dispatched m :: after) →
    m.header.lane = .fast →
    Covered (oldCold ++ cold) m.header.after (hello.replica.log ++ before)

/-! ## No fast message is lost -/

/-- The message is parked behind what it names, or was dispatched. -/
def Pump.Keeping (m : Msg β V δ) (p : Pump β V δ) : Prop :=
  (m.header.after, m) ∈ p.parked ∨ Ev.dispatched m ∈ p.done

namespace Pump.Keeping

variable {m : Msg β V δ} {p : Pump β V δ}

/-- What is released was dispatched. -/
theorem release {items : List (Msg β V δ)} (h : p.Keeping m ∨ m ∈ items) :
    (p.release items).Keeping m := by
  rcases h with (hpark | hdone) | hitem
  · exact .inl hpark
  · exact .inr (List.mem_append_left _ hdone)
  · exact .inr (List.mem_append_right _ (List.mem_map_of_mem hitem))

/-- A message that is no longer parked has come due. -/
theorem coldDone (h : p.Keeping m) (seq : Option Nat) :
    (p.coldDone seq).Keeping m ∨ m ∈ p.due seq := by
  rcases h with hpark | hdone
  · by_cases hle : m.header.after ≤ (p.coldDone seq).coldApplied
    · apply Or.inr
      exact List.mem_map.mpr ⟨_, List.mem_filter.mpr ⟨hpark, decide_eq_true hle⟩, rfl⟩
    · apply Or.inl
      exact .inl (List.mem_filter.mpr ⟨hpark, decide_eq_true (Nat.lt_of_not_le hle)⟩)
  · exact .inl (.inr hdone)

/-- Fast messages that fall due leave the cold one. -/
theorem advance (h : p.Keeping m) (seq : Option Nat) : (p.advance seq).Keeping m :=
  release (h.coldDone seq)

/-- A fast message is parked or dispatched, and the others stay where they are. -/
theorem fast {m' : Msg β V δ} (h : p.Keeping m ∨ m = m') : (p.fast m').Keeping m := by
  unfold Pump.fast
  split
  · rcases h with (hpark | hdone) | rfl
    · exact .inl hpark
    · exact .inr (List.mem_append_left _ hdone)
    · exact .inr (by simp)
  · rcases h with (hpark | hdone) | rfl
    · exact .inl (List.mem_append_left _ hpark)
    · exact .inr hdone
    · exact .inl (by simp)

/-- The batch loop dispatches nothing itself: what comes due is handed back. -/
theorem batchLoop (budget : Nat) (es : List (Pending β δ)) (applied : Nat)
    (due : List (Msg β V δ)) (h : p.Keeping m ∨ m ∈ due) :
    (Pump.batchLoop budget es applied p due).1.Keeping m ∨
      m ∈ (Pump.batchLoop budget es applied p due).2 := by
  induction es generalizing p applied due with
  | nil => exact h
  | cons e rest ih =>
    -- applying a blob hands back what comes due
    have hnext : ({ p with pending := rest, done := p.done ++ [Ev.applied e] }.coldDone
        e.seq).Keeping m ∨ m ∈ due ++ p.due e.seq := by
      rcases h with hp | hdue
      · have hpop : Pump.Keeping m
            { p with pending := rest, done := p.done ++ [Ev.applied e] } :=
          hp.imp_right (List.mem_append_left _)
        exact (hpop.coldDone e.seq).imp_right (List.mem_append_right _)
      · exact .inr (List.mem_append_left _ hdue)
    simp only [Pump.batchLoop]
    -- the batch is full
    split
    · exact h
    · -- a bootstrap ends it, any other blob goes on
      split
      · exact hnext
      · exact ih _ _ hnext

/-- A batch applies what waits and leaves it. -/
theorem batch (h : p.Keeping m) (budget : Nat) : (p.batch budget).Keeping m :=
  release (batchLoop budget p.pending 0 [] (.inl h))

variable [Inhabited β]

/-- A chunk of a blob. -/
theorem chunk (h : p.Keeping m) (c : Msg β V δ) (b : Chunk) : (p.chunk c b).Keeping m := by
  simp only [Pump.chunk]
  split
  · exact h
  · exact Keeping.advance h _

/-- A cold message. -/
theorem cold (h : p.Keeping m) (c : Msg β V δ) : (p.cold c).Keeping m := by
  -- what is done stays done
  have hlog : Pump.Keeping m { p with done := p.done ++ [Ev.dispatched c] } :=
    h.imp_right (List.mem_append_left _)
  simp only [Pump.cold]
  cases c.header.kind
  case t2 =>
    cases c.header.blob with
    | none => exact hlog
    | some b => exact hlog.chunk c b
  case boot =>
    cases c.header.blob with
    | none => exact hlog
    | some b => exact hlog.chunk c b
  -- a library file waits for its last chunk
  case libfile =>
    cases c.header.blob with
    | none => exact hlog
    | some b =>
      dsimp only
      split
      · exact Keeping.advance hlog _
      · exact hlog
  all_goals exact hlog.advance _

/-- Another message leaves it. -/
theorem handle (h : p.Keeping m) (m' : Msg β V δ) : (p.handle m').Keeping m := by
  unfold Pump.handle
  split
  · exact fast (.inl h)
  · exact h.cold m'

/-- A fast message is kept from the moment it is taken. -/
theorem step {n n' : PumpNode β V δ} {out : Option (Msg β V δ)} (hstep : PumpStep n out n')
    (hm : m.header.lane = .fast) (h : m ∈ n.fast ∨ n.pump.Keeping m) :
    m ∈ n'.fast ∨ n'.pump.Keeping m := by
  cases hstep with
  | idle => exact h
  -- the message that is taken is the one, or another
  | fast p m' c f =>
    rcases h with hin | hp
    · rcases List.mem_cons.mp hin with rfl | hin
      · apply Or.inr
        show (p.handle m).Keeping m
        rw [Pump.handle, if_pos hm]
        exact fast (.inr rfl)
      · exact .inl hin
    · exact .inr (hp.handle m')
  | cold p m' c f => exact h.imp_right fun hp => hp.handle m'
  | batch p budget c f => exact h.imp_right fun hp => hp.batch budget

end Pump.Keeping

/-! ## The old session -/

/-- Everything that was taken is behind us, when no blob waits. -/
private theorem Pump.Ordered.everything {c0 : Nat} {cold : List (Msg β V δ)} {p : Pump β V δ}
    (h : p.Ordered c0 cold []) (hidle : p.pending = []) (a : Nat) : Covered cold a p.done := by
  have htaken : cold = coldTaken p.done := by rw [h.taken, List.append_nil]
  constructor
  · intro c hc s hs hle
    exact dispatched_of_mem_coldTaken (htaken ▸ hc)
  · intro c hc s hlast hs hle
    rcases h.settled c (htaken ▸ hc) hlast s hs with happ | hsup | ⟨e, he, -⟩
    · exact .inl happ
    · exact .inr hsup
    · rw [hidle] at he
      exact (List.not_mem_nil he).elim

/-- The pump has taken the cold messages of a session up to `rest`, and behind them on the
    lane comes `tail`. -/
structure PumpNode.Partway (c0 : Nat) (cold tail : List (Msg β V δ)) (n : PumpNode β V δ) :
    Prop where
  fastLane : ∀ m ∈ n.fast, m.header.lane = .fast
  pump : ∃ rest, n.cold = rest ++ tail ∧ n.pump.Ordered c0 cold rest

section

variable [Inhabited β]

/-- A step takes of the tail, or it is a step without it. -/
private theorem PumpStep.untail {p : Pump β V δ} {rest tail fast : List (Msg β V δ)}
    {n' : PumpNode β V δ} {out : Option (Msg β V δ)}
    (h : PumpStep ⟨p, rest ++ tail, fast⟩ out n') :
    n'.cold.length < tail.length ∨ ∃ rest', n'.cold = rest' ++ tail ∧
      PumpStep ⟨p, rest, fast⟩ out ⟨n'.pump, rest', n'.fast⟩ := by
  generalize hn : (⟨p, rest ++ tail, fast⟩ : PumpNode β V δ) = n at h
  cases h with
  | idle =>
    subst hn
    exact .inr ⟨rest, rfl, .idle _⟩
  -- the fast lane and the batch leave the cold inbox
  | fast q m c f =>
    obtain ⟨rfl, rfl, rfl⟩ := PumpNode.mk.inj hn
    exact .inr ⟨rest, rfl, .fast ..⟩
  -- a cold message: one of the tail when nothing is before it
  | cold q m c f =>
    obtain ⟨rfl, hcold, rfl⟩ := PumpNode.mk.inj hn
    cases rest with
    | nil =>
      apply Or.inl
      show c.length < tail.length
      rw [← List.nil_append tail, hcold, List.length_cons]
      omega
    | cons m' rest =>
      obtain ⟨rfl, rfl⟩ := List.cons.inj hcold
      exact .inr ⟨rest, rfl, .cold ..⟩
  | batch q budget c f =>
    obtain ⟨rfl, rfl, rfl⟩ := PumpNode.mk.inj hn
    exact .inr ⟨rest, rfl, .batch ..⟩

/-- Until the tail is touched, the old session goes on. -/
theorem PumpNode.Partway.step {c0 : Nat} {cold tail : List (Msg β V δ)} (hcold : ColdStream c0 cold)
    {n n' : PumpNode β V δ} {out : Option (Msg β V δ)} (hstep : PumpStep n out n')
    (h : n.cold.length < tail.length ∨ n.Partway c0 cold tail)
    (hclear : ∀ m ∈ out, m.header.lane = .cold → m.appliesAtOnce = true → n.pump.pending = []) :
    n'.cold.length < tail.length ∨ n'.Partway c0 cold tail := by
  -- some of the tail was taken already
  rcases h with hlt | ⟨hfast, rest, hrest, hpump⟩
  · apply Or.inl
    have hle : n'.cold.length ≤ n.cold.length := by
      cases hstep <;> simp
    omega
  · -- none of it was: this step takes of it, or is a step of the old session
    obtain ⟨p, c, f⟩ := n
    obtain rfl : c = rest ++ tail := hrest
    rcases hstep.untail with hlt | ⟨rest', hrest', hstep'⟩
    · exact .inl hlt
    · have hnext := PumpNode.Ordered.step hcold hstep' ⟨hpump, hfast⟩ hclear
      exact .inr ⟨hnext.fastLane, rest', hrest', hnext.pump⟩

/-- When the whole old session was taken and no blob waits, all of it is behind us. -/
theorem Node.Between.behind (B : Blender β V δ S) (scene : S) (c f : Nat)
    {oldCold oldFast cold fast : List (Msg β V δ)} (hold : ColdStream c oldCold)
    (hfast : ∀ m ∈ oldFast ++ fast, m.header.lane = .fast) {before : List Node.Act}
    (hbefore : Along (Node.step B) Node.NoBlobOvertaken
      (Node.start scene c f (oldCold ++ cold) (oldFast ++ fast)) before)
    (h : (Node.run B (Node.start scene c f (oldCold ++ cold) (oldFast ++ fast))
      before).Between cold fast) (a : Nat) :
    Covered oldCold a (Node.run B (Node.start scene c f (oldCold ++ cold) (oldFast ++ fast))
      before).replica.log := by
  -- the old session's messages come first on the cold lane
  have hold' : (Node.start scene c f oldCold (oldFast ++ fast)).order.Ordered c oldCold :=
    PumpNode.Ordered.start scene c f hfast
  have hstart : (Node.start scene c f (oldCold ++ cold) (oldFast ++ fast)).order.Partway c oldCold
      cold := ⟨hfast, oldCold, rfl, hold'.pump⟩
  have hrun := hbefore.invariant
    (I := fun (n : Node β V δ S) =>
      n.order.cold.length < cold.length ∨ n.order.Partway c oldCold cold)
    (fun n a hn hP => PumpNode.Partway.step hold (n.step_order B a) hn hP) (.inr hstart)
  -- less is left than the new session sent: not so, none of it was taken
  rcases hrun with hlt | ⟨-, rest, hrest, hpump⟩
  · have hcold := h.cold
    unfold Node.run at hcold
    rw [hcold] at hlt
    omega
  · -- all of the old session's was taken, so all of it has effect
    obtain rfl : rest = [] := List.append_cancel_right (hrest.symm.trans h.cold)
    have hcov := hpump.everything h.idle a
    exact hcov.of_effects

end

/-! ## The new session -/

/-- The pump with `past` before what it did. No step reads what was done. -/
def Pump.behind (past : List (Ev β V δ)) (p : Pump β V δ) : Pump β V δ :=
  { p with done := past ++ p.done }

namespace Pump

variable (past : List (Ev β V δ)) (p : Pump β V δ)

/-- What was done in an old session comes first in the log, and changes nothing of a release. -/
private theorem release_behind (items : List (Msg β V δ)) :
    (p.behind past).release items = (p.release items).behind past := by
  simp [release, behind]

/-- Nor does it change how the counter moves on. -/
private theorem advance_behind (seq : Option Nat) :
    (p.behind past).advance seq = (p.advance seq).behind past :=
  release_behind past (p.coldDone seq) (p.due seq)

/-- A fast message is dispatched or parked as without it. -/
private theorem fast_behind (m : Msg β V δ) : (p.behind past).fast m = (p.fast m).behind past := by
  unfold fast
  show (if m.header.after ≤ p.coldApplied then _ else _) = _
  split <;> simp [behind]

/-- The batch loop applies the same blobs. -/
private theorem batchLoop_behind (budget : Nat) (es : List (Pending β δ)) (applied : Nat)
    (due : List (Msg β V δ)) :
    batchLoop budget es applied (p.behind past) due =
      ((batchLoop budget es applied p due).1.behind past,
        (batchLoop budget es applied p due).2) := by
  induction es generalizing p applied due with
  | nil => rfl
  | cons e rest ih =>
    -- applying a blob adds its event at the end of both
    have hnext : ({ p.behind past with
          pending := rest
          done := (p.behind past).done ++ [Ev.applied e] } : Pump β V δ).coldDone e.seq =
        ({ p with pending := rest, done := p.done ++ [Ev.applied e] }.coldDone e.seq).behind
          past := by
      simp only [behind, coldDone, List.append_assoc]
      rfl
    have hdue : (p.behind past).due e.seq = p.due e.seq := rfl
    simp only [batchLoop]
    -- the batch is full, at a bootstrap, or goes on
    split
    · rfl
    · split
      · rw [hnext]
        rfl
      · rw [hnext, ih]
        rfl

/-- So does a batch. -/
private theorem batch_behind (budget : Nat) :
    (p.behind past).batch budget = (p.batch budget).behind past := by
  unfold batch
  dsimp only
  rw [← release_behind]
  show release (batchLoop budget p.pending 0 (p.behind past) []).2
    (batchLoop budget p.pending 0 (p.behind past) []).1 = _
  rw [batchLoop_behind]

variable [Inhabited β]

/-- A chunk completes the same blob. -/
private theorem chunk_behind (m : Msg β V δ) (b : Chunk) :
    (p.behind past).chunk m b = (p.chunk m b).behind past := by
  have hasm : (p.behind past).assembly = p.assembly := rfl
  unfold chunk
  dsimp only
  rw [hasm]
  cases (p.assembly.feed m.header m.data b).2 with
  | some out => rfl
  | none => exact advance_behind past { p with assembly := _ } _

/-- A cold message is handled the same way. -/
private theorem cold_behind (m : Msg β V δ) : (p.behind past).cold m = (p.cold m).behind past := by
  have hlog : { p.behind past with done := (p.behind past).done ++ [Ev.dispatched m] } =
      ({ p with done := p.done ++ [Ev.dispatched m] } : Pump β V δ).behind past := by
    simp only [behind, List.append_assoc]
  unfold cold
  dsimp only
  rw [hlog]
  -- kind by kind: what is appended comes behind the past
  cases m.header.kind
  case t2 =>
    cases m.header.blob with
    | none => rfl
    | some b => exact chunk_behind past _ m b
  case boot =>
    cases m.header.blob with
    | none => rfl
    | some b => exact chunk_behind past _ m b
  case libfile =>
    cases m.header.blob with
    | none => rfl
    | some b =>
      have hasm : (p.behind past).assembly = p.assembly := rfl
      have hdone : (p.behind past).done ++ [Ev.dispatched m] =
          past ++ (p.done ++ [Ev.dispatched m]) := List.append_assoc ..
      dsimp only
      rw [hasm, hdone]
      cases (p.assembly.feedLib m.header m.data).2 with
      | some out =>
        exact advance_behind past
          { p with
            assembly := (p.assembly.feedLib m.header m.data).1
            done := p.done ++ [Ev.dispatched m] } m.header.seq
      | none => rfl
  all_goals exact advance_behind past { p with done := _ } _

/-- Any message is handled as in a session without a past. -/
private theorem handle_behind (m : Msg β V δ) :
    (p.behind past).handle m = (p.handle m).behind past := by
  unfold handle
  split
  · exact fast_behind past p m
  · exact cold_behind past p m

end Pump

section

variable [Inhabited β]

/-- A step behind a past is a step. -/
private theorem PumpStep.of_behind {past : List (Ev β V δ)} {p : Pump β V δ}
    {c f : List (Msg β V δ)}
    {n' : PumpNode β V δ} {out : Option (Msg β V δ)} (h : PumpStep ⟨p.behind past, c, f⟩ out n') :
    ∃ p', n'.pump = p'.behind past ∧ PumpStep ⟨p, c, f⟩ out ⟨p', n'.cold, n'.fast⟩ := by
  -- the pump does the same without the past
  generalize hn : (⟨p.behind past, c, f⟩ : PumpNode β V δ) = n at h
  cases h with
  | idle =>
    subst hn
    exact ⟨p, rfl, .idle _⟩
  | fast q m c' f' =>
    obtain ⟨rfl, rfl, rfl⟩ := PumpNode.mk.inj hn
    exact ⟨p.handle m, Pump.handle_behind past p m, .fast ..⟩
  | cold q m c' f' =>
    obtain ⟨rfl, rfl, rfl⟩ := PumpNode.mk.inj hn
    exact ⟨p.handle m, Pump.handle_behind past p m, .cold ..⟩
  | batch q budget c' f' =>
    obtain ⟨rfl, rfl, rfl⟩ := PumpNode.mk.inj hn
    exact ⟨p.batch budget, Pump.batch_behind past p budget, .batch ..⟩

/-- A session in order, behind the past of the sessions before it. -/
structure PumpNode.Later (past : List (Ev β V δ)) (c0 : Nat) (cold : List (Msg β V δ))
    (n : PumpNode β V δ) : Prop where
  fastLane : ∀ m ∈ n.fast, m.header.lane = .fast
  pump : ∃ p : Pump β V δ, n.pump = p.behind past ∧ p.Ordered c0 cold n.cold

/-- A step of the new session takes from its lanes only, once what applies at once finds nothing
    waiting. -/
theorem PumpNode.Later.step {past : List (Ev β V δ)} {c0 : Nat} {cold : List (Msg β V δ)}
    (hcold : ColdStream c0 cold) {n n' : PumpNode β V δ} {out : Option (Msg β V δ)}
    (hstep : PumpStep n out n') (h : n.Later past c0 cold)
    (hclear : ∀ m ∈ out, m.header.lane = .cold → m.appliesAtOnce = true → n.pump.pending = []) :
    n'.Later past c0 cold := by
  obtain ⟨hfast, p, hp, hpump⟩ := h
  obtain ⟨q, c, f⟩ := n
  obtain rfl : q = p.behind past := hp
  obtain ⟨p', hp', hstep'⟩ := hstep.of_behind
  have hnext := PumpNode.Ordered.step hcold hstep' ⟨hpump, hfast⟩ hclear
  exact ⟨hnext.fastLane, p', hp', hnext.pump⟩

end

/-! ## What the new session asks for -/

/-- A request comes from an unknown datablock only. -/
def ReplicaData.Calm (d : ReplicaData V δ S) : Prop :=
  d.stats.wantResync = true → d.unknownGap = true

/-- What is asked for is what the replica asks for. -/
theorem ReplicaData.Calm.same {d d' : ReplicaData V δ S} (h : d.Calm)
    (hd : d'.asking = d.asking) : d'.Calm := by
  obtain ⟨hwant, hunknown⟩ := Prod.mk.inj hd
  unfold ReplicaData.Calm
  rw [hwant, hunknown]
  exact h

namespace Replica

/-- With no gap on either lane, the end of a repair asks for another one only because of
    an unknown datablock. -/
private theorem calm_endResync {r : Replica β V δ S} {m : Msg β V δ}
    (hgap : (endResync r m).merger.gapLane = .none) : (endResync r m).data.Calm := by
  intro hwant
  have hlane : (endResync r m).data.stats.gapLane ≠ .none := of_decide_eq_true hwant
  have hstat : (endResync r m).data.stats.gapLane =
      if (endResync r m).data.unknownGap && (endResync r m).merger.gapLane = .none then .unknown
      else (endResync r m).merger.gapLane := rfl
  rw [hstat, hgap] at hlane
  cases hunknown : (endResync r m).data.unknownGap with
  | true => rfl
  | false =>
    rw [hunknown] at hlane
    exact (hlane rfl).elim

/-- The trackers stay where they are, and calm stays, until a message is observed. -/
private theorem keeps_calm (B : Blender β V δ S) (last : Lane → Nat) :
    Keeps B fun g d => g.Unbroken last ∧ d.Calm where
  same h hg hd := ⟨(Unbroken.keeps B last).same h.1 hg hd, h.2.same hd⟩
  unknown h hd := ⟨h.1, fun _ => (Prod.mk.inj hd).2⟩
  ended {r m} h := by
    have htrackers := (Unbroken.keeps B last).ended (m := m) h.1
    exact ⟨htrackers, calm_endResync htrackers.no_gap.2⟩
  boot h := ⟨(Unbroken.keeps B last).boot h.1, fun hwant => (Bool.false_ne_true hwant).elim⟩

/-- A message that comes when it is expected asks for nothing. -/
private theorem asking_observed {last : Lane → Nat} {r : Replica β V δ S} (h : r.Unbroken last)
    {m : Msg β V δ} (hseq : m.header.seq = some (last m.header.lane + 1)) :
    (r.observed m).data.asking = r.data.asking := by
  have hfollows : r.merger.follows m = true := by
    unfold LaneMerger.follows
    rw [hseq]
    show (r.merger.tracker m.header.lane).follows _ = true
    rw [h]
    simp [SeqTracker.follows]
  unfold observed
  dsimp only
  rw [if_pos hfollows]
  rfl

end Replica

section

variable [Inhabited β]

/-- One action of the apply loop on a node that has seen no gap. -/
private theorem Node.calm_step (B : Blender β V δ S) {n : Node β V δ S} (hn : n.Unbroken)
    (h : n.replica.data.Calm) (a : Node.Act) : (n.step B a).replica.data.Calm := by
  obtain ⟨last, hlast, hcold, hfast⟩ := hn
  cases a with
  | turn kf kc =>
    -- a turn: the message that it takes goes on where its lane was
    simp only [Node.step]
    cases htake : n.take kf kc with
    | mk n' out =>
      cases out with
      | none => exact Node.take_none htake ▸ h
      | some m =>
        obtain ⟨-, hdata, -, hmerger, hqueues⟩ := Node.take_some htake
        have hlast' : n'.replica.Unbroken last := hlast.same fun l => by rw [hmerger]
        have hcalm : n'.replica.data.Calm := hdata ▸ h
        -- its number is the next one of its lane
        have hseq : m.header.seq = some (last m.header.lane + 1) := by
          rcases hqueues with ⟨hq, -⟩ | ⟨hq, -⟩
          · rw [hq] at hfast
            exact hfast.1 ▸ hfast.2.1
          · rw [hq] at hcold
            exact hcold.1 ▸ hcold.2.1
        have hseen : (n'.replica.observed m).data.Calm :=
          hcalm.same (Replica.asking_observed hlast' hseq)
        exact ((Replica.keeps_calm B _).handle
          ⟨LaneMerger.Unbroken.observe hlast' hseq, hseen⟩).2
  -- a batch takes no message
  | batch budget => exact ((Replica.keeps_calm B last).applyPendingBatch ⟨hlast, h⟩ budget).2

/-- In a run whose counts are unbroken it asks for nothing. -/
private theorem Node.calm_run (B : Blender β V δ S) {n : Node β V δ S} (hn : n.Unbroken)
    (h : n.replica.data.Calm) (acts : List Node.Act) : (n.run B acts).replica.data.Calm := by
  induction acts generalizing n with
  | nil => exact h
  | cons a acts ih => exact ih (Node.Unbroken.step B hn a) (Node.calm_step B hn h a)

/-! ## The hello between the sessions -/

omit [Inhabited β] in
/-- What is behind us on two lanes. -/
theorem Covered.both {old cold : List (Msg β V δ)} {a : Nat} {log : List (Ev β V δ)}
    (hold : Covered old a log) (hcold : Covered cold a log) : Covered (old ++ cold) a log where
  handled c hc := (List.mem_append.mp hc).elim (hold.handled c) (hcold.handled c)
  applied c hc := (List.mem_append.mp hc).elim (hold.applied c) (hcold.applied c)

omit [Inhabited β] in
/-- The cold lane of a session counts on. -/
private theorem ColdStream.countsFrom {c0 : Nat} {cold : List (Msg β V δ)}
    (h : ColdStream c0 cold) :
    CountsFrom .cold c0 cold := by
  induction h with
  | nil => trivial
  | snoc h hm ih => exact (CountsFrom.append_iff _).mpr ⟨ih, hm.lane, hm.seq, trivial⟩

omit [Inhabited β] in
/-- What counts from a number is of one lane. -/
theorem CountsFrom.lane {lane : Lane} {k : Nat} {ms : List (Msg β V δ)}
    (h : CountsFrom lane k ms) : ∀ m ∈ ms, m.header.lane = lane := by
  induction ms generalizing k with
  | nil => simp
  | cons m ms ih =>
    obtain ⟨hlane, -, hrest⟩ := h
    exact List.forall_mem_cons.mpr ⟨hlane, ih hrest⟩

namespace Node.Between

variable {cold fast : List (Msg β V δ)} {n : Node β V δ S} {c0 f0 : Nat}

omit [Inhabited β] in
/-- The trackers stand where the lanes go on. -/
private theorem unbroken (h : n.Between cold fast) (hcold : ColdStream c0 cold)
    (hfast : CountsFrom .fast f0 fast) : (n.newSession (c0, f0)).Unbroken := by
  refine ⟨laneBase c0 f0, fun l => ?_, ?_, ?_⟩
  · cases l <;> rfl
  · show CountsFrom .cold c0 n.order.cold
    rw [h.cold]
    exact hcold.countsFrom
  · show CountsFrom .fast f0 n.order.fast
    rw [h.fast]
    exact hfast

omit [Inhabited β] in
/-- The new session begins in order, behind all that was done. -/
theorem later (h : n.Between cold fast) (hfast : CountsFrom .fast f0 fast) :
    (n.newSession (c0, f0)).order.Later (effects n.replica.log) c0 cold := by
  constructor
  · show ∀ m ∈ n.order.fast, m.header.lane = .fast
    rw [h.fast]
    exact hfast.lane
  · refine ⟨{ coldApplied := c0 }, ?_, ?_⟩
    · show Pump.mk c0 [] _ n.replica.pending _ = _
      rw [h.idle]
      simp only [Pump.behind, List.append_nil]
      rfl
    · show Pump.Ordered c0 cold n.order.cold { coldApplied := c0 }
      rw [h.cold]
      exact ⟨rfl, Assembly.Tracks.empty, Nat.le_refl _, by simp, by simp, by simp [coldTaken],
        by simp, History.nil⟩

end Node.Between

/-- What holds of a new session in every state, when the tick that handles its hello falls
    between the two sessions with no blob waiting, and neither session takes a message that
    is applied the moment it is taken while a blob waits. -/
theorem Node.newSession_resumes (B : Blender β V δ S) (scene : S) (c f c0 f0 : Nat)
    (oldCold oldFast cold fast : List (Msg β V δ)) (hold : ColdStream c oldCold)
    (holdFast : ∀ m ∈ oldFast, m.header.lane = .fast) (hcold : ColdStream c0 cold)
    (hfast : CountsFrom .fast f0 fast) (before after : List Node.Act)
    (hbefore : Along (Node.step B) Node.NoBlobOvertaken
      (Node.start scene c f (oldCold ++ cold) (oldFast ++ fast)) before)
    (hbetween : (Node.run B (Node.start scene c f (oldCold ++ cold) (oldFast ++ fast))
      before).Between cold fast)
    (hafter : Along (Node.step B) Node.NoBlobOvertaken
      ((Node.run B (Node.start scene c f (oldCold ++ cold) (oldFast ++ fast))
        before).newSession (c0, f0)) after) :
    let hello := Node.run B (Node.start scene c f (oldCold ++ cold) (oldFast ++ fast)) before
    Node.Resumed oldCold cold fast hello (Node.run B (hello.newSession (c0, f0)) after) := by
  intro hello
  -- what was taken before is behind, and the new session starts unbroken
  have hlanes : ∀ m ∈ oldFast ++ fast, m.header.lane = .fast :=
    List.forall_mem_append.mpr ⟨holdFast, hfast.lane⟩
  have hbehind := Node.Between.behind B scene c f hold hlanes hbefore hbetween
  have hunbroken := hbetween.unbroken hcold hfast
  have hcalm : (hello.newSession (c0, f0)).replica.data.Calm :=
    fun hwant => (Bool.false_ne_true hwant).elim
  have hlater := hafter.invariant
    (I := fun (n : Node β V δ S) => n.order.Later (effects hello.replica.log) c0 cold)
    (fun n a hn hP => PumpNode.Later.step hcold (n.step_order B a) hn hP) (hbetween.later hfast)
  -- no gap is seen
  constructor
  · obtain ⟨last, hlast, -⟩ := hunbroken.run B after
    exact LaneMerger.Unbroken.no_gap hlast
  · -- no repair is asked
    exact Node.calm_run B hunbroken hcalm after
  · -- a message of the fast lane is in the inbox, parked or done
    intro m hm
    have hstart : m ∈ (hello.newSession (c0, f0)).order.fast ∨
        (hello.newSession (c0, f0)).order.pump.Keeping m := by
      apply Or.inl
      show m ∈ hello.order.fast
      rw [hbetween.fast]
      exact hm
    have hkept := foldl_invariant (f := Node.step B)
      (I := fun n => m ∈ n.order.fast ∨ n.order.pump.Keeping m)
      (fun n a hn => Pump.Keeping.step (n.step_order B a) (hfast.lane m hm) hn) after hstart
    exact hkept.imp_right fun h => h.imp_right List.mem_of_mem_filter
  · -- a dispatched message has what it comes after behind it
    intro m bef aft hlog hm
    -- what the session did is its own history, with the past before it
    obtain ⟨-, p, hp, hpump⟩ := hlater
    have hdone : p.done = effects bef ++ Ev.dispatched m :: effects aft := by
      have heffects : effects (Node.run B (hello.newSession (c0, f0)) after).replica.log =
          effects hello.replica.log ++ p.done := congrArg Pump.done hp
      rw [hlog, effects_append, effects_split rfl] at heffects
      exact (List.append_cancel_left heffects).symm
    -- what the new session has done covers its own cold lane, the past the old one
    have hnew : Covered cold m.header.after (effects bef) := hpump.history _ _ _ hdone hm
    have hcovered : Covered cold m.header.after (hello.replica.log ++ bef) :=
      hnew.of_effects.mono fun _ => List.mem_append_right _
    exact ((hbehind m.header.after).append bef).both hcovered

end

/-- A lane that does not go on where the hello says reports a gap at its next message, and
    the replica asks for a repair. -/
theorem Replica.newSession_gap (r : Replica β V δ S) {c0 f0 s : Nat} {m : Msg β V δ}
    (hseq : m.header.seq = some s) (hs : s ≠ laneBase c0 f0 m.header.lane + 1) :
    ((r.handleNewSession (c0, f0)).observed m).merger.gaps = 1 ∧
      ((r.handleNewSession (c0, f0)).observed m).data.stats.wantResync = true := by
  -- the number is not the one that follows the counters of the hello
  have hfollows : (r.handleNewSession (c0, f0)).merger.follows m = false := by
    unfold LaneMerger.follows
    rw [hseq]
    cases hl : m.header.lane <;> rw [hl] at hs <;> exact decide_eq_false hs
  -- so it is a gap, and a repair is asked for
  constructor
  · cases hl : m.header.lane <;> rw [hl] at hs <;>
      simp_all [observed, handleNewSession, LaneMerger.observe, LaneMerger.gaps,
        SeqTracker.observe, SeqTracker.follows, laneBase]
  · unfold observed
    dsimp only
    rw [if_neg (by simp [hfollows])]
    rfl

/-! ## A hello that comes too early or too late -/

namespace Rehello

/-- An edit of `"a"`. -/
def editOf (seq after : Nat) : Msg Nat Nat Nat where
  header := { kind := .t1, lane := .fast, seq := some seq, uuid := "a", after := after }
  payload := .changes [(.rna "location", seq)]

/-- A cold lane with a blob of `"a"`. -/
def blobLane (seq : Nat) : List (Msg Nat Nat Nat) := [(Overtaken.blob.chunk 0).withSeq seq]

/-- The old session: a blob of `"a"`, and an edit that need not wait for it. -/
def oldCold : List (Msg Nat Nat Nat) := blobLane 1

/-- The new session: two edits that follow the blob. -/
def fast : List (Msg Nat Nat Nat) := [editOf 2 1, editOf 3 1]

/-- The lanes of both. -/
def session : Node Nat Nat Nat Unit := Node.start () 0 0 (oldCold ++ []) ([editOf 1 0] ++ fast)

/-- The node when the hello was handled between `before` and `after`. -/
def resumed (before after : List Node.Act) : Node Nat Nat Nat Unit :=
  Node.run Blender.inert ((Node.run Blender.inert session before).newSession (1, 1)) after

theorem coldStream (base : Nat) : ColdStream base (blobLane (base + 1)) := by
  refine .snoc .nil ⟨rfl, rfl, fun hno => (Bool.noConfusion hno), fun _ => ?_⟩
  exact ⟨Overtaken.blob, [], ⟨rfl, by decide⟩, [], rfl, rfl, by simp⟩

end Rehello

open Rehello in
/-- Handled before the old edit was taken, the hello makes it a gap. Handled after the first
    new edit was taken, it drops the edit, which was parked. Handled while the blob waits,
    it lets the edit go ahead of the blob. -/
theorem Node.newSession_resumes_counterexample :
    ColdStream 0 oldCold ∧ CountsFrom .fast 0 ([editOf 1 0] ++ fast) ∧
      ¬ Node.Resumed oldCold [] fast session (resumed [] [.turn 64 0]) ∧
      ¬ Node.Resumed oldCold [] fast (Node.run Blender.inert session [.turn 64 0, .turn 64 0])
        (resumed [.turn 64 0, .turn 64 0] []) ∧
      ¬ Node.Resumed oldCold [] fast (Node.run Blender.inert session [.turn 1 0, .turn 0 8])
        (resumed [.turn 1 0, .turn 0 8] [.turn 64 0]) := by
  refine ⟨Rehello.coldStream 0, ⟨rfl, rfl, rfl, rfl, rfl, rfl, trivial⟩, fun h => ?_, fun h => ?_,
    fun h => ?_⟩
  · exact absurd h.unbroken.1 (by decide)
  · have hkept := h.kept (editOf 2 1) (List.mem_cons_self ..)
    revert hkept
    decide
  · have hcov := h.inTime (editOf 2 1) [.seen (editOf 2 1)] [] rfl rfl
    have hlog : (Node.run Blender.inert session [.turn 1 0, .turn 0 8]).replica.log =
        [.seen (editOf 1 0), .dispatched (editOf 1 0), .seen ((Overtaken.blob.chunk 0).withSeq 1),
          .dispatched ((Overtaken.blob.chunk 0).withSeq 1)] := rfl
    rw [hlog] at hcov
    rcases hcov.applied _ (List.mem_cons_self ..) 1 (by decide) rfl (by decide) with
      ⟨e, he, -⟩ | ⟨c', s', hd, hboot, -⟩
    · simp at he
    · simp only [List.cons_append, List.nil_append, List.mem_cons, Ev.dispatched.injEq,
        List.not_mem_nil, or_false, reduceCtorEq, false_or] at hd
      rcases hd with rfl | rfl <;> cases hboot

open Rehello in
/-- The old session is over when the hello is handled. Of the new one the first edit goes on at
    once, and the second is parked until the blob before it is applied. -/
theorem Node.newSession_resumes_between :
    let sessions : Node Nat Nat Nat Unit := Node.start () 0 0 (oldCold ++ blobLane 2)
      ([editOf 1 0] ++ [editOf 2 1, editOf 3 2])
    let hello := Node.run Blender.inert sessions [.turn 1 0, .turn 0 8, .batch 16]
    Node.Resumed oldCold (blobLane 2) [editOf 2 1, editOf 3 2] hello
      (Node.run Blender.inert (hello.newSession (1, 1)) [.turn 64 0, .turn 0 8, .batch 16]) :=
  Node.newSession_resumes Blender.inert () 0 0 1 1 oldCold [editOf 1 0] (blobLane 2)
    [editOf 2 1, editOf 3 2] (Rehello.coldStream 0) (by decide) (Rehello.coldStream 1)
    ⟨rfl, rfl, rfl, rfl, trivial⟩ [.turn 1 0, .turn 0 8, .batch 16]
    [.turn 64 0, .turn 0 8, .batch 16] (by decide) ⟨rfl, rfl, rfl⟩ (by decide)

end QCBridge
