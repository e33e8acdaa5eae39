import QCBridge.Spec.FastOrder
import QCBridge.Spec.Holes

/-!
# What `fast_applied` promises

`fast_done` counts the fast lane up to the first message that is not applied yet.
The end of a repair and a bootstrap move the counter to the last seq that was
seen, whatever is parked. As long as nothing waits for the cold lane when they
do, every message up to the counter is applied, and the end of a re-assert is
processed behind the re-assert.

## Key results

- `Accounts`: the invariant, one lemma for each thing the apply loop does
- `caught_up`: the promise holds in every run that clears nothing that waits
-/

namespace QCBridge

variable {β V δ S : Type}

/-- The fast messages taken so far, in order. -/
def fastSeen (log : List (Ev β V δ)) : List (Msg β V δ) :=
  log.filterMap fun
    | .seen m => if m.header.lane = .fast then some m else none
    | _ => none

@[simp] theorem fastSeen_append (l₁ l₂ : List (Ev β V δ)) :
    fastSeen (l₁ ++ l₂) = fastSeen l₁ ++ fastSeen l₂ := List.filterMap_append

private theorem mem_fastDone {log : List (Ev β V δ)} {m : Msg β V δ} :
    m ∈ fastDone log ↔ Ev.dispatched m ∈ log ∧ m.header.lane = .fast := by
  simp only [fastDone, List.mem_filterMap]
  constructor
  · rintro ⟨ev, hev, hm⟩
    cases ev with
    | dispatched m' =>
      simp only [Option.ite_none_right_eq_some, Option.some.injEq] at hm
      obtain ⟨hlane, rfl⟩ := hm
      exact ⟨hev, hlane⟩
    | _ => cases hm
  · rintro ⟨hev, hlane⟩
    exact ⟨_, hev, by simp [hlane]⟩

private theorem mem_fastSeen {log : List (Ev β V δ)} {m : Msg β V δ} :
    m ∈ fastSeen log ↔ Ev.seen m ∈ log ∧ m.header.lane = .fast := by
  simp only [fastSeen, List.mem_filterMap]
  constructor
  · rintro ⟨ev, hev, hm⟩
    cases ev with
    | seen m' =>
      simp only [Option.ite_none_right_eq_some, Option.some.injEq] at hm
      obtain ⟨hlane, rfl⟩ := hm
      exact ⟨hev, hlane⟩
    | _ => cases hm
  · rintro ⟨hev, hlane⟩
    exact ⟨_, hev, by simp [hlane]⟩

/-! ## The promise -/

/-- Everything the host sends on the fast lane, in order: the seqs go up, and the end
    of a re-assert follows no cold message. -/
structure FastStream (f0 : Nat) (sent : List (Msg β V δ)) : Prop where
  lane : ∀ m ∈ sent, m.header.lane = .fast
  seq : ∀ m ∈ sent, m.header.seq = some m.seqNo ∧ f0 < m.seqNo
  order : sent.Pairwise fun m m' => m.seqNo < m'.seqNo
  ends : ∀ m ∈ sent, m.header.kind = .resyncEnd → m.header.after = 0

/-- A seq names one message of the lane. -/
theorem FastStream.inj {f0 : Nat} {sent : List (Msg β V δ)} (h : FastStream f0 sent)
    {x y : Msg β V δ} (hx : x ∈ sent) (hy : y ∈ sent) (heq : x.seqNo = y.seqNo) : x = y := by
  have hnodup : (sent.map Msg.seqNo).Nodup :=
    List.pairwise_map.mpr (h.order.imp fun hlt => Nat.ne_of_lt hlt)
  exact List.inj_on_of_nodup_map hnodup hx hy heq

theorem FastStream.nodup {f0 : Nat} {sent : List (Msg β V δ)} (h : FastStream f0 sent) :
    sent.Nodup :=
  h.order.imp fun hlt heq => by
    rw [heq] at hlt
    exact Nat.lt_irrefl _ hlt

/-- A fast `resync_end` is processed behind every re-assert sent before it. -/
def AfterReasserts (reassert : Msg β V δ → Prop) (sent : List (Msg β V δ))
    (before : List (Ev β V δ)) : Ev β V δ → Prop
  | .dispatched m => m.header.lane = .fast → m.header.kind = .resyncEnd →
      ∀ x ∈ sent, x.seqNo < m.seqNo → reassert x → x ∈ fastDone before
  | _ => True

/-- What `fast_applied` promises, and the order of the ends. -/
structure CaughtUp (reassert : Msg β V δ → Prop) (sent : List (Msg β V δ))
    (r : Replica β V δ S) : Prop where
  applied : ∀ n ≤ r.merger.fastApplied, ∀ m, Ev.seen m ∈ r.log → m.header.lane = .fast →
    m.seqNo ≤ n → Ev.dispatched m ∈ r.log ∧ ∀ q ∈ r.merger.parked, q.2 ≠ m
  ends : History (AfterReasserts reassert sent) r.log

/-- When the lane is declared whole, the fast messages that have arrived follow
    nothing that is still to be applied, and no re-assert is missing. -/
def Node.ClearsNone (reassert : Msg β V δ → Prop) (sent : List (Msg β V δ)) (n : Node β V δ S) :
    LossyAct → Prop
  | .act (.turn kf kc) => ∀ m ∈ (n.take kf kc).2, m.header.lane = .fast →
      m.header.kind = .resyncEnd →
        (∀ x ∈ fastSeen n.replica.log, x.header.after ≤ n.replica.merger.coldApplied) ∧
        ∀ x ∈ sent, x.seqNo < m.seqNo → reassert x → x ∈ fastSeen n.replica.log
  | .act (.batch _) => ∀ e ∈ n.replica.pending.head?, e.isBoot = true →
      ∀ x ∈ fastSeen n.replica.log,
        x.header.after ≤ LaneMerger.appliedAfter n.replica.merger.coldApplied e.seq
  | .lose _ => True

/-! ## `fast_done` -/

namespace LaneMerger

/-- The counter stops short of a seq that is not done. -/
private theorem catchUp_short {x : Nat} (fuel : Nat) {applied : Nat} {done : List Nat}
    (hlt : applied < x) (hx : x ∉ done) :
    (catchUp fuel applied done).1 < x ∧ x ∉ (catchUp fuel applied done).2 := by
  induction fuel generalizing applied done with
  | zero => exact ⟨hlt, hx⟩
  | succ fuel ih =>
    unfold catchUp
    split
    · -- the next seq is done, so it is not `x`
      rename_i hnext
      have hne : applied + 1 ≠ x := fun heq => hx (heq ▸ hnext)
      apply ih
      · omega
      · exact fun hmem => hx (List.mem_of_mem_filter hmem)
    · exact ⟨hlt, hx⟩

private theorem fastDone_short {x : Nat} {g : LaneMerger β V δ} {seq : Option Nat}
    (hlt : g.fastApplied < x) (hx : x ∉ g.fastDoneSet) (hseq : seq ≠ some x) :
    (g.fastDone seq).fastApplied < x ∧ x ∉ (g.fastDone seq).fastDoneSet := by
  unfold fastDone
  split
  · exact ⟨hlt, hx⟩
  · rename_i s
    split
    · exact ⟨hlt, hx⟩
    · apply catchUp_short
      · exact hlt
      · have hne : x ≠ s := fun heq => hseq (by rw [heq])
        rw [List.mem_insert_iff, not_or]
        exact ⟨hne, hx⟩

/-- What the fast lane's counter depends on. -/
def fastSide (g : LaneMerger β V δ) :
    Option Nat × Nat × Nat × List Nat × List (Nat × Msg β V δ) :=
  (g.fast.lastSeen, g.coldApplied, g.fastApplied, g.fastDoneSet, g.parked)

end LaneMerger

/-! ## One blob of a batch -/

namespace Replica

variable (B : Blender β V δ S)

/-- A bootstrap declares both lanes whole before the cold lane moves on. -/
private theorem applyNext_boot (r : Replica β V δ S) {e : Pending β δ} (hboot : e.isBoot = true)
    (rest : List (Pending β δ)) :
    ∃ (d : ReplicaData V δ S) (reported : Bool), applyNext B r e rest =
      ({ r with
          pending := rest
          data := d
          merger := r.merger.clearColdGap.clearFastGap.coldDone e.seq
          log := r.log ++ [Ev.applied e] ++ [Ev.ended e.header reported] },
        [], r.merger.due e.seq) := by
  simp only [applyNext, applyOne, hboot, if_true]
  exact ⟨_, _, rfl⟩

/-- Any other blob moves the cold lane on, whether it applies or raises. -/
private theorem applyNext_blob (r : Replica β V δ S) {e : Pending β δ} (hboot : e.isBoot = false)
    (rest : List (Pending β δ)) :
    ∃ (d : ReplicaData V δ S) (reapply : List Uuid), applyNext B r e rest =
      ({ r with
          pending := rest
          data := d
          merger := r.merger.coldDone e.seq
          log := r.log ++ [Ev.applied e] },
        reapply, r.merger.due e.seq) := by
  simp only [applyNext, applyOne, hboot, Bool.false_eq_true, if_false]
  cases B.applyBlob r.data.scene e.blob with
  | none => exact ⟨_, _, rfl⟩
  | some out => exact ⟨_, _, rfl⟩

end Replica

/-! ## The invariant -/

/-- What holds of a replica that has `hand` still to dispatch and `coming` still to
    take from the fast lane. -/
structure Accounts (reassert : Msg β V δ → Prop) (sent hand coming : List (Msg β V δ))
    (r : Replica β V δ S) : Prop where
  taken : (fastSeen r.log ++ coming).Sublist sent
  done : ∀ m ∈ fastSeen r.log,
    m ∈ fastDone r.log ∨ m ∈ hand ++ r.merger.parked.map Prod.snd
  held : ∀ m ∈ hand ++ r.merger.parked.map Prod.snd, m ∈ fastSeen r.log
  nodup : (hand ++ r.merger.parked.map Prod.snd).Nodup
  parked : ∀ q ∈ r.merger.parked, q.1 = q.2.header.after ∧ r.merger.coldApplied < q.1 ∧
    q.2.header.kind ≠ .resyncEnd
  fresh : ∀ m ∈ r.merger.parked.map Prod.snd ++ coming,
    r.merger.fastApplied < m.seqNo ∧ m.seqNo ∉ r.merger.fastDoneSet
  heard : ∀ m ∈ coming, r.merger.fast.lastSeen.getD 0 < m.seqNo
  ends : History (AfterReasserts reassert sent) r.log

namespace Accounts

open Replica

variable {reassert : Msg β V δ → Prop} {f0 : Nat} {sent hand coming : List (Msg β V δ)}
  {r q : Replica β V δ S}

/-- Something that the fast lane does not notice. -/
theorem same (h : Accounts reassert sent hand coming r)
    (hseen : fastSeen q.log = fastSeen r.log) (hdone : fastDone q.log = fastDone r.log)
    (hends : History (AfterReasserts reassert sent) q.log)
    (hside : q.merger.fastSide = r.merger.fastSide) : Accounts reassert sent hand coming q := by
  simp only [LaneMerger.fastSide, Prod.mk.injEq] at hside
  obtain ⟨hlast, hcold, happ, hset, hparked⟩ := hside
  constructor
  · rw [hseen]
    exact h.taken
  · rw [hseen, hdone, hparked]
    exact h.done
  · rw [hseen, hparked]
    exact h.held
  · rw [hparked]
    exact h.nodup
  · rw [hparked, hcold]
    exact h.parked
  · rw [hparked, happ, hset]
    exact h.fresh
  · rw [hlast]
    exact h.heard
  · exact hends

/-- A log entry that is neither a fast message taken nor one dispatched. -/
theorem entry (h : Accounts reassert sent hand coming r) {x : Ev β V δ}
    (hlog : q.log = r.log ++ [x]) (hseen : fastSeen [x] = []) (hdone : fastDone [x] = [])
    (hside : q.merger.fastSide = r.merger.fastSide) : Accounts reassert sent hand coming q := by
  apply h.same
  · rw [hlog, fastSeen_append, hseen, List.append_nil]
  · rw [hlog, fastDone_append, hdone, List.append_nil]
  · rw [hlog]
    apply h.ends.snoc
    cases x with
    | dispatched m =>
      intro hlane
      simp [QCBridge.fastDone, hlane] at hdone
    | _ => trivial
  · exact hside

/-- The message in hand has another seq than all that are parked or coming. -/
private theorem seq_ne {m x : Msg β V δ} (h : Accounts reassert sent (m :: hand) coming r)
    (hsent : FastStream f0 sent) (hx : x ∈ r.merger.parked.map Prod.snd ++ coming) :
    m.header.seq ≠ some x.seqNo := by
  intro heq
  have hm := h.held m (by simp)
  have hmsent : m ∈ sent := h.taken.subset (List.mem_append_left _ hm)
  have hnodup := h.nodup
  rw [List.cons_append, List.nodup_cons] at hnodup
  have hxsent : x ∈ sent := by
    rcases List.mem_append.mp hx with hx | hx
    · exact h.taken.subset (List.mem_append_left _ (h.held x (by
        rw [List.cons_append]
        exact List.mem_cons_of_mem _ (List.mem_append_right _ hx))))
    · exact h.taken.subset (List.mem_append_right _ hx)
  have hxm : m = x := by
    apply hsent.inj hmsent hxsent
    rw [Msg.seqNo, heq]
    rfl
  -- but nothing is in two places
  subst hxm
  rcases List.mem_append.mp hx with hx | hx
  · exact hnodup.1 (List.mem_append_right _ hx)
  · have hdisj := (List.nodup_append.mp (h.taken.nodup hsent.nodup)).2.2
    exact hdisj m hm m hx rfl

/-- A fast message handed over was dispatched: the counter may move on. `g` is the
    merger that `fast_done` finds. -/
theorem handed {m : Msg β V δ} (h : Accounts reassert sent (m :: hand) coming r)
    (hsent : FastStream f0 sent) {g : LaneMerger β V δ}
    (hseen : fastSeen q.log = fastSeen r.log) (hdone : fastDone q.log = fastDone r.log ++ [m])
    (hends : History (AfterReasserts reassert sent) q.log)
    (hmerger : q.merger = g.fastDone m.header.seq)
    (hparked : g.parked = r.merger.parked) (hcold : g.coldApplied = r.merger.coldApplied)
    (hlast : g.fast.lastSeen = r.merger.fast.lastSeen)
    (hfresh : ∀ x ∈ r.merger.parked.map Prod.snd ++ coming,
      g.fastApplied < x.seqNo ∧ x.seqNo ∉ g.fastDoneSet) :
    Accounts reassert sent hand coming q := by
  have hparked' : q.merger.parked = r.merger.parked := by
    rw [hmerger, LaneMerger.fastDone_parked, hparked]
  have hm := h.held m (by simp)
  have hnodup := h.nodup
  rw [List.cons_append, List.nodup_cons] at hnodup
  constructor
  · -- taken: what is seen of the lane is as before
    rw [hseen]
    exact h.taken
  · -- done: the message in hand has become one of them
    intro x hx
    rw [hseen] at hx
    rw [hdone, hparked']
    rcases h.done x hx with hd | hhand
    · exact .inl (List.mem_append_left _ hd)
    · rw [List.cons_append] at hhand
      rcases List.mem_cons.mp hhand with rfl | hhand
      · exact .inl (by simp)
      · exact .inr hhand
  · -- held, nodup: the hand has one message less
    intro x hx
    rw [hparked'] at hx
    rw [hseen]
    exact h.held x (List.mem_cons_of_mem _ hx)
  · rw [hparked']
    exact hnodup.2
  · -- parked: neither the queue nor the count of the cold lane moves
    rw [hparked', hmerger, LaneMerger.fastDone_coldApplied, hcold]
    exact h.parked
  · -- fresh: the merger's bound for the lane is short of what waits
    intro x hx
    rw [hparked'] at hx
    obtain ⟨hlt, hnot⟩ := hfresh x hx
    rw [hmerger]
    exact LaneMerger.fastDone_short hlt hnot (h.seq_ne hsent hx)
  · -- heard, ends: the tracker is the one of before
    intro x hx
    have hlast' : q.merger.fast.lastSeen = r.merger.fast.lastSeen := by
      rw [hmerger]
      exact (congrArg SeqTracker.lastSeen
        (LaneMerger.fastDone_tracker g m.header.seq .fast)).trans hlast
    rw [hlast']
    exact h.heard x hx
  · exact hends

/-- The lane is declared whole while nothing is parked. -/
theorem cleared (h : Accounts reassert sent hand coming r) (hparked : r.merger.parked = [])
    (hseen : fastSeen q.log = fastSeen r.log) (hdone : fastDone q.log = fastDone r.log)
    (hends : History (AfterReasserts reassert sent) q.log)
    (hside : q.merger.fastSide = r.merger.clearFastGap.fastSide) :
    Accounts reassert sent hand coming q := by
  have hclear : Accounts reassert sent hand coming
      { r with merger := r.merger.clearFastGap } := by
    refine ⟨h.taken, h.done, h.held, h.nodup, h.parked, ?_, h.heard, h.ends⟩
    intro x hx
    have hcoming : x ∈ coming := by
      rw [LaneMerger.clearFastGap_parked, hparked, List.map_nil, List.nil_append] at hx
      exact hx
    obtain ⟨hlt, hnot⟩ := h.fresh x (List.mem_append_right _ hcoming)
    have hheard := h.heard x hcoming
    constructor
    · show max r.merger.fastApplied (r.merger.fast.lastSeen.getD 0) < x.seqNo
      omega
    · exact fun hmem => hnot (List.mem_of_mem_filter hmem)
  exact hclear.same hseen hdone hends hside

/-! ### The apply loop -/

variable (B : Blender β V δ S)

/-- A dispatched fast message that is no repair's end. -/
theorem dispatchFast {m : Msg β V δ} (h : Accounts reassert sent (m :: hand) coming r)
    (hsent : FastStream f0 sent) (hkind : m.header.kind ≠ .resyncEnd) :
    Accounts reassert sent hand coming (dispatchFast B r m) := by
  have hlane : m.header.lane = .fast := (mem_fastSeen.mp (h.held m (by simp))).2
  -- what it writes down and how it moves the merger, kind by kind
  have hlog : (Replica.dispatchFast B r m).log = r.log ++ [Ev.dispatched m] := by
    unfold Replica.dispatchFast
    cases hk : m.header.kind
    case resyncEnd => exact absurd hk hkind
    all_goals rfl
  have hmerger : (Replica.dispatchFast B r m).merger = r.merger.fastDone m.header.seq := by
    unfold Replica.dispatchFast
    cases hk : m.header.kind
    case resyncEnd => exact absurd hk hkind
    all_goals rfl
  apply h.handed hsent (g := r.merger)
  · rw [hlog, fastSeen_append]
    exact List.append_nil _
  · rw [hlog, fastDone_append]
    simp [QCBridge.fastDone, hlane]
  · rw [hlog]
    exact h.ends.snoc fun _ hk => absurd hk hkind
  · exact hmerger
  · rfl
  · rfl
  · rfl
  · exact h.fresh

/-- The end of a re-assert, when nothing is parked and no re-assert is missing. -/
private theorem dispatchEnd {m : Msg β V δ} (h : Accounts reassert sent [m] coming r)
    (hsent : FastStream f0 sent) (hkind : m.header.kind = .resyncEnd)
    (hparked : r.merger.parked = [])
    (harrived : ∀ x ∈ sent, x.seqNo < m.seqNo → reassert x → x ∈ fastSeen r.log) :
    Accounts reassert sent [] coming (Replica.dispatchFast B r m) := by
  have hlane : m.header.lane = .fast := (mem_fastSeen.mp (h.held m (by simp))).2
  obtain ⟨reported, hlog⟩ : ∃ reported, (Replica.dispatchFast B r m).log =
      r.log ++ [Ev.dispatched m] ++ [Ev.ended m.header reported] := by
    unfold Replica.dispatchFast
    rw [hkind]
    exact ⟨_, rfl⟩
  have hmerger : (Replica.dispatchFast B r m).merger =
      r.merger.clearFastGap.fastDone m.header.seq := by
    unfold Replica.dispatchFast
    rw [hkind]
    simp only [endResync, hlane, if_true]
  have hclear : Accounts reassert sent [m] coming { r with merger := r.merger.clearFastGap } :=
    h.cleared hparked rfl rfl h.ends rfl
  apply hclear.handed hsent (g := r.merger.clearFastGap)
  · rw [hlog, fastSeen_append, fastSeen_append]
    simp [fastSeen]
  · rw [hlog, fastDone_append, fastDone_append]
    simp [QCBridge.fastDone, hlane]
  · rw [hlog]
    suffices hend : History (AfterReasserts reassert sent) (r.log ++ [Ev.dispatched m]) from
      hend.snoc trivial
    apply h.ends.snoc
    intro _ _ x hx hlt hre
    rcases h.done x (harrived x hx hlt hre) with hdone | hhand
    · exact hdone
    · -- nothing else is held
      rw [hparked, List.map_nil, List.append_nil, List.mem_singleton] at hhand
      rw [hhand] at hlt
      exact absurd hlt (Nat.lt_irrefl _)
  · exact hmerger
  · rfl
  · rfl
  · rfl
  · exact hclear.fresh

/-- `_release`. -/
theorem release (hsent : FastStream f0 sent) (items : List (Msg β V δ))
    (h : Accounts reassert sent items coming r)
    (hkinds : ∀ m ∈ items, m.header.kind ≠ .resyncEnd) :
    Accounts reassert sent [] coming (release B items r) := by
  have hfold : Accounts reassert sent [] coming (items.foldl (Replica.dispatchFast B) r) := by
    induction items generalizing r with
    | nil => exact h
    | cons m items ih =>
      rw [List.foldl_cons]
      apply ih
      · exact h.dispatchFast B hsent (hkinds m (by simp))
      · exact fun x hx => hkinds x (by simp [hx])
  exact hfold.same rfl rfl hfold.ends rfl

/-- `cold_done`: what comes due is in hand. -/
private theorem coldMoved (h : Accounts reassert sent hand coming r) (seq : Option Nat)
    (hlog : q.log = r.log) (hmerger : q.merger = r.merger.coldDone seq) :
    Accounts reassert sent (hand ++ r.merger.due seq) coming q := by
  -- what comes due and what stays parked are a splitting of what was parked
  have hperm : (r.merger.due seq ++ (r.merger.coldDone seq).parked.map Prod.snd).Perm
      (r.merger.parked.map Prod.snd) := by
    have hsplit := List.filter_append_perm
      (fun p : Nat × Msg β V δ => decide (p.1 ≤ (r.merger.coldDone seq).coldApplied))
      r.merger.parked
    have hrest : (r.merger.coldDone seq).parked = r.merger.parked.filter
        fun p => !decide (p.1 ≤ (r.merger.coldDone seq).coldApplied) := by
      apply List.filter_congr
      intro p _
      rw [← decide_not]
      exact decide_eq_decide.mpr Nat.not_le.symm
    rw [hrest, LaneMerger.due, ← List.map_append]
    exact hsplit.map Prod.snd
  have hperm' : ((hand ++ r.merger.due seq) ++ (r.merger.coldDone seq).parked.map Prod.snd).Perm
      (hand ++ r.merger.parked.map Prod.snd) := by
    rw [List.append_assoc]
    exact hperm.append_left hand
  have hleft : ∀ p ∈ (r.merger.coldDone seq).parked, p ∈ r.merger.parked ∧
      (r.merger.coldDone seq).coldApplied < p.1 :=
    fun p hp => (LaneMerger.mem_coldDone_parked ..).mp hp
  -- taken: nothing is written down
  constructor
  · rw [hlog]
    exact h.taken
  · -- done, held, nodup: what comes due is in hand instead of parked
    rw [hlog, hmerger]
    intro m hm
    exact (h.done m hm).imp_right hperm'.mem_iff.mpr
  · rw [hlog, hmerger]
    exact fun m hm => h.held m (hperm'.mem_iff.mp hm)
  · rw [hmerger]
    exact hperm'.nodup_iff.mpr h.nodup
  · -- parked: what stays waits for more than the new count
    rw [hmerger]
    intro p hp
    obtain ⟨hmem, hlt⟩ := hleft p hp
    exact ⟨(h.parked p hmem).1, hlt, (h.parked p hmem).2.2⟩
  · -- fresh: what stays was parked before
    rw [hmerger]
    intro m hm
    apply h.fresh m
    apply List.mem_append.mpr
    apply (List.mem_append.mp hm).imp_left
    intro hm
    obtain ⟨p, hp, rfl⟩ := List.mem_map.mp hm
    exact List.mem_map_of_mem (hleft p hp).1
  · -- heard, ends: the fast lane is left alone
    rw [hmerger]
    exact h.heard
  · rw [hlog]
    exact h.ends

/-- What comes due is no repair's end. -/
private theorem due_kind (h : Accounts reassert sent hand coming r) (seq : Option Nat) :
    ∀ m ∈ r.merger.due seq, m.header.kind ≠ .resyncEnd := by
  intro m hm
  obtain ⟨a, hmem, -⟩ := (LaneMerger.mem_due ..).mp hm
  exact (h.parked _ hmem).2.2

/-- `_release(_merger.cold_done(seq))`. -/
theorem coldDone (h : Accounts reassert sent [] coming r) (hsent : FastStream f0 sent)
    (seq : Option Nat) : Accounts reassert sent [] coming (coldDone B r seq) :=
  release B hsent _ (h.coldMoved seq rfl rfl) (h.due_kind seq)

/-- A bootstrap that every fast message seen so far may precede. -/
theorem boot (h : Accounts reassert sent [] coming r) {e : Pending β δ}
    (hboot : e.isBoot = true) (rest : List (Pending β δ))
    (hafter : ∀ x ∈ fastSeen r.log,
      x.header.after ≤ LaneMerger.appliedAfter r.merger.coldApplied e.seq) :
    Accounts reassert sent (applyNext B r e rest).2.2 coming (applyNext B r e rest).1 ∧
      ∀ m ∈ (applyNext B r e rest).2.2, m.header.kind ≠ .resyncEnd := by
  have hmoved := h.coldMoved (q := { r with merger := r.merger.coldDone e.seq }) e.seq rfl rfl
  have hnone : (r.merger.coldDone e.seq).parked = [] := by
    apply List.eq_nil_iff_forall_not_mem.mpr
    intro p hp
    obtain ⟨hmem, hlt⟩ := (LaneMerger.mem_coldDone_parked ..).mp hp
    have hle := hafter p.2 (h.held p.2 (List.mem_map_of_mem hmem))
    rw [← (h.parked p hmem).1] at hle
    exact absurd hlt (Nat.not_lt.mpr hle)
  obtain ⟨d, reported, heq⟩ := applyNext_boot B r hboot rest
  rw [heq]
  refine ⟨?_, h.due_kind e.seq⟩
  apply hmoved.cleared hnone
  · simp [fastSeen]
  · simp [QCBridge.fastDone]
  · suffices hend : History (AfterReasserts reassert sent) (r.log ++ [Ev.applied e]) from
      hend.snoc trivial
    exact h.ends.snoc trivial
  · rfl

/-- A blob that is no bootstrap, whether it applies or raises. -/
theorem applyNext (h : Accounts reassert sent hand coming r) {e : Pending β δ}
    (hboot : e.isBoot = false) (rest : List (Pending β δ)) :
    Accounts reassert sent (hand ++ (applyNext B r e rest).2.2) coming
      (applyNext B r e rest).1 := by
  obtain ⟨d, reapply, heq⟩ := applyNext_blob B r hboot rest
  rw [heq]
  have happlied : Accounts reassert sent hand coming { r with log := r.log ++ [Ev.applied e] } :=
    h.entry rfl rfl rfl rfl
  exact happlied.coldMoved e.seq rfl rfl

/-- The batch loop past its first blob. -/
theorem batchLoop (budget : Nat) (es : List (Pending β δ)) (applied : Nat)
    (happlied : applied ≠ 0) (reapply : List Uuid) (due : List (Msg β V δ))
    (h : Accounts reassert sent due coming r) (hkinds : ∀ m ∈ due, m.header.kind ≠ .resyncEnd) :
    Accounts reassert sent (batchLoop B budget es applied r reapply due).2.2 coming
        (batchLoop B budget es applied r reapply due).1 ∧
      ∀ m ∈ (batchLoop B budget es applied r reapply due).2.2, m.header.kind ≠ .resyncEnd := by
  induction es generalizing r applied reapply due with
  | nil => exact ⟨h, hkinds⟩
  | cons e rest ih =>
    unfold Replica.batchLoop
    by_cases hstop : applied ≠ 0 ∧ (e.isBoot = true ∨ budget ≤ applied)
    · rw [if_pos hstop]
      exact ⟨h, hkinds⟩
    · rw [if_neg hstop]
      -- a bootstrap stops the loop here
      have hboot : e.isBoot = false := by
        by_contra hboot
        exact hstop ⟨happlied, .inl (by simpa using hboot)⟩
      simp only [hboot, Bool.false_eq_true, if_false]
      apply ih
      · omega
      · exact h.applyNext B hboot rest
      · intro m hm
        rcases List.mem_append.mp hm with hm | hm
        · exact hkinds m hm
        · rw [(pump_applyNext B r e rest).2] at hm
          exact h.due_kind e.seq m hm

/-- `_apply_pending_batch`. -/
theorem applyPendingBatch (h : Accounts reassert sent [] coming r) (hsent : FastStream f0 sent)
    (budget : Nat)
    (hafter : ∀ e ∈ r.pending.head?, e.isBoot = true → ∀ x ∈ fastSeen r.log,
      x.header.after ≤ LaneMerger.appliedAfter r.merger.coldApplied e.seq) :
    Accounts reassert sent [] coming (applyPendingBatch B budget r) := by
  -- the loop first: it ends with what is due in hand, and no repair's end among it
  have hloop : Accounts reassert sent
        (Replica.batchLoop B budget r.pending 0 r [] []).2.2 coming
        (Replica.batchLoop B budget r.pending 0 r [] []).1 ∧
      ∀ m ∈ (Replica.batchLoop B budget r.pending 0 r [] []).2.2,
        m.header.kind ≠ .resyncEnd := by
    cases hpending : r.pending with
    | nil => exact ⟨h, by simp [Replica.batchLoop]⟩
    | cons e rest =>
      unfold Replica.batchLoop
      rw [if_neg (by simp)]
      -- a bootstrap is taken alone, any other entry starts a batch
      by_cases hboot : e.isBoot = true
      · simp only [hboot, if_true]
        exact h.boot B hboot rest (hafter e (by simp [hpending]) hboot)
      · have hboot : e.isBoot = false := by simpa using hboot
        simp only [hboot, Bool.false_eq_true, if_false]
        apply batchLoop
        · omega
        · exact h.applyNext B hboot rest
        · rw [List.nil_append, (pump_applyNext B r e rest).2]
          exact h.due_kind e.seq
  -- what is due is released after it
  unfold Replica.applyPendingBatch
  apply release B hsent
  · exact hloop.1.same rfl rfl hloop.1.ends rfl
  · exact hloop.2

variable [Inhabited β]

/-- A chunk of a blob. -/
theorem dispatchChunk (h : Accounts reassert sent [] coming r) (hsent : FastStream f0 sent)
    (m : Msg β V δ) (b : Chunk) :
    Accounts reassert sent [] coming (dispatchChunk B r m b) := by
  unfold Replica.dispatchChunk
  dsimp only
  split
  · exact h.same rfl rfl h.ends rfl
  · apply coldDone B _ hsent
    exact h.same rfl rfl h.ends rfl

/-- A dispatched cold message. -/
theorem dispatchCold (h : Accounts reassert sent [] coming r) (hsent : FastStream f0 sent)
    {m : Msg β V δ} (hlane : m.header.lane = .cold) :
    Accounts reassert sent [] coming (dispatchCold B r m) := by
  have hlog : Accounts reassert sent [] coming { r with log := r.log ++ [Ev.dispatched m] } :=
    h.entry rfl rfl (by simp [QCBridge.fastDone, hlane]) rfl
  unfold Replica.dispatchCold
  cases hk : m.header.kind
  case resyncEnd =>
    apply coldDone B _ hsent
    -- a cold end clears the cold hole only
    apply hlog.entry (x := .ended m.header _) rfl rfl rfl
    simp [endResync, hlane, LaneMerger.fastSide, LaneMerger.clearColdGap]
  case libfile =>
    cases m.header.blob with
    | none => exact hlog
    | some b =>
      dsimp only
      split
      · apply coldDone B _ hsent
        exact hlog.same rfl rfl hlog.ends rfl
      · exact hlog.same rfl rfl hlog.ends rfl
  case t2 =>
    cases m.header.blob with
    | none => exact hlog
    | some b => exact hlog.dispatchChunk B hsent m b
  case boot =>
    cases m.header.blob with
    | none => exact hlog
    | some b => exact hlog.dispatchChunk B hsent m b
  all_goals
    apply coldDone B _ hsent
    exact hlog.same rfl rfl hlog.ends rfl

omit [Inhabited β] in
/-- A fast message is taken: it is in hand. -/
private theorem observedFast {m : Msg β V δ} (h : Accounts reassert sent [] (m :: coming) r)
    (hsent : FastStream f0 sent) : Accounts reassert sent [m] coming (r.observed m) := by
  have hmsent : m ∈ sent := h.taken.subset (by simp)
  have hlane := hsent.lane m hmsent
  have hseq := (hsent.seq m hmsent).1
  have hlog : (r.observed m).log = r.log ++ [Ev.seen m] := rfl
  have hmerger : (r.observed m).merger =
      { r.merger with fast := r.merger.fast.observe m.seqNo } := by
    simp only [Replica.observed, LaneMerger.observe, hseq, hlane]
  have hseen : fastSeen (r.observed m).log = fastSeen r.log ++ [m] := by
    rw [hlog, fastSeen_append]
    simp [fastSeen, hlane]
  have hdone : fastDone (r.observed m).log = fastDone r.log := by
    rw [hlog, fastDone_append]
    exact List.append_nil _
  have hord := List.Pairwise.sublist h.taken hsent.order
  rw [List.pairwise_append, List.pairwise_cons] at hord
  constructor
  · rw [hseen, List.append_assoc]
    exact h.taken
  · rw [hseen, hdone, hmerger]
    intro x hx
    rcases List.mem_append.mp hx with hx | hx
    · exact (h.done x hx).imp_right fun hx => List.mem_append_right _ hx
    · exact .inr (List.mem_append_left _ hx)
  · rw [hseen, hmerger]
    intro x hx
    rcases List.mem_append.mp hx with hx | hx
    · exact List.mem_append_right _ hx
    · exact List.mem_append_left _ (h.held x hx)
  · rw [hmerger]
    refine List.nodup_cons.mpr ⟨fun hmem => ?_, h.nodup⟩
    -- what is held was taken before
    have hlt := hord.2.2 m (h.held m hmem) m (by simp)
    exact Nat.lt_irrefl _ hlt
  · rw [hmerger]
    exact h.parked
  · rw [hmerger]
    intro x hx
    apply h.fresh x
    apply List.mem_append.mpr
    apply (List.mem_append.mp hx).imp_right
    exact fun hx => List.mem_cons_of_mem _ hx
  · rw [hmerger]
    intro x hx
    have hlt := hord.2.1.1 x hx
    have hheard := h.heard x (List.mem_cons_of_mem _ hx)
    show ((r.merger.fast.observe m.seqNo).lastSeen.getD 0) < x.seqNo
    unfold SeqTracker.observe
    cases hlast : r.merger.fast.lastSeen with
    | none => exact hlt
    | some k =>
      rw [hlast] at hheard
      exact max_lt hheard hlt
  · rw [hlog]
    exact h.ends.snoc trivial

omit [Inhabited β] in
/-- A fast message that must wait. -/
theorem parkMsg {m : Msg β V δ} (h : Accounts reassert sent [m] coming r)
    (hwait : r.merger.coldApplied < m.header.after) (hkind : m.header.kind ≠ .resyncEnd)
    (hnew : r.merger.fastApplied < m.seqNo ∧ m.seqNo ∉ r.merger.fastDoneSet) :
    Accounts reassert sent [] coming (r.parkMsg m) := by
  have hmerger : (r.parkMsg m).merger = r.merger.park m := rfl
  -- parking puts the message behind the others
  have hparked : (r.parkMsg m).merger.parked.map Prod.snd =
      r.merger.parked.map Prod.snd ++ [m] := by
    rw [hmerger, LaneMerger.park_parked, List.map_append]
    rfl
  have hperm : ([] ++ (r.merger.parked.map Prod.snd ++ [m])).Perm
      ([m] ++ r.merger.parked.map Prod.snd) := by
    rw [List.nil_append]
    exact List.perm_append_comm
  refine ⟨h.taken, ?_, ?_, ?_, ?_, ?_, h.heard, h.ends⟩
  · -- done, held, nodup: it is parked instead of in hand
    rw [hparked]
    exact fun x hx => (h.done x hx).imp_right hperm.mem_iff.mpr
  · rw [hparked]
    exact fun x hx => h.held x (hperm.mem_iff.mp hx)
  · rw [hparked]
    exact hperm.nodup_iff.mpr h.nodup
  · -- parked: it waits for more than the count of the cold lane
    rw [hmerger, LaneMerger.park_parked, LaneMerger.park_coldApplied]
    intro p hp
    rcases List.mem_append.mp hp with hp | hp
    · exact h.parked p hp
    · obtain rfl := List.mem_singleton.mp hp
      exact ⟨rfl, hwait, hkind⟩
  · -- fresh: a parked message is as new as it was in hand
    rw [hparked, List.append_assoc]
    intro x hx
    rcases List.mem_append.mp hx with hx | hx
    · exact h.fresh x (List.mem_append_left _ hx)
    · rcases List.mem_append.mp hx with hx | hx
      · obtain rfl := List.mem_singleton.mp hx
        exact hnew
      · exact h.fresh x (List.mem_append_right _ hx)

/-- A fast message. -/
private theorem handleFast {m : Msg β V δ} (h : Accounts reassert sent [] (m :: coming) r)
    (hsent : FastStream f0 sent)
    (hend : m.header.kind = .resyncEnd →
      (∀ x ∈ fastSeen r.log, x.header.after ≤ r.merger.coldApplied) ∧
        ∀ x ∈ sent, x.seqNo < m.seqNo → reassert x → x ∈ fastSeen r.log) :
    Accounts reassert sent [] coming (handle B r m) := by
  have hmsent : m ∈ sent := h.taken.subset (by simp)
  have hlane := hsent.lane m hmsent
  have hseen := h.observedFast hsent
  have hcold : (r.observed m).merger.coldApplied = r.merger.coldApplied :=
    LaneMerger.observe_coldApplied ..
  have hparked : (r.observed m).merger.parked = r.merger.parked :=
    LaneMerger.observe_parked ..
  unfold Replica.handle
  by_cases hadm : (r.observed m).merger.admits m = true
  · simp only [hadm, if_true, dispatch, hlane]
    by_cases hkind : m.header.kind = .resyncEnd
    · obtain ⟨hafter, harrived⟩ := hend hkind
      apply hseen.dispatchEnd B hsent hkind
      · -- whatever was parked would still be waiting
        rw [hparked]
        apply List.eq_nil_iff_forall_not_mem.mpr
        intro p hp
        obtain ⟨hname, hwait, -⟩ := h.parked p hp
        have hle := hafter p.2 (h.held p.2 (List.mem_map_of_mem hp))
        omega
      · intro x hx hlt hre
        exact mem_fastSeen.mpr ⟨List.mem_append_left _ (mem_fastSeen.mp (harrived x hx hlt hre)).1,
          hsent.lane x hx⟩
    · exact hseen.dispatchFast B hsent hkind
  · simp only [hadm]
    have hwait : r.merger.coldApplied < m.header.after := by
      simpa [LaneMerger.admits, hlane, hcold] using hadm
    apply hseen.parkMsg
    · rw [hcold]
      exact hwait
    · intro hkind
      rw [hsent.ends m hmsent hkind] at hwait
      omega
    · have hnew := h.fresh m (by simp)
      have hseq := (hsent.seq m hmsent).1
      simpa only [Replica.observed, LaneMerger.observe, hseq, hlane] using hnew

/-- A cold message. -/
private theorem handleCold (h : Accounts reassert sent [] coming r) (hsent : FastStream f0 sent)
    {m : Msg β V δ} (hlane : m.header.lane = .cold) :
    Accounts reassert sent [] coming (handle B r m) := by
  have hseen : Accounts reassert sent [] coming (r.observed m) := by
    apply h.entry (x := .seen m) rfl
    · simp [fastSeen, hlane]
    · rfl
    · cases hs : m.header.seq with
      | none => simp only [Replica.observed, LaneMerger.observe, hlane, hs]
      | some s => simp only [Replica.observed, LaneMerger.observe, hlane, hs, LaneMerger.fastSide]
  have hadm : (r.observed m).merger.admits m = true := by
    simp [LaneMerger.admits, hlane]
  unfold Replica.handle dispatch
  simp only [hadm, if_true, hlane]
  exact hseen.dispatchCold B hsent hlane

end Accounts

/-! ## Runs -/

section

variable {reassert : Msg β V δ → Prop} {f0 : Nat} {sent : List (Msg β V δ)}

/-- What holds of a node between two actions. -/
structure Node.Accounts (reassert : Msg β V δ → Prop) (sent : List (Msg β V δ))
    (n : Node β V δ S) : Prop where
  replica : QCBridge.Accounts reassert sent [] n.order.fast n.replica
  cold : ∀ m ∈ n.order.cold, m.header.lane = .cold

/-- What is lost on the way is never taken. -/
theorem Accounts.lose {coming coming' : List (Msg β V δ)} {r : Replica β V δ S}
    (h : QCBridge.Accounts reassert sent [] coming r) (hsub : coming'.Sublist coming) :
    QCBridge.Accounts reassert sent [] coming' r where
  taken := (hsub.append_left _).trans h.taken
  done := h.done
  held := h.held
  nodup := h.nodup
  parked := h.parked
  fresh m hm := h.fresh m (List.mem_append.mpr
    ((List.mem_append.mp hm).imp_right fun hm => hsub.subset hm))
  heard m hm := h.heard m (hsub.subset hm)
  ends := h.ends

/-- A turn in which a message is taken off a lane and handled. -/
theorem Node.Accounts.took [Inhabited β] (B : Blender β V δ S) (hsent : FastStream f0 sent)
    {n n' : Node β V δ S} {kf kc : Nat} {m : Msg β V δ} (h : n.Accounts reassert sent)
    (htake : n.take kf kc = (n', some m))
    (hclear : m.header.lane = .fast → m.header.kind = .resyncEnd →
      (∀ x ∈ fastSeen n.replica.log, x.header.after ≤ n.replica.merger.coldApplied) ∧
        ∀ x ∈ sent, x.seqNo < m.seqNo → reassert x → x ∈ fastSeen n.replica.log) :
    Node.Accounts reassert sent { n' with replica := n'.replica.handle B m } := by
  obtain ⟨hrep, hcold⟩ := h
  obtain ⟨-, -, hlog, hmerger, hq⟩ := Node.take_some htake
  have hqueues : ({ n' with replica := n'.replica.handle B m } : Node β V δ S).order =
      ⟨(n'.replica.handle B m).pump, n'.order.cold, n'.order.fast⟩ :=
    Node.order_replica (Replica.inboxes_handle B n'.replica m)
  have hsame : ∀ {coming}, QCBridge.Accounts reassert sent [] coming n.replica →
      QCBridge.Accounts reassert sent [] coming n'.replica := by
    intro coming hacc
    apply hacc.same
    · rw [hlog]
    · rw [hlog]
    · rw [hlog]
      exact hacc.ends
    · rw [hmerger]
  rcases hq with ⟨hfast, hrest⟩ | ⟨htaken, hrest⟩
  · -- a fast message
    rw [hfast] at hrep
    have hlane : m.header.lane = .fast := hsent.lane m (hrep.taken.subset (by simp))
    constructor
    · rw [hqueues]
      apply (hsame hrep).handleFast B hsent
      intro hkind
      rw [hlog, hmerger]
      exact hclear hlane hkind
    · rw [hqueues]
      intro x hx
      exact hcold x (by rw [hrest]; exact hx)
  · -- a cold message
    have hlane : m.header.lane = .cold := hcold m (by rw [htaken]; simp)
    rw [hrest] at hrep
    constructor
    · rw [hqueues]
      exact (hsame hrep).handleCold B hsent hlane
    · rw [hqueues]
      intro x hx
      exact hcold x (by rw [htaken]; exact List.mem_cons_of_mem _ hx)

/-- One step of a lossy run. -/
theorem Node.Accounts.step [Inhabited β] (B : Blender β V δ S) (hsent : FastStream f0 sent)
    {n : Node β V δ S} {a : LossyAct} (h : n.Accounts reassert sent)
    (hclear : n.ClearsNone reassert sent a) : (n.lossyStep B a).Accounts reassert sent := by
  obtain ⟨hrep, hcold⟩ := h
  cases a with
  -- a message of one lane is lost
  | lose l =>
    cases l with
    | cold =>
      refine ⟨hrep, fun m hm => hcold m ?_⟩
      exact List.mem_append.mpr ((List.mem_append.mp hm).imp_right List.mem_of_mem_tail)
    | fast =>
      exact ⟨hrep.lose ((List.tail_sublist _).append_left _), hcold⟩
  | act a =>
    cases a with
    -- the turn takes a message of the two inboxes, or none
    | turn kf kc =>
      unfold Node.lossyStep Node.step
      dsimp only
      cases htake : n.take kf kc with
      | mk n' out =>
        cases out with
        | none =>
          rw [Node.take_none htake]
          exact ⟨hrep, hcold⟩
        | some m =>
          apply Node.Accounts.took B hsent ⟨hrep, hcold⟩ htake
          exact fun hlane hkind => hclear m (by rw [htake]; rfl) hlane hkind
    -- the batch leaves both inboxes alone
    | batch budget =>
      have hqueues : (n.step B (.batch budget)).order =
          ⟨(n.replica.applyPendingBatch B budget).pump, n.order.cold, n.order.fast⟩ :=
        Node.order_replica (Replica.inboxes_applyPendingBatch B budget n.replica)
      constructor
      · show QCBridge.Accounts reassert sent [] (n.step B (.batch budget)).order.fast _
        rw [hqueues]
        exact hrep.applyPendingBatch B hsent budget hclear
      · show ∀ m ∈ (n.step B (.batch budget)).order.cold, m.header.lane = .cold
        rw [hqueues]
        exact hcold

/-- A fresh session. -/
theorem Node.Accounts.start (scene : S) (c0 : Nat) {cold : List (Msg β V δ)}
    (hcold : ∀ m ∈ cold, m.header.lane = .cold) (hsent : FastStream f0 sent) :
    (Node.start scene c0 f0 cold sent).Accounts reassert sent where
  replica := by
    refine ⟨List.Sublist.refl _, fun m hm => (List.not_mem_nil hm).elim,
      fun m hm => (List.not_mem_nil hm).elim, List.nodup_nil,
      fun p hp => (List.not_mem_nil hp).elim, ?_, ?_, History.nil⟩
    · intro m hm
      exact ⟨(hsent.seq m hm).2, List.not_mem_nil⟩
    · intro m hm
      exact (hsent.seq m hm).2
  cold := hcold

/-- Between two actions nothing is in hand: what the counter covers is applied. -/
private theorem Accounts.caughtUp {coming : List (Msg β V δ)} {r : Replica β V δ S}
    (h : QCBridge.Accounts reassert sent [] coming r) : CaughtUp reassert sent r where
  applied n hn m hm hlane hle := by
    have hnot : m ∉ r.merger.parked.map Prod.snd := by
      intro hmem
      have hlt := (h.fresh m (List.mem_append_left _ hmem)).1
      omega
    constructor
    · rcases h.done m (mem_fastSeen.mpr ⟨hm, hlane⟩) with hdone | hheld
      · exact (mem_fastDone.mp hdone).1
      · exact absurd hheld hnot
    · rintro q hq rfl
      exact hnot (List.mem_map_of_mem hq)
  ends := h.ends

end

/-! ## Sessions -/

/-- The end of a re-assert follows no cold message. -/
private theorem Ledger.fast_ends (c0 f0 : Nat) (acts : List (LedgerAct β V δ)) :
    ∀ m ∈ ((Ledger.start c0 f0).run acts).fastLane, m.header.kind = .resyncEnd →
      m.header.after = 0 := by
  apply foldl_invariant (f := Ledger.step) (I := fun l : Ledger β V δ =>
    ∀ m ∈ l.fastLane, m.header.kind = .resyncEnd → m.header.after = 0)
  · intro l a hl m hm hkind
    rw [Ledger.fastLane_step] at hm
    rcases List.mem_append.mp hm with hm | hm
    · exact hl m hm hkind
    · cases a with
      | t1 u changes targets full sd =>
        obtain rfl := List.mem_singleton.mp hm
        cases hkind
      | tomb u =>
        obtain rfl := List.mem_singleton.mp hm
        cases hkind
      | endFast =>
        obtain rfl := List.mem_singleton.mp hm
        rfl
      | _ => cases hm
  · exact fun m hm => (List.not_mem_nil hm).elim

/-- What a session sends on the fast lane. -/
private theorem Host.run_fastStream [BEq V] [DecidableEq δ] (H : Digests β V δ)
    (w : World β V) (c0 f0 : Nat) (calls : List (World β V × Call β δ)) :
    FastStream f0 ((start w c0 f0).run H calls).ledger.fastLane := by
  have hstreams := run_streams H w c0 f0 calls
  have hno : ∀ i m, ((start w c0 f0).run H calls).ledger.fastLane[i]? = some m →
      m.seqNo = f0 + i + 1 := by
    intro i m hm
    rw [Msg.seqNo, (hstreams.fast i m hm).2]
    rfl
  constructor
  · exact hstreams.lane_fast
  · intro m hm
    obtain ⟨i, hi⟩ := List.mem_iff_getElem?.mp hm
    rw [(hstreams.fast i m hi).2, hno i m hi]
    exact ⟨rfl, by omega⟩
  · apply List.pairwise_iff_getElem.mpr
    intro i j hi hj hlt
    rw [hno i _ (List.getElem?_eq_getElem hi), hno j _ (List.getElem?_eq_getElem hj)]
    omega
  · rw [(run_ledger H w c0 f0 calls).1]
    exact Ledger.fast_ends c0 f0 _

/-- In every run in which nothing that has arrived waits for the cold lane when a repair's
    end or a bootstrap declares the fast lane whole, and no re-assert is missing then,
    everything up to `fast_applied` is applied, and an end is processed behind the
    re-asserts sent before it. -/
theorem caught_up [Inhabited β] [BEq V] [DecidableEq δ] (H : Digests β V δ)
    (w : World β V) (c0 f0 : Nat) (calls : List (World β V × Host.Call β δ))
    (B : Blender β V δ S) (scene : S) (reassert : Msg β V δ → Prop) (acts : List LossyAct)
    (h : Along (Node.lossyStep B)
      (Node.ClearsNone reassert ((Host.start w c0 f0).run H calls).ledger.fastLane)
      (Node.start scene c0 f0 ((Host.start w c0 f0).run H calls).ledger.coldLane
        ((Host.start w c0 f0).run H calls).ledger.fastLane) acts) :
    let l := ((Host.start w c0 f0).run H calls).ledger
    CaughtUp reassert l.fastLane
      (acts.foldl (Node.lossyStep B) (Node.start scene c0 f0 l.coldLane l.fastLane)).replica := by
  intro l
  have hsent : FastStream f0 l.fastLane := Host.run_fastStream H w c0 f0 calls
  have hcold : ∀ m ∈ l.coldLane, m.header.lane = .cold :=
    (Host.run_streams H w c0 f0 calls).lane_cold
  have hrun := h.invariant (I := Node.Accounts reassert l.fastLane)
    (fun n a hn ha => hn.step B hsent ha) (Node.Accounts.start scene c0 hcold hsent)
  exact hrun.replica.caughtUp

/-! ## A counter that runs ahead -/

instance (reassert : Msg β V δ → Prop) [DecidablePred reassert] [DecidableEq β] [DecidableEq V]
    [DecidableEq δ] (sent : List (Msg β V δ)) (n : Node β V δ S) :
    (a : LossyAct) → Decidable (n.ClearsNone reassert sent a)
  | .lose _ => .isTrue trivial
  | .act (.turn kf kc) =>
    decidable_of_iff ((n.take kf kc).2.all (fun m =>
      m.header.lane ≠ .fast || m.header.kind ≠ .resyncEnd ||
        (fastSeen n.replica.log).all (·.header.after ≤ n.replica.merger.coldApplied) &&
          sent.all fun x =>
            m.seqNo ≤ x.seqNo || !reassert x || x ∈ fastSeen n.replica.log) = true) (by
      simp [Node.ClearsNone, Option.all_eq_true, imp_iff_not_or, or_assoc])
  | .act (.batch _) =>
    decidable_of_iff (n.replica.pending.head?.all (fun e =>
      !e.isBoot || (fastSeen n.replica.log).all fun x =>
        x.header.after ≤ LaneMerger.appliedAfter n.replica.merger.coldApplied e.seq) = true) (by
      simp [Node.ClearsNone, Option.all_eq_true, imp_iff_not_or])

namespace Window

open Camera

/-- The camera is set to `"b"`, then to `"c"`; the replica asks for what it missed since
    the first of these edits. -/
def calls : List (World (Entry String) String × Host.Call (Entry String) Digest) :=
  Camera.calls "c" ++ [(seen "c" 160, .fastWindow 1), (seen "c" 160, .tick)]

/-- The host's lanes after that: the two edits, the re-assert and its end. -/
def ledger : Ledger (Entry String) String Digest :=
  ((Host.start file 0 0).run digests calls).ledger

/-- The re-assert is a full snapshot. -/
def full (m : Msg (Entry String) String Digest) : Prop := m.header.full = true

instance : DecidablePred full := fun m => inferInstanceAs (Decidable (m.header.full = true))

/-- The replica after `acts`. -/
def node (acts : List LossyAct) : Node (Entry String) String Digest (Scene String) :=
  acts.foldl (Node.lossyStep (.keyed String Digest))
    (Node.start (fun _ => none) 0 0 ledger.coldLane ledger.fastLane)

/-- The bootstrap is applied and the first edit is lost. -/
def lost : List LossyAct := [.act (.turn 0 1), .act (.batch 16), .lose .fast]

/-- The second edit, the re-assert and its end are all there before the cameras' blobs. -/
def early : List LossyAct := lost ++ [.act (.turn 3 0), .act (.turn 0 0), .act (.turn 0 0)]

/-- The cameras' blobs are applied before the re-assert arrives. -/
def late : List LossyAct :=
  lost ++ [.act (.turn 1 0), .act (.turn 0 2), .act (.turn 0 0), .act (.batch 16),
    .act (.turn 2 0), .act (.turn 0 0)]

end Window

open Camera Window in
/-- The end follows nothing and overtakes the re-assert, which is parked behind the blob of
    `"c"`: the counter covers both. -/
theorem caught_up_counterexample :
    (node early).replica.merger.fastApplied = 4 ∧
      (node early).replica.merger.parked.map (fun q => (q.1, q.2.seqNo)) = [(3, 2), (3, 3)] ∧
      ¬ CaughtUp full ledger.fastLane (node early).replica := by
  refine ⟨by decide +kernel, by decide +kernel, fun h => ?_⟩
  have hsome : (node early).replica.merger.parked ≠ [] := by decide +kernel
  have hseen : ((node early).replica.merger.parked.map Prod.snd).all
      fun m => decide (m ∈ fastSeen (node early).replica.log) && decide (m.seqNo ≤ 4) := by
    decide +kernel
  have happlied : 4 ≤ (node early).replica.merger.fastApplied := by decide +kernel
  obtain ⟨q, hq⟩ := List.exists_mem_of_ne_nil _ hsome
  have hqm := List.all_eq_true.mp hseen q.2 (List.mem_map_of_mem hq)
  rw [Bool.and_eq_true, decide_eq_true_eq, decide_eq_true_eq] at hqm
  obtain ⟨hlog, hlane⟩ := mem_fastSeen.mp hqm.1
  exact (h.applied 4 happlied q.2 hlog hlane hqm.2).2 q hq rfl

open Camera Window in
/-- With the blobs applied first nothing is parked, and the counter covers what is
    applied. -/
theorem caught_up_late :
    CaughtUp full ledger.fastLane (node late).replica ∧
      (node late).replica.merger.fastApplied = 4 ∧ (node late).replica.merger.parked = [] :=
  ⟨caught_up digests file 0 0 Window.calls (.keyed String Digest) (fun _ => none) full late
    (by decide +kernel), by decide +kernel, by decide +kernel⟩

end QCBridge
