import QCBridge.Ring0.Emission
import QCBridge.Spec.Holes
import QCBridge.Spec.HostStream
import QCBridge.Spec.RaisingRun
import QCBridge.Spec.Steady

/-!
# No holes of the host's own making

Whatever the transport refuses, and wherever a tick is cut short, the messages that leave
carry the seqs one after the other on each lane. A replica primed with the counters as they
stand, on lanes that lose nothing, finds each message where its tracker expects it.

## Key results

- `Ledger.Counted`: the invariant of the sending half, and one lemma for each step
- `Replica.Unbroken`: the trackers of a replica that has seen no gap
- `Host.no_holes`: the seqs of any session, and what a replica makes of them
-/

namespace QCBridge

variable {β V δ S : Type}

/-- The messages of a lane, numbered from `k + 1` on. -/
def CountsFrom (lane : Lane) : Nat → List (Msg β V δ) → Prop
  | _, [] => True
  | k, m :: ms => m.header.lane = lane ∧ m.header.seq = some (k + 1) ∧ CountsFrom lane (k + 1) ms

namespace CountsFrom

variable {lane : Lane} {k : Nat} {ms : List (Msg β V δ)}

theorem append_iff (more : List (Msg β V δ)) :
    CountsFrom lane k (ms ++ more) ↔
      CountsFrom lane k ms ∧ CountsFrom lane (k + ms.length) more := by
  induction ms generalizing k with
  | nil => simp [CountsFrom]
  | cons m ms ih =>
    simp only [List.cons_append, CountsFrom, ih, List.length_cons, and_assoc]
    rw [show k + 1 + ms.length = k + (ms.length + 1) by omega]

/-- One more message. -/
theorem snoc (h : CountsFrom lane k ms) {m : Msg β V δ} (hlane : m.header.lane = lane)
    {n : Nat} (hn : n = k + ms.length) : CountsFrom lane k (ms ++ [m.withSeq (n + 1)]) := by
  subst hn
  exact (append_iff _).mpr ⟨h, hlane, rfl, trivial⟩

/-- The seqs, as a list. -/
theorem seqs (h : CountsFrom lane k ms) :
    ms.map (fun m => m.header.seq) = (List.range' (k + 1) ms.length).map some := by
  induction ms generalizing k with
  | nil => rfl
  | cons m ms ih =>
    obtain ⟨-, hseq, hrest⟩ := h
    rw [List.map_cons, hseq, ih hrest, List.length_cons, List.range'_succ, List.map_cons]

end CountsFrom

/-! ## The sending half -/

/-- The chunks of a blob go on the cold lane. -/
def Outgoing.Cold (o : Outgoing β V δ) : Prop := ∀ m ∈ o.chunks, m.header.lane = .cold

private theorem Outgoing.cold_chunkBlob (kind : Kind) (id id' : BlobId) (data data' : List β)
    {info : Header δ} (hinfo : info.lane = .cold) (chunkSize : Nat) :
    (⟨id', data', chunkBlob kind id data info chunkSize⟩ : Outgoing β V δ).Cold := by
  intro m hm
  obtain ⟨i, -, rfl⟩ := List.mem_map.mp hm
  exact hinfo

/-- The lanes carry the seqs one after the other, and the counters stand at the last. -/
structure Ledger.Counted (c0 f0 : Nat) (l : Ledger β V δ) : Prop where
  cold : CountsFrom .cold c0 l.coldLane
  seq : l.seq = c0 + l.coldLane.length
  fast : CountsFrom .fast f0 l.fastLane
  seqFast : l.seqFast = f0 + l.fastLane.length
  boot : ∀ o, l.bootOutbox = some o → o.Cold
  lib : ∀ o ∈ l.libOutbox, o.Cold
  t2 : ∀ u o, l.t2Outbox.get? u = some o → o.Cold

namespace Ledger.Counted

variable {c0 f0 : Nat} {l : Ledger β V δ}

theorem start (c0 f0 : Nat) : (Ledger.start c0 f0 : Ledger β V δ).Counted c0 f0 :=
  ⟨trivial, rfl, trivial, rfl, by simp [Ledger.start], by simp [Ledger.start],
    by simp [Ledger.start]⟩

theorem pushCold (h : l.Counted c0 f0) {m : Msg β V δ} (hm : m.header.lane = .cold) :
    (l.pushCold m).Counted c0 f0 where
  cold := by
    rw [coldLane_pushCold]
    exact h.cold.snoc hm h.seq
  seq := by
    rw [coldLane_pushCold, List.length_append]
    simp only [Ledger.pushCold, h.seq, List.length_singleton]
    omega
  fast := (fastLane_pushCold l m).symm ▸ h.fast
  seqFast := (fastLane_pushCold l m).symm ▸ h.seqFast
  boot := h.boot
  lib := h.lib
  t2 := h.t2

theorem pushFast (h : l.Counted c0 f0) {m : Msg β V δ} (hm : m.header.lane = .fast) :
    (l.pushFast m).Counted c0 f0 where
  cold := (coldLane_pushFast l m).symm ▸ h.cold
  seq := (coldLane_pushFast l m).symm ▸ h.seq
  fast := by
    rw [fastLane_pushFast]
    exact h.fast.snoc hm h.seqFast
  seqFast := by
    rw [fastLane_pushFast, List.length_append]
    simp only [Ledger.pushFast, h.seqFast, List.length_singleton]
    omega
  boot := h.boot
  lib := h.lib
  t2 := h.t2

/-- What the lanes and the counters do not depend on. -/
private theorem of_lanes (h : l.Counted c0 f0) {l' : Ledger β V δ}
    (hcold : l'.coldLane = l.coldLane)
    (hfast : l'.fastLane = l.fastLane) (hseq : l'.seq = l.seq) (hseqFast : l'.seqFast = l.seqFast)
    (hboot : ∀ o, l'.bootOutbox = some o → o.Cold) (hlib : ∀ o ∈ l'.libOutbox, o.Cold)
    (ht2 : ∀ u o, l'.t2Outbox.get? u = some o → o.Cold) : l'.Counted c0 f0 :=
  ⟨hcold ▸ h.cold, by rw [hseq, hcold, h.seq], hfast ▸ h.fast, by rw [hseqFast, hfast, h.seqFast],
    hboot, hlib, ht2⟩

theorem pushLogged (h : l.Counted c0 f0) {m : Msg β V δ} (hm : m.header.lane = .fast) :
    (l.pushLogged m).Counted c0 f0 :=
  (h.pushFast hm).of_lanes (by rw [coldLane_pushLogged, coldLane_pushFast])
    (by rw [fastLane_pushLogged, fastLane_pushFast]) rfl rfl h.boot h.lib h.t2

/-- The chunks behind the first one. -/
private theorem tail_cold {id : BlobId} {data : List β} {m : Msg β V δ} {rest : List (Msg β V δ)}
    (h : Outgoing.Cold ⟨id, data, m :: rest⟩) :
    m.header.lane = .cold ∧ Outgoing.Cold ⟨id, data, rest⟩ :=
  ⟨h m (List.mem_cons_self ..), fun m' hm' => h m' (List.mem_cons_of_mem _ hm')⟩

/-- A chunk of the bootstrap leaves. -/
theorem sendBoot (h : l.Counted c0 f0) : l.sendBoot.Counted c0 f0 := by
  unfold Ledger.sendBoot
  split
  · rename_i id data m hbox
    have hpush := h.pushCold (tail_cold (h.boot _ hbox)).1
    exact hpush.of_lanes (coldLane_finish _ _) (fastLane_finish _ _) rfl rfl (by simp) h.lib h.t2
  · rename_i id data m rest hbox
    obtain ⟨hm, hrest⟩ := tail_cold (h.boot _ hbox)
    refine (h.pushCold hm).of_lanes rfl rfl rfl rfl (fun o ho => ?_) h.lib h.t2
    obtain rfl := Option.some.inj ho
    exact hrest
  · exact h

/-- A chunk of a library file leaves. -/
theorem sendLib (h : l.Counted c0 f0) : l.sendLib.Counted c0 f0 := by
  unfold Ledger.sendLib
  split
  · rename_i id data m others hbox
    have hlib := h.lib
    rw [hbox, List.forall_mem_cons] at hlib
    exact (h.pushCold (tail_cold hlib.1).1).of_lanes (coldLane_finish _ _) (fastLane_finish _ _)
      rfl rfl h.boot hlib.2 h.t2
  · rename_i id data m rest others hbox
    have hlib := h.lib
    rw [hbox, List.forall_mem_cons] at hlib
    obtain ⟨hm, hrest⟩ := tail_cold hlib.1
    exact (h.pushCold hm).of_lanes rfl rfl rfl rfl h.boot
      (List.forall_mem_cons.mpr ⟨hrest, hlib.2⟩) h.t2
  · exact h

/-- A chunk of a datablock's blob leaves. -/
theorem sendT2 (h : l.Counted c0 f0) (uuid : Uuid) : (l.sendT2 uuid).Counted c0 f0 := by
  unfold Ledger.sendT2
  split
  · rename_i id data m hbox
    have hpush := h.pushCold (tail_cold (h.t2 _ _ hbox)).1
    refine hpush.of_lanes (coldLane_finish _ _) (fastLane_finish _ _) rfl rfl h.boot h.lib
      fun u o ho => ?_
    rw [Dict.get?_erase] at ho
    split at ho
    · cases ho
    · exact h.t2 u o ho
  · rename_i id data m rest hbox
    obtain ⟨hm, hrest⟩ := tail_cold (h.t2 _ _ hbox)
    refine (h.pushCold hm).of_lanes rfl rfl rfl rfl h.boot h.lib fun u o ho => ?_
    rw [Dict.get?_insert] at ho
    split at ho
    · obtain rfl := Option.some.inj ho
      exact hrest
    · exact h.t2 u o ho
  · exact h

/-- Every step of the sending half counts. -/
theorem step (h : l.Counted c0 f0) (a : LedgerAct β V δ) : (l.step a).Counted c0 f0 := by
  cases a with
  -- a cut fills an outbox with unnumbered chunks
  | cutBoot data sceneDigest =>
    refine h.of_lanes (by simp [Ledger.step, coldLane]) (by simp [Ledger.step, fastLane]) rfl rfl
      (fun o ho => ?_) h.lib h.t2
    obtain rfl := Option.some.inj ho
    exact Outgoing.cold_chunkBlob _ _ _ _ _ rfl _
  | cutT2 uuid data digest more =>
    refine h.of_lanes (by simp [Ledger.step, coldLane]) (by simp [Ledger.step, fastLane]) rfl rfl
      h.boot h.lib fun u o ho => ?_
    simp only [Ledger.step, Dict.get?_insert] at ho
    split at ho
    · obtain rfl := Option.some.inj ho
      exact Outgoing.cold_chunkBlob _ _ _ _ _ rfl _
    · exact h.t2 u o ho
  | cutLib lib data =>
    refine h.of_lanes (by simp [Ledger.step, coldLane]) (by simp [Ledger.step, fastLane]) rfl rfl
      h.boot (fun o ho => ?_) h.t2
    rcases List.mem_append.mp ho with ho | ho
    · exact h.lib o ho
    · obtain rfl := List.mem_singleton.mp ho
      exact Outgoing.cold_chunkBlob _ _ _ _ _ rfl _
  -- what leaves gets the next number of its lane
  | sendBoot => exact h.sendBoot
  | sendT2 uuid => exact h.sendT2 uuid
  | sendLib => exact h.sendLib
  | sendCold kind lib =>
    have hpush := h.pushCold (m := { header := { kind := kind, lib := lib } }) rfl
    exact hpush.of_lanes rfl rfl rfl rfl hpush.boot hpush.lib hpush.t2
  | endCold => exact h.pushCold rfl
  | t1 uuid changes targets full sd =>
    exact h.pushLogged (m := t1Msg uuid changes (l.afterAll uuid targets) full sd) rfl
  | tomb uuid => exact h.pushLogged (m := tombMsg uuid (l.afterFor uuid)) rfl
  | endFast => exact h.pushFast rfl
  | record uuid data digest =>
    exact h.of_lanes (by simp [Ledger.step, coldLane]) (by simp [Ledger.step, fastLane]) rfl rfl
      h.boot h.lib h.t2
  | skip uuid data digest => exact h

end Ledger.Counted

/-! ## A replica that sees no gap -/

/-- The trackers stand at `last`, and no gap was seen. -/
def LaneMerger.Unbroken (last : Lane → Nat) (g : LaneMerger β V δ) : Prop :=
  ∀ l, g.tracker l = { lastSeen := some (last l) }

namespace LaneMerger.Unbroken

variable {last : Lane → Nat} {g : LaneMerger β V δ}

/-- No gap, on either lane. -/
theorem no_gap (h : g.Unbroken last) : g.gaps = 0 ∧ g.gapLane = .none := by
  have hcold : g.cold = _ := h .cold
  have hfast : g.fast = _ := h .fast
  unfold LaneMerger.gaps LaneMerger.gapLane
  rw [hcold, hfast]
  exact ⟨rfl, rfl⟩

/-- The next message of a lane. -/
theorem observe (h : g.Unbroken last) {m : Msg β V δ}
    (hseq : m.header.seq = some (last m.header.lane + 1)) :
    (g.observe m).Unbroken (Function.update last m.header.lane (last m.header.lane + 1)) := by
  intro l
  rw [g.observe_tracker hseq l]
  by_cases hl : m.header.lane = l
  · subst hl
    rw [if_pos rfl, h, Function.update_self]
    simp [SeqTracker.observe, SeqTracker.follows]
  · rw [if_neg hl, h, Function.update_of_ne (Ne.symm hl)]

/-- Nothing to clear. -/
theorem clearFastGap (h : g.Unbroken last) : g.clearFastGap.Unbroken last := by
  intro l
  rw [← h l]
  cases l with
  | cold => rfl
  | fast =>
    have hfast : g.fast = _ := h .fast
    show g.fast.clearGap = g.fast
    rw [hfast]
    rfl

theorem clearColdGap (h : g.Unbroken last) : g.clearColdGap.Unbroken last := by
  intro l
  rw [← h l]
  cases l with
  | fast => rfl
  | cold =>
    have hcold : g.cold = _ := h .cold
    show g.cold.clearGap = g.cold
    rw [hcold]
    rfl

end LaneMerger.Unbroken

/-- The trackers of a replica stand at `last`, and no gap was seen. -/
def Replica.Unbroken (last : Lane → Nat) (r : Replica β V δ S) : Prop := r.merger.Unbroken last

namespace Replica.Unbroken

variable {last : Lane → Nat} {r : Replica β V δ S} (B : Blender β V δ S)

/-- The trackers stay where they are until a message is observed. -/
theorem keeps (last : Lane → Nat) : Keeps B fun g (_ : ReplicaData V δ S) => g.Unbroken last where
  same h hg _ := fun l => (hg l).trans (h l)
  unknown h _ := h
  ended {r m} h := by
    unfold Replica.endResync
    dsimp only
    split
    · exact LaneMerger.Unbroken.clearFastGap h
    · exact LaneMerger.Unbroken.clearColdGap h
  boot h := LaneMerger.Unbroken.clearFastGap (LaneMerger.Unbroken.clearColdGap h)

theorem same (h : r.Unbroken last) {q : Replica β V δ S}
    (hg : ∀ l, q.merger.tracker l = r.merger.tracker l) : q.Unbroken last :=
  fun l => (hg l).trans (h l)

theorem applyPendingBatch (h : r.Unbroken last) (budget : Nat) :
    (applyPendingBatch B budget r).Unbroken last := (keeps B last).applyPendingBatch h budget

/-- A message that comes when its lane's tracker expects it. -/
theorem handle [Inhabited β] (h : r.Unbroken last) {m : Msg β V δ}
    (hseq : m.header.seq = some (last m.header.lane + 1)) :
    (handle B r m).Unbroken (Function.update last m.header.lane (last m.header.lane + 1)) := by
  apply (keeps B _).handle
  exact LaneMerger.Unbroken.observe h hseq

end Replica.Unbroken

/-! ## Runs -/

/-- A node that has seen no gap, and whose queues go on where its trackers stand. -/
def Node.Unbroken (n : Node β V δ S) : Prop :=
  ∃ last, n.replica.Unbroken last ∧ CountsFrom .cold (last .cold) n.order.cold ∧
    CountsFrom .fast (last .fast) n.order.fast

namespace Node.Unbroken

variable [Inhabited β] (B : Blender β V δ S)

/-- One action of the apply loop. -/
theorem step {n : Node β V δ S} (h : n.Unbroken) (a : Act) : (n.step B a).Unbroken := by
  obtain ⟨last, hlast, hcold, hfast⟩ := h
  cases a with
  | turn kf kc =>
    simp only [Node.step]
    cases htake : n.take kf kc with
    | mk n' out =>
      cases out with
      | none => exact Node.take_none htake ▸ ⟨last, hlast, hcold, hfast⟩
      | some m =>
        -- the message has the next number of its lane
        obtain ⟨-, -, -, hmerger, hqueues⟩ := Node.take_some htake
        have hlast' : n'.replica.Unbroken last := hlast.same fun l => by rw [hmerger]
        have horder := Node.order_replica (n := n') (Replica.inboxes_handle B n'.replica m)
        dsimp only
        unfold Node.Unbroken
        rw [horder]
        rcases hqueues with ⟨hq, hother⟩ | ⟨hq, hother⟩
        · -- a fast one
          rw [hq] at hfast
          obtain ⟨hlane, hseq, hfast⟩ := hfast
          refine ⟨_, hlast'.handle B (hlane ▸ hseq), ?_, ?_⟩
          · rw [hlane, Function.update_of_ne (by decide), ← hother]
            exact hcold
          · rw [hlane, Function.update_self]
            exact hfast
        · -- a cold one
          rw [hq] at hcold
          obtain ⟨hlane, hseq, hcold⟩ := hcold
          refine ⟨_, hlast'.handle B (hlane ▸ hseq), ?_, ?_⟩
          · rw [hlane, Function.update_self]
            exact hcold
          · rw [hlane, Function.update_of_ne (by decide), ← hother]
            exact hfast
  -- a batch takes no message
  | batch budget =>
    unfold Node.Unbroken
    rw [Node.step, Node.order_replica (Replica.inboxes_applyPendingBatch B budget n.replica)]
    exact ⟨last, hlast.applyPendingBatch B budget, hcold, hfast⟩

theorem run {n : Node β V δ S} (h : n.Unbroken) (acts : List Act) : (n.run B acts).Unbroken := by
  induction acts generalizing n with
  | nil => exact h
  | cons a acts ih => exact ih (step B h a)

end Node.Unbroken

/-- In any session of the host, whatever the transport refuses and whatever raises, the
    messages on each lane carry the seqs one after the other. A replica whose trackers are
    primed with the counters as they stood before the first message it gets, on lanes that
    lose nothing, never sees a gap, however it takes the messages in. -/
theorem Host.no_holes [Inhabited β] [BEq V] [DecidableEq δ] (H : Digests β V δ)
    (w : World β V) (c0 f0 : Nat) (calls : List (Faults × World β V × Call β δ)) :
    let l := (Raising.run H (start w c0 f0) calls).ledger
    (l.coldLane.map (fun m => m.header.seq) =
        (List.range' (c0 + 1) l.coldLane.length).map some ∧
      l.fastLane.map (fun m => m.header.seq) =
        (List.range' (f0 + 1) l.fastLane.length).map some) ∧
    ∀ (B : Blender β V δ S) (scene : S) (before cold before' fast : List (Msg β V δ))
      (acts : List Node.Act), l.coldLane = before ++ cold → l.fastLane = before' ++ fast →
      let n := (Node.start scene (c0 + before.length) (f0 + before'.length) cold fast).run B acts
      n.replica.merger.gaps = 0 ∧ n.replica.merger.gapLane = .none := by
  intro l
  -- the session starts counted, and its calls keep it so
  have hstart : (start w c0 f0 : Host β V δ).ledger.Counted c0 f0 := by
    have hscan := initialScan_scanned w ({ ledger := Ledger.start c0 f0 } : Host β V δ)
    simp only [scanned, Prod.mk.injEq] at hscan
    rw [start, hscan.1]
    exact Ledger.Counted.start c0 f0
  have hl : l.Counted c0 f0 := Raising.ledger_run (fun _ a h => h.step a) H calls hstart
  refine ⟨⟨hl.cold.seqs, hl.fast.seqs⟩, ?_⟩
  -- what is joined behind some messages counts on from them
  intro B scene before cold before' fast acts hcold hfast n
  have hc := hl.cold
  have hf := hl.fast
  rw [hcold, CountsFrom.append_iff] at hc
  rw [hfast, CountsFrom.append_iff] at hf
  -- so the run sees no gap
  have hn : n.Unbroken := by
    apply Node.Unbroken.run B
    refine ⟨laneBase (c0 + before.length) (f0 + before'.length), fun l => ?_, hc.2, hf.2⟩
    cases l <;> rfl
  obtain ⟨last, hlast, -⟩ := hn
  exact LaneMerger.Unbroken.no_gap hlast

end QCBridge
