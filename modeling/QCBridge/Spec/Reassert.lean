import QCBridge.Spec.Resurrection
import QCBridge.ForStd.Guarded

/-!
# The re-assert of the fast lane

The fast log remembers which datablocks the last fast messages named, and as what. When
the replica reports a hole, each datablock named from the hole on is sent again: as a
full snapshot when the last message was a delta, as a tombstone when it was one. The log
knows nothing of the cold lane, so a datablock that came back in a blob after its
tombstone gets the tombstone again. So does one whose handle an undo has freed: it cannot be told
from one that is gone.

## Key results

- `FastLog.mem_windowSince`, `Ledger.LogKept`: the log and the lane
- `Host.Reasserts`: what a re-assert owes
- `reasserts`: it is paid while the log tells the truth about what is alive
-/

namespace QCBridge

variable {β V δ : Type}

/-! ## The log -/

namespace FastLog

/-- The window names what the entries from `seq` on name. -/
theorem mem_windowSince (l : FastLog) (seq : Nat) (u : Uuid) :
    u ∈ (l.windowSince seq).map Prod.fst ↔ ∃ e ∈ l.entries, seq ≤ e.1 ∧ e.2.1 = u := by
  have hfold : ∀ (es : List (Nat × Uuid × Kind)) (d : Dict Uuid Kind),
      u ∈ (es.foldl (fun d e => d.insert e.2.1 e.2.2) d).keys ↔
        u ∈ d.keys ∨ ∃ e ∈ es, e.2.1 = u := by
    intro es
    induction es with
    | nil => simp
    | cons e es ih =>
      intro d
      have hins : u ∈ (d.insert e.2.1 e.2.2).keys ↔ e.2.1 = u ∨ u ∈ d.keys := by
        rw [Dict.mem_keys_iff, Dict.mem_keys_iff]
        by_cases heq : e.2.1 = u
        · simp [heq]
        · simp [Dict.get?_insert_of_ne _ _ heq, heq]
      rw [List.foldl_cons, ih, hins]
      simp only [List.mem_cons, exists_eq_or_imp]
      tauto
  unfold windowSince
  show u ∈ (List.foldl _ _ _ : Dict Uuid Kind).keys ↔ _
  rw [hfold]
  simp [and_assoc]

/-- A log that is the end of a list is the end of a list one longer. -/
private theorem record_entries {l : FastLog} {sent : List (Nat × Uuid × Kind)} {seq : Nat}
    {u : Uuid}
    {kind : Kind} (h : l.entries = sent.drop (sent.length - capacity)) :
    (l.record seq u kind).entries =
      (sent ++ [(seq, u, kind)]).drop ((sent ++ [(seq, u, kind)]).length - capacity) := by
  rw [record_eq]
  exact recordWithin_entries h (seq, u, kind)

end FastLog

/-- What the fast log writes down of a message. -/
def Msg.logged (m : Msg β V δ) : Option (Nat × Uuid × Kind) :=
  if m.header.kind = .t1 ∨ m.header.kind = .tomb then
    some (m.seqNo, m.header.uuid, m.header.kind)
  else none

namespace Ledger

/-- The fast log is the end of what left on the fast lane, which is numbered. -/
structure LogKept (l : Ledger β V δ) : Prop where
  entries : l.fastlog.entries = (l.fastLane.filterMap Msg.logged).drop
    ((l.fastLane.filterMap Msg.logged).length - FastLog.capacity)
  sorted : (l.fastLane.map Msg.seqNo).Pairwise (· < ·)
  bound : ∀ m ∈ l.fastLane, m.seqNo ≤ l.seqFast

/-- A step that puts nothing on the fast lane leaves the log alone. -/
private theorem fastlog_step {l : Ledger β V δ} {a : LedgerAct β V δ} (h : l.fastSent a = []) :
    (l.step a).fastlog = l.fastlog ∧ (l.step a).seqFast = l.seqFast := by
  cases a with
  | sendBoot =>
    simp only [step, sendBoot]
    split <;> exact ⟨rfl, rfl⟩
  | sendT2 u =>
    simp only [step, sendT2]
    split <;> exact ⟨rfl, rfl⟩
  | sendLib =>
    simp only [step, sendLib]
    split <;> exact ⟨rfl, rfl⟩
  | t1 u changes targets full sd => cases h
  | tomb u => cases h
  | endFast => cases h
  | _ => exact ⟨rfl, rfl⟩

/-- One message more on the fast lane. -/
theorem LogKept.push {l l' : Ledger β V δ} (h : l.LogKept) {m : Msg β V δ}
    (hlane : l'.fastLane = l.fastLane ++ [m]) (hseq : m.seqNo = l.seqFast + 1)
    (hnext : l'.seqFast = l.seqFast + 1)
    (hlog : l'.fastlog.entries = (l'.fastLane.filterMap Msg.logged).drop
      ((l'.fastLane.filterMap Msg.logged).length - FastLog.capacity)) : l'.LogKept where
  entries := hlog
  sorted := by
    rw [hlane, List.map_append, List.pairwise_append]
    refine ⟨h.sorted, List.pairwise_singleton _ _, ?_⟩
    intro a ha b hb
    obtain ⟨x, hx, rfl⟩ := List.mem_map.mp ha
    obtain rfl := List.mem_singleton.mp hb
    have hle := h.bound x hx
    omega
  bound := by
    rw [hlane]
    intro x hx
    rcases List.mem_append.mp hx with hx | hx
    · have hle := h.bound x hx
      omega
    · obtain rfl := List.mem_singleton.mp hx
      omega

/-- A message that the log writes down. -/
theorem LogKept.pushLogged {l : Ledger β V δ} (h : l.LogKept) {m : Msg β V δ}
    (hkind : m.header.kind = .t1 ∨ m.header.kind = .tomb) : (l.pushLogged m).LogKept := by
  have hlane := l.fastLane_pushLogged m
  refine h.push hlane rfl rfl ?_
  have hlogged : (m.withSeq (l.seqFast + 1)).logged =
      some (l.seqFast + 1, m.header.uuid, m.header.kind) := if_pos hkind
  rw [hlane, List.filterMap_append, List.filterMap_cons_some hlogged, List.filterMap_nil]
  exact FastLog.record_entries h.entries

/-- Every step keeps it. -/
theorem LogKept.step {l : Ledger β V δ} (h : l.LogKept) (a : LedgerAct β V δ) :
    (l.step a).LogKept := by
  by_cases hnone : l.fastSent a = []
  · obtain ⟨hlog, hseq⟩ := fastlog_step hnone
    have hlane : (l.step a).fastLane = l.fastLane := by
      rw [fastLane_step, hnone, List.append_nil]
    constructor
    · rw [hlog, hlane]
      exact h.entries
    · rw [hlane]
      exact h.sorted
    · rw [hlane, hseq]
      exact h.bound
  · cases a with
    | t1 u changes targets full sd => exact h.pushLogged (.inl rfl)
    | tomb u => exact h.pushLogged (.inr rfl)
    | endFast =>
      -- the end is not written down
      refine h.push (l.fastLane_pushFast _) rfl rfl ?_
      have hlane : (l.step .endFast).fastLane.filterMap Msg.logged =
          l.fastLane.filterMap Msg.logged := by
        rw [fastLane_step, List.filterMap_append]
        exact List.append_nil _
      rw [hlane]
      exact h.entries
    | _ => exact absurd rfl hnone

/-- In every run the log of fast messages is what was sent, as far as it reaches. -/
theorem LogKept.run (c0 f0 : Nat) (acts : List (LedgerAct β V δ)) :
    ((Ledger.start c0 f0).run acts).LogKept := by
  apply foldl_invariant (f := Ledger.step) (fun l a hl => hl.step a)
  exact ⟨List.drop_nil.symm, List.Pairwise.nil, fun m hm => absurd hm List.not_mem_nil⟩

/-- The seqs of what the log writes down. -/
private theorem logged_sublist (l : List (Msg β V δ)) :
    ((l.filterMap Msg.logged).map Prod.fst).Sublist (l.map Msg.seqNo) := by
  induction l with
  | nil => exact List.Sublist.slnil
  | cons m l ih =>
    unfold Msg.logged at ih ⊢
    rw [List.filterMap_cons]
    split
    · exact ih.cons _
    · rename_i e he
      split at he
      · cases he
        exact ih.cons_cons _
      · cases he

/-- When the log covers a hole, the window from the hole on names every datablock that a
    message named since. -/
theorem LogKept.window {l : Ledger β V δ} (h : l.LogKept) {gapAt : Nat}
    (hcovers : l.fastlog.covers gapAt = true) {m : Msg β V δ} (hm : m ∈ l.fastLane)
    (hkind : m.header.kind = .t1 ∨ m.header.kind = .tomb) (hgap : gapAt ≤ m.seqNo) :
    m.header.uuid ∈ (l.fastlog.windowSince gapAt).map Prod.fst := by
  rw [FastLog.mem_windowSince]
  have hlogged : m.logged = some (m.seqNo, m.header.uuid, m.header.kind) := if_pos hkind
  refine ⟨(m.seqNo, m.header.uuid, m.header.kind), ?_, hgap, rfl⟩
  have hall : (m.seqNo, m.header.uuid, m.header.kind) ∈ l.fastLane.filterMap Msg.logged :=
    List.mem_filterMap.mpr ⟨m, hm, hlogged⟩
  have hsorted := h.sorted.sublist (logged_sublist l.fastLane)
  rw [h.entries]
  unfold FastLog.covers FastLog.oldestSeq at hcovers
  rw [h.entries] at hcovers
  generalize l.fastLane.filterMap Msg.logged = sent at *
  generalize sent.length - FastLog.capacity = k at *
  -- what the log has forgotten is older than its oldest entry
  obtain ⟨e, rest, hrest⟩ : ∃ e rest, sent.drop k = e :: rest := by
    cases hdrop : sent.drop k with
    | nil =>
      rw [hdrop] at hcovers
      cases hcovers
    | cons e rest => exact ⟨e, rest, rfl⟩
  rw [hrest] at hcovers
  have hold : e.1 ≤ gapAt := by simpa using hcovers
  rw [← List.take_append_drop k sent] at hall hsorted
  rcases List.mem_append.mp hall with hforgot | hkept
  · rw [hrest, List.map_append, List.pairwise_append] at hsorted
    have hlt : m.seqNo < e.1 := hsorted.2.2 _ (List.mem_map_of_mem hforgot) _ (by simp)
    omega
  · exact hkept

end Ledger

/-! ## What a re-assert owes -/

/-- The steps of the ledger that a journal tells of. -/
def actsOf (journal : List (Note β V δ)) : List (LedgerAct β V δ) :=
  journal.filterMap fun
    | .act a => some a
    | _ => none

/-- A window asked for after `before` names `u`: the log covers the hole, and a message from
    the hole on named the datablock. -/
def InWindow (l : Ledger β V δ) (before : List (Note β V δ)) (gapAt : Nat) (u : Uuid) : Prop :=
  (l.run (actsOf before)).fastlog.covers gapAt = true ∧
    ∃ m ∈ (l.run (actsOf before)).fastLane,
      (m.header.kind = .t1 ∨ m.header.kind = .tomb) ∧ gapAt ≤ m.seqNo ∧ m.header.uuid = u

/-- Some note tells that the datablock was re-asserted. -/
def Answered (u : Uuid) (notes : List (Note β V δ)) : Prop :=
  ∃ tombstone alive shown, Note.reasserted u tombstone alive shown ∈ notes

/-- Every datablock that a window names was re-asserted since, or waits for it. -/
def Named (l : Ledger β V δ) (journal : List (Note β V δ)) (queue : List Uuid) : Prop :=
  ∀ before gapAt after u, journal = before ++ .windowed gapAt :: after →
    InWindow l before gapAt u → Answered u after ∨ u ∈ queue

/-- The end of a re-assert comes after every entry. -/
def EndsNamed (l : Ledger β V δ) (before : List (Note β V δ)) : Note β V δ → Prop
  | .act .endFast => Named l before []
  | _ => True

/-- What was just sent for an entry: a tombstone, or all that the replica is believed to
    show, if there is anything to send. -/
def FullSent (before : List (Note β V δ)) : Note β V δ → Prop
  | .reasserted u true _ _ => before.getLast? = some (.act (.tomb u))
  | .reasserted u false alive shown => alive = true ∧ ∃ s, shown = some s ∧
      (Host.sendable s = [] ∨ ∃ targets sd,
        before.getLast? = some (.act (.t1 u (Host.settersFirst (Host.sendable s)) targets true sd)))
  | _ => True

/-- No tombstone was re-asserted of a datablock that is alive. -/
def NoneLive (journal : List (Note β V δ)) : Prop :=
  ∀ u shown, Note.reasserted u true true shown ∉ journal

/-- A note that asks for no window. -/
def Note.NoWindow (n : Note β V δ) : Prop := ∀ gapAt, n ≠ .windowed gapAt

/-- The steps in two stretches of the journal. -/
private theorem actsOf_append (journal more : List (Note β V δ)) :
    actsOf (journal ++ more) = actsOf journal ++ actsOf more := List.filterMap_append ..

/-- What was answered stays so. -/
theorem Answered.append {u : Uuid} {notes : List (Note β V δ)} (h : Answered u notes)
    (more : List (Note β V δ)) : Answered u (notes ++ more) := by
  obtain ⟨tombstone, alive, shown, hmem⟩ := h
  exact ⟨tombstone, alive, shown, List.mem_append_left _ hmem⟩

namespace Named

variable {l : Ledger β V δ} {journal : List (Note β V δ)} {queue queue' : List Uuid}

/-- More happened: what left the queue was re-asserted. -/
theorem append (h : Named l journal queue) {notes : List (Note β V δ)}
    (hnotes : ∀ n ∈ notes, n.NoWindow)
    (hqueue : ∀ u ∈ queue, u ∈ queue' ∨ Answered u notes) :
    Named l (journal ++ notes) queue' := by
  intro before gapAt after u hsplit hin
  rcases List.append_eq_append_iff.mp hsplit with ⟨more, hbefore, hnew⟩ | ⟨more, hold, hrest⟩
  · -- the window is not among the new notes
    have hmem : Note.windowed gapAt ∈ notes := by simp [hnew]
    exact absurd rfl (hnotes _ hmem gapAt)
  · cases more with
    | nil =>
      have hmem : Note.windowed gapAt ∈ notes := by
        rw [← show _ = notes from hrest]
        exact List.mem_cons_self
      exact absurd rfl (hnotes _ hmem gapAt)
    | cons n more =>
      obtain ⟨rfl, rfl⟩ := List.cons_eq_cons.mp hrest
      rcases h before gapAt more u hold hin with hdone | hwaits
      · exact .inl (hdone.append notes)
      · rcases hqueue u hwaits with hwaits | ⟨tombstone, alive, shown, hmem⟩
        · exact .inr hwaits
        · exact .inl ⟨tombstone, alive, shown, List.mem_append_right _ hmem⟩

/-- A window is asked for: what it names waits. -/
theorem window (h : Named l journal queue) {gapAt : Nat} {more : List Uuid}
    (hmore : ∀ u, InWindow l journal gapAt u → u ∈ more) :
    Named l (journal ++ [.windowed gapAt]) (queue ++ more) := by
  intro before gapAt' after u hsplit hin
  rcases List.eq_nil_or_concat after with rfl | ⟨after', last, rfl⟩
  · obtain ⟨rfl, heq⟩ := List.append_inj' hsplit rfl
    obtain rfl : gapAt = gapAt' := by simpa using heq
    exact .inr (List.mem_append_right _ (hmore u hin))
  · rw [List.concat_eq_append, ← List.cons_append, ← List.append_assoc] at hsplit
    rcases h before gapAt' after' u (List.append_inj' hsplit rfl).1 hin with hdone | hwaits
    · exact .inl (by rw [List.concat_eq_append]; exact hdone.append _)
    · exact .inr (List.mem_append_left _ hwaits)

end Named

namespace Host

/-! ## What the calls keep -/

/-- A note that neither asks for a window nor answers one. -/
def Calm : Note β V δ → Prop
  | .windowed _ | .reasserted _ _ _ _ | .act .endFast => False
  | _ => True

/-- What every call keeps. -/
structure Answering (l : Ledger β V δ) (h : Host β V δ) : Prop where
  ledger : h.ledger = l.run (actsOf h.journal)
  named : Named l h.journal (h.fastResendQueue.map Prod.fst)
  ends : History (EndsNamed l) h.journal
  full : History FullSent h.journal

/-- A calm note asks for no window. -/
private theorem Calm.noWindow {n : Note β V δ} (h : Calm n) : n.NoWindow := by
  rintro gapAt rfl
  exact h

/-- It is no end of a re-assert that would have to name anything. -/
private theorem Calm.endsNamed {n : Note β V δ} (h : Calm n) (l : Ledger β V δ)
    (before : List (Note β V δ)) : EndsNamed l before n := by
  unfold EndsNamed
  split
  · exact h.elim
  · trivial

/-- And it is no re-assert of a datablock. -/
private theorem Calm.fullSent {n : Note β V δ} (h : Calm n) (before : List (Note β V δ)) :
    FullSent before n := by
  unfold FullSent
  split
  · exact h.elim
  · exact h.elim
  · trivial

/-- A step that is not the end of a re-assert is calm. -/
theorem LedgerAct.Plain.calm {a : LedgerAct β V δ} (h : a.Plain) :
    Calm (.act a : Note β V δ) := by
  cases a with
  | endFast => exact h
  | _ => trivial

/-- Something else happened. -/
theorem Answering.calm {l : Ledger β V δ} {h h' : Host β V δ} (hh : h.Answering l)
    (notes : List (Note β V δ)) (hnotes : ∀ n ∈ notes, Calm n)
    (hjournal : h'.journal = h.journal ++ notes)
    (hledger : h'.ledger = h.ledger.run (actsOf notes))
    (hqueue : h'.fastResendQueue = h.fastResendQueue) : h'.Answering l where
  ledger := by
    rw [hledger, hjournal, actsOf_append, Ledger.run_append, hh.ledger]
  named := by
    rw [hjournal, hqueue]
    exact hh.named.append (fun n hn => (hnotes n hn).noWindow) fun _ hu => .inl hu
  ends := by
    rw [hjournal]
    exact hh.ends.append fun n hn more => (hnotes n hn).endsNamed l _
  full := by
    rw [hjournal]
    exact hh.full.append fun n hn more => (hnotes n hn).fullSent _

/-- Whatever is not a re-assert leaves the answers as they are. -/
private theorem keepsSweep_answering (w : World β V) (l : Ledger β V δ) :
    KeepsSweep w (Answering l) where
  same {h h'} hh hcore := by
    apply hh.calm [] (by simp)
    · rw [journal_of_core hcore, List.append_nil]
    · exact ledger_of_core hcore
    · exact fastResendQueue_of_core hcore
  act {h a} ha hh := hh.calm [.act a] (by simpa using LedgerAct.Plain.calm ha) rfl rfl rfl
  adopt u hh := hh.calm [] (by simp) (List.append_nil _).symm rfl rfl
  requeued u hh := hh.calm [_] (by simp [Calm]) rfl rfl rfl
  tombBack u hh := hh.calm [_] (by simp [Calm]) rfl rfl rfl
  wantBoot u hh := hh.calm [_] (by simp [Calm]) rfl rfl rfl
  mark u t now _ hh := hh.calm [] (by simp) (List.append_nil _).symm rfl rfl
  readopt u db _ _ hh := hh.calm [.readopted u] (by simp [Calm]) rfl rfl rfl
  forget u _ hh := hh.calm [.forgotten u] (by simp [Calm]) rfl rfl rfl

/-- Sending leaves the queue of the re-assert alone. -/
private theorem keeps_queue (w : World β V) (queue : List (Uuid × Kind)) :
    Keeps w fun h : Host β V δ => h.fastResendQueue = queue where
  same {h h'} hh hcore := by
    exact (fastResendQueue_of_core hcore).trans hh
  act _ hh := hh
  adopt _ hh := hh
  requeued _ hh := hh
  tombBack _ hh := hh
  wantBoot _ hh := hh

section Flush

variable [BEq V] [DecidableEq δ] (H : Digests β V δ) (w : World β V)

omit [BEq V] [DecidableEq δ] in
/-- A step that the transport accepts is the last thing that happened. -/
private theorem send_last {h h' : Host β V δ} {a : LedgerAct β V δ}
    (heq : h.send w a = (h', true)) :
    h'.journal.getLast? = some (.act a) := by
  unfold Host.send at heq
  dsimp only at heq
  split at heq
  · obtain rfl := (Prod.mk.inj heq).1
    exact List.getLast?_concat
  · cases heq

omit [BEq V] [DecidableEq δ] in
/-- A tombstone that leaves is the last in the journal. -/
private theorem sendTombstone_last {h h' : Host β V δ} {u : Uuid}
    (heq : h.sendTombstone w u = (h', true)) : h'.journal.getLast? = some (.act (.tomb u)) := by
  unfold Host.sendTombstone at heq
  split at heq
  · rename_i hsend
    obtain rfl := (Prod.mk.inj heq).1
    exact send_last w hsend
  · cases heq

/-- A tier-1 message that left is the last thing that happened, unless there was nothing to
    say. -/
private theorem sendT1_last {h h' : Host β V δ} {u : Uuid} {changes : List (Path × V)}
    {old : Option (Dict Path V)} {full : Bool}
    (heq : h.sendT1 H w u changes old full = (h', true)) :
    changes = [] ∨ ∃ targets sd,
      h'.journal.getLast? = some (.act (.t1 u (settersFirst changes) targets full sd)) := by
  unfold Host.sendT1 at heq
  split at heq
  · exact .inl ‹_›
  · right
    dsimp only at heq
    split at heq
    · cases heq
    · split at heq
      · rename_i hsend
        obtain rfl := (Prod.mk.inj heq).1
        exact ⟨_, _, send_last w hsend⟩
      · cases heq

/-- What is written down of an entry of the re-assert is what was sent for it. -/
private theorem fullSent_reasserted {h h' : Host β V δ} {u : Uuid} {kind : Kind}
    (heq : (if kind = .tomb then h.sendTombstone w u else h.sendT1Full H w u) = (h', true)) :
    FullSent h'.journal (.reasserted u (decide (kind = Kind.tomb) || (h.db w u).isNone)
      (w.dbs.get? u).isSome ((h.shadow.get? u).or ((h.db w u).map Datablock.snapshot))) := by
  split at heq
  · -- a tombstone that was asked for
    rename_i hkind
    rw [decide_eq_true hkind, Bool.true_or]
    exact sendTombstone_last w heq
  · -- a datablock in full: a tombstone if it has no handle
    rename_i hkind
    rw [decide_eq_false hkind, Bool.false_or]
    unfold Host.sendT1Full at heq
    split at heq
    · rename_i hnone
      rw [hnone]
      exact sendTombstone_last w heq
    · rename_i db hdb
      rw [hdb]
      have halive : (w.dbs.get? u).isSome = true := by
        rw [Option.isSome_iff_exists, ← Dict.mem_keys_iff]
        exact mem_keys_of_db hdb
      -- what is known of it, or its own values
      split at heq
      · rename_i shadow hshadow
        rw [hshadow]
        exact ⟨halive, shadow, rfl, sendT1_last H w heq⟩
      · rename_i hshadow
        rw [hshadow]
        exact ⟨halive, db.snapshot, rfl, sendT1_last H w heq⟩

omit [BEq V] [DecidableEq δ] in
/-- An entry is done with: it was answered. -/
theorem Answering.reasserted {l : Ledger β V δ} {h : Host β V δ} (hh : h.Answering l)
    {u : Uuid} {kind : Kind} {rest : List (Uuid × Kind)} {tombstone alive : Bool}
    {shown : Option (Dict Path V)} (hqueue : h.fastResendQueue = (u, kind) :: rest)
    (hfull : FullSent h.journal (.reasserted u tombstone alive shown)) :
    Answering l ({ h with fastResendQueue := h.fastResendQueue.tail }.note
      (.reasserted u tombstone alive shown)) where
  ledger := by
    show h.ledger = l.run (actsOf (h.journal ++ [_]))
    rw [actsOf_append, hh.ledger]
    exact congrArg _ (List.append_nil _).symm
  named := by
    apply hh.named.append
    · intro n hn gapAt
      rw [List.mem_singleton.mp hn]
      simp
    · intro u' hu'
      rw [hqueue] at hu'
      show u' ∈ h.fastResendQueue.tail.map Prod.fst ∨ _
      rw [hqueue]
      rcases List.mem_cons.mp hu' with rfl | hu'
      · exact .inr ⟨tombstone, alive, shown, List.mem_singleton_self _⟩
      · exact .inl hu'
  ends := hh.ends.snoc trivial
  full := hh.full.snoc hfull

omit [BEq V] [DecidableEq δ] in
/-- The drain answers nothing. -/
theorem Answering.drained {l : Ledger β V δ} {h : Host β V δ} (hh : h.Answering l) :
    (h.drained w).Answering l := by
  unfold Host.drained
  rw [foldl_note]
  have hnone : actsOf (h.dirty.drain.2.1.map fun u =>
      (Note.drained u (w.dbs.get? u).isSome : Note β V δ)) = [] := by
    unfold actsOf
    rw [List.filterMap_map]
    exact List.filterMap_none _
  refine hh.calm (h.dirty.drain.2.1.map fun u => .drained u (w.dbs.get? u).isSome) ?_ rfl ?_ rfl
  · intro n hn
    obtain ⟨u, -, rfl⟩ := List.mem_map.mp hn
    trivial
  · rw [hnone]
    rfl

/-- So does every call. -/
private theorem keepsCall_answering (c0 f0 : Nat) :
    KeepsCall H w (Answering (Ledger.start c0 f0)) where
  toKeepsSweep := keepsSweep_answering w _
  autoSkip hh := hh.calm [_] (by simp [Calm]) rfl rfl rfl
  autoBoot data sceneDigest hh := hh.calm [_] (by simp [Calm]) rfl rfl rfl
  flush hh := (keepsSweep_answering w _).flushDirty H
    (fun hh => hh.drained w)
    (fun _ _ hh => hh.calm [] (by simp) (List.append_nil _).symm rfl rfl)
    (fun _ hh => hh.calm [] (by simp) (List.append_nil _).symm rfl rfl) hh
  -- an entry of the queue: it is taken off, and what was sent for it is noted
  resend hh := (keepsSweep_answering w _).drainFastResend H
    (fun {h h' u kind rest} hqueue heq hh hh' => by
      -- sending it leaves the queue
      have hkept : (if kind = .tomb then h.sendTombstone w u
          else h.sendT1Full H w u).1.fastResendQueue = h.fastResendQueue := by
        split
        · exact (keeps_queue w _).sendTombstone u rfl
        · exact (keeps_queue w _).sendT1Full H u rfl
      rw [heq] at hkept
      exact hh'.reasserted (hkept.trans hqueue) (fullSent_reasserted H w heq))
    -- the end of the queue: the message of the lane's end
    (fun {h} hempty hh =>
      { ledger := by
          show h.ledger.step .endFast = Ledger.run _ (actsOf (h.journal ++ [.act .endFast]))
          rw [actsOf_append, Ledger.run_append, ← hh.ledger]
          rfl
        named := hh.named.append (fun n hn gapAt => by
          rw [List.mem_singleton.mp hn]
          simp) fun _ hu => .inl hu
        ends := by
          apply hh.ends.snoc
          have hnamed := hh.named
          rwa [hempty] at hnamed
        full := hh.full.snoc trivial }) hh
  -- a window: its datablocks are queued
  window {h} gapAt hh :=
    { ledger := by
        show h.ledger = Ledger.run _ (actsOf (h.journal ++ [_]))
        rw [actsOf_append, hh.ledger]
        exact congrArg _ (List.append_nil _).symm
      named := by
        show Named _ (h.journal ++ [_])
          ((h.fastResendQueue ++ h.ledger.fastlog.windowSince gapAt).map Prod.fst)
        rw [List.map_append]
        apply hh.named.window
        rintro u ⟨hcovers, m, hm, hkind, hgap, rfl⟩
        rw [hh.ledger]
        exact (Ledger.LogKept.run c0 f0 _).window hcovers hm hkind hgap
      ends := hh.ends.snoc trivial
      full := hh.full.snoc trivial }
  -- a new file cuts a bootstrap, and scans the world again
  newFile {h} hh := by
    obtain ⟨data, sceneDigest, hreset⟩ := resetForNewFile_scanned H w h
    simp only [scanned, Prod.mk.injEq] at hreset
    exact hh.calm [.act (.cutBoot data sceneDigest)] (by simp [Calm]) hreset.2.2.1 hreset.1
      hreset.2.2.2.2.2.2.1

/-! ## Entries that tell the truth -/

omit [BEq V] [DecidableEq δ] in
/-- What the entry says of its datablock is so: a tombstone is of one that is gone, and the
    handle of one that is alive works. -/
def EntryTrue (h : Host β V δ) (e : Uuid × Kind) : Prop :=
  (e.2 = .tomb → e.1 ∉ w.dbs.keys) ∧ h.Works w e.1

instance (h : Host β V δ) (e : Uuid × Kind) : Decidable (h.EntryTrue w e) :=
  inferInstanceAs (Decidable (_ ∧ _))

/-- A tick finds the entries it can get to telling the truth. -/
def ReassertsTrue (h : Host β V δ) (c : World β V × Call β δ) : Prop :=
  match c.2 with
  | .tick => ∀ e ∈ h.fastResendQueue.take fastResendPerTick, h.EntryTrue c.1 e
  | _ => True

/-- What a tick keeps until `n` entries are done with. -/
def HeadTrue (n : Nat) (h : Host β V δ) : Prop :=
  NoneLive h.journal ∧ ∀ e ∈ h.fastResendQueue.take n, h.EntryTrue w e

omit [BEq V] [DecidableEq δ] in
/-- Calm notes re-assert nothing. -/
theorem NoneLive.append {journal : List (Note β V δ)} (h : NoneLive journal)
    (notes : List (Note β V δ)) (hnotes : ∀ n ∈ notes, Calm n) : NoneLive (journal ++ notes) := by
  intro u shown hmem
  rcases List.mem_append.mp hmem with hmem | hmem
  · exact h u shown hmem
  · exact hnotes _ hmem

omit [BEq V] [DecidableEq δ] in
/-- The sweep re-asserts nothing. -/
private theorem keepsSweep_noneLive : KeepsSweep w fun h : Host β V δ => NoneLive h.journal where
  same {h h'} hh hcore := by
    rwa [journal_of_core hcore]
  act {h a} ha hh :=
    NoneLive.append hh [.act a] (by simpa using LedgerAct.Plain.calm ha)
  adopt _ hh := hh
  requeued _ hh := NoneLive.append hh [_] (by simp [Calm])
  tombBack _ hh := NoneLive.append hh [_] (by simp [Calm])
  wantBoot _ hh := NoneLive.append hh [_] (by simp [Calm])
  mark _ _ _ _ hh := hh
  readopt u _ _ _ hh := NoneLive.append hh [.readopted u] (by simp [Calm])
  forget u _ hh := NoneLive.append hh [.forgotten u] (by simp [Calm])

/-- Nor does what a tick does besides. -/
private theorem keepsIdle_noneLive : KeepsIdle H w fun h : Host β V δ => NoneLive h.journal where
  toKeepsSweep := keepsSweep_noneLive w
  autoSkip hh := NoneLive.append hh [_] (by simp [Calm])
  autoBoot data sceneDigest hh := NoneLive.append hh [_] (by simp [Calm])
  flush hh := (keepsSweep_noneLive w).flushDirty H
    (fun {h} hh => by
      unfold drained
      rw [foldl_note]
      apply NoneLive.append hh
      intro n hn
      obtain ⟨u, -, rfl⟩ := List.mem_map.mp hn
      trivial)
    (fun _ _ hh => hh) (fun _ hh => hh) hh

omit [BEq V] [DecidableEq δ] in
/-- Sending makes no handle unknown. -/
private theorem keeps_entryTrue (l : List (Uuid × Kind)) :
    Keeps w fun h : Host β V δ => ∀ e ∈ l, h.EntryTrue w e where
  same {h h'} hh hcore := by
    intro e he
    obtain ⟨htomb, halive⟩ := hh e he
    refine ⟨htomb, fun hmem => ?_⟩
    rw [uuidToDb_of_core hcore]
    exact halive hmem
  act _ hh := hh
  adopt u hh e he := ⟨(hh e he).1, fun hmem => List.mem_insert_of_mem ((hh e he).2 hmem)⟩
  requeued _ hh := hh
  tombBack _ hh := hh
  wantBoot _ hh := hh

omit [BEq V] [DecidableEq δ] in
/-- Sending leaves the queue of the re-assert, so that its head stays true. -/
private theorem keeps_headTrue (n : Nat) : Keeps (δ := δ) w (HeadTrue w n) where
  same {h h'} hh hcore := by
    refine ⟨(keepsSweep_noneLive w).same hh.1 hcore, ?_⟩
    rw [(keeps_queue w _).same rfl hcore]
    exact (keeps_entryTrue w _).same hh.2 hcore
  act ha hh := ⟨(keepsSweep_noneLive w).act ha hh.1, hh.2⟩
  adopt u hh := ⟨hh.1, (keeps_entryTrue w _).adopt u hh.2⟩
  requeued u hh := ⟨(keepsSweep_noneLive w).requeued u hh.1, hh.2⟩
  tombBack u hh := ⟨(keepsSweep_noneLive w).tombBack u hh.1, hh.2⟩
  wantBoot u hh := ⟨(keepsSweep_noneLive w).wantBoot u hh.1, hh.2⟩

omit [BEq V] [DecidableEq δ] in
/-- An entry that tells the truth is no tombstone for what is alive. -/
private theorem EntryTrue.not_live {h : Host β V δ} {u : Uuid} {kind : Kind}
    (htrue : h.EntryTrue w (u, kind)) :
    ¬ ((decide (kind = Kind.tomb) || (h.db w u).isNone) = true ∧
      (w.dbs.get? u).isSome = true) := by
  rintro ⟨hgone, halive⟩
  have hmem : u ∈ w.dbs.keys := by
    rwa [Dict.mem_keys_iff, ← Option.isSome_iff_exists]
  rw [Bool.or_eq_true, decide_eq_true_eq, Option.isNone_iff_eq_none] at hgone
  rcases hgone with htomb | hnone
  · exact htrue.1 htomb hmem
  · unfold Host.db at hnone
    rw [if_pos (htrue.2 hmem)] at hnone
    rw [hnone] at halive
    cases halive

/-- The entries of a tick, each of which tells the truth. -/
theorem HeadTrue.fastResendLoop (n : Nat) {h : Host β V δ} (hh : h.HeadTrue w n) :
    NoneLive (fastResendLoop H w n h).journal := by
  induction n generalizing h with
  | zero => exact hh.1
  | succ n ih =>
    unfold Host.fastResendLoop
    split
    · exact hh.1
    · -- an entry is sent, and it tells the truth of itself
      rename_i u kind rest hqueue
      have hsent : HeadTrue w (n + 1)
          (if kind = .tomb then h.sendTombstone w u else h.sendT1Full H w u).1 := by
        split
        · exact (keeps_headTrue w _).sendTombstone u hh
        · exact (keeps_headTrue w _).sendT1Full H u hh
      -- sending it leaves the queue
      have hkept : (if kind = .tomb then h.sendTombstone w u
          else h.sendT1Full H w u).1.fastResendQueue = h.fastResendQueue := by
        split
        · exact (keeps_queue w _).sendTombstone u rfl
        · exact (keeps_queue w _).sendT1Full H u rfl
      have hentry : h.EntryTrue w (u, kind) := hh.2 _ (by simp [hqueue])
      dsimp only
      split
      · -- it is taken: what is noted of it is true
        rename_i h' heq
        rw [heq] at hsent hkept
        apply ih
        constructor
        · intro u' shown hmem
          rcases List.mem_append.mp hmem with hmem | hmem
          · exact hsent.1 u' shown hmem
          · have hlive := Note.reasserted.inj (List.mem_singleton.mp hmem)
            exact hentry.not_live w ⟨hlive.2.1.symm, hlive.2.2.1.symm⟩
        · -- and the others of the tick are the ones behind it
          have htail : h'.fastResendQueue.tail = rest := by rw [hkept, hqueue, List.tail_cons]
          show ∀ e ∈ h'.fastResendQueue.tail.take n, h'.EntryTrue w e
          rw [htail]
          intro e he
          apply hsent.2
          rw [hkept, hqueue, List.take_succ_cons]
          exact List.mem_cons_of_mem _ he
      · -- it is refused: nothing is noted
        rename_i h' heq
        rw [heq] at hsent
        exact hsent.1

/-- A re-assert of datablocks whose handles are true sends no tombstone of a live one. -/
theorem HeadTrue.drainFastResend {h : Host β V δ} (hh : h.HeadTrue w fastResendPerTick) :
    NoneLive (h.drainFastResend H w).journal := by
  have hrest := hh.fastResendLoop H w fastResendPerTick
  unfold Host.drainFastResend Host.send
  dsimp only
  split
  · split
    · rename_i heq
      split at heq
      · obtain rfl := (Prod.mk.inj heq).1
        intro u shown hmem
        rcases List.mem_append.mp hmem with hmem | hmem
        · exact hrest u shown hmem
        · cases List.mem_singleton.mp hmem
      · cases heq
    · rename_i heq
      split at heq
      · cases heq
      · obtain rfl := (Prod.mk.inj heq).1
        exact hrest
  · exact hrest

/-- Nor does a call. -/
private theorem noneLive_call {h : Host β V δ} (c : World β V × Call β δ) (hh : NoneLive h.journal)
    (htrue : h.ReassertsTrue c) : NoneLive (h.call H c).journal := by
  obtain ⟨w, c⟩ := c
  by_cases htick : c = .tick
  · subst htick
    exact (keepsIdle_noneLive H w).flushTick_of (keeps_headTrue w fastResendPerTick)
      (fun hh => hh.drainFastResend H w) (fun hh => hh.1) ⟨hh, htrue⟩
  · by_cases hfile : c = .newFile
    · subst hfile
      obtain ⟨data, sceneDigest, hjournal⟩ := resetForNewFile_journal H w h
      show NoneLive (h.resetForNewFile H w).journal
      rw [hjournal]
      exact NoneLive.append hh _ (by simp [Calm])
    · have hkeep : KeepsRequest w fun h : Host β V δ => NoneLive h.journal :=
        { toKeepsMark := (keepsSweep_noneLive w).toKeepsMark
          window := by
            intro h gapAt hh u shown hmem
            rcases List.mem_append.mp hmem with hmem | hmem
            · exact hh u shown hmem
            · cases List.mem_singleton.mp hmem }
      exact hkeep.call H htick hfile hh

/-! ## Sessions -/

omit [BEq V] [DecidableEq δ] in
/-- What a re-assert owes: no tombstone for a datablock that is alive, and each datablock
    that the hole may have swallowed is answered before the end is told, in full if it is
    alive. -/
structure Reasserts (l : Ledger β V δ) (h : Host β V δ) : Prop where
  dead : NoneLive h.journal
  named : Named l h.journal (h.fastResendQueue.map Prod.fst)
  ends : History (EndsNamed l) h.journal
  full : History FullSent h.journal

omit [BEq V] [DecidableEq δ] in
/-- An undo says nothing. -/
theorem Answering.lose {l : Ledger β V δ} {h : Host β V δ} (hh : h.Answering l)
    (freed : List Uuid) : (h.lose freed).Answering l :=
  ⟨hh.ledger, hh.named, hh.ends, hh.full⟩

/-- A call finds the entries telling the truth, after the undo that comes before it. -/
def ReassertsTrueAfter (h : Host β V δ) (c : List Uuid × World β V × Call β δ) : Prop :=
  (h.lose c.1).ReassertsTrue c.2

/-- In every session in which each tick finds the entries of the re-assert telling the truth
    of what is alive, no tombstone is re-asserted of a datablock that is alive; and in every
    session what a hole may have swallowed is answered, in full if it is alive. -/
theorem reasserts (c0 f0 : Nat) (calls : List (List Uuid × World β V × Call β δ))
    (htrue : Along (callAfter H) ReassertsTrueAfter (start w c0 f0) calls) :
    ((start w c0 f0).runAfter H calls).Reasserts (Ledger.start c0 f0) := by
  have hstart := initialScan_scanned w ({ ledger := Ledger.start c0 f0 } : Host β V δ)
  simp only [scanned, Prod.mk.injEq] at hstart
  -- at the start nothing is noted and nothing is asked for
  have hjournal : (start w c0 f0 : Host β V δ).journal = [] := hstart.2.2.1
  have hanswering : (start w c0 f0 : Host β V δ).Answering (Ledger.start c0 f0) := by
    constructor
    · rw [hjournal]
      exact hstart.1
    · rw [hjournal]
      intro before gapAt after u hsplit
      simp at hsplit
    · rw [hjournal]
      exact History.nil
    · rw [hjournal]
      exact History.nil
  -- every call keeps what is answered
  have hrun : ((start w c0 f0).runAfter H calls).Answering (Ledger.start c0 f0) :=
    Keeps.foldl (f := callAfter H) (I := Answering (Ledger.start c0 f0))
      (fun _ c hh => (keepsCall_answering H c.2.1 c0 f0).call c.2.2 (hh.lose c.1)) calls hanswering
  -- and every call tells the truth, by the condition
  have hdead : NoneLive ((start w c0 f0).runAfter H calls).journal := by
    apply htrue.invariant (I := fun h => NoneLive h.journal)
    · exact fun h c hh hc => noneLive_call (h := h.lose c.1) H c.2 hh hc
    · rw [hjournal]
      exact fun u shown hmem => absurd hmem List.not_mem_nil
  exact ⟨hdead, hrun.named, hrun.ends, hrun.full⟩

end Flush

end Host

/-! ## A tombstone for a datablock that came back -/

instance (h : Host β V δ) : (c : World β V × Host.Call β δ) → Decidable (h.ReassertsTrue c)
  | (w, .tick) =>
    inferInstanceAs (Decidable (∀ e ∈ h.fastResendQueue.take fastResendPerTick,
      h.EntryTrue w e))
  | (_, .depsgraph _) | (_, .bootstrap) | (_, .newFile) | (_, .fastWindow _)
  | (_, .delta _ _) | (_, .libraries _) => .isTrue trivial

instance (h : Host β V δ) (c : List Uuid × World β V × Host.Call β δ) :
    Decidable (h.ReassertsTrueAfter c) :=
  inferInstanceAs (Decidable ((h.lose c.1).ReassertsTrue c.2))

namespace Undo

/-- A call, the handles that an undo frees before it and the file it sees. -/
abbrev Undone : Type :=
  List Uuid × World (Entry String) String × Host.Call (Entry String) Camera.Digest

/-- A session with undos, from the start. -/
def hostAfter (calls : List Undone) : Host (Entry String) String Camera.Digest :=
  (Host.start (alive "50" 0) 0 0).runAfter Camera.digests calls

/-- Calls that no undo comes before. -/
def noUndo (calls : List (World (Entry String) String ×
    Host.Call (Entry String) Camera.Digest)) : List Undone :=
  calls.map fun c => ([], c)

/-- The camera is gone, its tombstone leaves, and the replica reports a hole there. -/
def hole : List Undone :=
  noUndo (boot ++ [(gone 250, .tick), (gone 300, .fastWindow 1), (gone 300, .tick)])

/-- The camera comes back in a blob before the hole is reported. -/
def returned : List Undone :=
  noUndo (calls "35" ++ [(alive "35" 600, .tick), (alive "35" 700, .fastWindow 1),
    (alive "35" 700, .tick)])

/-- The file with the camera, whose lens is tracked. -/
def seen (lens : String) (now : Int) : World (Entry String) String where
  dbs := ⟨[("s", Camera.scene "a"),
    ("a", { camera lens with snapshot := .ofList [(.rna "lens", lens)] })], by simp⟩
  stamps := by simp [Dict.keys, mainfileUuid]
  now := now

/-- The camera is edited twice. It is deleted and brought back between two sweeps, and the
    replica reports a hole where the second edit was. -/
def freed : List Undone :=
  noUndo (boot ++ [(seen "35" 0, .depsgraph [{ uuid := "a" }]), (seen "35" 80, .tick),
      (seen "40" 80, .depsgraph [{ uuid := "a" }]), (seen "40" 160, .tick)]) ++
    [(["a"], seen "40" 200, .fastWindow 1), ([], seen "40" 200, .tick)]

end Undo

open Undo in
/-- The camera is in a blob that has left, and its tombstone is sent again. -/
theorem reasserts_counterexample :
    Note.reasserted "a" true true (some Dict.empty) ∈ (hostAfter returned).journal ∧
      ¬ (hostAfter returned).Reasserts (Ledger.start 0 0) := by
  have hmem : Note.reasserted "a" true true (some Dict.empty) ∈ (hostAfter returned).journal := by
    decide +kernel
  exact ⟨hmem, fun h => h.dead _ _ hmem⟩

open Undo in
-- no sweep finds the freed handle, and a tombstone is sent of a camera that is alive
example : (hostAfter freed).journal.any
    (fun n => n = .reasserted "a" true true (some (.ofList [(.rna "lens", "40")]))) = true := by
  decide +kernel

open Undo in
/-- The tombstone of a camera that stays gone is sent again, and rightly. -/
theorem reasserts_gone :
    (hostAfter hole).Reasserts (Ledger.start 0 0) ∧
      Note.reasserted "a" true false none ∈ (hostAfter hole).journal :=
  ⟨Host.reasserts Camera.digests (alive "50" 0) 0 0 hole (by decide +kernel), by decide +kernel⟩

end QCBridge
