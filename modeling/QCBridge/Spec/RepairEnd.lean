import QCBridge.Spec.ApplyOrder
import QCBridge.Spec.FastOrder

/-!
# The end of a delta repair

The blobs of a repair leave chunk by chunk, and its cold `resync_end` is sent by
another loop. The end is last as long as the transport takes it only when no
chunk it refused still waits in the outbox; and the replica processes it last as
long as it is not taken while a completed blob waits for its batch.

## Key results

- `Ledger.Queues`: a blob's chunks are in the outbox or on the lane
- `Pump.Settles`: a blob's end is applied, superseded or waits
- `repair_end_last`: the end of a repair comes last, on the lane and in the replica
-/

namespace QCBridge

variable {β V δ S : Type}

/-! ## The promise -/

/-- The blobs cut of a datablock, oldest first: seq and bytes. -/
def cutsOf (u : Uuid) (log : List (Sent β V δ)) : List (Nat × List β) :=
  log.filterMap fun
    | .cut (.t2 u' s) data => if u' = u then some (s, data) else none
    | _ => none

@[simp] theorem cutsOf_append (u : Uuid) (l₁ l₂ : List (Sent β V δ)) :
    cutsOf u (l₁ ++ l₂) = cutsOf u l₁ ++ cutsOf u l₂ := List.filterMap_append

/-- Every chunk of the blob was handed to the cold lane. -/
def Handed (log : List (Sent β V δ)) (id : BlobId) (data : List β) : Prop :=
  ∃ b : Blob β δ, b.id = id ∧ b.bytes = data ∧
    ∀ i < b.count, ∃ m : Msg β V δ, Sent.cold m ∈ log ∧ IsChunk m b i

theorem Handed.append {log : List (Sent β V δ)} {id : BlobId} {data : List β}
    (h : Handed log id data) (more : List (Sent β V δ)) : Handed (log ++ more) id data := by
  obtain ⟨b, hid, hdata, hall⟩ := h
  refine ⟨b, hid, hdata, fun i hi => ?_⟩
  obtain ⟨m, hm, hchunk⟩ := hall i hi
  exact ⟨m, List.mem_append_left _ hm, hchunk⟩

/-- A cold `resync_end` leaves when the last blob queued of every datablock has left, all
    of its chunks. -/
def EndLeavesLast (before : List (Sent β V δ)) : Sent β V δ → Prop
  | .cold m => m.header.kind = .resyncEnd → ∀ u s data,
      (cutsOf u before).getLast? = some (s, data) → Handed before (.t2 u s) data
  | _ => True

/-- The last blob of a datablock, queued before an end left, is applied when the end is
    processed, or a later bootstrap made it superfluous. -/
def EndProcessedLast (log : List (Sent β V δ)) (before : List (Ev β V δ)) : Ev β V δ → Prop
  | .dispatched m => m.header.lane = .cold → m.header.kind = .resyncEnd →
      ∀ sent later, log = sent ++ .cold m :: later → ∀ u s data,
        (cutsOf u sent).getLast? = some (s, data) →
          ∃ c k, Sent.cold c ∈ sent ∧ c.blobId = some (.t2 u s) ∧ c.isLastChunk = true ∧
            c.header.seq = some k ∧
            ((∃ e, Ev.applied e ∈ before ∧ e.seq = some k) ∨
              ∃ c' k', Ev.dispatched c' ∈ before ∧ c'.header.kind = .boot ∧
                c'.isLastChunk = true ∧ c'.header.seq = some k' ∧ k < k')
  | _ => True

/-- A repair's end comes last, on the lane and in the replica. -/
structure EndsLast (log : List (Sent β V δ)) (r : Replica β V δ S) : Prop where
  host : History EndLeavesLast log
  replica : History (EndProcessedLast log) r.log

/-- The transport takes the cold `resync_end` only when no chunk it refused still waits. -/
def Ledger.EndsDrained (l : Ledger β V δ) : LedgerAct β V δ → Prop
  | .endCold => l.t2Outbox.keys = []
  | _ => True

instance (l : Ledger β V δ) : (a : LedgerAct β V δ) → Decidable (l.EndsDrained a)
  | .endCold => inferInstanceAs (Decidable (l.t2Outbox.keys = []))
  | .cutBoot .. | .cutT2 .. | .cutLib .. | .sendBoot | .sendT2 _ | .sendLib | .sendCold ..
  | .t1 .. | .tomb _ | .endFast | .record .. | .skip .. => .isTrue trivial

/-- No cold `resync_end` is taken while a completed blob waits. -/
def Node.EndsSettled (n : Node β V δ S) (a : Node.Act) : Prop :=
  ∀ m ∈ n.taken a, m.header.lane = .cold → m.header.kind = .resyncEnd → n.replica.pending = []

instance (n : Node β V δ S) (a : Node.Act) : Decidable (n.EndsSettled a) := by
  unfold Node.EndsSettled
  infer_instance

/-! ## The outbox -/

/-- A chunk ends no repair. -/
private theorem IsChunk.kind_ne_end {m : Msg β V δ} {b : Blob β δ} {i : Nat} (h : IsChunk m b i) :
    m.header.kind ≠ .resyncEnd := by
  rw [h.kind_eq]
  cases b.id <;> simp [BlobId.kind]

/-- A blob of which nothing is queued any more was handed over. -/
theorem Progress.handed {log : List (Sent β V δ)} {b : Blob β δ} {sent mine : List (Msg β V δ)}
    (h : Progress sent b mine) (hsent : ∀ m ∈ sent, Sent.cold m ∈ log)
    (hall : mine.length = b.count) : Handed log b.id b.bytes := by
  obtain ⟨before, hthread, hmine, -⟩ := h
  refine ⟨b, rfl, rfl, fun i hi => ?_⟩
  have hi' : i < mine.length := by omega
  refine ⟨mine[i], ?_, ?_, hi⟩
  · apply hsent
    have hmem : mine[i] ∈ onThread b.id.thread sent := by
      rw [hthread]
      exact List.mem_append_right _ (List.getElem_mem hi')
    exact List.mem_of_mem_filter hmem
  · have hget := congrArg (·[i]?) hmine
    simpa [hi', List.getElem?_range hi'] using hget

namespace Ledger

/-- Of each datablock the last blob cut is in the outbox or on the lane. -/
structure Queues (l : Ledger β V δ) : Prop where
  last : ∀ u s data, (cutsOf u l.log).getLast? = some (s, data) →
    (∃ o, l.t2Outbox.get? u = some o ∧ o.id = .t2 u s ∧ o.data = data) ∨
      Handed l.log (.t2 u s) data
  ends : History EndLeavesLast l.log

namespace Queues

variable {l l' : Ledger β V δ} {c0 f0 : Nat}

theorem start (c0 f0 : Nat) : (Ledger.start c0 f0 : Ledger β V δ).Queues where
  last u s data h := by simp [Ledger.start, cutsOf] at h
  ends := History.nil

/-- Entries of the log that neither cut a blob nor end a repair. -/
theorem append (h : l.Queues) {n : List (Sent β V δ)} (hlog : l'.log = l.log ++ n)
    (hbox : l'.t2Outbox = l.t2Outbox) (hcuts : ∀ u, cutsOf u n = [])
    (hends : ∀ m, Sent.cold m ∈ n → m.header.kind ≠ .resyncEnd) : l'.Queues where
  last u s data hlast := by
    rw [hlog, cutsOf_append, hcuts, List.append_nil] at hlast
    rw [hbox, hlog]
    exact (h.last u s data hlast).imp_right fun hh => hh.append n
  ends := by
    rw [hlog]
    apply h.ends.append
    intro ev hev more
    cases ev with
    | cold m => exact fun hk => absurd hk (hends m hev)
    | _ => trivial

/-- The next chunk of an outbox entry. -/
private theorem chunk_ne_end {o : Outgoing β V δ} {m : Msg β V δ} {id : BlobId} {data : List β}
    {rest sent : List (Msg β V δ)} (hon : o.On sent) (ho : o = ⟨id, data, m :: rest⟩) (s : Nat) :
    (m.withSeq s).header.kind ≠ .resyncEnd := by
  subst ho
  obtain ⟨b, m', mine, rest', -, -, hchunks, -, hchunk, -⟩ := hon.next s
  obtain ⟨rfl, rfl⟩ := List.cons.inj hchunks
  exact hchunk.kind_ne_end

/-- A chunk leaves. -/
private theorem pushChunk (h : l.Queues) {m : Msg β V δ} (hend : m.header.kind ≠ .resyncEnd)
    (hlog : l'.log = l.log ++ [.cold m]) (hbox : l'.t2Outbox = l.t2Outbox) : l'.Queues := by
  apply h.append hlog hbox
  · exact fun u => rfl
  · intro x hx
    obtain rfl : x = m := by simpa using hx
    exact hend

/-- The last chunk of a blob leaves. -/
private theorem pushLast (h : l.Queues) {m : Msg β V δ} {id : BlobId} {data : List β}
    (hend : m.header.kind ≠ .resyncEnd) (hlog : l'.log = l.log ++ [.cold m, .left id data])
    (hbox : l'.t2Outbox = l.t2Outbox) : l'.Queues := by
  apply h.append hlog hbox
  · exact fun u => rfl
  · intro x hx
    obtain rfl : x = m := by simpa using hx
    exact hend

/-- A chunk of the bootstrap leaves. -/
theorem sendBoot (h : l.Queues) (hs : l.Streams c0 f0) : l.sendBoot.Queues := by
  unfold Ledger.sendBoot
  split
  · rename_i id data m hbox
    have hend := chunk_ne_end (hs.boot _ hbox).1 rfl (l.seq + 1)
    exact h.pushLast hend (List.append_assoc ..) rfl
  · rename_i id data m rest _ hbox
    have hend := chunk_ne_end (hs.boot _ hbox).1 rfl (l.seq + 1)
    exact h.pushChunk hend rfl rfl
  · exact h

/-- A chunk of a library file leaves. -/
theorem sendLib (h : l.Queues) (hs : l.Streams c0 f0) : l.sendLib.Queues := by
  unfold Ledger.sendLib
  split
  · rename_i id data m others hbox
    have hend := chunk_ne_end (hs.lib ⟨id, data, [m]⟩ (by simp [hbox])).1 rfl (l.seq + 1)
    exact h.pushLast hend (List.append_assoc ..) rfl
  · rename_i id data m rest others _ hbox
    have hend := chunk_ne_end (hs.lib ⟨id, data, m :: rest⟩ (by simp [hbox])).1 rfl (l.seq + 1)
    exact h.pushChunk hend rfl rfl
  · exact h

/-- With the last chunk of a datablock's blob the whole blob is on the lane. -/
private theorem handed_last (hs : l.Streams c0 f0) {uuid : Uuid} {id : BlobId} {data : List β}
    {m : Msg β V δ} (hbox : l.t2Outbox.get? uuid = some ⟨id, data, [m]⟩) :
    Handed (l.pushCold m).log id data := by
  -- the outbox holds the last chunk of the blob
  obtain ⟨hon, s, hid, -⟩ := hs.t2 uuid _ hbox
  obtain ⟨b, m', mine, rest', hbid, hbytes, hchunks, hprog, hchunk, -, hrest, -⟩ :=
    hon.next (l.seq + 1)
  obtain ⟨rfl, rfl⟩ := List.cons.inj hchunks
  obtain rfl : id = b.id := hbid
  obtain rfl : data = b.bytes := hbytes
  -- what is on the lane is in the log
  have hlog : ∀ x ∈ (l.pushCold m).coldLane, Sent.cold x ∈ (l.pushCold m).log := by
    intro x hx
    obtain ⟨ev, hev, hx⟩ := List.mem_filterMap.mp hx
    cases ev with
    | cold y =>
      obtain rfl : y = x := by simpa using hx
      exact hev
    | _ => cases hx
  -- with this chunk all of them are on the lane
  have hwhole : Progress (l.pushCold m).coldLane b (mine ++ [m.withSeq (l.seq + 1)]) := by
    rw [coldLane_pushCold]
    exact hprog.snoc_on hchunk
  apply hwhole.handed hlog
  rw [List.length_append]
  exact hrest.mp rfl

/-- A chunk of a datablock's blob leaves: the blob stays queued until its last chunk
    has left. -/
theorem sendT2 (h : l.Queues) (hs : l.Streams c0 f0) (uuid : Uuid) :
    (l.sendT2 uuid).Queues := by
  unfold Ledger.sendT2
  split
  · -- the last chunk
    rename_i id data m hbox
    have hend := chunk_ne_end (hs.t2 uuid _ hbox).1 rfl (l.seq + 1)
    have hhanded := handed_last hs hbox
    have hfinish : ((l.pushCold m).finish ⟨id, data, []⟩).Queues :=
      h.pushLast hend (List.append_assoc ..) rfl
    refine ⟨fun u s' data' hlast => ?_, hfinish.ends⟩
    -- of this datablock all is handed over now, of another one as before
    by_cases hu : uuid = u
    · subst hu
      right
      rcases hfinish.last uuid s' data' hlast with ⟨o, ho, hoid, hodata⟩ | hh
      · obtain rfl : o = ⟨id, data, [m]⟩ := Option.some.inj (ho.symm.trans hbox)
        rw [← hoid, ← hodata]
        exact hhanded.append _
      · exact hh
    · rcases hfinish.last u s' data' hlast with ⟨o, ho, hrest⟩ | hh
      · exact .inl ⟨o, (Dict.get?_erase_of_ne _ hu).trans ho, hrest⟩
      · exact .inr hh
  · -- another chunk
    rename_i id data m rest _ hbox
    have hend := chunk_ne_end (hs.t2 uuid _ hbox).1 rfl (l.seq + 1)
    have hpushed : (l.pushCold m).Queues := h.pushChunk hend rfl rfl
    refine ⟨fun u s' data' hlast => ?_, hpushed.ends⟩
    -- of this datablock the rest waits, of another one what did
    rcases hpushed.last u s' data' hlast with ⟨o, ho, hoid, hodata⟩ | hh
    · left
      by_cases hu : uuid = u
      · subst hu
        obtain rfl : o = ⟨id, data, m :: rest⟩ := Option.some.inj (ho.symm.trans hbox)
        exact ⟨_, Dict.get?_insert_self _ _ _, hoid, hodata⟩
      · exact ⟨o, (Dict.get?_insert_of_ne _ _ hu).trans ho, hoid, hodata⟩
    · exact .inr hh
  · exact h

/-- A blob is cut: it takes the place of one of the same datablock. -/
theorem cutT2 (h : l.Queues) (uuid : Uuid) (data : List β) (digest : δ) (more : Bool) :
    (l.step (.cutT2 uuid data digest more)).Queues where
  -- last: of this datablock it is the new cut, of another one what it was
  last u s data' hlast := by
    have hlog : (l.step (.cutT2 uuid data digest more)).log =
        l.log ++ [.cut (.t2 uuid (l.seq + 1)) data] := rfl
    rw [hlog, cutsOf_append] at hlast
    by_cases hu : uuid = u
    · subst hu
      left
      simp only [cutsOf, List.filterMap_cons, if_true, List.filterMap_nil,
        List.getLast?_concat, Option.some.injEq, Prod.mk.injEq] at hlast
      obtain ⟨rfl, rfl⟩ := hlast
      exact ⟨_, Dict.get?_insert_self _ _ _, rfl, rfl⟩
    · simp only [cutsOf, List.filterMap_cons, hu, if_false, List.filterMap_nil,
        List.append_nil] at hlast
      rcases h.last u s data' hlast with ⟨o, ho, hrest⟩ | hh
      · exact .inl ⟨o, (Dict.get?_insert_of_ne _ _ hu).trans ho, hrest⟩
      · exact .inr (hh.append _)
  ends := h.ends.snoc trivial

/-- The end of a repair, when the outbox is empty. -/
theorem endCold (h : l.Queues) (hbox : l.t2Outbox.keys = []) : (l.step .endCold).Queues where
  last u s data hlast := by
    have hlog : (l.step .endCold).log =
        l.log ++ [.cold (({ header := { kind := .resyncEnd } } : Msg β V δ).withSeq (l.seq + 1))] :=
      rfl
    rw [hlog, cutsOf_append] at hlast
    rcases h.last u s data (by simpa [cutsOf] using hlast) with hin | hh
    · exact .inl hin
    · exact .inr (hh.append _)
  ends := by
    apply h.ends.snoc
    intro _ u s data hlast
    rcases h.last u s data hlast with ⟨o, ho, -⟩ | hh
    · -- nothing is queued
      have hmem := (Dict.mem_keys_iff l.t2Outbox u).mpr ⟨o, ho⟩
      rw [hbox] at hmem
      cases hmem
    · exact hh

/-- One step. -/
theorem step (h : l.Queues) (hs : l.Streams c0 f0) {a : LedgerAct β V δ} (ha : a.Valid)
    (hend : l.EndsDrained a) : (l.step a).Queues := by
  cases a with
  -- only the cut of a blob asks for a place in the outbox
  | cutBoot data sceneDigest =>
    exact h.append (n := [_]) rfl rfl (fun u => rfl) (by simp)
  | cutT2 uuid data digest more => exact h.cutT2 uuid data digest more
  | cutLib lib data => exact h.append (n := [_]) rfl rfl (fun u => rfl) (by simp)
  | sendBoot => exact h.sendBoot hs
  | sendT2 uuid => exact h.sendT2 hs uuid
  | sendLib => exact h.sendLib hs
  -- a request is no end of a repair
  | sendCold kind lib =>
    let m : Msg β V δ := { header := { kind := kind, lib := lib } }
    apply h.append (n := [.cold (m.withSeq (l.seq + 1))])
    · rfl
    · rfl
    · exact fun u => rfl
    · intro x hx
      obtain rfl : x = m.withSeq (l.seq + 1) := by simpa using hx
      show kind ≠ .resyncEnd
      rcases ha with rfl | rfl | rfl <;> decide
  | endCold => exact h.endCold hend
  | t1 uuid changes targets full sd =>
    exact h.append (n := [_]) rfl rfl (fun u => rfl) (by simp)
  | tomb uuid => exact h.append (n := [_]) rfl rfl (fun u => rfl) (by simp)
  | endFast => exact h.append (n := [_]) rfl rfl (fun u => rfl) (by simp)
  | record uuid data digest => exact h.append (n := [_]) rfl rfl (fun u => rfl) (by simp)
  | skip uuid data digest => exact h

/-- Every run whose ends find the outbox empty. -/
theorem run (h : l.Queues) (hs : l.Streams c0 f0) {acts : List (LedgerAct β V δ)}
    (hvalid : ∀ a ∈ acts, a.Valid) (hends : Along Ledger.step Ledger.EndsDrained l acts) :
    (l.run acts).Queues := by
  induction acts generalizing l with
  | nil => exact h
  | cons a acts ih =>
    have ha := hvalid a (by simp)
    apply ih (h.step hs ha hends.1) (hs.step ha)
    · exact fun a' ha' => hvalid a' (by simp [ha'])
    · exact hends.2

end Queues

end Ledger

/-! ## The replica -/

/-- The end of a repair is dispatched behind every blob that the lane carried before it:
    each is applied, or a bootstrap taken later made it superfluous. -/
def EndCovered (cold : List (Msg β V δ)) (before : List (Ev β V δ)) : Ev β V δ → Prop
  | .dispatched m => m.header.lane = .cold → m.header.kind = .resyncEnd →
      ∀ c ∈ cold, ∀ k n, c.isLastChunk = true → c.header.seq = some k →
        m.header.seq = some n → k < n →
          (∃ e, Ev.applied e ∈ before ∧ e.seq = some k) ∨
            ∃ c' k', Ev.dispatched c' ∈ before ∧ c'.header.kind = .boot ∧
              c'.isLastChunk = true ∧ c'.header.seq = some k' ∧ k < k'
  | _ => True

/-- What holds of a pump that has taken the cold messages of `cold` up to `rest`, whatever
    the counter of the cold lane says. -/
structure Pump.Settles (c0 : Nat) (cold rest : List (Msg β V δ)) (p : Pump β V δ) : Prop where
  taken : cold = coldTaken p.done ++ rest
  tracks : p.assembly.Tracks (coldTaken p.done)
  waiting : ∀ e ∈ p.pending, ∃ s, e.seq = some s ∧ s ≤ c0 + (coldTaken p.done).length
  settled : ∀ c ∈ coldTaken p.done, c.isLastChunk → ∀ s, c.header.seq = some s → Settled p s
  parked : ∀ q ∈ p.parked, q.2.header.lane = .fast
  history : History (EndCovered cold) p.done

/-- What is applied or superseded stays so, and a blob that waits goes on waiting or is
    applied. -/
private theorem Settled.grow {p p' : Pump β V δ} {evs : List (Ev β V δ)} {s : Nat} (h : Settled p s)
    (hdone : p'.done = p.done ++ evs)
    (hpending : ∀ e ∈ p.pending, e ∈ p'.pending ∨ Ev.applied e ∈ evs) : Settled p' s := by
  unfold Settled
  rw [hdone]
  rcases h with ⟨e, he, hes⟩ | ⟨c', s', hd, hrest⟩ | ⟨e, he, hes⟩
  · exact .inl ⟨e, List.mem_append_left _ he, hes⟩
  · exact .inr (.inl ⟨c', s', List.mem_append_left _ hd, hrest⟩)
  · rcases hpending e he with hp | happ
    · exact .inr (.inr ⟨e, hp, hes⟩)
    · exact .inl ⟨e, List.mem_append_right _ happ, hes⟩

namespace Pump.Settles

variable {c0 : Nat} {cold rest : List (Msg β V δ)} {p p' : Pump β V δ}

/-- Anything but a cold message. -/
private theorem grow (h : p.Settles c0 cold rest) {t : List (Ev β V δ)}
    (hdone : p'.done = p.done ++ t) (hevs : coldTaken t = [])
    (hasm : p'.assembly = p.assembly) (hsub : ∀ e ∈ p'.pending, e ∈ p.pending)
    (hpending : ∀ e ∈ p.pending, e ∈ p'.pending ∨ Ev.applied e ∈ t)
    (hparked : ∀ q ∈ p'.parked, q.2.header.lane = .fast) : p'.Settles c0 cold rest := by
  have htaken : coldTaken p'.done = coldTaken p.done := by
    rw [hdone, coldTaken_append, hevs, List.append_nil]
  constructor
  · rw [htaken]
    exact h.taken
  · rw [htaken, hasm]
    exact h.tracks
  · rw [htaken]
    exact fun e he => h.waiting e (hsub e he)
  · rw [htaken]
    exact fun c hc hlast s hs => (h.settled c hc hlast s hs).grow hdone hpending
  · exact hparked
  · rw [hdone]
    apply h.history.append
    intro ev hev more
    cases ev with
    | dispatched m =>
      intro hlane
      -- a cold message would have been taken
      have hmem : m ∈ coldTaken t := List.mem_filterMap.mpr ⟨_, hev, by simp [hlane]⟩
      rw [hevs] at hmem
      cases hmem
    | _ => trivial

/-- Fast messages are dispatched. -/
theorem release (h : p.Settles c0 cold rest) {items : List (Msg β V δ)}
    (hitems : ∀ m ∈ items, m.header.lane = .fast) : (p.release items).Settles c0 cold rest :=
  h.grow rfl (coldTaken_fast hitems) rfl (fun _ he => he) (fun _ he => .inl he) h.parked

/-- The cold lane moves on. -/
theorem coldDone (h : p.Settles c0 cold rest) (seq : Option Nat) :
    (p.coldDone seq).Settles c0 cold rest :=
  h.grow (List.append_nil _).symm rfl rfl (fun _ he => he) (fun _ he => .inl he)
    fun q hq => h.parked q (List.mem_of_mem_filter hq)

/-- What comes due is on the fast lane. -/
theorem due (h : p.Settles c0 cold rest) (seq : Option Nat) :
    ∀ m ∈ p.due seq, m.header.lane = .fast := by
  intro m hm
  obtain ⟨q, hq, rfl⟩ := List.mem_map.mp hm
  exact h.parked q (List.mem_of_mem_filter hq)

/-- `_release(_merger.cold_done(seq))`. -/
theorem advance (h : p.Settles c0 cold rest) (seq : Option Nat) :
    (p.advance seq).Settles c0 cold rest :=
  (h.coldDone seq).release (h.due seq)

/-- A fast message is dispatched or parked. -/
theorem fast (h : p.Settles c0 cold rest) {m : Msg β V δ} (hm : m.header.lane = .fast) :
    (p.fast m).Settles c0 cold rest := by
  -- released, or parked
  unfold Pump.fast
  split
  · have hone : ∀ x ∈ [m], x.header.lane = .fast := by
      intro x hx
      obtain rfl := List.mem_singleton.mp hx
      exact hm
    exact h.release hone
  · apply h.grow (t := [])
    · exact (List.append_nil _).symm
    · rfl
    · rfl
    · exact fun _ he => he
    · exact fun _ he => .inl he
    intro q hq
    rcases List.mem_append.mp hq with hq | hq
    · exact h.parked q hq
    · obtain rfl := List.mem_singleton.mp hq
      exact hm

/-- The oldest waiting blob is applied. -/
theorem applyNext (h : p.Settles c0 cold rest) {e : Pending β δ} {es : List (Pending β δ)}
    (hpending : p.pending = e :: es) :
    ({ p with pending := es, done := p.done ++ [Ev.applied e] }.coldDone e.seq).Settles c0
      cold rest := by
  -- the head is applied, and what comes due with it is of the fast lane
  apply coldDone
  apply h.grow (t := [Ev.applied e])
  · rfl
  · rfl
  · rfl
  · intro e' he'
    rw [hpending]
    exact List.mem_cons_of_mem _ he'
  · intro e' he'
    rw [hpending] at he'
    rcases List.mem_cons.mp he' with rfl | he'
    · exact .inr (by simp)
    · exact .inl he'
  · exact h.parked

/-- The batch loop. -/
theorem batchLoop (budget : Nat) (applied : Nat) (due : List (Msg β V δ))
    (h : p.Settles c0 cold rest) (hdue : ∀ m ∈ due, m.header.lane = .fast) :
    let out := Pump.batchLoop budget p.pending applied p due
    out.1.Settles c0 cold rest ∧ ∀ m ∈ out.2, m.header.lane = .fast := by
  generalize hes : p.pending = es
  induction es generalizing p applied due with
  | nil => exact ⟨h, hdue⟩
  | cons e es ih =>
    have hnext := h.applyNext hes
    -- what is due came from the fast lane
    have hdue' : ∀ m ∈ due ++ p.due e.seq, m.header.lane = .fast := by
      intro m hm
      exact (List.mem_append.mp hm).elim (hdue m) (h.due e.seq m)
    simp only [Pump.batchLoop]
    -- the batch is full
    split
    · exact ⟨h, hdue⟩
    · -- a bootstrap ends it, any other blob goes on
      split
      · exact ⟨hnext, hdue'⟩
      · exact ih _ _ hnext hdue' rfl

/-- `_apply_pending_batch`. -/
theorem batch (h : p.Settles c0 cold rest) (budget : Nat) :
    (p.batch budget).Settles c0 cold rest := by
  obtain ⟨hloop, hdue⟩ := h.batchLoop budget 0 [] (by simp)
  exact hloop.release hdue

/-! ### Cold messages -/

/-- A message that ends no blob was dispatched; a repair's end finds no blob waiting. -/
theorem took {m : Msg β V δ} (h : p.Settles c0 cold (m :: rest)) (hcold : ColdStream c0 cold)
    (hlast : m.isLastChunk = false) {a : Assembly β δ} (ha : a.Tracks (coldTaken p.done ++ [m]))
    (hend : m.header.kind = .resyncEnd → p.pending = []) :
    Pump.Settles c0 cold rest { p with assembly := a, done := p.done ++ [Ev.dispatched m] } := by
  have hnext := hcold.mayFollow h.taken
  have htaken : coldTaken (p.done ++ [Ev.dispatched m]) = coldTaken p.done ++ [m] := by
    simp [coldTaken, hnext.lane]
  constructor
  · rw [htaken, h.taken, List.append_assoc]
    rfl
  · rw [htaken]
    exact ha
  · rw [htaken, List.length_append]
    intro e he
    obtain ⟨s, hs, hle⟩ := h.waiting e he
    exact ⟨s, hs, by omega⟩
  · rw [htaken]
    intro c hc hclast s hs
    rcases List.mem_append.mp hc with hc | hc
    · exact (h.settled c hc hclast s hs).grow rfl fun _ he => .inl he
    · obtain rfl := List.mem_singleton.mp hc
      rw [hlast] at hclast
      cases hclast
  · exact h.parked
  · apply h.history.snoc
    intro _ hkind c hc k n hclast hk hn hlt
    -- what precedes the end on the lane was taken before it
    have hmem : c ∈ coldTaken p.done := by
      apply (hcold.mem_taken_iff ⟨_, h.taken.symm⟩ hc hk).mp
      rw [hnext.seq, Option.some.injEq] at hn
      omega
    rcases h.settled c hmem hclast k hk with happ | hsup | ⟨e, he, -⟩
    · exact .inl happ
    · exact .inr hsup
    · rw [hend hkind] at he
      cases he

/-- A message that ends a blob was dispatched, and the blob waits; a bootstrap makes the
    blobs that waited before it superfluous. -/
theorem queued {m : Msg β V δ} (h : p.Settles c0 cold (m :: rest)) (hcold : ColdStream c0 cold)
    (hlast : m.isLastChunk = true) {a : Assembly β δ}
    (ha : a.Tracks (coldTaken p.done ++ [m])) {e : Pending β δ} (he : e.seq = m.header.seq) :
    Pump.Settles c0 cold rest
      { p with
        assembly := a
        done := p.done ++ [Ev.dispatched m]
        pending := (if m.header.kind = .boot then [] else p.pending) ++ [e] } := by
  have hnext := hcold.mayFollow h.taken
  have htaken : coldTaken (p.done ++ [Ev.dispatched m]) = coldTaken p.done ++ [m] := by
    simp [coldTaken, hnext.lane]
  constructor
  · rw [htaken, h.taken, List.append_assoc]
    rfl
  · rw [htaken]
    exact ha
  · rw [htaken, List.length_append, List.length_singleton]
    intro e' he'
    rcases List.mem_append.mp he' with he' | he'
    · have hmem : e' ∈ p.pending := by
        split at he'
        · cases he'
        · exact he'
      obtain ⟨s, hs, hle⟩ := h.waiting e' hmem
      exact ⟨s, hs, by omega⟩
    · obtain rfl := List.mem_singleton.mp he'
      exact ⟨_, he.trans hnext.seq, by omega⟩
  · rw [htaken]
    intro c hc hclast s hs
    rcases List.mem_append.mp hc with hc | hc
    · rcases h.settled c hc hclast s hs with ⟨e', he', hes⟩ | ⟨c', s', hd, hrest⟩ | ⟨e', he', hes⟩
      · exact .inl ⟨e', List.mem_append_left _ he', hes⟩
      · exact .inr (.inl ⟨c', s', List.mem_append_left _ hd, hrest⟩)
      · by_cases hboot : m.header.kind = .boot
        · obtain ⟨s', hs', hle⟩ := h.waiting e' he'
          rw [hes, Option.some.injEq] at hs'
          exact .inr (.inl ⟨m, _, by simp, hboot, hlast, hnext.seq, by omega⟩)
        · exact .inr (.inr ⟨e', by simp [hboot, he'], hes⟩)
    · obtain rfl := List.mem_singleton.mp hc
      exact .inr (.inr ⟨e, by simp, he.trans hs⟩)
  · exact h.parked
  · apply h.history.snoc
    intro _ hkind
    -- a repair's end is no chunk
    simp [Msg.isLastChunk, Msg.isBlobChunk, hkind] at hlast

variable [Inhabited β]

/-- A cold message is dispatched; a repair's end finds no blob waiting. -/
theorem dispatchCold {m : Msg β V δ} (h : p.Settles c0 cold (m :: rest))
    (hcold : ColdStream c0 cold) (hend : m.header.kind = .resyncEnd → p.pending = []) :
    (p.cold m).Settles c0 cold rest := by
  have hnext := hcold.mayFollow h.taken
  -- no chunk: an end finds no blob waiting, the rest is no end
  cases hchunk : m.header.kind.isChunk with
  | false =>
    have hblob := hnext.noChunk hchunk
    have hlast : m.isLastChunk = false := by simp [Msg.isLastChunk, hblob]
    have htook := (h.took hcold hlast (h.tracks.snoc_noChunk hblob) hend).advance m.header.seq
    unfold Pump.cold
    cases hk : m.header.kind
    case t2 => simp [hk, Kind.isChunk] at hchunk
    case boot => simp [hk, Kind.isChunk] at hchunk
    case libfile => simp [hk, Kind.isChunk] at hchunk
    all_goals exact htook
  -- a chunk: of a library, or of a blob that is queued with its last one
  | true =>
    obtain ⟨b, mine, hm, hprog⟩ := hnext.chunk hchunk
    have hblob := hm.blob_eq
    have hnot : m.header.kind ≠ .resyncEnd := hm.kind_ne_end
    by_cases hlib : b.id.kind = .libfile
    · have hk : m.header.kind = .libfile := hm.kind_eq.trans hlib
      have hlast : m.isLastChunk = false := by simp [Msg.isLastChunk, Msg.isBlobChunk, hk]
      obtain ⟨htracks, hout⟩ := h.tracks.feedLib hm hprog
      have htook := h.took hcold hlast htracks fun hk => absurd hk hnot
      simp only [Pump.cold, hk, hblob, hout]
      split
      · exact htook.advance m.header.seq
      · exact htook
    · obtain ⟨htracks, hout⟩ := h.tracks.feed hm hprog hlib
      have hkinds : m.header.kind = .t2 ∨ m.header.kind = .boot := by
        rw [hm.kind_eq]
        cases hb : b.id <;> simp_all [BlobId.kind]
      have hlast : m.isLastChunk = decide (mine.length + 1 = b.count) := by
        have hboth : m.isBlobChunk = true := by
          rcases hkinds with hk | hk <;> simp [Msg.isBlobChunk, hk]
        simp [Msg.isLastChunk, hboth, hblob, Blob.position]
      have hcoldm : p.cold m =
          Pump.chunk { p with done := p.done ++ [Ev.dispatched m] } m (b.position mine.length) := by
        rcases hkinds with hk | hk <;> simp only [Pump.cold, hk, hblob]
      simp only [hcoldm, Pump.chunk, hout]
      by_cases hfull : mine.length + 1 = b.count
      · simp only [if_pos hfull]
        exact h.queued hcold (by simp [hlast, hfull]) htracks rfl
      · simp only [if_neg hfull]
        have htook := h.took hcold (by simp [hlast, hfull]) htracks fun hk => absurd hk hnot
        exact htook.advance m.header.seq

/-- One step of the pump. -/
theorem step (hcold : ColdStream c0 cold) {n n' : PumpNode β V δ} {out : Option (Msg β V δ)}
    (hstep : PumpStep n out n') (hfast : ∀ m ∈ n.fast, m.header.lane = .fast)
    (h : n.pump.Settles c0 cold n.cold)
    (hend : ∀ m ∈ out, m.header.lane = .cold → m.header.kind = .resyncEnd →
      n.pump.pending = []) : n'.pump.Settles c0 cold n'.cold := by
  -- each step of the pump by its own lemma
  cases hstep with
  | idle => exact h
  | fast p m c f =>
    have hm : m.header.lane = .fast := hfast m (by simp)
    rw [Pump.handle, if_pos hm]
    exact h.fast hm
  | cold p m c f =>
    have hm := (hcold.mayFollow h.taken).lane
    rw [Pump.handle, if_neg (by simp [hm])]
    exact h.dispatchCold hcold (hend m rfl hm)
  | batch p budget c f => exact h.batch budget

end Pump.Settles

/-! ## Runs -/

/-- What holds of a node between two actions. -/
structure PumpNode.Settles (c0 : Nat) (cold : List (Msg β V δ)) (n : PumpNode β V δ) : Prop where
  pump : n.pump.Settles c0 cold n.cold
  fastLane : ∀ m ∈ n.fast, m.header.lane = .fast

/-- A run whose repair ends never overtake a completed blob. -/
private theorem settles_run [Inhabited β] (B : Blender β V δ S) (scene : S) (c0 f0 : Nat)
    {cold fast : List (Msg β V δ)} (hcold : ColdStream c0 cold)
    (hfast : ∀ m ∈ fast, m.header.lane = .fast) {acts : List Node.Act}
    (h : Along (Node.step B) Node.EndsSettled (Node.start scene c0 f0 cold fast) acts) :
    (Node.run B (Node.start scene c0 f0 cold fast) acts).order.Settles c0 cold := by
  apply h.invariant (I := fun n => n.order.Settles c0 cold)
  · intro n a hn hend
    have hstep := n.step_order B a
    exact ⟨hn.pump.step hcold hstep hn.fastLane hend,
      fun m hm => hn.fastLane m (hstep.queues.2 hm)⟩
  · exact ⟨⟨rfl, Assembly.Tracks.empty, fun e he => (List.not_mem_nil he).elim,
      fun c hc => (List.not_mem_nil hc).elim, fun q hq => (List.not_mem_nil hq).elim,
      History.nil⟩, hfast⟩

/-- The last chunk of a blob that was handed over. -/
theorem Handed.last {log : List (Sent β V δ)} {u : Uuid} {s : Nat} {data : List β}
    (h : Handed log (.t2 u s) data) : ∃ c : Msg β V δ,
      Sent.cold c ∈ log ∧ c.blobId = some (.t2 u s) ∧ c.isLastChunk = true := by
  obtain ⟨b, hid, -, hall⟩ := h
  have hpos := b.count_pos
  obtain ⟨c, hc, hchunk⟩ := hall (b.count - 1) (by omega)
  refine ⟨c, hc, hid ▸ hchunk.blobId_eq, ?_⟩
  have hkind : c.header.kind = .t2 := by
    rw [hchunk.kind_eq, hid]
    rfl
  have hpos' : (b.position (b.count - 1)).i + 1 = (b.position (b.count - 1)).n := by
    show b.count - 1 + 1 = b.count
    omega
  simp [Msg.isLastChunk, Msg.isBlobChunk, hkind, hchunk.blob_eq, hpos']

/-- What was on the cold lane when a message left. -/
private theorem Ledger.coldLane_split {l : Ledger β V δ} {sent later : List (Sent β V δ)}
    {m : Msg β V δ}
    (h : l.log = sent ++ .cold m :: later) : ∃ taken rest, l.coldLane = taken ++ m :: rest ∧
      ∀ c, Sent.cold c ∈ sent → c ∈ taken := by
  refine ⟨({ log := sent } : Ledger β V δ).coldLane, ({ log := later } : Ledger β V δ).coldLane,
    ?_, fun c hc => List.mem_filterMap.mpr ⟨_, hc, rfl⟩⟩
  simp only [coldLane, h, List.filterMap_append]
  rfl

/-- In every session whose repair ends are taken when no refused chunk waits, and every run of
    the replica in which no end is taken while a completed blob waits, the end of a repair
    comes last: every blob queued before it has left, and is applied or superseded when the
    end is processed. -/
theorem repair_end_last [Inhabited β] [BEq V] [DecidableEq δ] (H : Digests β V δ)
    (w : World β V) (c0 f0 : Nat) (calls : List (World β V × Host.Call β δ))
    (hhost : Along Ledger.step Ledger.EndsDrained (Ledger.start c0 f0)
      ((Host.start w c0 f0).run H calls).trace)
    (B : Blender β V δ S) (scene : S) (acts : List Node.Act)
    (hreplica : Along (Node.step B) Node.EndsSettled
      (Node.start scene c0 f0 ((Host.start w c0 f0).run H calls).ledger.coldLane
        ((Host.start w c0 f0).run H calls).ledger.fastLane) acts) :
    let l := ((Host.start w c0 f0).run H calls).ledger
    EndsLast l.log (Node.run B (Node.start scene c0 f0 l.coldLane l.fastLane) acts).replica := by
  intro l
  obtain ⟨hledger, hvalid⟩ := Host.run_ledger H w c0 f0 calls
  have hqueues : l.Queues := by
    show ((Host.start w c0 f0).run H calls).ledger.Queues
    rw [hledger]
    exact (Ledger.Queues.start c0 f0).run (.start c0 f0) hvalid hhost
  have hstreams : l.Streams c0 f0 := Host.run_streams H w c0 f0 calls
  have hsettles := settles_run B scene c0 f0 hstreams.stream hstreams.lane_fast hreplica
  refine ⟨hqueues.ends, fun before ev after hlog => ?_⟩
  cases ev with
  | dispatched m =>
    intro hlane hkind sent later hsplit u s data hlast
    have hcov := hsettles.pump.history _ _ _ (effects_split hlog) hlane hkind
    -- the blob's last chunk left before the end did
    obtain ⟨c, hc, hid, hclast⟩ := (hqueues.ends _ _ _ hsplit hkind u s data hlast).last
    obtain ⟨taken, rest, hlaneSplit, hsub⟩ := Ledger.coldLane_split hsplit
    have hm := hstreams.stream.seq_of_split hlaneSplit
    have hcm : c ∈ l.coldLane := by
      rw [hlaneSplit]
      exact List.mem_append_left _ (hsub c hc)
    obtain ⟨a, b, hab⟩ := List.append_of_mem hcm
    have hk := hstreams.stream.seq_of_split hab
    have hle := (hstreams.stream.mem_taken_iff ⟨_, hlaneSplit.symm⟩ hcm hk).mpr (hsub c hc)
    refine ⟨c, _, hc, hid, hclast, hk, ?_⟩
    rcases hcov c hcm _ _ hclast hk hm (by omega) with ⟨e, he, hes⟩ | ⟨c', k', hd, hrest⟩
    · exact .inl ⟨e, List.mem_of_mem_filter he, hes⟩
    · exact .inr ⟨c', k', List.mem_of_mem_filter hd, hrest⟩
  | _ => trivial

/-! ## An end that overtakes a chunk -/

namespace Delta

open Camera

/-- The repair of a replica that lost camera `"a"`. -/
def plan : DeltaPlan :=
  { tombs := [], resend := ["a"], verify := [], sceneT1 := false, atState := [] }

/-- The transport refuses the try `refused` and takes all others. -/
def link (refused : Nat) : World (Entry String) String := { file with accepts := (· ≠ refused) }

/-- The bootstrap leaves, a repair is planned, and its tick refuses one message at most. -/
def calls (refused : Nat) : List (World (Entry String) String × Host.Call (Entry String) Digest) :=
  [(file, .bootstrap), (file, .tick), (file, .delta plan Dict.empty), (link refused, .tick)]

/-- The host after that. -/
def host (refused : Nat) : Host (Entry String) String Digest :=
  (Host.start file 0 0).run digests (calls refused)

/-- The bootstrap is applied, then what the repair sent. -/
def acts : List Node.Act :=
  [.turn 0 1, .batch 16, .turn 0 8, .batch 16, .turn 0 8]

/-- The replica after that. -/
def node (refused : Nat) : Node (Entry String) String Digest (Scene String) :=
  let l := (host refused).ledger
  Node.run (.keyed String Digest) (Node.start (fun _ => none) 0 0 l.coldLane l.fastLane) acts

/-- Nothing of blob `id` was sent. -/
def unsent (id : BlobId) : Sent (Entry String) String Digest → Bool
  | .cold m => m.blobId ≠ some id
  | _ => true

/-- What the host sent of the repair, as kind and seq. -/
def sentCold (refused : Nat) : List (Kind × Option Nat) :=
  (host refused).ledger.coldLane.map fun m => (m.header.kind, m.header.seq)

end Delta

open Camera Delta in
/-- The chunk of `"a"` is refused, the end fits: it leaves while the blob is queued, and the
    replica takes the repair for complete. -/
theorem repair_end_last_counterexample :
    sentCold 1 = [(.boot, some 1), (.resyncEnd, some 2)] ∧
      (host 1).ledger.t2Outbox.keys = ["a"] ∧ (node 1).replica.data.stats.resyncs = 1 ∧
      ¬ EndsLast (host 1).ledger.log (node 1).replica := by
  refine ⟨by decide +kernel, by decide +kernel, by decide +kernel, fun h => ?_⟩
  have hsplit : (host 1).ledger.log = (host 1).ledger.log.take 5 ++
      .cold { header := { kind := .resyncEnd, seq := some 2 } } :: [] := by decide +kernel
  have hcut : (cutsOf "a" ((host 1).ledger.log.take 5)).getLast? =
      some (2, [("a", Dict.empty)]) := by decide +kernel
  obtain ⟨c, hc, hid, -⟩ := (h.host _ _ _ hsplit rfl "a" _ _ hcut).last
  have hnone : ((host 1).ledger.log.take 5).all (unsent (.t2 "a" 2)) = true := by
    decide +kernel
  have hne := List.all_eq_true.mp hnone _ hc
  exact absurd hid (by simpa [unsent] using hne)

open Camera Delta in
/-- With nothing refused the blob leaves before the end, and is applied before it. -/
theorem repair_end_last_taken :
    EndsLast (host 9).ledger.log (node 9).replica ∧
      sentCold 9 = [(.boot, some 1), (.t2, some 2), (.resyncEnd, some 3)] :=
  ⟨repair_end_last digests file 0 0 (Delta.calls 9) (by decide +kernel) (.keyed String Digest)
    (fun _ => none) Delta.acts (by decide +kernel), by decide +kernel⟩

end QCBridge
