import QCBridge.Spec.ColdStream
import QCBridge.Spec.Trace

/-!
# What the host puts on the lanes

The sending half keeps its promise to the cold lane: the seqs are contiguous, the
chunks of a blob leave in order, and a blob that is replaced in its outbox never
sends another chunk. On the fast lane the seqs are contiguous too.

## Key results

- `Ledger.Streams`: the invariant, and one lemma for each step
- `Host.run_streams`: the lanes of any session
-/

namespace QCBridge

variable {β V δ : Type}

/-! ## Blobs of the host -/

/-- A datablock's blob. -/
def Blob.ofT2 {uuid : Uuid} (hu : uuid ≠ mainfileUuid) (seq : Nat) (data : List β) (digest : δ)
    (more : Bool) : Blob β δ where
  id := .t2 uuid seq
  bytes := data
  info := Ledger.blobInfo uuid digest more
  chunkSize := defaultChunkSize
  named := hu
  uuid_eq := rfl
  lane_eq := rfl
  seq_eq := rfl
  chunkSize_pos := by decide

/-- A bootstrap. -/
def Blob.ofBoot (n seq : Nat) (data : List β) (sceneDigest : Option δ) : Blob β δ where
  id := .boot n seq
  bytes := data
  info := Ledger.bootInfo sceneDigest
  chunkSize := defaultChunkSize
  named := trivial
  uuid_eq := rfl
  lane_eq := rfl
  seq_eq := rfl
  chunkSize_pos := by decide

/-- A library file. -/
def Blob.ofLib (n seq : Nat) (lib : String) (data : List β) : Blob β δ where
  id := .lib n seq
  bytes := data
  info := Ledger.libInfo lib
  chunkSize := defaultChunkSize
  named := trivial
  uuid_eq := rfl
  lane_eq := rfl
  seq_eq := rfl
  chunkSize_pos := by decide

/-- A chunk has no seq before it leaves. -/
private theorem Blob.chunk_unseq (b : Blob β δ) (i : Nat) :
    (b.chunk i : Msg β V δ).unseq = b.chunk i := by
  simp only [Blob.chunk, chunkAt, Msg.unseq, b.seq_eq]

/-- A chunk names no datablock to the fast lane's readers. -/
private theorem IsChunk.kind_names {m : Msg β V δ} {b : Blob β δ} {i : Nat} (h : IsChunk m b i) :
    m.header.kind ≠ .t1 ∧ m.header.kind ≠ .tomb := by
  rw [h.kind_eq]
  cases b.id <;> simp [BlobId.kind]

/-- And it is the same chunk when it has. -/
private theorem Blob.isChunk_withSeq (b : Blob β δ) {i : Nat} (hi : i < b.count) (s : Nat) :
    IsChunk ((b.chunk i : Msg β V δ).withSeq s) b i :=
  ⟨by rw [Msg.unseq_withSeq, b.chunk_unseq], hi⟩

/-- A message off the blob's thread leaves its progress alone. -/
private theorem Progress.snoc_off {sent mine : List (Msg β V δ)} {b : Blob β δ} {m : Msg β V δ}
    (hoff : m.onThread b.id.thread = false) (h : Progress sent b mine) :
    Progress (sent ++ [m]) b mine := by
  obtain ⟨before, hth, hmine, hbefore⟩ := h
  refine ⟨before, ?_, hmine, hbefore⟩
  rw [onThread_append, hth]
  simp [onThread, hoff]

/-- The blob's next chunk. -/
theorem Progress.snoc_on {sent mine : List (Msg β V δ)} {b : Blob β δ} {m : Msg β V δ}
    (hm : IsChunk m b mine.length) (h : Progress sent b mine) :
    Progress (sent ++ [m]) b (mine ++ [m]) := by
  obtain ⟨before, hth, hmine, hbefore⟩ := h
  have hon : m.onThread b.id.thread = true := by simp [Msg.onThread, hm.blobId_eq]
  refine ⟨before, ?_, ?_, hbefore⟩
  · rw [onThread_append, hth, List.append_assoc]
    simp [onThread, hon]
  · rw [List.map_append, hmine, List.length_append, List.length_singleton, List.range_succ,
      List.map_append, List.map_singleton, List.map_singleton, hm.eq]

/-- A blob none of whose chunks has left. -/
theorem Progress.fresh {sent : List (Msg β V δ)} {b : Blob β δ}
    (h : ∀ m ∈ sent, m.blobId ≠ some b.id) : Progress sent b [] :=
  ⟨onThread b.id.thread sent, by simp, rfl, fun m hm => h m (List.mem_of_mem_filter hm)⟩

/-! ## Outboxes -/

/-- The chunks queued of `o` are those of its blob that have not left. -/
def Outgoing.On (o : Outgoing β V δ) (sent : List (Msg β V δ)) : Prop :=
  ∃ (b : Blob β δ) (mine : List (Msg β V δ)), o.id = b.id ∧ o.data = b.bytes ∧
    Progress sent b mine ∧ mine.length < b.count ∧
    o.chunks = (List.range' mine.length (b.count - mine.length)).map b.chunk

namespace Outgoing.On

variable {o : Outgoing β V δ} {sent : List (Msg β V δ)}

/-- A blob just cut. -/
theorem cut {b : Blob β δ} (h : ∀ m ∈ sent, m.blobId ≠ some b.id) :
    Outgoing.On ⟨b.id, b.bytes, (List.range b.count).map b.chunk⟩ sent :=
  ⟨b, [], rfl, rfl, .fresh h, b.count_pos, by simp [List.range_eq_range']⟩

/-- A message off its thread. -/
private theorem snoc_off (h : o.On sent) {m : Msg β V δ} (hoff : m.onThread o.id.thread = false) :
    o.On (sent ++ [m]) := by
  obtain ⟨b, mine, hid, hdata, hprog, hlt, hchunks⟩ := h
  exact ⟨b, mine, hid, hdata, hprog.snoc_off (hid ▸ hoff), hlt, hchunks⟩

/-- The chunks queued are of the blob's kind and datablock. -/
theorem label (h : o.On sent) {m : Msg β V δ} (hm : m ∈ o.chunks) :
    m.header.kind = o.id.kind ∧ m.header.uuid = o.id.uuid := by
  obtain ⟨b, mine, hid, -, -, -, hchunks⟩ := h
  rw [hchunks] at hm
  obtain ⟨i, -, rfl⟩ := List.mem_map.mp hm
  rw [hid]
  exact ⟨b.chunk_kind i, b.chunk_uuid i⟩

/-- A blob in an outbox has chunks left. -/
theorem chunks_ne_nil (h : o.On sent) : o.chunks ≠ [] := by
  obtain ⟨b, mine, -, -, -, hlt, hchunks⟩ := h
  rw [hchunks, ne_eq, List.map_eq_nil_iff, List.range'_eq_nil_iff]
  omega

/-- The next chunk, and what is queued once it has left. -/
theorem next (h : o.On sent) (s : Nat) : ∃ (b : Blob β δ) (m : Msg β V δ)
    (mine rest : List (Msg β V δ)),
    o.id = b.id ∧ o.data = b.bytes ∧ o.chunks = m :: rest ∧ Progress sent b mine ∧
      IsChunk (m.withSeq s) b mine.length ∧ m.header.lane = .cold ∧
      (rest = [] ↔ mine.length + 1 = b.count) ∧
      (rest ≠ [] → Outgoing.On ⟨o.id, o.data, rest⟩ (sent ++ [m.withSeq s])) := by
  obtain ⟨b, mine, hid, hdata, hprog, hlt, hchunks⟩ := h
  obtain ⟨k, hk⟩ : ∃ k, b.count - mine.length = k + 1 := ⟨b.count - mine.length - 1, by omega⟩
  rw [hk, List.range'_succ, List.map_cons] at hchunks
  have hchunk : IsChunk ((b.chunk mine.length : Msg β V δ).withSeq s) b mine.length :=
    b.isChunk_withSeq hlt s
  refine ⟨b, _, mine, _, hid, hdata, hchunks, hprog, hchunk, b.lane_eq, ?_, fun hrest => ?_⟩
  · rw [List.map_eq_nil_iff, List.range'_eq_nil_iff]
    omega
  · have hlen : (mine ++ [(b.chunk mine.length : Msg β V δ).withSeq s]).length =
        mine.length + 1 := by simp
    have hmore : k ≠ 0 := fun h => hrest (by simp [h])
    refine ⟨b, _, hid, hdata, hprog.snoc_on hchunk, by omega, ?_⟩
    have hk' : b.count - (mine.length + 1) = k := by omega
    rw [hlen, hk']

end Outgoing.On

/-! ## The invariant -/

/-- Ids that the next blob's id is not among. -/
def BlobId.Old (l : Ledger β V δ) : BlobId → Prop
  | .boot n _ => n < l.sentBoot
  | .t2 _ s => s ≤ l.seq
  | .lib n _ => n < l.libsShipped

/-- What holds of the sending half in every session. -/
structure Ledger.Streams (c0 f0 : Nat) (l : Ledger β V δ) : Prop where
  stream : ColdStream c0 l.coldLane
  seq : l.seq = c0 + l.coldLane.length
  boot : ∀ o ∈ l.bootOutbox, o.On l.coldLane ∧ ∃ n s, o.id = .boot n s ∧ n < l.sentBoot
  t2 : ∀ u o, l.t2Outbox.get? u = some o →
    o.On l.coldLane ∧ ∃ s, o.id = .t2 u s ∧ s ≤ l.seq + 1
  lib : ∀ o ∈ l.libOutbox, o.On l.coldLane ∧ ∃ n s, o.id = .lib n s ∧ n < l.libsShipped
  libs : l.libOutbox.Pairwise fun o o' => o.id ≠ o'.id
  sent : ∀ m ∈ l.coldLane, ∀ id, m.blobId = some id → id.Old l
  kinds : ∀ m ∈ l.coldLane, m.header.kind ≠ .t1 ∧ m.header.kind ≠ .tomb
  fastSeq : l.seqFast = f0 + l.fastLane.length
  fast : ∀ i m, l.fastLane[i]? = some m →
    m.header.lane = .fast ∧ m.header.seq = some (f0 + i + 1)

namespace Ledger

/-- A cold message goes onto the cold lane with the next seq. -/
@[simp] theorem coldLane_pushCold (l : Ledger β V δ) (m : Msg β V δ) :
    (l.pushCold m).coldLane = l.coldLane ++ [m.withSeq (l.seq + 1)] := by
  simp [coldLane, pushCold]

/-- And not onto the fast one. -/
@[simp] theorem fastLane_pushCold (l : Ledger β V δ) (m : Msg β V δ) :
    (l.pushCold m).fastLane = l.fastLane := by
  simp [fastLane, pushCold]

/-- What is noted when a blob has left is on no lane. -/
@[simp] theorem coldLane_finish (l : Ledger β V δ) (o : Outgoing β V δ) :
    (l.finish o).coldLane = l.coldLane := by
  simp [coldLane, finish]

/-- On neither of them. -/
@[simp] theorem fastLane_finish (l : Ledger β V δ) (o : Outgoing β V δ) :
    (l.finish o).fastLane = l.fastLane := by
  simp [fastLane, finish]

/-- A fast message does not go onto the cold lane. -/
@[simp] theorem coldLane_pushFast (l : Ledger β V δ) (m : Msg β V δ) :
    (l.pushFast m).coldLane = l.coldLane := by
  simp [coldLane, pushFast]

/-- It goes onto the fast one with its own next seq. -/
@[simp] theorem fastLane_pushFast (l : Ledger β V δ) (m : Msg β V δ) :
    (l.pushFast m).fastLane = l.fastLane ++ [m.withSeq (l.seqFast + 1)] := by
  simp [fastLane, pushFast]

/-- One that is logged does not either. -/
@[simp] theorem coldLane_pushLogged (l : Ledger β V δ) (m : Msg β V δ) :
    (l.pushLogged m).coldLane = l.coldLane := by
  simp [coldLane, pushLogged, pushFast]

/-- It goes onto the fast one too. -/
@[simp] theorem fastLane_pushLogged (l : Ledger β V δ) (m : Msg β V δ) :
    (l.pushLogged m).fastLane = l.fastLane ++ [m.withSeq (l.seqFast + 1)] := by
  simp [fastLane, pushLogged, pushFast]

end Ledger

/-- A chunk is on no other thread than its blob's. -/
private theorem Msg.onThread_eq_false {m : Msg β V δ} {id th : BlobId} (hid : m.blobId = some id)
    (hth : id.thread ≠ th) : m.onThread th = false := by
  simp [Msg.onThread, hid, hth]

/-- And a message that is no chunk is on none. -/
private theorem Msg.onThread_of_noBlob {m : Msg β V δ} (h : m.header.blob = none) (th : BlobId) :
    m.onThread th = false := by
  simp [Msg.onThread, Msg.blobId, h]

/-- Ids do not become new again. -/
theorem BlobId.Old.mono {l l' : Ledger β V δ} {id : BlobId} (h : id.Old l)
    (hboot : l.sentBoot ≤ l'.sentBoot) (hseq : l.seq ≤ l'.seq)
    (hlib : l.libsShipped ≤ l'.libsShipped) : id.Old l' := by
  cases id with
  | boot n s => exact Nat.lt_of_lt_of_le h hboot
  | t2 u s => exact Nat.le_trans h hseq
  | lib n s => exact Nat.lt_of_lt_of_le h hlib

namespace Ledger.Streams

variable {c0 f0 : Nat} {l : Ledger β V δ}

/-- At the start nothing was sent. -/
theorem start (c0 f0 : Nat) : (Ledger.start c0 f0 : Ledger β V δ).Streams c0 f0 where
  stream := .nil
  seq := rfl
  boot := by simp [Ledger.start]
  t2 := by simp [Ledger.start]
  lib := by simp [Ledger.start]
  libs := List.Pairwise.nil
  sent := by simp [Ledger.start, coldLane]
  kinds := by simp [Ledger.start, coldLane]
  fastSeq := rfl
  fast := by simp [Ledger.start, fastLane]

/-- The queued chunk of a blob may leave next. -/
theorem mayFollow (h : l.Streams c0 f0) {m : Msg β V δ} {b : Blob β δ} {mine : List (Msg β V δ)}
    (hm : IsChunk (m.withSeq (l.seq + 1)) b mine.length) (hprog : Progress l.coldLane b mine)
    (hlane : m.header.lane = .cold) : MayFollow c0 l.coldLane (m.withSeq (l.seq + 1)) where
  lane := hlane
  seq := by rw [Msg.withSeq_seq, h.seq]
  noChunk hkind := by
    rw [hm.kind_eq] at hkind
    cases hid : b.id <;> simp [hid, BlobId.kind, Kind.isChunk] at hkind
  chunk _ := ⟨b, mine, hm, hprog⟩

/-- A message that is no chunk may leave next. -/
private theorem mayFollow_noChunk (h : l.Streams c0 f0) {m : Msg β V δ}
    (hlane : m.header.lane = .cold)
    (hkind : m.header.kind.isChunk = false) (hblob : m.header.blob = none) :
    MayFollow c0 l.coldLane (m.withSeq (l.seq + 1)) where
  lane := hlane
  seq := by rw [Msg.withSeq_seq, h.seq]
  noChunk _ := hblob
  chunk hchunk := by
    rw [Msg.withSeq_kind, hkind] at hchunk
    cases hchunk

/-- A cold message leaves, and the outboxes are as they should be. -/
theorem push (h : l.Streams c0 f0) {m : Msg β V δ} {l' : Ledger β V δ}
    (hm : MayFollow c0 l.coldLane (m.withSeq (l.seq + 1)))
    (hkind : m.header.kind ≠ .t1 ∧ m.header.kind ≠ .tomb)
    (hold : ∀ id, m.blobId = some id → id.Old l')
    (hcold : l'.coldLane = l.coldLane ++ [m.withSeq (l.seq + 1)]) (hseq : l'.seq = l.seq + 1)
    (hfast : l'.fastLane = l.fastLane) (hseqFast : l'.seqFast = l.seqFast)
    (hsentBoot : l'.sentBoot = l.sentBoot) (hlibs : l'.libsShipped = l.libsShipped)
    (hboot : ∀ o ∈ l'.bootOutbox, o.On l'.coldLane ∧ ∃ n s, o.id = .boot n s ∧ n < l.sentBoot)
    (ht2 : ∀ u o, l'.t2Outbox.get? u = some o →
      o.On l'.coldLane ∧ ∃ s, o.id = .t2 u s ∧ s ≤ l.seq + 1)
    (hlib : ∀ o ∈ l'.libOutbox, o.On l'.coldLane ∧ ∃ n s, o.id = .lib n s ∧ n < l.libsShipped)
    (hpair : l'.libOutbox.Pairwise fun o o' => o.id ≠ o'.id) : l'.Streams c0 f0 where
  stream := hcold ▸ h.stream.snoc hm
  seq := by
    rw [hcold, hseq, h.seq, List.length_append, List.length_singleton]
    rfl
  boot := hsentBoot ▸ hboot
  t2 u o ho := by
    obtain ⟨hon, s, hid, hs⟩ := ht2 u o ho
    exact ⟨hon, s, hid, by omega⟩
  lib := hlibs ▸ hlib
  libs := hpair
  -- a message sent before, or this one, whose blob is an old one
  sent m' hm' id hid := by
    rw [hcold, List.mem_append, List.mem_singleton] at hm'
    rcases hm' with hm' | rfl
    · exact (h.sent m' hm' id hid).mono (Nat.le_of_eq hsentBoot.symm) (by omega)
        (Nat.le_of_eq hlibs.symm)
    · exact hold id hid
  kinds m' hm' := by
    rw [hcold, List.mem_append, List.mem_singleton] at hm'
    rcases hm' with hm' | rfl
    · exact h.kinds m' hm'
    · exact hkind
  fastSeq := by rw [hseqFast, hfast, h.fastSeq]
  fast := hfast ▸ h.fast

/-! What is queued on another thread than `m` stays where it is. -/

/-- A message off its thread leaves the bootstrap in its outbox as it was. -/
private theorem boot_off (h : l.Streams c0 f0) {m : Msg β V δ}
    (hoff : ∀ n s, m.onThread (BlobId.boot n s).thread = false) :
    ∀ o ∈ l.bootOutbox, o.On (l.coldLane ++ [m]) ∧
      ∃ n s, o.id = .boot n s ∧ n < l.sentBoot := by
  intro o ho
  obtain ⟨hon, n, s, hid, hn⟩ := h.boot o ho
  exact ⟨hon.snoc_off (hid ▸ hoff n s), n, s, hid, hn⟩

/-- It leaves a datablock's blob as it was. -/
private theorem t2_off (h : l.Streams c0 f0) {m : Msg β V δ} {u : Uuid}
    (hoff : ∀ s, m.onThread (BlobId.t2 u s).thread = false) {o : Outgoing β V δ}
    (ho : l.t2Outbox.get? u = some o) :
    o.On (l.coldLane ++ [m]) ∧ ∃ s, o.id = .t2 u s ∧ s ≤ l.seq + 1 := by
  obtain ⟨hon, s, hid, hs⟩ := h.t2 u o ho
  exact ⟨hon.snoc_off (hid ▸ hoff s), s, hid, hs⟩

/-- And a library file. -/
private theorem lib_off (h : l.Streams c0 f0) {m : Msg β V δ} {o : Outgoing β V δ}
    (hoff : m.onThread o.id.thread = false) (ho : o ∈ l.libOutbox) :
    o.On (l.coldLane ++ [m]) ∧ ∃ n s, o.id = .lib n s ∧ n < l.libsShipped :=
  ⟨(h.lib o ho).1.snoc_off hoff, (h.lib o ho).2⟩

/-- A message that is no chunk leaves. -/
private theorem pushNoChunk (h : l.Streams c0 f0) {m : Msg β V δ} (hlane : m.header.lane = .cold)
    (hkind : m.header.kind.isChunk = false)
    (hname : m.header.kind ≠ .t1 ∧ m.header.kind ≠ .tomb) (hblob : m.header.blob = none) :
    (l.pushCold m).Streams c0 f0 := by
  have hoff : ∀ th, (m.withSeq (l.seq + 1)).onThread th = false := fun th =>
    Msg.onThread_of_noBlob hblob th
  have hcold := l.coldLane_pushCold m
  refine h.push (h.mayFollow_noChunk hlane hkind hblob) hname ?_ hcold rfl
    (l.fastLane_pushCold m) rfl rfl rfl ?_ ?_ ?_ h.libs
  · intro id hid
    simp [Msg.blobId, hblob] at hid
  · rw [hcold]
    exact h.boot_off fun _ _ => hoff _
  · rw [hcold]
    exact fun u o ho => h.t2_off (fun _ => hoff _) ho
  · rw [hcold]
    exact fun o ho => h.lib_off (hoff _) ho

/-- The bootstrap's next chunk leaves. -/
theorem sendBoot (h : l.Streams c0 f0) : l.sendBoot.Streams c0 f0 := by
  cases hbox : l.bootOutbox with
  | none =>
    simp only [Ledger.sendBoot, hbox]
    exact h
  | some o =>
    obtain ⟨hon, n, s, hid, hn⟩ := h.boot o hbox
    obtain ⟨b, m, mine, rest, hbid, -, hchunks, hprog, hchunk, hlane, -, hrest⟩ :=
      hon.next (l.seq + 1)
    obtain ⟨id, data, chunks⟩ := o
    obtain rfl : chunks = m :: rest := hchunks
    obtain rfl : id = .boot n s := hid
    have hmid : (m.withSeq (l.seq + 1)).blobId = some (.boot n s) := by
      rw [hchunk.blobId_eq, ← hbid]
    have hmay := h.mayFollow hchunk hprog hlane
    have hold : ∀ id, m.blobId = some id → ∀ l' : Ledger β V δ, l'.sentBoot = l.sentBoot →
        id.Old l' := by
      intro id hmid' l' hl'
      obtain rfl : BlobId.boot n s = id := Option.some.inj (hmid.symm.trans hmid')
      exact Nat.lt_of_lt_of_eq hn hl'.symm
    -- the blobs of datablocks and the library files are on other threads
    have ht2 : ∀ u o, l.t2Outbox.get? u = some o →
        o.On (l.coldLane ++ [m.withSeq (l.seq + 1)]) ∧ ∃ s, o.id = .t2 u s ∧ s ≤ l.seq + 1 :=
      fun u o ho => h.t2_off (fun _ => Msg.onThread_eq_false hmid (by simp [BlobId.thread])) ho
    have hlib : ∀ o ∈ l.libOutbox, o.On (l.coldLane ++ [m.withSeq (l.seq + 1)]) ∧
        ∃ n s, o.id = .lib n s ∧ n < l.libsShipped := by
      intro o ho
      obtain ⟨-, n', s', hid', -⟩ := h.lib o ho
      apply h.lib_off (Msg.onThread_eq_false hmid ?_) ho
      simp [hid', BlobId.thread]
    cases rest with
    | nil =>
      simp only [Ledger.sendBoot, hbox]
      have hcold := l.coldLane_pushCold m
      exact h.push hmay (hchunk.kind_names) (fun id hid => hold id hid _ rfl)
        (by simp [Ledger.coldLane, pushCold, finish])
        rfl (by simp [Ledger.fastLane, pushCold, finish]) rfl rfl rfl (by simp)
        (by simpa [Ledger.coldLane, pushCold, finish] using ht2)
        (by simpa [Ledger.coldLane, pushCold, finish] using hlib) h.libs
    | cons m' rest =>
      simp only [Ledger.sendBoot, hbox]
      refine h.push hmay (hchunk.kind_names) (fun id hid => hold id hid _ rfl)
        (l.coldLane_pushCold m) rfl
        (l.fastLane_pushCold m) rfl rfl rfl ?_ ?_ ?_ h.libs
      · intro o ho
        obtain rfl : o = ⟨.boot n s, data, m' :: rest⟩ := by simpa using ho.symm
        exact ⟨(l.coldLane_pushCold m) ▸ hrest (by simp), n, s, rfl, hn⟩
      · exact (l.coldLane_pushCold m) ▸ ht2
      · exact (l.coldLane_pushCold m) ▸ hlib

/-- The next chunk of a datablock's blob leaves. -/
theorem sendT2 (h : l.Streams c0 f0) (uuid : Uuid) : (l.sendT2 uuid).Streams c0 f0 := by
  cases hbox : l.t2Outbox.get? uuid with
  | none =>
    simp only [Ledger.sendT2, hbox]
    exact h
  | some o =>
    obtain ⟨hon, s, hid, hs⟩ := h.t2 uuid o hbox
    obtain ⟨b, m, mine, rest, hbid, -, hchunks, hprog, hchunk, hlane, -, hrest⟩ :=
      hon.next (l.seq + 1)
    obtain ⟨id, data, chunks⟩ := o
    obtain rfl : chunks = m :: rest := hchunks
    obtain rfl : id = .t2 uuid s := hid
    have hmid : (m.withSeq (l.seq + 1)).blobId = some (.t2 uuid s) := by
      rw [hchunk.blobId_eq, ← hbid]
    have hmay := h.mayFollow hchunk hprog hlane
    have hold : ∀ id, m.blobId = some id → ∀ l' : Ledger β V δ, l'.seq = l.seq + 1 →
        id.Old l' := by
      intro id hmid' l' hl'
      obtain rfl : BlobId.t2 uuid s = id := Option.some.inj (hmid.symm.trans hmid')
      exact Nat.le_trans hs (Nat.le_of_eq hl'.symm)
    -- everything else queued is on another thread
    have hboot : ∀ o ∈ l.bootOutbox, o.On (l.coldLane ++ [m.withSeq (l.seq + 1)]) ∧
        ∃ n s, o.id = .boot n s ∧ n < l.sentBoot :=
      h.boot_off fun _ _ => Msg.onThread_eq_false hmid (by simp [BlobId.thread])
    have ht2 : ∀ u o, uuid ≠ u → l.t2Outbox.get? u = some o →
        o.On (l.coldLane ++ [m.withSeq (l.seq + 1)]) ∧ ∃ s, o.id = .t2 u s ∧ s ≤ l.seq + 1 := by
      intro u o hne ho
      apply h.t2_off (fun s' => Msg.onThread_eq_false hmid ?_) ho
      simpa [BlobId.thread] using hne
    have hlib : ∀ o ∈ l.libOutbox, o.On (l.coldLane ++ [m.withSeq (l.seq + 1)]) ∧
        ∃ n s, o.id = .lib n s ∧ n < l.libsShipped := by
      intro o ho
      obtain ⟨-, n', s', hid', -⟩ := h.lib o ho
      apply h.lib_off (Msg.onThread_eq_false hmid ?_) ho
      simp [hid', BlobId.thread]
    cases rest with
    | nil =>
      simp only [Ledger.sendT2, hbox]
      refine h.push hmay (hchunk.kind_names) (fun id hid => hold id hid _ rfl)
        (by simp [Ledger.coldLane, pushCold, finish]) rfl
        (by simp [Ledger.fastLane, pushCold, finish]) rfl rfl rfl
        (by simpa [Ledger.coldLane, pushCold, finish] using hboot) ?_
        (by simpa [Ledger.coldLane, pushCold, finish] using hlib) h.libs
      intro u o ho
      rw [Dict.get?_erase] at ho
      split at ho
      · cases ho
      · rename_i hne
        simpa [Ledger.coldLane, pushCold, finish] using ht2 u o hne ho
    | cons m' rest =>
      simp only [Ledger.sendT2, hbox]
      refine h.push hmay (hchunk.kind_names) (fun id hid => hold id hid _ rfl)
        (l.coldLane_pushCold m) rfl
        (l.fastLane_pushCold m) rfl rfl rfl ((l.coldLane_pushCold m) ▸ hboot) ?_
        ((l.coldLane_pushCold m) ▸ hlib) h.libs
      intro u o ho
      rw [Dict.get?_insert] at ho
      split at ho
      · rename_i hu
        obtain rfl : o = ⟨.t2 uuid s, data, m' :: rest⟩ := by simpa using ho.symm
        exact ⟨(l.coldLane_pushCold m) ▸ hrest (by simp), s, by rw [hu], hs⟩
      · rename_i hne
        exact (l.coldLane_pushCold m) ▸ ht2 u o hne ho

/-- The next chunk of a library file leaves. -/
theorem sendLib (h : l.Streams c0 f0) : l.sendLib.Streams c0 f0 := by
  cases hbox : l.libOutbox with
  | nil =>
    simp only [Ledger.sendLib, hbox]
    exact h
  | cons o others =>
    obtain ⟨hon, n, s, hid, hn⟩ := h.lib o (by simp [hbox])
    obtain ⟨b, m, mine, rest, hbid, -, hchunks, hprog, hchunk, hlane, -, hrest⟩ :=
      hon.next (l.seq + 1)
    have hpair := h.libs
    rw [hbox, List.pairwise_cons] at hpair
    obtain ⟨id, data, chunks⟩ := o
    obtain rfl : chunks = m :: rest := hchunks
    obtain rfl : id = .lib n s := hid
    have hmid : (m.withSeq (l.seq + 1)).blobId = some (.lib n s) := by
      rw [hchunk.blobId_eq, ← hbid]
    have hmay := h.mayFollow hchunk hprog hlane
    have hold : ∀ id, m.blobId = some id → ∀ l' : Ledger β V δ, l'.libsShipped = l.libsShipped →
        id.Old l' := by
      intro id hmid' l' hl'
      obtain rfl : BlobId.lib n s = id := Option.some.inj (hmid.symm.trans hmid')
      exact Nat.lt_of_lt_of_eq hn hl'.symm
    -- everything else queued is on another thread
    have hboot : ∀ o ∈ l.bootOutbox, o.On (l.coldLane ++ [m.withSeq (l.seq + 1)]) ∧
        ∃ n s, o.id = .boot n s ∧ n < l.sentBoot :=
      h.boot_off fun _ _ => Msg.onThread_eq_false hmid (by simp [BlobId.thread])
    have ht2 : ∀ u o, l.t2Outbox.get? u = some o →
        o.On (l.coldLane ++ [m.withSeq (l.seq + 1)]) ∧ ∃ s, o.id = .t2 u s ∧ s ≤ l.seq + 1 :=
      fun u o ho => h.t2_off (fun _ => Msg.onThread_eq_false hmid (by simp [BlobId.thread])) ho
    have hothers : ∀ o ∈ others, o.On (l.coldLane ++ [m.withSeq (l.seq + 1)]) ∧
        ∃ n s, o.id = .lib n s ∧ n < l.libsShipped := by
      intro o ho
      have hin : o ∈ l.libOutbox := by simp [hbox, ho]
      obtain ⟨-, n', s', hid', -⟩ := h.lib o hin
      have hne := hpair.1 o ho
      rw [hid'] at hne
      apply h.lib_off (Msg.onThread_eq_false hmid ?_) hin
      simpa [hid', BlobId.thread] using hne
    cases rest with
    | nil =>
      simp only [Ledger.sendLib, hbox]
      exact h.push hmay (hchunk.kind_names) (fun id hid => hold id hid _ rfl)
        (by simp [Ledger.coldLane, pushCold, finish]) rfl
        (by simp [Ledger.fastLane, pushCold, finish]) rfl rfl rfl
        (by simpa [Ledger.coldLane, pushCold, finish] using hboot)
        (by simpa [Ledger.coldLane, pushCold, finish] using ht2)
        (by simpa [Ledger.coldLane, pushCold, finish] using hothers) hpair.2
    | cons m' rest =>
      simp only [Ledger.sendLib, hbox]
      refine h.push hmay (hchunk.kind_names) (fun id hid => hold id hid _ rfl)
        (l.coldLane_pushCold m) rfl
        (l.fastLane_pushCold m) rfl rfl rfl ((l.coldLane_pushCold m) ▸ hboot)
        ((l.coldLane_pushCold m) ▸ ht2) ?_ (List.pairwise_cons.mpr ⟨hpair.1, hpair.2⟩)
      intro o ho
      rcases List.mem_cons.mp ho with rfl | ho
      · exact ⟨(l.coldLane_pushCold m) ▸ hrest (by simp), n, s, rfl, hn⟩
      · exact (l.coldLane_pushCold m) ▸ hothers o ho

/-- A fast message leaves. -/
theorem pushFast (h : l.Streams c0 f0) {m : Msg β V δ} (hlane : m.header.lane = .fast)
    {l' : Ledger β V δ} (hlog : l'.log = l.log ++ [.fast (m.withSeq (l.seqFast + 1))])
    (hrest : l' = { l with seqFast := l.seqFast + 1, log := l'.log, fastlog := l'.fastlog }) :
    l'.Streams c0 f0 := by
  -- the cold lane is as before, the fast one has the message behind it
  have hcold : l'.coldLane = l.coldLane := by simp [coldLane, hlog]
  have hfast : l'.fastLane = l.fastLane ++ [m.withSeq (l.seqFast + 1)] := by
    simp [fastLane, hlog]
  have hseqFast : l'.seqFast = l.seqFast + 1 := by rw [hrest]
  refine ⟨hcold ▸ h.stream, ?_, ?_, ?_, ?_, ?_, ?_, hcold ▸ h.kinds, ?_, ?_⟩
  · -- seq, boot, t2, lib, libs, sent: nothing of the cold lane moves
    rw [hcold, hrest]
    exact h.seq
  · rw [hcold, hrest]
    exact h.boot
  · rw [hcold, hrest]
    exact h.t2
  · rw [hcold, hrest]
    exact h.lib
  · rw [hrest]
    exact h.libs
  · rw [hcold]
    intro m' hm' id hid
    exact (h.sent m' hm' id hid).mono (by rw [hrest]) (by rw [hrest]) (by rw [hrest])
  · -- fastSeq: one more message of the fast lane
    rw [hseqFast, hfast, h.fastSeq, List.length_append, List.length_singleton]
    rfl
  · -- fast: it has the next number
    intro i m' hm'
    rw [hfast, List.getElem?_append] at hm'
    split at hm'
    · exact h.fast i m' hm'
    · obtain ⟨hi, hm'⟩ := List.getElem?_eq_some_iff.mp hm'
      rw [List.length_singleton] at hi
      have hi' : i = l.fastLane.length := by omega
      subst hi'
      simp only [Nat.sub_self, List.getElem_cons_zero] at hm'
      subst hm'
      exact ⟨hlane, by rw [Msg.withSeq_seq, h.fastSeq]⟩

/-- No chunk that left has an id that is not old. -/
theorem not_sent (h : l.Streams c0 f0) {id : BlobId} (hid : ¬ id.Old l) :
    ∀ m ∈ l.coldLane, m.blobId ≠ some id :=
  fun m hm heq => hid (h.sent m hm id heq)

/-- A bootstrap is cut. -/
theorem cutBoot (h : l.Streams c0 f0) (data : List β) (sceneDigest : Option δ) :
    (l.step (.cutBoot data sceneDigest)).Streams c0 f0 := by
  have hcold : (l.step (.cutBoot data sceneDigest)).coldLane = l.coldLane := by
    simp [Ledger.step, coldLane]
  have hfast : (l.step (.cutBoot data sceneDigest)).fastLane = l.fastLane := by
    simp [Ledger.step, fastLane]
  have hnew : Outgoing.On ⟨_, _, _⟩ l.coldLane :=
    .cut (b := Blob.ofBoot l.sentBoot (l.seq + 1) data sceneDigest)
      (h.not_sent (fun hold => Nat.lt_irrefl _ hold))
  refine ⟨hcold ▸ h.stream, hcold ▸ h.seq, ?_, hcold ▸ h.t2, hcold ▸ h.lib, h.libs, ?_,
    hcold ▸ h.kinds, hfast ▸ h.fastSeq, hfast ▸ h.fast⟩
  · rw [hcold]
    intro o ho
    obtain rfl := (Option.some.inj ho)
    exact ⟨hnew, _, _, rfl, Nat.lt_succ_self _⟩
  · rw [hcold]
    exact fun m hm id hid => (h.sent m hm id hid).mono (Nat.le_succ _) (Nat.le_refl _)
      (Nat.le_refl _)

/-- A datablock's blob is cut, and replaces the one queued before it. -/
theorem cutT2 (h : l.Streams c0 f0) {uuid : Uuid} (hu : uuid ≠ mainfileUuid) (data : List β)
    (digest : δ) (more : Bool) : (l.step (.cutT2 uuid data digest more)).Streams c0 f0 := by
  have hcold : (l.step (.cutT2 uuid data digest more)).coldLane = l.coldLane := by
    simp [Ledger.step, coldLane]
  have hfast : (l.step (.cutT2 uuid data digest more)).fastLane = l.fastLane := by
    simp [Ledger.step, fastLane]
  have hnew : Outgoing.On ⟨_, _, _⟩ l.coldLane :=
    .cut (b := Blob.ofT2 hu (l.seq + 1) data digest more)
      (h.not_sent (fun hold => Nat.not_succ_le_self _ hold))
  refine ⟨hcold ▸ h.stream, hcold ▸ h.seq, hcold ▸ h.boot, ?_, hcold ▸ h.lib, h.libs,
    hcold ▸ h.sent, hcold ▸ h.kinds, hfast ▸ h.fastSeq, hfast ▸ h.fast⟩
  rw [hcold]
  intro u o ho
  simp only [Ledger.step, Dict.get?_insert] at ho
  split at ho
  · rename_i hu'
    obtain rfl := Option.some.inj ho
    exact ⟨hnew, l.seq + 1, by rw [hu'], Nat.le_refl _⟩
  · exact h.t2 u o ho

/-- A library file is cut. -/
theorem cutLib (h : l.Streams c0 f0) (lib : String) (data : List β) :
    (l.step (.cutLib lib data)).Streams c0 f0 := by
  -- cutting sends nothing
  have hcold : (l.step (.cutLib lib data)).coldLane = l.coldLane := by
    simp [Ledger.step, coldLane]
  have hfast : (l.step (.cutLib lib data)).fastLane = l.fastLane := by
    simp [Ledger.step, fastLane]
  -- the chunks are those of one blob, of which none was sent
  have hnew : Outgoing.On ⟨_, _, _⟩ l.coldLane :=
    .cut (b := (Blob.ofLib l.libsShipped (l.seq + 1) lib data : Blob β δ))
      (h.not_sent (fun hold => Nat.lt_irrefl _ hold))
  refine ⟨hcold ▸ h.stream, hcold ▸ h.seq, hcold ▸ h.boot, hcold ▸ h.t2, ?_, ?_, ?_,
    hcold ▸ h.kinds, hfast ▸ h.fastSeq, hfast ▸ h.fast⟩
  · -- lib: the new one behind the others
    rw [hcold]
    intro o ho
    rcases List.mem_append.mp ho with ho | ho
    · obtain ⟨hon, n, s, hid, hn⟩ := h.lib o ho
      exact ⟨hon, n, s, hid, Nat.lt_succ_of_lt hn⟩
    · obtain rfl := List.mem_singleton.mp ho
      exact ⟨hnew, _, _, rfl, Nat.lt_succ_self _⟩
  · -- libs: its number is new
    refine List.pairwise_append.mpr ⟨h.libs, List.pairwise_singleton _ _, ?_⟩
    intro o ho o' ho' heq
    obtain ⟨-, n, s, hid, hn⟩ := h.lib o ho
    obtain rfl := List.mem_singleton.mp ho'
    rw [hid] at heq
    cases heq
    exact Nat.lt_irrefl _ hn
  · -- sent: what was sent is older still
    rw [hcold]
    exact fun m hm id hid => (h.sent m hm id hid).mono (Nat.le_refl _) (Nat.le_refl _)
      (Nat.le_succ _)

/-- Forgetting what the streams do not depend on. -/
theorem of_eq (h : l.Streams c0 f0) {l' : Ledger β V δ} (hcold : l'.coldLane = l.coldLane)
    (hfast : l'.fastLane = l.fastLane)
    (hrest : l' = { l with
      log := l'.log, blobHash := l'.blobHash, linkSeq := l'.linkSeq }) : l'.Streams c0 f0 := by
  rw [hrest] at hcold hfast ⊢
  exact ⟨hcold ▸ h.stream, hcold ▸ h.seq, hcold ▸ h.boot, hcold ▸ h.t2, hcold ▸ h.lib, h.libs,
    hcold ▸ h.sent, hcold ▸ h.kinds, hfast ▸ h.fastSeq, hfast ▸ h.fast⟩

/-- Every step of the sending half keeps the streams in order. -/
theorem step (h : l.Streams c0 f0) {a : LedgerAct β V δ} (ha : a.Valid) :
    (l.step a).Streams c0 f0 := by
  cases a with
  | cutBoot data sceneDigest => exact h.cutBoot data sceneDigest
  | cutT2 uuid data digest more => exact h.cutT2 ha data digest more
  | cutLib lib data => exact h.cutLib lib data
  | sendBoot => exact h.sendBoot
  | sendT2 uuid => exact h.sendT2 uuid
  | sendLib => exact h.sendLib
  | sendCold kind lib =>
    have hpush : (l.pushCold { header := { kind := kind, lib := lib } }).Streams c0 f0 := by
      rcases ha with rfl | rfl | rfl <;> exact h.pushNoChunk rfl rfl (by simp) rfl
    exact hpush.of_eq rfl rfl rfl
  | endCold => exact h.pushNoChunk rfl rfl (by simp) rfl
  | t1 uuid changes targets full sd => exact h.pushFast rfl rfl rfl
  | tomb uuid => exact h.pushFast rfl rfl rfl
  | endFast => exact h.pushFast rfl rfl rfl
  | record uuid data digest =>
    exact h.of_eq (by simp [Ledger.step, coldLane]) (by simp [Ledger.step, fastLane]) rfl
  | skip uuid data digest => exact h

/-- Every run of the sending half. -/
theorem run (h : l.Streams c0 f0) {acts : List (LedgerAct β V δ)} (hacts : ∀ a ∈ acts, a.Valid) :
    (l.run acts).Streams c0 f0 := by
  induction acts generalizing l with
  | nil => exact h
  | cons a acts ih =>
    exact ih (h.step (hacts a (by simp))) fun a' ha' => hacts a' (by simp [ha'])

/-- What is on the cold lane is in the cold lane. -/
theorem lane_cold (h : l.Streams c0 f0) : ∀ m ∈ l.coldLane, m.header.lane = .cold := by
  intro m hm
  obtain ⟨taken, rest, hsplit⟩ := List.append_of_mem hm
  exact (h.stream.mayFollow hsplit).lane

/-- What is on the fast lane is in the fast lane. -/
theorem lane_fast (h : l.Streams c0 f0) : ∀ m ∈ l.fastLane, m.header.lane = .fast := by
  intro m hm
  obtain ⟨i, hi, hget⟩ := List.getElem_of_mem hm
  exact (h.fast i m (by rw [← hget, List.getElem?_eq_getElem hi])).1

end Ledger.Streams

/-! ## Sessions -/

/-- The lanes of any session. -/
theorem Host.run_streams [BEq V] [DecidableEq δ] (H : Digests β V δ) (w : World β V)
    (c0 f0 : Nat) (calls : List (World β V × Call β δ)) :
    ((start w c0 f0).run H calls).ledger.Streams c0 f0 := by
  obtain ⟨hledger, hvalid⟩ := run_ledger H w c0 f0 calls
  rw [hledger]
  exact (Ledger.Streams.start c0 f0).run hvalid

end QCBridge
