import QCBridge.Spec.Pump
import Mathlib.Data.List.Perm.Basic

/-!
# The cold lane of a session

What the host puts on the cold lane: contiguous seqs, and blobs cut into chunks
that leave in order, the chunks of one datablock's blobs never mixed. A blob
that is cut short is given up for good: the next chunk of its thread is the
first of another blob.

Over such a stream the replica's reassembly hands a blob out exactly at its last
chunk, with the bytes the host cut.

## Key results

- `ColdStream`: the lane's contract
- `Assembly.Tracks.feed`, `Assembly.Tracks.feedLib`: one chunk, and what comes out
-/

namespace QCBridge

variable {β V δ : Type}

/-! ## Blobs and their threads -/

namespace BlobId

/-- The kind of the messages that carry the blob. -/
def kind : BlobId → Kind
  | .boot .. => .boot
  | .lib .. => .libfile
  | .t2 .. => .t2

/-- The `uuid` of those messages. -/
def uuid : BlobId → Uuid
  | .t2 u _ => u
  | .boot .. => mainfileUuid
  | .lib .. => ""

/-- The blobs of one thread follow each other on the lane: those of a datablock,
    the bootstraps, and each library file by itself. -/
def thread : BlobId → BlobId
  | .t2 u _ => .t2 u 0
  | .boot _ _ => .boot 0 0
  | .lib n s => .lib n s

/-- Whether the id can be on the lane: a datablock's stamp is never the bootstrap's. -/
def Named : BlobId → Prop
  | .t2 u _ => u ≠ mainfileUuid
  | _ => True

/-- Library files apart, the `uuid` of a chunk tells its thread. -/
private theorem thread_eq_of_uuid_eq {a b : BlobId} (ha : a.Named) (hb : b.Named)
    (hla : a.kind ≠ .libfile) (hlb : b.kind ≠ .libfile) (h : a.uuid = b.uuid) :
    a.thread = b.thread := by
  cases a <;> cases b <;> simp_all [Named, kind, uuid, thread]

end BlobId

/-- A blob as the host cuts it: its id fixes the kind and the uuid of its chunks. -/
structure Blob (β δ : Type) where
  id : BlobId
  bytes : List β
  info : Header δ
  chunkSize : Nat
  named : id.Named
  uuid_eq : info.uuid = id.uuid
  lane_eq : info.lane = .cold
  seq_eq : info.seq = none
  chunkSize_pos : 0 < chunkSize

namespace Blob

/-- How many chunks the blob makes. -/
def count (b : Blob β δ) : Nat := chunkCount b.bytes.length b.chunkSize

/-- Chunk `i`, before it has a seq. -/
def chunk (b : Blob β δ) (i : Nat) : Msg β V δ :=
  chunkAt b.id.kind b.id b.bytes b.info b.chunkSize i

/-- Position `i` of the blob, as the chunk's header has it. -/
def position (b : Blob β δ) (i : Nat) : Chunk :=
  ⟨b.id, i, b.count, b.bytes.length, i * b.chunkSize⟩

/-- A chunk says where in its blob it is. -/
@[simp] theorem chunk_blob (b : Blob β δ) (i : Nat) :
    (b.chunk i : Msg β V δ).header.blob = some (b.position i) := rfl

/-- A chunk is of its blob's kind. -/
@[simp] theorem chunk_kind (b : Blob β δ) (i : Nat) :
    (b.chunk i : Msg β V δ).header.kind = b.id.kind := rfl

/-- And goes by its `uuid`. -/
@[simp] theorem chunk_uuid (b : Blob β δ) (i : Nat) :
    (b.chunk i : Msg β V δ).header.uuid = b.id.uuid := b.uuid_eq

/-- Also an empty blob makes a chunk. -/
theorem count_pos (b : Blob β δ) : 0 < b.count := chunkCount_pos _ _

/-- The chunks cover the blob. -/
private theorem length_le_count_mul (b : Blob β δ) : b.bytes.length ≤ b.count * b.chunkSize := by
  have hpos := b.chunkSize_pos
  have hcount : (b.bytes.length + b.chunkSize - 1) / b.chunkSize ≤ b.count :=
    Nat.le_max_right _ _
  have hmul := Nat.mul_le_mul_left b.chunkSize hcount
  have hdiv := Nat.div_add_mod (b.bytes.length + b.chunkSize - 1) b.chunkSize
  have hmod := Nat.mod_lt (b.bytes.length + b.chunkSize - 1) hpos
  rw [Nat.mul_comm b.count]
  omega

end Blob

namespace Msg

/-- The message before it was given a seq. -/
def unseq (m : Msg β V δ) : Msg β V δ := { m with header := { m.header with seq := none } }

/-- The seq is no part of the kind, the position, the `uuid` or the bytes. -/
@[simp] theorem unseq_kind (m : Msg β V δ) : m.unseq.header.kind = m.header.kind := rfl
@[simp] theorem unseq_blob (m : Msg β V δ) : m.unseq.header.blob = m.header.blob := rfl
@[simp] theorem unseq_uuid (m : Msg β V δ) : m.unseq.header.uuid = m.header.uuid := rfl
@[simp] theorem unseq_data (m : Msg β V δ) : m.unseq.data = m.data := rfl
@[simp] theorem unseq_withSeq (m : Msg β V δ) (s : Nat) : (m.withSeq s).unseq = m.unseq := rfl

/-- The blob a chunk belongs to. -/
def blobId (m : Msg β V δ) : Option BlobId := m.header.blob.map Chunk.id

/-- Whether the message is a chunk of the blobs of a thread. -/
def onThread (th : BlobId) (m : Msg β V δ) : Bool := m.blobId.any (fun id => id.thread = th)

end Msg

/-- The chunks sent so far on a thread. -/
def onThread (th : BlobId) (sent : List (Msg β V δ)) : List (Msg β V δ) :=
  sent.filter (Msg.onThread th)

/-- The last chunks sent on the blob's thread are `mine`, its first ones, and none
    of its chunks were sent before them. -/
def Progress (sent : List (Msg β V δ)) (b : Blob β δ) (mine : List (Msg β V δ)) : Prop :=
  ∃ before, onThread b.id.thread sent = before ++ mine ∧
    mine.map Msg.unseq = (List.range mine.length).map b.chunk ∧
    ∀ m ∈ before, m.blobId ≠ some b.id

/-- `m` is chunk `i` of `b`, with a seq. -/
structure IsChunk (m : Msg β V δ) (b : Blob β δ) (i : Nat) : Prop where
  eq : m.unseq = b.chunk i
  lt : i < b.count

/-- `m` may leave after `sent`. -/
structure MayFollow (c0 : Nat) (sent : List (Msg β V δ)) (m : Msg β V δ) : Prop where
  lane : m.header.lane = .cold
  seq : m.header.seq = some (c0 + sent.length + 1)
  noChunk : m.header.kind.isChunk = false → m.header.blob = none
  chunk : m.header.kind.isChunk = true → ∃ b mine, IsChunk m b mine.length ∧ Progress sent b mine

/-- The cold lane of a session whose seqs start after `c0`. -/
inductive ColdStream (c0 : Nat) : List (Msg β V δ) → Prop where
  | nil : ColdStream c0 []
  | snoc {sent : List (Msg β V δ)} {m : Msg β V δ} :
      ColdStream c0 sent → MayFollow c0 sent m → ColdStream c0 (sent ++ [m])

namespace ColdStream

variable {c0 : Nat} {cold : List (Msg β V δ)}

/-- What a message on the lane may rely on is what was sent before it. -/
theorem mayFollow (h : ColdStream c0 cold) {taken rest : List (Msg β V δ)} {m : Msg β V δ}
    (hsplit : cold = taken ++ m :: rest) : MayFollow c0 taken m := by
  induction h generalizing rest with
  | nil => simp at hsplit
  | snoc h hm ih =>
    rename_i sent last
    rcases List.eq_nil_or_concat rest with rfl | ⟨rest', last', rfl⟩
    · obtain ⟨rfl, heq⟩ := List.append_inj' hsplit rfl
      obtain rfl : last = m := by simpa using heq
      exact hm
    · rw [List.concat_eq_append, ← List.cons_append, ← List.append_assoc] at hsplit
      exact ih (List.append_inj' hsplit rfl).1

/-- The seqs count the messages of the session. -/
theorem seq_of_split (h : ColdStream c0 cold) {taken rest : List (Msg β V δ)} {m : Msg β V δ}
    (hsplit : cold = taken ++ m :: rest) : m.header.seq = some (c0 + taken.length + 1) :=
  (h.mayFollow hsplit).seq

/-- The seqs say which messages were taken. -/
theorem mem_taken_iff (h : ColdStream c0 cold) {taken : List (Msg β V δ)} (hpre : taken <+: cold)
    {c : Msg β V δ} (hc : c ∈ cold) {s : Nat} (hs : c.header.seq = some s) :
    s ≤ c0 + taken.length ↔ c ∈ taken := by
  obtain ⟨rest, rfl⟩ := hpre
  constructor
  · intro hle
    rcases List.mem_append.mp hc with hc | hc
    · exact hc
    · obtain ⟨a, b, rfl⟩ := List.append_of_mem hc
      have hseq := @seq_of_split _ _ _ _ _ h (taken ++ a) _ _ (by rw [List.append_assoc])
      rw [hs, Option.some.injEq, List.length_append] at hseq
      omega
  · intro hc
    obtain ⟨a, b, rfl⟩ := List.append_of_mem hc
    have hseq := @seq_of_split _ _ _ _ _ h a _ _ (by rw [List.append_assoc]; rfl)
    rw [hs, Option.some.injEq] at hseq
    simp only [List.length_append, List.length_cons]
    omega

end ColdStream

/-! ## Reassembly over the stream -/

/-- The first `i` chunks of `b` are in the partial, and nothing else is. -/
structure PartialBlob.Filled (part : PartialBlob β δ) (b : Blob β δ) (h : Header δ) (i : Nat) :
    Prop where
  total : part.total = b.count
  size : part.size = b.bytes.length
  header : part.header = h
  length : part.buf.length = b.bytes.length
  filled : part.buf.take (i * b.chunkSize) = b.bytes.take (i * b.chunkSize)
  got : part.got.Perm (List.range i)

/-- Writing the next chunk at the end of what is filled fills it further. -/
private theorem take_splice (buf bytes : List β) (o k : Nat) (hlen : buf.length = bytes.length)
    (hpre : buf.take o = bytes.take o) (ho : o + ((bytes.drop o).take k).length ≤ bytes.length) :
    (splice buf o ((bytes.drop o).take k)).length = bytes.length ∧
      (splice buf o ((bytes.drop o).take k)).take (o + k) = bytes.take (o + k) := by
  have hsplit : bytes.take (o + k) = bytes.take o ++ (bytes.drop o).take k := List.take_add
  simp only [List.length_take, List.length_drop] at ho
  constructor
  · simp only [splice, List.length_append, List.length_take, List.length_drop]
    omega
  · rw [splice, hpre, ← hsplit]
    by_cases hk : o + k ≤ bytes.length
    · rw [List.take_left' (by rw [List.length_take]; omega)]
    · have hall : bytes.take (o + k) = bytes := List.take_of_length_le (by omega)
      have hrest : buf.drop (o + ((bytes.drop o).take k).length) = [] :=
        List.drop_of_length_le (by simp only [List.length_take, List.length_drop]; omega)
      rw [hrest, hall, List.append_nil, hall]

namespace Reassembler

variable [Inhabited β]

/-- Feeding chunk `i` to a partial that holds the chunks before it. -/
private theorem feed_filled (r : Reassembler β δ) {m : Msg β V δ} {b : Blob β δ} {i : Nat}
    (hm : IsChunk m b i) {h : Header δ}
    (hpart : (r.partialOf m.header (b.position i)).Filled b h i) :
    if i + 1 = b.count then
      r.feed m.header m.data = (⟨r.partials.erase b.id⟩, some (h, b.bytes))
    else
      ∃ part, part.Filled b h (i + 1) ∧
        r.feed m.header m.data = (⟨r.partials.insert b.id part⟩, none) := by
  have hblob : m.header.blob = some (b.position i) := by
    rw [← Msg.unseq_blob, hm.eq]
    rfl
  have hdata : m.data = (b.bytes.drop (i * b.chunkSize)).take b.chunkSize := by
    rw [← Msg.unseq_data, hm.eq]
    rfl
  have hend := chunkAt_end_le (V := V) b.id.kind b.id b.bytes b.info b.chunkSize i hm.lt
  simp only [chunkAt, Msg.data] at hend
  have hfits : ¬ i * b.chunkSize + m.data.length >
      (r.partialOf m.header (b.position i)).size := by
    rw [hdata, hpart.size]
    omega
  rw [hdata] at hfits
  obtain ⟨hlen, hfill⟩ := take_splice _ b.bytes (i * b.chunkSize) b.chunkSize hpart.length
    hpart.filled hend
  have hnotgot : i ∉ (r.partialOf m.header (b.position i)).got := by
    rw [hpart.got.mem_iff]
    simp
  have hgot : ((r.partialOf m.header (b.position i)).got.insert i).Perm (List.range (i + 1)) := by
    rw [List.insert_of_not_mem hnotgot, List.range_succ]
    exact (hpart.got.cons i).trans (List.perm_append_singleton i _).symm
  have hsucc : (i + 1) * b.chunkSize = i * b.chunkSize + b.chunkSize := Nat.succ_mul _ _
  have hcount : ((r.partialOf m.header (b.position i)).got.insert i).length = i + 1 := by
    rw [hgot.length_eq, List.length_range]
  have hid : (b.position i).id = b.id := rfl
  have ho : (b.position i).o = i * b.chunkSize := rfl
  have hi : (b.position i).i = i := rfl
  have hlt := hm.lt
  simp only [feed, hblob, ho, hfits, if_false, hid, hi, hcount, hpart.total, hdata]
  split
  · rename_i hlast
    have hdone : ¬ i + 1 < b.count := by omega
    simp only [hdone, if_false, hpart.header]
    -- all chunks are in, so what is filled is the whole buffer
    have hcover := b.length_le_count_mul
    rw [← hlast, hsucc] at hcover
    rw [List.take_of_length_le (by omega), List.take_of_length_le hcover] at hfill
    rw [hfill]
  · rename_i hmore
    have hnot : i + 1 < b.count := by omega
    simp only [hnot, if_true]
    refine ⟨_, ?_, rfl⟩
    exact ⟨rfl, hpart.size, hpart.header, hlen, hsucc ▸ hfill, hgot⟩

/-- What comes out with chunk `i`: the blob if it was the last one, else nothing. -/
private theorem feed_filled_snd (r : Reassembler β δ) {m : Msg β V δ} {b : Blob β δ} {i : Nat}
    (hm : IsChunk m b i) {h : Header δ}
    (hpart : (r.partialOf m.header (b.position i)).Filled b h i) :
    (r.feed m.header m.data).2 = if i + 1 = b.count then some (h, b.bytes) else none := by
  have hfeed := r.feed_filled hm hpart
  split at hfeed
  · rename_i hlast
    rw [hfeed, if_pos hlast]
  · rename_i hmore
    obtain ⟨part, -, hfeed⟩ := hfeed
    rw [hfeed, if_neg hmore]

end Reassembler

namespace IsChunk

variable {m : Msg β V δ} {b : Blob β δ} {i : Nat}

/-- Its header says where in the blob it is. -/
theorem blob_eq (h : IsChunk m b i) : m.header.blob = some (b.position i) := by
  rw [← Msg.unseq_blob, h.eq]
  rfl

/-- It is of the blob's kind. -/
theorem kind_eq (h : IsChunk m b i) : m.header.kind = b.id.kind := by
  rw [← Msg.unseq_kind, h.eq]
  rfl

/-- It goes by the blob's `uuid`. -/
theorem uuid_eq (h : IsChunk m b i) : m.header.uuid = b.id.uuid := by
  rw [← Msg.unseq_uuid, h.eq, Blob.chunk_uuid]

/-- It is of that blob and of no other. -/
theorem blobId_eq (h : IsChunk m b i) : m.blobId = some b.id := by
  simp [Msg.blobId, h.blob_eq, Blob.position]

/-- Which chunk ends its blob. -/
theorem isLastChunk_eq (h : IsChunk m b i) (hkind : b.id.kind ≠ .libfile) :
    m.isLastChunk = decide (i + 1 = b.count) := by
  have hboth : m.isBlobChunk = true := by
    have := h.kind_eq
    cases hb : b.id <;> simp_all [BlobId.kind, Msg.isBlobChunk]
  simp [Msg.isLastChunk, hboth, h.blob_eq, Blob.position]

end IsChunk

/-- The chunks of a thread in two stretches. -/
theorem onThread_append (th : BlobId) (l₁ l₂ : List (Msg β V δ)) :
    onThread th (l₁ ++ l₂) = onThread th l₁ ++ onThread th l₂ := List.filter_append ..

/-- A chunk is on the thread of its blob. -/
private theorem mem_onThread_of_blobId {sent : List (Msg β V δ)} {m : Msg β V δ} {id : BlobId}
    (hm : m ∈ sent) (hid : m.blobId = some id) : m ∈ onThread id.thread sent := by
  simp [onThread, Msg.onThread, hm, hid]

/-- A blob none of whose chunks has left is new on the whole lane. -/
theorem Progress.not_sent {sent : List (Msg β V δ)} {b : Blob β δ} (h : Progress sent b []) :
    ∀ m ∈ sent, m.blobId ≠ some b.id := by
  obtain ⟨before, hth, -, hbefore⟩ := h
  intro m hm hid
  rw [List.append_nil] at hth
  exact hbefore m (hth ▸ mem_onThread_of_blobId hm hid) hid

/-- A message off the thread leaves the thread's progress as it was. -/
private theorem Progress.of_snoc_off {sent mine : List (Msg β V δ)} {b : Blob β δ} {m : Msg β V δ}
    (hoff : m.onThread b.id.thread = false) (h : Progress (sent ++ [m]) b mine) :
    Progress sent b mine := by
  obtain ⟨before, hth, hmine, hbefore⟩ := h
  rw [onThread_append] at hth
  have hnil : onThread b.id.thread [m] = [] := by simp [onThread, hoff]
  rw [hnil, List.append_nil] at hth
  exact ⟨before, hth, hmine, hbefore⟩

/-- The last chunk of a blob in progress is the chunk its place says. -/
private theorem Progress.of_snoc_on {sent mine : List (Msg β V δ)} {b : Blob β δ} {m : Msg β V δ}
    (hon : m.onThread b.id.thread = true) (h : Progress (sent ++ [m]) b mine) (hne : mine ≠ []) :
    ∃ mine', mine = mine' ++ [m] ∧ m.unseq = b.chunk mine'.length ∧ Progress sent b mine' := by
  obtain ⟨before, hth, hmine, hbefore⟩ := h
  rw [onThread_append] at hth
  have hone : onThread b.id.thread [m] = [m] := by simp [onThread, hon]
  obtain rfl | ⟨mine', last, rfl⟩ := List.eq_nil_or_concat mine
  · exact absurd rfl hne
  rw [List.concat_eq_append] at *
  rw [hone, ← List.append_assoc] at hth
  obtain ⟨hprev, hlast⟩ := List.append_inj' hth rfl
  obtain rfl : m = last := by simpa using hlast
  simp only [List.map_append, List.length_append, List.length_singleton, List.range_succ] at hmine
  obtain ⟨hmine, hchunk⟩ := List.append_inj' hmine rfl
  exact ⟨mine', rfl, by simpa using hchunk, before, hprev, hmine, hbefore⟩

namespace Assembly

variable [Inhabited β] {a : Assembly β δ} {h : Header δ} {payload : List β} {b : Chunk}

/-- What comes out of a chunk does not depend on which older blobs are given up first. -/
private theorem feed_snd : (a.feed h payload b).2 = ((a.supersede h b).feed h payload).2 := by
  simp only [feed]
  cases ((a.supersede h b).feed h payload).2 <;> rfl

/-- Nor does what is left in the reassembler. -/
private theorem feed_reassembler :
    (a.feed h payload b).1.reassembler = ((a.supersede h b).feed h payload).1 := by
  simp only [feed]
  cases ((a.supersede h b).feed h payload).2 <;> rfl

/-- A chunk makes no datablock but its own receive a blob, and no blob but its own. -/
private theorem feed_blobByUuid {u : Uuid} {id : BlobId}
    (hget : (a.feed h payload b).1.blobByUuid.get? u = some id) :
    (h.uuid = u ∧ b.id = id) ∨ a.blobByUuid.get? u = some id := by
  simp only [feed] at hget
  cases hout : ((a.supersede h b).feed h payload).2 with
  | some out =>
    simp only [hout, Dict.get?_erase] at hget
    split at hget
    · cases hget
    · exact .inr hget
  | none =>
    simp only [hout, Dict.get?_insert] at hget
    split at hget
    · rename_i hu
      exact .inl ⟨hu, by simpa using hget⟩
    · exact .inr hget

end Assembly

/-- What the reassembly knows of the chunks sent so far. -/
structure Assembly.Tracks (a : Assembly β δ) (sent : List (Msg β V δ)) : Prop where
  fresh : ∀ id, (∀ m ∈ sent, m.blobId ≠ some id) → a.reassembler.partials.get? id = none
  partly : ∀ (b : Blob β δ) (first : Msg β V δ) (mine : List (Msg β V δ)),
    Progress sent b (first :: mine) → (first :: mine).length < b.count →
    ∃ part, a.reassembler.partials.get? b.id = some part ∧
      part.Filled b first.header (first :: mine).length
  keys : ∀ u id, a.blobByUuid.get? u = some id →
    id.uuid = u ∧ id.kind ≠ .libfile ∧ id.Named

namespace Assembly.Tracks

variable {a : Assembly β δ} {sent : List (Msg β V δ)}

/-- A replica that has got nothing holds nothing. -/
theorem empty : ({} : Assembly β δ).Tracks ([] : List (Msg β V δ)) where
  fresh _ _ := rfl
  partly b first mine h _ := by
    obtain ⟨before, hth, -, -⟩ := h
    simp [onThread] at hth
  keys u id h := by simp at h

/-- A message that is no chunk leaves the reassembly as it was. -/
theorem snoc_noChunk (h : a.Tracks sent) {m : Msg β V δ} (hm : m.header.blob = none) :
    a.Tracks (sent ++ [m]) where
  fresh id hid := h.fresh id (fun m' hm' => hid m' (List.mem_append_left _ hm'))
  partly b first mine hp := by
    have hoff : m.onThread b.id.thread = false := by simp [Msg.onThread, Msg.blobId, hm]
    exact h.partly b first mine (hp.of_snoc_off hoff)
  keys := h.keys

variable [Inhabited β]

/-- The partial that the next chunk of `b` goes into, in any reassembler that
    knows what `a` knows of `b`. -/
private theorem partialOf_filled (h : a.Tracks sent) {m : Msg β V δ} {b : Blob β δ}
    {mine : List (Msg β V δ)} (hm : IsChunk m b mine.length) (hp : Progress sent b mine)
    {r : Reassembler β δ} (hr : r.partials.get? b.id = a.reassembler.partials.get? b.id) :
    (r.partialOf m.header (b.position mine.length)).Filled b (mine.headD m).header mine.length := by
  have hid : (b.position mine.length).id = b.id := rfl
  cases mine with
  | nil =>
    simp only [Reassembler.partialOf, hid, hr, h.fresh b.id hp.not_sent, Option.getD_none]
    exact ⟨rfl, rfl, rfl, List.length_replicate, by simp, by simp⟩
  | cons first mine =>
    obtain ⟨part, hget, hfilled⟩ := h.partly b first mine hp hm.lt
    simp only [Reassembler.partialOf, hid, hr, hget, Option.getD_some]
    exact hfilled

/-- Feeding a chunk to the reassembler keeps track, whatever stale blob of the
    chunk's thread was dropped before. -/
private theorem feed_reassembler (h : a.Tracks sent) {m : Msg β V δ} {b : Blob β δ} {i : Nat}
    (hm : IsChunk m b i) {r : Reassembler β δ}
    (hr : ∀ id, id = b.id ∨ id.thread ≠ b.id.thread →
      r.partials.get? id = a.reassembler.partials.get? id)
    (hfresh : ∀ id, (∀ m ∈ sent, m.blobId ≠ some id) → r.partials.get? id = none)
    {a' : Assembly β δ} (ha : a'.reassembler = (r.feed m.header m.data).1)
    (hkeys : ∀ u id, a'.blobByUuid.get? u = some id →
      id.uuid = u ∧ id.kind ≠ .libfile ∧ id.Named) :
    a'.Tracks (sent ++ [m]) where
  fresh id hid := by
    have hne : b.id ≠ id := fun heq => hid m (by simp) (heq ▸ hm.blobId_eq)
    rw [ha, r.feed_get?_of_ne _ _ hm.blob_eq (by exact hne)]
    exact hfresh id (fun m' hm' => hid m' (List.mem_append_left _ hm'))
  partly b' first rest hp' hlt := by
    by_cases hth : b.id.thread = b'.id.thread
    · -- the chunk is the last one of the progress, so it is a chunk of `b'` too
      have hon : m.onThread b'.id.thread = true := by
        simp [Msg.onThread, hm.blobId_eq, hth]
      obtain ⟨mine', hcons, hchunk, hprog⟩ := hp'.of_snoc_on hon (List.cons_ne_nil _ _)
      have hlen : (first :: rest).length = mine'.length + 1 := by simp [hcons]
      have hm' : IsChunk m b' mine'.length := ⟨hchunk, by omega⟩
      have hid : b'.id = b.id := by
        have := hm'.blobId_eq.symm.trans hm.blobId_eq
        simpa using this
      have hfilled := h.partialOf_filled hm' hprog (r := r) (hr _ (.inl hid))
      have hfeed := r.feed_filled hm' hfilled
      rw [if_neg (by omega)] at hfeed
      obtain ⟨part, hpart, hfeed⟩ := hfeed
      refine ⟨part, by rw [ha, hfeed]; exact Dict.get?_insert_self _ _ _, ?_⟩
      rw [hlen]
      have hhead : first = mine'.headD m := by
        cases mine' with
        | nil => simp at hcons; simp [hcons.1]
        | cons x xs => simp at hcons; simp [hcons.1]
      rw [hhead]
      exact hpart
    · have hoff : m.onThread b'.id.thread = false := by
        simp [Msg.onThread, hm.blobId_eq, hth]
      obtain ⟨part, hget, hfilled⟩ := h.partly b' first rest (hp'.of_snoc_off hoff) hlt
      have hne : b.id ≠ b'.id := fun heq => hth (heq ▸ rfl)
      refine ⟨part, ?_, hfilled⟩
      rw [ha, r.feed_get?_of_ne _ _ hm.blob_eq (by exact hne), hr _ (.inr (Ne.symm hth)), hget]
  keys := hkeys

omit [Inhabited β] in
/-- The stale blob that a chunk supersedes, if any, is another one of its thread. -/
private theorem supersede_cases (h : a.Tracks sent) {m : Msg β V δ} {b : Blob β δ} {i : Nat}
    (hm : IsChunk m b i) (hkind : b.id.kind ≠ .libfile) :
    a.supersede m.header (b.position i) = a.reassembler ∨
      ∃ stale, stale ≠ b.id ∧ stale.thread = b.id.thread ∧
        a.supersede m.header (b.position i) = a.reassembler.drop stale := by
  simp only [Assembly.supersede]
  split
  · rename_i stale hstale
    obtain ⟨huuid, hnotlib, hnamed⟩ := h.keys _ _ hstale
    split
    · exact .inl rfl
    · rename_i hne
      refine .inr ⟨stale, hne, ?_, rfl⟩
      exact BlobId.thread_eq_of_uuid_eq hnamed b.named hnotlib hkind (huuid.trans hm.uuid_eq)
  · exact .inl rfl

/-- A chunk of a tier-2 blob or a bootstrap: the blob comes out with its last
    chunk, as the host cut it. -/
theorem feed (h : a.Tracks sent) {m : Msg β V δ} {b : Blob β δ} {mine : List (Msg β V δ)}
    (hm : IsChunk m b mine.length) (hp : Progress sent b mine) (hkind : b.id.kind ≠ .libfile) :
    (a.feed m.header m.data (b.position mine.length)).1.Tracks (sent ++ [m]) ∧
      (a.feed m.header m.data (b.position mine.length)).2 =
        if mine.length + 1 = b.count then some ((mine.headD m).header, b.bytes) else none := by
  -- what goes on is not dropped for the new blob
  have hsame : ∀ id, id = b.id ∨ id.thread ≠ b.id.thread →
      (a.supersede m.header (b.position mine.length)).partials.get? id =
        a.reassembler.partials.get? id := by
    intro id hid
    rcases h.supersede_cases hm hkind with heq | ⟨stale, hne, hth, heq⟩
    · rw [heq]
    · rw [heq]
      refine Dict.get?_erase_of_ne _ ?_
      rintro rfl
      rcases hid with rfl | hid
      · exact hne rfl
      · exact hid hth
  -- and what was never sent is not there
  have hfresh : ∀ id, (∀ m ∈ sent, m.blobId ≠ some id) →
      (a.supersede m.header (b.position mine.length)).partials.get? id = none := by
    intro id hid
    rcases h.supersede_cases hm hkind with heq | ⟨stale, -, -, heq⟩
    · rw [heq]
      exact h.fresh id hid
    · rw [heq, Reassembler.drop, Dict.get?_erase, h.fresh id hid, ite_self]
  -- so the parts of this blob are those that were taken
  have hpart := h.partialOf_filled hm hp (hsame _ (.inl rfl))
  refine ⟨h.feed_reassembler hm hsame hfresh (Assembly.feed_reassembler ..) ?_, ?_⟩
  · -- blobByUuid: the datablock's blob is this one
    intro u id hget
    rcases Assembly.feed_blobByUuid hget with ⟨rfl, rfl⟩ | hget
    · exact ⟨hm.uuid_eq.symm, hkind, b.named⟩
    · exact h.keys u id hget
  · -- what comes out is the whole blob at its last chunk
    rw [Assembly.feed_snd, Reassembler.feed_filled_snd _ hm hpart]

/-- A chunk of a library file. -/
theorem feedLib (h : a.Tracks sent) {m : Msg β V δ} {b : Blob β δ} {mine : List (Msg β V δ)}
    (hm : IsChunk m b mine.length) (hp : Progress sent b mine) :
    (a.feedLib m.header m.data).1.Tracks (sent ++ [m]) ∧
      (a.feedLib m.header m.data).2 =
        if mine.length + 1 = b.count then some ((mine.headD m).header, b.bytes) else none := by
  refine ⟨h.feed_reassembler hm (fun _ _ => rfl) h.fresh rfl h.keys, ?_⟩
  exact a.reassembler.feed_filled_snd hm (h.partialOf_filled hm hp rfl)

end Assembly.Tracks

end QCBridge
