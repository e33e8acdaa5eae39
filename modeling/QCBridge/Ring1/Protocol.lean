import QCBridge.ForStd.Dict

/-!
# Wire protocol

`ring1/protocol.py`: the message headers of the cold and fast lanes, the
chunking of blobs and their reassembly, and the sequence tracker that detects
gaps on a lane.

Three types stay open. `β` is the byte of a blob, `V` the json value of a
property, `δ` the digest of a blob or of a Scene's structure: nothing on the
wire looks inside any of them.
-/

namespace QCBridge

/-- A datablock's stamp (`qcbridge_uuid`). Only its identity matters; `""` is
    the stamp of no datablock. -/
abbrev Uuid := String

/-- The `uuid` that a bootstrap's chunks carry. -/
def mainfileUuid : Uuid := "__mainfile__"

/-- A tier-1 path. The first character decides how it travels (`ring1/shadow.py`):
    a plain RNA path, an `"@"` path (state applied by a dedicated setter) or a
    `"~"` path (a structure signature, never sent). -/
inductive Path where
  | rna (name : String)
  | setter (name : String)
  | signature (name : String)
deriving DecidableEq, Repr

/-- `path.startswith("@")`. -/
def Path.isSetter : Path → Bool
  | .setter _ => true
  | _ => false

/-- `path.startswith("~")`. -/
def Path.isSignature : Path → Bool
  | .signature _ => true
  | _ => false

/-- The two ordered lanes: `"c"` (also the default of a header that names none)
    and `"f"`. -/
inductive Lane where
  | cold
  | fast
deriving DecidableEq, Repr

/-- The message kinds of the two lanes. -/
inductive Kind where
  | t1
  | t2
  | tomb
  | boot
  | resyncEnd
  | link
  | unlink
  | libfile
  | libMissing
deriving DecidableEq, Repr

/-- The message kinds that carry a chunk. -/
def Kind.isChunk : Kind → Bool
  | .t2 | .boot | .libfile => true
  | _ => false

/-- A blob id. The host spells them `boot.<n>.<seq>`, `lib.<n>.<seq>` and
    `<uuid>.<seq>`; the replica reads `<n>` back from the first. -/
inductive BlobId where
  | boot (n seq : Nat)
  | lib (n seq : Nat)
  | t2 (uuid : Uuid) (seq : Nat)
deriving DecidableEq, Repr

/-- `header["blob"]`: chunk `i` of `n`, at offset `o` of a blob of `size` bytes. -/
structure Chunk where
  id : BlobId
  i : Nat
  n : Nat
  size : Nat
  o : Nat
deriving DecidableEq, Repr

/-- A message header. Absent keys are the defaults the receiver reads for them. -/
structure Header (δ : Type) where
  kind : Kind
  lane : Lane := .cold
  seq : Option Nat := none
  uuid : Uuid := ""
  after : Nat := 0
  blob : Option Chunk := none
  digest : Option δ := none
  sceneDigest : Option δ := none
  sd : Option δ := none
  more : Bool := false
  full : Bool := false
  lib : String := ""
deriving DecidableEq

/-- `int(header["blob"]["id"].split(".")[1])`, or `None` when the id is not a
    bootstrap's. -/
def Header.bootNumber {δ : Type} (h : Header δ) : Option Nat :=
  match h.blob with
  | some ⟨.boot n _, _, _, _, _⟩ => some n
  | _ => none

/-- A payload: raw bytes (one chunk of a blob) or the json list of a tier-1
    message. -/
inductive Payload (β V : Type) where
  | bytes (data : List β)
  | changes (changes : List (Path × V))
deriving DecidableEq

/-- One message of the cold or the fast lane. -/
structure Msg (β V δ : Type) where
  header : Header δ
  payload : Payload β V := .bytes []
deriving DecidableEq

namespace Msg

variable {β V δ : Type}

/-- The bytes a chunk carries. -/
def data (m : Msg β V δ) : List β :=
  match m.payload with
  | .bytes d => d
  | .changes _ => []

/-- The property writes a tier-1 message carries. -/
def changes (m : Msg β V δ) : List (Path × V) :=
  match m.payload with
  | .bytes _ => []
  | .changes cs => cs

/-- The seq of a message, 0 when it has none. -/
def seqNo (m : Msg β V δ) : Nat := m.header.seq.getD 0

/-- `header["seq"] = seq`: sequence numbers are taken when a message is sent. -/
def withSeq (m : Msg β V δ) (seq : Nat) : Msg β V δ :=
  { m with header := { m.header with seq := some seq } }

@[simp] theorem withSeq_seq (m : Msg β V δ) (s : Nat) : (m.withSeq s).header.seq = some s := rfl
@[simp] theorem withSeq_kind (m : Msg β V δ) (s : Nat) :
    (m.withSeq s).header.kind = m.header.kind := rfl
@[simp] theorem withSeq_lane (m : Msg β V δ) (s : Nat) :
    (m.withSeq s).header.lane = m.header.lane := rfl
@[simp] theorem withSeq_uuid (m : Msg β V δ) (s : Nat) :
    (m.withSeq s).header.uuid = m.header.uuid := rfl
@[simp] theorem withSeq_blob (m : Msg β V δ) (s : Nat) :
    (m.withSeq s).header.blob = m.header.blob := rfl
@[simp] theorem withSeq_data (m : Msg β V δ) (s : Nat) : (m.withSeq s).data = m.data := rfl

/-- A chunk of a tier-2 blob or of a bootstrap. -/
def isBlobChunk (m : Msg β V δ) : Bool := m.header.kind = .t2 || m.header.kind = .boot

/-- The chunk that ends its blob. -/
def isLastChunk (m : Msg β V δ) : Bool :=
  m.isBlobChunk && m.header.blob.any (fun b => b.i + 1 = b.n)

end Msg

/-! ## Chunking -/

section Chunking

variable {β V δ : Type}

/-- `DEFAULT_CHUNK_SIZE`. -/
def defaultChunkSize : Nat := 4 * 1024 * 1024

/-- How many chunks `len` bytes make: at least one. -/
def chunkCount (len chunkSize : Nat) : Nat := max 1 ((len + chunkSize - 1) / chunkSize)

/-- Chunk `i` of a blob. `info` rides on every chunk. -/
def chunkAt (kind : Kind) (id : BlobId) (data : List β) (info : Header δ) (chunkSize i : Nat) :
    Msg β V δ where
  header := { info with
    kind := kind
    blob := some ⟨id, i, chunkCount data.length chunkSize, data.length, i * chunkSize⟩ }
  payload := .bytes ((data.drop (i * chunkSize)).take chunkSize)

/-- `chunk_blob`: the cold messages of one blob, in order. -/
def chunkBlob (kind : Kind) (id : BlobId) (data : List β) (info : Header δ) (chunkSize : Nat) :
    List (Msg β V δ) :=
  (List.range (chunkCount data.length chunkSize)).map (chunkAt kind id data info chunkSize)

theorem chunkCount_pos (len chunkSize : Nat) : 0 < chunkCount len chunkSize := by
  simp only [chunkCount]
  omega

@[simp] theorem length_chunkBlob (kind : Kind) (id : BlobId) (data : List β) (info : Header δ)
    (chunkSize : Nat) :
    (chunkBlob (V := V) kind id data info chunkSize).length = chunkCount data.length chunkSize := by
  simp [chunkBlob]

/-- A chunk never reaches past the end of its blob. -/
theorem chunkAt_end_le (kind : Kind) (id : BlobId) (data : List β) (info : Header δ)
    (chunkSize i : Nat) (hi : i < chunkCount data.length chunkSize) :
    i * chunkSize + (chunkAt (V := V) kind id data info chunkSize i).data.length ≤ data.length := by
  simp only [chunkAt, Msg.data, List.length_take, List.length_drop]
  by_cases hlen : i * chunkSize ≤ data.length
  · omega
  · -- a chunk that starts past the end would be one more than the count
    exfalso
    simp only [chunkCount] at hi
    rcases Nat.eq_zero_or_pos i with rfl | hpos
    · simp at hlen
    · have hcs : 0 < chunkSize := by
        rcases Nat.eq_zero_or_pos chunkSize with rfl | h
        · simp at hlen
        · exact h
      have hi' : i < (data.length + chunkSize - 1) / chunkSize := by omega
      have := (Nat.lt_div_iff_mul_lt hcs).mp hi'
      have hmul : chunkSize * i = i * chunkSize := Nat.mul_comm _ _
      omega

end Chunking

/-! ## Reassembly -/

/-- `_PartialBlob`: the chunks that have arrived of one blob. -/
structure PartialBlob (β δ : Type) where
  total : Nat
  size : Nat
  header : Header δ
  buf : List β
  got : List Nat := []
deriving DecidableEq

/-- `buf[offset:offset+len(payload)] = payload`. -/
def splice {β : Type} (buf : List β) (offset : Nat) (payload : List β) : List β :=
  buf.take offset ++ payload ++ buf.drop (offset + payload.length)

/-- `Reassembler`: blobs under assembly, by id. -/
structure Reassembler (β δ : Type) where
  partials : Dict BlobId (PartialBlob β δ) := Dict.empty
deriving DecidableEq

namespace Reassembler

variable {β δ : Type} [Inhabited β]

/-- The partial a chunk belongs to, a fresh one for the first chunk to arrive. -/
def partialOf (r : Reassembler β δ) (h : Header δ) (b : Chunk) : PartialBlob β δ :=
  (r.partials.get? b.id).getD
    { total := b.n, size := b.size, header := h, buf := List.replicate b.size default }

/-- `feed`: an unchunked message passes straight through; a chunk goes into its
    blob's buffer, and the blob comes out, once, with the last missing chunk. A
    chunk reaching past the blob's end drops the partial. -/
def feed (r : Reassembler β δ) (h : Header δ) (payload : List β) :
    Reassembler β δ × Option (Header δ × List β) :=
  match h.blob with
  | none => (r, some (h, payload))
  | some b =>
    let part := r.partialOf h b
    -- a chunk past the end of its blob: what there is of the blob goes
    if b.o + payload.length > part.size then
      (⟨r.partials.erase b.id⟩, none)
    else
      -- a chunk that comes twice counts once
      let part' := { part with buf := splice part.buf b.o payload, got := part.got.insert b.i }
      if part'.got.length < part'.total then
        (⟨r.partials.insert b.id part'⟩, none)
      else
        (⟨r.partials.erase b.id⟩, some (part'.header, part'.buf))

/-- `drop`. -/
def drop (r : Reassembler β δ) (id : BlobId) : Reassembler β δ := ⟨r.partials.erase id⟩

/-- Feeding a chunk leaves the partials of other blobs alone. -/
theorem feed_get?_of_ne (r : Reassembler β δ) (h : Header δ) (payload : List β) {b : Chunk}
    (hb : h.blob = some b) {id : BlobId} (hid : b.id ≠ id) :
    (r.feed h payload).1.partials.get? id = r.partials.get? id := by
  simp only [feed, hb]
  split
  · exact Dict.get?_erase_of_ne _ hid
  · split
    · exact Dict.get?_insert_of_ne _ _ hid
    · exact Dict.get?_erase_of_ne _ hid

end Reassembler

/-! ## Gap detection -/

/-- `SeqTracker`. -/
structure SeqTracker where
  lastSeen : Option Nat := none
  gaps : Nat := 0
  firstMissing : Option Nat := none
deriving DecidableEq, Repr

namespace SeqTracker

/-- Whether `seq` follows what the tracker has seen without a gap. -/
def follows (t : SeqTracker) (seq : Nat) : Bool :=
  match t.lastSeen with
  | none => true
  | some l => seq = l + 1

/-- `observe`: the return value is `t.follows seq`. -/
def observe (t : SeqTracker) (seq : Nat) : SeqTracker where
  lastSeen := match t.lastSeen with
    | none => some seq
    | some l => some (max l seq)
  gaps := if t.follows seq then t.gaps else t.gaps + 1
  -- only the oldest hole is kept, until it is cleared
  firstMissing := match t.lastSeen, t.firstMissing with
    | some l, none => if l + 1 < seq then some (l + 1) else none
    | _, fm => fm

/-- `clear_gap`. -/
def clearGap (t : SeqTracker) : SeqTracker := { t with firstMissing := none }

@[simp] theorem clearGap_lastSeen (t : SeqTracker) : t.clearGap.lastSeen = t.lastSeen := rfl
@[simp] theorem clearGap_firstMissing (t : SeqTracker) : t.clearGap.firstMissing = none := rfl

/-- A hole stays on record until `clear_gap`, whatever arrives after it. -/
theorem observe_firstMissing_of_some (t : SeqTracker) (seq : Nat) {k : Nat}
    (h : t.firstMissing = some k) : (t.observe seq).firstMissing = some k := by
  simp only [observe, h]
  cases t.lastSeen <;> rfl

/-- A skipped seq leaves a hole on record. -/
theorem observe_firstMissing_of_skip (t : SeqTracker) {seq k : Nat} (hlast : t.lastSeen = some k)
    (hskip : k + 1 < seq) : (t.observe seq).firstMissing ≠ none := by
  simp only [observe, hlast]
  split
  · rename_i heq _
    cases heq
    simp [hskip]
  · rename_i hnot
    cases hfm : t.firstMissing with
    | none => exact absurd hfm (hnot k rfl)
    | some j => simp

end SeqTracker

end QCBridge
