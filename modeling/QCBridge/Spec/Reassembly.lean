import QCBridge.Ring1.Protocol
import Mathlib.Data.List.Induction
import Mathlib.Data.List.Perm.Subperm

/-!
# Blobs come back from their chunks in any order

`chunk_blob` cuts a blob, and `Reassembler.feed` puts it together in place: each chunk says
where it goes and how many there are. Chunks of several blobs may come mixed, in any order
and more than once, as long as none of a blob comes after the last missing one.

## Key results

- `Reassembler.Holding`: what the reassembler holds after any arrivals
- `Reassembler.round_trip`: each blob comes out once, with its last missing chunk
-/

namespace QCBridge

variable {β V δ : Type}

/-! ## Blobs and arrivals -/

/-- The arguments of a call of `chunk_blob`. -/
structure Chunking (β δ : Type) where
  kind : Kind
  id : BlobId
  data : List β
  info : Header δ
  chunkSize : Nat
  chunkSize_pos : 0 < chunkSize

namespace Chunking

/-- How many chunks the call yields. -/
def count (b : Chunking β δ) : Nat := chunkCount b.data.length b.chunkSize

/-- Chunk `i`. -/
def chunk (b : Chunking β δ) (i : Nat) : Msg β V δ :=
  chunkAt b.kind b.id b.data b.info b.chunkSize i

/-- The header of chunk `i`. -/
def header (b : Chunking β δ) (i : Nat) : Header δ := (b.chunk i : Msg β Unit δ).header

/-- The bytes of chunk `i`. -/
def piece (b : Chunking β δ) (i : Nat) : List β := (b.data.drop (i * b.chunkSize)).take b.chunkSize

/-- Position `i` of the blob, as the header has it. -/
def position (b : Chunking β δ) (i : Nat) : Chunk :=
  ⟨b.id, i, b.count, b.data.length, i * b.chunkSize⟩

@[simp] theorem header_blob (b : Chunking β δ) (i : Nat) :
    (b.header i).blob = some (b.position i) := rfl

private theorem length_piece (b : Chunking β δ) {i : Nat} (hi : i < b.count) :
    i * b.chunkSize + (b.piece i).length ≤ b.data.length :=
  chunkAt_end_le (V := Unit) b.kind b.id b.data b.info b.chunkSize i hi

/-- Every byte of the blob is in one of the chunks. -/
private theorem div_lt_count (b : Chunking β δ) {k : Nat} (hk : k < b.data.length) :
    k / b.chunkSize < b.count := by
  have hpos := b.chunkSize_pos
  have hle : (b.data.length + b.chunkSize - 1) / b.chunkSize ≤ b.count := Nat.le_max_right _ _
  -- the count is rounded up, so that the short last chunk has an index
  have hdiv : k / b.chunkSize < (b.data.length + b.chunkSize - 1) / b.chunkSize := by
    rw [Nat.lt_div_iff_mul_lt hpos]
    have := Nat.div_mul_le_self k b.chunkSize
    omega
  omega

/-- All the chunks of the blob are among the arrivals. -/
def Arrived (b : Chunking β δ) (arrivals : List (Chunking β δ × Nat)) : Prop :=
  ∀ i < b.count, (b, i) ∈ arrivals

/-- The header of the first chunk of the blob to arrive. -/
def firstHeader (b : Chunking β δ) (arrivals : List (Chunking β δ × Nat)) : Option (Header δ) :=
  (arrivals.find? fun a => a.1.id = b.id).map fun a => a.1.header a.2

end Chunking

/-- Chunks of blobs with ids of their own, none of a blob that was complete before. -/
structure Timely (blobs : List (Chunking β δ)) (arrivals : List (Chunking β δ × Nat)) : Prop where
  distinct : ∀ b ∈ blobs, ∀ b' ∈ blobs, b.id = b'.id → b = b'
  chunks : ∀ a ∈ arrivals, a.1 ∈ blobs ∧ a.2 < a.1.count
  early : ∀ before b i after, arrivals = before ++ (b, i) :: after → ¬ b.Arrived before

/-! ## Writing in place -/

/-- Writing in place changes the bytes written, and no others. -/
private theorem getElem?_splice {buf payload : List β} {o : Nat}
    (hend : o + payload.length ≤ buf.length)
    (k : Nat) :
    (splice buf o payload)[k]? =
      if o ≤ k ∧ k < o + payload.length then payload[k - o]? else buf[k]? := by
  have htake : (buf.take o).length = o := by
    rw [List.length_take]
    omega
  unfold splice
  -- before the payload, in it, and behind it
  by_cases hlow : k < o
  · rw [List.append_assoc, List.getElem?_append_left (by omega), List.getElem?_take_of_lt hlow,
      if_neg (by omega)]
  · by_cases hhigh : k < o + payload.length
    · rw [List.getElem?_append_left (by rw [List.length_append]; omega),
        List.getElem?_append_right (by omega), htake, if_pos ⟨by omega, hhigh⟩]
    · rw [List.getElem?_append_right (by rw [List.length_append]; omega), List.getElem?_drop,
        List.length_append, htake, if_neg (by omega)]
      congr 1
      omega

private theorem length_splice {buf payload : List β} {o : Nat}
    (hend : o + payload.length ≤ buf.length) :
    (splice buf o payload).length = buf.length := by
  simp only [splice, List.length_append, List.length_take, List.length_drop]
  omega

/-! ## What the reassembler holds -/

/-- The partial of a blob of which some chunks arrived. -/
structure PartialBlob.Holds (part : PartialBlob β δ) (b : Chunking β δ)
    (arrivals : List (Chunking β δ × Nat)) : Prop where
  total : part.total = b.count
  size : part.size = b.data.length
  length : part.buf.length = b.data.length
  nodup : part.got.Nodup
  got : ∀ i, i ∈ part.got ↔ (b, i) ∈ arrivals
  filled : ∀ k < b.data.length, (b, k / b.chunkSize) ∈ arrivals → part.buf[k]? = b.data[k]?

namespace PartialBlob.Holds

variable {part : PartialBlob β δ} {b : Chunking β δ} {arrivals : List (Chunking β δ × Nat)}

/-- One more chunk, written in its place. -/
theorem write (h : part.Holds b arrivals) {i : Nat} (hi : i < b.count) :
    Holds { part with
      buf := splice part.buf (i * b.chunkSize) (b.piece i)
      got := part.got.insert i } b (arrivals ++ [(b, i)]) := by
  have hend : i * b.chunkSize + (b.piece i).length ≤ part.buf.length := by
    rw [h.length]
    exact b.length_piece hi
  refine ⟨h.total, h.size, (length_splice hend).trans h.length, h.nodup.insert, fun j => ?_,
    fun k hk hin => ?_⟩
  · rw [List.mem_insert_iff, h.got, List.mem_append, List.mem_singleton, Prod.mk.injEq]
    simp only [true_and]
    exact or_comm
  -- byte `k` belongs to chunk `k / chunkSize`
  · rw [getElem?_splice hend]
    have hlen : (b.piece i).length = min b.chunkSize (b.data.length - i * b.chunkSize) := by
      rw [Chunking.piece, List.length_take, List.length_drop]
    have hmod := Nat.div_add_mod k b.chunkSize
    have hlt := Nat.mod_lt k b.chunkSize_pos
    by_cases hki : k / b.chunkSize = i
    · -- a byte of this chunk
      have hmul : b.chunkSize * (k / b.chunkSize) = i * b.chunkSize := by rw [hki, Nat.mul_comm]
      rw [if_pos (by omega), Chunking.piece, List.getElem?_take_of_lt (by omega),
        List.getElem?_drop]
      congr 1
      omega
    -- a byte of an earlier chunk, which this one does not reach
    · have hin' : (b, k / b.chunkSize) ∈ arrivals := by
        refine (List.mem_append.mp hin).resolve_right fun hlast => ?_
        rw [List.mem_singleton, Prod.mk.injEq] at hlast
        exact hki hlast.2
      rw [if_neg, h.filled k hk hin']
      rintro ⟨hlow, hhigh⟩
      have hdiv : k / b.chunkSize = i :=
        Nat.div_eq_of_lt_le (by omega) (by rw [Nat.succ_mul]; omega)
      exact hki hdiv

/-- The partial is complete when all its chunks arrived, and holds the blob then. -/
private theorem complete_iff (h : part.Holds b arrivals)
    (hchunks : ∀ i, (b, i) ∈ arrivals → i < b.count) :
    part.total ≤ part.got.length ↔ b.Arrived arrivals := by
  -- `got` has no index twice and none past the count, so counting them is enough
  have hsub : part.got ⊆ List.range b.count :=
    fun i hi => List.mem_range.mpr (hchunks i ((h.got i).mp hi))
  have hperm : part.got.Subperm (List.range b.count) := List.subperm_of_subset h.nodup hsub
  rw [h.total]
  constructor
  · intro hle i hi
    have hall := hperm.perm_of_length_le (by rw [List.length_range]; exact hle)
    exact (h.got i).mp (hall.mem_iff.mpr (List.mem_range.mpr hi))
  · intro hall
    have hsub' : List.range b.count ⊆ part.got :=
      fun i hi => (h.got i).mpr (hall i (List.mem_range.mp hi))
    have := (List.subperm_of_subset List.nodup_range hsub').length_le
    rwa [List.length_range] at this

private theorem buf_eq (h : part.Holds b arrivals) (hall : b.Arrived arrivals) :
    part.buf = b.data := by
  -- every byte is in a chunk, and every chunk has been written
  apply List.ext_getElem?
  intro k
  by_cases hk : k < b.data.length
  · exact h.filled k hk (hall _ (b.div_lt_count hk))
  · rw [List.getElem?_eq_none (by rw [h.length]; omega), List.getElem?_eq_none (by omega)]

end PartialBlob.Holds

namespace Reassembler

variable [Inhabited β]

/-- What a blob has left in the reassembler: nothing before its first chunk and after its
    last missing one, and its partial in between. -/
structure Holding (b : Chunking β δ) (arrivals : List (Chunking β δ × Nat))
    (r : Reassembler β δ) : Prop where
  complete : b.Arrived arrivals → r.partials.get? b.id = none
  fresh : (∀ i, (b, i) ∉ arrivals) → r.partials.get? b.id = none
  partway : ¬ b.Arrived arrivals → (∃ i, (b, i) ∈ arrivals) →
    ∃ part, r.partials.get? b.id = some part ∧ part.Holds b arrivals ∧
      b.firstHeader arrivals = some part.header

/-- Feed the chunks in the order they arrive. -/
def feedAll (r : Reassembler β δ) (arrivals : List (Chunking β δ × Nat)) : Reassembler β δ :=
  arrivals.foldl (fun r a => (r.feed (a.1.header a.2) (a.1.piece a.2)).1) r

/-- What comes out with each of them. -/
def outputs (r : Reassembler β δ) : List (Chunking β δ × Nat) → List (Option (Header δ × List β))
  | [] => []
  | a :: arrivals =>
    let fed := r.feed (a.1.header a.2) (a.1.piece a.2)
    fed.2 :: fed.1.outputs arrivals

variable {b : Chunking β δ} {before : List (Chunking β δ × Nat)} {r : Reassembler β δ} {i : Nat}

/-- A chunk of a blob that is not complete goes to a partial that holds the chunks before. -/
private theorem partialOf_holds (h : Holding b before r) (hearly : ¬ b.Arrived before)
    (honly : ∀ a ∈ before, a.1.id = b.id → a.1 = b) :
    (r.partialOf (b.header i) (b.position i)).Holds b before ∧
      b.firstHeader (before ++ [(b, i)]) =
        some (r.partialOf (b.header i) (b.position i)).header := by
  unfold Chunking.firstHeader
  rw [List.find?_append]
  by_cases hany : ∃ j, (b, j) ∈ before
  -- a later chunk finds it
  · obtain ⟨part, hget, hpart, hheader⟩ := h.partway hearly hany
    have heq : r.partialOf (b.header i) (b.position i) = part := by
      show (r.partials.get? b.id).getD _ = part
      rw [hget]
      rfl
    rw [heq]
    refine ⟨hpart, ?_⟩
    unfold Chunking.firstHeader at hheader
    cases hfind : before.find? fun a => a.1.id = b.id with
    | none => simp [hfind] at hheader
    | some a => rwa [hfind] at hheader
  -- the first chunk of the blob makes the partial
  · have hnone : ∀ j, (b, j) ∉ before := fun j hj => hany ⟨j, hj⟩
    have heq : r.partialOf (b.header i) (b.position i) =
        { total := b.count, size := b.data.length, header := b.header i,
          buf := List.replicate b.data.length default } := by
      show (r.partials.get? b.id).getD _ = _
      rw [h.fresh hnone]
      rfl
    rw [heq]
    constructor
    · exact ⟨rfl, rfl, List.length_replicate, List.nodup_nil,
        fun j => iff_of_false List.not_mem_nil (hnone j), fun k _ hin => (hnone _ hin).elim⟩
    · have hfind : before.find? (fun a => a.1.id = b.id) = none := by
        rw [List.find?_eq_none]
        intro a ha hid
        have hb := honly a ha (of_decide_eq_true hid)
        exact hnone a.2 (hb ▸ ha)
      rw [hfind]
      simp

/-- The last missing chunk of a blob hands it out, and any other is kept. -/
private theorem feed_eq (hpart : (r.partialOf (b.header i) (b.position i)).Holds b before)
    (hi : i < b.count) (hchunks : ∀ j, (b, j) ∈ before → j < b.count) :
    (b.Arrived (before ++ [(b, i)]) ∧ r.feed (b.header i) (b.piece i) =
        (⟨r.partials.erase b.id⟩,
          some ((r.partialOf (b.header i) (b.position i)).header, b.data))) ∨
      ¬ b.Arrived (before ++ [(b, i)]) ∧ ∃ part, part.Holds b (before ++ [(b, i)]) ∧
        part.header = (r.partialOf (b.header i) (b.position i)).header ∧
        r.feed (b.header i) (b.piece i) = (⟨r.partials.insert b.id part⟩, none) := by
  have hwrite := hpart.write hi
  have hchunks' : ∀ j, (b, j) ∈ before ++ [(b, i)] → j < b.count := by
    intro j hj
    rcases List.mem_append.mp hj with hj | hj
    · exact hchunks j hj
    · rw [List.mem_singleton, Prod.mk.injEq] at hj
      exact hj.2 ▸ hi
  have hcomplete := hwrite.complete_iff hchunks'
  -- a chunk of the blob's own does not reach past its size
  have hfits : ¬ (b.position i).o + (b.piece i).length >
      (r.partialOf (b.header i) (b.position i)).size := by
    rw [hpart.size]
    exact Nat.not_lt.mpr (b.length_piece hi)
  simp only [feed, Chunking.header_blob, hfits, if_false]
  split
  · rename_i hlt
    refine .inr ⟨fun hall => ?_, _, hwrite, rfl, rfl⟩
    exact Nat.not_le.mpr hlt (hcomplete.mpr hall)
  · rename_i hge
    have hall := hcomplete.mp (Nat.not_lt.mp hge)
    refine .inl ⟨hall, ?_⟩
    rw [show splice _ (b.position i).o (b.piece i) = b.data from hwrite.buf_eq hall]
    rfl

/-! ## One chunk -/

omit [Inhabited β] in
/-- Whether a blob is complete does not depend on the chunks of others. -/
private theorem arrived_append_of_ne {c : Chunking β δ} (hne : c ≠ b) :
    c.Arrived (before ++ [(b, i)]) ↔ c.Arrived before := by
  refine forall_congr' fun j => forall_congr' fun _ => ?_
  rw [List.mem_append, List.mem_singleton, Prod.mk.injEq]
  exact or_iff_left fun h => hne h.1

/-- A chunk of another blob. -/
theorem Holding.other {c : Chunking β δ} (h : Holding c before r) (hid : c.id ≠ b.id) :
    Holding c (before ++ [(b, i)]) (r.feed (b.header i) (b.piece i)).1 := by
  have hne : c ≠ b := fun heq => hid (congrArg Chunking.id heq)
  -- `feed` touches the partial of its own id only
  have hget : (r.feed (b.header i) (b.piece i)).1.partials.get? c.id = r.partials.get? c.id :=
    feed_get?_of_ne r _ _ (b.header_blob i) hid.symm
  have hmem : ∀ j, (c, j) ∈ before ++ [(b, i)] ↔ (c, j) ∈ before := by
    intro j
    rw [List.mem_append, List.mem_singleton, Prod.mk.injEq]
    exact or_iff_left fun h => hne h.1
  constructor
  · intro hall
    rw [hget]
    exact h.complete ((arrived_append_of_ne hne).mp hall)
  · intro hnone
    rw [hget]
    exact h.fresh fun j hj => hnone j ((hmem j).mpr hj)
  · rintro hmissing ⟨j, hj⟩
    rw [hget]
    obtain ⟨part, hpart, hholds, hheader⟩ :=
      h.partway (mt (arrived_append_of_ne hne).mpr hmissing) ⟨j, (hmem j).mp hj⟩
    refine ⟨part, hpart, ?_, ?_⟩
    · exact ⟨hholds.total, hholds.size, hholds.length, hholds.nodup,
        fun k => (hholds.got k).trans (hmem k).symm,
        fun k hk hin => hholds.filled k hk ((hmem _).mp hin)⟩
    · unfold Chunking.firstHeader at hheader ⊢
      rw [List.find?_append]
      cases hfind : before.find? fun a => a.1.id = c.id with
      | none => simp [hfind] at hheader
      | some a => rwa [hfind] at hheader

/-- A chunk of the blob itself. -/
theorem Holding.own (h : Holding b before r) (hearly : ¬ b.Arrived before)
    (honly : ∀ a ∈ before, a.1.id = b.id → a.1 = b) (hi : i < b.count)
    (hchunks : ∀ j, (b, j) ∈ before → j < b.count) :
    Holding b (before ++ [(b, i)]) (r.feed (b.header i) (b.piece i)).1 := by
  obtain ⟨hpart, hheader⟩ := partialOf_holds (i := i) h hearly honly
  have hmem : (b, i) ∈ before ++ [(b, i)] :=
    List.mem_append_right _ (List.mem_singleton_self _)
  rcases feed_eq hpart hi hchunks with ⟨hall, hfeed⟩ | ⟨hmissing, part, hholds, hsame, hfeed⟩
  · rw [hfeed]
    exact ⟨fun _ => Dict.get?_erase_self .., fun hnone => (hnone i hmem).elim,
      fun hmissing => (hmissing hall).elim⟩
  · rw [hfeed]
    exact ⟨fun hall => (hmissing hall).elim, fun hnone => (hnone i hmem).elim,
      fun _ _ => ⟨part, Dict.get?_insert_self .., hholds, by rw [hheader, hsame]⟩⟩

/-! ## All the chunks -/

variable {blobs : List (Chunking β δ)} {arrivals : List (Chunking β δ × Nat)}

private theorem feedAll_snoc (r : Reassembler β δ) (a : Chunking β δ × Nat) :
    r.feedAll (arrivals ++ [a]) =
      ((r.feedAll arrivals).feed (a.1.header a.2) (a.1.piece a.2)).1 := by
  rw [feedAll, List.foldl_concat, feedAll]

private theorem outputs_snoc (r : Reassembler β δ) (a : Chunking β δ × Nat) :
    r.outputs (arrivals ++ [a]) =
      r.outputs arrivals ++ [((r.feedAll arrivals).feed (a.1.header a.2) (a.1.piece a.2)).2] := by
  induction arrivals generalizing r with
  | nil => rfl
  | cons a' arrivals ih =>
    show _ :: outputs _ (arrivals ++ [a]) = _
    rw [ih]
    rfl

end Reassembler

/-- The arrivals up to some moment. -/
theorem Timely.of_append {blobs : List (Chunking β δ)}
    {before more : List (Chunking β δ × Nat)} (h : Timely blobs (before ++ more)) :
    Timely blobs before where
  distinct := h.distinct
  chunks a ha := h.chunks a (List.mem_append_left _ ha)
  early before' b i after heq :=
    h.early before' b i (after ++ more) (by rw [heq, List.append_assoc, List.cons_append])

namespace Timely

variable {blobs : List (Chunking β δ)} {before : List (Chunking β δ × Nat)} {b : Chunking β δ}
  {i : Nat}

theorem only (h : Timely blobs (before ++ [(b, i)])) :
    ∀ a ∈ before, a.1.id = b.id → a.1 = b := by
  intro a ha hid
  have hb := (h.chunks (b, i) (List.mem_append_right _ (List.mem_singleton_self _))).1
  exact h.distinct a.1 (h.chunks a (List.mem_append_left _ ha)).1 b hb hid

theorem lt (h : Timely blobs (before ++ [(b, i)])) :
    i < b.count ∧ ∀ j, (b, j) ∈ before → j < b.count :=
  ⟨(h.chunks (b, i) (List.mem_append_right _ (List.mem_singleton_self _))).2,
    fun j hj => (h.chunks (b, j) (List.mem_append_left _ hj)).2⟩

variable [Inhabited β]

/-- What the reassembler holds of each blob, whatever has arrived. -/
theorem holding {arrivals : List (Chunking β δ × Nat)} (h : Timely blobs arrivals) :
    ∀ c ∈ blobs, Reassembler.Holding c arrivals (({} : Reassembler β δ).feedAll arrivals) := by
  -- over the arrivals, the last one off: each finds what the ones before left
  induction arrivals using List.reverseRecOn with
  | nil =>
    intro c _
    have hnone : ¬ c.Arrived [] := fun hall =>
      List.not_mem_nil (hall 0 (chunkCount_pos _ _))
    exact ⟨fun hall => (hnone hall).elim, fun _ => rfl,
      fun _ ⟨_, hj⟩ => (List.not_mem_nil hj).elim⟩
  | append_singleton before a ih =>
    intro c hc
    obtain ⟨b, i⟩ := a
    have hc' := ih h.of_append c hc
    rw [Reassembler.feedAll_snoc]
    by_cases hid : c.id = b.id
    · obtain rfl : c = b :=
        h.distinct c hc b (h.chunks (b, i) (by simp)).1 hid
      exact hc'.own (h.early before c i [] rfl) h.only h.lt.1 h.lt.2
    · exact hc'.other hid

/-- What comes out with a chunk: the blob, when it was the last one missing. -/
theorem fed (h : Timely blobs (before ++ [(b, i)])) :
    (b.Arrived (before ++ [(b, i)]) → ∃ header, b.firstHeader (before ++ [(b, i)]) = some header ∧
      ((({} : Reassembler β δ).feedAll before).feed (b.header i) (b.piece i)).2 =
        some (header, b.data)) ∧
    (¬ b.Arrived (before ++ [(b, i)]) →
      ((({} : Reassembler β δ).feedAll before).feed (b.header i) (b.piece i)).2 = none) := by
  have hb := (h.chunks (b, i) (List.mem_append_right _ (List.mem_singleton_self _))).1
  have hholding := h.of_append.holding b hb
  obtain ⟨hpart, hheader⟩ :=
    Reassembler.partialOf_holds (i := i) hholding (h.early before b i [] rfl) h.only
  rcases Reassembler.feed_eq hpart h.lt.1 h.lt.2 with
    ⟨hall, hfeed⟩ | ⟨hmissing, part, -, -, hfeed⟩
  · exact ⟨fun _ => ⟨_, hheader, by rw [hfeed]⟩, fun hmissing => (hmissing hall).elim⟩
  · exact ⟨fun hall => (hmissing hall).elim, fun _ => by rw [hfeed]⟩

end Timely

/-- Whether an output is the blob's. -/
def Chunking.returned (b : Chunking β δ) (out : Option (Header δ × List β)) : Bool :=
  out.any fun o => o.1.blob.any fun c => c.id = b.id

/-- A blob comes out under the header of one of its chunks. -/
private theorem Chunking.returned_firstHeader {b c : Chunking β δ} {header : Header δ}
    {arrivals : List (Chunking β δ × Nat)} (h : b.firstHeader arrivals = some header)
    (data : List β) : c.returned (some (header, data)) = decide (b.id = c.id) := by
  unfold Chunking.firstHeader at h
  obtain ⟨a, hfind, rfl⟩ := Option.map_eq_some_iff.mp h
  have hid : a.1.id = b.id := of_decide_eq_true (List.find?_some hfind :)
  show decide (a.1.id = c.id) = _
  rw [hid]

namespace Timely

variable [Inhabited β] {blobs : List (Chunking β δ)}

/-- A blob is handed out once, when it is complete, and not before. -/
private theorem returned_once {arrivals : List (Chunking β δ × Nat)} (h : Timely blobs arrivals) :
    ∀ c ∈ blobs,
      (c.Arrived arrivals → (({} : Reassembler β δ).outputs arrivals).countP c.returned = 1) ∧
      (¬ c.Arrived arrivals → (({} : Reassembler β δ).outputs arrivals).countP c.returned = 0) := by
  induction arrivals using List.reverseRecOn with
  | nil =>
    intro c _
    have hnone : ¬ c.Arrived [] := fun hall =>
      List.not_mem_nil (hall 0 (chunkCount_pos _ _))
    exact ⟨fun hall => (hnone hall).elim, fun _ => rfl⟩
  | append_singleton before a ih =>
    intro c hc
    obtain ⟨b, i⟩ := a
    obtain ⟨hsome, hnone⟩ := ih h.of_append c hc
    obtain ⟨hlast, hkept⟩ := h.fed
    rw [Reassembler.outputs_snoc, List.countP_append, List.countP_singleton]
    dsimp only
    by_cases hid : c.id = b.id
    -- the blob's own chunk: none of it came out before, as the blob was not complete
    · obtain rfl : c = b := h.distinct c hc b (h.chunks (b, i) (by simp)).1 hid
      rw [hnone (h.early before c i [] rfl)]
      constructor
      · intro hall
        obtain ⟨header, hheader, hfed⟩ := hlast hall
        rw [hfed, Chunking.returned_firstHeader hheader, decide_eq_true rfl]
        rfl
      · intro hmissing
        rw [hkept hmissing]
        rfl
    · -- whatever comes out is another blob's
      have hother : c.returned ((({} : Reassembler β δ).feedAll before).feed (b.header i)
          (b.piece i)).2 = false := by
        by_cases hall : b.Arrived (before ++ [(b, i)])
        · obtain ⟨header, hheader, hfed⟩ := hlast hall
          rw [hfed, Chunking.returned_firstHeader hheader]
          exact decide_eq_false fun heq => hid heq.symm
        · rw [hkept hall]
          rfl
      have hne : c ≠ b := fun heq => hid (congrArg Chunking.id heq)
      rw [hother, Reassembler.arrived_append_of_ne hne]
      exact ⟨hsome, hnone⟩

end Timely

variable [Inhabited β]

/-- Whatever the order the chunks of some blobs come in, each chunk hands its blob out when
    it is the last one missing, with the bytes that were cut, and nothing otherwise; so each
    complete blob was handed out once and nothing of it is left. A chunk that reaches past
    the end of its blob drops that blob's partial, and leaves the others alone. -/
theorem Reassembler.round_trip (blobs : List (Chunking β δ))
    (arrivals : List (Chunking β δ × Nat)) (h : Timely blobs arrivals) :
    (∀ before b i after, arrivals = before ++ (b, i) :: after →
      (b.Arrived (before ++ [(b, i)]) → ∃ header,
        b.firstHeader (before ++ [(b, i)]) = some header ∧
        ((({} : Reassembler β δ).feedAll before).feed (b.header i) (b.piece i)).2 =
          some (header, b.data)) ∧
      (¬ b.Arrived (before ++ [(b, i)]) →
        ((({} : Reassembler β δ).feedAll before).feed (b.header i) (b.piece i)).2 = none)) ∧
    (∀ b ∈ blobs, b.Arrived arrivals →
      (({} : Reassembler β δ).outputs arrivals).countP b.returned = 1 ∧
      (({} : Reassembler β δ).feedAll arrivals).partials.get? b.id = none) ∧
    ∀ (r : Reassembler β δ) (h : Header δ) (payload : List β) (c : Chunk),
      h.blob = some c → (r.partialOf h c).size < c.o + payload.length →
      (r.feed h payload).2 = none ∧ (r.feed h payload).1.partials.get? c.id = none ∧
        ∀ id ≠ c.id, (r.feed h payload).1.partials.get? id = r.partials.get? id := by
  refine ⟨?_, ?_, ?_⟩
  · intro before b i after heq
    -- what comes after the chunk has no say
    rw [heq, show before ++ (b, i) :: after = (before ++ [(b, i)]) ++ after by simp] at h
    exact h.of_append.fed
  · intro b hb hall
    exact ⟨(h.returned_once b hb).1 hall, (h.holding b hb).complete hall⟩
  · intro r h payload c hblob hpast
    have hfeed : r.feed h payload = (⟨r.partials.erase c.id⟩, none) := by
      simp only [feed, hblob]
      rw [if_pos hpast]
    rw [hfeed]
    refine ⟨rfl, Dict.get?_erase_self .., fun id hid => ?_⟩
    exact Dict.get?_erase_of_ne _ hid.symm

/-- Three bytes, two in a chunk. -/
def Chunking.threeBytes : Chunking Nat Nat where
  kind := .t2
  id := .t2 "a" 1
  data := [7, 8, 9]
  info := { kind := .t2, uuid := "a" }
  chunkSize := 2
  chunkSize_pos := by decide

open Chunking in
/-- The second chunk comes first, and twice. -/
theorem Reassembler.round_trip_shuffled :
    (({} : Reassembler Nat Nat).outputs
        [(threeBytes, 1), (threeBytes, 1), (threeBytes, 0)]).countP threeBytes.returned = 1 ∧
      (({} : Reassembler Nat Nat).feedAll
        [(threeBytes, 1), (threeBytes, 1), (threeBytes, 0)]).partials.get?
          threeBytes.id = none := by
  have htimely : Timely [threeBytes] [(threeBytes, 1), (threeBytes, 1), (threeBytes, 0)] := by
    refine ⟨by simp, ?_, ?_⟩
    · intro a ha
      simp only [List.mem_cons, List.not_mem_nil, or_false] at ha
      rcases ha with rfl | rfl | rfl <;> exact ⟨List.mem_singleton_self _, by decide⟩
    · intro before b i after heq hall
      -- the first chunk is the last to come
      have hzero := hall 0 (chunkCount_pos _ _)
      rcases before with _ | ⟨x, _ | ⟨y, _ | ⟨z, before⟩⟩⟩
      · exact List.not_mem_nil hzero
      · obtain ⟨rfl, -⟩ := List.cons.inj heq
        simp at hzero
      · obtain ⟨rfl, htail⟩ := List.cons.inj heq
        obtain ⟨rfl, -⟩ := List.cons.inj htail
        simp at hzero
      · simp at heq
  have hall : threeBytes.Arrived [(threeBytes, 1), (threeBytes, 1), (threeBytes, 0)] := by
    intro i hi
    have : i < 2 := hi
    obtain rfl | rfl : i = 0 ∨ i = 1 := by omega
    · simp
    · simp
  exact (Reassembler.round_trip _ _ htimely).2.1 threeBytes (List.mem_singleton_self _) hall

end QCBridge
