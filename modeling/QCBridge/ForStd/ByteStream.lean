import QCBridge.ForStd.Framing

/-!
# A stream of bytes between two parties

The writer puts bytes at the end; they arrive in pieces, in order; and the reader takes them off
the front, one byte or one frame with a length prefix at a time. What was taken, what has arrived
and what is under way is together what was written, so the reader has read a prefix of it.
-/

namespace QCBridge

/-- One direction of a stream. -/
structure ByteStream where
  /-- The reader's side has heard of the stream. -/
  known : Bool := false
  flight : List UInt8 := []
  buffer : List UInt8 := []
  /-- What was read: history. -/
  taken : List UInt8 := []
deriving DecidableEq

/-- What reading a frame gives. -/
inductive FrameRead where
  /-- There is no whole frame yet. -/
  | pending
  /-- The length is above the limit. -/
  | tooLong
  | frame (payload : List UInt8) (rest : ByteStream)
deriving DecidableEq

/-- A payload behind its length. -/
def framed (payload : List UInt8) : List UInt8 := be32 payload.length ++ payload

namespace ByteStream

/-- Everything that was written. -/
def written (s : ByteStream) : List UInt8 := s.taken ++ (s.buffer ++ s.flight)

def write (bytes : List UInt8) (s : ByteStream) : ByteStream :=
  { s with flight := s.flight ++ bytes }

/-- The next `k` bytes arrive. -/
def arrive (k : Nat) (s : ByteStream) : ByteStream :=
  { s with known := true, buffer := s.buffer ++ s.flight.take k, flight := s.flight.drop k }

/-- The next byte. -/
def readByte (s : ByteStream) : Option (UInt8 × ByteStream) :=
  match s.buffer with
  | b :: rest => some (b, { s with buffer := rest, taken := s.taken ++ [b] })
  | [] => none

/-- The next frame, of at most `limit` bytes. -/
def readFramed (limit : Nat) (s : ByteStream) : FrameRead :=
  match readBe32 s.buffer with
  | none => .pending
  | some (n, rest) =>
    if limit < n then .tooLong
    else
      match takeBytes n rest with
      | none => .pending
      | some (payload, rest) =>
        .frame payload { s with buffer := rest, taken := s.taken ++ s.buffer.take (4 + n) }

variable (s : ByteStream)

@[simp] theorem written_write (bytes : List UInt8) :
    (s.write bytes).written = s.written ++ bytes := by
  simp [written, write]

@[simp] theorem written_arrive (k : Nat) : (s.arrive k).written = s.written := by
  simp [written, arrive]

@[simp] theorem taken_write (bytes : List UInt8) : (s.write bytes).taken = s.taken := rfl

@[simp] theorem taken_arrive (k : Nat) : (s.arrive k).taken = s.taken := rfl

/-- What was read is a prefix of what was written. -/
theorem taken_prefix : s.taken <+: s.written := List.prefix_append _ _

variable {s}

theorem readByte_eq {b : UInt8} {s' : ByteStream} (h : s.readByte = some (b, s')) :
    s'.written = s.written ∧ s'.taken = s.taken ++ [b] ∧ s'.flight = s.flight ∧
      s'.known = s.known := by
  simp only [readByte] at h
  split at h
  · rename_i b' rest hbuf
    cases h
    simp [written, hbuf]
  · cases h

private theorem be32_ofBe32 (a b c d : UInt8) : be32 (ofBe32 a b c d) = [a, b, c, d] := by
  have ha := a.toNat_lt
  have hb := b.toNat_lt
  have hc := c.toNat_lt
  have hd := d.toNat_lt
  simp only [be32, ofBe32, List.cons.injEq, and_true]
  refine ⟨?_, ?_, ?_, ?_⟩ <;>
  · apply UInt8.toNat_inj.mp
    simp only [UInt8.toNat_ofNat']
    omega

/-- A frame that was read is what was taken off the stream. -/
theorem readFramed_eq {limit : Nat} {payload : List UInt8} {s' : ByteStream}
    (h : s.readFramed limit = .frame payload s') :
    s'.written = s.written ∧ s'.taken = s.taken ++ framed payload ∧ s'.flight = s.flight ∧
      s'.known = s.known := by
  simp only [readFramed] at h
  split at h
  · cases h
  · -- the length is there, and so are the bytes that it counts
    rename_i n rest hread
    split at h
    · cases h
    · split at h
      · cases h
      · rename_i payload' rest' htake
        cases h
        obtain ⟨a, b, c, d, hbuf, rfl⟩ : ∃ a b c d, s.buffer = a :: b :: c :: d :: rest ∧
            n = ofBe32 a b c d := by
          match hb : s.buffer, hread with
          | a :: b :: c :: d :: _, rfl => exact ⟨a, b, c, d, rfl, rfl⟩
        simp only [takeBytes, Option.ite_none_right_eq_some, Option.some.injEq,
          Prod.mk.injEq] at htake
        obtain ⟨hle, rfl, rfl⟩ := htake
        -- what is taken is the frame itself
        have htaken : s.buffer.take (4 + ofBe32 a b c d) =
            framed (rest.take (ofBe32 a b c d)) := by
          rw [framed, List.length_take, Nat.min_eq_left hle, be32_ofBe32, hbuf, Nat.add_comm]
          rfl
        refine ⟨?_, by rw [htaken], rfl, rfl⟩
        -- and what is left follows it
        have hsplit : s.buffer.take (4 + ofBe32 a b c d) ++ rest.drop (ofBe32 a b c d) =
            s.buffer := by
          rw [htaken, framed, List.length_take, Nat.min_eq_left hle, be32_ofBe32, List.append_assoc,
            List.take_append_drop, hbuf]
          rfl
        simp only [written]
        rw [List.append_assoc, ← List.append_assoc _ _ s.flight, hsplit]

theorem length_of_readFramed {limit : Nat} {payload : List UInt8} {s' : ByteStream}
    (h : s.readFramed limit = .frame payload s') : payload.length ≤ limit := by
  simp only [readFramed] at h
  split at h
  · cases h
  · split at h
    · cases h
    · split at h
      · cases h
      · rename_i hle _ htake
        cases h
        simp only [takeBytes, Option.ite_none_right_eq_some, Option.some.injEq,
          Prod.mk.injEq] at htake
        rw [← htake.2.1, List.length_take]
        omega

/-- A frame that has arrived is read. -/
theorem readFramed_framed {limit : Nat} {payload rest : List UInt8}
    (hbuf : s.buffer = framed payload ++ rest) (hlimit : payload.length ≤ limit)
    (hsize : payload.length < UInt32.size) :
    s.readFramed limit = .frame payload
      { s with buffer := rest, taken := s.taken ++ s.buffer.take (4 + payload.length) } := by
  have hread : readBe32 s.buffer = some (payload.length, payload ++ rest) := by
    rw [hbuf, framed, List.append_assoc]
    exact readBe32_be32 hsize _
  simp only [readFramed, hread, takeBytes_append]
  rw [if_neg (by omega)]

/-- A frame that has arrived and is too long. -/
theorem readFramed_long {limit : Nat} {payload rest : List UInt8}
    (hbuf : s.buffer = framed payload ++ rest) (hlimit : limit < payload.length)
    (hsize : payload.length < UInt32.size) : s.readFramed limit = .tooLong := by
  have hread : readBe32 s.buffer = some (payload.length, payload ++ rest) := by
    rw [hbuf, framed, List.append_assoc]
    exact readBe32_be32 hsize _
  simp only [readFramed, hread]
  rw [if_pos hlimit]

/-- A length above the limit is the length of the frame that is under way. -/
theorem lt_of_readFramed_tooLong {limit : Nat} {payload rest : List UInt8}
    (h : s.readFramed limit = .tooLong) (hbuf : s.buffer ++ rest = framed payload)
    (hsize : payload.length < UInt32.size) : limit < payload.length := by
  simp only [readFramed] at h
  split at h
  · cases h
  · rename_i n tail hread
    have hfull : readBe32 (s.buffer ++ rest) = some (n, tail ++ rest) := by
      match hb : s.buffer, hread with
      | a :: b :: c :: d :: _, rfl => rfl
    have hlen : readBe32 (framed payload) = some (payload.length, payload) :=
      readBe32_be32 hsize payload
    rw [hbuf, hlen, Option.some.injEq, Prod.mk.injEq] at hfull
    split at h
    · rename_i hlt
      omega
    · split at h <;> cases h

/-- A frame tells where it ends: no frame begins with another one. -/
theorem framed_inj {p q : List UInt8} {rest : List UInt8} (hp : p.length < UInt32.size)
    (hq : q.length < UInt32.size) (h : framed p ++ rest = framed q) : p = q ∧ rest = [] := by
  have hlen : readBe32 (framed p ++ rest) = some (p.length, p ++ rest) := by
    rw [framed, List.append_assoc]
    exact readBe32_be32 hp _
  have hlen' : readBe32 (framed q) = some (q.length, q) := readBe32_be32 hq q
  rw [h, hlen', Option.some.injEq, Prod.mk.injEq] at hlen
  obtain ⟨hl, hpq⟩ := hlen
  have hrest : rest.length = 0 := by
    have := congrArg List.length hpq
    rw [List.length_append] at this
    omega
  obtain rfl := List.eq_nil_of_length_eq_zero hrest
  exact ⟨by simpa using hpq.symm, rfl⟩

end ByteStream

end QCBridge
