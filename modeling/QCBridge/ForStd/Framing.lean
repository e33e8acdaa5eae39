import Mathlib.Data.List.Basic

/-!
# Frames on a byte stream

A stream carries frames one after the other, and a reader takes one frame at a time off its
front until it finds none. A length prefix of four bytes, most significant first, tells the
reader where a frame ends. Writing and then reading gives the frames back.
-/

namespace QCBridge

/-! ## Reading one frame after the other -/

section ReadAll

variable {β α : Type}

/-- At most `fuel` frames off the front of a stream. -/
def readFrames (read : List β → Option (α × List β)) : Nat → List β → List α
  | 0, _ => []
  | fuel + 1, stream =>
    match read stream with
    | none => []
    | some (frame, rest) => frame :: readFrames read fuel rest

/-- Every frame of a stream. A frame takes at least a byte, so the length of the stream is
    enough turns. -/
def readAll (read : List β → Option (α × List β)) (stream : List β) : List α :=
  readFrames read stream.length stream

variable {read : List β → Option (α × List β)} {write : α → List β}

private theorem readFrames_flatMap (hend : read [] = none) (frames : List α)
    (hread : ∀ a ∈ frames, ∀ rest, read (write a ++ rest) = some (a, rest)) {fuel : Nat}
    (hfuel : frames.length ≤ fuel) : readFrames read fuel (frames.flatMap write) = frames := by
  induction frames generalizing fuel with
  | nil =>
    cases fuel with
    | zero => rfl
    | succ fuel => simp [readFrames, hend]
  | cons a frames ih =>
    obtain ⟨fuel, rfl⟩ := Nat.exists_eq_add_of_le' hfuel
    rw [List.length_cons, ← Nat.add_assoc, readFrames, List.flatMap_cons,
      hread a (List.mem_cons_self ..)]
    dsimp only
    rw [ih (fun b hb => hread b (List.mem_cons_of_mem _ hb)) (by omega)]

/-- What was written is what is read. -/
theorem readAll_flatMap (hend : read [] = none) (frames : List α)
    (hread : ∀ a ∈ frames, ∀ rest, read (write a ++ rest) = some (a, rest)) :
    readAll read (frames.flatMap write) = frames := by
  apply readFrames_flatMap hend frames hread
  induction frames with
  | nil => exact Nat.zero_le _
  | cons a frames ih =>
    -- a frame that can be read takes a byte at least
    have hpos : write a ≠ [] := by
      intro hnil
      have hread := hread a (List.mem_cons_self ..) []
      rw [hnil, List.append_nil, hend] at hread
      cases hread
    have hrest := ih fun b hb => hread b (List.mem_cons_of_mem _ hb)
    rw [List.flatMap_cons, List.length_append, List.length_cons]
    have := List.length_pos_iff.mpr hpos
    omega

end ReadAll

/-! ## Lengths of four bytes -/

/-- The low 32 bits of a number, most significant byte first. -/
def be32 (n : Nat) : List UInt8 :=
  [UInt8.ofNat (n >>> 24), UInt8.ofNat (n >>> 16), UInt8.ofNat (n >>> 8), UInt8.ofNat n]

/-- The number that four bytes spell. -/
def ofBe32 (a b c d : UInt8) : Nat :=
  (a.toNat <<< 24) + (b.toNat <<< 16) + (c.toNat <<< 8) + d.toNat

@[simp] theorem length_be32 (n : Nat) : (be32 n).length = 4 := rfl

private theorem ofBe32_be32 (n : Nat) : ofBe32 (UInt8.ofNat (n >>> 24)) (UInt8.ofNat (n >>> 16))
    (UInt8.ofNat (n >>> 8)) (UInt8.ofNat n) = n % UInt32.size := by
  simp only [ofBe32, UInt8.toNat_ofNat', UInt32.size]
  omega

/-- A number and what follows it on the stream. -/
def readBe32 : List UInt8 → Option (Nat × List UInt8)
  | a :: b :: c :: d :: rest => some (ofBe32 a b c d, rest)
  | _ => none

theorem readBe32_be32 {n : Nat} (hn : n < UInt32.size) (rest : List UInt8) :
    readBe32 (be32 n ++ rest) = some (n, rest) := by
  show some (ofBe32 _ _ _ _, rest) = _
  rw [ofBe32_be32, Nat.mod_eq_of_lt hn]

/-- `n` bytes and what follows them, if the stream has them. -/
def takeBytes (n : Nat) (stream : List UInt8) : Option (List UInt8 × List UInt8) :=
  if n ≤ stream.length then some (stream.take n, stream.drop n) else none

theorem takeBytes_append (bytes rest : List UInt8) :
    takeBytes bytes.length (bytes ++ rest) = some (bytes, rest) := by
  simp [takeBytes]

end QCBridge
