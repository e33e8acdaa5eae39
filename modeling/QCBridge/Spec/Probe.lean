import QCBridge.Ring1.Probe
import QCBridge.ForStd.Attempt

/-!
# The probe strip

What a strip says is what was put into it; a strip with one wrong bit says nothing. A search finds
the strip of a row wherever it lies: to the left of it there is a black block where the marker
begins with a white one, and to the right of it the marker's second block, a black one, is where
the first should be.

## Key results

- `decodeBits_encodeBits`, `decodeBits_modify`: what is read out of a strip
- `findStrip?_ne_none`: the search does not index out of its row
- `CleanStrip.findStrip?_eq`: what it finds in a row with a strip
- `probe_strip`: all of it
-/

namespace QCBridge

/-! ## The bits -/

/-- The check byte depends on the six bytes of the word. -/
private theorem probeCheck_eq (word : Nat) :
    probeCheck (word % 2 ^ 32) (word / 2 ^ 32 % 2 ^ 16) = (byteSum 6 word ^^^ 0xa5) % 256 := by
  have hsum : (((List.range 4).map (fun i => word % 2 ^ 32 / 256 ^ i % 256) ++
      (List.range 2).map fun i => word / 2 ^ 32 % 2 ^ 16 / 256 ^ i % 256).foldl (· + ·) 0) =
        byteSum 6 word := by
    simp only [List.range_succ, List.range_zero, List.nil_append, List.map_append, List.map_cons,
      List.map_nil, List.foldl_append, List.foldl_cons, List.foldl_nil, byteSum]
    omega
  exact congrArg (fun sum => (sum ^^^ 0xa5) % 256) hsum

/-- What is in a strip with the marker. -/
private theorem decodeBits_eq {bits : List Bool} (hlen : bits.length = totalBits)
    (hmark : bits.take 8 = probeMarker) :
    decodeBits bits =
      let word := ofBits (bits.drop 8)
      if word / 2 ^ 48 % 256 ≠ (byteSum 6 word ^^^ 0xa5) % 256 then none
      else some (word % 2 ^ 32, word / 2 ^ 32 % 2 ^ 16) := by
  unfold decodeBits
  rw [if_neg (by simp [hlen, hmark])]
  dsimp only
  rw [probeCheck_eq]

/-- The word that is sent. -/
def probeWord (tMs seq : Nat) : Nat :=
  tMs % 2 ^ 32 + seq % 2 ^ 16 * 2 ^ 32 + probeCheck (tMs % 2 ^ 32) (seq % 2 ^ 16) * 2 ^ 48

/-- It is a byte. -/
private theorem probeCheck_lt (tMs seq : Nat) : probeCheck tMs seq < 256 := Nat.mod_lt _ (by decide)

/-- A strip has all its blocks. -/
private theorem length_encodeBits (tMs seq : Nat) : (encodeBits tMs seq).length = totalBits := rfl

/-- It begins with the marker. -/
private theorem take_encodeBits (tMs seq : Nat) : (encodeBits tMs seq).take 8 = probeMarker := rfl

/-- Behind it is the word. -/
private theorem ofBits_encodeBits (tMs seq : Nat) :
    ofBits ((encodeBits tMs seq).drop 8) = probeWord tMs seq := by
  have hcheck := probeCheck_lt (tMs % 2 ^ 32) (seq % 2 ^ 16)
  have hword : probeWord tMs seq < 2 ^ 56 := by
    unfold probeWord
    omega
  exact ofBits_testBit hword

/-- The word has the time, the number and the check, each in its own bits. -/
private theorem probeWord_fields (tMs seq : Nat) :
    probeWord tMs seq % 2 ^ 32 = tMs % 2 ^ 32 ∧
      probeWord tMs seq / 2 ^ 32 % 2 ^ 16 = seq % 2 ^ 16 ∧
      probeWord tMs seq / 2 ^ 48 % 256 = probeCheck (tMs % 2 ^ 32) (seq % 2 ^ 16) := by
  have hcheck := probeCheck_lt (tMs % 2 ^ 32) (seq % 2 ^ 16)
  unfold probeWord
  omega

/-- The check is that of the word. -/
private theorem probeWord_check (tMs seq : Nat) : probeWord tMs seq / 2 ^ 48 % 256 =
    (byteSum 6 (probeWord tMs seq) ^^^ 0xa5) % 256 := by
  obtain ⟨htMs, hseq, hcheck⟩ := probeWord_fields tMs seq
  rw [← probeCheck_eq, htMs, hseq, hcheck]

/-- What a strip says is what was put into it, as far as the fields go. -/
theorem decodeBits_encodeBits (tMs seq : Nat) :
    decodeBits (encodeBits tMs seq) = some (tMs % 2 ^ 32, seq % 2 ^ 16) := by
  obtain ⟨htMs, hseq, -⟩ := probeWord_fields tMs seq
  rw [decodeBits_eq (length_encodeBits tMs seq) (take_encodeBits tMs seq), ofBits_encodeBits]
  show (if _ then _ else _) = _
  rw [if_neg (not_not_intro (probeWord_check tMs seq)), htMs, hseq]

/-- One bit of the marker, or of the sum, or of the check. -/
theorem decodeBits_modify (tMs seq : Nat) {i : Nat} (hi : i < totalBits) :
    decodeBits ((encodeBits tMs seq).modify i not) = none := by
  -- a bit of the marker is seen at once
  by_cases hmark : i < 8
  · unfold decodeBits
    refine if_pos (.inr ?_)
    rw [List.take_modify, take_encodeBits]
    revert i
    decide
  · -- a bit of the word: the marker is still there
    obtain ⟨j, rfl⟩ : ∃ j, i = j + 8 := ⟨i - 8, by omega⟩
    have hj : j < 56 := by
      unfold totalBits at hi
      omega
    have htake : ((encodeBits tMs seq).modify (j + 8) not).take 8 = probeMarker := by
      rw [List.take_modify, take_encodeBits]
      exact List.modify_eq_self (by show 8 ≤ _; omega)
    -- the word that is read has this bit flipped
    have hword : ofBits (((encodeBits tMs seq).modify (j + 8) not).drop 8) =
        probeWord tMs seq ^^^ 2 ^ j := by
      rw [List.drop_modify_of_ge _ _ _ _ (by omega), Nat.add_sub_cancel, ofBits_modify,
        ofBits_encodeBits]
      show j < 56
      exact hj
    rw [decodeBits_eq (by rw [List.length_modify]; rfl) htake, hword]
    refine if_pos fun heq => ?_
    have hcheck := probeWord_check tMs seq
    rw [show 256 = 2 ^ 8 from rfl, Nat.xor_mod_two_pow] at heq hcheck
    rw [Nat.xor_div_two_pow, Nat.xor_mod_two_pow] at heq
    -- a bit of the six bytes of data changes their sum
    by_cases hsum : j < 8 * 6
    · have hsmall : 2 ^ j < 2 ^ 48 := Nat.pow_lt_pow_right (by decide) hsum
      rw [Nat.div_eq_of_lt hsmall, Nat.zero_mod, Nat.xor_zero, hcheck] at heq
      have hsame := congrArg (· ^^^ 0xa5 % 2 ^ 8) heq
      simp only [Nat.xor_assoc, Nat.xor_self, Nat.xor_zero] at hsame
      exact byteSum_xor_mod_ne hsum _ hsame.symm
    · -- a bit of the check changes the check alone
      rw [byteSum_xor_of_le (Nat.le_of_not_lt hsum), ← hcheck] at heq
      have hbit : 2 ^ j / 2 ^ 48 % 2 ^ 8 = 2 ^ (j - 48) := by
        rw [Nat.pow_div (by omega) Nat.two_pos]
        exact Nat.mod_eq_of_lt (Nat.pow_lt_pow_right (by decide) (by omega))
      rw [hbit] at heq
      have hpos := Nat.two_pow_pos (j - 48)
      rcases xor_two_pow (probeWord tMs seq / 2 ^ 48 % 2 ^ 8) (j - 48) with h | h <;> omega

/-- The strip of a time in milliseconds and a number. -/
private theorem decodeBits_stamp (tMs seq : Int) :
    decodeBits (encodeBits (tMs % 2 ^ 32).toNat (seq % 2 ^ 16).toNat) =
      some ((tMs % 2 ^ 32).toNat, (seq % 2 ^ 16).toNat) := by
  have htMs : (tMs % 2 ^ 32).toNat % 2 ^ 32 = (tMs % 2 ^ 32).toNat := Nat.mod_eq_of_lt (by omega)
  have hseq : (seq % 2 ^ 16).toNat % 2 ^ 16 = (seq % 2 ^ 16).toNat := Nat.mod_eq_of_lt (by omega)
  rw [decodeBits_encodeBits, htMs, hseq]

/-- The time that went by, across the wrap of the counter. -/
private theorem latencyMs_eq {nowS : Binary64} {nowMs tMs : Int} (hnow : msOf nowS = some nowMs)
    (hle : tMs ≤ nowMs) (hlt : nowMs < tMs + 2 ^ 32) :
    latencyMs nowS (tMs % 2 ^ 32).toNat = some (nowMs - tMs).toNat := by
  unfold latencyMs
  rw [hnow, Option.map_some, Option.some.injEq]
  omega

/-! ## Inside the row -/

section

variable {row : List UInt8} {block x0 : Nat}

/-- What a place needs so that nothing is read behind the end. -/
private theorem center?_ne_none (h : x0 + totalBits * block + block ≤ row.length)
    (hblock : 0 < block)
    {i : Nat} (hi : i < totalBits) : ∃ b, center? row x0 block i = some b := by
  have hroom : (i + 1) * block ≤ totalBits * block := Nat.mul_le_mul_right block hi
  rw [Nat.succ_mul] at hroom
  have hin : x0 + i * block + block / 2 < row.length := by omega
  unfold center?
  rw [List.getElem?_eq_getElem hin]
  exact ⟨_, rfl⟩

/-- The bits of a row are those at the centers of its blocks. -/
private theorem sampleRow?_eq {f : Nat → Bool}
    (h : ∀ i < totalBits, center? row x0 block i = some (f i)) :
    sampleRow? row x0 block = some ((List.range totalBits).map f) :=
  mapM_some fun i hi => h i (List.mem_range.mp hi)

/-- Inside the row every block has a center. -/
private theorem sampleRow?_ne_none (h : x0 + totalBits * block + block ≤ row.length)
    (hblock : 0 < block) :
    ∃ bits, sampleRow? row x0 block = some bits := by
  have hcenter : ∀ i < totalBits, center? row x0 block i =
      some ((center? row x0 block i).getD false) := by
    intro i hi
    obtain ⟨b, hb⟩ := center?_ne_none h hblock hi
    rw [hb]
    rfl
  exact ⟨_, sampleRow?_eq hcenter⟩

/-- A test of a list that never fails does not fail. -/
private theorem anyM_ne_none {α : Type} {f : α → Option Bool} {l : List α}
    (h : ∀ a ∈ l, ∃ b, f a = some b) : ∃ b, l.anyM f = some b := by
  induction l with
  | nil => exact ⟨false, rfl⟩
  | cons a l ih =>
    obtain ⟨b, hb⟩ := h a (List.mem_cons_self ..)
    rw [List.anyM_cons, hb]
    cases b with
    | true => exact ⟨true, rfl⟩
    | false => exact ih fun c hc => h c (List.mem_cons_of_mem a hc)

/-- A test that finds nothing. -/
private theorem anyM_false {α : Type} {f : α → Option Bool} {l : List α}
    (h : ∀ a ∈ l, f a = some false) : l.anyM f = some false := by
  induction l with
  | nil => rfl
  | cons a l ih =>
    rw [List.anyM_cons, h a (List.mem_cons_self ..)]
    exact ih fun c hc => h c (List.mem_cons_of_mem a hc)

/-- The look for the marker stays in the row. -/
private theorem misses?_ne_none (h : x0 + totalBits * block + block ≤ row.length)
    (hblock : 0 < block) :
    ∃ b, misses? row x0 block = some b := by
  refine anyM_ne_none fun m hm => ?_
  have hm8 : ∀ m ∈ probeMarker.zipIdx, m.2 < totalBits := by decide
  obtain ⟨b, hb⟩ := center?_ne_none h hblock (hm8 m hm)
  rw [hb]
  exact ⟨_, rfl⟩

/-- So does the walk to the end of a block. -/
private theorem lastLock?_ne_none {n last : Nat}
    (h : last + n + totalBits * block + block ≤ row.length) (hblock : 0 < block) :
    ∃ x, lastLock? row block n last = some x := by
  induction n generalizing last with
  | zero => exact ⟨last, rfl⟩
  | succ n ih =>
    obtain ⟨bits, hbits⟩ : ∃ bits, sampleRow? row (last + 1) block = some bits :=
      sampleRow?_ne_none (by omega) hblock
    simp only [lastLock?, hbits, Option.bind_eq_bind, Option.bind_some]
    split
    · exact ih (by omega)
    · exact ⟨last, rfl⟩

/-- And so does the search. -/
private theorem findFrom?_ne_none {n : Nat} (hx0 : block ≤ x0)
    (h : x0 + n + totalBits * block + block ≤ row.length + 1) (hblock : 0 < block) :
    ∃ r, findFrom? row block n x0 = some r := by
  -- the induction is on the positions that are left
  induction n generalizing x0 with
  | zero => exact ⟨none, rfl⟩
  | succ n ih =>
    -- there is room for a reading here, so every sample is in the row
    have hroom : x0 + totalBits * block + block ≤ row.length := by omega
    have hrest : ∃ r, findFrom? row block n (x0 + 1) = some r := ih (by omega) (by omega)
    have hleft : x0 - block / 2 < row.length := by omega
    have hright : x0 + totalBits * block + block / 2 < row.length := by omega
    obtain ⟨missed, hmissed⟩ := misses?_ne_none hroom hblock
    obtain ⟨bits, hbits⟩ := sampleRow?_ne_none hroom hblock
    obtain ⟨last, hlast⟩ : ∃ last, lastLock? row block
        (row.length - totalBits * block - block - x0) x0 = some last :=
      lastLock?_ne_none (by omega) hblock
    simp only [findFrom?, List.getElem?_eq_getElem hleft, List.getElem?_eq_getElem hright, hmissed,
      hbits, hlast, Option.bind_eq_bind, Option.bind_some]
    -- the row does not match here, or it does
    split
    · exact hrest
    · split
      · exact hrest
      · split
        · exact hrest
        · split
          · exact ⟨_, rfl⟩
          · exact hrest

/-- Whatever is in the row, and however long it is. -/
theorem findStrip?_ne_none (row : List UInt8) {block : Nat} (hblock : 0 < block) :
    ∃ r, findStrip? row block = some r := by
  unfold findStrip?
  by_cases hempty : row.length + 1 - totalBits * block - block - block = 0
  · rw [hempty]
    exact ⟨none, rfl⟩
  · exact findFrom?_ne_none (Nat.le_refl block) (by omega) hblock

end

/-! ## A row with a strip -/

/-- Is the place in a white block of a strip at `x`? -/
def lit (bits : List Bool) (block x p : Nat) : Bool :=
  decide (x ≤ p) && (bits[(p - x) / block]?).getD false

/-- The row has the strip at `x`, with a block or more to both sides of it, and is black elsewhere.
    What a threshold of 128 takes for white is white here, and black is what `find_strip` takes for
    a backdrop. -/
structure CleanStrip (row : List UInt8) (block x : Nat) (bits : List Bool) : Prop where
  left : block ≤ x
  right : x + bits.length * block + block ≤ row.length
  white : ∀ p value, row[p]? = some value → lit bits block x p = true → 128 ≤ value
  black : ∀ p value, row[p]? = some value → lit bits block x p = false → value < 64

section

variable {row : List UInt8} {block x x0 : Nat} {bits : List Bool}

/-- To the left of the strip it is black. -/
private theorem lit_left {p : Nat} (h : p < x) : lit bits block x p = false := by
  unfold lit
  rw [decide_eq_false (Nat.not_le.mpr h), Bool.false_and]

/-- The centres of the blocks from a place that is not too far off. -/
private theorem lit_center {d i : Nat} (hd : d < block) :
    lit bits block x (x + i * block + d) = (bits[i]?).getD false := by
  have hindex : (x + i * block + d - x) / block = i := by
    rw [Nat.add_assoc, Nat.add_sub_cancel_left, Nat.mul_comm,
      Nat.mul_add_div (Nat.lt_of_le_of_lt (Nat.zero_le d) hd), Nat.div_eq_of_lt hd, Nat.add_zero]
  unfold lit
  rw [decide_eq_true (by omega), hindex, Bool.true_and]

namespace CleanStrip

variable (hrow : CleanStrip row block x bits)
include hrow

/-- A black place reads as black. -/
private theorem getElem?_black {p : Nat} (hp : p < row.length) (hlit : lit bits block x p = false) :
    ∃ value, row[p]? = some value ∧ ¬ 64 ≤ value :=
  ⟨row[p], List.getElem?_eq_getElem hp,
    UInt8.not_le.mpr (hrow.black p _ (List.getElem?_eq_getElem hp) hlit)⟩

/-- A center inside the row reads as the block that it lies in. -/
private theorem center?_eq {i : Nat} (hp : x0 + i * block + block / 2 < row.length) :
    center? row x0 block i = some (lit bits block x (x0 + i * block + block / 2)) := by
  unfold center?
  rw [List.getElem?_eq_getElem hp, Option.map_some]
  congr 1
  cases hlit : lit bits block x (x0 + i * block + block / 2) with
  | true => exact decide_eq_true (hrow.white _ _ (List.getElem?_eq_getElem hp) hlit)
  | false =>
    have hblack := hrow.black _ _ (List.getElem?_eq_getElem hp) hlit
    refine decide_eq_false (UInt8.not_le.mpr ?_)
    exact UInt8.lt_trans hblack (by decide)

/-- A search is on the strip: the centres of the blocks are in them. -/
private theorem sampleRow?_eq (hbits : bits.length = totalBits) (hlo : x ≤ x0 + block / 2)
    (hhi : x0 + block / 2 < x + block) (hroom : x0 + totalBits * block + block ≤ row.length) :
    (∀ i < totalBits, center? row x0 block i = some ((bits[i]?).getD false)) ∧
      sampleRow? row x0 block = some bits := by
  have hcenter : ∀ i < totalBits, center? row x0 block i = some ((bits[i]?).getD false) := by
    intro i hi
    have hblocks : (i + 1) * block ≤ totalBits * block := Nat.mul_le_mul_right block hi
    rw [Nat.succ_mul] at hblocks
    rw [hrow.center?_eq (by omega)]
    have hplace : x0 + i * block + block / 2 = x + i * block + (x0 + block / 2 - x) := by omega
    rw [hplace, lit_center (by omega)]
  refine ⟨hcenter, (QCBridge.sampleRow?_eq hcenter).trans (congrArg some ?_)⟩
  apply List.ext_getElem?
  intro i
  rw [List.getElem?_map, ← hbits]
  by_cases hi : i < bits.length
  · rw [List.getElem?_range hi, Option.map_some, List.getElem?_eq_getElem hi, Option.getD_some]
  · rw [List.getElem?_eq_none (by rw [List.length_range]; omega), List.getElem?_eq_none (by omega)]
    rfl

/-- Before it, the first block is black, and the marker's is not. -/
private theorem misses?_before (hlt : x0 + block / 2 < x) (hp : x0 + block / 2 < row.length) :
    misses? row x0 block = some true := by
  have hfirst : center? row x0 block 0 = some false := by
    rw [hrow.center?_eq (by omega), lit_left (by omega)]
  show probeMarker.zipIdx.anyM _ = _
  rw [show probeMarker.zipIdx = (true, 0) :: probeMarker.zipIdx.tail from rfl, List.anyM_cons,
    hfirst]
  rfl

omit hrow in
/-- At a strip the marker is found. -/
private theorem misses?_on (hmark : bits.take 8 = probeMarker)
    (hcenter : ∀ i < totalBits, center? row x0 block i = some ((bits[i]?).getD false)) :
    misses? row x0 block = some false := by
  have hall : ∀ m ∈ probeMarker.zipIdx, (center? row x0 block m.2).map (· != m.1) = some false := by
    intro m hm
    have hm8 : ∀ m ∈ probeMarker.zipIdx, m.2 < 8 ∧ probeMarker[m.2]? = some m.1 := by decide
    obtain ⟨hlt, hget⟩ := hm8 m hm
    rw [← hmark, List.getElem?_take_of_lt hlt] at hget
    rw [hcenter m.2 (Nat.lt_trans hlt (by decide)), hget]
    show some (m.1 != m.1) = _
    rw [bne_self_eq_false]
  exact anyM_false hall

/-- Right behind the places that are on the strip, the second block is taken for the first. -/
private theorem decodeBits_behind (hmark : bits.take 8 = probeMarker)
    (hlast : x0 + block / 2 = x + block)
    (hblock : 0 < block) (hroom : x0 + totalBits * block + block ≤ row.length) :
    ∃ sample, sampleRow? row x0 block = some sample ∧ decodeBits sample = none := by
  have hsecond : (bits[1]?).getD false = false := by
    have hget : (bits.take 8)[1]? = some false := by rw [hmark]; rfl
    rw [List.getElem?_take_of_lt (by decide)] at hget
    rw [hget]
    rfl
  have hfirst : center? row x0 block 0 = some false := by
    have hplace : x0 + 0 * block + block / 2 = x + 1 * block + 0 := by omega
    rw [hrow.center?_eq (by omega), hplace, lit_center hblock, hsecond]
  obtain ⟨sample, hsample⟩ := sampleRow?_ne_none hroom hblock
  refine ⟨sample, hsample, if_pos (.inr fun hmarker => ?_)⟩
  have hcons : sampleRow? row x0 block = (((List.range' 1 63).mapM (center? row x0 block)).map
      fun rest => false :: rest) := by
    unfold sampleRow?
    rw [show List.range totalBits = 0 :: List.range' 1 63 from rfl, List.mapM_cons, hfirst]
    cases (List.range' 1 63).mapM (center? row x0 block) <;> rfl
  rw [hcons, Option.map_eq_some_iff] at hsample
  obtain ⟨rest, -, rfl⟩ := hsample
  exact absurd (List.cons.inj hmarker).1 (by decide)

/-- The last place that decodes is on the strip, if the first is. -/
private theorem lastLock?_eq (hbits : bits.length = totalBits) (hmark : bits.take 8 = probeMarker)
    (hdecodes : (decodeBits bits).isSome) (hblock : 0 < block) {n last : Nat}
    (hlo : x ≤ last + block / 2) (hhi : last + block / 2 < x + block)
    (hroom : last + n + totalBits * block + block ≤ row.length) :
    ∃ y, lastLock? row block n last = some y ∧ last ≤ y ∧ y + block / 2 < x + block ∧
      y ≤ last + n := by
  induction n generalizing last with
  | zero => exact ⟨last, rfl, Nat.le_refl last, hhi, Nat.le_refl last⟩
  | succ n ih =>
    by_cases hon : last + 1 + block / 2 < x + block
    · obtain ⟨y, hy, hle, hlt, hn⟩ : ∃ y, lastLock? row block n (last + 1) = some y ∧
          last + 1 ≤ y ∧ y + block / 2 < x + block ∧ y ≤ last + 1 + n :=
        ih (by omega) hon (by omega)
      refine ⟨y, ?_, by omega, hlt, by omega⟩
      rw [lastLock?, (hrow.sampleRow?_eq hbits (by omega) hon (by omega)).2]
      show (if _ then _ else _) = _
      rw [if_pos hdecodes, hy]
    · obtain ⟨sample, hsample, hnone⟩ := hrow.decodeBits_behind hmark
        (show last + 1 + block / 2 = x + block by omega) hblock (by omega)
      refine ⟨last, ?_, Nat.le_refl last, hhi, by omega⟩
      rw [lastLock?, hsample]
      show (if _ then _ else _) = _
      rw [hnone]
      rfl

/-- From any place up to the strip. -/
private theorem findFrom?_eq (hbits : bits.length = totalBits) (hmark : bits.take 8 = probeMarker)
    (hdecodes : (decodeBits bits).isSome) (hblock : 2 ≤ block) {n : Nat} (hx0 : block ≤ x0)
    (hle : x0 ≤ x) (hn : x0 + n + totalBits * block + block = row.length + 1) :
    ∃ y, findFrom? row block n x0 = some (some y) ∧ x ≤ y + block / 2 ∧
      y + block / 2 < x + block ∧ y + totalBits * block + block ≤ row.length := by
  have hright := hrow.right
  rw [hbits] at hright
  induction n generalizing x0 with
  | zero => omega
  | succ n ih =>
    have hroom : x0 + totalBits * block + block ≤ row.length := by omega
    obtain ⟨left, hleft, hdark⟩ := hrow.getElem?_black (p := x0 - block / 2) (by omega)
      (lit_left (by omega))
    by_cases hbefore : x0 + block / 2 < x
    · -- the marker does not begin here
      obtain ⟨y, hy, hplace⟩ : ∃ y, findFrom? row block n (x0 + 1) = some (some y) ∧
          x ≤ y + block / 2 ∧ y + block / 2 < x + block ∧
            y + totalBits * block + block ≤ row.length := ih (by omega) (by omega) (by omega)
      refine ⟨y, ?_, hplace⟩
      have hin : x0 + totalBits * block + block / 2 < row.length := by omega
      simp only [findFrom?, hleft, if_neg hdark, List.getElem?_eq_getElem hin,
        hrow.misses?_before hbefore (by omega), Option.bind_eq_bind, Option.bind_some, if_true, hy]
      split <;> rfl
    · have hlo : x ≤ x0 + block / 2 := Nat.le_of_not_lt hbefore
      have hhi : x0 + block / 2 < x + block := by omega
      obtain ⟨hcenter, hsample⟩ := hrow.sampleRow?_eq hbits hlo hhi hroom
      obtain ⟨right, hrightEq, hdark'⟩ := hrow.getElem?_black
        (p := x0 + totalBits * block + block / 2) (by omega) (by
          have hplace : x0 + totalBits * block + block / 2 =
            x + totalBits * block + (x0 + block / 2 - x) := by omega
          rw [hplace, lit_center (by omega), List.getElem?_eq_none (Nat.le_of_eq hbits)]
          rfl)
      obtain ⟨last, hlast, hle', hlt, hn'⟩ := hrow.lastLock?_eq hbits hmark hdecodes (by omega)
        (n := row.length - totalBits * block - block - x0) hlo hhi (by omega)
      refine ⟨(x0 + last) / 2, ?_, by omega, by omega, by omega⟩
      simp only [findFrom?, hleft, if_neg hdark, hrightEq, if_neg hdark',
        misses?_on hmark hcenter, Option.bind_eq_bind, Option.bind_some, hsample,
        if_pos hdecodes, hlast]
      rfl

/-- What is found is the strip. -/
theorem findStrip?_eq (hbits : bits.length = totalBits) (hmark : bits.take 8 = probeMarker)
    (hdecodes : (decodeBits bits).isSome) (hblock : 2 ≤ block) :
    ∃ y, findStrip? row block = some (some y) ∧ sampleRow? row y block = some bits := by
  have hright := hrow.right
  have hleft := hrow.left
  rw [hbits] at hright
  obtain ⟨y, hy, hlo, hhi, hroom⟩ := hrow.findFrom?_eq hbits hmark hdecodes hblock
    (n := row.length + 1 - totalBits * block - block - block) (Nat.le_refl block) hleft (by omega)
  exact ⟨y, hy, (hrow.sampleRow?_eq hbits hlo hhi hroom).2⟩

end CleanStrip

end

/-! ## The strip of a stamp -/

/-- Whatever the time and the number are, with the time cut to milliseconds: what is read out of
    the strip, and out of none that has one bit wrong; the time that went by since; and the strip
    is found in every row. -/
theorem probe_strip (tHost : Binary64) (seq : Int) {tMs : Int} (htMs : msOf tHost = some tMs) :
    ∃ bits, encodeStamp tHost seq = some bits ∧
      decodeBits bits = some ((tMs % 2 ^ 32).toNat, (seq % 2 ^ 16).toNat) ∧
      (∀ i < bits.length, decodeBits (bits.modify i not) = none) ∧
      (∀ nowS nowMs, msOf nowS = some nowMs → tMs ≤ nowMs → nowMs < tMs + 2 ^ 32 →
        latencyMs nowS (tMs % 2 ^ 32).toNat = some (nowMs - tMs).toNat) ∧
      ∀ row block x, 2 ≤ block → CleanStrip row block x bits →
        ∃ y sample, findStrip? row block = some (some y) ∧ sampleRow? row y block = some sample ∧
          decodeBits sample = some ((tMs % 2 ^ 32).toNat, (seq % 2 ^ 16).toNat) := by
  have hdecodes := decodeBits_stamp tMs seq
  have hlength := length_encodeBits (tMs % 2 ^ 32).toNat (seq % 2 ^ 16).toNat
  have hmark := take_encodeBits (tMs % 2 ^ 32).toNat (seq % 2 ^ 16).toNat
  refine ⟨encodeBits (tMs % 2 ^ 32).toNat (seq % 2 ^ 16).toNat, ?_, ?_, ?_, ?_, ?_⟩
  · unfold encodeStamp
    rw [htMs, Option.map_some]
  · exact hdecodes
  · exact fun i hi => decodeBits_modify _ _ hi
  · exact fun nowS nowMs hnow hle hlt => latencyMs_eq hnow hle hlt
  · intro row block x hblock hrow
    obtain ⟨y, hy, hsample⟩ :=
      hrow.findStrip?_eq hlength hmark (by rw [hdecodes, Option.isSome_some]) hblock
    exact ⟨y, _, hy, hsample, hdecodes⟩

/-- A row with a strip in it. -/
def stripRow (bits : List Bool) (block x width : Nat) : List UInt8 :=
  (List.range width).map fun p => if lit bits block x p then 0xeb else 0

/-- A row that is painted so has a clean strip. -/
private theorem cleanStrip_stripRow {bits : List Bool} {block x width : Nat} (hleft : block ≤ x)
    (hright : x + bits.length * block + block ≤ width) :
    CleanStrip (stripRow bits block x width) block x bits where
  left := hleft
  right := by
    unfold stripRow
    rw [List.length_map, List.length_range]
    exact hright
  white p value hvalue hlit := by
    unfold stripRow at hvalue
    rw [List.getElem?_map, Option.map_eq_some_iff] at hvalue
    obtain ⟨q, hq, rfl⟩ := hvalue
    obtain ⟨-, rfl⟩ := List.getElem?_eq_some_iff.mp hq
    rw [List.getElem_range, if_pos hlit]
    decide
  black p value hvalue hlit := by
    unfold stripRow at hvalue
    rw [List.getElem?_map, Option.map_eq_some_iff] at hvalue
    obtain ⟨q, hq, rfl⟩ := hvalue
    obtain ⟨-, rfl⟩ := List.getElem?_eq_some_iff.mp hq
    rw [List.getElem_range, if_neg (by rw [hlit]; decide)]
    decide

/-- The stamp of 42.5 s, in a row of a picture. -/
theorem probe_strip_row :
    ∃ y sample, findStrip? (stripRow (encodeBits 42500 99) blockPx 37 1920) = some (some y) ∧
      sampleRow? (stripRow (encodeBits 42500 99) blockPx 37 1920) y blockPx = some sample ∧
      decodeBits sample = some (42500, 99) := by
  obtain ⟨bits, hbits, -, -, -, hfinds⟩ :=
    probe_strip (.ofQuotient 42500 1000) 99
      (by decide +kernel : msOf (.ofQuotient 42500 1000) = some 42500)
  obtain rfl : encodeBits 42500 99 = bits := by
    rw [show encodeStamp (.ofQuotient 42500 1000) 99 = some (encodeBits 42500 99) by
      decide +kernel] at hbits
    exact Option.some.inj hbits
  exact hfinds _ blockPx 37 (by decide) (cleanStrip_stripRow (by decide) (by decide))

/-- A time of 1001 ms is a little less in seconds, and is cut to 1000 ms. -/
theorem probe_strip_counterexample :
    ¬ ∀ (tMs : Nat) (seq : Int), (encodeStamp (.ofQuotient tMs 1000) seq).bind decodeBits =
      some (tMs % 2 ^ 32, (seq % 2 ^ 16).toNat) := by
  intro hall
  exact absurd (hall 1001 7) (by decide +kernel)

end QCBridge
