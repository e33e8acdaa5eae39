import QCBridge.Ring1.RingLayout
import QCBridge.ForStd.Bits
import QCBridge.ForStd.Packed

/-!
# Reading the probe strip

`ring1/probe.py` from the reader's side: the row of a picture is searched for the strip, and what
the strip says is the time at which the host had the view. An index out of range raises: `none`.
-/

namespace QCBridge

/-- `TOTAL_BITS`. -/
def totalBits : Nat := 64

/-- `int(t * 1000)`, of a time in seconds. It raises where there is no such integer: `none`. -/
def msOf (t : Binary64) : Option Int := t.timesInt 1000

/-- `encode_bits`. -/
def encodeStamp (tHost : Binary64) (seq : Int) : Option (List Bool) :=
  -- `&` takes the low bits of a number below zero too
  (msOf tHost).map fun tMs => encodeBits (tMs % 2 ^ 32).toNat (seq % 2 ^ 16).toNat

/-- `decode_bits`: the milliseconds modulo 2^32 and the number, or `none` if the marker or the check
    fails. -/
def decodeBits (bits : List Bool) : Option (Nat × Nat) :=
  if bits.length ≠ totalBits ∨ bits.take 8 ≠ probeMarker then none
  else
    let word := ofBits (bits.drop 8)
    let tMs := word % 2 ^ 32
    let seq := word / 2 ^ 32 % 2 ^ 16
    if word / 2 ^ 48 % 256 ≠ probeCheck tMs seq then none else some (tMs, seq)

/-- The centre of block `i` of a strip at `x0`: is it white? -/
def center? (row : List UInt8) (x0 block i : Nat) : Option Bool :=
  row[x0 + i * block + block / 2]?.map (128 ≤ ·)

/-- `sample_row`. -/
def sampleRow? (row : List UInt8) (x0 block : Nat) : Option (List Bool) :=
  (List.range totalBits).mapM (center? row x0 block)

/-- `any` over the marker: is there a block that is not as in the marker? -/
def misses? (row : List UInt8) (x0 block : Nat) : Option Bool :=
  probeMarker.zipIdx.anyM fun m => (center? row x0 block m.2).map (· != m.1)

/-- The loop of `find_strip` over `last`, with `n` more places before the end of the row. A pair
    that is decoded is true, whatever it is. -/
def lastLock? (row : List UInt8) (block : Nat) : Nat → Nat → Option Nat
  | 0, last => some last
  | n + 1, last => do
    let bits ← sampleRow? row (last + 1) block
    if (decodeBits bits).isSome then lastLock? row block n (last + 1) else some last

/-- The loop of `find_strip` over `x0`, with `n` places from `x0` on. -/
def findFrom? (row : List UInt8) (block : Nat) : Nat → Nat → Option (Option Nat)
  | 0, _ => some none
  | n + 1, x0 => do
    let span := totalBits * block
    -- dark on both sides of the strip
    let left ← row[x0 - block / 2]?
    if 64 ≤ left then findFrom? row block n (x0 + 1)
    else
      let right ← row[x0 + span + block / 2]?
      if 64 ≤ right then findFrom? row block n (x0 + 1)
      else if ← misses? row x0 block then findFrom? row block n (x0 + 1)
      else
        -- a row that decodes: the middle of the places where it does
        let bits ← sampleRow? row x0 block
        if (decodeBits bits).isSome then
          let last ← lastLock? row block (row.length - span - block - x0) x0
          return some ((x0 + last) / 2)
        else findFrom? row block n (x0 + 1)

/-- `find_strip`. -/
def findStrip? (row : List UInt8) (block : Nat := blockPx) : Option (Option Nat) :=
  findFrom? row block (row.length + 1 - totalBits * block - block - block) block

/-- `latency_ms`. -/
def latencyMs (nowS : Binary64) (tMs : Int) : Option Nat :=
  (msOf nowS).map fun nowMs => ((nowMs % 2 ^ 32 - tMs) % 2 ^ 32).toNat

end QCBridge
