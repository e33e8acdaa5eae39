import Mathlib.Algebra.Group.Nat.Defs
import Mathlib.Data.Nat.Basic

/-!
# The layout of the frame ring

`ring1/ring_layout.py`: where the slots of the block lie, how many bytes a frame takes in one,
and how tall a frame a ring of some width takes. A row is padded to 256 bytes and a slot to
pages, so that the helpers can hand the pixels to the GPU as they are. The bits of the probe
strip (`ring1/probe.py`) are stamped into the frame.
-/

namespace QCBridge

/-- `PAGE`. -/
def page : Nat := 4096

/-- `ROW_ALIGN`. -/
def rowAlign : Nat := 256

/-- `DEFAULT_SLOTS`. -/
def defaultSlots : Nat := 3

/-- `round_up`. -/
def roundUp (n align : Nat) : Nat := (n + align - 1) / align * align

theorem le_roundUp (n : Nat) {align : Nat} (halign : 0 < align) : n ≤ roundUp n align := by
  have hlt := Nat.lt_div_mul_add (a := n + align - 1) halign
  unfold roundUp
  omega

theorem roundUp_mono (align : Nat) {n m : Nat} (h : n ≤ m) : roundUp n align ≤ roundUp m align :=
  Nat.mul_le_mul_right align (Nat.div_le_div_right (by omega))

/-- `bytes_per_row` of RGBA in 32-bit floats. -/
def bytesPerRow (width : Nat) : Nat := roundUp (width * 16) rowAlign

/-- `capacity_for`: what a slot must hold. -/
def capacityFor (width height : Nat) : Nat := roundUp (bytesPerRow width * height) page

/-- `height_cap`: the tallest frame for a ring of the width, 4:3. -/
def heightCap (width : Nat) : Nat := roundUp (width * 3 / 4) 2

/-- `Layout`: the descriptor page and the pixels of every slot. -/
structure Layout where
  slotCount : Nat
  pixelsCapacity : Nat
  slotStride : Nat
deriving DecidableEq

/-- `layout_for`. -/
def layoutFor (width : Nat) (height : Option Nat := none) (slots : Nat := defaultSlots) :
    Layout where
  slotCount := slots
  pixelsCapacity := capacityFor width (height.getD (heightCap width))
  slotStride := page + capacityFor width (height.getD (heightCap width))

namespace Layout

variable (l : Layout)

/-- `total_size`: the header page, and the slots. -/
def totalSize : Nat := page + l.slotCount * l.slotStride

/-- `slot_offset`. -/
def slotOffset (slot : Nat) : Nat := page + slot * l.slotStride

/-- `pixels_at`: behind the descriptor page. -/
def pixelsAt (slot : Nat) : Nat := l.slotOffset slot + page

/-- `fits`. -/
def fits (width height : Nat) : Bool := bytesPerRow width * height ≤ l.pixelsCapacity

end Layout

/-! ## The probe strip -/

/-- `MARKER`. -/
def probeMarker : List Bool := [true, false, true, true, false, false, true, false]

/-- `BLOCK_PX`. -/
def blockPx : Nat := 12

/-- `_check`: of the bytes of the time and of the number. -/
def probeCheck (tMs seq : Nat) : Nat :=
  let bytes := (List.range 4).map (fun i => tMs / 256 ^ i % 256) ++
    (List.range 2).map fun i => seq / 256 ^ i % 256
  -- the XOR keeps a strip of zeros from passing the check
  (bytes.foldl (· + ·) 0 ^^^ 0xa5) % 256

/-- `encode_bits`, from the milliseconds on. -/
def encodeBits (tMs seq : Nat) : List Bool :=
  -- both numbers wrap
  let tMs := tMs % 2 ^ 32
  let seq := seq % 2 ^ 16
  let word := tMs + seq * 2 ^ 32 + probeCheck tMs seq * 2 ^ 48
  probeMarker ++ (List.range 56).map fun i => word.testBit i

end QCBridge
