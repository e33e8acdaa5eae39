import QCBridge.ForStd.Packed
import QCBridge.Ring0.FrameRing
import QCBridge.Ring1.RingLayout

/-!
# The frames of the replica

`ring0/engine_qcb.py`: which part of the viewport is read, or how large the offscreen picture is,
and what is published; and from `ring0/frame_ring.py` the stores of `publish` and of the probe
strip. A frame that does not fit retires the ring, and a larger one takes its place.

What is measured in floating point, the camera's frame and the sizes that follow an aspect, comes
as whole numbers, which are left open. Whether a frame is skipped, black or unchanged, is left
open too.
-/

namespace QCBridge

/-! ## The ring -/

/-- `FrameRing`, as far as it is made for a width. -/
structure FrameRing where
  width : Nat
deriving DecidableEq

namespace FrameRing

/-- `layout`. -/
def layout (r : FrameRing) : Layout := layoutFor r.width

/-- `fits`. -/
def fits (r : FrameRing) (width height : Nat) : Bool := r.layout.fits width height

/-- `FrameRing(width)`. The size of the block is an offset of the system's, of 64 bits; and the
    memory may be short. -/
def create (alloc : Nat → Bool) (width : Nat) : Option FrameRing :=
  let r : FrameRing := ⟨width⟩
  if r.layout.totalSize < 2 ^ 63 ∧ alloc r.layout.totalSize then some r else none

end FrameRing

/-! ## Publishing -/

/-- `arr`: rows from the bottom up, and four floats a pixel. -/
structure Picture where
  w : Nat
  h : Nat
  value : Nat → Nat → Nat

/-- What a slice `lo:hi` of `n` items ranges over. -/
def sliceRange (n lo hi : Nat) : List Nat := List.range' lo (min hi n - lo)

/-- A value is stored into the colours of a rectangle, behind `[y0:y1, x0:x1, :3]`. -/
def fillRect (w h : Nat) (rows cols : Nat × Nat) (value : Nat) : List (Nat × Nat) :=
  (sliceRange h rows.1 rows.2).flatMap fun y =>
    (sliceRange w cols.1 cols.2).flatMap fun x =>
      (List.range 3).map fun c => (y * bytesPerRow w + (x * 4 + c) * 4, value)

/-- 10.0 as a 32-bit float. -/
def stampWhite : Nat := 0x41200000

/-- `_stamp`: black behind the strip, and a white block for every 1. -/
def stamp (w h : Nat) (bits : List Bool) : List (Nat × Nat) :=
  let x := blockPx
  let y0 := 48 + blockPx
  let y1 := y0 + blockPx
  let x1 := min w (x + bits.length * blockPx + blockPx)
  -- no room for the strip: nothing is drawn
  if h < y1 + blockPx ∨ x1 ≤ x then []
  else
    -- black first, with a block around the strip
    fillRect w h (y0 - blockPx, y1 + blockPx) (0, x1) 0 ++
      bits.zipIdx.flatMap fun b =>
        if b.1 then
          fillRect w h (y0, y1) (x + b.2 * blockPx, x + (b.2 + 1) * blockPx) stampWhite
        else []

/-- The stores of `publish` into the pixels of the slot: where, and what. -/
def pixelStores (p : Picture) (probe : Option (Nat × Nat)) : List (Nat × Nat) :=
  ((List.range p.h).flatMap fun y =>
    (List.range (p.w * 4)).map fun i => (y * bytesPerRow p.w + i * 4, p.value y i)) ++
  probe.elim [] fun t => stamp p.w p.h (encodeBits t.1 t.2)

/-- `publish`: the frame that it stores, if it fits. -/
def FrameRing.publish (r : FrameRing) (p : Picture) (probe : Option (Nat × Nat)) :
    Option Frame :=
  if !r.fits p.w p.h then none
  -- a number that is too large for its field raises
  else if 2 ^ 32 ≤ p.w ∨ 2 ^ 32 ≤ p.h ∨ 2 ^ 32 ≤ bytesPerRow p.w then none
  else some {
    desc := fun
      | .w => p.w
      | .h => p.h
      | .bytesPerRow => bytesPerRow p.w
      | .pixelFormat => pfRgba32f
    pixels := pixelStores p probe }

/-! ## The engine -/

/-- `int(h * 4 / 3)`. The quotient is the nearest double. Below 2^52 a double has room for a
    half, which is enough to keep the whole part of a number of thirds. -/
def fourThirds (h : Nat) : Nat :=
  let q := h * 4 / 3
  if q < 2 ^ 52 then q
  else
    let unit := 2 ^ (q.log2 - 52)
    roundHalfEven (h * 4) (3 * unit) * unit

/-- What the engine keeps in `_st`, as far as the size of frames goes. -/
structure Engine where
  ring : Option FrameRing
  width : Nat
deriving DecidableEq

namespace Engine

variable (alloc : Nat → Bool) (e : Engine)

/-- `_regrow`. A ring that cannot be made leaves the old one. -/
def regrow (w h : Nat) : Engine :=
  match FrameRing.create alloc (max e.width w) with
  | none => e
  | some new =>
    if new.fits w h then { e with ring := some new }
    else
      match FrameRing.create alloc (max w (fourThirds h + 2)) with
      | none => e
      | some new => { e with ring := some new }

/-- `_publish`, of a picture that is not skipped: what is published, and in which ring. -/
def publish (p : Picture) (probe : Option (Nat × Nat)) :
    Engine × Option (FrameRing × Frame) :=
  match e.ring with
  | none => (e, none)
  | some ring =>
    let e := if ring.fits p.w p.h then e else e.regrow alloc p.w p.h
    match e.ring with
    | none => (e, none)
    | some ring => (e, (ring.publish p probe).map (ring, ·))

end Engine

/-! ## Sizes -/

/-- A rectangle: its corner at the bottom left, and its size. -/
structure Rect where
  x : Int
  y : Int
  w : Int
  h : Int
deriving DecidableEq

/-- `n & ~1`. -/
def evenFloor (n : Int) : Int := n - n % 2

/-- `_clamp_rect`. -/
def clampRect (rect viewport : Rect) : Option Rect :=
  let rx0 := max rect.x 0
  let ry0 := max rect.y 0
  let rw := evenFloor (min (rect.w - (rx0 - rect.x)) (viewport.w - rx0))
  let rh := evenFloor (min (rect.h - (ry0 - rect.y)) (viewport.h - ry0))
  if rw < 16 ∨ rh < 16 then none else some ⟨viewport.x + rx0, viewport.y + ry0, rw, rh⟩

/-- What `_publish_from_framebuffer` reads: the camera's frame in shot mode, if it is on the
    viewport, or all of the viewport. -/
def readRect (shotMode : Bool) (camera : Option Rect) (viewport : Rect) : Option Rect :=
  let clamped := if shotMode then camera.bind (clampRect · viewport) else none
  let rect := clamped.getD
    ⟨viewport.x, viewport.y, evenFloor viewport.w, evenFloor viewport.h⟩
  if rect.w < 16 ∨ rect.h < 16 then none else some rect

/-- The floating point of `_offscreen_draw`: `int(round(w * aspect))`, the same of `h / aspect`,
    and `int(n * scale)`. -/
structure Measure where
  heightFor : Int → Int
  widthFor : Int → Int
  scaled : Int → Int

/-- The size of the picture that `_offscreen_draw` makes in a region. -/
def offscreenSize (m : Measure) (streamWidth : Int) (ofCamera : Bool) (regionW regionH : Int) :
    Option (Int × Int) :=
  if regionW < 16 ∨ regionH < 16 then none
  else
    let (w, h) :=
      if ofCamera then
        let w := evenFloor (min streamWidth regionW)
        let h := evenFloor (m.heightFor w)
        -- too tall: the height of the region, and the width follows
        if regionH < h then (evenFloor (m.widthFor (evenFloor regionH)), evenFloor regionH)
        else (w, h)
      else (evenFloor (m.scaled regionW), evenFloor (m.scaled regionH))
    if w < 16 ∨ h < 16 then none else some (w, h)

/-- What makes the engine publish. -/
inductive Draw where
  /-- `_publish_from_framebuffer`. -/
  | framebuffer (shotMode : Bool) (camera : Option Rect) (viewport : Rect)
  /-- `_offscreen_draw`. -/
  | offscreen (m : Measure) (ofCamera : Bool) (regionW regionH : Int)

/-- The size of the picture, if there is one. -/
def Engine.size (e : Engine) : Draw → Option (Int × Int)
  | .framebuffer shotMode camera viewport =>
    (readRect shotMode camera viewport).map fun rect => (rect.w, rect.h)
  | .offscreen m ofCamera regionW regionH =>
    offscreenSize m e.width ofCamera regionW regionH

/-- A draw whose picture has these pixels. -/
def Engine.draw (alloc : Nat → Bool) (e : Engine) (d : Draw) (value : Nat → Nat → Nat)
    (probe : Option (Nat × Nat)) : Engine × Option (FrameRing × Frame) :=
  match e.size d with
  | none => (e, none)
  | some (w, h) => e.publish alloc ⟨w.toNat, h.toNat, value⟩ probe

end QCBridge
