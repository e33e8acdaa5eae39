import Mathlib.Logic.Function.Basic

/-!
# The frame ring

`ring0/frame_ring.py`, `ring1/ring_layout.py` and the loop of the encode helpers: a block of
shared memory with a few slots. `publish` writes a frame into a slot under the slot's seqlock,
odd while the writer is inside, and then names the slot in `latest`. A helper reads `latest`,
claims the slot, reads its descriptor and its pixels, and accepts the frame if the seqlock is
even and did not change.

Each step is one load or one store of a control word, a descriptor field or a pixel, in the
order of the program. What only one side touches is written along with the step before it.
-/

namespace QCBridge

/-- The fields of a descriptor that a helper reads, in its order. -/
inductive DescField where
  | w
  | h
  | bytesPerRow
  | pixelFormat
deriving DecidableEq, Repr

def DescField.all : List DescField := [.w, .h, .bytesPerRow, .pixelFormat]

/-- What a slot has beside its seqlock. -/
inductive Cell where
  | desc (f : DescField)
  | pixel (offset : Nat)
deriving DecidableEq, Repr

/-- What `publish` is called with: the descriptor it packs, and the pixels in the order they
    are stored. The probe strip is stored after the frame, over it. -/
structure Frame where
  desc : DescField → Nat
  pixels : List (Nat × Nat)

/-- The stores of `publish` into the slot. -/
def Frame.stores (f : Frame) : List (Cell × Nat) :=
  f.pixels.map (fun p => (.pixel p.1, p.2)) ++ DescField.all.map fun d => (.desc d, f.desc d)

/-- The last of some stores to a cell. -/
def lastStore (stores : List (Cell × Nat)) (c : Cell) : Option Nat :=
  (stores.filter (·.1 = c)).getLast?.map Prod.snd

/-- What the frame leaves in a cell, if it stores there. -/
def Frame.value (f : Frame) (c : Cell) : Option Nat := lastStore f.stores c

structure Slot where
  seqlock : Nat := 0
  cell : Cell → Nat := fun _ => 0

/-- `pack_latest`: `(seq << 8) | (slot & 0xFF)`. -/
def packLatest (seq slot : Nat) : Nat := seq * 256 + slot % 256

/-- The slot a helper finds in `latest`: `latest & 0xFF`. -/
def slotOf (latest : Nat) : Nat := latest % 256

/-- `next_slot`. `last_slot` is -1 before the first frame: here `none`. `reader_claim` is 0
    when nothing is held, else the slot and one. -/
def nextSlot (lastSlot : Option Nat) (readerClaim slotCount : Nat) : Nat :=
  let slot := (lastSlot.elim 0 (· + 1)) % slotCount
  if readerClaim = slot + 1 then (slot + 1) % slotCount else slot

/-- `PF_RGBA32F`. -/
def pfRgba32f : Nat := 4

/-- The helper's checks of a descriptor. -/
def descOk (capacity : Nat) (desc : DescField → Nat) : Bool :=
  desc .pixelFormat == pfRgba32f && 16 ≤ desc .w && 16 ≤ desc .h && desc .w % 2 == 0 &&
    desc .h % 2 == 0 && desc .bytesPerRow * desc .h ≤ capacity

/-- Where `publish` is. -/
inductive WriterAt where
  | idle
  /-- The slot is chosen, with the claim that was seen. -/
  | chosen (frame : Frame) (slot saw : Nat)
  /-- The seqlock is odd, and these stores are left. -/
  | inside (frame : Frame) (slot saw seqlock : Nat) (todo : List (Cell × Nat))
  /-- The seqlock is even, and `latest` is not written. -/
  | closed (slot : Nat)

/-- Where the loop of the helper is. `latest` is what it read, `before` the seqlock before,
    and `got` what it read of the slot. -/
inductive ReaderAt where
  | start
  | aimed (latest : Nat)
  | claimed (latest : Nat)
  | reading (latest before : Nat) (got : List (Cell × Nat))
  | converting (latest before : Nat) (got : List (Cell × Nat))
  | checked (latest before after : Nat) (got : List (Cell × Nat))

/-- The ring, its writer and a helper. -/
structure RingSystem where
  slots : Nat → Slot := fun _ => {}
  latest : Nat := 0
  readerClaim : Nat := 0
  /-- `seq` and `last_slot` of the writer. -/
  seq : Nat := 0
  lastSlot : Option Nat := none
  writer : WriterAt := .idle
  /-- `last_latest` of the helper. -/
  cursor : Nat := 0
  reader : ReaderAt := .start
  /-- The calls of `publish`, each with its slot: history. -/
  calls : List (Nat × Frame) := []
  /-- What was accepted, and under which `latest`: history. -/
  accepted : List (Nat × List (Cell × Nat)) := []
  /-- Under which `latest` a conversion failed: history. -/
  failed : List Nat := []

namespace RingSystem

/-! ## The writer -/

/-- The next step of `publish`. A call begins with `frame`. -/
def write (slotCount : Nat) (frame : Frame) (s : RingSystem) : RingSystem :=
  match s.writer with
  | .idle =>
    -- the claim is read once, here
    let slot := nextSlot s.lastSlot s.readerClaim slotCount
    { s with writer := .chosen frame slot s.readerClaim, calls := s.calls ++ [(slot, frame)] }
  | .chosen frame slot saw =>
    -- `seqlock | 1`
    let seqlock := (s.slots slot).seqlock / 2 * 2 + 1
    { s with
      slots := Function.update s.slots slot { s.slots slot with seqlock }
      writer := .inside frame slot saw seqlock frame.stores }
  | .inside frame slot saw seqlock ((c, v) :: todo) =>
    let cell := Function.update (s.slots slot).cell c v
    { s with
      slots := Function.update s.slots slot { s.slots slot with cell }
      writer := .inside frame slot saw seqlock todo }
  | .inside _ slot _ seqlock [] =>
    { s with
      slots := Function.update s.slots slot { s.slots slot with seqlock := seqlock + 1 }
      seq := s.seq + 1
      writer := .closed slot }
  | .closed slot =>
    -- only now can a helper find the frame
    { s with latest := packLatest s.seq slot, lastSlot := some slot, writer := .idle }

/-! ## The helper -/

/-- Reads `latest`. A slot that is none is passed over, by the Mac helper with the cursor. -/
def look (slotCount : Nat) (s : RingSystem) : RingSystem :=
  match s.reader with
  | .start =>
    if s.latest = s.cursor then s
    else if slotOf s.latest < slotCount then { s with reader := .aimed s.latest }
    else { s with cursor := s.latest }
  | _ => s

/-- The next cell of the descriptor. -/
def nextField (got : List (Cell × Nat)) : Option DescField := DescField.all[got.length]?

/-- What was read of a descriptor. -/
def fieldOf (got : List (Cell × Nat)) (f : DescField) : Nat :=
  ((got.find? (·.1 = .desc f)).map Prod.snd).getD 0

/-- The next step of the loop, up to the conversion and from the second look at the seqlock.
    An odd seqlock, or one that changed: the cursor stays. -/
def next (capacity : Nat) (s : RingSystem) : RingSystem :=
  match s.reader with
  | .start => s
  | .aimed latest => { s with readerClaim := slotOf latest + 1, reader := .claimed latest }
  | .claimed latest =>
    { s with reader := .reading latest (s.slots (slotOf latest)).seqlock [] }
  | .reading latest before got =>
    match nextField got with
    | some f =>
      let value := (s.slots (slotOf latest)).cell (.desc f)
      { s with reader := .reading latest before (got ++ [(.desc f, value)]) }
    | none =>
      if before % 2 = 1 then { s with readerClaim := 0, reader := .start }
      else if descOk capacity (fieldOf got) then { s with reader := .converting latest before got }
      -- a descriptor that is not valid is passed over for good
      else { s with readerClaim := 0, cursor := latest, reader := .start }
  | .converting latest before got =>
    { s with reader := .checked latest before (s.slots (slotOf latest)).seqlock got }
  | .checked latest before after got =>
    -- the seqlock stood still while the pixels were read
    if after = before then
      { s with
        readerClaim := 0
        cursor := latest
        reader := .start
        accepted := s.accepted ++ [(latest, got)] }
    else { s with readerClaim := 0, reader := .start }

/-- The Mac helper looks at the seqlock before it reads the descriptor. -/
def giveUp (s : RingSystem) : RingSystem :=
  match s.reader with
  | .reading _ before _ =>
    if before % 2 = 1 then { s with readerClaim := 0, reader := .start } else s
  | _ => s

/-- The conversion reads a pixel: any, and any number of them. -/
def readPixel (k : Nat) (s : RingSystem) : RingSystem :=
  match s.reader with
  | .converting latest before got =>
    let value := (s.slots (slotOf latest)).cell (.pixel k)
    { s with reader := .converting latest before (got ++ [(.pixel k, value)]) }
  | _ => s

/-- The conversion failed. The Windows helper does not look at the seqlocks then. -/
def convertFailed (s : RingSystem) : RingSystem :=
  match s.reader with
  | .checked latest _ _ _ =>
    { s with
      readerClaim := 0
      cursor := latest
      reader := .start
      failed := s.failed ++ [latest] }
  | _ => s

/-- The helper exits or is killed, with its claim or without, and another is started. -/
def respawn (released : Bool) (s : RingSystem) : RingSystem :=
  { s with
    readerClaim := if released then 0 else s.readerClaim
    cursor := 0
    reader := .start }

end RingSystem

/-- A step of the writer or of the helper. -/
inductive RingStep where
  | write (frame : Frame)
  | look
  | next
  | giveUp
  | readPixel (k : Nat)
  | convertFailed
  | respawn (released : Bool)

namespace RingSystem

/-- One step, in a ring of `slotCount` slots whose pixels take `capacity` bytes. -/
def step (slotCount capacity : Nat) (s : RingSystem) : RingStep → RingSystem
  | .write frame => s.write slotCount frame
  | .look => s.look slotCount
  | .next => s.next capacity
  | .giveUp => s.giveUp
  | .readPixel k => s.readPixel k
  | .convertFailed => s.convertFailed
  | .respawn released => s.respawn released

/-- A new ring, and steps in any order. -/
def run (slotCount capacity : Nat) (steps : List RingStep) : RingSystem :=
  steps.foldl (step slotCount capacity) {}

end RingSystem

end QCBridge
