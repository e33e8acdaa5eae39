import QCBridge.ForStd.Packed

/-!
# The hot packet

`ring1/protocol.py`: the view and the frame as one packet, with the stamp of the probe after them
if there is one. The layout of `_HOT` is a magic, the flags, the frame and 22 floats of 32 bits,
without padding; that of `_HOT_PROBE` a float of 64 bits and a counter. `struct.pack` raises where
a number is too large for its place.
-/

namespace QCBridge

/-- `_HOT.size`, of `"<4sBi3f16f3f"`. -/
def hotSize : Nat := 4 + 1 + 4 + 4 * 22

/-- `_HOT_PROBE.size`, of `"<dI"`. -/
def hotProbeSize : Nat := 8 + 4

/-- `_HOT_MAGIC`, `b"QCB2"`. -/
def hotMagic : List UInt8 := [0x51, 0x43, 0x42, 0x32]

def flagPersp : Nat := 1 <<< 0

def flagHold : Nat := 1 <<< 1

def flagCamera : Nat := 1 <<< 2

/-- `HotState`. -/
structure HotState where
  frame : Int
  /-- Row by row. -/
  viewMatrix : Vector Binary64 16
  lens : Binary64
  clipStart : Binary64
  clipEnd : Binary64
  isPersp : Bool := true
  hold : Bool := false
  camera : Bool := false
  camZoom : Binary64 := .zero
  camOffset : Binary64 × Binary64 := (.zero, .zero)
  /-- The host's clock, if it is stamped. -/
  tHost : Binary64 := .zero
  probeSeq : Int := 0
deriving DecidableEq

/-! ## The formats of `struct` -/

/-- `"i"`. -/
def packI32 (x : Int) : Option (List UInt8) :=
  if -2 ^ 31 ≤ x ∧ x < 2 ^ 31 then some (le 4 (x % 2 ^ 32).toNat) else none

def unpackI32 (bytes : List UInt8) : Int := Int.bmod (ofLe bytes) (2 ^ 32)

/-- `"I"`. -/
def packU32 (x : Int) : Option (List UInt8) :=
  if 0 ≤ x ∧ x < 2 ^ 32 then some (le 4 x.toNat) else none

/-- `"f"`. -/
def packF32 (x : Binary64) : Option (List UInt8) := x.narrow.map fun y => le 4 y.toBits

def unpackF32 (bytes : List UInt8) : Binary64 := Binary32.widen (.ofBits (ofLe bytes))

/-- `"d"`. -/
def packF64 (x : Binary64) : List UInt8 := le 8 x.toBits

def unpackF64 (bytes : List UInt8) : Binary64 := Binary.ofBits (ofLe bytes)

/-- `"{n}f"`. -/
def unpackFloats (n : Nat) (bytes : List UInt8) : Vector Binary64 n :=
  .ofFn fun i => unpackF32 ((bytes.drop (4 * i)).take 4)

/-! ## Packing and unpacking -/

namespace HotState

def flags (s : HotState) : Nat :=
  (if s.isPersp then flagPersp else 0) ||| (if s.hold then flagHold else 0) |||
    (if s.camera then flagCamera else 0)

/-- The floats of the view, in their order. -/
def floats (s : HotState) : Vector Binary64 22 :=
  #v[s.lens, s.clipStart, s.clipEnd] ++ s.viewMatrix ++ #v[s.camZoom, s.camOffset.1, s.camOffset.2]

/-- `_HOT.pack`. -/
def packCore (s : HotState) : Option (List UInt8) := do
  let frame ← packI32 s.frame
  let floats ← s.floats.toList.mapM packF32
  return hotMagic ++ [UInt8.ofNat s.flags] ++ frame ++ floats.flatten

/-- `_HOT_PROBE.pack`, if there is a stamp. -/
def packProbe (s : HotState) : Option (List UInt8) :=
  if s.tHost.IsZero then some [] else (packU32 s.probeSeq).map (packF64 s.tHost ++ ·)

/-- `HotState.pack`. -/
def pack (s : HotState) : Option (List UInt8) := do
  let core ← s.packCore
  let probe ← s.packProbe
  return core ++ probe

end HotState

/-- `hot_core`. -/
def hotCore (data : List UInt8) : List UInt8 := data.take hotSize

/-- What `_HOT.unpack` and `_HOT_PROBE.unpack` gave, put together. -/
def unpackState (core : List UInt8) (tHost : Binary64) (probeSeq : Int) : HotState :=
  -- the flags after the magic
  let flags := (core.drop 4).headD 0
  let vals := unpackFloats 22 (core.drop 9)
  { frame := unpackI32 ((core.drop 5).take 4)
    lens := vals[0]
    clipStart := vals[1]
    clipEnd := vals[2]
    viewMatrix := .ofFn fun i => vals[3 + i.val]
    isPersp := flags.toNat &&& flagPersp ≠ 0
    hold := flags.toNat &&& flagHold ≠ 0
    camera := flags.toNat &&& flagCamera ≠ 0
    camZoom := vals[19]
    camOffset := (vals[20], vals[21])
    tHost, probeSeq }

/-- `unpack_hot`. -/
def unpackHot (data : List UInt8) : Option HotState :=
  if data.length = hotSize + hotProbeSize then
    let probe := data.drop hotSize
    unpackMagic data (unpackF64 (probe.take 8)) (ofLe (probe.drop 8))
  else if data.length ≠ hotSize then none
  else unpackMagic data .zero 0
where
  /-- What comes after the stamp is read. -/
  unpackMagic (data : List UInt8) (tHost : Binary64) (probeSeq : Int) : Option HotState :=
    let core := data.take hotSize
    if core.take 4 ≠ hotMagic then none else some (unpackState core tHost probeSeq)

end QCBridge
