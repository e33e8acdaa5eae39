import QCBridge.ForStd.Framing
import Mathlib.Algebra.GroupWithZero.Nat

/-!
# A cold message on its way

`ring1/transport_agent.py` and the agent's `link.rs` and `session.rs`: a cold message is
packed by the host's addon, framed on the local socket, stripped of its peer byte and
compressed by the host's agent, framed on the lane, and the same way back on the replica's
side.

JSON and zstd are parameters.
-/

namespace QCBridge.Wire

/-- A string of bytes. -/
abbrev Bytes := List UInt8

/-- `json.dumps` and `json.loads` of a header. What is not an object loads as `none`. -/
structure Json (η : Type) where
  dumps : η → Bytes
  loads : Bytes → Option η

/-- `zstd::bulk`. A failure is `none`; `decompress` is told how long the result is. -/
structure Zstd where
  compress : Bytes → Option Bytes
  decompress : Bytes → Nat → Option Bytes

/-- `T_COLD`. -/
def tCold : UInt8 := 0x03

/-- `_PEER`. -/
def peer : UInt8 := 0x00

/-- `MAX_FRAME`, of a frame on the local socket. -/
def maxFrame : Nat := 256 <<< 20

/-- `MAX_LANE_FRAME`. -/
def maxLaneFrame : Nat := 256 <<< 20

/-- `ZSTD_MIN`. -/
def zstdMin : Nat := 4096

/-- `CODEC_RAW`. -/
def codecRaw : UInt8 := 0

/-- `CODEC_ZSTD`. -/
def codecZstd : UInt8 := 1

/-- The codec byte and the raw length before a cold body on the lane. -/
def codecHeader : Nat := 5

/-! ## The addons -/

variable {η : Type}

/-- `struct.pack(">I", n)`, which raises on a longer number. -/
def packU32 (n : Nat) : Option Bytes := if n < UInt32.size then some (be32 n) else none

/-- `pack_cold`, of a header short enough to pack. -/
def packCold (J : Json η) (header : η) (payload : Bytes) : Bytes :=
  be32 (J.dumps header).length ++ J.dumps header ++ payload

/-- `cold_parts`. -/
def coldParts (J : Json η) (header : η) (payload : Bytes) : Option (List Bytes) :=
  (packU32 (J.dumps header).length).map fun len => [[peer], len, J.dumps header, payload]

/-- `_frame`, as the buffers are written in turn. -/
def linkFrame (kind : UInt8) (parts : List Bytes) : Option Bytes :=
  (packU32 ((parts.map List.length).sum + 1)).map fun len => len ++ [kind] ++ parts.flatten

/-- A turn of `_read_loop`. -/
def readLinkFrame (stream : Bytes) : Option ((UInt8 × Bytes) × Bytes) :=
  match readBe32 stream with
  | some (length, kind :: stream) =>
    if 1 < length then
      (takeBytes (length - 1) stream).map fun r => ((kind, r.1), r.2)
    else some ((kind, []), stream)
  | _ => none

/-- `unpack_cold`, with `decode_cold`. -/
def unpackCold (J : Json η) (body : Bytes) : Option (η × Bytes) :=
  match readBe32 body with
  | none => none
  | some (n, rest) =>
    -- a header that is cut short
    if body.length < 4 + n then none
    else (J.loads (rest.take n)).map fun header => (header, rest.drop n)

/-! ## The agents -/

/-- `write_frame`. -/
def writeFrame (kind : UInt8) (body : Bytes) : Bytes :=
  be32 (body.length + 1) ++ [kind] ++ body

/-- A turn of `reader_loop`, up to the match. -/
def readFrame (stream : Bytes) : Option ((UInt8 × Bytes) × Bytes) :=
  match readBe32 stream with
  | some (len, kind :: stream) =>
    -- the agent drops the link on a length that cannot be
    if len = 0 ∨ maxFrame < len then none
    else (takeBytes (len - 1) stream).map fun r => ((kind, r.1), r.2)
  | _ => none

/-- `lane_body`. -/
def laneBody (peer : UInt8) (payload : Bytes) : Bytes := peer :: payload

/-- `cold_wire_encode`: compressed only where that is shorter. -/
def coldWireEncode (Z : Zstd) (raw : Bytes) : Bytes :=
  let plain := [codecRaw] ++ be32 raw.length ++ raw
  if zstdMin ≤ raw.length then
    match Z.compress raw with
    | some z => if z.length < raw.length then [codecZstd] ++ be32 raw.length ++ z else plain
    -- a compression that fails is no error
    | none => plain
  else plain

/-- `cold_wire_decode`. -/
def coldWireDecode (Z : Zstd) : Bytes → Option Bytes
  | codec :: wire =>
    match readBe32 wire with
    | some (rawLen, body) =>
      if codec = codecRaw then some body
      else if codec = codecZstd then Z.decompress body rawLen
      else none
    | none => none
  | [] => none

/-- `send_msg`. -/
def sendMsg (payload : Bytes) : Bytes := be32 payload.length ++ payload

/-- `recv_msg`. -/
def recvMsg (stream : Bytes) : Option (Bytes × Bytes) :=
  match readBe32 stream with
  | some (n, stream) => if maxLaneFrame < n then none else takeBytes n stream
  | none => none

/-! ## Where the bytes go -/

/-- The bodies of the cold frames among all frames of a link. -/
def coldBodies {α : Type} (frames : List (UInt8 × α)) : List α :=
  (frames.filter fun f => f.1 = tCold).map Prod.snd

/-- What comes before the first error. A lane's task ends there. -/
def untilError {α : Type} : List (Option α) → List α
  | some a :: l => a :: untilError l
  | _ => []

/-- The host's addon writes frames of every kind to its agent. -/
def toHostAgent (frames : List (UInt8 × List Bytes)) : Option Bytes :=
  (frames.mapM fun f => linkFrame f.1 f.2).map List.flatten

/-- The host's agent reads its addon and writes the cold lane. -/
def toColdLane (Z : Zstd) (stream : Bytes) : Bytes :=
  (coldBodies (readAll readFrame stream)).flatMap fun body =>
    sendMsg (coldWireEncode Z (body.drop 1))

/-- The replica's agent reads the cold lane: the bodies of the frames for its addon. -/
def fromColdLane (Z : Zstd) (lane : Bytes) : List Bytes :=
  (untilError ((readAll recvMsg lane).map (coldWireDecode Z))).map (laneBody 0)

/-- The replica's agent writes frames of every kind to its addon. -/
def toReplicaAddon (frames : List (UInt8 × Bytes)) : Bytes :=
  frames.flatMap fun f => writeFrame f.1 f.2

/-- The replica's addon reads its agent: the cold messages it gets. -/
def coldMessages (J : Json η) (stream : Bytes) : List (η × Bytes) :=
  (coldBodies (readAll readLinkFrame stream)).filterMap fun body => unpackCold J (body.drop 1)

end QCBridge.Wire
