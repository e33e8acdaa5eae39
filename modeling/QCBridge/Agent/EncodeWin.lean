import QCBridge.Agent.AuSplitter

/-!
# The encoder helper on Windows

`nal_units` and `emit` of `encode-win/src/main.rs`: what the encoder puts out goes to the
agent as one access unit, behind an access unit delimiter, and with the parameter sets that were
seen last if it is a keyframe that lacks some.

The counters of `Stats` are left out.
-/

namespace QCBridge

namespace EncodeWin

/-- The `(begin, hdr)` that the loop of `nal_units` finds from `i` on. -/
def starts (au : Bytes) (i : Nat) : List (Nat × Nat) :=
  if i + 3 ≤ au.length then
    if StartCodeAt au i then (beginOf au i, i + 3) :: starts au (i + 3)
    else starts au (i + 1)
  else []
termination_by au.length - i

/-- `nal_units`. -/
def nalUnits (au : Bytes) : List NalUnit :=
  (withStops (starts au 0) au.length).filterMap fun p =>
    if p.1.2 < p.2 then some ⟨p.1.1, p.1.2, p.2⟩ else none

/-- `AUD_NAL`. -/
def audNal : Bytes := [0, 0, 0, 1, 0x46, 0x01, 0x50]

/-- What the loop of `emit` has seen. -/
structure Seen extends Contents where
  hasAud : Bool := false

/-- One turn of the loop of `emit`. -/
def Seen.see (data : Bytes) (s : Seen) (u : NalUnit) : Seen where
  toContents := s.toContents.see data u
  hasAud := s.hasAud || typeOf data u = Nal.aud

/-- What `emit` sees of an encoder output. -/
def seen (params : Fin 3 → Option Bytes) (data : Bytes) (keyHint : Bool) : Seen :=
  (nalUnits data).foldl (Seen.see data) { key := keyHint, params }

/-- What `emit` puts in front. -/
def Seen.front (s : Seen) : List Bytes :=
  (if s.hasAud then [] else [audNal]) ++
    -- a keyframe that carries not all of them gets all that are known
    if s.key && !(List.finRange 3).all s.have_ then (List.finRange 3).filterMap s.params
    else []

/-- `emit`: what is written, and the parameter sets seen by now. -/
def emit (params : Fin 3 → Option Bytes) (data : Bytes) (keyHint : Bool) :
    Bytes × (Fin 3 → Option Bytes) :=
  let s := seen params data keyHint
  (s.front.flatten ++ data, s.params)

end EncodeWin

end QCBridge
