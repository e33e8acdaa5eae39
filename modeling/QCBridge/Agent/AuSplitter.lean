import Mathlib.Data.List.Basic

/-!
# Access units

`agent/src/lib.rs`: the encoder's output is a byte stream of NAL units behind start codes.
`AuSplitter` is fed the stream as it comes and hands out access units, each from one access
unit delimiter to the next. A keyframe without parameter sets gets the latest ones that were
seen.

A start code is `00 00 01`, and a zero byte before it is part of it.
-/

namespace QCBridge

abbrev Bytes := List UInt8

namespace Nal

def vps : UInt8 := 32
def sps : UInt8 := 33
def pps : UInt8 := 34
def aud : UInt8 := 35

/-- `is_irap`. -/
def isIrap (t : UInt8) : Bool := 16 ≤ t && t ≤ 23

end Nal

/-- `nal_type`. -/
def nalType (header : UInt8) : UInt8 := (header >>> 1) &&& 0x3f

/-- `AccessUnit`. -/
structure AccessUnit where
  data : Bytes
  key : Bool
deriving DecidableEq, Repr

/-- The loop of `find_start_code`, on what is left of the buffer at `i`. -/
def scanStartCode : Bytes → Nat → Option Nat
  | b0 :: b1 :: b2 :: rest, i =>
    -- no start code has its last byte here, nor begins before the next byte
    if b2 > 1 then scanStartCode rest (i + 3)
    else if b2 = 1 ∧ b0 = 0 ∧ b1 = 0 then some i
    else scanStartCode (b1 :: b2 :: rest) (i + 1)
  | _, _ => none

/-- `find_start_code`. -/
def findStartCode (buf : Bytes) (start : Nat) : Option Nat := scanStartCode (buf.drop start) start

/-- The bytes at `i` are a start code. -/
def StartCodeAt (buf : Bytes) (i : Nat) : Prop :=
  buf[i]? = some 0 ∧ buf[i + 1]? = some 0 ∧ buf[i + 2]? = some 1

instance (buf : Bytes) (i : Nat) : Decidable (StartCodeAt buf i) :=
  inferInstanceAs (Decidable (_ ∧ _))

/-- The first start code from `start` on. -/
structure FirstStartCode (buf : Bytes) (start sc : Nat) : Prop where
  le : start ≤ sc
  found : StartCodeAt buf sc
  first : ∀ j, start ≤ j → j < sc → ¬ StartCodeAt buf j

theorem StartCodeAt.lt {buf : Bytes} {i : Nat} (h : StartCodeAt buf i) : i + 2 < buf.length :=
  (List.getElem?_eq_some_iff.mp h.2.2).1

theorem startCodeAt_drop {buf : Bytes} {start i : Nat} :
    StartCodeAt (buf.drop start) i ↔ StartCodeAt buf (start + i) := by
  unfold StartCodeAt
  rw [List.getElem?_drop, List.getElem?_drop, List.getElem?_drop]
  rfl

/-- What the loop finds in what is left. -/
private theorem scanStartCode_spec (l : Bytes) (i : Nat) :
    (∀ sc, scanStartCode l i = some sc → ∃ k, sc = i + k ∧ FirstStartCode l 0 k) ∧
      (scanStartCode l i = none → ∀ k, ¬ StartCodeAt l k) := by
  induction l, i using scanStartCode.induct with
  | case1 b0 b1 b2 rest i hgt ih =>
    have hskip : ∀ k < 3, ¬ StartCodeAt (b0 :: b1 :: b2 :: rest) k := by
      have h0 : b2 ≠ 0 := by rintro rfl; exact absurd hgt (by decide)
      have h1 : b2 ≠ 1 := by rintro rfl; exact absurd hgt (by decide)
      intro k hk h
      obtain ⟨hk0, hk1, hk2⟩ := h
      obtain rfl | rfl | rfl : k = 0 ∨ k = 1 ∨ k = 2 := by omega
      · exact h1 (Option.some.inj hk2)
      · exact h0 (Option.some.inj hk1)
      · exact h0 (Option.some.inj hk0)
    rw [scanStartCode, if_pos hgt]
    constructor
    · intro sc hsc
      obtain ⟨k, rfl, hk⟩ := ih.1 sc hsc
      refine ⟨k + 3, by omega, Nat.zero_le _, hk.found, fun j _ hj => ?_⟩
      rcases Nat.lt_or_ge j 3 with hlt | hge
      · exact hskip j hlt
      · obtain ⟨j, rfl⟩ := Nat.exists_eq_add_of_le' hge
        exact hk.first j (Nat.zero_le j) (by omega)
    · intro hnone k
      rcases Nat.lt_or_ge k 3 with hlt | hge
      · exact hskip k hlt
      · obtain ⟨k, rfl⟩ := Nat.exists_eq_add_of_le' hge
        exact ih.2 hnone k
  | case2 b0 b1 b2 rest i hgt hcode =>
    rw [scanStartCode, if_neg hgt, if_pos hcode]
    obtain ⟨rfl, rfl, rfl⟩ := hcode
    constructor
    · intro sc hsc
      obtain rfl := Option.some.inj hsc
      exact ⟨0, rfl, Nat.le_refl 0, ⟨rfl, rfl, rfl⟩, fun j _ hj => absurd hj (Nat.not_lt_zero j)⟩
    · intro hnone
      exact absurd hnone (Option.some_ne_none i)
  -- one byte on
  | case3 b0 b1 b2 rest i hgt hcode ih =>
    have hskip : ¬ StartCodeAt (b0 :: b1 :: b2 :: rest) 0 := by
      rintro ⟨h0, h1, h2⟩
      exact hcode ⟨Option.some.inj h2, Option.some.inj h0, Option.some.inj h1⟩
    rw [scanStartCode, if_neg hgt, if_neg hcode]
    constructor
    · intro sc hsc
      obtain ⟨k, rfl, hk⟩ := ih.1 sc hsc
      refine ⟨k + 1, by omega, Nat.zero_le _, hk.found, fun j _ hj => ?_⟩
      cases j with
      | zero => exact hskip
      | succ j => exact hk.first j (Nat.zero_le j) (by omega)
    · intro hnone k
      cases k with
      | zero => exact hskip
      | succ k => exact ih.2 hnone k
  | case4 l i hshort =>
    have hlen : l.length < 3 := by
      obtain _ | ⟨b0, _ | ⟨b1, _ | ⟨b2, rest⟩⟩⟩ := l
      · decide
      · simp
      · simp
      · exact (hshort b0 b1 b2 rest rfl).elim
    rw [scanStartCode.eq_2 l i hshort]
    exact ⟨fun sc hsc => absurd hsc.symm (Option.some_ne_none sc), fun _ k hk => by
      have := hk.lt
      omega⟩

theorem findStartCode_eq_some {buf : Bytes} {start sc : Nat} :
    findStartCode buf start = some sc ↔ FirstStartCode buf start sc := by
  have hspec := scanStartCode_spec (buf.drop start) start
  -- what the search finds is the first; and there is one first only
  have hfind : ∀ sc, findStartCode buf start = some sc → FirstStartCode buf start sc := by
    intro sc hsc
    obtain ⟨k, rfl, hk⟩ := hspec.1 sc hsc
    refine ⟨Nat.le_add_right _ _, startCodeAt_drop.mp hk.found, fun j hle hlt hj => ?_⟩
    obtain ⟨j, rfl⟩ := Nat.exists_eq_add_of_le hle
    exact hk.first j (Nat.zero_le j) (by omega) (startCodeAt_drop.mpr hj)
  refine ⟨hfind sc, fun h => ?_⟩
  cases hres : findStartCode buf start with
  | none =>
    obtain ⟨k, rfl⟩ := Nat.exists_eq_add_of_le h.le
    exact absurd (startCodeAt_drop.mpr h.found) (hspec.2 hres k)
  | some sc' =>
    -- there is one first
    have h' := hfind sc' hres
    rcases Nat.lt_trichotomy sc sc' with hlt | rfl | hlt
    · exact absurd h.found (h'.first sc h.le hlt)
    · rfl
    · exact absurd h'.found (h.first sc' h'.le hlt)

theorem findStartCode_eq_none {buf : Bytes} {start : Nat} :
    findStartCode buf start = none ↔ ∀ k, start ≤ k → ¬ StartCodeAt buf k := by
  constructor
  · intro hnone k hle hk
    obtain ⟨k, rfl⟩ := Nat.exists_eq_add_of_le hle
    exact (scanStartCode_spec (buf.drop start) start).2 hnone k (startCodeAt_drop.mpr hk)
  · intro h
    cases hres : findStartCode buf start with
    | none => rfl
    | some sc =>
      have hsc := findStartCode_eq_some.mp hres
      exact absurd hsc.found (h sc hsc.le)

/-- Where a start code begins: with the zero byte before it, if there is one. -/
def beginOf (buf : Bytes) (sc : Nat) : Nat :=
  if 0 < sc ∧ buf[sc - 1]? = some 0 then sc - 1 else sc

/-- The `(begin, hdr)` of each start code from `start` on. -/
def startCodes (au : Bytes) (start : Nat) : List (Nat × Nat) :=
  match h : findStartCode au start with
  | some sc => (beginOf au sc, sc + 3) :: startCodes au (sc + 3)
  | none => []
termination_by au.length - start
decreasing_by
  have hsc := findStartCode_eq_some.mp h
  have := hsc.found.lt
  have := hsc.le
  omega

/-- Where a NAL unit lies: its start code, its header byte, and what comes after it. -/
structure NalUnit where
  first : Nat
  hdr : Nat
  stop : Nat
deriving DecidableEq, Repr

/-- Each start code with the beginning of the next, the last with the end. -/
def withStops (starts : List (Nat × Nat)) (len : Nat) : List ((Nat × Nat) × Nat) :=
  starts.zip ((starts.drop 1).map Prod.fst ++ [len])

/-- `nal_units`. -/
def nalUnits (au : Bytes) : List NalUnit :=
  (withStops (startCodes au 0) au.length).filterMap fun p =>
    if p.1.2 < p.2 then some ⟨p.1.1, p.1.2, p.2⟩ else none

/-- The type of a unit. -/
def typeOf (au : Bytes) (u : NalUnit) : UInt8 := nalType (au.getD u.hdr 0)

/-- The parameter set a type stands for: its place among VPS, SPS and PPS. -/
def paramIndex (t : UInt8) : Option (Fin 3) :=
  if t = Nal.vps then some 0 else if t = Nal.sps then some 1 else if t = Nal.pps then some 2
  else none

/-- `AuSplitter`. -/
structure AuSplitter where
  buf : Bytes := []
  searchFrom : Nat := 0
  /-- The latest parameter sets seen. -/
  params : Fin 3 → Option Bytes := fun _ => none

/-- What the loop of `finish` has seen of an access unit. -/
structure Contents where
  key : Bool := false
  have_ : Fin 3 → Bool := fun _ => false
  params : Fin 3 → Option Bytes

/-- One turn of the loop of `finish`. -/
def Contents.see (au : Bytes) (c : Contents) (u : NalUnit) : Contents :=
  let t := typeOf au u
  let c := { c with key := c.key || Nal.isIrap t }
  match paramIndex t with
  | some i =>
    { c with
      have_ := fun j => if j = i then true else c.have_ j
      params := fun j => if j = i then some ((au.take u.stop).drop u.first) else c.params j }
  | none => c

/-- The units of an access unit, seen one after the other. -/
def contents (params : Fin 3 → Option Bytes) (au : Bytes) : Contents :=
  (nalUnits au).foldl (Contents.see au) { params }

/-- Where the parameter sets are inserted: behind the delimiter, if that comes first. -/
def audEnd (au : Bytes) : Nat :=
  match (nalUnits au).head? with
  | some u => if typeOf au u = Nal.aud then u.stop else 0
  | none => 0

/-- The cached parameter sets that the access unit lacks. -/
def Contents.missing (c : Contents) : List Bytes :=
  (List.finRange 3).filterMap fun i => if c.have_ i then none else c.params i

/-- `finish`: the access unit, and the parameter sets seen by now. -/
def finish (params : Fin 3 → Option Bytes) (au : Bytes) : AccessUnit × (Fin 3 → Option Bytes) :=
  let c := contents params au
  if !c.key || (List.finRange 3).all c.have_ ||
      (List.finRange 3).any (fun i => (c.params i).isNone) then
    -- no keyframe, all there already, or one not seen so far
    (⟨au, c.key⟩, c.params)
  else
    (⟨au.take (audEnd au) ++ c.missing.flatten ++ au.drop (audEnd au), c.key⟩, c.params)

namespace AuSplitter

/-- The loop of `push`. -/
def pushLoop (s : AuSplitter) (out : List AccessUnit) : AuSplitter × List AccessUnit :=
  match _h : findStartCode s.buf s.searchFrom with
  -- a start code may have its first two bytes at the end
  | none => ({ s with searchFrom := s.buf.length - 2 }, out)
  | some sc =>
    -- the header byte is not there yet
    if _hlen : s.buf.length ≤ sc + 3 then ({ s with searchFrom := sc }, out)
    else
      let start := beginOf s.buf sc
      if nalType (s.buf.getD (sc + 3) 0) = Nal.aud ∧ 0 < start then
        -- what is before the delimiter is an access unit
        let (au, params) := finish s.params (s.buf.take start)
        pushLoop ⟨s.buf.drop start, sc - start + 3, params⟩ (out ++ [au])
      else pushLoop { s with searchFrom := sc + 3 } out
termination_by s.buf.length - s.searchFrom
decreasing_by
  · have := (findStartCode_eq_some.mp _h).le
    have hle : beginOf s.buf sc ≤ sc := by
      unfold beginOf
      split <;> omega
    simp only [List.length_drop]
    omega
  · have := (findStartCode_eq_some.mp _h).le
    omega

/-- `push`. -/
def push (s : AuSplitter) (data : Bytes) (out : List AccessUnit) : AuSplitter × List AccessUnit :=
  pushLoop { s with buf := s.buf ++ data } out

/-- `flush`. -/
def flush (s : AuSplitter) (out : List AccessUnit) : AuSplitter × List AccessUnit :=
  if s.buf = [] then ({ s with searchFrom := 0 }, out)
  else
    let (au, params) := finish s.params s.buf
    (⟨[], 0, params⟩, out ++ [au])

end AuSplitter

end QCBridge
