import QCBridge.ForStd.Attempt
import QCBridge.ForStd.Chunks
import QCBridge.Ring1.HotPacket

/-!
# The hot packet, there and back

A view whose floats are floats of 32 bits comes out of a packet as it went in, and so does the
stamp where there is one. The core of the packet has the view and nothing of the stamp: two views
have one core exactly if they are the same, down to the sign of a zero.

## Key results

- `HotState.packCore_eq`, `HotState.unpackState_core`: the bytes of a view, and the view of the
  bytes
- `HotState.unpackHot_pack`: what comes out of a packet
- `hotPacket`: what comes out, which cores are the same, and what is no packet
-/

namespace QCBridge

/-! ## Numbers of the packet -/

/-- The number is one of 32 bits. -/
def Binary64.Is32 (x : Binary64) : Prop := ∃ y : Binary32, ¬ y.IsNaN ∧ y.widen = x

/-- A signed number of 32 bits is read back. -/
private theorem unpackI32_le {x : Int} (hlow : -2 ^ 31 ≤ x) (hhigh : x < 2 ^ 31) :
    unpackI32 (le 4 (x % 2 ^ 32).toNat) = x := by
  have hpos : 0 ≤ x % 2 ^ 32 := Int.emod_nonneg _ (by decide)
  have hlt : x % 2 ^ 32 < 2 ^ 32 := Int.emod_lt_of_pos _ (by decide)
  unfold unpackI32
  rw [ofLe_le_of_lt (by omega), Int.toNat_of_nonneg hpos]
  have hmod := Int.emod_bmod x (2 ^ 32)
  have hself : Int.bmod x (2 ^ 32) = x := Int.bmod_eq_of_le_mul_two (by omega) (by omega)
  exact hmod.trans hself

/-- A float of 64 bits is read back, bit for bit. -/
private theorem unpackF64_packF64 (x : Binary64) : unpackF64 (packF64 x) = x := by
  unfold unpackF64 packF64
  rw [ofLe_le_of_lt (by have := x.toBits_lt; omega), Binary.ofBits_toBits]

/-- The bytes of a float, if it has any. -/
def bytesF32 (x : Binary64) : List UInt8 := (packF32 x).getD []

/-- What 32 bits hold exactly is a number. -/
private theorem Binary64.Is32.not_isNaN {x : Binary64} (h : x.Is32) : ¬ x.IsNaN := by
  obtain ⟨y, hy, rfl⟩ := h
  exact Binary32.not_isNaN_widen hy

/-- So it is packed. -/
private theorem Binary64.Is32.packF32_eq {x : Binary64} (h : x.Is32) :
    packF32 x = some (bytesF32 x) := by
  obtain ⟨y, hy, rfl⟩ := h
  simp [bytesF32, packF32, Binary64.narrow_widen hy]

/-- Into four bytes. -/
private theorem Binary64.Is32.length_bytesF32 {x : Binary64} (h : x.Is32) :
    (bytesF32 x).length = 4 := by
  obtain ⟨y, hy, rfl⟩ := h
  simp [bytesF32, packF32, Binary64.narrow_widen hy]

/-- And read back, bit for bit. -/
private theorem Binary64.Is32.unpackF32_bytesF32 {x : Binary64} (h : x.Is32) :
    unpackF32 (bytesF32 x) = x := by
  obtain ⟨y, hy, rfl⟩ := h
  have hlt := y.toBits_lt
  simp only [bytesF32, packF32, Binary64.narrow_widen hy, Option.map_some, Option.getD_some,
    unpackF32]
  rw [ofLe_le_of_lt (by omega), Binary.ofBits_toBits]

/-- Each float of a list takes four bytes. -/
private theorem length_of_mem_bytes {v : List Binary64} (h : ∀ x ∈ v, x.Is32) :
    ∀ l ∈ v.map bytesF32, l.length = 4 := by
  intro l hl
  obtain ⟨x, hx, rfl⟩ := List.mem_map.mp hl
  exact (h x hx).length_bytesF32

/-- So a list of them is read back one by one. -/
private theorem unpackFloats_bytes {n : Nat} {v : Vector Binary64 n} (h : ∀ x ∈ v.toList, x.Is32) :
    unpackFloats n (v.toList.map bytesF32).flatten = v := by
  ext i hi
  have hget : v[i] ∈ v.toList := Vector.mem_toList_iff.mpr (Vector.getElem_mem hi)
  unfold unpackFloats
  rw [Vector.getElem_ofFn, take_drop_flatten (length_of_mem_bytes h) (by simpa using hi),
    List.getElem_map, Vector.getElem_toList, (h _ hget).unpackF32_bytesF32]

namespace HotState

/-- The numbers of the state have their places in a packet. -/
structure Fits (s : HotState) : Prop where
  floats : ∀ x ∈ s.floats.toList, x.Is32
  clock : ¬ s.tHost.IsNaN
  frame : -2 ^ 31 ≤ s.frame ∧ s.frame < 2 ^ 31
  stamp : ¬ s.tHost.IsZero → 0 ≤ s.probeSeq ∧ s.probeSeq < 2 ^ 32

/-- The bytes of the view. -/
def core (s : HotState) : List UInt8 :=
  hotMagic ++ [UInt8.ofNat s.flags] ++ le 4 (s.frame % 2 ^ 32).toNat ++
    (s.floats.toList.map bytesF32).flatten

variable {s s' : HotState}

/-- A view that fits its fields is packed. -/
theorem packCore_eq (hs : s.Fits) : s.packCore = some s.core := by
  unfold packCore packI32
  rw [if_pos hs.frame, mapM_some fun x hx => (hs.floats x hx).packF32_eq]
  rfl

/-- All views take the same number of bytes. -/
theorem length_core (hs : s.Fits) : s.core.length = hotSize := by
  have hfloats : (s.floats.toList.map bytesF32).flatten.length = 4 * 22 := by
    rw [length_flatten_of_forall (length_of_mem_bytes hs.floats), List.length_map,
      Vector.length_toList]
  simp only [core, List.length_append, length_le, hfloats]
  rfl

/-- The floats of the lens, the matrix and the camera. -/
private theorem getElem_floats (s : HotState) {i : Nat} (hi : i < 22) :
    s.floats[i] = if h : i < 3 + 16 then
        if h' : i < 3 then #v[s.lens, s.clipStart, s.clipEnd][i] else s.viewMatrix[i - 3]
      else #v[s.camZoom, s.camOffset.1, s.camOffset.2][i - (3 + 16)] := by
  refine (Vector.getElem_append hi).trans ?_
  simp only [Vector.getElem_append]

/-- Each flag has its bit. -/
private theorem flags_and (s : HotState) :
    decide ((UInt8.ofNat s.flags).toNat &&& flagPersp ≠ 0) = s.isPersp ∧
      decide ((UInt8.ofNat s.flags).toNat &&& flagHold ≠ 0) = s.hold ∧
      decide ((UInt8.ofNat s.flags).toNat &&& flagCamera ≠ 0) = s.camera := by
  unfold flags
  cases s.isPersp <;> cases s.hold <;> cases s.camera <;> decide

/-- The view comes out of its bytes. -/
theorem unpackState_core (hs : s.Fits) (tHost : Binary64) (probeSeq : Int) :
    unpackState s.core tHost probeSeq = { s with tHost, probeSeq } := by
  have hvals : unpackFloats 22 (s.core.drop 9) = s.floats := by
    have hdrop : s.core.drop 9 = (s.floats.toList.map bytesF32).flatten :=
      List.drop_left' (by simp [hotMagic])
    rw [hdrop, unpackFloats_bytes hs.floats]
  have hframe : unpackI32 ((s.core.drop 5).take 4) = s.frame := by
    have htake : (s.core.drop 5).take 4 = le 4 (s.frame % 2 ^ 32).toNat := by
      rfl
    rw [htake, unpackI32_le hs.frame.1 hs.frame.2]
  have hflags : (s.core.drop 4).headD 0 = UInt8.ofNat s.flags := rfl
  obtain ⟨hpersp, hhold, hcamera⟩ := s.flags_and
  have hmatrix : (Vector.ofFn fun i : Fin 16 => s.floats[3 + i.val]) = s.viewMatrix := by
    ext i hi
    rw [Vector.getElem_ofFn, getElem_floats, dif_pos (by omega), dif_neg (by omega)]
    simp
  unfold unpackState
  simp only [hvals, hframe, hflags, hpersp, hhold, hcamera, hmatrix]
  simp [getElem_floats]

/-- The part without the probe is what was packed for the view. -/
theorem hotCore_core (hs : s.Fits) (probe : List UInt8) : hotCore (s.core ++ probe) = s.core :=
  List.take_left' (length_core hs)

/-- The two have the same but for the stamp. -/
def SameView (s s' : HotState) : Prop :=
  s' = { s with tHost := s'.tHost, probeSeq := s'.probeSeq }

/-- The bytes of a view tell it from every other. -/
private theorem core_eq_iff (hs : s.Fits) (hs' : s'.Fits) : s.core = s'.core ↔ s.SameView s' := by
  constructor
  · intro h
    have hview := unpackState_core hs s'.tHost s'.probeSeq
    rw [h, unpackState_core hs'] at hview
    exact hview
  · intro h
    rw [h]
    rfl

/-- The bytes of the stamp, if there is one. -/
def probe (s : HotState) : List UInt8 :=
  if s.tHost.IsZero then [] else packF64 s.tHost ++ le 4 s.probeSeq.toNat

/-- The packet is the view, with the probe behind it where there is one. -/
private theorem pack_eq (hs : s.Fits) : s.pack = some (s.core ++ s.probe) := by
  have hprobe : s.packProbe = some s.probe := by
    unfold packProbe probe
    split
    · rfl
    · rename_i hzero
      rw [packU32, if_pos (hs.stamp hzero)]
      rfl
  rw [pack, packCore_eq hs, hprobe]
  rfl

/-- What is left of the stamp: the counter is sent with a clock alone, and zero comes without a
    sign. -/
def received (s : HotState) : HotState :=
  if s.tHost.IsZero then { s with tHost := .zero, probeSeq := 0 } else s

/-- What follows the magic is read back whatever comes behind it. -/
theorem unpackMagic_core (hs : s.Fits) (probe : List UInt8) (tHost : Binary64) (probeSeq : Int) :
    unpackHot.unpackMagic (s.core ++ probe) tHost probeSeq =
      some { s with tHost, probeSeq } := by
  have htake : (s.core ++ probe).take hotSize = s.core := hotCore_core hs probe
  have hmagic : s.core.take 4 = hotMagic := rfl
  unfold unpackHot.unpackMagic
  dsimp only
  rw [htake, if_neg (not_not_intro hmagic), unpackState_core hs]

/-- A packet is read back, with its probe if it has one. -/
theorem unpackHot_pack (hs : s.Fits) : unpackHot (s.core ++ s.probe) = some s.received := by
  have hdrop : (s.core ++ s.probe).drop hotSize = s.probe := List.drop_left' (length_core hs)
  unfold unpackHot
  simp only [unpackMagic_core hs, hdrop, List.length_append, length_core hs]
  unfold received
  by_cases hzero : s.tHost.IsZero
  · have hprobe : s.probe = [] := if_pos hzero
    rw [hprobe, if_neg (by decide), if_neg (by decide), if_pos hzero]
  · have hprobe : s.probe = packF64 s.tHost ++ le 4 s.probeSeq.toNat := if_neg hzero
    obtain ⟨hlow, hhigh⟩ := hs.stamp hzero
    rw [hprobe, if_pos (by simp [packF64, hotProbeSize]), if_neg hzero]
    rw [List.take_left' (by simp [packF64]), List.drop_left' (by simp [packF64]),
      unpackF64_packF64, ofLe_le_of_lt (by omega), Int.toNat_of_nonneg hlow]

end HotState

/-- Bytes of another length, or with another magic, are no packet. -/
private theorem unpackHot_eq_none {data : List UInt8}
    (h : data.length ≠ hotSize ∧ data.length ≠ hotSize + hotProbeSize ∨
      data.take 4 ≠ hotMagic) : unpackHot data = none := by
  have hmagic (hlength : data.take 4 ≠ hotMagic) (tHost : Binary64) (probeSeq : Int) :
      unpackHot.unpackMagic data tHost probeSeq = none := by
    have htake : (data.take hotSize).take 4 = data.take 4 := List.take_take
    unfold unpackHot.unpackMagic
    dsimp only
    rw [htake, if_pos hlength]
  unfold unpackHot
  rcases h with ⟨hshort, hlong⟩ | h
  · rw [if_neg hlong, if_pos hshort]
  · split
    · exact hmagic h _ _
    · split
      · rfl
      · exact hmagic h _ _

/-! ## Equal states -/

namespace HotState

/-- `==` of the fields but for those of the stamp. -/
structure EqualView (s s' : HotState) : Prop where
  frame : s.frame = s'.frame
  viewMatrix : ∀ i : Fin 16, s.viewMatrix[i].Equal s'.viewMatrix[i]
  lens : s.lens.Equal s'.lens
  clipStart : s.clipStart.Equal s'.clipStart
  clipEnd : s.clipEnd.Equal s'.clipEnd
  flags : s.isPersp = s'.isPersp ∧ s.hold = s'.hold ∧ s.camera = s'.camera
  camZoom : s.camZoom.Equal s'.camZoom
  camOffset : s.camOffset.1.Equal s'.camOffset.1 ∧ s.camOffset.2.Equal s'.camOffset.2

/-- `==`, as a `dataclass` has it. -/
structure Equal (s s' : HotState) : Prop extends EqualView s s' where
  tHost : s.tHost.Equal s'.tHost
  probeSeq : s.probeSeq = s'.probeSeq

variable {s : HotState}

/-- The floats of a view, in the order of the packet. -/
theorem toList_floats (s : HotState) :
    s.floats.toList = [s.lens, s.clipStart, s.clipEnd] ++ s.viewMatrix.toList ++
      [s.camZoom, s.camOffset.1, s.camOffset.2] := by
  refine Vector.toList_append.trans ?_
  rw [Vector.toList_append]
  rfl

/-- A view is equal to itself, as it has no NaN in it. -/
theorem EqualView.refl (h : ∀ x ∈ s.floats.toList, x.Is32) : s.EqualView s := by
  have hself : ∀ x ∈ s.floats.toList, x.Equal x := fun x hx => .refl (h x hx).not_isNaN
  rw [toList_floats] at hself
  exact {
    frame := rfl
    viewMatrix := fun i => hself _ (by simp)
    lens := hself _ (by simp)
    clipStart := hself _ (by simp)
    clipEnd := hself _ (by simp)
    flags := ⟨rfl, rfl, rfl⟩
    camZoom := hself _ (by simp)
    camOffset := ⟨hself _ (by simp), hself _ (by simp)⟩ }

/-- What was received equals what was sent, with a stamp or without. -/
private theorem received_equal (hs : s.Fits) (hstamp : s.probeSeq = 0 ∨ ¬ s.tHost.IsZero) :
    s.received.Equal s := by
  have hview : s.EqualView s := .refl hs.floats
  unfold received
  split
  · rename_i hzero
    have hseq : s.probeSeq = 0 := hstamp.resolve_right (not_not_intro hzero)
    exact ⟨{ hview with }, ⟨Nat.not_lt_zero _, hs.clock, .inr ⟨rfl, hzero⟩⟩, hseq.symm⟩
  · exact ⟨hview, .refl hs.clock, rfl⟩

end HotState

/-- A packet gives its state back, if the counter has a clock or is not needed. Two packets have
    one core exactly if their states are the same but for the stamp, bit by bit. What has another
    length or another magic is no packet. -/
theorem hotPacket (s s' : HotState) (hs : s.Fits) (hs' : s'.Fits) :
    (∃ d d', s.pack = some d ∧ s'.pack = some d' ∧
      (s.probeSeq = 0 ∨ ¬ s.tHost.IsZero → ∃ r, unpackHot d = some r ∧ r.Equal s) ∧
      (hotCore d = hotCore d' ↔ s.SameView s')) ∧
    ∀ data, data.length ≠ hotSize ∧ data.length ≠ hotSize + hotProbeSize ∨
      data.take 4 ≠ hotMagic → unpackHot data = none := by
  refine ⟨⟨_, _, HotState.pack_eq hs, HotState.pack_eq hs', fun hstamp => ?_, ?_⟩,
    fun data => unpackHot_eq_none⟩
  · exact ⟨_, HotState.unpackHot_pack hs, HotState.received_equal hs hstamp⟩
  · rw [HotState.hotCore_core hs, HotState.hotCore_core hs', HotState.core_eq_iff hs hs']

/-! ## Two states -/

/-- Nothing is turned or shifted. -/
private def still : HotState where
  frame := 1
  viewMatrix := .replicate 16 .zero
  lens := .zero
  clipStart := .zero
  clipEnd := .zero

private def floatOne : Binary64 := ⟨false, 1023 * 2 ^ 52, by decide⟩

private def floatFifty : Binary64 := ⟨false, 1028 * 2 ^ 52 + 9 * 2 ^ 48, by decide⟩

/-- The same at one second. -/
private def atOne (probeSeq : Int) : HotState := { still with tHost := floatOne, probeSeq }

/-- The same, with a sign on a zero. -/
private def negated : HotState := { still with lens := ⟨true, 0, by decide⟩ }

/-- Zeroes of either sign fit 32 bits. -/
theorem is32_of_isZero {x : Binary64} (h : x.IsZero) : x.Is32 := by
  obtain ⟨negative, magnitude, hlt⟩ := x
  obtain rfl : magnitude = 0 := h
  exact ⟨⟨negative, 0, by decide⟩, Nat.not_lt_zero _, rfl⟩

/-- So a view of zeroes does. -/
private theorem floats_of_isZero {s : HotState}
    (h : ∀ x ∈ [s.lens, s.clipStart, s.clipEnd] ++ s.viewMatrix.toList ++
      [s.camZoom, s.camOffset.1, s.camOffset.2], x.IsZero) : ∀ x ∈ s.floats.toList, x.Is32 := by
  intro x hx
  rw [HotState.toList_floats] at hx
  exact is32_of_isZero (h x hx)

/-- The view that stands still is one. -/
private theorem still_floats : ∀ x ∈ still.floats.toList, x.Is32 := floats_of_isZero (by decide)

/-- Its frame fits too. -/
private theorem still_fits : still.Fits where
  floats := still_floats
  clock := by decide
  frame := by decide
  stamp h := absurd rfl h

/-- And its stamp. -/
private theorem atOne_fits : (atOne 7).Fits where
  floats := still_floats
  clock := by decide
  frame := by decide
  stamp _ := by decide

/-- A view that is not turned, through a lens of 50 mm. -/
private def levelView (tHost : Binary64) (probeSeq : Int) : HotState :=
  { still with
    viewMatrix := .ofFn fun i => if i.val % 5 = 0 then floatOne else .zero
    lens := floatFifty, tHost, probeSeq }

/-- The numbers of the view that is not turned fit 32 bits. -/
private theorem levelView_floats (tHost : Binary64) (probeSeq : Int) :
    ∀ x ∈ (levelView tHost probeSeq).floats.toList, x.Is32 := by
  -- the stamp is not among them
  have hvalues : ∀ x ∈ (levelView .zero 0).floats.toList,
      x.IsZero ∨ x = floatOne ∨ x = floatFifty := by
    rw [HotState.toList_floats]
    decide
  intro x hx
  rcases hvalues x hx with hzero | rfl | rfl
  · exact is32_of_isZero hzero
  · exact ⟨⟨false, 127 * 2 ^ 23, by decide⟩, by decide, by decide⟩
  · exact ⟨⟨false, 132 * 2 ^ 23 + 9 * 2 ^ 19, by decide⟩, by decide, by decide⟩

/-- With a stamp and without. -/
theorem hotPacket_atOne :
    ∃ d d', (levelView floatOne 7).pack = some d ∧ (levelView .zero 0).pack = some d' ∧
      (∃ r, unpackHot d = some r ∧ r.Equal (levelView floatOne 7)) ∧ hotCore d = hotCore d' := by
  have hstamped : (levelView floatOne 7).Fits :=
    ⟨levelView_floats floatOne 7, by decide, by decide, fun _ => by decide⟩
  have hplain : (levelView .zero 0).Fits :=
    ⟨levelView_floats .zero 0, by decide, by decide, fun h => absurd rfl h⟩
  obtain ⟨⟨d, d', hd, hd', hback, hcore⟩, -⟩ :=
    hotPacket (levelView floatOne 7) (levelView .zero 0) hstamped hplain
  exact ⟨d, d', hd, hd', hback (.inr (by decide)), hcore.mpr rfl⟩

/-- A counter may be too large for its place, and two equal states may differ in the sign of a
    zero. -/
theorem hotPacket_counterexample :
    ¬ (∀ s : HotState, (∀ x ∈ s.floats.toList, x.Is32) → s.tHost.Is32 →
        -2 ^ 31 ≤ s.frame ∧ s.frame < 2 ^ 31 → s.probeSeq = 0 ∨ ¬ s.tHost.IsZero →
        ∃ d r, s.pack = some d ∧ unpackHot d = some r ∧ r.Equal s) ∧
      ¬ (∀ s s' : HotState, s.Fits → s'.Fits → ∀ d d', s.pack = some d → s'.pack = some d' →
        (hotCore d = hotCore d' ↔ s.EqualView s')) := by
  constructor
  · -- `struct.error`
    intro h
    have hclock : (atOne (2 ^ 32)).tHost.Is32 :=
      ⟨⟨false, 127 * 2 ^ 23, by decide⟩, by decide, by decide +kernel⟩
    obtain ⟨d, r, hpack, -⟩ := h (atOne (2 ^ 32)) still_floats hclock (by decide) (.inr (by decide))
    have hprobe : (atOne (2 ^ 32)).packProbe = none := rfl
    rw [HotState.pack, hprobe] at hpack
    cases hcore : (atOne (2 ^ 32)).packCore <;> rw [hcore] at hpack <;> cases hpack
  · intro h
    have hfits : negated.Fits :=
      ⟨floats_of_isZero (by decide), by decide, by decide, fun h => absurd rfl h⟩
    have hequal : still.EqualView negated :=
      { HotState.EqualView.refl still_floats with
        lens := by decide }
    have hcore := (h still negated still_fits hfits _ _ (HotState.pack_eq still_fits)
      (HotState.pack_eq hfits)).mpr hequal
    rw [HotState.hotCore_core still_fits, HotState.hotCore_core hfits,
      HotState.core_eq_iff still_fits hfits] at hcore
    exact absurd (congrArg HotState.lens hcore) (by decide)

end QCBridge
