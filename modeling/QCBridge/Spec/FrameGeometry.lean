import QCBridge.Ring0.Engine
import QCBridge.Spec.FrameRing

/-!
# Frames that the helper takes

Every size that the engine comes to is even and not too small, the stores of a frame and of its
probe strip are within its rows, and the rows within the slot. A ring that is made anew for a
frame takes it: the width of the second try is four thirds of the height and two, so that three
quarters of it are the height again.

## Key results

- `Engine.size_even`: every size that is published
- `pixelStores_lt`: every store is within the rows
- `Engine.regrow_fits`: the new ring takes the frame
- `Engine.frames_agree`: the three together
-/

namespace QCBridge

/-! ## Sizes -/

/-- A size that the helpers take. -/
structure EvenSize (w h : Int) : Prop where
  width : 16 ≤ w
  height : 16 ≤ h
  width_even : w % 2 = 0
  height_even : h % 2 = 0

private theorem evenFloor_even (n : Int) : evenFloor n % 2 = 0 := by
  unfold evenFloor
  omega

private theorem clampRect_even {rect viewport r : Rect} (h : clampRect rect viewport = some r) :
    EvenSize r.w r.h := by
  unfold clampRect at h
  dsimp only at h
  rw [Option.ite_none_left_eq_some, not_or, Int.not_lt, Int.not_lt] at h
  obtain ⟨⟨hw, hh⟩, hr⟩ := h
  cases hr
  exact ⟨hw, hh, evenFloor_even _, evenFloor_even _⟩

/-- The camera's frame or the viewport, whichever is read. -/
private theorem getD_even {clamped : Option Rect} (h : ∀ r, clamped = some r → EvenSize r.w r.h)
    (viewport : Rect) :
    (clamped.getD ⟨viewport.x, viewport.y, evenFloor viewport.w, evenFloor viewport.h⟩).w % 2 =
        0 ∧
      (clamped.getD ⟨viewport.x, viewport.y, evenFloor viewport.w, evenFloor viewport.h⟩).h % 2 =
        0 := by
  cases clamped with
  | none => exact ⟨evenFloor_even _, evenFloor_even _⟩
  | some r => exact ⟨(h r rfl).width_even, (h r rfl).height_even⟩

private theorem readRect_even {shotMode : Bool} {camera : Option Rect} {viewport r : Rect}
    (h : readRect shotMode camera viewport = some r) : EvenSize r.w r.h := by
  have hclamped : ∀ r', (if shotMode then camera.bind (clampRect · viewport) else none) = some r' →
      EvenSize r'.w r'.h := by
    intro r' hr'
    split at hr'
    · obtain ⟨rect, -, hrect⟩ := Option.bind_eq_some_iff.mp hr'
      exact clampRect_even hrect
    · cases hr'
  obtain ⟨hw, hh⟩ := getD_even hclamped viewport
  unfold readRect at h
  dsimp only at h
  rw [Option.ite_none_left_eq_some, not_or, Int.not_lt, Int.not_lt] at h
  obtain ⟨hlarge, hr⟩ := h
  obtain rfl := Option.some.inj hr
  exact ⟨hlarge.1, hlarge.2, hw, hh⟩

private theorem offscreenSize_even {m : Measure} {streamWidth regionW regionH w h : Int}
    {ofCamera : Bool} (hsize : offscreenSize m streamWidth ofCamera regionW regionH =
      some (w, h)) : EvenSize w h := by
  unfold offscreenSize at hsize
  rw [Option.ite_none_left_eq_some] at hsize
  obtain ⟨-, hsize⟩ := hsize
  dsimp only at hsize
  rw [Option.ite_none_left_eq_some, not_or, Int.not_lt, Int.not_lt] at hsize
  obtain ⟨hlarge, hsize⟩ := hsize
  obtain ⟨rfl, rfl⟩ := Prod.mk.inj (Option.some.inj hsize)
  refine ⟨hlarge.1, hlarge.2, ?_, ?_⟩
  · split_ifs <;> exact evenFloor_even _
  · split_ifs <;> exact evenFloor_even _

theorem Engine.size_even {e : Engine} {d : Draw} {w h : Int} (hsize : e.size d = some (w, h)) :
    EvenSize w h := by
  cases d with
  | framebuffer shotMode camera viewport =>
    obtain ⟨r, hr, heq⟩ := Option.map_eq_some_iff.mp hsize
    cases heq
    exact readRect_even hr
  | offscreen m ofCamera regionW regionH => exact offscreenSize_even hsize

/-! ## Stores -/

private theorem le_bytesPerRow (w : Nat) : w * 16 ≤ bytesPerRow w := le_roundUp _ (by decide)

/-- A float of a pixel of the picture is within its rows. -/
private theorem float_lt {w h y x c : Nat} (hy : y < h) (hx : x < w) (hc : c < 4) :
    y * bytesPerRow w + (x * 4 + c) * 4 + 4 ≤ bytesPerRow w * h := by
  have hrow := le_bytesPerRow w
  calc y * bytesPerRow w + (x * 4 + c) * 4 + 4
      ≤ y * bytesPerRow w + bytesPerRow w := by omega
    _ = bytesPerRow w * (y + 1) := by rw [Nat.mul_succ, Nat.mul_comm]
    _ ≤ bytesPerRow w * h := Nat.mul_le_mul_left _ hy

private theorem lt_of_mem_sliceRange {n lo hi i : Nat} (h : i ∈ sliceRange n lo hi) : i < n := by
  unfold sliceRange at h
  rw [List.mem_range'_1] at h
  omega

/-- A slice ends where the picture does. -/
private theorem fillRect_lt {w h : Nat} {rows cols : Nat × Nat} {value : Nat} {s : Nat × Nat}
    (hs : s ∈ fillRect w h rows cols value) : s.1 + 4 ≤ bytesPerRow w * h := by
  unfold fillRect at hs
  obtain ⟨y, hy, hs⟩ := List.mem_flatMap.mp hs
  obtain ⟨x, hx, hs⟩ := List.mem_flatMap.mp hs
  obtain ⟨c, hc, rfl⟩ := List.mem_map.mp hs
  have hc : c < 3 := List.mem_range.mp hc
  exact float_lt (lt_of_mem_sliceRange hy) (lt_of_mem_sliceRange hx) (by omega)

private theorem stamp_lt {w h : Nat} {bits : List Bool} {s : Nat × Nat} (hs : s ∈ stamp w h bits) :
    s.1 + 4 ≤ bytesPerRow w * h := by
  unfold stamp at hs
  dsimp only at hs
  split at hs
  · cases hs
  · rcases List.mem_append.mp hs with hs | hs
    · exact fillRect_lt hs
    · obtain ⟨b, -, hs⟩ := List.mem_flatMap.mp hs
      split at hs
      · exact fillRect_lt hs
      · cases hs

/-- Every store of a frame is within its rows. -/
theorem pixelStores_lt {p : Picture} {probe : Option (Nat × Nat)} {s : Nat × Nat}
    (hs : s ∈ pixelStores p probe) : s.1 + 4 ≤ bytesPerRow p.w * p.h := by
  unfold pixelStores at hs
  rcases List.mem_append.mp hs with hs | hs
  · obtain ⟨y, hy, hs⟩ := List.mem_flatMap.mp hs
    obtain ⟨i, hi, rfl⟩ := List.mem_map.mp hs
    have hy : y < p.h := List.mem_range.mp hy
    have hi : i < p.w * 4 := List.mem_range.mp hi
    have hfloat := float_lt (c := i % 4) hy (x := i / 4) (w := p.w) (by omega)
      (Nat.mod_lt _ (by decide))
    rwa [Nat.div_add_mod'] at hfloat
  · cases probe with
    | none => cases hs
    | some t => exact stamp_lt hs

/-! ## The block -/

/-- The rows of a frame that fits end before the slot does, and the slot before the block. -/
private theorem Layout.slot_in {l : Layout} {slot w h : Nat}
    (hstride : l.slotStride = page + l.pixelsCapacity)
    (hslot : slot < l.slotCount) (hfits : l.fits w h) :
    l.pixelsAt slot + bytesPerRow w * h ≤ l.slotOffset slot + l.slotStride ∧
      l.slotOffset slot + l.slotStride ≤ l.totalSize := by
  have hrows : bytesPerRow w * h ≤ l.pixelsCapacity := by simpa [Layout.fits] using hfits
  have hblock : (slot + 1) * l.slotStride ≤ l.slotCount * l.slotStride :=
    Nat.mul_le_mul_right _ hslot
  unfold Layout.pixelsAt Layout.slotOffset Layout.totalSize
  rw [Nat.succ_mul] at hblock
  omega

/-! ## A larger ring -/

private theorem heightCap_ge (width : Nat) :
    width * 3 / 4 ≤ heightCap width := le_roundUp _ (by decide)

private theorem capacityFor_ge (width height : Nat) :
    bytesPerRow width * height ≤ capacityFor width height := le_roundUp _ (by decide)

/-- A ring takes what is no wider, and no taller than its cap. -/
private theorem FrameRing.fits_of_le {r : FrameRing} {w h : Nat} (hw : w ≤ r.width)
    (hh : h ≤ heightCap r.width) : r.fits w h := by
  unfold FrameRing.fits Layout.fits
  rw [decide_eq_true_eq]
  calc bytesPerRow w * h
      ≤ bytesPerRow r.width * heightCap r.width :=
        Nat.mul_le_mul (roundUp_mono _ (Nat.mul_le_mul_right 16 hw)) hh
    _ ≤ capacityFor r.width (heightCap r.width) := capacityFor_ge _ _

/-- A block has a size that the system can name, so its width is far below 2^52. -/
private theorem FrameRing.of_create {alloc : Nat → Bool} {width : Nat} {r : FrameRing}
    (h : FrameRing.create alloc width = some r) : r.width = width ∧ width < 2 ^ 52 := by
  unfold create at h
  dsimp only at h
  rw [Option.ite_none_right_eq_some] at h
  obtain ⟨⟨hsize, -⟩, hr⟩ := h
  obtain rfl := Option.some.inj hr
  refine ⟨rfl, ?_⟩
  -- a wider one would need more than can be named
  by_contra hlarge
  rw [not_lt] at hlarge
  -- the rows of such a frame, and how many of them the ring has room for
  have hrow : 2 ^ 56 ≤ bytesPerRow width := by
    have := le_bytesPerRow width
    omega
  have hcap : 2 ^ 51 ≤ heightCap width := by
    have := heightCap_ge width
    omega
  -- so the pixels of one slot alone
  have hpixels : 2 ^ 56 * 2 ^ 51 ≤ capacityFor width (heightCap width) :=
    le_trans (Nat.mul_le_mul hrow hcap) (capacityFor_ge _ _)
  have htotal : capacityFor width (heightCap width) ≤ (layoutFor width).totalSize := by
    unfold Layout.totalSize layoutFor defaultSlots
    simp only [Option.getD_none]
    omega
  -- which the size was checked against
  have hcontra : 2 ^ 56 * 2 ^ 51 < 2 ^ 63 :=
    lt_of_le_of_lt (le_trans hpixels htotal) hsize
  exact absurd hcontra (by decide)

private theorem le_roundHalfEven (n d : Nat) : n / d ≤ roundHalfEven n d := by
  unfold roundHalfEven
  dsimp only
  split_ifs <;> omega

/-- A quotient that is not small is not small as a double. -/
private theorem fourThirds_eq {h : Nat} (hsmall : fourThirds h < 2 ^ 52) :
    fourThirds h = h * 4 / 3 := by
  unfold fourThirds at hsmall ⊢
  dsimp only at hsmall ⊢
  split at hsmall
  next hq => rw [if_pos hq]
  next hq =>
    exfalso
    set q := h * 4 / 3
    have hne : q ≠ 0 := by omega
    have hlog : 52 ≤ q.log2 := (Nat.le_log2 hne).mpr (not_lt.mp hq)
    have hpow : 2 ^ q.log2 = 2 ^ 52 * 2 ^ (q.log2 - 52) := by
      rw [← Nat.pow_add, Nat.add_sub_cancel' hlog]
    -- the unit goes into the quotient 2^52 times
    have htimes : 2 ^ 52 ≤ h * 4 / (3 * 2 ^ (q.log2 - 52)) := by
      rw [← Nat.div_div_eq_div_mul, Nat.le_div_iff_mul_le (Nat.two_pow_pos _), ← hpow]
      exact Nat.log2_self_le hne
    have hround := le_trans htimes (le_roundHalfEven (h * 4) (3 * 2 ^ (q.log2 - 52)))
    have hunit := Nat.le_mul_of_pos_right
      (roundHalfEven (h * 4) (3 * 2 ^ (q.log2 - 52))) (Nat.two_pow_pos (q.log2 - 52))
    omega

namespace Engine

variable {alloc : Nat → Bool} {e : Engine}

/-- The new ring takes the frame, unless no ring can be made. -/
theorem regrow_fits (alloc : Nat → Bool) (e : Engine) (w h : Nat) :
    (∃ r, (e.regrow alloc w h).ring = some r ∧ r.fits w h) ∨
      e.regrow alloc w h = e ∧ (FrameRing.create alloc (max e.width w) = none ∨
        FrameRing.create alloc (max w (fourThirds h + 2)) = none) := by
  unfold regrow
  cases hfirst : FrameRing.create alloc (max e.width w) with
  | none => exact Or.inr ⟨rfl, Or.inl rfl⟩
  | some r =>
    dsimp only
    by_cases hfits : r.fits w h
    · rw [if_pos hfits]
      exact Or.inl ⟨r, rfl, hfits⟩
    · rw [if_neg hfits]
      cases hsecond : FrameRing.create alloc (max w (fourThirds h + 2)) with
      | none => exact Or.inr ⟨rfl, Or.inr rfl⟩
      | some r' =>
        obtain ⟨hwidth, hlt⟩ := FrameRing.of_create hsecond
        have hthirds := fourThirds_eq (h := h) (by omega)
        refine Or.inl ⟨r', rfl, FrameRing.fits_of_le (by omega) ?_⟩
        have hcap := heightCap_ge r'.width
        omega

/-- What is published was published into the ring, and fits it. -/
private theorem of_publish {p : Picture} {probe : Option (Nat × Nat)} {e' : Engine} {r : FrameRing}
    {f : Frame} (h : e.publish alloc p probe = (e', some (r, f))) :
    e'.ring = some r ∧ r.publish p probe = some f := by
  unfold publish at h
  split at h
  · cases h
  · dsimp only at h
    split at h
    · cases h
    next r' hring =>
      obtain ⟨rfl, hframe⟩ := Prod.mk.inj h
      obtain ⟨f', hf', heq⟩ := Option.map_eq_some_iff.mp hframe
      cases heq
      exact ⟨hring, hf'⟩

end Engine

/-- The stores of a frame, and what its descriptor says. -/
private theorem FrameRing.of_publish {r : FrameRing} {p : Picture} {probe : Option (Nat × Nat)}
    {f : Frame} (h : r.publish p probe = some f) :
    r.fits p.w p.h ∧ f.pixels = pixelStores p probe ∧ f.desc .w = p.w ∧ f.desc .h = p.h ∧
      f.desc .bytesPerRow = bytesPerRow p.w ∧ f.desc .pixelFormat = pfRgba32f ∧
      ∀ d, f.desc d < 2 ^ 32 := by
  unfold publish at h
  rw [Option.ite_none_left_eq_some, Option.ite_none_left_eq_some] at h
  obtain ⟨hfits, hfields, hf⟩ := h
  obtain rfl := Option.some.inj hf
  refine ⟨by simpa using hfits, rfl, rfl, rfl, rfl, rfl, fun d => ?_⟩
  cases d with
  | w => show p.w < _; omega
  | h => show p.h < _; omega
  | bytesPerRow => show bytesPerRow p.w < _; omega
  | pixelFormat => show pfRgba32f < _; decide

/-- The helpers take every frame that the engine publishes, whatever the viewport, the camera's
    frame, the region, the aspect and the width of the stream; its stores are in its slot, and
    the slot is in the block. A ring that is made anew for a frame takes it. -/
theorem Engine.frames_agree (alloc : Nat → Bool) (e : Engine) :
    (∀ (d : Draw) (value : Nat → Nat → Nat) (probe : Option (Nat × Nat)) (e' : Engine)
      (r : FrameRing) (f : Frame), e.draw alloc d value probe = (e', some (r, f)) →
        e'.ring = some r ∧ descOk r.layout.pixelsCapacity f.desc ∧ (∀ d, f.desc d < 2 ^ 32) ∧
        ∀ (lastSlot : Option Nat) (readerClaim : Nat), ∀ s ∈ f.pixels,
          let slot := nextSlot lastSlot readerClaim r.layout.slotCount
          slot < r.layout.slotCount ∧
            r.layout.slotOffset slot + page ≤ r.layout.pixelsAt slot + s.1 ∧
            r.layout.pixelsAt slot + s.1 + 4 ≤
              r.layout.slotOffset slot + r.layout.slotStride ∧
            r.layout.slotOffset slot + r.layout.slotStride ≤ r.layout.totalSize) ∧
      ∀ w h : Nat, (∃ r, (e.regrow alloc w h).ring = some r ∧ r.fits w h) ∨
        e.regrow alloc w h = e ∧ (FrameRing.create alloc (max e.width w) = none ∨
          FrameRing.create alloc (max w (fourThirds h + 2)) = none) := by
  -- the first part is of a draw, the second of a new ring
  refine ⟨fun d value probe e' r f hdraw => ?_, fun w h => regrow_fits alloc e w h⟩
  unfold draw at hdraw
  split at hdraw
  · cases hdraw
  next w h hsize =>
    have heven := size_even hsize
    obtain ⟨hring, hpublish⟩ := of_publish hdraw
    obtain ⟨hfits, hpixels, hw, hh, hrow, hformat, hfields⟩ := FrameRing.of_publish hpublish
    refine ⟨hring, ?_, hfields, fun lastSlot readerClaim s hs => ?_⟩
    · -- the fields are those that the reader checks
      have hrows : bytesPerRow w.toNat * h.toNat ≤ r.layout.pixelsCapacity := by
        simpa [FrameRing.fits, Layout.fits] using hfits
      obtain ⟨hw16, hh16, hw2, hh2⟩ := heven
      unfold descOk
      rw [hw, hh, hrow, hformat]
      simp only [Bool.and_eq_true, beq_iff_eq, decide_eq_true_eq]
      exact ⟨⟨⟨⟨⟨trivial, by omega⟩, by omega⟩, by omega⟩, by omega⟩, hrows⟩
    · -- every store is in its slot, and the slot in the block
      rw [hpixels] at hs
      have hstore := pixelStores_lt hs
      have hslot := nextSlot_lt (n := r.layout.slotCount) (le_refl 3) lastSlot readerClaim
      obtain ⟨hin, hblock⟩ := Layout.slot_in (l := r.layout) rfl hslot hfits
      refine ⟨hslot, Nat.le_add_right _ _, ?_, hblock⟩
      exact le_trans (by omega) hin

end QCBridge
