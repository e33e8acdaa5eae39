import QCBridge.Spec.AccessUnits
import QCBridge.Agent.EncodeWin

/-!
# The access units that the helper writes

What `emit` puts in front are whole NAL units, so the units of what it writes are those it puts
in front and then those of the encoder. With a delimiter of its own that is the shape that the
agent expects. Where the encoder has written one, the parameter sets come to stand before it.

## Key results

- `nals_append`: a NAL unit in front of others
- `EncodeWin.ParamCache`: what the helper knows of parameter sets
- `EncodeWin.emit_shaped_iff`: which encoder outputs become access units
-/

namespace QCBridge

variable {au p data b : Bytes} {start sc i k : Nat}

/-! ## The units, as bytes -/

/-- The bytes from a header to its stop. -/
def slice (au : Bytes) (hdr stop : Nat) : Option Bytes :=
  if hdr < stop then some ((au.take stop).drop hdr) else none

/-- The bytes from each header to the next start code. -/
def cutAt (au : Bytes) (starts : List (Nat × Nat)) (len : Nat) : List Bytes :=
  (withStops starts len).filterMap fun x => slice au x.1.2 x.2

/-- The NAL units, without their start codes. -/
def nals (au : Bytes) : List Bytes := cutAt au (startCodes au 0) au.length

/-- The type of a NAL unit. -/
def nalHead (n : Bytes) : UInt8 := nalType (n.headD 0)

/-- The units by their bytes are the units by their places. -/
private theorem nals_eq_map (au : Bytes) :
    nals au = (nalUnits au).map fun u => (au.take u.stop).drop u.hdr := by
  unfold nals cutAt slice nalUnits
  rw [List.map_filterMap]
  congr 1
  funext x
  split <;> rfl

/-- The type is in the first byte behind the start code. -/
private theorem nalHead_slice {hdr stop : Nat} (h : hdr < stop) :
    nalHead ((au.take stop).drop hdr) = nalType (au.getD hdr 0) := by
  unfold nalHead
  rw [List.headD_eq_head?_getD, List.head?_drop, List.getElem?_take_of_lt h,
    List.getD_eq_getElem?_getD]

/-- What some unit's type is, by its bytes or by its place. -/
private theorem exists_nal_iff {P : UInt8 → Prop} :
    (∃ n ∈ nals au, P (nalHead n)) ↔ ∃ u ∈ nalUnits au, P (typeOf au u) := by
  have hhead : ∀ u ∈ nalUnits au, nalHead ((au.take u.stop).drop u.hdr) = typeOf au u := by
    intro u hu
    obtain ⟨sc, hunit⟩ := unitAt_of_mem hu
    exact nalHead_slice hunit.lt
  rw [nals_eq_map]
  simp only [List.mem_map, exists_exists_and_eq_and]
  exact exists_congr fun u => and_congr_right fun hu => by rw [hhead u hu]

/-- So a parameter set is there exactly if one of the units by their bytes is one. -/
private theorem holds_iff_nal {i : Fin 3} :
    Holds i au ↔ ∃ n ∈ nals au, paramIndex (nalHead n) = some i :=
  (exists_nal_iff (P := fun t => paramIndex t = some i)).symm

/-! ## Start codes behind other bytes -/

/-- The bytes begin with a start code. -/
def StartsWithCode (b : Bytes) : Prop :=
  StartCodeAt b 0 ∨ b[0]? = some 0 ∧ StartCodeAt b 1

instance (b : Bytes) : Decidable (StartsWithCode b) := inferInstanceAs (Decidable (_ ∨ _))

/-- From where the search starts matters only for the start codes in between. -/
private theorem startCodes_congr {start' : Nat}
    (h : ∀ k, StartCodeAt au k → (start ≤ k ↔ start' ≤ k)) :
    startCodes au start = startCodes au start' := by
  have hfind := findStartCode_congr h
  cases hres : findStartCode au start with
  | none => exact (startCodes_eq_nil hres).trans (startCodes_eq_nil (hfind ▸ hres)).symm
  | some sc => exact (startCodes_eq_cons hres).trans (startCodes_eq_cons (hfind ▸ hres)).symm

/-- A start code moves on with the bytes put in front. -/
private theorem startCodeAt_append_right (x : Bytes) :
    StartCodeAt (x ++ b) (x.length + i) ↔ StartCodeAt b i := by
  rw [← startCodeAt_drop, List.drop_left]

/-- The first one from some place on, too. -/
theorem FirstStartCode.append_left (h : FirstStartCode b start sc) (x : Bytes) :
    FirstStartCode (x ++ b) (x.length + start) (x.length + sc) where
  le := Nat.add_le_add_left h.le _
  found := (startCodeAt_append_right x).mpr h.found
  first j hle hlt hj := by
    obtain ⟨j, rfl⟩ := Nat.exists_eq_add_of_le (Nat.le_trans (Nat.le_add_right _ _) hle)
    exact h.first j (by omega) (by omega) ((startCodeAt_append_right x).mp hj)

/-- A start code, moved on. -/
def moved (n : Nat) (x : Nat × Nat) : Nat × Nat := (n + x.1, n + x.2)

/-- And all of them. A search from the very beginning is another matter: there the bytes in front
    may end with a zero. -/
private theorem startCodes_append_left (x : Bytes) (h : 0 < start) :
    startCodes (x ++ b) (x.length + start) = (startCodes b start).map (moved x.length) := by
  induction start using startCodes.induct b with
  | case1 start sc hres ih =>
    have hfirst := findStartCode_eq_some.mp hres
    have hsc : 0 < sc := Nat.lt_of_lt_of_le h hfirst.le
    rw [startCodes_eq_cons hres,
      startCodes_eq_cons (findStartCode_eq_some.mpr (hfirst.append_left x)), List.map_cons,
      Nat.add_assoc, ih (by omega), beginOf_append_left x hsc]
    rfl
  | case2 start hres =>
    rw [startCodes_eq_nil hres, startCodes_eq_nil]
    · rfl
    · rw [findStartCode_eq_none] at hres ⊢
      intro k hle hk
      obtain ⟨k, rfl⟩ := Nat.exists_eq_add_of_le (Nat.le_trans (Nat.le_add_right _ _) hle)
      exact hres k (by omega) ((startCodeAt_append_right x).mp hk)

/-- A unit is the same bytes wherever it stands. -/
private theorem slice_append_left (x : Bytes) (hdr stop : Nat) :
    slice (x ++ b) (x.length + hdr) (x.length + stop) = slice b hdr stop := by
  unfold slice
  rw [List.take_length_add_append, List.drop_length_add_append]
  simp only [Nat.add_lt_add_iff_left]

/-- What is moved on cuts the same bytes; where the first start code begins does not matter. -/
private theorem cutAt_moved (x : Bytes) (l : List (Nat × Nat)) (begin₀ begin₁ hdr len : Nat) :
    cutAt (x ++ b) ((begin₁, x.length + hdr) :: l.map (moved x.length)) (x.length + len) =
      cutAt b ((begin₀, hdr) :: l) len := by
  unfold cutAt
  induction l generalizing begin₀ begin₁ hdr with
  | nil =>
    simp only [List.map_nil, withStops, List.drop_one, List.tail_cons, List.nil_append,
      List.zip_cons_cons, List.zip_nil_left, List.filterMap_cons, slice_append_left,
      List.filterMap_nil]
  | cons q l ih =>
    rw [List.map_cons, withStops_cons_cons, withStops_cons_cons, List.filterMap_cons,
      List.filterMap_cons, ← ih q.1 (x.length + q.1) q.2]
    dsimp only [moved]
    rw [slice_append_left]

/-! ## One unit in front -/

/-- The bytes are one NAL unit of the type. -/
structure OneNal (t : UInt8) (p : Bytes) (k : Nat) : Prop where
  code : StartCodeAt p k
  front : k = 0 ∨ k = 1 ∧ p[0]? = some 0
  only : ∀ j, StartCodeAt p j → j = k
  hdr : ∃ h, p[k + 3]? = some h ∧ nalType h = t

variable {t : UInt8}

/-- What comes behind does not change how the bytes begin. -/
theorem StartsWithCode.append_right (h : StartsWithCode b) (x : Bytes) :
    StartsWithCode (b ++ x) := by
  rcases h with h | ⟨hzero, h⟩
  · exact .inl ((startCodeAt_append h.lt).mpr h)
  · refine .inr ⟨?_, (startCodeAt_append h.lt).mpr h⟩
    rw [List.getElem?_append_left (List.getElem?_eq_some_iff.mp hzero).1, hzero]

/-- A unit begins with its start code, of three bytes or four. -/
private theorem OneNal.startsWithCode (h : OneNal t p k) : StartsWithCode p := by
  obtain rfl | ⟨rfl, hzero⟩ := h.front
  · exact .inl h.code
  · exact .inr ⟨hzero, h.code⟩

/-- It has a header. -/
theorem OneNal.lt (h : OneNal t p k) : k + 3 < p.length := by
  obtain ⟨b, hb, -⟩ := h.hdr
  exact (List.getElem?_eq_some_iff.mp hb).1

/-- The start codes of what comes behind begin behind. -/
theorem StartsWithCode.behind (hdata : StartsWithCode data) {sc : Nat}
    (h : StartCodeAt (p ++ data) sc) : sc + 2 < p.length ∨ p.length ≤ sc := by
  have hzero : (p ++ data)[p.length]? = some 0 ∧ (p ++ data)[p.length + 1]? = some 0 := by
    rw [List.getElem?_append_right (Nat.le_refl _), List.getElem?_append_right (by omega),
      Nat.sub_self, Nat.add_sub_cancel_left]
    rcases hdata with h | ⟨hzero, h⟩
    · exact ⟨h.1, h.2.1⟩
    · exact ⟨hzero, h.1⟩
  by_contra hno
  obtain hone | hone : sc + 2 = p.length ∨ sc + 2 = p.length + 1 := by omega
  · exact absurd ((hone ▸ h.2.2).symm.trans hzero.1) (by decide)
  · exact absurd ((hone ▸ h.2.2).symm.trans hzero.2) (by decide)

/-- With others behind it, its start code is the first one. -/
private theorem OneNal.first_append (h : OneNal t p k) (hdata : StartsWithCode data) {sc : Nat}
    (hsc : StartCodeAt (p ++ data) sc) : sc = k ∨ p.length ≤ sc :=
  (hdata.behind hsc).imp_left fun hlt => h.only sc ((startCodeAt_append hlt).mp hsc)

/-- A NAL unit in front of others is one more. -/
theorem nals_append (h : OneNal t p k) (ht : t ≠ 0) (hdata : StartsWithCode data) :
    ∃ n, nals (p ++ data) = n :: nals data ∧ nalHead n = t := by
  have hklt := h.lt
  obtain ⟨hb, hhdr, htype⟩ := h.hdr
  have hne : hb ≠ 0 := by
    rintro rfl
    exact ht (htype.symm.trans (by decide))
  -- the unit's own start code is the first
  have hcode : StartCodeAt (p ++ data) k := (startCodeAt_append (by omega)).mpr h.code
  have hfirst : FirstStartCode (p ++ data) 0 k := by
    refine ⟨Nat.zero_le k, hcode, fun j _ hj hcode => ?_⟩
    rcases h.first_append hdata hcode with rfl | hle <;> omega
  -- and the next is the first of `data`
  obtain ⟨sc, hsc, hscle⟩ : ∃ sc, FirstStartCode data 0 sc ∧ sc ≤ 1 := by
    rcases hdata with h | ⟨-, h⟩
    · exact ⟨0, ⟨Nat.le_refl 0, h, fun j _ hj => absurd hj (Nat.not_lt_zero j)⟩, by decide⟩
    · refine ⟨1, ⟨Nat.zero_le 1, h, fun j _ hj hcode => ?_⟩, by decide⟩
      obtain rfl : j = 0 := by omega
      exact absurd (hcode.lt_of_lt h hj) (by decide)
  have hnext := hsc.append_left p
  have hskip : startCodes (p ++ data) (k + 3) = startCodes (p ++ data) (p.length + 0) := by
    refine startCodes_congr fun j hj => ?_
    rcases h.first_append hdata hj with rfl | hle <;> omega
  have hstarts : startCodes (p ++ data) 0 = (beginOf (p ++ data) k, k + 3) ::
      (beginOf (p ++ data) (p.length + sc), p.length + (sc + 3)) ::
        (startCodes data (sc + 3)).map (moved p.length) := by
    rw [startCodes_eq_cons (findStartCode_eq_some.mpr hfirst), hskip,
      startCodes_eq_cons (findStartCode_eq_some.mpr hnext), Nat.add_assoc,
      startCodes_append_left p (by omega)]
  -- its header is in front of where that begins
  have hlt : k + 4 ≤ beginOf (p ++ data) (p.length + sc) :=
    header_lt_beginOf hcode (by rw [List.getElem?_append_left hklt, hhdr]) hne hnext.found
      (by omega)
  refine ⟨((p ++ data).take (beginOf (p ++ data) (p.length + sc))).drop (k + 3), ?_, ?_⟩
  · have hrest := cutAt_moved (b := data) p (startCodes data (sc + 3)) (beginOf data sc)
      (beginOf (p ++ data) (p.length + sc)) (sc + 3) data.length
    rw [← startCodes_eq_cons (findStartCode_eq_some.mpr hsc)] at hrest
    unfold nals
    rw [← hrest, hstarts, List.length_append]
    unfold cutAt
    rw [withStops_cons_cons, List.filterMap_cons, slice, if_pos (by dsimp only; omega)]
  · have hle := beginOf_le (p ++ data) (p.length + sc)
    have := hnext.found.lt
    rw [nalHead_slice (by omega), List.getD_eq_getElem?_getD,
      List.getElem?_append_left hklt, hhdr]
    exact htype

/-! ## A unit cut out -/

/-- What follows a start code ends where the next one begins, or before. -/
private theorem withStops_le {l : List (Nat × Nat)}
    (hl : l.Pairwise fun p q => p.2 < q.2 ∧ p.1 ≤ q.1)
    {len : Nat} {x : (Nat × Nat) × Nat} (hx : x ∈ withStops l len) :
    ∀ q ∈ l, x.1.2 < q.2 → x.2 ≤ q.1 := by
  induction l with
  | nil => simp
  | cons p l ih =>
    obtain ⟨hp, hrest⟩ := List.pairwise_cons.mp hl
    cases l with
    | nil =>
      obtain rfl := List.mem_singleton.mp hx
      intro q hq hlt
      rw [List.mem_singleton.mp hq] at hlt
      exact absurd hlt (Nat.lt_irrefl _)
    | cons r l =>
      rw [withStops_cons_cons, List.mem_cons] at hx
      rcases hx with rfl | hx
      -- the first ends where the second begins
      · intro q hq hlt
        rcases List.mem_cons.mp hq with rfl | hq
        · exact absurd hlt (Nat.lt_irrefl _)
        · rcases List.mem_cons.mp hq with rfl | hq
          · exact Nat.le_refl _
          · exact ((List.pairwise_cons.mp hrest).1 q hq).2
      · intro q hq hlt
        rcases List.mem_cons.mp hq with rfl | hq
        · have hin := (mem_withStops (hrest.imp And.left) hx).1
          exact absurd (hp x.1 hin).1 (by omega)
        · exact ih hrest hx q hq hlt

/-- Start codes are found in the order of the bytes, each beginning no sooner than the one before
    ends. -/
private theorem startCodes_pairwise_begin (au : Bytes) (start : Nat) :
    (startCodes au start).Pairwise fun p q => p.2 < q.2 ∧ p.1 ≤ q.1 := by
  refine (List.pairwise_iff_forall_sublist.mpr fun {p q} hsub => ?_)
  have hlt := List.pairwise_iff_forall_sublist.mp (startCodes_pairwise au start) hsub
  refine ⟨hlt, ?_⟩
  obtain ⟨sc, -, -, rfl⟩ := mem_startCodes.mp (hsub.subset List.mem_cons_self)
  have hq : q ∈ startCodes au start := hsub.subset (List.mem_cons_of_mem _ List.mem_cons_self)
  obtain ⟨sc', -, -, rfl⟩ := mem_startCodes.mp hq
  -- a start code begins one byte before itself at most
  have := beginOf_le au sc
  have hge : sc' - 1 ≤ beginOf au sc' := by
    unfold beginOf
    split <;> omega
  dsimp only at hlt ⊢
  omega

/-- No other start code is in a NAL unit. -/
private theorem stop_le_of_code {u : NalUnit} (hu : u ∈ nalUnits au) {sc : Nat}
    (hsc : StartCodeAt au sc)
    (hlt : u.hdr < sc + 3) : u.stop ≤ beginOf au sc := by
  obtain ⟨x, hx, hux⟩ := List.mem_filterMap.mp hu
  split at hux
  · obtain rfl := Option.some.inj hux
    exact withStops_le (startCodes_pairwise_begin au 0) hx _
      (mem_startCodes.mpr ⟨sc, Nat.zero_le sc, hsc, rfl⟩) hlt
  · cases hux

/-- A start code of four bytes has a zero in front of the three. -/
private theorem beginOf_cases (au : Bytes) (sc : Nat) :
    beginOf au sc = sc ∨ 0 < sc ∧ beginOf au sc = sc - 1 ∧ au[sc - 1]? = some 0 := by
  unfold beginOf
  split
  · rename_i h
    exact .inr ⟨h.1, rfl, h.2⟩
  · exact .inl rfl

/-- What is cut out with its start code is one NAL unit. -/
private theorem oneNal_of_mem {u : NalUnit} (hu : u ∈ nalUnits au) :
    ∃ k, OneNal (typeOf au u) ((au.take u.stop).drop u.first) k := by
  obtain ⟨sc, hunit⟩ := unitAt_of_mem hu
  have hfirst := hunit.first
  have hle := beginOf_le au sc
  have hhdr := hunit.hdr
  have hlt := hunit.lt
  refine ⟨sc - u.first, startCodeAt_drop.mpr ?_, ?_, fun j hj => ?_, ?_⟩
  · rw [Nat.add_sub_of_le (hfirst ▸ hle), startCodeAt_take (by omega)]
    exact hunit.code
  · rcases beginOf_cases au sc with heq | ⟨hpos, heq, hzero⟩
    · exact .inl (by omega)
    · refine .inr ⟨by omega, ?_⟩
      rw [List.getElem?_drop, List.getElem?_take_of_lt (by omega), hfirst, heq]
      exact hzero
  · have hcode := startCodeAt_drop.mp hj
    have hlen := hcode.lt
    rw [List.length_take] at hlen
    rw [startCodeAt_take (by omega)] at hcode
    -- a start code before this one would overlap it, and one behind it would end the unit
    rcases Nat.lt_trichotomy (u.first + j) sc with hless | heq | hmore
    · have := hcode.lt_of_lt hunit.code hless
      rcases beginOf_cases au sc with heq | ⟨-, heq, -⟩ <;> omega
    · omega
    · have hstop := stop_le_of_code hu hcode (by omega)
      have := beginOf_le au (u.first + j)
      omega
  · refine ⟨au.getD u.hdr 0, ?_, rfl⟩
    rw [List.getElem?_drop, show u.first + (sc - u.first + 3) = sc + 3 by omega,
      List.getElem?_take_of_lt (by omega)]
    exact hunit.getElem?_hdr

namespace EncodeWin

/-! ## What the helper sees -/

/-- The helper finds start codes as the agent does. -/
private theorem starts_eq (au : Bytes) (i : Nat) : starts au i = startCodes au i := by
  induction i using starts.induct au with
  | case1 i hlen hcode ih =>
    rw [starts, if_pos hlen, if_pos hcode, ih]
    exact (startCodes_eq_cons (findStartCode_eq_some.mpr
      ⟨Nat.le_refl i, hcode, fun j hle hj => absurd hle (by omega)⟩)).symm
  | case2 i hlen hcode ih =>
    rw [starts, if_pos hlen, if_neg hcode, ih]
    refine startCodes_congr fun k hk => ?_
    have hne : k ≠ i := by
      rintro rfl
      exact hcode hk
    omega
  | case3 i hlen =>
    rw [starts, if_neg hlen, startCodes_eq_nil]
    refine findStartCode_eq_none.mpr fun k hle hk => ?_
    have := hk.lt
    omega

/-- The helper finds the NAL units that the agent finds. -/
private theorem nalUnits_eq (au : Bytes) : nalUnits au = QCBridge.nalUnits au := by
  unfold nalUnits QCBridge.nalUnits
  rw [starts_eq]

/-- An access unit delimiter. -/
def isAud (n : Bytes) : Bool := nalHead n = Nal.aud

/-- A slice of a picture. -/
def isSlice (n : Bytes) : Bool := nalHead n < 32

def hasAud (au : Bytes) : Bool := (nals au).any isAud

/-- A keyframe, by what the encoder says or by its slices. -/
def isKey (data : Bytes) (keyHint : Bool) : Bool :=
  keyHint || (nals data).any fun n => Nal.isIrap (nalHead n)

/-- A test of the types, by the bytes or by the places. -/
private theorem any_nals (P : UInt8 → Bool) (au : Bytes) :
    (nals au).any (fun n => P (nalHead n)) =
      (QCBridge.nalUnits au).any fun u => P (typeOf au u) := by
  rw [Bool.eq_iff_iff, List.any_eq_true, List.any_eq_true]
  exact exists_nal_iff (P := fun t => P t = true)

variable {params : Fin 3 → Option Bytes} {keyHint : Bool}

/-- The output is a keyframe by its hint or by one of its units. -/
private theorem foldl_key (units : List NalUnit) (c : Contents) :
    (units.foldl (Contents.see data) c).key =
      (c.key || units.any fun u => Nal.isIrap (typeOf data u)) := by
  induction units generalizing c with
  | nil => simp
  | cons u units ih =>
    have hsee : (c.see data u).key = (c.key || Nal.isIrap (typeOf data u)) := by
      unfold Contents.see
      dsimp only
      split <;> rfl
    rw [List.foldl_cons, ih, hsee, List.any_cons, Bool.or_assoc]

/-- A delimiter is seen where one of the units is one. -/
private theorem foldl_hasAud (units : List NalUnit) (s : Seen) :
    (units.foldl (Seen.see data) s).hasAud =
      (s.hasAud || units.any fun u => typeOf data u = Nal.aud) := by
  induction units generalizing s with
  | nil => simp
  | cons u units ih => rw [List.foldl_cons, ih, List.any_cons, ← Bool.or_assoc]; rfl

/-- The helper's pass over the units is the agent's, but for the hint and the delimiter. -/
private theorem seen_toContents : (seen params data keyHint).toContents =
    (QCBridge.nalUnits data).foldl (Contents.see data) { key := keyHint, params } := by
  unfold seen
  rw [nalUnits_eq]
  exact (List.foldl_hom Seen.toContents (fun _ _ => rfl)).symm

/-- The pass finds a keyframe. -/
private theorem seen_key (params : Fin 3 → Option Bytes) :
    (seen params data keyHint).key = isKey data keyHint := by
  rw [seen_toContents, foldl_key, isKey, any_nals]

/-- The pass finds a delimiter. -/
private theorem seen_hasAud : (seen params data keyHint).hasAud = hasAud data := by
  unfold seen hasAud isAud
  rw [nalUnits_eq, foldl_hasAud, any_nals fun t => t = Nal.aud]
  rfl

/-- The pass knows the parameter sets that there are. -/
private theorem seen_sees :
    Sees data params (QCBridge.nalUnits data) (seen params data keyHint).toContents := by
  have hstart : Sees data params [] { key := keyHint, params } := by
    constructor
    · simp
    · exact fun i p hp => .inl hp
    · simp
  rw [seen_toContents]
  exact hstart.foldl (QCBridge.nalUnits data)

/-- It has a set exactly if the output holds one. -/
private theorem seen_have (i : Fin 3) : (seen params data keyHint).have_ i = true ↔ Holds i data :=
  seen_sees.has i

/-- A set is known if it was before, or is there now. -/
private theorem seen_isSome (i : Fin 3) :
    ((seen params data keyHint).params i).isSome ↔ (params i).isSome ∨ Holds i data := by
  refine ⟨fun h => ?_, seen_sees.kept i⟩
  obtain ⟨p, hp⟩ := Option.isSome_iff_exists.mp h
  rcases seen_sees.known i p hp with hold | ⟨u, hu, hi, -⟩
  · exact .inl (by rw [hold]; rfl)
  · exact .inr ⟨u, hu, hi⟩

/-- The parameter sets that the helper knows, each cut out of an encoder output. -/
structure ParamCache where
  sets : Fin 3 → Option Bytes
  cut : ∀ i p, sets i = some p → ∃ au, ParamSet i p au

/-- The helper begins with none. -/
def ParamCache.empty : ParamCache := ⟨fun _ => none, by simp⟩

/-- And goes on with those that it has seen. -/
def ParamCache.next (cache : ParamCache) (data : Bytes) (keyHint : Bool) : ParamCache where
  sets := (emit cache.sets data keyHint).2
  cut i p hp := by
    rcases seen_sees.known i p hp with hold | hnew
    · exact cache.cut i p hold
    · exact ⟨data, hnew⟩

/-! ## What is put in front -/

/-- The delimiter of the helper is one unit, behind a start code of four bytes. -/
private theorem oneNal_audNal : OneNal Nal.aud audNal 1 where
  code := by decide
  front := .inr ⟨rfl, rfl⟩
  only j hj := by
    have hfew : ∀ j < 5, StartCodeAt audNal j → j = 1 := by decide
    have hlt : j + 2 < 7 := hj.lt
    exact hfew j (by omega) hj
  hdr := ⟨0x46, rfl, by decide⟩

/-- Sets in front of an encoder output are units of their own. -/
private theorem nals_sets (cache : ParamCache) (hdata : StartsWithCode data) (is : List (Fin 3)) :
    StartsWithCode ((is.filterMap cache.sets).flatten ++ data) ∧
    ∃ ns, nals ((is.filterMap cache.sets).flatten ++ data) = ns ++ nals data ∧
      (∀ n ∈ ns, ∃ i, paramIndex (nalHead n) = some i ∧ (cache.sets i).isSome) ∧
      ∀ i ∈ is, (cache.sets i).isSome → ∃ n ∈ ns, paramIndex (nalHead n) = some i := by
  -- the induction is on the sets
  induction is with
  | nil => exact ⟨hdata, [], rfl, by simp, by simp⟩
  | cons i is ih =>
    obtain ⟨hstart, ns, hnals, honly, hall⟩ := ih
    cases hi : cache.sets i with
    -- no set of this kind is cached
    | none =>
      rw [List.filterMap_cons_none hi]
      refine ⟨hstart, ns, hnals, honly, fun j hj hsome => ?_⟩
      rcases List.mem_cons.mp hj with rfl | hj
      · simp [hi] at hsome
      · exact hall j hj hsome
    -- a cached one was cut from an access unit: it is one unit of its kind
    | some p =>
      obtain ⟨au, u, hu, htype, rfl⟩ := cache.cut i p hi
      obtain ⟨k, hone⟩ := oneNal_of_mem hu
      have hne : typeOf au u ≠ 0 := by
        intro hzero
        rw [hzero] at htype
        exact absurd htype (by simp [show paramIndex 0 = none by decide])
      obtain ⟨n, heq, hhead⟩ := nals_append hone hne hstart
      rw [List.filterMap_cons_some hi, List.flatten_cons, List.append_assoc]
      refine ⟨hone.startsWithCode.append_right _, n :: ns, by rw [heq, hnals]; rfl, ?_, ?_⟩
      · -- what comes before is a cached set
        intro m hm
        rcases List.mem_cons.mp hm with rfl | hm
        · exact ⟨i, hhead ▸ htype, by rw [hi]; rfl⟩
        · exact honly m hm
      · -- and every cached set comes before
        intro j hj hsome
        rcases List.mem_cons.mp hj with rfl | hj
        · exact ⟨n, List.mem_cons_self, hhead ▸ htype⟩
        · obtain ⟨m, hm, hmtype⟩ := hall j hj hsome
          exact ⟨m, List.mem_cons_of_mem _ hm, hmtype⟩

/-- The units of what is written: a delimiter, parameter sets, and the encoder's. -/
structure Written (cache : ParamCache) (delimits inserts : Prop) (data out : Bytes)
    (pre sets : List Bytes) : Prop where
  begins : StartsWithCode out
  nals_eq : nals out = pre ++ (sets ++ nals data)
  delimiter : delimits → ∃ a, pre = [a] ∧ isAud a = true
  undelimited : ¬ delimits → pre = []
  only : ∀ n ∈ sets, ∃ i, paramIndex (nalHead n) = some i ∧ (cache.sets i).isSome
  all : inserts → ∀ i, (cache.sets i).isSome → ∃ n ∈ sets, paramIndex (nalHead n) = some i
  none : ¬ inserts → sets = []

/-- When the helper puts parameter sets in. -/
def Inserts (data : Bytes) (keyHint : Bool) : Prop :=
  isKey data keyHint = true ∧ ¬ ∀ i, Holds i data

/-- The test of the source: a keyframe that lacks one of the three. -/
private theorem inserts_iff {data : Bytes} {keyHint : Bool} :
    (seen params data keyHint).key && !(List.finRange 3).all (seen params data keyHint).have_ ↔
      Inserts data keyHint := by
  have hall : (∀ i, Holds i data) ↔ ∀ i, (seen params data keyHint).have_ i = true :=
    forall_congr' fun i => (seen_have i).symm
  unfold Inserts
  rw [hall, ← seen_key params, Bool.and_eq_true, Bool.not_eq_true', ← Bool.not_eq_true,
    List.all_eq_true]
  simp only [List.mem_finRange, true_implies]

/-- Whatever the encoder puts out, the helper writes a delimiter if there is none, sets if they are
    to be put in, and the output. -/
private theorem emit_written (cache : ParamCache) (hdata : StartsWithCode data) (keyHint : Bool) :
    ∃ pre sets, Written (cache.next data keyHint) (hasAud data = false) (Inserts data keyHint) data
      (emit cache.sets data keyHint).1 pre sets := by
  -- the sets first
  obtain ⟨more, hmore, hstart, sets, hnals, honly, hall, hnone⟩ : ∃ more : List Bytes,
      more = (if (seen cache.sets data keyHint).key &&
          !(List.finRange 3).all (seen cache.sets data keyHint).have_
        then (List.finRange 3).filterMap (seen cache.sets data keyHint).params else []) ∧
      StartsWithCode (more.flatten ++ data) ∧
      ∃ sets, nals (more.flatten ++ data) = sets ++ nals data ∧
        (∀ n ∈ sets, ∃ i, paramIndex (nalHead n) = some i ∧
          ((cache.next data keyHint).sets i).isSome) ∧
        (Inserts data keyHint → ∀ i, ((cache.next data keyHint).sets i).isSome →
          ∃ n ∈ sets, paramIndex (nalHead n) = some i) ∧
        (¬ Inserts data keyHint → sets = []) := by
    by_cases hins : Inserts data keyHint
    · obtain ⟨hstart, sets, hnals, honly, hall⟩ :=
        nals_sets (cache.next data keyHint) hdata (List.finRange 3)
      refine ⟨_, rfl, ?_⟩
      rw [if_pos (inserts_iff.mpr hins)]
      exact ⟨hstart, sets, hnals, honly, fun _ i => hall i (List.mem_finRange i),
        fun hno => absurd hins hno⟩
    · refine ⟨_, rfl, ?_⟩
      rw [if_neg (mt inserts_iff.mp hins)]
      exact ⟨hdata, [], rfl, by simp, fun h => absurd h hins, fun _ => rfl⟩
  have hemit : (emit cache.sets data keyHint).1 =
      (if hasAud data then [] else audNal) ++ (more.flatten ++ data) := by
    unfold emit Seen.front
    dsimp only
    rw [hmore, seen_hasAud, List.flatten_append, List.append_assoc]
    cases hasAud data <;> rfl
  rw [hemit]
  cases haud : hasAud data with
  | true =>
    exact ⟨[], sets, hstart, hnals, by simp, fun _ => rfl, honly, hall, hnone⟩
  | false =>
    obtain ⟨a, heq, hhead⟩ := nals_append oneNal_audNal (by decide) hstart
    refine ⟨[a], sets, oneNal_audNal.startsWithCode.append_right _, ?_,
      fun _ => ⟨a, rfl, decide_eq_true hhead⟩, by simp, honly, hall, hnone⟩
    rw [if_neg (by simp), heq, hnals]
    rfl

/-! ## The shape of an access unit -/

/-- The parameter sets stand before the first slice. -/
def CarriesInFront (au : Bytes) : Prop :=
  ∀ i, ∃ n ∈ (nals au).takeWhile (fun n => !isSlice n), paramIndex (nalHead n) = some i

/-- What is written of an encoder output is one access unit. -/
structure Shaped (cache : ParamCache) (key : Bool) (data out : Bytes) : Prop where
  begins : StartsWithCode out
  first : ∃ a ∈ (nals out).head?, isAud a = true
  one : (nals out).countP isAud = 1
  /-- The encoder's own units, unchanged and in order. -/
  others : ((nals data).filter fun n => !isAud n).Sublist (nals out)
  /-- A keyframe carries the parameter sets, once all three are known. -/
  sets : key = true → (∀ i, (cache.sets i).isSome) → CarriesInFront out

/-- The encoder outputs that the helper writes well. -/
structure Suited (cache : ParamCache) (data : Bytes) (keyHint : Bool) : Prop where
  /-- A delimiter comes first or not at all. -/
  auds : ∀ n ∈ (nals data).tail, isAud n = false
  /-- A keyframe with a delimiter carries the parameter sets itself, or none is known. -/
  delimited : hasAud data = true → isKey data keyHint = true →
    (∀ i, Holds i data) ∨ ∀ i, cache.sets i = none ∧ ¬ Holds i data
  /-- A keyframe that carries them has them before the first slice. -/
  ordered : isKey data keyHint = true → (∀ i, Holds i data) → CarriesInFront data


/-- A parameter set is no delimiter. -/
private theorem not_isAud_of_set {n : Bytes} {i : Fin 3} (h : paramIndex (nalHead n) = some i) :
    isAud n = false := by
  unfold isAud
  rw [decide_eq_false_iff_not]
  intro haud
  rw [haud, show paramIndex Nal.aud = none by decide] at h
  cases h

/-- Nor is it a slice. -/
private theorem not_isSlice_of_set {n : Bytes} {i : Fin 3} (h : paramIndex (nalHead n) = some i) :
    isSlice n = false := by
  unfold isSlice
  rw [decide_eq_false_iff_not]
  unfold paramIndex at h
  split at h
  · rename_i heq
    rw [heq]
    decide
  · split at h
    · rename_i heq
      rw [heq]
      decide
    · split at h
      · rename_i heq
        rw [heq]
        decide
      · cases h

/-- A delimiter is no slice. -/
private theorem not_isSlice_of_aud {n : Bytes} (h : isAud n = true) : isSlice n = false := by
  unfold isSlice
  rw [of_decide_eq_true h]
  decide

section Written

variable {cache : ParamCache} {delimits inserts : Prop} {out : Bytes} {pre sets : List Bytes}

/-- What stands in front is a delimiter or nothing. -/
private theorem Written.isAud_of_pre (h : Written cache delimits inserts data out pre sets) :
    ∀ n ∈ pre, isAud n = true := by
  intro n hn
  by_cases hdelimits : delimits
  · obtain ⟨a, rfl, ha⟩ := h.delimiter hdelimits
    rwa [List.mem_singleton.mp hn]
  · rw [h.undelimited hdelimits] at hn
    cases hn

/-- No slice is put in front, so the sets before the first slice are those put in and those that
    the encoder put there. -/
private theorem Written.carries_iff (h : Written cache delimits inserts data out pre sets) :
    CarriesInFront out ↔ ∀ i, (∃ n ∈ sets, paramIndex (nalHead n) = some i) ∨
      ∃ n ∈ (nals data).takeWhile (fun n => !isSlice n), paramIndex (nalHead n) = some i := by
  unfold CarriesInFront
  rw [h.nals_eq, ← List.append_assoc, List.takeWhile_append_of_pos]
  · refine forall_congr' fun i => ?_
    simp only [List.mem_append, or_assoc, or_and_right, exists_or]
    refine or_iff_right ?_
    rintro ⟨n, hn, htype⟩
    have haud := h.isAud_of_pre n hn
    rw [not_isAud_of_set htype] at haud
    cases haud
  · intro n hn
    rcases List.mem_append.mp hn with hn | hn
    · simp [not_isSlice_of_aud (h.isAud_of_pre n hn)]
    · obtain ⟨i, htype, -⟩ := h.only n hn
      simp [not_isSlice_of_set htype]

/-- The delimiters are the helper's and the encoder's. -/
theorem Written.countP (h : Written cache delimits inserts data out pre sets) :
    (nals out).countP isAud = pre.length + (nals data).countP isAud := by
  have hsets : sets.countP isAud = 0 := by
    rw [List.countP_eq_zero]
    intro n hn
    obtain ⟨i, htype, -⟩ := h.only n hn
    simp [not_isAud_of_set htype]
  rw [h.nals_eq, List.countP_append, List.countP_append, hsets,
    List.countP_eq_length.mpr h.isAud_of_pre, Nat.zero_add]

/-- The encoder's units stand at the end, as they were. -/
theorem Written.others (h : Written cache delimits inserts data out pre sets) :
    ((nals data).filter fun n => !isAud n).Sublist (nals out) := by
  rw [h.nals_eq, ← List.append_assoc]
  exact List.filter_sublist.trans (List.sublist_append_right _ _)

end Written

/-- Where a delimiter is first of the units, it is the only one exactly if none is in the rest. -/
private theorem countP_of_head {n : Bytes} {ns : List Bytes} (h : isAud n = true) :
    (n :: ns).countP isAud = 1 ↔ ∀ m ∈ ns, isAud m = false := by
  rw [List.countP_cons_of_pos h, Nat.add_eq_right, List.countP_eq_zero]
  simp

/-! ## Which outputs become access units -/

section Shaped

variable {cache : ParamCache} {out : Bytes} {pre sets : List Bytes}

/-- Nothing is known exactly if nothing was and nothing is there. -/
private theorem next_isSome_iff (cache : ParamCache) (data : Bytes) (keyHint : Bool) (i : Fin 3) :
    ((cache.next data keyHint).sets i).isSome ↔ (cache.sets i).isSome ∨ Holds i data :=
  seen_isSome i

/-- What the encoder carries it has to have in front. -/
private theorem Written.ordered
    (h : Written (cache.next data keyHint) (hasAud data = false) (Inserts data keyHint) data out
      pre sets)
    (hs : Shaped (cache.next data keyHint) (isKey data keyHint) data out)
    (hkey : isKey data keyHint = true) (hall : ∀ i, Holds i data) : CarriesInFront data := by
  have hknown : ∀ i, ((cache.next data keyHint).sets i).isSome :=
    fun i => (next_isSome_iff cache data keyHint i).mpr (.inr (hall i))
  intro i
  have hfront := h.carries_iff.mp (hs.sets hkey hknown) i
  rw [h.none fun hins => hins.2 hall] at hfront
  exact hfront.resolve_left (by simp)

/-- Behind the helper's own delimiter. -/
private theorem Written.shaped_iff_own
    (h : Written (cache.next data keyHint) (hasAud data = false) (Inserts data keyHint) data out
      pre sets) (haud : hasAud data = false) :
    Shaped (cache.next data keyHint) (isKey data keyHint) data out ↔
      Suited cache data keyHint := by
  obtain ⟨a, rfl, ha⟩ := h.delimiter haud
  have hno : ∀ n ∈ nals data, isAud n = false := by
    simpa [hasAud] using haud
  constructor
  · intro hs
    exact ⟨fun n hn => hno n (List.mem_of_mem_tail hn), fun htrue => by simp [haud] at htrue,
      h.ordered hs⟩
  · intro hsuited
    refine ⟨h.begins, ⟨a, by rw [h.nals_eq]; rfl, ha⟩, ?_, h.others, fun hkey hall => ?_⟩
    · rw [h.countP, List.countP_eq_zero.mpr fun n hn => by simp [hno n hn]]
      rfl
    · rw [h.carries_iff]
      intro i
      by_cases hholds : ∀ i, Holds i data
      · exact .inr (hsuited.ordered hkey hholds i)
      · exact .inl (h.all ⟨hkey, hholds⟩ i (hall i))

/-- Where a delimiter comes first, no set has been put in front. -/
private theorem Written.sets_eq_nil_of_head {delimits inserts : Prop}
    (h : Written cache delimits inserts data out [] sets) {a : Bytes}
    (hhead : a ∈ (nals out).head?) (ha : isAud a = true) : sets = [] := by
  cases sets with
  | nil => rfl
  | cons n ns =>
    obtain ⟨i, htype, -⟩ := h.only n List.mem_cons_self
    rw [h.nals_eq] at hhead
    obtain rfl : n = a := Option.some.inj hhead
    rw [not_isAud_of_set htype] at ha
    cases ha

/-- Suited outputs with a delimiter get no sets, for none are known. -/
theorem Suited.unknown (h : Suited cache data keyHint) (haud : hasAud data = true)
    (hins : Inserts data keyHint) (i : Fin 3) :
    ¬ ((cache.next data keyHint).sets i).isSome := by
  have hnone := (h.delimited haud hins.1).resolve_left hins.2 i
  rw [next_isSome_iff, hnone.1]
  simp [hnone.2]

/-- Where a suited output has a delimiter, nothing is put in front of it. -/
private theorem Suited.sets_eq_nil (hsuited : Suited cache data keyHint) (haud : hasAud data = true)
    (h : Written (cache.next data keyHint) (hasAud data = false) (Inserts data keyHint) data out
      pre sets) : sets = [] := by
  by_cases hins : Inserts data keyHint
  · refine List.eq_nil_iff_forall_not_mem.mpr fun n hn => ?_
    obtain ⟨i, -, hsome⟩ := h.only n hn
    exact hsuited.unknown haud hins i hsome
  · exact h.none hins

/-- The delimiter that there is comes first. -/
theorem Suited.head (hsuited : Suited cache data keyHint) (haud : hasAud data = true) :
    ∃ n ns, nals data = n :: ns ∧ isAud n = true := by
  obtain ⟨a, ha, hisAud⟩ := List.any_eq_true.mp haud
  obtain ⟨n, ns, heq⟩ := List.exists_cons_of_ne_nil (List.ne_nil_of_mem ha)
  refine ⟨n, ns, heq, ?_⟩
  have htail := hsuited.auds
  rw [heq] at ha htail
  rcases List.mem_cons.mp ha with rfl | ha
  · exact hisAud
  · rw [htail a ha] at hisAud
    cases hisAud

/-- Behind the encoder's delimiter: nothing may come before it. -/
private theorem Written.shaped_iff_encoded
    (h : Written (cache.next data keyHint) (hasAud data = false) (Inserts data keyHint) data out
      pre sets) (haud : hasAud data = true) :
    Shaped (cache.next data keyHint) (isKey data keyHint) data out ↔
      Suited cache data keyHint := by
  -- the encoder's delimiter is there, so none is written
  obtain rfl := h.undelimited (by simp [haud])
  -- the output begins with a delimiter, so no set was put before it
  constructor
  · intro hs
    obtain ⟨a, hhead, ha⟩ := hs.first
    obtain rfl := h.sets_eq_nil_of_head hhead ha
    have hnals : nals out = nals data := h.nals_eq
    refine ⟨?_, fun _ hkey => ?_, h.ordered hs⟩
    · -- the delimiter is one
      have hone := hs.one
      rw [hnals] at hone hhead
      obtain ⟨ns, heq⟩ := List.head?_eq_some_iff.mp hhead
      rw [heq] at hone ⊢
      exact (countP_of_head ha).mp hone
    · -- all sets are in the data, or none is known
      by_cases hholds : ∀ i, Holds i data
      · exact .inl hholds
      · refine .inr fun i => ?_
        have hnot : ¬ ((cache.next data keyHint).sets i).isSome := fun hsome => by
          obtain ⟨n, hn, -⟩ := h.all ⟨hkey, hholds⟩ i hsome
          cases hn
        rw [next_isSome_iff, not_or, Option.not_isSome_iff_eq_none] at hnot
        exact hnot
  · -- the other way round no set is put in, and the data is as the encoder made it
    intro hsuited
    obtain rfl := hsuited.sets_eq_nil haud h
    have hnals : nals out = nals data := h.nals_eq
    obtain ⟨n, ns, heq, hn⟩ := hsuited.head haud
    refine ⟨h.begins, ⟨n, by rw [hnals, heq]; rfl, hn⟩, ?_, h.others, fun hkey hall => ?_⟩
    · -- one delimiter
      have htail := hsuited.auds
      rw [heq] at htail
      rw [hnals, heq]
      exact (countP_of_head hn).mpr htail
    · -- all the sets, or none is asked for
      rw [h.carries_iff]
      intro i
      by_cases hholds : ∀ i, Holds i data
      · exact .inr (hsuited.ordered hkey hholds i)
      · exact absurd (hall i) (hsuited.unknown haud ⟨hkey, hholds⟩ i)

end Shaped

/-- For every encoder output, and every state of the parameter sets: what is written is an access
    unit exactly if the output is suited. -/
theorem emit_shaped_iff (cache : ParamCache) (hdata : StartsWithCode data) (keyHint : Bool) :
    Shaped (cache.next data keyHint) (isKey data keyHint) data (emit cache.sets data keyHint).1 ↔
      Suited cache data keyHint := by
  obtain ⟨pre, sets, h⟩ := emit_written cache hdata keyHint
  cases haud : hasAud data with
  | false => exact h.shaped_iff_own haud
  | true => exact h.shaped_iff_encoded haud

/-- A keyframe with its parameter sets, for the tests below. -/
private def opening : Bytes :=
  [0, 0, 0, 1, 0x40, 1, 0, 0, 0, 1, 0x42, 1, 0, 0, 0, 1, 0x44, 1, 0, 0, 1, 0x26, 1, 0xaf]

/-- A keyframe without them and without a delimiter gets both. -/
theorem emit_shaped_iff_keyframe :
    Shaped ((ParamCache.empty.next opening true).next [0, 0, 1, 0x26, 1, 0xaf] true)
      (isKey [0, 0, 1, 0x26, 1, 0xaf] true) [0, 0, 1, 0x26, 1, 0xaf]
      (emit (ParamCache.empty.next opening true).sets [0, 0, 1, 0x26, 1, 0xaf] true).1 := by
  refine (emit_shaped_iff _ (by decide) true).mpr ⟨by decide +kernel, ?_, fun _ hall => ?_⟩
  · intro haud
    exact absurd haud (by decide +kernel)
  · exact absurd (holds_iff_nal.mp (hall 0)) (by decide +kernel)

/-- With a delimiter of the encoder's, the parameter sets come before it. -/
theorem emit_shaped_counterexample :
    ¬ Shaped ((ParamCache.empty.next opening true).next
        [0, 0, 0, 1, 0x46, 1, 0x50, 0, 0, 1, 0x26, 1, 0xaf] true) true
      [0, 0, 0, 1, 0x46, 1, 0x50, 0, 0, 1, 0x26, 1, 0xaf]
      (emit (ParamCache.empty.next opening true).sets
        [0, 0, 0, 1, 0x46, 1, 0x50, 0, 0, 1, 0x26, 1, 0xaf] true).1 := by
  rintro ⟨-, ⟨a, hhead, ha⟩, -, -, -⟩
  have hvps : (nals (emit (ParamCache.empty.next opening true).sets
      [0, 0, 0, 1, 0x46, 1, 0x50, 0, 0, 1, 0x26, 1, 0xaf] true).1).head? = some [0x40, 1] := by
    decide +kernel
  rw [hvps] at hhead
  obtain rfl := Option.some.inj hhead
  exact absurd ha (by decide)

end EncodeWin

end QCBridge
