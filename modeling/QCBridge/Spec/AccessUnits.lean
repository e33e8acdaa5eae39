import QCBridge.Spec.Chunking

/-!
# What access units hold

The units that come out are pieces of the stream, in order and without a byte lost, some of
them with parameter sets put in. Each piece but the first begins with an access unit delimiter.
A unit with a keyframe has all three parameter sets, once all have been seen: those put in are
whole NAL units, and they are put in between NAL units.

## Key results

- `CarriesSet`: a NAL unit of a parameter set, found by its bytes
- `holds_iff_carries`: `nal_units` finds it
- `AuSplitter.Pieces`: the pieces of the stream
- `access_units`: every stream, and every way to cut it into calls
-/

namespace QCBridge

variable {au buf more : Bytes} {start sc i k : Nat}

/-! ## Start codes do not overlap -/

/-- Between two start codes are three bytes at least. -/
theorem StartCodeAt.lt_of_lt {sc' : Nat} (h : StartCodeAt au sc) (h' : StartCodeAt au sc')
    (hlt : sc < sc') : sc + 3 ≤ sc' := by
  by_contra hno
  obtain rfl | rfl : sc' = sc + 1 ∨ sc' = sc + 2 := by omega
  -- the byte 1 that ends the first would be a zero of the second
  · exact absurd (h.2.2.symm.trans h'.2.1) (by decide)
  · exact absurd (h.2.2.symm.trans h'.1) (by decide)

/-- A header byte that is not zero is no part of the next start code. -/
theorem header_lt_beginOf {sc' : Nat} {b : UInt8} (h : StartCodeAt au sc)
    (hb : au[sc + 3]? = some b) (hne : b ≠ 0) (h' : StartCodeAt au sc') (hlt : sc < sc') :
    sc + 4 ≤ beginOf au sc' := by
  have hge := h.lt_of_lt h' hlt
  -- a start code begins with a zero byte, and the header is none
  have hnot : sc' ≠ sc + 3 := by
    rintro rfl
    exact hne (Option.some.inj (hb.symm.trans h'.1))
  unfold beginOf
  split
  next hzero =>
    -- nor is the header the fourth byte of a long start code
    have hnext : sc' ≠ sc + 4 := by
      rintro rfl
      exact hne (Option.some.inj (hb.symm.trans hzero.2))
    omega
  · omega

/-- Where the search finds none, there are none from there on. -/
theorem startCodes_eq_nil (h : findStartCode au start = none) : startCodes au start = [] := by
  rw [startCodes]
  split
  next hsome => simp [h] at hsome
  · rfl

/-- Where it finds one, it goes on behind it. -/
theorem startCodes_eq_cons (h : findStartCode au start = some sc) :
    startCodes au start = (beginOf au sc, sc + 3) :: startCodes au (sc + 3) := by
  rw [startCodes]
  split
  next sc' hsome =>
    obtain rfl : sc = sc' := Option.some.inj (h.symm.trans hsome)
    rfl
  next hnone => simp [h] at hnone

/-- All start codes are found. -/
theorem mem_startCodes {p : Nat × Nat} :
    p ∈ startCodes au start ↔
      ∃ sc, start ≤ sc ∧ StartCodeAt au sc ∧ p = (beginOf au sc, sc + 3) := by
  induction start using startCodes.induct au with
  | case1 start sc h ih =>
    have hsc := findStartCode_eq_some.mp h
    rw [startCodes_eq_cons h, List.mem_cons, ih]
    constructor
    · rintro (rfl | ⟨sc', hle, hcode, rfl⟩)
      · exact ⟨sc, hsc.le, hsc.found, rfl⟩
      · exact ⟨sc', by have := hsc.le; omega, hcode, rfl⟩
    -- a start code is at the one found, or behind it; none is before it
    · rintro ⟨sc', hle, hcode, rfl⟩
      rcases Nat.lt_trichotomy sc sc' with hlt | rfl | hlt
      · exact .inr ⟨sc', hsc.found.lt_of_lt hcode hlt, hcode, rfl⟩
      · exact .inl rfl
      · exact absurd hcode (hsc.first sc' hle hlt)
  | case2 start h =>
    rw [startCodes_eq_nil h]
    simp only [List.not_mem_nil, false_iff]
    rintro ⟨sc, hle, hcode, -⟩
    exact findStartCode_eq_none.mp h sc hle hcode

/-- They are found in the order of the bytes. -/
theorem startCodes_pairwise (au : Bytes) (start : Nat) :
    (startCodes au start).Pairwise fun p q => p.2 < q.2 := by
  induction start using startCodes.induct au with
  | case1 start sc h ih =>
    rw [startCodes_eq_cons h, List.pairwise_cons]
    refine ⟨fun q hq => ?_, ih⟩
    obtain ⟨sc', hle, -, rfl⟩ := mem_startCodes.mp hq
    show sc + 3 < sc' + 3
    omega
  | case2 start h =>
    rw [startCodes_eq_nil h]
    exact List.Pairwise.nil

/-! ## NAL units -/

/-- A unit that is not the last stops where the next start code begins. -/
theorem withStops_cons_cons (p q : Nat × Nat) (l : List (Nat × Nat)) (len : Nat) :
    withStops (p :: q :: l) len = (p, q.1) :: withStops (q :: l) len := rfl

/-- What follows a start code ends at the end, or where a later one begins. -/
theorem mem_withStops {l : List (Nat × Nat)} (hl : l.Pairwise fun p q => p.2 < q.2) {len : Nat}
    {x : (Nat × Nat) × Nat} (hx : x ∈ withStops l len) :
    x.1 ∈ l ∧ (x.2 = len ∨ ∃ q ∈ l, x.1.2 < q.2 ∧ x.2 = q.1) := by
  induction l with
  | nil => simp [withStops] at hx
  | cons p l ih =>
    cases l with
    | nil =>
      obtain rfl := List.mem_singleton.mp hx
      exact ⟨List.mem_cons_self, .inl rfl⟩
    | cons q l =>
      rw [withStops_cons_cons, List.mem_cons] at hx
      obtain ⟨hp, hrest⟩ := List.pairwise_cons.mp hl
      rcases hx with rfl | hx
      · exact ⟨List.mem_cons_self, .inr ⟨q, List.mem_cons_of_mem _ List.mem_cons_self,
          hp q List.mem_cons_self, rfl⟩⟩
      · obtain ⟨hin, hstop⟩ := ih hrest hx
        refine ⟨List.mem_cons_of_mem _ hin, hstop.imp_right ?_⟩
        rintro ⟨r, hr, hlt, heq⟩
        exact ⟨r, List.mem_cons_of_mem _ hr, hlt, heq⟩

/-- Each start code has its stop. -/
private theorem exists_mem_withStops {l : List (Nat × Nat)} {p : Nat × Nat} (hp : p ∈ l)
    (len : Nat) :
    ∃ stop, (p, stop) ∈ withStops l len := by
  induction l with
  | nil => cases hp
  | cons q l ih =>
    cases l with
    | nil =>
      obtain rfl := List.mem_singleton.mp hp
      exact ⟨len, List.mem_singleton.mpr rfl⟩
    | cons r l =>
      rw [withStops_cons_cons]
      rcases List.mem_cons.mp hp with rfl | hp
      · exact ⟨r.1, List.mem_cons_self⟩
      · obtain ⟨stop, hstop⟩ := ih hp
        exact ⟨stop, List.mem_cons_of_mem _ hstop⟩

/-- A NAL unit: a start code, a header byte behind it, and an end at the end of the buffer or
    where a later start code begins. -/
structure UnitAt (au : Bytes) (u : NalUnit) (sc : Nat) : Prop where
  code : StartCodeAt au sc
  first : u.first = beginOf au sc
  hdr : u.hdr = sc + 3
  lt : u.hdr < u.stop
  stop : u.stop = au.length ∨ ∃ sc', StartCodeAt au sc' ∧ sc < sc' ∧ u.stop = beginOf au sc'

/-- A unit ends in the buffer. -/
private theorem UnitAt.stop_le {u : NalUnit} (h : UnitAt au u sc) : u.stop ≤ au.length := by
  -- `omega` needs the place of the next start code within the buffer
  rcases h.stop with heq | ⟨sc', hcode, -, heq⟩
  · omega
  · have := hcode.lt
    have := beginOf_le au sc'
    omega

/-- What `nal_units` returns are such units. -/
theorem unitAt_of_mem {u : NalUnit} (h : u ∈ nalUnits au) : ∃ sc, UnitAt au u sc := by
  obtain ⟨x, hx, hu⟩ := List.mem_filterMap.mp h
  split at hu
  next hlt =>
    obtain rfl := Option.some.inj hu
    obtain ⟨hin, hstop⟩ := mem_withStops (startCodes_pairwise au 0) hx
    obtain ⟨sc, -, hcode, heq⟩ := mem_startCodes.mp hin
    have hfirst : x.1.1 = beginOf au sc := congrArg Prod.fst heq
    have hhdr : x.1.2 = sc + 3 := congrArg Prod.snd heq
    refine ⟨sc, hcode, hfirst, hhdr, hlt, hstop.imp_right ?_⟩
    rintro ⟨q, hq, hqlt, hqeq⟩
    obtain ⟨sc', -, hcode', rfl⟩ := mem_startCodes.mp hq
    exact ⟨sc', hcode', by rw [hhdr] at hqlt; simpa using hqlt, hqeq⟩
  · simp at hu

/-- A start code with a header behind it begins a unit that `nal_units` returns. A zero there might
    be of the next start code. -/
private theorem exists_mem_nalUnits {b : UInt8} (h : StartCodeAt au sc) (hb : au[sc + 3]? = some b)
    (hne : b ≠ 0) : ∃ u ∈ nalUnits au, u.hdr = sc + 3 := by
  have hin : (beginOf au sc, sc + 3) ∈ startCodes au 0 :=
    mem_startCodes.mpr ⟨sc, Nat.zero_le sc, h, rfl⟩
  obtain ⟨stop, hstop⟩ := exists_mem_withStops hin au.length
  -- the header byte is in front of the stop, so `nal_units` keeps the unit
  have hlt : sc + 3 < stop := by
    obtain ⟨-, heq | ⟨q, hq, hqlt, heq⟩⟩ := mem_withStops (startCodes_pairwise au 0) hstop
    · have := (List.getElem?_eq_some_iff.mp hb).1
      simp only at heq
      omega
    · obtain ⟨sc', -, hcode', rfl⟩ := mem_startCodes.mp hq
      have := header_lt_beginOf h hb hne hcode' (by simpa using hqlt)
      simp only at heq
      omega
  exact ⟨⟨beginOf au sc, sc + 3, stop⟩, List.mem_filterMap.mpr ⟨_, hstop, if_pos hlt⟩, rfl⟩

/-! ## Parameter sets -/

/-- A NAL unit of the parameter set is among the bytes. -/
def CarriesSet (i : Fin 3) (b : Bytes) : Prop :=
  ∃ sc h, StartCodeAt b sc ∧ b[sc + 3]? = some h ∧ paramIndex (nalType h) = some i

/-- `nal_units` finds one of the parameter set. -/
def Holds (i : Fin 3) (au : Bytes) : Prop :=
  ∃ u ∈ nalUnits au, paramIndex (typeOf au u) = some i

/-- A parameter set of the access unit, with its start code. -/
def ParamSet (i : Fin 3) (p au : Bytes) : Prop :=
  ∃ u ∈ nalUnits au, paramIndex (typeOf au u) = some i ∧ p = (au.take u.stop).drop u.first

variable {i : Fin 3} {b x : Bytes}

/-- The header of a parameter set is no zero. -/
private theorem header_ne_zero {h : UInt8} (hi : paramIndex (nalType h) = some i) : h ≠ 0 := by
  rintro rfl
  have hnone : paramIndex (nalType 0) = none := by decide
  rw [hnone] at hi
  cases hi

/-- The header is the byte behind the start code. -/
theorem UnitAt.getElem?_hdr {u : NalUnit} (h : UnitAt au u sc) :
    au[sc + 3]? = some (au.getD u.hdr 0) := by
  have hlt := h.lt
  have hle := h.stop_le
  rw [h.hdr, List.getD_eq_getElem?_getD, List.getElem?_eq_getElem (by rw [h.hdr] at hlt; omega)]
  rfl

/-- `nal_units` finds every parameter set that is among the bytes. -/
theorem holds_iff_carries : Holds i au ↔ CarriesSet i au := by
  constructor
  · rintro ⟨u, hu, hi⟩
    obtain ⟨sc, hunit⟩ := unitAt_of_mem hu
    exact ⟨sc, _, hunit.code, hunit.getElem?_hdr, hi⟩
  · rintro ⟨sc, h, hcode, hhdr, hi⟩
    obtain ⟨u, hu, heq⟩ := exists_mem_nalUnits hcode hhdr (header_ne_zero hi)
    refine ⟨u, hu, ?_⟩
    unfold typeOf
    rw [heq, List.getD_eq_getElem?_getD, hhdr]
    exact hi

/-- With more behind, the set is where it was. -/
theorem CarriesSet.append_right (h : CarriesSet i b) (x : Bytes) : CarriesSet i (b ++ x) := by
  obtain ⟨sc, hdr, hcode, hhdr, hi⟩ := h
  have hlt := (List.getElem?_eq_some_iff.mp hhdr).1
  refine ⟨sc, hdr, (startCodeAt_append (by omega)).mpr hcode, ?_, hi⟩
  rw [List.getElem?_append_left hlt, hhdr]

/-- Those of a rest are those that begin in it. -/
private theorem carries_drop_iff : CarriesSet i (b.drop k) ↔
    ∃ sc h, k ≤ sc ∧ StartCodeAt b sc ∧ b[sc + 3]? = some h ∧ paramIndex (nalType h) = some i := by
  constructor
  · rintro ⟨sc, h, hcode, hhdr, hi⟩
    rw [List.getElem?_drop, ← Nat.add_assoc] at hhdr
    exact ⟨k + sc, h, Nat.le_add_right k sc, startCodeAt_drop.mp hcode, hhdr, hi⟩
  · rintro ⟨sc, h, hle, hcode, hhdr, hi⟩
    obtain ⟨sc, rfl⟩ := Nat.exists_eq_add_of_le hle
    refine ⟨sc, h, startCodeAt_drop.mpr hcode, ?_, hi⟩
    rw [List.getElem?_drop, ← Nat.add_assoc, hhdr]

/-- With more in front, the set is further on. -/
theorem CarriesSet.append_left (h : CarriesSet i b) (x : Bytes) : CarriesSet i (x ++ b) := by
  have hdrop : CarriesSet i ((x ++ b).drop x.length) := by
    rw [List.drop_left]
    exact h
  obtain ⟨sc, hdr, -, h⟩ := carries_drop_iff.mp hdrop
  exact ⟨sc, hdr, h⟩

/-- A start code that lies in the first bytes, or does not. -/
theorem startCodeAt_take (h : sc + 2 < k) : StartCodeAt (b.take k) sc ↔ StartCodeAt b sc := by
  unfold StartCodeAt
  rw [List.getElem?_take_of_lt (by omega), List.getElem?_take_of_lt (by omega),
    List.getElem?_take_of_lt h]

/-- Where NAL units begin and end. -/
def UnitBoundary (au : Bytes) (k : Nat) : Prop :=
  k = 0 ∨ k = au.length ∨ ∃ sc, StartCodeAt au sc ∧ k = beginOf au sc

/-- A NAL unit lies on one side of a boundary. -/
theorem CarriesSet.split (h : CarriesSet i au) (hk : UnitBoundary au k) :
    CarriesSet i (au.take k) ∨ CarriesSet i (au.drop k) := by
  obtain ⟨sc, hdr, hcode, hhdr, hi⟩ := h
  have hlt := (List.getElem?_eq_some_iff.mp hhdr).1
  -- a boundary does not fall between a start code and its header
  have hside : k ≤ sc ∨ sc + 4 ≤ k := by
    obtain rfl | rfl | ⟨sc', hcode', rfl⟩ := hk
    · exact .inl (Nat.zero_le sc)
    · exact .inr hlt
    · rcases Nat.lt_or_ge sc sc' with hlt' | hge
      · exact .inr (header_lt_beginOf hcode hhdr (header_ne_zero hi) hcode' hlt')
      · exact .inl (Nat.le_trans (beginOf_le au sc') hge)
  rcases hside with hle | hge
  · exact .inr (carries_drop_iff.mpr ⟨sc, hdr, hle, hcode, hhdr, hi⟩)
  · refine .inl ⟨sc, hdr, (startCodeAt_take (by omega)).mpr hcode, ?_, hi⟩
    rw [List.getElem?_take_of_lt (by omega), hhdr]

/-- A set that was cut out with its start code is still one. -/
theorem ParamSet.carries {p : Bytes} (h : ParamSet i p au) : CarriesSet i p := by
  obtain ⟨u, hu, hi, rfl⟩ := h
  obtain ⟨sc, hunit⟩ := unitAt_of_mem hu
  have hlt := hunit.lt
  have hhdr := hunit.hdr
  -- the start code of the unit is still there, at its own begin
  rw [carries_drop_iff, hunit.first]
  refine ⟨sc, _, beginOf_le au sc, (startCodeAt_take (by omega)).mpr hunit.code, ?_, hi⟩
  rw [List.getElem?_take_of_lt (by omega)]
  exact hunit.getElem?_hdr

/-- The delimiter ends where a unit does. -/
private theorem audEnd_boundary (au : Bytes) : UnitBoundary au (audEnd au) := by
  unfold audEnd
  split
  next u hu =>
    split
    · obtain ⟨sc, hunit⟩ := unitAt_of_mem (List.mem_of_mem_head? hu)
      obtain heq | ⟨sc', hcode, -, heq⟩ := hunit.stop
      · exact .inr (.inl heq)
      · exact .inr (.inr ⟨sc', hcode, heq⟩)
    · exact .inl rfl
  · exact .inl rfl

/-! ## `finish` -/

variable {params : Fin 3 → Option Bytes} {c : Contents} {units : List NalUnit}

/-- What the loop of `finish` knows after some units. -/
structure Sees (au : Bytes) (params : Fin 3 → Option Bytes) (units : List NalUnit)
    (c : Contents) : Prop where
  has : ∀ i, c.have_ i = true ↔ ∃ u ∈ units, paramIndex (typeOf au u) = some i
  known : ∀ i p, c.params i = some p → params i = some p ∨
    ∃ u ∈ units, paramIndex (typeOf au u) = some i ∧ p = (au.take u.stop).drop u.first
  kept : ∀ i, (params i).isSome ∨ (∃ u ∈ units, paramIndex (typeOf au u) = some i) →
    (c.params i).isSome

/-- One unit more. -/
theorem Sees.snoc (h : Sees au params units c) (u : NalUnit) :
    Sees au params (units ++ [u]) (c.see au u) := by
  have hmem : ∀ P : NalUnit → Prop, (∃ v ∈ units ++ [u], P v) ↔ (∃ v ∈ units, P v) ∨ P u := by
    intro P
    simp only [List.mem_append, List.mem_singleton, or_and_right, exists_or, exists_eq_left]
  unfold Contents.see
  dsimp only
  split
  -- a parameter set: the loop takes it down, over the one it knew
  next j hj =>
    constructor
    · intro i
      dsimp only
      rw [hmem, hj, Option.some.injEq]
      by_cases hij : i = j
      · simp [hij]
      · rw [if_neg hij, h.has i, or_iff_left (Ne.symm hij)]
    · intro i p hp
      dsimp only at hp
      rw [hmem]
      by_cases hij : i = j
      · rw [if_pos hij] at hp
        subst hij
        exact .inr (.inr ⟨hj, (Option.some.inj hp).symm⟩)
      · rw [if_neg hij] at hp
        exact (h.known i p hp).imp_right .inl
    · intro i hi
      dsimp only
      by_cases hij : i = j
      · rw [if_pos hij]
        rfl
      · rw [if_neg hij]
        apply h.kept i
        rw [hmem, hj, Option.some.injEq, or_iff_left (Ne.symm hij)] at hi
        exact hi
  -- any other unit changes neither `have` nor the parameter sets
  next hj =>
    have hno : ∀ i, paramIndex (typeOf au u) ≠ some i := fun i hi => by
      rw [hj] at hi
      cases hi
    constructor
    · intro i
      rw [hmem, or_iff_left (hno i)]
      exact h.has i
    · intro i p hp
      rw [hmem]
      exact (h.known i p hp).imp_right .inl
    · intro i hi
      rw [hmem, or_iff_left (hno i)] at hi
      exact h.kept i hi

/-- All of them, one after the other. -/
theorem Sees.foldl (h : Sees au params units c) (more : List NalUnit) :
    Sees au params (units ++ more) (more.foldl (Contents.see au) c) := by
  induction more generalizing units c with
  | nil => rwa [List.append_nil]
  | cons u more ih =>
    have := ih (h.snoc u)
    rwa [List.append_assoc] at this

/-- So after its loop `finish` knows what the access unit holds. -/
private theorem contents_sees (params : Fin 3 → Option Bytes) (au : Bytes) :
    Sees au params (nalUnits au) (contents params au) := by
  have hstart : Sees au params [] { params } := by
    constructor
    · simp
    · exact fun i p hp => .inl hp
    · simp
  exact hstart.foldl (nalUnits au)

/-- What it knows of parameter sets it keeps. -/
private theorem finish_params (params : Fin 3 → Option Bytes) (au : Bytes) :
    (finish params au).2 = (contents params au).params := by
  unfold finish
  dsimp only
  split <;> rfl

/-- What is put in are parameter sets that have been seen. -/
private theorem finish_data (params : Fin 3 → Option Bytes) (au : Bytes) :
    ∃ (k : Nat) (sets : List Bytes),
      (finish params au).1.data = au.take k ++ sets.flatten ++ au.drop k ∧
      ∀ p ∈ sets, ∃ i, (finish params au).2 i = some p := by
  rw [finish_params]
  unfold finish
  dsimp only
  split
  -- the unit goes out as it is
  · exact ⟨0, [], by simp, by simp⟩
  · refine ⟨audEnd au, _, rfl, fun p hp => ?_⟩
    obtain ⟨i, -, hi⟩ := List.mem_filterMap.mp hp
    split at hi
    · cases hi
    · exact ⟨i, hi⟩

/-- A keyframe has all three, once all three have been seen. -/
private theorem finish_holds (hkey : (finish params au).1.key)
    (hall : ∀ i, ∃ p, (finish params au).2 i = some p ∧ CarriesSet i p) (i : Fin 3) :
    Holds i (finish params au).1.data := by
  have hsees := contents_sees params au
  rw [finish_params] at hall
  rw [holds_iff_carries]
  unfold finish at hkey ⊢
  dsimp only at hkey ⊢
  split
  next hwhole =>
    -- nothing is put in: all are there
    rw [if_pos hwhole] at hkey
    have hhave : (List.finRange 3).all (contents params au).have_ := by
      rw [Bool.or_eq_true, Bool.or_eq_true] at hwhole
      rcases hwhole with (hno | hhave) | hnone
      · simp [show (contents params au).key = true from hkey] at hno
      · exact hhave
      · obtain ⟨j, -, hj⟩ := List.any_eq_true.mp hnone
        obtain ⟨p, hp, -⟩ := hall j
        rw [hp] at hj
        cases hj
    exact holds_iff_carries.mp ((hsees.has i).mp
      (List.all_eq_true.mp hhave i (List.mem_finRange i)))
  -- the missing ones go behind the delimiter, between two NAL units
  next hlacks =>
    by_cases hhas : (contents params au).have_ i = true
    -- the unit has it: the place of insertion does not cut it
    · have hcarries := holds_iff_carries.mp ((hsees.has i).mp hhas)
      rcases hcarries.split (audEnd_boundary au) with h | h
      · exact (h.append_right _).append_right _
      · exact h.append_left _
    -- the unit lacks it: it is one of those put in
    · obtain ⟨p, hp, hcarries⟩ := hall i
      have hin : p ∈ (contents params au).missing :=
        List.mem_filterMap.mpr ⟨i, List.mem_finRange i, by rw [if_neg hhas, hp]⟩
      obtain ⟨before, after, hsplit⟩ := List.append_of_mem hin
      rw [hsplit, List.flatten_append, List.flatten_cons]
      exact (((hcarries.append_right _).append_left _).append_left _).append_right _

/-! ## One access unit after the other -/

/-- The parameter sets after some access units. -/
def paramsAfter (params : Fin 3 → Option Bytes) (raws : List Bytes) : Fin 3 → Option Bytes :=
  raws.foldl (fun params raw => (finish params raw).2) params

/-- Access units from pieces of the stream. -/
def finishAll (params : Fin 3 → Option Bytes) : List Bytes → List AccessUnit
  | [] => []
  | raw :: raws => (finish params raw).1 :: finishAll (finish params raw).2 raws

/-- Two stretches of pieces: the second begins with the sets that the first has left. -/
private theorem finishAll_append (params : Fin 3 → Option Bytes) (raws more : List Bytes) :
    finishAll params (raws ++ more) =
      finishAll params raws ++ finishAll (paramsAfter params raws) more := by
  induction raws generalizing params with
  | nil => rfl
  | cons raw raws ih =>
    rw [List.cons_append, finishAll, finishAll, ih, List.cons_append]
    rfl

/-- One access unit for each piece. -/
private theorem length_finishAll (params : Fin 3 → Option Bytes) (raws : List Bytes) :
    (finishAll params raws).length = raws.length := by
  induction raws generalizing params with
  | nil => rfl
  | cons raw raws ih => rw [finishAll, List.length_cons, List.length_cons, ih]

/-- Each access unit comes from its piece and the parameter sets before it. -/
private theorem finishAll_at (params : Fin 3 → Option Bytes) {raws : List Bytes} {n : Nat}
    {u : AccessUnit} (hu : (finishAll params raws)[n]? = some u) :
    ∃ raw, raws[n]? = some raw ∧ u = (finish (paramsAfter params (raws.take n)) raw).1 := by
  induction raws generalizing params n with
  | nil => simp [finishAll] at hu
  | cons raw raws ih =>
    cases n with
    | zero => exact ⟨raw, rfl, (Option.some.inj hu).symm⟩
    | succ n => exact ih (finish params raw).2 hu

/-- The parameter sets known are those of the access units there were. -/
structure Known (raws : List Bytes) (params : Fin 3 → Option Bytes) : Prop where
  sets : ∀ i p, params i = some p → ∃ raw ∈ raws, ParamSet i p raw
  seen : ∀ i raw, raw ∈ raws → Holds i raw → (params i).isSome

/-- The next access unit adds its own sets. -/
theorem Known.snoc {raws : List Bytes} (h : Known raws params) (raw : Bytes) :
    Known (raws ++ [raw]) (finish params raw).2 := by
  have hsees := contents_sees params raw
  rw [finish_params]
  constructor
  · intro i p hp
    rcases hsees.known i p hp with hold | hnew
    · obtain ⟨r, hr, hset⟩ := h.sets i p hold
      exact ⟨r, List.mem_append_left _ hr, hset⟩
    · exact ⟨raw, List.mem_append_right _ List.mem_cons_self, hnew⟩
  · intro i r hr hholds
    apply hsees.kept i
    rcases List.mem_append.mp hr with hr | hr
    · exact .inl (h.seen i r hr hholds)
    · rw [List.mem_singleton.mp hr] at hholds
      exact .inr hholds

/-- What is known has been in one of the pieces, and what has been in one is known. -/
private theorem known_paramsAfter (raws : List Bytes) :
    Known raws (paramsAfter (fun _ => none) raws) := by
  -- generalized over the pieces already taken
  have hfold : ∀ (more before : List Bytes) (params : Fin 3 → Option Bytes),
      Known before params → Known (before ++ more) (paramsAfter params more) := by
    intro more
    induction more with
    | nil =>
      intro before params h
      rw [List.append_nil]
      exact h
    | cons raw more ih =>
      intro before params h
      have := ih (before ++ [raw]) _ (h.snoc raw)
      rwa [List.append_assoc] at this
  exact hfold raws [] _ ⟨by simp, by simp⟩

/-- The sets after one piece more. -/
private theorem paramsAfter_concat (raws : List Bytes) (raw : Bytes) :
    paramsAfter params (raws ++ [raw]) = (finish (paramsAfter params raws) raw).2 := by
  unfold paramsAfter
  rw [List.foldl_append]
  rfl

/-! ## Where the stream is cut -/

/-- An access unit delimiter's start code begins at the place. -/
def AudAt (stream : Bytes) (pos : Nat) : Prop :=
  ∃ sc h, StartCodeAt stream sc ∧ stream[sc + 3]? = some h ∧ nalType h = Nal.aud ∧
    pos = beginOf stream sc

/-- Three bytes or four: that shows in the byte before a start code, which is in `b`. -/
theorem beginOf_append_left (x : Bytes) (hsc : 0 < sc) :
    beginOf (x ++ b) (x.length + sc) = x.length + beginOf b sc := by
  have hprev : (x ++ b)[x.length + sc - 1]? = b[sc - 1]? := by
    rw [List.getElem?_append_right (by omega)]
    congr 1
    omega
  unfold beginOf
  rw [hprev]
  by_cases hzero : b[sc - 1]? = some 0
  · rw [if_pos ⟨by omega, hzero⟩, if_pos ⟨hsc, hzero⟩]
    omega
  · rw [if_neg fun h => hzero h.2, if_neg fun h => hzero h.2]

/-- A delimiter moves on with the bytes put in front. At the very beginning a zero in front would
    belong to its start code. -/
theorem AudAt.append_left {pos : Nat} (h : AudAt b pos) (hpos : 0 < pos) (x : Bytes) :
    AudAt (x ++ b) (x.length + pos) := by
  obtain ⟨sc, hdr, hcode, hhdr, haud, rfl⟩ := h
  have hsc : 0 < sc := Nat.lt_of_lt_of_le hpos (beginOf_le b sc)
  refine ⟨x.length + sc, hdr, ?_, ?_, haud, ?_⟩
  · rw [← startCodeAt_drop, List.drop_left]
    exact hcode
  · rw [Nat.add_assoc, List.getElem?_append_right (Nat.le_add_right _ _), Nat.add_sub_cancel_left,
      hhdr]
  · rw [beginOf_append_left x hsc]

/-- The pieces that were cut off, and what is left. -/
structure Pieces (s s' : AuSplitter) (raws : List Bytes) : Prop where
  whole : s.buf = raws.flatten ++ s'.buf
  nonempty : ∀ raw ∈ raws, raw ≠ []
  cuts : ∀ before after, raws ++ [s'.buf] = before ++ after → before ≠ [] → after ≠ [] →
    AudAt s.buf before.flatten.length
  params : s'.params = paramsAfter s.params raws

/-- Nothing has been cut off. -/
theorem Pieces.none {s s' : AuSplitter} (hbuf : s'.buf = s.buf) (hparams : s'.params = s.params) :
    Pieces s s' [] where
  whole := hbuf.symm
  nonempty := by simp
  cuts before after hsplit hbefore hafter := by
    -- one piece has no cut
    have hlen := congrArg List.length hsplit
    have := List.length_pos_iff.mpr hbefore
    have := List.length_pos_iff.mpr hafter
    simp only [List.nil_append, List.length_singleton, List.length_append] at hlen
    omega
  params := hparams

/-- A piece is cut off at a delimiter, and then the others are. -/
theorem Pieces.cons {s s' : AuSplitter} {raws : List Bytes} (hsc : StartCodeAt s.buf sc)
    (hlen : ¬ s.buf.length ≤ sc + 3) (hcuts : s.Cuts sc) (h : Pieces (s.cut sc) s' raws) :
    Pieces s s' (s.buf.take (beginOf s.buf sc) :: raws) := by
  have hle := beginOf_le s.buf sc
  have htake : (s.buf.take (beginOf s.buf sc)).length = beginOf s.buf sc := by
    rw [List.length_take]
    omega
  have hbuf : s.buf = s.buf.take (beginOf s.buf sc) ++ (s.cut sc).buf :=
    (List.take_append_drop _ _).symm
  -- the first cut: the loop cuts at a delimiter with its header there
  have haud : AudAt s.buf (beginOf s.buf sc) := by
    refine ⟨sc, s.buf.getD (sc + 3) 0, hsc, ?_, hcuts.1, rfl⟩
    rw [List.getD_eq_getElem?_getD, List.getElem?_eq_getElem (by omega)]
    rfl
  constructor
  case whole =>
    rw [List.flatten_cons, List.append_assoc, ← h.whole]
    exact hbuf
  case nonempty =>
    intro raw hraw
    rcases List.mem_cons.mp hraw with rfl | hraw
    · rw [← List.length_pos_iff, htake]
      exact hcuts.2
    · exact h.nonempty raw hraw
  case cuts =>
    intro before after hsplit hbefore hafter
    cases before with
    | nil => exact absurd rfl hbefore
    -- a later cut is one of the rest, moved on by the first piece
    | cons raw before =>
      rw [List.cons_append, List.cons_append] at hsplit
      obtain ⟨hraw, htail⟩ := List.cons.inj hsplit
      rw [← hraw, List.flatten_cons, List.length_append]
      by_cases hnil : before = []
      · rw [hnil, htake]
        exact haud
      · have hat := h.cuts before after htail hnil hafter
        have hpos : 0 < before.flatten.length := by
          -- the pieces before a cut are not empty
          obtain ⟨r, rest, rfl⟩ := List.exists_cons_of_ne_nil hnil
          have hr : r ∈ raws := by
            cases raws with
            | nil =>
              rw [List.nil_append, List.cons_append] at htail
              obtain ⟨-, hrest⟩ := List.cons.inj htail
              exact absurd (List.append_eq_nil_iff.mp hrest.symm).2 hafter
            | cons r' raws =>
              rw [List.cons_append, List.cons_append] at htail
              rw [(List.cons.inj htail).1]
              exact List.mem_cons_self
          have := List.length_pos_iff.mpr (h.nonempty r hr)
          rw [List.flatten_cons, List.length_append]
          omega
        have hat' := hat.append_left hpos (s.buf.take (beginOf s.buf sc))
        rwa [← hbuf] at hat'
  case params => exact h.params

/-- The loop of `push` cuts off pieces and returns an access unit for each. -/
private theorem pushLoop_pieces (s : AuSplitter) (out : List AccessUnit) :
    ∃ raws, Pieces s (s.pushLoop out).1 raws ∧
      (s.pushLoop out).2 = out ++ finishAll s.params raws := by
  -- along the loop: a piece comes off with each cut, and none otherwise
  induction s, out using AuSplitter.pushLoop_cases with
  | hnone s out h =>
    rw [AuSplitter.pushLoop_none h]
    exact ⟨[], .none rfl rfl, (List.append_nil out).symm⟩
  | hwait s out sc h hlen =>
    rw [AuSplitter.pushLoop_wait h hlen]
    exact ⟨[], .none rfl rfl, (List.append_nil out).symm⟩
  | hcut s out sc h hlen hcuts ih =>
    obtain ⟨raws, hpieces, hout⟩ := ih
    rw [AuSplitter.pushLoop_cut h hlen hcuts]
    refine ⟨_, hpieces.cons (findStartCode_eq_some.mp h).found hlen hcuts, ?_⟩
    rw [hout, List.append_assoc]
    rfl
  | hskip s out sc h hlen hcuts ih =>
    obtain ⟨raws, hpieces, hout⟩ := ih
    rw [AuSplitter.pushLoop_skip h hlen hcuts]
    exact ⟨raws, ⟨hpieces.whole, hpieces.nonempty, hpieces.cuts, hpieces.params⟩, hout⟩

/-! ## Streams -/

/-- The access units of a stream, and its pieces. -/
structure SplitsInto (chunks raws : List Bytes) : Prop where
  whole : raws.flatten = chunks.flatten
  length : (emitted chunks).length = raws.length
  /-- Between two pieces an access unit delimiter begins. -/
  cuts : ∀ before after, raws = before ++ after → before ≠ [] → after ≠ [] →
    AudAt chunks.flatten before.flatten.length
  /-- A unit is its piece, with parameter sets of the stream put in. -/
  inserted : ∀ (n : Nat) u raw, (emitted chunks)[n]? = some u → raws[n]? = some raw →
    ∃ (k : Nat) (sets : List Bytes), u.data = raw.take k ++ sets.flatten ++ raw.drop k ∧
      ∀ p ∈ sets, ∃ i, ∃ r ∈ raws.take (n + 1), ParamSet i p r
  /-- A keyframe has all the parameter sets, once all have been seen. -/
  keys : ∀ (n : Nat) u, (emitted chunks)[n]? = some u → u.key →
    (∀ i, ∃ r ∈ raws.take (n + 1), Holds i r) → ∀ i, Holds i u.data

/-- The pieces up to one and that one. -/
private theorem take_succ_of_getElem? {raws : List Bytes} {raw : Bytes} {n : Nat}
    (h : raws[n]? = some raw) : raws.take (n + 1) = raws.take n ++ [raw] := by
  rw [List.take_add_one, h]
  rfl

/-- What is left to show of a stream: where it is cut, and that its units come from the pieces. -/
private theorem splitsInto_of_finishAll {chunks raws : List Bytes}
    (hwhole : raws.flatten = chunks.flatten)
    (hcuts : ∀ before after, raws = before ++ after → before ≠ [] → after ≠ [] →
      AudAt chunks.flatten before.flatten.length)
    (hunits : emitted chunks = finishAll (fun _ => none) raws) : SplitsInto chunks raws := by
  constructor
  case whole => exact hwhole
  case length => rw [hunits, length_finishAll]
  case cuts => exact hcuts
  case inserted =>
    intro n u raw hu hraw
    -- a unit is its piece with the sets of the pieces before it
    rw [hunits] at hu
    obtain ⟨raw', hraw', rfl⟩ := finishAll_at _ hu
    obtain rfl : raw = raw' := Option.some.inj (hraw.symm.trans hraw')
    obtain ⟨k, sets, hdata, hsets⟩ := finish_data (paramsAfter (fun _ => none) (raws.take n)) raw
    refine ⟨k, sets, hdata, fun p hp => ?_⟩
    obtain ⟨i, hi⟩ := hsets p hp
    rw [← paramsAfter_concat, ← take_succ_of_getElem? hraw] at hi
    exact ⟨i, (known_paramsAfter _).sets i p hi⟩
  case keys =>
    intro n u hu hkey hseen
    rw [hunits] at hu
    obtain ⟨raw, hraw, rfl⟩ := finishAll_at _ hu
    -- a key unit holds every set that was seen by then
    apply finish_holds hkey
    intro i
    obtain ⟨r, hr, hholds⟩ := hseen i
    have hknown := known_paramsAfter (raws.take (n + 1))
    obtain ⟨p, hp⟩ := Option.isSome_iff_exists.mp (hknown.seen i r hr hholds)
    obtain ⟨r', -, hset⟩ := hknown.sets i p hp
    rw [take_succ_of_getElem? hraw, paramsAfter_concat] at hp
    exact ⟨p, hp, hset.carries⟩

/-- One call of `push` for the whole stream, and `flush`. -/
private theorem splitsInto_one (stream : Bytes) : ∃ raws, SplitsInto [stream] raws := by
  obtain ⟨raws, hpieces, hout⟩ := pushLoop_pieces (AuSplitter.extend {} stream) []
  have hstream : [stream].flatten = raws.flatten ++
      ((AuSplitter.extend {} stream).pushLoop []).1.buf := by
    rw [← hpieces.whole]
    simp [AuSplitter.extend]
  have hbuf : (AuSplitter.extend {} stream).buf = [stream].flatten := by
    simp [AuSplitter.extend]
  have hemitted : emitted [stream] =
      (((AuSplitter.extend {} stream).pushLoop []).1.flush
        ((AuSplitter.extend {} stream).pushLoop []).2).2 := rfl
  have hcuts := hpieces.cuts
  rw [hbuf] at hcuts
  rw [hout] at hemitted
  unfold AuSplitter.flush at hemitted
  by_cases hnil : ((AuSplitter.extend {} stream).pushLoop []).1.buf = []
  · -- the stream ends with a piece
    rw [if_pos hnil] at hemitted
    rw [hnil, List.append_nil] at hstream
    refine ⟨raws, splitsInto_of_finishAll hstream.symm (fun before after hsplit hbefore hafter =>
      hcuts before (after ++ [_]) (by rw [hsplit, List.append_assoc]) hbefore (by simp)) hemitted⟩
  -- `flush` makes the last piece of what is left
  · rw [if_neg hnil] at hemitted
    refine ⟨raws ++ [((AuSplitter.extend {} stream).pushLoop []).1.buf],
      splitsInto_of_finishAll ?_ hcuts ?_⟩
    · rw [List.flatten_concat]
      exact hstream.symm
    · rw [hemitted, finishAll_append]
      dsimp only
      rw [hpieces.params]
      rfl

/-- Every stream, cut into calls in any way: the access units are those of one call; and they
    are the stream, cut where an access unit delimiter begins, with parameter sets put in where
    a keyframe lacks them. -/
theorem access_units (chunks : List Bytes) :
    emitted chunks = emitted [chunks.flatten] ∧ ∃ raws, SplitsInto chunks raws := by
  have heq := emitted_eq chunks
  refine ⟨heq, ?_⟩
  -- the pieces are those of the one call
  obtain ⟨raws, h⟩ := splitsInto_one chunks.flatten
  have hflat : [chunks.flatten].flatten = chunks.flatten := by simp
  refine ⟨raws, ?_⟩
  constructor
  case whole => rw [h.whole, hflat]
  case length => rw [heq, h.length]
  case cuts => rw [← hflat]; exact h.cuts
  case inserted => rw [heq]; exact h.inserted
  case keys => rw [heq]; exact h.keys

end QCBridge
