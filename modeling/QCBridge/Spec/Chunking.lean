import QCBridge.Agent.AuSplitter

/-!
# The stream may come in any pieces

`push` looks for start codes from where the last search ended, two bytes back, and waits for a
header byte that is not there yet. So it is one search over the whole stream, however the
stream is cut.

## Key results

- `AuSplitter.Resumable`: no start code is passed by
- `AuSplitter.pushLoop_append`: a search that stops for want of bytes goes on with more
- `emitted_eq`: the access units of a stream do not depend on the calls
-/

namespace QCBridge

variable {buf more : Bytes} {start sc i : Nat}

/-! ## Start codes of a longer buffer -/

/-- A start code in the buffer stays one when more comes, and none becomes one. -/
theorem startCodeAt_append (h : i + 2 < buf.length) :
    StartCodeAt (buf ++ more) i ↔ StartCodeAt buf i := by
  unfold StartCodeAt
  rw [List.getElem?_append_left (by omega), List.getElem?_append_left (by omega),
    List.getElem?_append_left h]

/-- So the first one stays the first. -/
theorem FirstStartCode.append (h : FirstStartCode buf start sc) (more : Bytes) :
    FirstStartCode (buf ++ more) start sc where
  le := h.le
  found := (startCodeAt_append h.found.lt).mpr h.found
  first j hle hlt hj := h.first j hle hlt
    ((startCodeAt_append (by have := h.found.lt; omega)).mp hj)

/-- A start code of four bytes begins one sooner. -/
theorem beginOf_le (buf : Bytes) (sc : Nat) : beginOf buf sc ≤ sc := by
  unfold beginOf
  split
  · exact Nat.sub_le sc 1
  · exact Nat.le_refl sc

/-- Which of them it is shows in the buffer. -/
private theorem beginOf_append (h : sc ≤ buf.length) :
    beginOf (buf ++ more) sc = beginOf buf sc := by
  unfold beginOf
  by_cases hsc : 0 < sc
  · rw [List.getElem?_append_left (by omega)]
  · rw [if_neg fun h => hsc h.1, if_neg fun h => hsc h.1]

/-- Where no start code lies between, a search may begin at either place. -/
theorem findStartCode_congr {start' : Nat}
    (h : ∀ k, StartCodeAt buf k → (start ≤ k ↔ start' ≤ k)) :
    findStartCode buf start = findStartCode buf start' := by
  -- the first start code from one place is the first from the other
  cases hres : findStartCode buf start with
  | none =>
    symm
    rw [findStartCode_eq_none] at hres ⊢
    exact fun k hle hk => hres k ((h k hk).mpr hle) hk
  | some sc =>
    symm
    rw [findStartCode_eq_some] at hres ⊢
    exact ⟨(h sc hres.found).mp hres.le, hres.found, fun j hle hlt hj =>
      hres.first j ((h j hj).mpr hle) hlt hj⟩

namespace AuSplitter

variable {s : AuSplitter} {out : List AccessUnit} {data : Bytes}

/-! ## The turns of the loop -/

/-- No start code: two bytes may be the beginning of one. -/
theorem pushLoop_none (h : findStartCode s.buf s.searchFrom = none) (out : List AccessUnit) :
    s.pushLoop out = ({ s with searchFrom := s.buf.length - 2 }, out) := by
  rw [pushLoop]
  split
  · rfl
  next hsome => simp [h] at hsome

/-- A start code without its header waits for more. -/
theorem pushLoop_wait (h : findStartCode s.buf s.searchFrom = some sc)
    (hlen : s.buf.length ≤ sc + 3) (out : List AccessUnit) :
    s.pushLoop out = ({ s with searchFrom := sc }, out) := by
  rw [pushLoop]
  split
  next hnone => simp [h] at hnone
  next sc' hsome =>
    obtain rfl : sc = sc' := Option.some.inj (h.symm.trans hsome)
    rw [dif_pos hlen]

/-- An access unit delimiter that is not at the front of the buffer. -/
def Cuts (s : AuSplitter) (sc : Nat) : Prop :=
  nalType (s.buf.getD (sc + 3) 0) = Nal.aud ∧ 0 < beginOf s.buf sc

/-- The splitter behind a cut. -/
def cut (s : AuSplitter) (sc : Nat) : AuSplitter :=
  ⟨s.buf.drop (beginOf s.buf sc), sc - beginOf s.buf sc + 3,
    (finish s.params (s.buf.take (beginOf s.buf sc))).2⟩

/-- A delimiter ends the access unit before it. -/
theorem pushLoop_cut (h : findStartCode s.buf s.searchFrom = some sc)
    (hlen : ¬ s.buf.length ≤ sc + 3) (hcuts : s.Cuts sc) (out : List AccessUnit) :
    s.pushLoop out = (s.cut sc).pushLoop
      (out ++ [(finish s.params (s.buf.take (beginOf s.buf sc))).1]) := by
  unfold Cuts at hcuts
  rw [pushLoop]
  split
  next hnone => simp [h] at hnone
  next sc' hsome =>
    obtain rfl : sc = sc' := Option.some.inj (h.symm.trans hsome)
    rw [dif_neg hlen]
    dsimp only
    rw [if_pos hcuts]
    rfl

/-- Any other unit is passed over. -/
theorem pushLoop_skip (h : findStartCode s.buf s.searchFrom = some sc)
    (hlen : ¬ s.buf.length ≤ sc + 3) (hcuts : ¬ s.Cuts sc) (out : List AccessUnit) :
    s.pushLoop out = pushLoop { s with searchFrom := sc + 3 } out := by
  unfold Cuts at hcuts
  rw [pushLoop]
  split
  next hnone => simp [h] at hnone
  next sc' hsome =>
    obtain rfl : sc = sc' := Option.some.inj (h.symm.trans hsome)
    rw [dif_neg hlen]
    dsimp only
    rw [if_neg hcuts]

/-- The four ways a turn of the loop can go. -/
theorem pushLoop_cases {P : AuSplitter → List AccessUnit → Prop}
    (hnone : ∀ s out, findStartCode s.buf s.searchFrom = none → P s out)
    (hwait : ∀ s out sc, findStartCode s.buf s.searchFrom = some sc → s.buf.length ≤ sc + 3 →
      P s out)
    (hcut : ∀ s out sc, findStartCode s.buf s.searchFrom = some sc → ¬ s.buf.length ≤ sc + 3 →
      s.Cuts sc →
      P (s.cut sc) (out ++ [(finish s.params (s.buf.take (beginOf s.buf sc))).1]) → P s out)
    (hskip : ∀ s out sc, findStartCode s.buf s.searchFrom = some sc → ¬ s.buf.length ≤ sc + 3 →
      ¬ s.Cuts sc → P { s with searchFrom := sc + 3 } out → P s out)
    (s : AuSplitter) (out : List AccessUnit) : P s out := by
  induction s, out using pushLoop.induct with
  | case1 s out h => exact hnone s out h
  | case2 s out sc h hlen => exact hwait s out sc h hlen
  -- the cut of the source names the unit and the parameter sets; `cut` has them in one
  | case3 s out sc h hlen start haud au params hfinish ih =>
    refine hcut s out sc h hlen haud ?_
    unfold cut
    rw [hfinish]
    exact ih
  | case4 s out sc h hlen start haud ih => exact hskip s out sc h hlen haud ih

/-! ## Going on with more -/

/-- The search can go on where the last one ended, two bytes back: no start code that has its
    last byte in what comes next is passed by. -/
def Resumable (s : AuSplitter) : Prop :=
  s.searchFrom ≤ s.buf.length - 2 ∨
    1 ≤ s.searchFrom ∧ s.searchFrom < s.buf.length ∧ s.buf[s.searchFrom - 1]? = some 1

/-- The splitter with more bytes. -/
def extend (s : AuSplitter) (more : Bytes) : AuSplitter := { s with buf := s.buf ++ more }

/-- More bytes make a place that was searched no less searched. -/
theorem Resumable.extend (h : s.Resumable) (more : Bytes) : (s.extend more).Resumable := by
  have hlen : (s.buf ++ more).length = s.buf.length + more.length := List.length_append
  rcases h with hle | ⟨hpos, hlt, hone⟩
  · refine .inl ?_
    show s.searchFrom ≤ (s.buf ++ more).length - 2
    omega
  · refine .inr ⟨hpos, ?_, ?_⟩
    · show s.searchFrom < (s.buf ++ more).length
      omega
    · show (s.buf ++ more)[s.searchFrom - 1]? = some 1
      rw [List.getElem?_append_left (by omega), hone]

/-- Behind a start code. -/
private theorem resumable_behind {s : AuSplitter} {sc : Nat} (hsc : StartCodeAt s.buf sc)
    (hlen : ¬ s.buf.length ≤ sc + 3) (hfrom : s.searchFrom = sc + 3) : s.Resumable := by
  -- the byte in front is the 1 that ends the code, so no code lies across
  refine .inr ⟨by omega, by omega, ?_⟩
  rw [hfrom]
  exact hsc.2.2

/-- The rest begins with the start code that it was cut at. -/
private theorem cut_startCode (h : StartCodeAt s.buf sc) :
    StartCodeAt (s.cut sc).buf (sc - beginOf s.buf sc) := by
  have hle := beginOf_le s.buf sc
  unfold cut
  rw [startCodeAt_drop, Nat.add_sub_cancel' hle]
  exact h

/-- And the search of it begins behind that. -/
private theorem cut_resumable (h : StartCodeAt s.buf sc) (hlen : ¬ s.buf.length ≤ sc + 3) :
    (s.cut sc).Resumable := by
  have hle := beginOf_le s.buf sc
  apply resumable_behind (cut_startCode h) _ rfl
  unfold cut
  rw [List.length_drop]
  omega

/-- The loop sees where it begins to search by what it finds only. -/
private theorem pushLoop_congr {start' : Nat}
    (h : findStartCode s.buf s.searchFrom = findStartCode s.buf start') (out : List AccessUnit) :
    s.pushLoop out = pushLoop { s with searchFrom := start' } out := by
  cases hres : findStartCode s.buf s.searchFrom with
  | none => rw [pushLoop_none hres, pushLoop_none (s := { s with searchFrom := start' })
      (h.symm.trans hres)]
  -- each turn is decided by the place that the search gives
  | some sc =>
    have hres' : findStartCode s.buf start' = some sc := h.symm.trans hres
    by_cases hlen : s.buf.length ≤ sc + 3
    · rw [pushLoop_wait hres hlen, pushLoop_wait (s := { s with searchFrom := start' }) hres' hlen]
    · by_cases hcuts : s.Cuts sc
      · rw [pushLoop_cut hres hlen hcuts,
          pushLoop_cut (s := { s with searchFrom := start' }) hres' hlen hcuts]
        rfl
      · rw [pushLoop_skip hres hlen hcuts,
          pushLoop_skip (s := { s with searchFrom := start' }) hres' hlen hcuts]

/-- With more bytes, the search that found nothing may begin anew two bytes back. -/
private theorem findStartCode_extend (hs : s.Resumable)
    (h : findStartCode s.buf s.searchFrom = none) (more : Bytes) :
    findStartCode (s.buf ++ more) s.searchFrom =
      findStartCode (s.buf ++ more) (s.buf.length - 2) := by
  rw [findStartCode_eq_none] at h
  apply findStartCode_congr
  intro k hk
  by_cases hin : k + 2 < s.buf.length
  · -- it would have been found
    have hno : ¬ s.searchFrom ≤ k := fun hle => h k hle ((startCodeAt_append hin).mp hk)
    omega
  -- a code across the old end begins two bytes back at most
  · rcases hs with hle | ⟨hpos, hlt, hone⟩
    · omega
    -- it would begin with a 1 there
    · have hne : k ≠ s.searchFrom - 1 := by
        rintro rfl
        have hzero := hk.1
        rw [List.getElem?_append_left (by omega), hone] at hzero
        exact absurd hzero (by decide)
      omega

/-- Whether a start code cuts shows in its header. -/
private theorem cuts_extend (hlen : ¬ s.buf.length ≤ sc + 3) (more : Bytes) :
    (s.extend more).Cuts sc ↔ s.Cuts sc := by
  unfold Cuts extend
  dsimp only
  rw [beginOf_append (by omega), List.getD_eq_getElem?_getD, List.getD_eq_getElem?_getD,
    List.getElem?_append_left (by omega)]

/-- What comes later changes neither the piece nor where the rest begins. -/
private theorem cut_extend (hlen : ¬ s.buf.length ≤ sc + 3) (more : Bytes) :
    (s.extend more).cut sc = (s.cut sc).extend more ∧
      (s.buf ++ more).take (beginOf (s.buf ++ more) sc) = s.buf.take (beginOf s.buf sc) := by
  have hle := beginOf_le s.buf sc
  have htake :
      (s.buf ++ more).take (beginOf (s.buf ++ more) sc) = s.buf.take (beginOf s.buf sc) := by
    rw [beginOf_append (by omega), List.take_append_of_le_length (by omega)]
  refine ⟨?_, htake⟩
  unfold cut extend
  dsimp only
  rw [htake, beginOf_append (by omega), List.drop_append_of_le_length (by omega)]

/-- The loop stops for want of bytes, and goes on with more as if they had been there. -/
theorem pushLoop_append (s : AuSplitter) (out : List AccessUnit) (hs : s.Resumable)
    (more : Bytes) :
    (s.extend more).pushLoop out =
      ((s.pushLoop out).1.extend more).pushLoop (s.pushLoop out).2 := by
  induction s, out using pushLoop_cases with
  -- nothing found: with more bytes the search goes on two bytes back
  | hnone s out h =>
    rw [pushLoop_none h]
    exact pushLoop_congr (findStartCode_extend hs h more) out
  -- no header yet: the same code is found again
  | hwait s out sc h hlen =>
    rw [pushLoop_wait h hlen]
    apply pushLoop_congr
    have hsc := (findStartCode_eq_some.mp h).append more
    rw [extend, findStartCode_eq_some.mpr hsc]
    exact (findStartCode_eq_some.mpr ⟨Nat.le_refl sc, hsc.found, fun j hle hlt =>
      absurd hlt (Nat.not_lt.mpr hle)⟩).symm
  -- the header is there: more bytes behind change neither the cut nor the unit
  | hcut s out sc h hlen hcuts ih =>
    have hsc := findStartCode_eq_some.mp h
    have hlen' : ¬ (s.extend more).buf.length ≤ sc + 3 := by
      unfold extend
      rw [List.length_append]
      omega
    obtain ⟨hcut, htake⟩ := cut_extend hlen more
    rw [pushLoop_cut h hlen hcuts, ← ih (cut_resumable hsc.found hlen),
      pushLoop_cut (s := s.extend more) (findStartCode_eq_some.mpr (hsc.append more)) hlen'
        ((cuts_extend hlen more).mpr hcuts), hcut]
    unfold extend
    dsimp only
    rw [htake]
  | hskip s out sc h hlen hcuts ih =>
    have hsc := findStartCode_eq_some.mp h
    have hlen' : ¬ (s.extend more).buf.length ≤ sc + 3 := by
      unfold extend
      rw [List.length_append]
      omega
    rw [pushLoop_skip h hlen hcuts, ← ih (resumable_behind hsc.found hlen rfl),
      pushLoop_skip (s := s.extend more) (findStartCode_eq_some.mpr (hsc.append more)) hlen'
        (mt (cuts_extend hlen more).mp hcuts)]
    rfl

/-! ## Calls of `push` -/

/-- Calls of `push`, one after the other. -/
def pushAll (s : AuSplitter) (chunks : List Bytes) (out : List AccessUnit) :
    AuSplitter × List AccessUnit :=
  chunks.foldl (fun r chunk => r.1.push chunk r.2) (s, out)

/-- A splitter that has got nothing. -/
private theorem resumable_new : ({} : AuSplitter).Resumable := .inl (Nat.le_refl 0)

/-- Two calls are one, as the search goes on where it could not decide. -/
private theorem push_append (hs : s.Resumable) (chunk more : Bytes) (out : List AccessUnit) :
    (s.push chunk out).1.push more (s.push chunk out).2 = s.push (chunk ++ more) out := by
  have happend := pushLoop_append (s.extend chunk) out (hs.extend chunk) more
  unfold extend at happend
  dsimp only at happend
  rw [List.append_assoc] at happend
  exact happend.symm

/-- So all calls are one. -/
private theorem pushAll_cons (hs : s.Resumable) (chunk : Bytes) (chunks : List Bytes)
    (out : List AccessUnit) :
    s.pushAll (chunk :: chunks) out = s.push (chunk ++ chunks.flatten) out := by
  induction chunks generalizing chunk with
  | nil => rw [List.flatten_nil, List.append_nil]; rfl
  -- two calls are one call with both chunks
  | cons chunk' chunks ih =>
    rw [List.flatten_cons, ← List.append_assoc, ← ih (chunk ++ chunk')]
    unfold pushAll
    rw [List.foldl_cons, List.foldl_cons, List.foldl_cons]
    dsimp only
    rw [push_append hs]

end AuSplitter

/-- What comes out of calls of `push` and one of `flush`, from a new splitter. -/
def emitted (chunks : List Bytes) : List AccessUnit :=
  let r := AuSplitter.pushAll {} chunks []
  (r.1.flush r.2).2

/-- The same as from one call of `push`. -/
theorem emitted_eq (chunks : List Bytes) : emitted chunks = emitted [chunks.flatten] := by
  cases chunks with
  -- no call at all is like one call without bytes
  | nil =>
    have hnone : findStartCode ([] : Bytes) 0 = none := rfl
    have hpush : ({} : AuSplitter).push [] [] = ({}, []) :=
      AuSplitter.pushLoop_none (s := {}) hnone []
    show _ = (((AuSplitter.push {} [] []).1).flush (AuSplitter.push {} [] []).2).2
    rw [hpush]
    rfl
  | cons chunk chunks =>
    unfold emitted
    rw [AuSplitter.pushAll_cons AuSplitter.resumable_new, List.flatten_cons,
      AuSplitter.pushAll_cons AuSplitter.resumable_new, List.flatten_nil, List.append_nil]

end QCBridge
