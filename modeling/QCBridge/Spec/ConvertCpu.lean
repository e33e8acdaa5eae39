import QCBridge.Agent.ConvertCpu

/-!
# The threads write the frame once

What a thread does to its chunk is a write to each word of its rows. A chunk is as many luma rows
as it is chroma rows twice, and the chunks of the two planes are as many; so the threads together
write each row of both planes, and each is the row that its pair has by itself.

## Key results

- `lumaRow?_eq`, `chromaRow?_eq`: what becomes of a row
- `thread?_eq`: what becomes of a chunk
- `convertCpu_converts`: what becomes of the frame
-/

namespace QCBridge

namespace EncodeWin

/-! ## Loops and slices -/

private theorem upTo?_succ {σ : Type} (body : σ → Nat → Option σ) (n : Nat) (s : σ) :
    upTo? body (n + 1) s = (upTo? body n s).bind fun s => body s n := by
  unfold upTo?
  rw [List.range_succ, List.foldlM_append]
  cases (List.range n).foldlM body s <;> simp

private theorem slice?_eq {α : Type} {l : List α} {a n : Nat} (h : a + n ≤ l.length) :
    slice? l a (a + n) = some ((l.drop a).take n) := by
  unfold slice?
  rw [if_pos ⟨Nat.le_add_right a n, h⟩, Nat.add_sub_cancel_left]

private theorem put?_eq {l : List Word} {i : Nat} (h : i < l.length) (value : UInt16) :
    put? l i value = some (patch Word.write (fun j => if j = i then some value else none) l) := by
  unfold put?
  rw [if_pos h, modify_eq_patch]

/-- A loop whose turns write different words. -/
private theorem upTo?_patch (body : List Word → Nat → Option (List Word)) (l : List Word) (n : Nat)
    (turn done : Nat → Nat → Option UInt16)
    (hbody : ∀ i < n, ∀ s : List Word, s.length = l.length →
      body s i = some (patch Word.write (turn i) s))
    (hstart : ∀ j, done 0 j = none)
    (hnext : ∀ i < n, ∀ j, done (i + 1) j = (done i j).or (turn i j))
    (hnew : ∀ i < n, ∀ j, turn i j = none ∨ done i j = none) :
    upTo? body n l = some (patch Word.write (done n) l) := by
  induction n with
  | zero =>
    rw [funext hstart, patch_none]
    rfl
  | succ n ih =>
    have hrest := ih (fun i hi => hbody i (Nat.lt_succ_of_lt hi))
      (fun i hi => hnext i (Nat.lt_succ_of_lt hi)) fun i hi => hnew i (Nat.lt_succ_of_lt hi)
    rw [upTo?_succ, hrest, Option.bind_some, hbody n (Nat.lt_succ_self n) _ length_patch,
      patch_patch (hnew n (Nat.lt_succ_self n)), funext (hnext n (Nat.lt_succ_self n))]

/-- A pitch apart. -/
private theorem index_iff {n x : Nat} (hx : x < n) (i r : Nat) :
    i = r * n + x ↔ i / n = r ∧ i % n = x := by
  have hn : 0 < n := Nat.lt_of_le_of_lt (Nat.zero_le x) hx
  constructor
  · rintro rfl
    rw [Nat.mul_comm, Nat.mul_add_div hn, Nat.div_eq_of_lt hx, Nat.mul_add_mod,
      Nat.mod_eq_of_lt hx]
    exact ⟨rfl, rfl⟩
  · rintro ⟨rfl, rfl⟩
    exact (Nat.div_add_mod' i n).symm

/-! ## What is written -/

namespace Conversion

/-- A pixel of a row of the frame. -/
def pixel (f : Conversion) (py x : Nat) : List UInt8 :=
  (f.src.drop ((f.h - 1 - py) * f.bpr + x * 16)).take 16

/-- The words of a chroma row, pair by pair. -/
def chromaWord (f : Conversion) (pair x : Nat) : UInt16 :=
  let codes := f.codes.chroma [f.pixel (2 * pair) (2 * (x / 2)),
    f.pixel (2 * pair) (2 * (x / 2) + 1), f.pixel (2 * pair + 1) (2 * (x / 2)),
    f.pixel (2 * pair + 1) (2 * (x / 2) + 1)]
  if x % 2 = 0 then codes.1 else codes.2

/-- What rows `lo` to `hi` of a chunk get, with `first` the row of the frame that comes first in
    it. -/
def lumaRows (f : Conversion) (first lo hi i : Nat) : Option UInt16 :=
  if lo ≤ i / f.yPitch ∧ i / f.yPitch < hi ∧ i % f.yPitch < f.w then
    some (f.codes.luma (f.pixel (first + i / f.yPitch) (i % f.yPitch)))
  else none

def chromaRows (f : Conversion) (first hi i : Nat) : Option UInt16 :=
  if i / f.cPitch < hi ∧ i % f.cPitch < f.w then
    some (f.chromaWord (first + i / f.cPitch) (i % f.cPitch))
  else none

/-- What `convert_cpu` is called with. -/
structure Fits (f : Conversion) : Prop where
  wEven : f.w % 2 = 0
  hEven : f.h % 2 = 0
  w16 : 16 ≤ f.w
  h16 : 16 ≤ f.h
  yPitch : f.w ≤ f.yPitch
  cPitch : f.w ≤ f.cPitch
  bpr : 16 * f.w ≤ f.bpr
  src : f.src.length = f.bpr * f.h

variable {f : Conversion}

/-- The pixels are inside `src`. -/
theorem Fits.inside (hf : f.Fits) {py : Nat} (hpy : py < f.h) :
    (f.h - 1 - py) * f.bpr + f.w * 16 ≤ f.src.length := by
  have hrow : f.h - 1 - py + 1 ≤ f.h := by omega
  calc (f.h - 1 - py) * f.bpr + f.w * 16
      ≤ (f.h - 1 - py) * f.bpr + f.bpr := by
        have := hf.bpr
        omega
    _ = (f.h - 1 - py + 1) * f.bpr := (Nat.succ_mul _ _).symm
    _ ≤ f.h * f.bpr := Nat.mul_le_mul_right _ hrow
    _ = f.src.length := by rw [hf.src, Nat.mul_comm]

private theorem Fits.pixel?_eq (hf : f.Fits) {py x : Nat} (hpy : py < f.h) (hx : x < f.w) :
    f.pixel? py x = some (f.pixel py x) := by
  have hinside := hf.inside hpy
  unfold pixel? srow?
  rw [if_pos hpy]
  show slice? _ _ _ = _
  rw [slice?_eq (by omega)]
  rfl

/-- A pixel of a row that was cut out. -/
private theorem Fits.slice?_pixel (hf : f.Fits) {py x : Nat} (hpy : py < f.h) (hx : x < f.w) :
    slice? ((f.src.drop ((f.h - 1 - py) * f.bpr)).take (f.w * 16)) (x * 16) (x * 16 + 16) =
      some (f.pixel py x) := by
  have hinside := hf.inside hpy
  rw [slice?_eq, List.drop_take, List.take_take, List.drop_drop, Nat.min_eq_left (by omega)]
  · rfl
  · rw [List.length_take, List.length_drop]
    omega

theorem lumaRow?_eq (hf : f.Fits) (firstPair pr dy : Nat) (yc : List Word)
    (hpy : 2 * (firstPair + pr) + dy < f.h) (hyc : (2 * pr + dy + 1) * f.yPitch ≤ yc.length) :
    f.lumaRow? (firstPair + pr) pr dy yc = some (patch Word.write
      (f.lumaRows (2 * firstPair) (2 * pr + dy) (2 * pr + dy + 1)) yc) := by
  have hrow : (2 * pr + dy) * f.yPitch + f.yPitch ≤ yc.length := by
    rw [← Nat.succ_mul]
    exact hyc
  have hpitch := hf.yPitch
  -- so many words of the row
  have hloop := upTo?_patch (fun yc x => do
      let px ← slice? ((f.src.drop ((f.h - 1 - (2 * (firstPair + pr) + dy)) * f.bpr)).take
        (f.w * 16)) (x * 16) (x * 16 + 16)
      put? yc ((2 * pr + dy) * f.yPitch + x) (f.codes.luma px)) yc f.w
    (fun x i => if i = (2 * pr + dy) * f.yPitch + x then
      some (f.codes.luma (f.pixel (2 * (firstPair + pr) + dy) x)) else none)
    (fun n i => if i / f.yPitch = 2 * pr + dy ∧ i % f.yPitch < n then
      some (f.codes.luma (f.pixel (2 * (firstPair + pr) + dy) (i % f.yPitch))) else none)
    ?_ ?_ ?_ ?_
  · unfold lumaRow? srow?
    rw [if_pos hpy]
    show (slice? _ _ _).bind _ = _
    rw [slice?_eq (hf.inside hpy)]
    show (slice? _ _ _).bind _ = _
    rw [slice?_eq (by omega)]
    refine hloop.trans (congrArg (fun p => some (patch Word.write p yc)) (funext fun i => ?_))
    unfold lumaRows
    by_cases hi : i / f.yPitch = 2 * pr + dy
    · have hfirst : 2 * firstPair + (2 * pr + dy) = 2 * (firstPair + pr) + dy := by omega
      rw [hi, hfirst]
      simp only [true_and, Nat.le_refl, Nat.lt_succ_self]
    · have hno : ¬ (2 * pr + dy ≤ i / f.yPitch ∧ i / f.yPitch < 2 * pr + dy + 1 ∧
          i % f.yPitch < f.w) := by omega
      rw [if_neg fun h => hi h.1, if_neg hno]
  · intro x hx s hs
    show (slice? _ _ _).bind _ = _
    rw [hf.slice?_pixel hpy hx, Option.bind_some, put?_eq (by rw [hs]; omega)]
  · intro i
    rw [if_neg fun h => Nat.not_lt_zero _ h.2]
  · intro x hx i
    have hiff := index_iff (Nat.lt_of_lt_of_le hx hpitch) i (2 * pr + dy)
    by_cases hi : i = (2 * pr + dy) * f.yPitch + x
    · obtain ⟨hdiv, hmod⟩ := hiff.mp hi
      rw [if_pos ⟨hdiv, by omega⟩, if_neg fun h => by omega, if_pos hi, hmod]
      rfl
    · have hsame : (i / f.yPitch = 2 * pr + dy ∧ i % f.yPitch < x + 1) ↔
          i / f.yPitch = 2 * pr + dy ∧ i % f.yPitch < x := by
        have hno : ¬ (i / f.yPitch = 2 * pr + dy ∧ i % f.yPitch = x) := mt hiff.mpr hi
        omega
      rw [if_neg hi, Option.or_none, if_congr hsame rfl rfl]
  · intro x hx i
    have hiff := index_iff (Nat.lt_of_lt_of_le hx hpitch) i (2 * pr + dy)
    by_cases hi : i = (2 * pr + dy) * f.yPitch + x
    · right
      rw [if_neg]
      rw [(hiff.mp hi).2]
      exact fun h => Nat.lt_irrefl _ h.2
    · exact .inl (if_neg hi)

theorem chromaRow?_eq (hf : f.Fits) {pair : Nat} {crow : List Word} (hpair : pair < f.h / 2)
    (hcrow : crow.length = f.cPitch) :
    f.chromaRow? pair crow = some (patch Word.write (fun x =>
      if x < f.w then some (f.chromaWord pair x) else none) crow) := by
  have hpitch := hf.cPitch
  have heven := hf.wEven
  -- the two words of so many pairs
  have hloop := upTo?_patch (f.chromaPair? pair) crow (f.w / 2)
    (fun cx x => if x / 2 = cx then some (f.chromaWord pair x) else none)
    (fun n x => if x / 2 < n then some (f.chromaWord pair x) else none)
    ?_ ?_ ?_ ?_
  · refine hloop.trans (congrArg (fun p => some (patch Word.write p crow)) (funext fun x => ?_))
    have hiff : x / 2 < f.w / 2 ↔ x < f.w := by omega
    rw [if_congr hiff rfl rfl]
  · intro cx hcx s hs
    have hlt : 2 * cx + 1 < f.w := by omega
    have hpx : ([(0, 0), (0, 1), (1, 0), (1, 1)].mapM fun d =>
        f.pixel? (2 * pair + d.1) (2 * cx + d.2)) =
          some [f.pixel (2 * pair) (2 * cx), f.pixel (2 * pair) (2 * cx + 1),
            f.pixel (2 * pair + 1) (2 * cx), f.pixel (2 * pair + 1) (2 * cx + 1)] := by
      simp only [List.mapM_cons, List.mapM_nil]
      rw [hf.pixel?_eq (by omega) (by omega), hf.pixel?_eq (by omega) (by omega),
        hf.pixel?_eq (by omega) (by omega), hf.pixel?_eq (by omega) (by omega)]
      rfl
    unfold chromaPair?
    dsimp only
    rw [hpx]
    show (put? s (2 * cx) _).bind (fun crow => put? crow (2 * cx + 1) _) = _
    rw [put?_eq (by omega), Option.bind_some, put?_eq (by rw [length_patch]; omega),
      patch_patch fun x => ?_]
    · refine congrArg (fun p => some (patch Word.write p s)) (funext fun x => ?_)
      by_cases hx : x / 2 = cx
      · rw [if_pos hx, chromaWord, hx]
        by_cases hmod : x % 2 = 0
        · rw [if_pos (by omega), if_pos hmod]
          rfl
        · rw [if_neg (by omega), if_pos (by omega), if_neg hmod]
          rfl
      · rw [if_neg (by omega), if_neg (by omega), if_neg hx]
        rfl
    · by_cases hx : x = 2 * cx + 1
      · exact .inr (if_neg (by omega))
      · exact .inl (if_neg hx)
  · intro x
    rw [if_neg (Nat.not_lt_zero _)]
  · intro cx hcx x
    by_cases hx : x / 2 = cx
    · rw [if_pos (by omega), if_neg (by omega), if_pos hx]
      rfl
    · have hsame : x / 2 < cx + 1 ↔ x / 2 < cx := by omega
      rw [if_neg hx, Option.or_none, if_congr hsame rfl rfl]
  · intro cx hcx x
    by_cases hx : x / 2 = cx
    · exact .inr (if_neg (by omega))
    · exact .inl (if_neg hx)

/-! ## Rows after rows -/

private theorem lumaRows_self (first lo i : Nat) : f.lumaRows first lo lo i = none :=
  if_neg fun h => absurd h.2.1 (Nat.not_lt.mpr h.1)

private theorem patch_lumaRows (first : Nat) {lo mid hi : Nat} (hlo : lo ≤ mid) (hhi : mid ≤ hi)
    (yc : List Word) :
    patch Word.write (f.lumaRows first mid hi) (patch Word.write (f.lumaRows first lo mid) yc) =
      patch Word.write (f.lumaRows first lo hi) yc := by
  rw [patch_patch]
  · congr 1
    funext i
    unfold lumaRows
    generalize i / f.yPitch = row
    by_cases hbefore : row < mid
    · have hno : ¬ (mid ≤ row ∧ row < hi ∧ i % f.yPitch < f.w) := by omega
      have hsame : (lo ≤ row ∧ row < mid ∧ i % f.yPitch < f.w) ↔
          (lo ≤ row ∧ row < hi ∧ i % f.yPitch < f.w) := by omega
      rw [if_neg hno, Option.or_none, if_congr hsame rfl rfl]
    · have hno : ¬ (lo ≤ row ∧ row < mid ∧ i % f.yPitch < f.w) := by omega
      have hsame : (mid ≤ row ∧ row < hi ∧ i % f.yPitch < f.w) ↔
          (lo ≤ row ∧ row < hi ∧ i % f.yPitch < f.w) := by omega
      rw [if_neg hno, Option.none_or, if_congr hsame rfl rfl]
  · intro i
    unfold lumaRows
    by_cases hbefore : i / f.yPitch < mid
    · exact .inl (if_neg (by omega))
    · exact .inr (if_neg (by omega))

/-- Some rows further on. -/
private theorem lumaRows_shift (hf : f.Fits) (first hi r i : Nat) :
    f.lumaRows first 0 hi (f.yPitch * r + i) = f.lumaRows (first + r) 0 (hi - r) i := by
  have hpos : 0 < f.yPitch := by
    have := hf.w16
    have := hf.yPitch
    omega
  have hrow : (f.yPitch * r + i) / f.yPitch = r + i / f.yPitch := Nat.mul_add_div hpos r i
  have hcol : (f.yPitch * r + i) % f.yPitch = i % f.yPitch := Nat.mul_add_mod _ r i
  unfold lumaRows
  rw [hrow, hcol, ← Nat.add_assoc first]
  generalize i / f.yPitch = row
  have hiff : r + row < hi ↔ row < hi - r := by omega
  simp only [Nat.zero_le, true_and, hiff]

private theorem chromaRows_shift (hf : f.Fits) (first hi r i : Nat) :
    f.chromaRows first hi (f.cPitch * r + i) = f.chromaRows (first + r) (hi - r) i := by
  have hpos : 0 < f.cPitch := by
    have := hf.w16
    have := hf.cPitch
    omega
  have hrow : (f.cPitch * r + i) / f.cPitch = r + i / f.cPitch := Nat.mul_add_div hpos r i
  have hcol : (f.cPitch * r + i) % f.cPitch = i % f.cPitch := Nat.mul_add_mod _ r i
  unfold chromaRows
  rw [hrow, hcol, ← Nat.add_assoc first]
  generalize i / f.cPitch = row
  have hiff : r + row < hi ↔ row < hi - r := by omega
  simp only [hiff]

/-- As many rows as there are words for. -/
private theorem patch_lumaRows_of_le (first : Nat) {hi hi' : Nat} {yc : List Word}
    (hyc : yc.length ≤ f.yPitch * hi) (hle : hi ≤ hi') :
    patch Word.write (f.lumaRows first 0 hi') yc = patch Word.write (f.lumaRows first 0 hi) yc := by
  refine patch_congr fun i hlt => ?_
  have hrow : i / f.yPitch < hi := Nat.div_lt_of_lt_mul (Nat.lt_of_lt_of_le hlt hyc)
  unfold lumaRows
  simp only [hrow, Nat.lt_of_lt_of_le hrow hle]

private theorem patch_chromaRows_of_le (first : Nat) {hi hi' : Nat} {cc : List Word}
    (hcc : cc.length ≤ f.cPitch * hi) (hle : hi ≤ hi') :
    patch Word.write (f.chromaRows first hi') cc = patch Word.write (f.chromaRows first hi) cc := by
  refine patch_congr fun i hlt => ?_
  have hrow : i / f.cPitch < hi := Nat.div_lt_of_lt_mul (Nat.lt_of_lt_of_le hlt hcc)
  unfold chromaRows
  simp only [hrow, Nat.lt_of_lt_of_le hrow hle]

/-! ## Chunks -/

private theorem pairs?_eq (hf : f.Fits) (firstPair pr : Nat) {m : Nat} {cc : List Word}
    (yc : List Word)
    (hcc : cc.length = m * f.cPitch) (hyc : 2 * (pr + m) * f.yPitch ≤ yc.length)
    (hlast : ∀ i < m, firstPair + pr + i < f.h / 2) :
    f.pairs? firstPair (chunks f.cPitch m cc) pr yc =
      some (patch Word.write (f.lumaRows (2 * firstPair) (2 * pr) (2 * (pr + m))) yc,
        chunks f.cPitch m (patch Word.write (f.chromaRows (firstPair + pr) m) cc)) := by
  induction m generalizing pr cc yc with
  | zero =>
    rw [Nat.add_zero, funext (lumaRows_self (f := f) (2 * firstPair) (2 * pr)), patch_none]
    rfl
  | succ m ih =>
    have hpair : firstPair + pr < f.h / 2 := hlast 0 (Nat.succ_pos m)
    rw [Nat.succ_mul] at hcc
    have htake : (cc.take f.cPitch).length = f.cPitch := by
      rw [List.length_take, hcc]
      omega
    have hdrop : (cc.drop f.cPitch).length = m * f.cPitch := by
      rw [List.length_drop, hcc]
      omega
    have hrows : ∀ r, r ≤ 2 * (pr + (m + 1)) → r * f.yPitch ≤ yc.length := fun r hr =>
      Nat.le_trans (Nat.mul_le_mul_right _ hr) hyc
    -- the first pair, and then the rest
    have hluma₀ := lumaRow?_eq hf firstPair pr 0 yc (by omega) (hrows _ (by omega))
    have hluma₁ := lumaRow?_eq hf firstPair pr 1
      (patch Word.write (f.lumaRows (2 * firstPair) (2 * pr + 0) (2 * pr + 0 + 1)) yc)
      (by omega) (by rw [length_patch]; exact hrows _ (by omega))
    rw [patch_lumaRows _ (by omega) (by omega)] at hluma₁
    have hchroma := chromaRow?_eq hf hpair htake
    have hrest := ih (pr + 1)
      (patch Word.write (f.lumaRows (2 * firstPair) (2 * pr + 0) (2 * pr + 1 + 1)) yc) hdrop
      (by rw [length_patch]; exact hrows _ (by omega)) fun i hi => by
        have := hlast (i + 1) (Nat.succ_lt_succ hi)
        omega
    have hall : pr + 1 + m = pr + (m + 1) := by omega
    have hnext : 2 * (pr + 1) = 2 * pr + 1 + 1 := by omega
    rw [hall, hnext, patch_lumaRows _ (by omega) (by omega)] at hrest
    have hcrow : patch Word.write (fun x =>
        if x < f.w then some (f.chromaWord (firstPair + pr) x) else none) (cc.take f.cPitch) =
          (patch Word.write (f.chromaRows (firstPair + pr) (m + 1)) cc).take f.cPitch := by
      rw [take_patch]
      refine patch_congr fun x hx => ?_
      rw [htake] at hx
      unfold chromaRows
      rw [Nat.div_eq_of_lt hx, Nat.mod_eq_of_lt hx]
      simp only [Nat.succ_pos, true_and, Nat.add_zero]
    have hcrows : patch Word.write (f.chromaRows (firstPair + (pr + 1)) m) (cc.drop f.cPitch) =
        (patch Word.write (f.chromaRows (firstPair + pr) (m + 1)) cc).drop f.cPitch := by
      rw [drop_patch]
      refine patch_congr fun i _ => ?_
      have hshift := chromaRows_shift hf (firstPair + pr) (m + 1) 1 i
      rw [Nat.mul_one] at hshift
      exact hshift.symm
    rw [hcrows] at hrest
    rw [chunks, pairs?, if_neg (Nat.not_le.mpr hpair), hluma₀]
    show (f.lumaRow? _ _ _ _).bind _ = _
    rw [hluma₁]
    show (f.chromaRow? _ _).bind _ = _
    rw [hchroma]
    show (f.pairs? _ _ _ _).bind _ = _
    rw [hrest, hcrow]
    rfl

private theorem chunksMut?_eq {α : Type} {n m : Nat} {l : List α} (hn : 0 < n)
    (hl : l.length = m * n) :
    chunksMut? n l = some (chunks n m l) := by
  unfold chunksMut?
  have hm : (l.length + n - 1) / n = m := by
    rw [hl, Nat.add_sub_assoc hn, Nat.mul_comm, Nat.mul_add_div hn,
      Nat.div_eq_of_lt (Nat.sub_lt hn Nat.one_pos), Nat.add_zero]
  rw [if_neg (Nat.ne_of_gt hn), hm]

/-- What becomes of a chunk of `m` pairs. -/
theorem thread?_eq (hf : f.Fits) (firstPair : Nat) {m : Nat} {yc cc : List Word}
    (hyc : yc.length = 2 * m * f.yPitch) (hcc : cc.length = m * f.cPitch)
    (hlast : ∀ i < m, firstPair + i < f.h / 2) :
    f.thread? firstPair yc cc = some (patch Word.write (f.lumaRows (2 * firstPair) 0 (2 * m)) yc,
      patch Word.write (f.chromaRows firstPair m) cc) := by
  have hpos : 0 < f.cPitch := by
    have := hf.w16
    have := hf.cPitch
    omega
  have hpairs := pairs?_eq hf firstPair 0 yc hcc
    (by rw [Nat.zero_add]; exact Nat.le_of_eq hyc.symm) hlast
  rw [Nat.zero_add, Nat.add_zero, Nat.mul_zero] at hpairs
  unfold thread?
  rw [chunksMut?_eq hpos hcc]
  show (f.pairs? _ _ _ _).bind _ = _
  rw [hpairs]
  show some (_, _) = _
  rw [flatten_chunks (by rw [length_patch]; exact Nat.le_of_eq hcc)]

/-- What becomes of the rest of the planes, `k` pairs from chunk `t` on. -/
private theorem threads?_eq (hf : f.Fits) (chunk m t : Nat) {k : Nat} {yl cl : List Word}
    (hyl : yl.length = 2 * k * f.yPitch) (hcl : cl.length = k * f.cPitch)
    (hlast : ∀ i < k, t * chunk + i < f.h / 2) :
    f.threads? chunk t (chunks (f.yPitch * 2 * chunk) m yl) (chunks (f.cPitch * chunk) m cl) =
      some (chunks (f.yPitch * 2 * chunk) m
          (patch Word.write (f.lumaRows (2 * (t * chunk)) 0 (2 * k)) yl),
        chunks (f.cPitch * chunk) m (patch Word.write (f.chromaRows (t * chunk) k) cl)) := by
  induction m generalizing t k yl cl with
  | zero => rfl
  | succ m ih =>
    -- the pairs of this chunk
    obtain ⟨here, hhere⟩ : ∃ here, here = min chunk k := ⟨_, rfl⟩
    have hle : here ≤ k := hhere ▸ Nat.min_le_right chunk k
    have hytake : (yl.take (f.yPitch * 2 * chunk)).length = 2 * here * f.yPitch := by
      rw [List.length_take, hyl, Nat.mul_assoc, Nat.mul_comm f.yPitch, Nat.mul_min_mul_right,
        Nat.mul_min_mul_left, hhere]
    have hctake : (cl.take (f.cPitch * chunk)).length = here * f.cPitch := by
      rw [List.length_take, hcl, Nat.mul_comm f.cPitch, Nat.mul_min_mul_right, hhere]
    have hydrop : (yl.drop (f.yPitch * 2 * chunk)).length = 2 * (k - chunk) * f.yPitch := by
      rw [List.length_drop, hyl, Nat.mul_assoc f.yPitch, Nat.mul_comm f.yPitch, ← Nat.sub_mul,
        ← Nat.mul_sub]
    have hcdrop : (cl.drop (f.cPitch * chunk)).length = (k - chunk) * f.cPitch := by
      rw [List.length_drop, hcl, Nat.mul_comm f.cPitch, ← Nat.sub_mul]
    have hthread := thread?_eq hf (t * chunk) hytake hctake fun i hi =>
      hlast i (Nat.lt_of_lt_of_le hi hle)
    have hrest := ih (t + 1) hydrop hcdrop fun i hi => by
      have := hlast (chunk + i) (by omega)
      rw [Nat.succ_mul]
      omega
    have hyhere : patch Word.write (f.lumaRows (2 * (t * chunk)) 0 (2 * here))
        (yl.take (f.yPitch * 2 * chunk)) =
          (patch Word.write (f.lumaRows (2 * (t * chunk)) 0 (2 * k)) yl).take
            (f.yPitch * 2 * chunk) := by
      rw [take_patch]
      refine (patch_lumaRows_of_le _ (Nat.le_of_eq ?_) (Nat.mul_le_mul_left 2 hle)).symm
      rw [hytake, Nat.mul_comm]
    have hchere : patch Word.write (f.chromaRows (t * chunk) here) (cl.take (f.cPitch * chunk)) =
        (patch Word.write (f.chromaRows (t * chunk) k) cl).take (f.cPitch * chunk) := by
      rw [take_patch]
      refine (patch_chromaRows_of_le _ (Nat.le_of_eq ?_) hle).symm
      rw [hctake, Nat.mul_comm]
    have hyrest : patch Word.write (f.lumaRows (2 * ((t + 1) * chunk)) 0 (2 * (k - chunk)))
        (yl.drop (f.yPitch * 2 * chunk)) =
          (patch Word.write (f.lumaRows (2 * (t * chunk)) 0 (2 * k)) yl).drop
            (f.yPitch * 2 * chunk) := by
      rw [drop_patch]
      refine patch_congr fun i _ => ?_
      rw [Nat.mul_assoc, lumaRows_shift hf, ← Nat.mul_sub, ← Nat.mul_add, ← Nat.succ_mul]
    have hcrest : patch Word.write (f.chromaRows ((t + 1) * chunk) (k - chunk))
        (cl.drop (f.cPitch * chunk)) =
          (patch Word.write (f.chromaRows (t * chunk) k) cl).drop (f.cPitch * chunk) := by
      rw [drop_patch]
      refine patch_congr fun i _ => ?_
      rw [chromaRows_shift hf, ← Nat.succ_mul]
    rw [hyhere, hchere] at hthread
    rw [hyrest, hcrest] at hrest
    simp only [chunks]
    rw [threads?, hthread]
    show (f.threads? _ _ _ _).bind _ = _
    rw [hrest]
    rfl

/-- As many chunks of either plane. -/
private theorem ceil_mul {a c : Nat} (ha : 0 < a) (hc : 0 < c) (b : Nat) :
    (a * b + a * c - 1) / (a * c) = (b + c - 1) / c := by
  have hlast : a * b + a * c - 1 = a * (b + c - 1) + (a - 1) := by
    have hall : a * (b + c - 1) + a = a * b + a * c := by
      rw [← Nat.mul_succ, ← Nat.mul_add]
      congr 1
      omega
    omega
  rw [← Nat.div_div_eq_div_mul, hlast, Nat.mul_add_div ha,
    Nat.div_eq_of_lt (Nat.sub_lt ha Nat.one_pos), Nat.add_zero]

private theorem convertCpu_eq (hf : f.Fits) {threads : Nat} (hthreads : 1 ≤ threads)
    {yPlane cPlane : List Word} (hy : yPlane.length = f.yPitch * f.h)
    (hc : cPlane.length = f.cPitch * (f.h / 2)) :
    f.convertCpu threads yPlane cPlane = some (patch Word.write (f.lumaRows 0 0 f.h) yPlane,
      patch Word.write (f.chromaRows 0 (f.h / 2)) cPlane) := by
  have hw := hf.w16
  have hh := hf.h16
  have hypos : 0 < f.yPitch := Nat.lt_of_lt_of_le (by omega) hf.yPitch
  have hcpos : 0 < f.cPitch := Nat.lt_of_lt_of_le (by omega) hf.cPitch
  -- the two planes are cut into as many chunks
  have htwice : 2 * (f.h / 2) = f.h := Nat.mul_div_cancel' (Nat.dvd_of_mod_eq_zero hf.hEven)
  obtain ⟨chunk, hchunk⟩ : ∃ chunk, chunk = (f.h / 2 + threads - 1) / threads := ⟨_, rfl⟩
  have hchunk1 : 0 < chunk := hchunk ▸ Nat.div_pos (by omega) hthreads
  have hytwo : 0 < f.yPitch * 2 := Nat.mul_pos hypos Nat.two_pos
  obtain ⟨m, hm⟩ : ∃ m, m = (f.h / 2 + chunk - 1) / chunk := ⟨_, rfl⟩
  -- of luma
  have hys : chunksMut? (f.yPitch * 2 * chunk) yPlane =
      some (chunks (f.yPitch * 2 * chunk) m yPlane) := by
    unfold chunksMut?
    rw [if_neg (Nat.ne_of_gt (Nat.mul_pos hytwo hchunk1)), hy, ← htwice,
      ← Nat.mul_assoc f.yPitch, ceil_mul hytwo hchunk1, ← hm]
  -- of chroma, which has half the rows
  have hcs : chunksMut? (f.cPitch * chunk) cPlane =
      some (chunks (f.cPitch * chunk) m cPlane) := by
    unfold chunksMut?
    rw [if_neg (Nat.ne_of_gt (Nat.mul_pos hcpos hchunk1)), hc, ceil_mul hcpos hchunk1, ← hm]
  -- enough chunks for all pairs of rows
  have henough : f.h / 2 ≤ m * chunk := by
    rw [hm]
    have hdiv := Nat.div_add_mod (f.h / 2 + chunk - 1) chunk
    have hmod := Nat.mod_lt (f.h / 2 + chunk - 1) hchunk1
    rw [Nat.mul_comm] at hdiv
    omega
  -- so the threads write every row
  have hall := threads?_eq hf chunk m 0 (k := f.h / 2)
    (by rw [htwice, Nat.mul_comm]; exact hy) (by rw [Nat.mul_comm]; exact hc) fun i hi => by omega
  rw [Nat.zero_mul, Nat.mul_zero, htwice] at hall
  unfold convertCpu
  show (chunksMut? (f.yPitch * 2 * ((f.h / 2 + threads - 1) / threads)) _).bind _ = _
  rw [← hchunk, hys]
  show (chunksMut? _ _).bind _ = _
  rw [hcs]
  show (f.threads? _ _ _ _).bind _ = _
  rw [hall]
  show some (_, _) = _
  rw [flatten_chunks, flatten_chunks]
  · -- and what they write is all of both planes
    rw [length_patch, hc, Nat.mul_comm f.cPitch, Nat.mul_comm f.cPitch, ← Nat.mul_assoc]
    exact Nat.mul_le_mul_right _ henough
  · rw [length_patch, hy, ← htwice, Nat.mul_assoc f.yPitch, Nat.mul_comm f.yPitch,
      Nat.mul_comm f.yPitch, ← Nat.mul_assoc, Nat.mul_left_comm]
    exact Nat.mul_le_mul_right _ (Nat.mul_le_mul_left 2 henough)

/-- A word of the luma plane. -/
private theorem getElem?_lumaRows {row x : Nat} (hrow : row < f.h) (hx : x < f.yPitch)
    (yPlane : List Word) :
    (patch Word.write (f.lumaRows 0 0 f.h) yPlane)[row * f.yPitch + x]? =
      yPlane[row * f.yPitch + x]?.map fun word =>
        if x < f.w then word.write (f.codes.luma (f.pixel row x)) else word := by
  obtain ⟨hdiv, hmod⟩ := (index_iff hx (row * f.yPitch + x) row).mp rfl
  rw [getElem?_patch]
  congr 1
  funext word
  unfold lumaRows
  rw [hdiv, hmod, Nat.zero_add]
  by_cases hin : x < f.w
  · rw [if_pos ⟨Nat.zero_le row, hrow, hin⟩, if_pos hin]
  · rw [if_neg fun h => hin h.2.2, if_neg hin]

private theorem getElem?_chromaRows {pair x : Nat} (hpair : pair < f.h / 2) (hx : x < f.cPitch)
    (cPlane : List Word) :
    (patch Word.write (f.chromaRows 0 (f.h / 2)) cPlane)[pair * f.cPitch + x]? =
      cPlane[pair * f.cPitch + x]?.map fun word =>
        if x < f.w then word.write (f.chromaWord pair x) else word := by
  obtain ⟨hdiv, hmod⟩ := (index_iff hx (pair * f.cPitch + x) pair).mp rfl
  rw [getElem?_patch]
  congr 1
  funext word
  unfold chromaRows
  rw [hdiv, hmod, Nat.zero_add]
  by_cases hin : x < f.w
  · rw [if_pos ⟨hpair, hin⟩, if_pos hin]
  · rw [if_neg fun h => hin h.2, if_neg hin]

/-- The rows of a pair in the two planes. -/
def pairRows (f : Conversion) (pair : Nat) (yPlane cPlane : List Word) : List Word × List Word :=
  ((yPlane.drop (f.yPitch * (2 * pair))).take (2 * f.yPitch),
    (cPlane.drop (f.cPitch * pair)).take f.cPitch)

/-- The pair by itself comes to what it is in the frame. -/
private theorem thread?_pairRows (hf : f.Fits) {pair : Nat} (hpair : pair < f.h / 2)
    {yPlane cPlane : List Word} (hy : yPlane.length = f.yPitch * f.h)
    (hc : cPlane.length = f.cPitch * (f.h / 2)) :
    f.thread? pair (f.pairRows pair yPlane cPlane).1 (f.pairRows pair yPlane cPlane).2 =
      some (f.pairRows pair (patch Word.write (f.lumaRows 0 0 f.h) yPlane)
        (patch Word.write (f.chromaRows 0 (f.h / 2)) cPlane)) := by
  have heven := hf.hEven
  -- two rows of luma and one of chroma
  have hylen : (f.pairRows pair yPlane cPlane).1.length = 2 * 1 * f.yPitch := by
    have hroom : f.yPitch * (2 * pair + 2) ≤ f.yPitch * f.h := Nat.mul_le_mul_left _ (by omega)
    rw [Nat.mul_add] at hroom
    unfold pairRows
    rw [List.length_take, List.length_drop, hy]
    omega
  have hclen : (f.pairRows pair yPlane cPlane).2.length = 1 * f.cPitch := by
    have hroom : f.cPitch * (pair + 1) ≤ f.cPitch * (f.h / 2) := Nat.mul_le_mul_left _ hpair
    rw [Nat.mul_add] at hroom
    unfold pairRows
    rw [List.length_take, List.length_drop, hc]
    omega
  -- the thread writes the rows of its pair
  rw [thread?_eq hf pair hylen hclen fun i hi => by omega]
  unfold pairRows
  rw [drop_patch, drop_patch, take_patch, take_patch,
    ← patch_lumaRows_of_le (2 * pair) (Nat.le_of_eq ?_) (show 2 * 1 ≤ f.h - 2 * pair by omega),
    ← patch_chromaRows_of_le pair (Nat.le_of_eq ?_) (show 1 ≤ f.h / 2 - pair by omega)]
  · -- which are the rows of the frame, counted from the pair
    congr 3
    · funext i
      rw [lumaRows_shift hf, Nat.zero_add]
    · funext i
      rw [chromaRows_shift hf, Nat.zero_add]
  · exact hclen.trans (by rw [Nat.mul_comm])
  · exact hylen.trans (by rw [Nat.mul_comm])

/-- However many threads there are, no access is out of bounds, every word of every row of the frame
    is written once, nothing else is, and the rows of a pair are the ones that the pair by itself
    gets. -/
theorem convertCpu_converts (hf : f.Fits) {threads : Nat} (hthreads : 1 ≤ threads)
    {yPlane cPlane : List Word} (hy : yPlane.length = f.yPitch * f.h)
    (hc : cPlane.length = f.cPitch * (f.h / 2)) :
    ∃ ys cs, f.convertCpu threads yPlane cPlane = some (ys, cs) ∧
      ys.length = yPlane.length ∧ cs.length = cPlane.length ∧
      (∀ row < f.h, ∀ x < f.yPitch, ys[row * f.yPitch + x]? =
        yPlane[row * f.yPitch + x]?.map fun word =>
          if x < f.w then word.write (f.codes.luma (f.pixel row x)) else word) ∧
      (∀ pair < f.h / 2, ∀ x < f.cPitch, cs[pair * f.cPitch + x]? =
        cPlane[pair * f.cPitch + x]?.map fun word =>
          if x < f.w then word.write (f.chromaWord pair x) else word) ∧
      ∀ pair < f.h / 2, f.thread? pair (f.pairRows pair yPlane cPlane).1
        (f.pairRows pair yPlane cPlane).2 = some (f.pairRows pair ys cs) :=
  ⟨_, _, convertCpu_eq hf hthreads hy hc, length_patch, length_patch,
    fun _ hrow _ hx => getElem?_lumaRows hrow hx yPlane,
    fun _ hpair _ hx => getElem?_chromaRows hpair hx cPlane,
    fun _ hpair => thread?_pairRows hf hpair hy hc⟩

/-- A black frame, with some words more to a row. -/
private def black : Conversion where
  codes := ⟨fun _ => 4096, fun _ => (32768, 32768)⟩
  src := List.replicate 4096 0
  bpr := 256
  w := 16
  h := 16
  yPitch := 20
  cPitch := 20

theorem convertCpu_converts_black :
    ∃ ys cs, black.convertCpu 3 (List.replicate 320 ⟨0, 0⟩) (List.replicate 160 ⟨0, 0⟩) =
        some (ys, cs) ∧
      ys[300]? = some ⟨4096, 1⟩ ∧ ys[316]? = some ⟨0, 0⟩ ∧ cs[155]? = some ⟨32768, 1⟩ := by
  have hfits : black.Fits :=
    { wEven := rfl, hEven := rfl, w16 := by decide, h16 := by decide, yPitch := by decide,
      cPitch := by decide, bpr := by decide, src := List.length_replicate }
  obtain ⟨ys, cs, hrun, -, -, hluma, hchroma, -⟩ := convertCpu_converts hfits (show 1 ≤ 3 by decide)
    (List.length_replicate (n := 320) (a := (⟨0, 0⟩ : Word)))
    (List.length_replicate (n := 160) (a := (⟨0, 0⟩ : Word)))
  exact ⟨ys, cs, hrun, hluma 15 (by decide) 0 (by decide), hluma 15 (by decide) 16 (by decide),
    hchroma 7 (by decide) 15 (by decide)⟩

end Conversion

end EncodeWin

end QCBridge
