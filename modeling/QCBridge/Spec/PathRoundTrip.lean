import QCBridge.Spec.PathPriority

/-!
# Paths there and back

A path under a row's root is the root and a remainder; translated, it is the row's other root
and the same remainder. What comes back is the path, as long as no other row covers either.

Roots of the Windows side that differ by their drive letter alone do cover each other's paths,
and below a bare drive root there are folders that another row takes without their drive.

## Key results

- `PathEnv.Separate.alone`: no path is covered by a row that does not overlap its own
- `PathEnv.translate_place`: one way
- `PathEnv.path_round_trip`: both ways
- `PathEnv.path_round_trip_counterexample`: two drives
-/

namespace QCBridge

/-! ## Separators -/

/-- Slashes are all that is left. -/
theorem backslash_not_mem_toSlashes (s : List Char) : '\\' ∉ toSlashes s := by
  intro h
  obtain ⟨c, -, hc⟩ := List.mem_map.mp h
  split at hc
  · exact absurd hc (by decide)
  next hne => exact hne hc

/-- Without a backslash nothing is replaced. -/
theorem toSlashes_of_not_mem {s : List Char} (hs : '\\' ∉ s) : toSlashes s = s := by
  unfold toSlashes
  conv_rhs => rw [← List.map_id s]
  apply List.map_congr_left
  intro c hc
  rw [if_neg]
  · rfl
  · rintro rfl
    exact hs hc

/-- A text without backslashes is read back from its native form. -/
private theorem toSlashes_toNative {s : List Char} (hs : '\\' ∉ s) (os : OsTag) :
    toSlashes (toNative s os) = s := by
  conv_rhs => rw [← toSlashes_of_not_mem hs]
  unfold toNative toSlashes
  split
  · rw [List.map_map]
    apply List.map_congr_left
    intro c _
    by_cases hc : c = '/'
    · simp [hc]
    · simp [hc]
  · rw [List.map_map]
    apply List.map_congr_left
    intro c _
    by_cases hc : c = '\\'
    · simp [hc]
    · simp [hc]

/-- The native form does not depend on which separators there were. -/
private theorem toNative_toSlashes (s : List Char) (os : OsTag) :
    toNative (toSlashes s) os = toNative s os := by
  unfold toNative toSlashes
  split
  · rw [List.map_map]
    apply List.map_congr_left
    intro c _
    by_cases hc : c = '\\'
    · simp [hc]
    · simp [hc]
  · rw [List.map_map]
    apply List.map_congr_left
    intro c _
    by_cases hc : c = '\\'
    · simp [hc]
    · simp [hc]

/-- It is made separator by separator. -/
theorem toNative_append (s t : List Char) (os : OsTag) :
    toNative (s ++ t) os = toNative s os ++ toNative t os := by
  unfold toNative toSlashes
  split
  · exact List.map_append
  · exact List.map_append

/-- What is stripped off does not matter. -/
private theorem rstrip_append {p : Char → Bool} {s t : List Char} (ht : ∀ c ∈ t, p c) :
    rstrip p (s ++ t) = rstrip p s := by
  unfold rstrip List.rdropWhile
  rw [List.reverse_append, List.dropWhile_append_of_pos]
  intro c hc
  exact ht c (List.mem_reverse.mp hc)

/-- A text is itself without its trailing characters, and these. -/
private theorem rstrip_append_trailing (p : Char → Bool) (s : List Char) :
    ∃ t, s = rstrip p s ++ t ∧ ∀ c ∈ t, p c :=
  ⟨s.rtakeWhile p, List.rdropWhile_append_rtakeWhile.symm, fun _ hc =>
    List.mem_rtakeWhile_imp hc⟩

/-- Stripping commutes with the replacement. -/
private theorem toSlashes_rstrip (s : List Char) :
    toSlashes (rstrip isSeparator s) = rstrip isSlash (toSlashes s) := by
  unfold toSlashes rstrip List.rdropWhile
  rw [← List.map_reverse, List.dropWhile_map, List.map_reverse]
  congr 3
  funext c
  rw [Function.comp_apply]
  by_cases hc : c = '\\'
  · simp [isSeparator, isSlash, hc]
  · simp [isSeparator, isSlash, hc]

/-- What starts at a component boundary. -/
def Boundary (t : List Char) : Prop := t = [] ∨ ∃ more, t = '/' :: more

/-- Slashes are a boundary. -/
private theorem boundary_of_slashes {t : List Char} (ht : ∀ c ∈ t, isSlash c) : Boundary t := by
  cases t with
  | nil => exact .inl rfl
  | cons c t =>
    have hc := ht c List.mem_cons_self
    rw [isSlash, beq_iff_eq] at hc
    exact .inr ⟨t, by rw [hc]⟩

/-- What stands behind other characters is not stripped. -/
theorem lstrip_append {p : Char → Bool} {s : List Char} (hs : lstrip p s ≠ []) (t : List Char) :
    lstrip p (s ++ t) = lstrip p s ++ t := by
  unfold lstrip at hs ⊢
  rw [List.dropWhile_append, if_neg]
  rwa [List.isEmpty_iff]

/-- Nothing is left exactly of what is all to be stripped. -/
theorem lstrip_eq_nil_iff {p : Char → Bool} {s : List Char} :
    lstrip p s = [] ↔ ∀ c ∈ s, p c := List.dropWhile_eq_nil_iff

namespace PathEnv

variable {e : PathEnv}

/-! ## Drive letters -/

/-- A text without its drive letter. -/
def dropDrive (e : PathEnv) (s : List Char) : List Char :=
  if 2 ≤ s.length ∧ s[1]? = some ':' ∧ s.head?.any e.unicode.isAlpha then s.drop 2 else s

/-- The drive goes first, then the slashes. -/
theorem stripForWin_eq (s : List Char) : e.stripForWin s = lstrip isSlash (e.dropDrive s) := rfl

/-- Components that follow do not change whether there is a drive letter. -/
theorem dropDrive_append {s t : List Char} (hs : s ≠ []) (ht : Boundary t) :
    e.dropDrive (s ++ t) = e.dropDrive s ++ t := by
  cases s with
  | nil => exact absurd rfl hs
  | cons a s =>
    cases s with
    | nil =>
      -- one character, and no colon after it
      have hno : ([a] ++ t)[1]? ≠ some ':' := by
        obtain rfl | ⟨more, rfl⟩ := ht
        · simp
        · simp
      unfold dropDrive
      rw [if_neg fun h => hno h.2.1, if_neg fun h => absurd h.1 (by simp)]
    | cons b s =>
      unfold dropDrive
      by_cases hdrive : b = ':' ∧ e.unicode.isAlpha a
      · rw [if_pos (by simpa using hdrive), if_pos (by simpa using hdrive)]
        rfl
      · rw [if_neg (by simpa using hdrive), if_neg (by simpa using hdrive)]

/-- What comes behind a boundary is kept. -/
theorem stripForWin_append {s t : List Char} (hs : s ≠ []) (hstrip : e.stripForWin s ≠ [])
    (ht : Boundary t) : e.stripForWin (s ++ t) = e.stripForWin s ++ t := by
  rw [stripForWin_eq, dropDrive_append hs ht]
  exact lstrip_append hstrip t

/-- Only the front is stripped. -/
theorem stripForWin_suffix (s : List Char) : e.stripForWin s <:+ s := by
  rw [stripForWin_eq]
  apply (lstrip_suffix isSlash _).trans
  unfold dropDrive
  split
  · exact List.drop_suffix 2 s
  · exact List.suffix_refl s

/-- What is left of a root: its trailing separators do not count. -/
private theorem rstrip_stripForWin {s : List Char} (hroot : rstrip isSlash (e.stripForWin s) ≠ []) :
    rstrip isSlash s ≠ [] ∧
      e.stripForWin (rstrip isSlash s) = rstrip isSlash (e.stripForWin s) := by
  obtain ⟨t, hs, ht⟩ := rstrip_append_trailing isSlash s
  -- a root of separators only would leave nothing
  have hne : rstrip isSlash s ≠ [] := by
    intro hnil
    rw [hnil, List.nil_append] at hs
    apply hroot
    unfold rstrip
    rw [List.rdropWhile_eq_nil_iff]
    intro c hc
    rw [hs] at hc
    exact ht c ((e.stripForWin_suffix t).mem hc)
  have hboundary := boundary_of_slashes ht
  -- what is left is not the trailing separators
  have hstrip : e.stripForWin (rstrip isSlash s) ≠ [] := by
    intro hnil
    apply hroot
    rw [stripForWin_eq, lstrip_eq_nil_iff] at hnil
    unfold rstrip
    rw [List.rdropWhile_eq_nil_iff]
    intro c hc
    rw [hs, stripForWin_eq, dropDrive_append hne hboundary] at hc
    rcases List.mem_append.mp ((lstrip_suffix isSlash _).mem hc) with hc | hc
    · exact hnil c hc
    · exact ht c hc
  refine ⟨hne, ?_⟩
  conv_rhs => rw [hs, stripForWin_append hne hstrip hboundary, rstrip_append ht]
  -- its last character is the last of the root
  symm
  unfold rstrip at hne ⊢
  rw [List.rdropWhile_eq_self_iff]
  intro hl
  rw [(e.stripForWin_suffix _).getLast hl]
  exact List.rdropWhile_last_not isSlash s hne

end PathEnv

/-! ## Places -/

/-- The root of a row on a side that has one. -/
def PathMapping.root (m : PathMapping) : OsTag → List Char
  | .win => m.win
  | _ => m.mac

/-- The row as it is used from one side to the other. -/
def PathMapping.pair (m : PathMapping) (source target : OsTag) : Candidate :=
  ⟨m.root source, m.root target⟩

/-- A row that is enabled and has both roots. -/
def PathMapping.Active (m : PathMapping) : Prop := m.enabled ∧ m.win ≠ [] ∧ m.mac ≠ []

instance (m : PathMapping) : Decidable m.Active := inferInstanceAs (Decidable (_ ∧ _))

/-- From one of the two sides to the other. -/
def Across (source target : OsTag) : Prop :=
  source = .win ∧ target = .mac ∨ source = .mac ∧ target = .win

/-- A row is a candidate where both of its roots are there. -/
private theorem PathMapping.candidate_eq_some {m : PathMapping} {source target : OsTag}
    {c : Candidate}
    (h : Across source target) :
    m.candidate source target = some c ↔ m.Active ∧ c = m.pair source target := by
  -- a row is a pair where both roots are there
  have hroots : m.candidate source target =
      if m.enabled then
        if m.root source = [] ∨ m.root target = [] then none else some (m.pair source target)
      else none := by
    obtain ⟨rfl, rfl⟩ | ⟨rfl, rfl⟩ := h
    · rfl
    · rfl
  -- which is what it means that it is active
  have hactive : m.Active ↔ m.enabled ∧ ¬ (m.root source = [] ∨ m.root target = []) := by
    rw [not_or]
    obtain ⟨rfl, rfl⟩ | ⟨rfl, rfl⟩ := h
    · rfl
    · exact and_congr_right fun _ => and_comm
  rw [hroots, hactive]
  split
  next henabled =>
    split
    next hempty => simp [henabled, hempty]
    next hempty =>
      rw [Option.some.injEq]
      constructor
      · rintro rfl
        exact ⟨⟨henabled, hempty⟩, rfl⟩
      · rintro ⟨-, rfl⟩
        rfl
  next henabled => simp [henabled]

namespace PathEnv

variable {e : PathEnv} {source target os : OsTag} {mappings : List PathMapping}
  {m m' : PathMapping} {c : Candidate} {path rest : List Char}

/-- A row's root, with the home directory in place and without trailing separators. -/
def stem (e : PathEnv) (os : OsTag) (m : PathMapping) : List Char :=
  rstrip isSlash (toSlashes (e.expand (m.root os) os))

/-- A place below the row's root, or the root itself. -/
def place (e : PathEnv) (os : OsTag) (m : PathMapping) (rest : List Char) : List Char :=
  toNative (if rest = [] then e.stem os m else e.stem os m ++ '/' :: rest) os

/-- A normalized path under the row's root: the root as the table spells it, and components
    below it. -/
def Under (e : PathEnv) (os : OsTag) (m : PathMapping) (path : List Char) : Prop :=
  ∃ rest, '\\' ∉ rest ∧ rest.head? ≠ some '/' ∧ path = e.place os m rest

/-- No other row covers the path. -/
def Alone (e : PathEnv) (source target : OsTag) (mappings : List PathMapping) (m : PathMapping)
    (path : List Char) : Prop :=
  ∀ m' ∈ mappings, m'.Active → m' ≠ m → ¬ e.covers source path (m'.pair source target)

/-- The root of `m'` is a prefix of the root of `m`, as `m'` compares it, or the other way round.
    Below a bare drive root there may be any folder, also one that `m'` takes without a drive. -/
def Overlap (e : PathEnv) (source target : OsTag) (m m' : PathMapping) : Prop :=
  e.bareDrive source (m.pair source target) ∧ ¬ e.bareDrive source (m'.pair source target) ∨
    ComponentPrefix '/' (e.cmpSource source (m'.pair source target))
      (e.cmpPath source (e.place source m []) (m'.pair source target)) ∨
    ComponentPrefix '/' (e.cmpPath source (e.place source m []) (m'.pair source target))
      (e.cmpSource source (m'.pair source target))

/-- No other row overlaps the row. -/
def Separate (e : PathEnv) (source target : OsTag) (mappings : List PathMapping)
    (m : PathMapping) : Prop :=
  ∀ m' ∈ mappings, m'.Active → m' ≠ m → ¬ e.Overlap source target m m'

/-- A root of as many characters in lower case. -/
def Aligned (e : PathEnv) (source target : OsTag) (m : PathMapping) : Prop :=
  (e.cmpSource source (m.pair source target)).length =
    (e.sourceRoot source (m.pair source target)).length

/-- A stem is written with slashes. -/
theorem backslash_not_mem_stem (os : OsTag) (m : PathMapping) : '\\' ∉ e.stem os m := fun h =>
  backslash_not_mem_toSlashes _ ((List.rdropWhile_prefix isSlash _).mem h)

/-- A place, with slashes: its stem and the rest. -/
theorem toSlashes_place (hrest : '\\' ∉ rest) :
    toSlashes (e.place os m rest) = e.stem os m ++ if rest = [] then [] else '/' :: rest := by
  unfold place
  by_cases hnil : rest = []
  · rw [if_pos hnil, if_pos hnil, List.append_nil]
    exact toSlashes_toNative (e.backslash_not_mem_stem os m) os
  · rw [if_neg hnil, if_neg hnil]
    apply toSlashes_toNative
    rw [List.mem_append, List.mem_cons, not_or, not_or]
    exact ⟨e.backslash_not_mem_stem os m, by decide, hrest⟩

/-- A place is matched by its row, up to the remainder. -/
private theorem matched_place (hrest : '\\' ∉ rest) :
    e.Matched source (e.place source m rest) (m.pair source target)
      (e.sourceRoot source (m.pair source target)) (if rest = [] then [] else '/' :: rest) := by
  have hboundary : Boundary (if rest = [] then [] else '/' :: rest) := by
    split
    · exact .inl rfl
    · exact .inr ⟨rest, rfl⟩
  refine ⟨?_, rfl, hboundary⟩
  unfold casePath sourceRoot
  rw [toSlashes_place hrest]
  split
  next hstripped =>
    obtain ⟨rfl, hbare⟩ := hstripped
    -- not a bare drive root, so something is left behind the drive letter
    have hroot : rstrip isSlash (e.stripForWin (e.normSource .win (m.pair .win target))) ≠ [] := by
      intro hnil
      apply hbare
      unfold bareDrive
      rw [hnil]
      rfl
    obtain ⟨hne, hstrip⟩ := rstrip_stripForWin hroot
    rw [← hstrip]
    exact stripForWin_append hne (hstrip ▸ hroot) hboundary
  · rfl

/-- The remainder goes below the other root. -/
theorem joined_pair : e.joined target (m.pair source target) rest = e.place target m rest := by
  have hroot : toNative (e.targetRoot target (m.pair source target)) target =
      toNative (e.stem target m) target := by
    unfold targetRoot stem
    rw [← toSlashes_rstrip, toNative_toSlashes]
    rfl
  unfold joined place
  by_cases hnil : rest = []
  · rw [if_pos hnil, if_pos hnil, hroot]
  · rw [if_neg hnil, if_neg hnil, toNative_append, toNative_append, hroot]

/-- Where no other row covers the path, the row is used. -/
private theorem used_pair (hacross : Across source target) (hm : m ∈ mappings) (hactive : m.Active)
    (hcov : e.covers source path (m.pair source target))
    (halone : e.Alone source target mappings m path) :
    e.used source target path mappings = some (m.pair source target) := by
  have hin : m.pair source target ∈ e.covering source target path mappings :=
    mem_covering.mpr ⟨mem_candidates.mpr ⟨m, hm,
      (PathMapping.candidate_eq_some hacross).mpr ⟨hactive, rfl⟩⟩, hcov⟩
  -- some row is used, and it covers the path too
  obtain ⟨d, hd⟩ := used_isSome (List.ne_nil_of_mem hin)
  obtain ⟨hd', hdcov⟩ := mem_covering.mp (longest_of_used hd).1
  obtain ⟨m', hm', hcand⟩ := mem_candidates.mp hd'
  obtain ⟨hactive', rfl⟩ := (PathMapping.candidate_eq_some hacross).mp hcand
  by_cases heq : m' = m
  · rw [hd, heq]
  · exact absurd hdcov (halone m' hm' hactive' heq)

/-- What is below a root is read below what the root is read as. -/
private theorem reading_below {c : Candidate} (hrest : '\\' ∉ rest)
    (hleft : source = .win ∧ ¬ e.bareDrive source c → e.stripForWin (e.stem os m) ≠ []) :
    ComponentPrefix '/' (e.cmpPath source (e.place os m []) c)
      (e.cmpPath source (e.place os m rest) c) := by
  have hboundary : Boundary (if rest = [] then [] else '/' :: rest) := by
    split
    · exact .inl rfl
    · exact .inr ⟨rest, rfl⟩
  unfold cmpPath
  rw [componentPrefix_fold]
  refine ⟨_, ComponentPrefix.iff_append.mpr
    ⟨if rest = [] then [] else '/' :: rest, ?_, hboundary⟩, rfl⟩
  unfold casePath
  rw [toSlashes_place hrest, toSlashes_place List.not_mem_nil, if_pos rfl, List.append_nil]
  split
  next hstripped =>
    have hstem := hleft hstripped
    -- a root that is not empty, so that a drive letter is found in it or not at all
    exact stripForWin_append (fun hnil => hstem (by rw [hnil]; rfl)) hstem hboundary
  next => rfl

/-- A root that is more than a drive has something left without it. -/
private theorem stripForWin_stem (hbare : ¬ e.bareDrive .win (m.pair .win target)) :
    e.stripForWin (e.stem .win m) ≠ [] := by
  have hroot : rstrip isSlash (e.stripForWin (e.normSource .win (m.pair .win target))) ≠ [] := by
    intro hnil
    apply hbare
    unfold bareDrive
    rw [hnil]
    rfl
  have hstrip := (rstrip_stripForWin hroot).2
  exact fun hnil => hroot (hstrip ▸ hnil)

/-- No path under a row's root is covered by a row that does not overlap it. -/
theorem Separate.alone (h : e.Separate source target mappings m) (hrest : '\\' ∉ rest) :
    e.Alone source target mappings m (e.place source m rest) := by
  intro m' hm' hactive' hne hcov
  have hno := h m' hm' hactive' hne
  unfold Overlap at hno
  rw [not_or] at hno
  -- both the other root and this one are read as prefixes of the path
  have hleft : source = .win ∧ ¬ e.bareDrive source (m'.pair source target) →
      e.stripForWin (e.stem source m) ≠ [] := by
    rintro ⟨hwin, hbare'⟩
    subst hwin
    exact stripForWin_stem fun hbare => hno.1 ⟨hbare, hbare'⟩
  have hbelow := reading_below hrest hleft
  exact hno.2 ((covers_iff.mp hcov).comparable hbelow)

/-! ## There and back -/

/-- The remainder of a place is what it has below its row's root. -/
private theorem remainder_place (haligned : e.Aligned source target m) (hrest : '\\' ∉ rest)
    (hhead : rest.head? ≠ some '/') :
    e.remainder source (e.place source m rest) (m.pair source target) = rest := by
  have hmatched : e.Matched source (e.place source m rest) (m.pair source target) _ _ :=
    matched_place hrest
  -- exactly the separator after the root is stripped
  have hstrip : lstrip isSeparator (if rest = [] then [] else '/' :: rest) = rest := by
    cases rest with
    | nil => rfl
    | cons c rest =>
      have hslash : c ≠ '/' := fun heq => hhead (by rw [heq]; rfl)
      have hback : c ≠ '\\' := fun heq => hrest (heq ▸ List.mem_cons_self)
      rw [if_neg (List.cons_ne_nil c rest)]
      simp [lstrip, isSeparator, hslash, hback]
  -- the root keeps its length in lower case, so the cut is where the root ends
  conv_rhs => rw [← hstrip]
  apply hmatched.remainder_eq_iff.mpr
  right
  rw [hmatched.root, haligned]
  exact Nat.le_add_right _ _

/-- One way: the root is put in the place of the other, and the remainder is kept. -/
theorem translate_place (hacross : Across source target) (hm : m ∈ mappings) (hactive : m.Active)
    (haligned : e.Aligned source target m) (hrest : '\\' ∉ rest) (hhead : rest.head? ≠ some '/')
    (halone : e.Alone source target mappings m (e.place source m rest)) :
    e.translate source target (e.place source m rest) mappings = e.place target m rest := by
  have hmatched : e.Matched source (e.place source m rest) (m.pair source target) _ _ :=
    matched_place hrest
  have hused := used_pair hacross hm hactive (covers_iff_matched.mpr ⟨_, _, hmatched⟩) halone
  rw [translate_of_used hused, through, remainder_place haligned hrest hhead, joined_pair]

/-- From a Mac there is no drive to strip, so every row is aligned. -/
private theorem aligned_mac (m : PathMapping) : e.Aligned .mac target m := by
  unfold Aligned cmpSource fold
  rw [if_neg (by decide)]

/-- A row whose Windows root keeps its length in lower case. What is below its roots comes back
    from the other side where no other row covers it on either; and that is so for everything
    below them where no other row overlaps the row. -/
theorem path_round_trip (hm : m ∈ mappings) (hactive : m.Active)
    (haligned : e.Aligned .win .mac m) :
    (∀ rest, '\\' ∉ rest → rest.head? ≠ some '/' →
        e.Alone .mac .win mappings m (e.place .mac m rest) →
        e.Alone .win .mac mappings m (e.place .win m rest) →
        e.translate .win .mac (e.translate .mac .win (e.place .mac m rest) mappings) mappings =
            e.place .mac m rest ∧
          e.translate .mac .win (e.translate .win .mac (e.place .win m rest) mappings) mappings =
            e.place .win m rest) ∧
      (e.Separate .mac .win mappings m → e.Separate .win .mac mappings m →
        (∀ path, e.Under .mac m path →
          e.translate .win .mac (e.translate .mac .win path mappings) mappings = path) ∧
        ∀ path, e.Under .win m path →
          e.translate .mac .win (e.translate .win .mac path mappings) mappings = path) := by
  have hfrom : Across .mac .win := .inr ⟨rfl, rfl⟩
  have hback : Across .win .mac := .inl ⟨rfl, rfl⟩
  -- the place below one root goes to the place below the other, and back
  have hthere : ∀ rest, '\\' ∉ rest → rest.head? ≠ some '/' →
      e.Alone .mac .win mappings m (e.place .mac m rest) →
      e.Alone .win .mac mappings m (e.place .win m rest) →
      e.translate .win .mac (e.translate .mac .win (e.place .mac m rest) mappings) mappings =
          e.place .mac m rest ∧
        e.translate .mac .win (e.translate .win .mac (e.place .win m rest) mappings) mappings =
          e.place .win m rest := by
    intro rest hrest hhead hmac hwin
    have hto := translate_place hfrom hm hactive (aligned_mac m) hrest hhead hmac
    have hfro := translate_place hback hm hactive haligned hrest hhead hwin
    rw [hto, hfro]
    exact ⟨rfl, hto⟩
  refine ⟨hthere, fun hmac hwin => ⟨?_, ?_⟩⟩
  · rintro path ⟨rest, hrest, hhead, rfl⟩
    exact (hthere rest hrest hhead (hmac.alone hrest) (hwin.alone hrest)).1
  · rintro path ⟨rest, hrest, hhead, rfl⟩
    exact (hthere rest hrest hhead (hmac.alone hrest) (hwin.alone hrest)).2

/-- A drive, and a folder that is on another one. -/
theorem path_round_trip_studio :
    basic.translate .win .mac (basic.translate .mac .win "/Volumes/studio/jobs/a/B.mov".toList
        [⟨"U:\\".toList, "/Volumes/Jobs_Live".toList, true⟩,
          ⟨"C:\\Volumes\\studio\\jobs\\".toList, "/Volumes/studio/jobs".toList, true⟩])
        [⟨"U:\\".toList, "/Volumes/Jobs_Live".toList, true⟩,
          ⟨"C:\\Volumes\\studio\\jobs\\".toList, "/Volumes/studio/jobs".toList, true⟩] =
      "/Volumes/studio/jobs/a/B.mov".toList :=
  ((path_round_trip
    (m := ⟨"C:\\Volumes\\studio\\jobs\\".toList, "/Volumes/studio/jobs".toList, true⟩)
    (by decide) (by decide) (by unfold Aligned; decide)).2
    (by unfold Separate Overlap; decide) (by unfold Separate Overlap; decide)).1 _
    ⟨"a/B.mov".toList, by decide, by decide, by decide⟩

/-- No root of the side is a prefix of another, as they stand in the table, drive letter
    included. -/
def FullySeparate (e : PathEnv) (os : OsTag) (mappings : List PathMapping) : Prop :=
  ∀ m ∈ mappings, ∀ m' ∈ mappings, m.Active → m'.Active → m ≠ m' →
    ¬ ComponentPrefix '/' (e.fold os (e.stem os m)) (e.fold os (e.stem os m'))

/-- The same folder on two drives: the path comes back under the root of the first row. -/
theorem path_round_trip_counterexample :
    ¬ ∀ (e : PathEnv) (mappings : List PathMapping) (m : PathMapping) (path : List Char),
      e.FullySeparate .mac mappings → e.FullySeparate .win mappings → m ∈ mappings → m.Active →
      e.Under .mac m path →
      e.translate .win .mac (e.translate .mac .win path mappings) mappings = path := by
  intro h
  have hback := h basic
    [⟨"C:\\jobs".toList, "/a".toList, true⟩, ⟨"D:\\jobs".toList, "/b".toList, true⟩]
    ⟨"D:\\jobs".toList, "/b".toList, true⟩ "/b/x".toList
    (by unfold FullySeparate; decide) (by unfold FullySeparate; decide) (by decide) (by decide)
    ⟨"x".toList, by decide, by decide, by decide⟩
  exact absurd hback (by decide)

end PathEnv

end QCBridge
