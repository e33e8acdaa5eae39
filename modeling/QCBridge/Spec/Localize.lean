import Mathlib.Data.List.Infix
import QCBridge.Spec.PathRoundTrip

/-!
# Localizing a path again

Libraries and external paths are localized on every blob and every bootstrap, so a path that
is local already goes through `localize_any` again. The source forms are tried on it in turn,
Windows first and without looking at what the path is: a mac path loses its leading separators
and is compared with the Windows roots like a path without a drive letter. Where the root of
another row is found in it, the path is moved once more.

The path comes out as the local root of the row that moves it, and the rest of the path below. So
what the second time finds there is a matter of the table's roots and of that rest.

## Key results

- `PathEnv.StaysPut`: no row whose root meets a local root, on the way to the rest, leads elsewhere
- `PathEnv.settled_place_iff`: below a local root, the second time changes nothing just then
- `PathEnv.localizeAny_idempotent_iff`: when the second time changes nothing
- `PathEnv.Apart`: tables for which this is so whatever the path
- `PathEnv.localizeAny_idempotent_counterexample`: a folder below `/Users`
-/

namespace QCBridge

/-- Separators that are native stay so. -/
private theorem toNative_toNative (s : List Char) (os : OsTag) :
    toNative (toNative s os) os = toNative s os := by
  cases os with
  | win =>
    simp only [toNative, List.map_map]
    apply List.map_congr_left
    intro c _
    by_cases hc : c = '/'
    · simp [hc]
    · simp [hc]
  | mac => exact toSlashes_of_not_mem (backslash_not_mem_toSlashes s)
  | lin => exact toSlashes_of_not_mem (backslash_not_mem_toSlashes s)

namespace PathEnv

variable {e : PathEnv} {source : OsTag} {path rest : List Char} {mappings : List PathMapping}
  {m m' : PathMapping} {c : Candidate}

/-- What the row takes off the path, up to the remainder, is its own local root: the path comes
    out as it was. -/
def PutsBack (e : PathEnv) (source : OsTag) (path : List Char) (c : Candidate) : Prop :=
  e.joined e.currentOs c (e.remainder source path c) = toNative path e.currentOs

/-- In whatever form the path is read, it is covered by no row, or the row that is used puts it
    back. -/
def Settled (e : PathEnv) (mappings : List PathMapping) (path : List Char) : Prop :=
  ∀ source ∈ sourceForms, ∀ c,
    e.used source e.currentOs path mappings = some c → e.PutsBack source path c

/-! ## One path -/

/-- A form leaves the path as it is if the row that it uses puts the path back. -/
private theorem translate_eq_native_iff :
    e.translate source e.currentOs path mappings = toNative path e.currentOs ↔
      ∀ c, e.used source e.currentOs path mappings = some c → e.PutsBack source path c := by
  unfold translate
  cases hused : e.used source e.currentOs path mappings with
  | none => simp
  | some c =>
    simp only [Option.some.injEq, forall_eq']
    rfl

/-- No form moves the path if each leaves it as it is. -/
private theorem movingForm_eq_none_iff :
    e.movingForm path mappings = none ↔ e.Settled mappings path := by
  unfold movingForm Settled
  simp only [List.find?_eq_none, ne_eq, decide_not, Bool.not_eq_true', decide_eq_false_iff_not,
    not_not, translate_eq_native_iff]

/-- And then the path comes back untouched. -/
private theorem localizeAny_of_settled (h : e.Settled mappings path) :
    e.localizeAny path mappings = path := by
  unfold localizeAny
  rw [movingForm_eq_none_iff.mpr h]

/-- A row that moves the path is a row that is used. -/
private theorem localizeAny_of_moved (h : e.movingForm path mappings = some source) :
    ∃ c, e.used source e.currentOs path mappings = some c ∧
      e.localizeAny path mappings =
        e.joined e.currentOs c (e.remainder source path c) := by
  have hmoves := List.find?_some h
  simp only [ne_eq, decide_not, Bool.not_eq_true', decide_eq_false_iff_not,
    translate_eq_native_iff, not_forall] at hmoves
  obtain ⟨c, hused, -⟩ := hmoves
  refine ⟨c, hused, ?_⟩
  unfold localizeAny
  rw [h]
  exact translate_of_used hused

/-- What a row puts together is native. -/
private theorem toNative_joined (c : Candidate) (remainder : List Char) :
    toNative (e.joined e.currentOs c remainder) e.currentOs = e.joined e.currentOs c remainder :=
  toNative_toNative _ _

/-- A path in local form stays as it is only if every row leaves it alone. -/
private theorem localizeAny_native_eq_iff (hnative : toNative path e.currentOs = path) :
    e.localizeAny path mappings = path ↔ e.Settled mappings path := by
  constructor
  · intro heq
    rw [← movingForm_eq_none_iff]
    cases hmoving : e.movingForm path mappings with
    | none => rfl
    | some source =>
      -- the loop returned because this form changes the path
      have hmoves := List.find?_some hmoving
      unfold localizeAny at heq
      rw [hmoving] at heq
      simp [heq, hnative] at hmoves
  · exact localizeAny_of_settled

/-! ## What a row makes of a local root -/

/-- The local root of `m`, as the row `c` reads it. -/
def reading (e : PathEnv) (source : OsTag) (m : PathMapping) (c : Candidate) : List Char :=
  e.casePath source (e.place e.currentOs m []) c

/-- Whether the root of the row `c` covers the local root of `m`, or is a place below it that
    leads to `rest`. -/
def meets (e : PathEnv) (source : OsTag) (m : PathMapping) (rest : List Char) (c : Candidate) :
    Bool :=
  e.covers source (e.place e.currentOs m []) c ||
    rest.inits.any fun u => u ≠ [] && ComponentPrefix '/' u rest &&
      e.cmpPath source (e.place e.currentOs m u) c = e.cmpSource source c

/-- How many characters the row `c` reads in front of what is below the local root of `m`: the
    separator too, unless the local root is a drive of which it reads nothing. -/
def lead (e : PathEnv) (source : OsTag) (m : PathMapping) (c : Candidate) : Nat :=
  if (source = .win ∧ ¬ e.bareDrive source c) ∧ e.reading source m c = [] then 0
  else (e.reading source m c).length + 1

/-- Where the root of `c` ends within the local root of `m`, the row leaves that root as it is.
    Where it ends further on, its own local root and what it leaves of `rest` are the local root of
    `m` and `rest`. -/
def Agrees (e : PathEnv) (source : OsTag) (m : PathMapping) (rest : List Char) (c : Candidate) :
    Prop :=
  if (e.cmpSource source c).length ≤ (e.reading source m c).length then
    e.PutsBack source (e.place e.currentOs m []) c
  else
    e.joined e.currentOs c (lstrip isSeparator
      (rest.drop ((e.cmpSource source c).length - e.lead source m c))) =
        e.place e.currentOs m rest

/-- In whatever form the local root of `m` is read, of the rows whose roots meet it on the way to
    `rest` the first agrees with it. -/
def StaysPut (e : PathEnv) (mappings : List PathMapping) (m : PathMapping) (rest : List Char) :
    Prop :=
  ∀ source ∈ sourceForms, ∀ c,
    (candidates source e.currentOs mappings).find? (e.meets source m rest) = some c →
    e.Agrees source m rest c

/-- A row's root that is stripped for Windows is not empty. -/
private theorem cmpSource_ne_nil (hstripped : source = .win ∧ ¬ e.bareDrive source c) :
    e.cmpSource source c ≠ [] := by
  intro hnil
  have hle : (e.sourceRoot source c).length ≤ (e.fold source (e.sourceRoot source c)).length :=
    length_le_fold _
  have hroot : e.sourceRoot source c = [] := by
    unfold cmpSource at hnil
    rw [hnil, List.length_nil, Nat.le_zero, List.length_eq_zero_iff] at hle
    exact hle
  unfold sourceRoot at hroot
  rw [if_pos hstripped] at hroot
  apply hstripped.2
  unfold bareDrive
  rw [hroot, hstripped.1]
  rfl

/-- A local root has no separator at its end. -/
private theorem getLast_stem {os : OsTag} {s : List Char} (hs : s <:+ e.stem os m) (hne : s ≠ []) :
    s.getLast hne ≠ '/' := by
  intro hlast
  have hstem : e.stem os m ≠ [] := fun hnil => hne (List.suffix_nil.mp (hnil ▸ hs))
  have hno := List.rdropWhile_last_not isSlash
    (toSlashes (e.expand (m.root os) os)) hstem
  apply hno
  have hlast' := hs.getLast hne
  rw [hlast] at hlast'
  unfold isSlash
  rw [beq_iff_eq]
  exact hlast'.symm

/-- A local root of which nothing is left without its drive letter is that letter, or empty. -/
private theorem stripForWin_below {os : OsTag} (hnil : e.stripForWin (e.stem os m) = [])
    (hne : rest ≠ [])
    (hhead : rest.head? ≠ some '/') : e.stripForWin (e.stem os m ++ '/' :: rest) = rest := by
  -- a separator is no letter, so nothing that starts with one has a drive letter
  have hdrive : e.dropDrive ('/' :: rest) = '/' :: rest := by
    unfold dropDrive
    rw [if_neg]
    rintro ⟨-, -, halpha⟩
    simp [e.slash.not_alpha] at halpha
  have hslash : lstrip isSlash ('/' :: rest) = rest := by
    cases rest with
    | nil => exact absurd rfl hne
    | cons a rest =>
      have ha : a ≠ '/' := fun heq => hhead (by rw [heq]; rfl)
      simp [lstrip, isSlash, ha]
  rw [stripForWin_eq] at hnil ⊢
  by_cases hstem : e.stem os m = []
  · rw [hstem, List.nil_append, hdrive, hslash]
  · have hdrop : e.dropDrive (e.stem os m) = [] := by
      by_contra hleft
      have hsuffix : e.dropDrive (e.stem os m) <:+ e.stem os m := by
        unfold dropDrive
        split
        · exact List.drop_suffix 2 _
        · exact List.suffix_refl _
      have hlast := lstrip_eq_nil_iff.mp hnil _ (List.getLast_mem hleft)
      rw [isSlash, beq_iff_eq] at hlast
      exact getLast_stem hsuffix hleft hlast
    rw [dropDrive_append hstem (.inr ⟨rest, rfl⟩), hdrop, List.nil_append, hslash]

/-- What is below a local root is read below what the local root is read as. -/
private theorem casePath_below (hrest : '\\' ∉ rest) (hhead : rest.head? ≠ some '/')
    (hne : rest ≠ []) :
    e.casePath source (e.place e.currentOs m rest) c =
      if (source = .win ∧ ¬ e.bareDrive source c) ∧ e.reading source m c = [] then rest
      else e.reading source m c ++ '/' :: rest := by
  unfold reading casePath
  rw [toSlashes_place hrest, toSlashes_place List.not_mem_nil, if_pos rfl, if_neg hne,
    List.append_nil]
  by_cases hstripped : source = .win ∧ ¬ e.bareDrive source c
  · simp only [if_pos hstripped]
    by_cases hnil : e.stripForWin (e.stem e.currentOs m) = []
    · rw [if_pos ⟨hstripped, hnil⟩]
      exact stripForWin_below hnil hne hhead
    · rw [if_neg fun h => hnil h.2]
      have hstem : e.stem e.currentOs m ≠ [] := fun heq => hnil (by rw [heq]; rfl)
      exact stripForWin_append hstem hnil (.inr ⟨rest, rfl⟩)
  · simp only [if_neg hstripped]
    rw [if_neg fun h => hstripped h.1]

/-- What is read below a local root starts at a component. -/
private theorem componentPrefix_below {a s : List Char} (hhead : rest.head? ≠ some '/')
    (hne : rest ≠ []) :
    ComponentPrefix '/' s (a ++ '/' :: rest) ↔ ComponentPrefix '/' s a ∨
      ∃ u, u ≠ [] ∧ ComponentPrefix '/' u rest ∧ s = a ++ '/' :: u := by
  constructor
  · -- the root itself is one of the two, and one of them is longer
    intro h
    have ha : ComponentPrefix '/' a (a ++ '/' :: rest) := .inr ⟨rest, rfl⟩
    rcases h.comparable ha with hle | hle
    · -- shorter than the root: a prefix of it
      exact .inl hle
    · -- longer: what is over is read below the root
      obtain rfl | ⟨u, rfl⟩ := hle
      · exact .inl (.refl _ _)
      · right
        rw [ComponentPrefix.iff_append] at h
        obtain ⟨tail, htail, hboundary⟩ := h
        rw [List.append_assoc, List.cons_append] at htail
        have hu := (List.cons.inj (List.append_cancel_left htail)).2
        refine ⟨u, ?_, ComponentPrefix.iff_append.mpr ⟨tail, hu, hboundary⟩, rfl⟩
        rintro rfl
        rw [List.nil_append] at hu
        obtain rfl | ⟨more, rfl⟩ := hboundary
        · exact hne hu
        · exact hhead (by rw [hu]; rfl)
  · -- a prefix of the root, and one that goes on below it
    rintro (h | ⟨u, -, hu, rfl⟩)
    · rw [ComponentPrefix.iff_append] at h ⊢
      obtain ⟨tail, rfl, hboundary⟩ := h
      refine ⟨tail ++ '/' :: rest, by rw [List.append_assoc], ?_⟩
      obtain rfl | ⟨more, rfl⟩ := hboundary
      · exact .inr ⟨rest, rfl⟩
      · exact .inr ⟨more ++ '/' :: rest, rfl⟩
    · rw [ComponentPrefix.iff_append] at hu ⊢
      obtain ⟨tail, rfl, hboundary⟩ := hu
      exact ⟨tail, by simp, hboundary⟩

/-- A row covers a place below a local root if and only if its root meets the local root on the
    way there. -/
private theorem covers_place (hrest : '\\' ∉ rest) (hhead : rest.head? ≠ some '/') :
    e.covers source (e.place e.currentOs m rest) c = e.meets source m rest c := by
  rw [Bool.eq_iff_iff]
  unfold meets
  rw [Bool.or_eq_true, List.any_eq_true]
  simp only [List.mem_inits, Bool.and_eq_true, decide_eq_true_eq]
  by_cases hne : rest = []
  · subst hne
    constructor
    · exact .inl
    · rintro (h | ⟨u, hu, hle⟩)
      · exact h
      · exact absurd (List.prefix_nil.mp hu) hle.1.1
  · rw [covers_iff, covers_iff]
    unfold cmpPath
    rw [componentPrefix_fold, componentPrefix_fold, casePath_below hrest hhead hne]
    have hbelow : ∀ {u}, u ≠ [] → ComponentPrefix '/' u rest →
        e.casePath source (e.place e.currentOs m u) c =
          if (source = .win ∧ ¬ e.bareDrive source c) ∧ e.reading source m c = [] then u
          else e.reading source m c ++ '/' :: u := by
      intro u hu hle
      refine casePath_below (fun hmem => hrest (hle.isPrefix.mem hmem)) (fun hslash => ?_) hu
      obtain ⟨tail, rfl, -⟩ := ComponentPrefix.iff_append.mp hle
      exact hhead (by rw [List.head?_append, hslash]; rfl)
    change (∃ s, ComponentPrefix '/' s _ ∧ _) ↔
      (∃ s, ComponentPrefix '/' s (e.reading source m c) ∧ _) ∨ _
    by_cases hdrive : (source = .win ∧ ¬ e.bareDrive source c) ∧ e.reading source m c = []
    · -- of the local root nothing is read, and the row's root is something
      simp only [if_pos hdrive] at hbelow ⊢
      have hroot := cmpSource_ne_nil hdrive.1
      have hne' : ∀ {s}, e.fold source s = e.cmpSource source c → s ≠ [] := by
        rintro s hs rfl
        apply hroot
        rw [← hs]
        unfold fold
        split
        · exact e.unicode.lower_nil
        · rfl
      constructor
      · rintro ⟨s, hs, hfold⟩
        refine .inr ⟨s, hs.isPrefix, ⟨hne' hfold, hs⟩, ?_⟩
        rw [hbelow (hne' hfold) hs, hfold]
      · rintro (⟨s, hs, hfold⟩ | ⟨u, -, ⟨hu, hle⟩, hfold⟩)
        · rw [hdrive.2] at hs
          obtain heq | ⟨tail, heq⟩ := hs
          · exact absurd heq.symm (hne' hfold)
          · simp at heq
        · rw [hbelow hu hle] at hfold
          exact ⟨u, hle, hfold⟩
    · simp only [if_neg hdrive] at hbelow ⊢
      simp only [componentPrefix_below hhead hne]
      constructor
      · rintro ⟨s, hs | ⟨u, hu, hle, rfl⟩, hfold⟩
        · exact .inl ⟨s, hs, hfold⟩
        · exact .inr ⟨u, hle.isPrefix, ⟨hu, hle⟩, by rw [hbelow hu hle, hfold]⟩
      · rintro (⟨s, hs, hfold⟩ | ⟨u, -, ⟨hu, hle⟩, hfold⟩)
        · exact ⟨s, .inl hs, hfold⟩
        · rw [hbelow hu hle] at hfold
          exact ⟨_, .inr ⟨u, hu, hle, rfl⟩, hfold⟩

/-- What is below comes after, whatever the root is. -/
private theorem joined_below (r : List Char) (hne : rest ≠ []) :
    e.joined e.currentOs c (if r = [] then rest else r ++ '/' :: rest) =
      e.joined e.currentOs c r ++ toNative ('/' :: rest) e.currentOs := by
  unfold joined
  by_cases hr : r = []
  · rw [if_pos hr, if_pos hr, if_neg hne, toNative_append]
  · rw [if_neg hr, if_neg hr, if_neg (by simp), ← toNative_append, List.append_assoc,
      List.cons_append]

/-- A place is the local root and what is below, each with native separators. -/
private theorem place_below (hne : rest ≠ []) : e.place e.currentOs m rest =
    e.place e.currentOs m [] ++ toNative ('/' :: rest) e.currentOs := by
  unfold place
  rw [if_neg hne, if_pos rfl, toNative_append]

/-- A text that ends in no separator keeps what it has when something follows. -/
private theorem lstrip_below {d : List Char}
    (hlast : ∀ hd : d ≠ [], isSeparator (d.getLast hd) = false)
    (hrest : '\\' ∉ rest) (hhead : rest.head? ≠ some '/') :
    lstrip isSeparator (d ++ '/' :: rest) =
      if lstrip isSeparator d = [] then rest else lstrip isSeparator d ++ '/' :: rest := by
  split
  next hnil =>
    have hd : d = [] := by
      by_contra hd
      have hsep := lstrip_eq_nil_iff.mp hnil _ (List.getLast_mem hd)
      rw [hlast hd] at hsep
      cases hsep
    rw [hd]
    cases rest with
    | nil => rfl
    | cons a rest =>
      have hslash : a ≠ '/' := fun heq => hhead (by rw [heq]; rfl)
      have hback : a ≠ '\\' := fun heq => hrest (heq ▸ List.mem_cons_self)
      simp [lstrip, isSeparator, hslash, hback]
  next hne => exact lstrip_append hne _

/-- A reading is an end of the local root. -/
private theorem reading_suffix : e.reading source m c <:+ e.stem e.currentOs m := by
  unfold reading casePath
  rw [toSlashes_place List.not_mem_nil, if_pos rfl, List.append_nil]
  split
  · exact e.stripForWin_suffix _
  · exact List.suffix_refl _

/-- A row puts a place below a local root back if and only if it agrees with the local root. -/
private theorem putsBack_place_iff (hrest : '\\' ∉ rest) (hhead : rest.head? ≠ some '/') :
    e.PutsBack source (e.place e.currentOs m rest) c ↔ e.Agrees source m rest c := by
  have hnative : ∀ r, toNative (e.place e.currentOs m r) e.currentOs = e.place e.currentOs m r :=
    fun _ => toNative_toNative _ _
  unfold Agrees PutsBack remainder
  rw [hnative, hnative]
  change _ ↔ if _ then e.joined e.currentOs c (lstrip isSeparator
    ((e.reading source m c).drop (e.cmpSource source c).length)) = _ else _
  -- the root itself: nothing is read below it
  by_cases hne : rest = []
  · subst hne
    split
    · exact Iff.rfl
    next hlong =>
      change e.joined e.currentOs c (lstrip isSeparator
        ((e.reading source m c).drop (e.cmpSource source c).length)) = _ ↔ _
      rw [List.drop_eq_nil_of_le (by omega), List.drop_nil]
  · -- a place below it
    rw [casePath_below hrest hhead hne]
    unfold lead
    -- a bare drive whose row reads nothing
    by_cases hdrive : (source = .win ∧ ¬ e.bareDrive source c) ∧ e.reading source m c = []
    · have hpos := List.length_pos_iff.mpr (cmpSource_ne_nil hdrive.1)
      have hnil : (e.reading source m c).length = 0 := by rw [hdrive.2]; rfl
      rw [if_pos hdrive, if_pos hdrive, if_neg (by omega), Nat.sub_zero]
    · rw [if_neg hdrive, if_neg hdrive]
      split
      -- the row is not longer than what is read: the rest is the same
      next hshort =>
        have hlast : ∀ hd : (e.reading source m c).drop (e.cmpSource source c).length ≠ [],
            isSeparator (List.getLast _ hd) = false := by
          intro hd
          have hsuffix := (List.drop_suffix (e.cmpSource source c).length
            (e.reading source m c)).trans reading_suffix
          have hslash := getLast_stem hsuffix hd
          have hback : List.getLast _ hd ≠ '\\' := fun heq =>
            e.backslash_not_mem_stem e.currentOs m (hsuffix.mem (heq ▸ List.getLast_mem hd))
          unfold isSeparator
          rw [beq_eq_false_iff_ne.mpr hslash, beq_eq_false_iff_ne.mpr hback]
          rfl
        rw [List.drop_append_of_le_length hshort, lstrip_below hlast hrest hhead,
          joined_below _ hne, place_below hne]
        exact List.append_left_inj _
      -- it is longer: it takes some of the rest
      next hlong =>
        have hdrop : (e.reading source m c ++ '/' :: rest).drop (e.cmpSource source c).length =
            rest.drop ((e.cmpSource source c).length - ((e.reading source m c).length + 1)) := by
          rw [List.drop_append, List.drop_eq_nil_of_le (by omega), List.nil_append,
            show (e.cmpSource source c).length - (e.reading source m c).length =
              (e.cmpSource source c).length - ((e.reading source m c).length + 1) + 1 by omega,
            List.drop_succ_cons]
        rw [hdrop]

/-- A place below a local root is left alone in every form if and only if no row's root that
    meets the local root moves it. -/
theorem settled_place_iff (hrest : '\\' ∉ rest) (hhead : rest.head? ≠ some '/') :
    e.Settled mappings (e.place e.currentOs m rest) ↔ e.StaysPut mappings m rest := by
  unfold Settled StaysPut used
  have hcovers : ∀ source, e.covers source (e.place e.currentOs m rest) =
      e.meets source m rest := fun _ => funext fun _ => covers_place hrest hhead
  simp only [hcovers, putsBack_place_iff hrest hhead]

/-! ## One path -/

/-- The row has a local root, for paths to be put under. -/
def Local (e : PathEnv) (m : PathMapping) : Prop := m.enabled ∧ m.root e.currentOs ≠ []

/-- A candidate is a row with both roots. -/
private theorem candidate_eq (h : m.candidate source e.currentOs = some c) :
    e.Local m ∧ c = m.pair source e.currentOs := by
  unfold PathMapping.candidate at h
  unfold Local PathMapping.pair
  cases source with
  | lin => simp [PathMapping.rootFor] at h
  | win =>
    cases hlocal : e.currentOs with
    | lin => simp [PathMapping.rootFor, hlocal] at h
    | win => simp_all [PathMapping.rootFor, PathMapping.root]
    | mac => simp_all [PathMapping.rootFor, PathMapping.root]
  | mac =>
    cases hlocal : e.currentOs with
    | lin => simp [PathMapping.rootFor, hlocal] at h
    | win => simp_all [PathMapping.rootFor, PathMapping.root]
    | mac => simp_all [PathMapping.rootFor, PathMapping.root]

/-- The row that is used is one of the table, with a local root. -/
private theorem used_eq (h : e.used source e.currentOs path mappings = some c) :
    ∃ m ∈ mappings, m.candidate source e.currentOs = some c ∧ e.Local m ∧
      c = m.pair source e.currentOs := by
  obtain ⟨m, hm, hcand⟩ := mem_candidates.mp (mem_covering.mp (longest_of_used h).1).1
  exact ⟨m, hm, hcand, candidate_eq hcand⟩

/-- A remainder has no separators in front, and none of Windows. -/
private theorem remainder_normal (source : OsTag) (path : List Char) (c : Candidate) :
    '\\' ∉ e.remainder source path c ∧ (e.remainder source path c).head? ≠ some '/' := by
  constructor
  · intro h
    have hpath := List.mem_of_mem_drop ((lstrip_suffix isSeparator _).mem h)
    unfold casePath at hpath
    split at hpath
    · exact backslash_not_mem_toSlashes _ ((e.stripForWin_suffix _).mem hpath)
    · exact backslash_not_mem_toSlashes _ hpath
  · intro h
    unfold remainder lstrip at h
    have hhead := List.head?_dropWhile_not isSeparator
      ((e.casePath source path c).drop (e.cmpSource source c).length)
    rw [h] at hhead
    simp [isSeparator] at hhead

/-- The path is moved at most once: no row whose root meets the local root of the row that moves it,
    on the way to what the path has below that row's root, leads elsewhere. -/
def MovesOnce (e : PathEnv) (mappings : List PathMapping) (path : List Char) : Prop :=
  ∀ source c, e.movingForm path mappings = some source →
    e.used source e.currentOs path mappings = some c →
    ∀ m ∈ mappings, m.candidate source e.currentOs = some c →
      e.StaysPut mappings m (e.remainder source path c)

/-- The second time changes nothing just when the path is moved at most once. -/
private theorem localizeAny_again_iff :
    e.localizeAny (e.localizeAny path mappings) mappings = e.localizeAny path mappings ↔
      e.MovesOnce mappings path := by
  unfold MovesOnce
  cases hmoving : e.movingForm path mappings with
  | none =>
    -- nothing moved the path, and nothing does the second time
    have hsame := localizeAny_of_settled (movingForm_eq_none_iff.mp hmoving)
    rw [hsame, hsame]
    simp
  | some source =>
    obtain ⟨c, hused, hlocal⟩ := localizeAny_of_moved hmoving
    rw [hlocal, localizeAny_native_eq_iff (toNative_joined c _)]
    -- the path came out below the local root of the row that was used
    have hplace : ∀ m : PathMapping, m.candidate source e.currentOs = some c →
        (e.Settled mappings (e.joined e.currentOs c (e.remainder source path c)) ↔
          e.StaysPut mappings m (e.remainder source path c)) := by
      intro m hcand
      obtain ⟨-, rfl⟩ := candidate_eq hcand
      obtain ⟨hrest, hhead⟩ := remainder_normal (e := e) source path (m.pair source e.currentOs)
      rw [joined_pair, settled_place_iff hrest hhead]
    constructor
    · intro h source' c' hsource hused' m _ hcand
      cases hsource
      cases hused.symm.trans hused'
      exact (hplace m hcand).mp h
    · intro h
      obtain ⟨m, hm, hcand, -⟩ := used_eq hused
      exact (hplace m hcand).mpr (h source c rfl hused m hm hcand)

/-! ## One table -/

/-- The root of the row `m'` lies below the local root of the row `m`. -/
def GoesOn (e : PathEnv) (source : OsTag) (m m' : PathMapping) : Bool :=
  (e.cmpPath source (e.place e.currentOs m []) (m'.pair source e.currentOs) ++ ['/']).isPrefixOf
    (e.cmpSource source (m'.pair source e.currentOs))

/-- What covers a local root leaves it as it is, and no root lies below one. Something is left of
    a local root without its drive letter and leading separators. -/
structure Apart (e : PathEnv) (mappings : List PathMapping) : Prop where
  within : ∀ m ∈ mappings, e.Local m → ∀ m' ∈ mappings, ∀ source ∈ sourceForms,
    (m'.candidate source e.currentOs).isSome →
    e.covers source (e.place e.currentOs m []) (m'.pair source e.currentOs) →
    (e.cmpSource source (m'.pair source e.currentOs)).length ≤
        (e.reading source m (m'.pair source e.currentOs)).length ∧
      e.PutsBack source (e.place e.currentOs m []) (m'.pair source e.currentOs)
  beyond : ∀ m ∈ mappings, e.Local m → ∀ m' ∈ mappings, ∀ source ∈ sourceForms,
    (m'.candidate source e.currentOs).isSome → ¬ e.GoesOn source m m'
  left : ∀ m ∈ mappings, e.Local m → e.stripForWin (e.stem e.currentOs m) ≠ []

/-- Case is folded component by component. -/
private theorem fold_append (s t : List Char) :
    e.fold source (s ++ '/' :: t) = e.fold source s ++ '/' :: e.fold source t := by
  unfold fold
  split
  · exact e.slash.lower_append s t
  · rfl

/-- Below such a local root no row's root is met. -/
private theorem Apart.staysPut (h : e.Apart mappings) (hm : m ∈ mappings) (hlocal : e.Local m)
    (hrest : '\\' ∉ rest) (hhead : rest.head? ≠ some '/') : e.StaysPut mappings m rest := by
  intro source hsource c hfind
  obtain ⟨m', hm', hcand⟩ := mem_candidates.mp (List.mem_of_find?_eq_some hfind)
  obtain ⟨-, rfl⟩ := candidate_eq hcand
  have hsome := Option.isSome_of_eq_some hcand
  have hmeets := List.find?_some hfind
  unfold meets at hmeets
  rw [Bool.or_eq_true, List.any_eq_true] at hmeets
  rcases hmeets with hcovers | ⟨u, -, hu⟩
  · -- it covers the local root itself
    obtain ⟨hshort, hback⟩ := h.within m hm hlocal m' hm' source hsource hsome hcovers
    unfold Agrees
    rw [if_pos hshort]
    exact hback
  · -- it lies below, where no root does
    simp only [Bool.and_eq_true, decide_eq_true_eq] at hu
    obtain ⟨⟨hne, hle⟩, hroot⟩ := hu
    refine absurd ?_ (h.beyond m hm hlocal m' hm' source hsource hsome)
    have hslash : u.head? ≠ some '/' := by
      intro heq
      obtain ⟨tail, rfl, -⟩ := ComponentPrefix.iff_append.mp hle
      exact hhead (by rw [List.head?_append, heq]; rfl)
    have hleft : ¬ ((source = .win ∧ ¬ e.bareDrive source (m'.pair source e.currentOs)) ∧
        e.reading source m (m'.pair source e.currentOs) = []) := by
      rintro ⟨hstripped, hnil⟩
      apply h.left m hm hlocal
      unfold reading casePath at hnil
      rw [if_pos hstripped, toSlashes_place List.not_mem_nil, if_pos rfl,
        List.append_nil] at hnil
      exact hnil
    unfold GoesOn
    rw [← hroot]
    unfold cmpPath
    rw [casePath_below (fun hmem => hrest (hle.isPrefix.mem hmem)) hslash hne, if_neg hleft,
      fold_append, List.isPrefixOf_iff_prefix]
    exact ⟨_, by rw [List.append_assoc]; rfl⟩

/-- In such a table every path is moved at most once. -/
private theorem Apart.movesOnce (h : e.Apart mappings) (path : List Char) :
    e.MovesOnce mappings path := by
  intro source c _ _ m hm hcand
  obtain ⟨hrest, hhead⟩ := remainder_normal (e := e) source path c
  exact h.staysPut hm (candidate_eq hcand).1 hrest hhead

/-! ## Every path -/

/-- A second time changes nothing if and only if the path is moved at most once. And in a table
    whose rows leave the local roots as they are, and have no roots below them, that is so for
    every path. -/
theorem localizeAny_idempotent_iff (e : PathEnv) (mappings : List PathMapping) :
    (∀ path, e.localizeAny (e.localizeAny path mappings) mappings = e.localizeAny path mappings ↔
        e.MovesOnce mappings path) ∧
      (e.Apart mappings → ∀ path,
        e.localizeAny (e.localizeAny path mappings) mappings = e.localizeAny path mappings) := by
  constructor
  · exact fun path => localizeAny_again_iff
  · exact fun h path => localizeAny_again_iff.mpr (h.movesOnce path)

/-- A drive, and a folder whose local root is read as its Windows root without the drive. -/
theorem localizeAny_idempotent_studio :
    basic.localizeAny (basic.localizeAny "U:\\studio\\a\\B.exr".toList
        [⟨"U:\\".toList, "/Volumes/Jobs_Live".toList, true⟩,
          ⟨"C:\\Volumes\\studio\\jobs\\".toList, "/Volumes/studio/jobs".toList, true⟩])
        [⟨"U:\\".toList, "/Volumes/Jobs_Live".toList, true⟩,
          ⟨"C:\\Volumes\\studio\\jobs\\".toList, "/Volumes/studio/jobs".toList, true⟩] =
      basic.localizeAny "U:\\studio\\a\\B.exr".toList
        [⟨"U:\\".toList, "/Volumes/Jobs_Live".toList, true⟩,
          ⟨"C:\\Volumes\\studio\\jobs\\".toList, "/Volumes/studio/jobs".toList, true⟩] :=
  (localizeAny_idempotent_iff basic
    [⟨"U:\\".toList, "/Volumes/Jobs_Live".toList, true⟩,
      ⟨"C:\\Volumes\\studio\\jobs\\".toList, "/Volumes/studio/jobs".toList, true⟩]).2
    ⟨by unfold Local PutsBack; decide, by unfold Local; decide, by unfold Local; decide⟩ _

/-- The jobs are kept below `/Users`, and another row has the Windows folder of that name: the
    local path is read as a Windows path without its drive letter. -/
theorem localizeAny_idempotent_counterexample :
    ¬ ∀ (e : PathEnv) (mappings : List PathMapping) (path : List Char),
      e.localizeAny (e.localizeAny path mappings) mappings = e.localizeAny path mappings := by
  intro h
  have hagain := h basic
    [⟨"P:\\jobs".toList, "/Users/x/jobs".toList, true⟩,
      ⟨"C:\\Users".toList, "/Volumes/users".toList, true⟩] "P:\\jobs\\a".toList
  -- "/Users/x/jobs/a" the first time, "/Volumes/users/x/jobs/a" the second
  exact absurd hagain (by decide)

end PathEnv

end QCBridge
