import QCBridge.Ring0.Viewport

/-!
# From one signature to another

The plan is made of two signatures, and its steps are carried out by another file in an order of
its own: Local View first, then whether the viewport has collections of its own, then the
collections. What Blender's operators do is assumed as documented (`SpaceView.Documented`); the
steps of each kind are taken together here, by what they do to the members of Local View and to
the hidden collections.

The order is where the steps miss the signature. When the collections of its own are given up,
the mode is off before the hidden ones are shown, and Blender then answers for the view layer:
they stay hidden for the viewport, and are hidden again the next time the mode comes on.

## Key results

- `visPlan_empty_iff`: when there is nothing to do
- `SpaceView.mem_localSteps_iff`, `SpaceView.hidden_collSteps_iff`: where the steps lead
- `VisSig.decode_encode`: the signature that arrives
- `visview_plan`: when the steps lead to the wanted signature
- `visview_plan_counterexample`: a collection that stays hidden
-/

namespace QCBridge

/-- No collection is hidden unless the viewport has collections of its own. -/
def VisSig.Settled (sig : VisSig) : Prop := sig.localColls = false → sig.hiddenLc = []

/-! ## The plan -/

/-- A difference is empty if nothing of the first is missing in the second. -/
private theorem sortedDiff_eq_nil_iff {a b : List Uuid} : sortedDiff a b = [] ↔ ∀ u ∈ a, u ∈ b := by
  rw [List.eq_nil_iff_forall_not_mem]
  constructor
  · intro h u hu
    by_contra hno
    exact h u (mem_sortedDiff.mpr ⟨hu, hno⟩)
  · intro h u hu
    obtain ⟨ha, hb⟩ := mem_sortedDiff.mp hu
    exact hb (h u ha)

/-- An empty plan has no step of any kind. -/
theorem VisPlan.empty_iff (p : VisPlan) : p.empty ↔
    p.exit = false ∧ p.enterWith = [] ∧ p.add = [] ∧ p.remove = [] ∧ p.setLocalColls = none ∧
      p.lcHide = [] ∧ p.lcShow = [] := by
  unfold VisPlan.empty
  simp only [Bool.not_or, Bool.and_eq_true, Bool.not_eq_true', Bool.not_not, List.isEmpty_iff,
    Option.isSome_eq_false_iff, Option.isNone_iff_eq_none, and_assoc]

variable {haveSig want : VisSig}

/-- No step of Local View: the same members. -/
private theorem visPlan_local (hexit : (visPlan haveSig want).exit = false)
    (henter : (visPlan haveSig want).enterWith = []) (hadd : (visPlan haveSig want).add = [])
    (hremove : (visPlan haveSig want).remove = []) (u : Uuid) :
    u ∈ haveSig.localUuids ↔ u ∈ want.localUuids := by
  unfold visPlan at hexit henter hadd hremove
  simp only at hexit henter hadd hremove
  by_cases hh : haveSig.localUuids = []
  · -- not in Local View, and not to enter it
    by_cases hw : want.localUuids = []
    · rw [hh, hw]
    · simp [hh, hw] at henter
  · by_cases hw : want.localUuids = []
    · simp [hh, hw] at hexit
    · simp only [hh, hw, Bool.not_false, Bool.and_self, if_true, List.isEmpty_eq_false_iff.mpr,
        sortedDiff_eq_nil_iff, ne_eq, not_false_eq_true] at hadd hremove
      exact ⟨fun hu => hremove u hu, fun hu => hadd u hu⟩

/-- Nothing is to be done if and only if the signatures are one. -/
theorem visPlan_empty_iff (hhave : haveSig.Settled) (hwant : want.Settled) :
    (visPlan haveSig want).empty ↔ haveSig = want := by
  rw [VisPlan.empty_iff]
  constructor
  · rintro ⟨hexit, henter, hadd, hremove, hcolls, hhide, hshow⟩
    have hsame : haveSig.localColls = want.localColls := by
      by_contra hne
      simp [visPlan, hne] at hcolls
    refine VisSig.ext_mem (visPlan_local hexit henter hadd hremove) hsame fun u => ?_
    -- without collections of its own a settled signature hides none
    by_cases hon : want.localColls
    · simp only [visPlan, hon, if_true, sortedDiff_eq_nil_iff] at hhide hshow
      exact ⟨fun hu => hshow u hu, fun hu => hhide u hu⟩
    · rw [Bool.not_eq_true] at hon
      rw [hhave (hsame.trans hon), hwant hon]
  · rintro rfl
    have hself : ∀ l, sortedDiff l l = [] := fun l => sortedDiff_eq_nil_iff.mpr fun _ hu => hu
    cases hcolls : haveSig.localColls with
    | true => simp [visPlan, hself, hcolls]
    | false => simp [visPlan, hself, hcolls]

/-! ## What Blender does -/

namespace SpaceView

variable {S : Type}

/-- What Blender keeps behind its answers. -/
structure Behind (S : Type) where
  /-- The selected objects. -/
  selected : S → Uuid → Bool
  /-- The objects that can be selected: the viewport shows them, and selection is not disabled. -/
  selectable : S → Uuid → Bool
  /-- The collections hidden for this viewport. It remembers them while it has no collections of
      its own. -/
  hiddenHere : S → Uuid → Bool
  /-- Those among them that no toggle shows: the collection is disabled in all viewports, or one
      above it is. -/
  disabled : S → Uuid → Bool

/-- The collections are as before. -/
structure SameColls (B : SpaceView S) (K : Behind S) (s s' : S) : Prop where
  mode : B.useLocalCollections s' = B.useLocalCollections s
  listed : ∀ u, B.listed s' u = B.listed s u
  hiddenHere : ∀ u, K.hiddenHere s' u = K.hiddenHere s u
  disabled : ∀ u, K.disabled s' u = K.disabled s u

/-- Local View is as before. -/
structure SameLocal (B : SpaceView S) (s s' : S) : Prop where
  localView : B.localView s' = B.localView s
  localViewGet : ∀ u, B.localViewGet s' u = B.localViewGet s u

/-- Blender's operators do what their documentation says. -/
structure Documented (B : SpaceView S) (K : Behind S) : Prop where
  /-- Objects that cannot be selected stay out of a selection. -/
  selected_selectOnly : ∀ us s u, u ∈ B.objects →
    K.selected (B.selectOnly us s) u = (decide (u ∈ us) && K.selectable s u)
  selectOnly_sameLocal : ∀ us s, B.SameLocal s (B.selectOnly us s)
  selectOnly_sameColls : ∀ us s, B.SameColls K s (B.selectOnly us s)
  /-- The operator of Local View leaves it, or enters it with what is selected. -/
  localview_leaves : ∀ s, B.localView s = true → B.localView (B.localview s) = false
  localview_enters : ∀ s u, B.localView s = false → u ∈ B.objects → K.selected s u = true →
    B.localView (B.localview s) = true
  localview_members : ∀ s u, B.localView s = false → B.localView (B.localview s) = true →
    u ∈ B.objects → B.localViewGet (B.localview s) u = K.selected s u
  localview_sameColls : ∀ s, B.SameColls K s (B.localview s)
  /-- In Local View, an object is taken in or out. -/
  localView_set : ∀ u on s, B.localView s = true → B.localView (B.localViewSet u on s) = true
  localViewGet_set : ∀ u on s v, B.localView s = true → u ∈ B.objects →
    B.localViewGet (B.localViewSet u on s) v = if v = u then on else B.localViewGet s v
  localViewSet_sameColls : ∀ u on s, B.SameColls K s (B.localViewSet u on s)
  /-- The mode is set, and nothing else. -/
  mode_set : ∀ on s, B.useLocalCollections (B.setLocalCollections on s) = on
  listed_setMode : ∀ on s u, B.listed (B.setLocalCollections on s) u = B.listed s u
  hiddenHere_setMode : ∀ on s u, K.hiddenHere (B.setLocalCollections on s) u = K.hiddenHere s u
  disabled_setMode : ∀ on s u, K.disabled (B.setLocalCollections on s) u = K.disabled s u
  setMode_sameLocal : ∀ on s, B.SameLocal s (B.setLocalCollections on s)
  /-- In the mode, the answer for a collection is about this viewport, and the toggle turns it if
      it is not disabled. -/
  visibleGet_own : ∀ s u, B.useLocalCollections s = true → B.listed s u = true →
    B.visibleGet s u = !K.hiddenHere s u
  listed_hide : ∀ u s v, B.useLocalCollections s = true →
    B.listed (B.hideCollection u s) v = B.listed s v
  hiddenHere_hide : ∀ u s v, B.useLocalCollections s = true →
    K.hiddenHere (B.hideCollection u s) v =
      if v = u then K.disabled s u || !K.hiddenHere s u else K.hiddenHere s v
  disabled_hide : ∀ u s v, B.useLocalCollections s = true →
    K.disabled (B.hideCollection u s) v = K.disabled s v
  hiddenHere_disabled : ∀ s u, K.disabled s u = true → K.hiddenHere s u = true
  /-- Out of it the toggle is about the view layer. -/
  mode_hide : ∀ u s, B.useLocalCollections (B.hideCollection u s) = B.useLocalCollections s
  hide_sameLocal : ∀ u s, B.SameLocal s (B.hideCollection u s)

/-- The steps can take the viewport to the wanted signature. -/
structure Reaches (B : SpaceView S) (K : Behind S) (s : S) (want : VisSig) : Prop where
  /-- What it names is there. -/
  objects : ∀ u ∈ want.localUuids, u ∈ B.objects
  collections : ∀ u ∈ want.hiddenLc, u ∈ B.collections ∧ B.listed s u = true
  /-- What no toggle shows is not to be shown. -/
  disabled : want.localColls = true → ∀ u ∈ B.collections, B.listed s u = true →
    K.disabled s u = true → u ∈ want.hiddenLc
  /-- Local View is entered from outside, and not left by the toggle, with objects that can be
      selected. -/
  enters : want.localUuids ≠ [] → (B.sample s).localUuids = [] →
    B.localView s = false ∧ ∀ u ∈ want.localUuids, K.selectable s u = true
  /-- When the mode comes on, nothing else is hidden from the last time. -/
  remembered : want.localColls = true → B.useLocalCollections s = false →
    ∀ u ∈ B.collections, B.listed s u = true → K.hiddenHere s u = true → u ∈ want.hiddenLc

/-! ## The signature of a state -/

variable {B : SpaceView S} {K : Behind S} {s s' : S} {want : VisSig} {u v : Uuid}

theorem SameLocal.trans {s'' : S} (h : B.SameLocal s s') (h' : B.SameLocal s' s'') :
    B.SameLocal s s'' :=
  ⟨h'.localView.trans h.localView, fun u => (h'.localViewGet u).trans (h.localViewGet u)⟩

theorem SameColls.trans {s'' : S} (h : B.SameColls K s s') (h' : B.SameColls K s' s'') :
    B.SameColls K s s'' :=
  ⟨h'.mode.trans h.mode, fun u => (h'.listed u).trans (h.listed u),
    fun u => (h'.hiddenHere u).trans (h.hiddenHere u),
    fun u => (h'.disabled u).trans (h.disabled u)⟩

theorem SameLocal.refl (s : S) : B.SameLocal s s := ⟨rfl, fun _ => rfl⟩

theorem SameColls.refl (s : S) : B.SameColls K s s :=
  ⟨rfl, fun _ => rfl, fun _ => rfl, fun _ => rfl⟩

/-- What is sampled in Local View is in Local View, and nothing is outside of it. -/
private theorem mem_sample_local : u ∈ (B.sample s).localUuids ↔
    B.localView s = true ∧ u ∈ B.objects ∧ B.localViewGet s u = true := by
  unfold sample VisSig.make
  simp only [DeltaPlan.mem_sorted]
  split
  next hin => simp [hin]
  next hout => simp [hout]

/-- The sampled hidden collections are those that are listed and not visible, while the mode is on.
    -/
private theorem mem_sample_hidden : u ∈ (B.sample s).hiddenLc ↔ B.useLocalCollections s = true ∧
    u ∈ B.collections ∧ B.listed s u = true ∧ B.visibleGet s u = false := by
  unfold sample VisSig.make
  simp only [DeltaPlan.mem_sorted]
  split
  next hon => simp [hon]
  next hoff => simp [hoff]

/-- In the mode the hidden collections of the signature are those hidden for the viewport. -/
private theorem mem_sample_hiddenHere (hB : B.Documented K) : u ∈ (B.sample s).hiddenLc ↔
    B.useLocalCollections s = true ∧ u ∈ B.collections ∧ B.listed s u = true ∧
      K.hiddenHere s u = true := by
  rw [mem_sample_hidden]
  refine and_congr_right fun hon => and_congr_right fun _ => and_congr_right fun hlisted => ?_
  rw [hB.visibleGet_own s u hon hlisted, Bool.not_eq_false']

/-- The same Local View gives the same members. -/
private theorem SameLocal.mem_sample (h : B.SameLocal s s') :
    u ∈ (B.sample s').localUuids ↔ u ∈ (B.sample s).localUuids := by
  rw [mem_sample_local, mem_sample_local, h.localView, h.localViewGet]

/-- A sample is a signature if each of its three parts says the same. -/
private theorem sample_eq_iff : B.sample s = want ↔
    (∀ u, u ∈ (B.sample s).localUuids ↔ u ∈ want.localUuids) ∧
      B.useLocalCollections s = want.localColls ∧
      ∀ u, u ∈ (B.sample s).hiddenLc ↔ u ∈ want.hiddenLc := by
  constructor
  · rintro rfl
    exact ⟨fun _ => Iff.rfl, rfl, fun _ => Iff.rfl⟩
  · rintro ⟨hlocal, hcolls, hhidden⟩
    exact VisSig.ext_mem hlocal hcolls hhidden

/-! ## The steps of Local View -/

/-- The steps of Local View have nothing to do with collections. -/
private theorem localStep_sameColls (hB : B.Documented K) (on : Bool) :
    B.SameColls K s (B.localStep on s u) := by
  unfold localStep
  split
  · exact hB.localViewSet_sameColls u on s
  · exact .refl s

/-- Nor has a list of them. -/
private theorem foldl_localStep_sameColls (hB : B.Documented K) (on : Bool) (us : List Uuid)
    (s : S) :
    B.SameColls K s (us.foldl (B.localStep on) s) := by
  induction us generalizing s with
  | nil => exact .refl s
  | cons u us ih => exact (localStep_sameColls hB on).trans (ih _)

/-- Nor have all of them, the toggle among them. -/
private theorem localSteps_sameColls (hB : B.Documented K) (p : VisPlan) (s : S) :
    B.SameColls K s (B.localSteps p s) := by
  unfold localSteps
  have hexit : B.SameColls K s (if p.exit && B.localView s then B.localview s else s) := by
    split
    · exact hB.localview_sameColls s
    · exact .refl s
  refine SameColls.trans ?_ (foldl_localStep_sameColls hB false _ _)
  refine SameColls.trans ?_ (foldl_localStep_sameColls hB true _ _)
  split
  · exact hexit.trans ((hB.selectOnly_sameColls _ _).trans (hB.localview_sameColls _))
  · exact hexit

/-- In Local View, an object of the plan is taken in or out. -/
private theorem localView_localStep (hB : B.Documented K) {on : Bool} (hin : B.localView s = true) :
    B.localView (B.localStep on s u) = true := by
  unfold localStep
  split
  · exact hB.localView_set u on s hin
  · exact hin

/-- The other objects stay in or out. -/
private theorem localViewGet_localStep (hB : B.Documented K) {on : Bool}
    (hin : B.localView s = true)
    (hv : v ∈ B.objects) :
    B.localViewGet (B.localStep on s u) v = if v = u then on else B.localViewGet s v := by
  unfold localStep
  split
  next hu => exact hB.localViewGet_set u on s v hin hu
  -- a stamp that no object carries is not the one asked about
  next hu =>
    have hne : v ≠ u := fun heq => hu (heq ▸ hv)
    rw [if_neg hne]

/-- And so are the objects of a list. -/
private theorem foldl_localStep (hB : B.Documented K) (on : Bool) (us : List Uuid)
    (hin : B.localView s = true) : B.localView (us.foldl (B.localStep on) s) = true ∧
      ∀ v ∈ B.objects, B.localViewGet (us.foldl (B.localStep on) s) v =
        if v ∈ us then on else B.localViewGet s v := by
  induction us generalizing s with
  | nil => exact ⟨hin, fun v _ => by simp⟩
  | cons u us ih =>
    obtain ⟨hin', hget⟩ := ih (s := B.localStep on s u) (localView_localStep hB hin)
    refine ⟨hin', fun v hv => ?_⟩
    rw [List.foldl_cons, hget v hv, localViewGet_localStep hB hin hv]
    by_cases hus : v ∈ us
    · simp [hus]
    · simp [hus]

/-- Local View is entered with what is wanted and can be selected, from outside. -/
private theorem mem_sample_enter (hB : B.Documented K) (us : List Uuid) :
    u ∈ (B.sample (B.localview (B.selectOnly us s))).localUuids ↔
      B.localView s = false ∧ u ∈ B.objects ∧ u ∈ us ∧ K.selectable s u = true := by
  have hselect := hB.selectOnly_sameLocal us s
  rw [mem_sample_local]
  cases hin : B.localView s with
  | true =>
    -- the toggle leads out
    have hout := hB.localview_leaves (B.selectOnly us s) (hselect.localView.trans hin)
    simp [hout]
  | false =>
    have hstart : B.localView (B.selectOnly us s) = false := hselect.localView.trans hin
    constructor
    · rintro ⟨hin', hu, hget⟩
      rw [hB.localview_members _ u hstart hin' hu, hB.selected_selectOnly us s u hu,
        Bool.and_eq_true, decide_eq_true_eq] at hget
      exact ⟨rfl, hu, hget⟩
    · rintro ⟨-, hu, hget⟩
      have hselected : K.selected (B.selectOnly us s) u = true := by
        rw [hB.selected_selectOnly us s u hu, Bool.and_eq_true, decide_eq_true_eq]
        exact hget
      have hin' := hB.localview_enters _ u hstart hu hselected
      exact ⟨hin', hu, by rw [hB.localview_members _ u hstart hin' hu, hselected]⟩

/-- The steps of Local View lead to the members that are wanted if and only if these are there,
    and can be selected from outside if the viewport is not in Local View with any. -/
theorem mem_localSteps_iff (hB : B.Documented K) :
    (∀ u, u ∈ (B.sample (B.localSteps (visPlan (B.sample s) want) s)).localUuids ↔
      u ∈ want.localUuids) ↔
    (∀ u ∈ want.localUuids, u ∈ B.objects) ∧
      (want.localUuids ≠ [] → (B.sample s).localUuids = [] →
        B.localView s = false ∧ ∀ u ∈ want.localUuids, K.selectable s u = true) := by
  by_cases hh : (B.sample s).localUuids = []
  · by_cases hw : want.localUuids = []
    · -- it stays out
      simp [localSteps, visPlan, hh, hw]
    · -- it goes in, with all of them
      have hsteps : B.localSteps (visPlan (B.sample s) want) s =
          B.localview (B.selectOnly want.localUuids s) := by
        simp [localSteps, visPlan, hh, hw]
      obtain ⟨x, hx⟩ := List.exists_mem_of_ne_nil _ hw
      simp only [hsteps, mem_sample_enter hB]
      constructor
      · intro hall
        have hout : B.localView s = false := ((hall x).mpr hx).1
        exact ⟨fun u hu => ((hall u).mpr hu).2.1,
          fun _ _ => ⟨hout, fun u hu => ((hall u).mpr hu).2.2.2⟩⟩
      · rintro ⟨hthere, henter⟩ u
        obtain ⟨hout, hselect⟩ := henter hw hh
        exact ⟨fun hu => hu.2.2.1, fun hu => ⟨hout, hthere u hu, hu, hselect u hu⟩⟩
  · obtain ⟨x, hx⟩ := List.exists_mem_of_ne_nil _ hh
    have hin : B.localView s = true := (mem_sample_local.mp hx).1
    by_cases hw : want.localUuids = []
    · -- it comes out
      have hsteps : B.localSteps (visPlan (B.sample s) want) s = B.localview s := by
        simp [localSteps, visPlan, hh, hw, hin]
      simp [hsteps, hw, mem_sample_local, hB.localview_leaves s hin]
    · -- it stays in, and the members change
      have hsteps : B.localSteps (visPlan (B.sample s) want) s =
          (sortedDiff (B.sample s).localUuids want.localUuids).foldl (B.localStep false)
            ((sortedDiff want.localUuids (B.sample s).localUuids).foldl (B.localStep true) s) := by
        simp [localSteps, visPlan, hh, hw]
      obtain ⟨hadded, hadd⟩ := foldl_localStep hB true
        (sortedDiff want.localUuids (B.sample s).localUuids) hin
      obtain ⟨hremoved, hremove⟩ := foldl_localStep hB false
        (sortedDiff (B.sample s).localUuids want.localUuids) hadded
      have hmem : ∀ u, u ∈ (B.sample (B.localSteps (visPlan (B.sample s) want) s)).localUuids ↔
          u ∈ B.objects ∧ u ∈ want.localUuids := by
        intro u
        rw [hsteps, mem_sample_local]
        simp only [hremoved, true_and]
        refine and_congr_right fun hu => ?_
        have hsampled : u ∈ (B.sample s).localUuids ↔ B.localViewGet s u = true := by
          rw [mem_sample_local]
          simp [hin, hu]
        rw [hremove u hu, hadd u hu]
        simp only [mem_sortedDiff, hsampled]
        by_cases hwant : u ∈ want.localUuids
        · simp [hwant]
        · simp [hwant]
      simp only [hmem]
      constructor
      · exact fun hall => ⟨fun u hu => ((hall u).mpr hu).1, fun _ hno => absurd hno hh⟩
      · exact fun hthere u => ⟨fun hu => hu.2, fun hu => ⟨hthere.1 u hu, hu⟩⟩

/-! ## The steps of collections -/

/-- A step about a collection has nothing to do with Local View. -/
private theorem hideStep_sameLocal (hB : B.Documented K) (step : Uuid × Bool) :
    B.SameLocal s (B.hideStep s step) := by
  unfold hideStep
  split
  · split
    · exact .refl s
    · exact hB.hide_sameLocal step.1 s
  · exact .refl s

/-- Nor does it set the mode. -/
private theorem mode_hideStep (hB : B.Documented K) (step : Uuid × Bool) :
    B.useLocalCollections (B.hideStep s step) = B.useLocalCollections s := by
  unfold hideStep
  split
  · split
    · rfl
    · exact hB.mode_hide step.1 s
  · rfl

/-- What the steps of collections leave alone. -/
private theorem foldl_hideStep (hB : B.Documented K) (steps : List (Uuid × Bool)) (s : S) :
    B.SameLocal s (steps.foldl B.hideStep s) ∧
      B.useLocalCollections (steps.foldl B.hideStep s) = B.useLocalCollections s := by
  induction steps generalizing s with
  | nil => exact ⟨.refl s, rfl⟩
  | cons step steps ih =>
    obtain ⟨hlocal, hmode⟩ := ih (B.hideStep s step)
    exact ⟨(hideStep_sameLocal hB step).trans hlocal, hmode.trans (mode_hideStep hB step)⟩

/-- All of them leave Local View, and the mode is then what the plan says. -/
private theorem collSteps_frame (hB : B.Documented K) (p : VisPlan) :
    B.SameLocal s (B.collSteps p s) ∧ B.useLocalCollections (B.collSteps p s) =
      p.setLocalColls.getD (B.useLocalCollections s) := by
  unfold collSteps
  cases p.setLocalColls with
  | none => exact foldl_hideStep hB _ s
  | some on =>
    obtain ⟨hlocal, hmode⟩ := foldl_hideStep hB
      (p.lcHide.map (·, true) ++ p.lcShow.map (·, false)) (B.setLocalCollections on s)
    exact ⟨(hB.setMode_sameLocal on s).trans hlocal, hmode.trans (hB.mode_set on s)⟩

/-- In the mode, a step excludes no collection and hides none in the view layer. -/
private theorem listed_hideStep (hB : B.Documented K) (hon : B.useLocalCollections s = true)
    (step : Uuid × Bool) : B.listed (B.hideStep s step) u = B.listed s u := by
  unfold hideStep
  split
  · split
    · rfl
    · exact hB.listed_hide step.1 s u hon
  · rfl

/-- Nor does a list of them. -/
private theorem listed_foldl_hideStep (hB : B.Documented K) (hon : B.useLocalCollections s = true)
    (steps : List (Uuid × Bool)) : B.listed (steps.foldl B.hideStep s) u = B.listed s u := by
  induction steps generalizing s with
  | nil => rfl
  | cons step steps ih =>
    exact (ih ((mode_hideStep hB step).trans hon)).trans (listed_hideStep hB hon step)

/-- Nor does it disable a collection. -/
private theorem disabled_hideStep (hB : B.Documented K) (hon : B.useLocalCollections s = true)
    (step : Uuid × Bool) : K.disabled (B.hideStep s step) u = K.disabled s u := by
  unfold hideStep
  split
  · split
    · rfl
    · exact hB.disabled_hide step.1 s u hon
  · rfl

/-- Nor does a list of them. -/
private theorem disabled_foldl_hideStep (hB : B.Documented K)
    (hon : B.useLocalCollections s = true) (steps : List (Uuid × Bool)) :
    K.disabled (steps.foldl B.hideStep s) u = K.disabled s u := by
  induction steps generalizing s with
  | nil => rfl
  | cons step steps ih =>
    exact (ih ((mode_hideStep hB step).trans hon)).trans (disabled_hideStep hB hon step)

/-- It hides the collection, or shows it if it is not disabled, and no other. -/
private theorem hiddenHere_hideStep (hB : B.Documented K) (hon : B.useLocalCollections s = true)
    {hide : Bool} (hu : u ∈ B.collections) (hlisted : B.listed s u = true) :
    K.hiddenHere (B.hideStep s (v, hide)) u =
      if u = v then hide || K.disabled s u else K.hiddenHere s u := by
  unfold hideStep
  dsimp only
  split
  next hv =>
    split
    -- nothing to do: the collection is as it should be
    next hsame =>
      by_cases huv : u = v
      · subst huv
        rw [hB.visibleGet_own s u hon hlisted, Bool.not_not] at hsame
        rw [if_pos rfl, ← hsame]
        -- and it is not disabled if it is to be seen
        cases hdisabled : K.disabled s u with
        | true => rw [hB.hiddenHere_disabled s u hdisabled, Bool.true_or]
        | false => rw [Bool.or_false]
      · rw [if_neg huv]
    -- one toggle turns it, unless it is disabled
    next hother =>
      rw [hB.hiddenHere_hide v s u hon]
      by_cases huv : u = v
      · subst huv
        rw [hB.visibleGet_own s u hon hlisted, Bool.not_not] at hother
        rw [if_pos rfl, if_pos rfl]
        cases hide with
        | true =>
          rw [Bool.not_eq_true] at hother
          rw [hother, Bool.not_false, Bool.or_true, Bool.true_or]
        | false =>
          rw [Bool.not_eq_false] at hother
          rw [hother, Bool.not_true, Bool.or_false, Bool.false_or]
      · rw [if_neg huv, if_neg huv]
  next hv =>
    have hne : u ≠ v := fun heq => hv (heq ▸ hu)
    rw [if_neg hne]

/-- Some are hidden, or shown. -/
private theorem hiddenHere_foldl_hideStep (hB : B.Documented K) (us : List Uuid) (hide : Bool)
    (hon : B.useLocalCollections s = true) (hu : u ∈ B.collections)
    (hlisted : B.listed s u = true) :
    K.hiddenHere ((us.map (·, hide)).foldl B.hideStep s) u =
      if u ∈ us then hide || K.disabled s u else K.hiddenHere s u := by
  induction us generalizing s with
  | nil => simp
  | cons v us ih =>
    have hnext := ih ((mode_hideStep hB (v, hide)).trans hon)
      ((listed_hideStep hB hon (v, hide)).trans hlisted)
    rw [List.map_cons, List.foldl_cons, hnext, hiddenHere_hideStep hB hon hu hlisted,
      disabled_hideStep hB hon]
    by_cases hus : u ∈ us
    · simp [hus]
    · simp [hus]

/-- The hidden collections after the steps, if the viewport then has collections of its own. -/
private theorem hiddenHere_collSteps (hB : B.Documented K) {p : VisPlan}
    (hon : p.setLocalColls.getD (B.useLocalCollections s) = true) (u : Uuid) :
    B.listed (B.collSteps p s) u = B.listed s u ∧
      (u ∈ B.collections → B.listed s u = true → K.hiddenHere (B.collSteps p s) u =
        if u ∈ p.lcShow then K.disabled s u
        else if u ∈ p.lcHide then true else K.hiddenHere s u) := by
  -- the mode is set first, and the toggles find it set
  have hmode : ∃ t : S, B.collSteps p s =
        (p.lcHide.map (·, true) ++ p.lcShow.map (·, false)).foldl B.hideStep t ∧
      B.useLocalCollections t = true ∧ B.listed t u = B.listed s u ∧
        K.hiddenHere t u = K.hiddenHere s u ∧ K.disabled t u = K.disabled s u := by
    unfold collSteps
    cases hset : p.setLocalColls with
    | none => exact ⟨s, rfl, by simpa [hset] using hon, rfl, rfl, rfl⟩
    | some on =>
      exact ⟨B.setLocalCollections on s, rfl, by simpa [hset, hB.mode_set] using hon,
        hB.listed_setMode on s u, hB.hiddenHere_setMode on s u, hB.disabled_setMode on s u⟩
  obtain ⟨t, hsteps, ht, hlisted, hhidden, hdisabled⟩ := hmode
  rw [hsteps]
  refine ⟨(listed_foldl_hideStep hB ht _).trans hlisted, fun hu hs => ?_⟩
  have hs' : B.listed t u = true := hlisted.trans hs
  have ht' := (foldl_hideStep hB (p.lcHide.map (·, true)) t).2.trans ht
  rw [List.foldl_append,
    hiddenHere_foldl_hideStep hB _ _ ht' hu ((listed_foldl_hideStep hB ht _).trans hs'),
    hiddenHere_foldl_hideStep hB _ _ ht hu hs', disabled_foldl_hideStep hB ht, hhidden, hdisabled,
    Bool.false_or, Bool.true_or]

/-- The plan sets the mode where it is not the wanted one. -/
private theorem visPlan_colls :
    (visPlan (B.sample s) want).setLocalColls.getD (B.useLocalCollections s) =
    want.localColls := by
  unfold visPlan sample VisSig.make
  dsimp only
  split
  next hsame => exact hsame
  next => rfl

/-- If the mode is wanted, the steps lead to the hidden collections that are wanted if and only if
    these are there, with all that are disabled, and the mode does not come on with others. -/
theorem hidden_collSteps_iff (hB : B.Documented K) (hs : B.SameColls K s s')
    (hon : want.localColls = true) :
    (∀ u, u ∈ (B.sample (B.collSteps (visPlan (B.sample s) want) s')).hiddenLc ↔
      u ∈ want.hiddenLc) ↔
    (∀ u ∈ want.hiddenLc, u ∈ B.collections ∧ B.listed s u = true) ∧
      (∀ u ∈ B.collections, B.listed s u = true → K.disabled s u = true → u ∈ want.hiddenLc) ∧
      (B.useLocalCollections s = false → ∀ u ∈ B.collections, B.listed s u = true →
        K.hiddenHere s u = true → u ∈ want.hiddenLc) := by
  have hset : (visPlan (B.sample s) want).setLocalColls.getD (B.useLocalCollections s') = true := by
    rw [hs.mode, visPlan_colls, hon]
  -- a collection is hidden in the end if it is wanted, or if it was and the plan does not know
  have hmem : ∀ u, u ∈ (B.sample (B.collSteps (visPlan (B.sample s) want) s')).hiddenLc ↔
      u ∈ B.collections ∧ B.listed s u = true ∧
        (u ∈ want.hiddenLc ∨ K.disabled s u = true ∨
          B.useLocalCollections s = false ∧ K.hiddenHere s u = true) := by
    intro u
    obtain ⟨hlisted, hhidden⟩ := hiddenHere_collSteps hB hset u
    have hend := (collSteps_frame hB (s := s') (visPlan (B.sample s) want)).2.trans hset
    rw [mem_sample_hiddenHere hB, hend, hlisted, hs.listed]
    simp only [true_and]
    refine and_congr_right fun hu => and_congr_right fun hl => ?_
    have hsampled : u ∈ (B.sample s).hiddenLc ↔
        B.useLocalCollections s = true ∧ K.hiddenHere s u = true := by
      rw [mem_sample_hiddenHere hB]
      simp [hu, hl]
    rw [hhidden hu ((hs.listed u).trans hl), hs.hiddenHere, hs.disabled]
    simp only [visPlan, hon, if_true, mem_sortedDiff, hsampled]
    by_cases hwant : u ∈ want.hiddenLc
    · by_cases hown : B.useLocalCollections s = true ∧ K.hiddenHere s u = true
      · simp [hwant, hown]
      · simp [hwant, hown]
    · have hdisabled := hB.hiddenHere_disabled s u
      cases hmode : B.useLocalCollections s with
      -- shown again, unless it is disabled
      | true =>
        cases hhere : K.hiddenHere s u with
        | true => simp [hwant]
        | false => simp [hwant, mt hdisabled (by simp [hhere])]
      -- the plan does not know of it
      | false =>
        simp only [hwant, Bool.false_eq_true, false_and, if_false, false_or, true_and]
        exact ⟨.inr, fun h => h.elim hdisabled id⟩
  simp only [hmem]
  constructor
  · intro hall
    refine ⟨fun u hu => ?_, fun u hu hl hd => (hall u).mp ⟨hu, hl, .inr (.inl hd)⟩,
      fun hoff u hu hl hk => (hall u).mp ⟨hu, hl, .inr (.inr ⟨hoff, hk⟩)⟩⟩
    obtain ⟨hthere, hl, -⟩ := (hall u).mpr hu
    exact ⟨hthere, hl⟩
  · rintro ⟨hthere, hblocked, hold⟩ u
    constructor
    · rintro ⟨hu, hl, hwant | hd | ⟨hoff, hk⟩⟩
      · exact hwant
      · exact hblocked u hu hl hd
      · exact hold hoff u hu hl hk
    · exact fun hwant => ⟨(hthere u hwant).1, (hthere u hwant).2, .inl hwant⟩

/-! ## Where they lead -/

/-- An empty plan is not carried out, which is the same. -/
private theorem applyVis_eq : B.applyVis s want = B.collSteps (visPlan (B.sample s) want)
    (B.localSteps (visPlan (B.sample s) want) s) := by
  unfold applyVis
  dsimp only
  split
  next hempty =>
    obtain ⟨hexit, henter, hadd, hremove, hcolls, hhide, hshow⟩ := (VisPlan.empty_iff _).mp hempty
    simp [collSteps, localSteps, hexit, henter, hadd, hremove, hcolls, hhide, hshow]
  next => rfl

/-- The steps lead to the wanted signature from the states that reach it, and from no others. -/
private theorem sample_applyVis_iff (hB : B.Documented K) (hwant : want.Settled) :
    B.sample (B.applyVis s want) = want ↔ B.Reaches K s want := by
  have hsame := localSteps_sameColls hB (visPlan (B.sample s) want) s
  obtain ⟨hlocal, hmode⟩ := collSteps_frame hB (visPlan (B.sample s) want)
    (s := B.localSteps (visPlan (B.sample s) want) s)
  rw [hsame.mode, visPlan_colls] at hmode
  rw [applyVis_eq, sample_eq_iff, hmode]
  simp only [hlocal.mem_sample, mem_localSteps_iff hB, true_and]
  cases hon : want.localColls with
  | true =>
    rw [hidden_collSteps_iff hB hsame hon]
    exact ⟨fun ⟨⟨hthere, henter⟩, hcolls, hdisabled, hold⟩ =>
        ⟨hthere, hcolls, fun _ => hdisabled, henter, fun _ => hold⟩,
      fun h => ⟨⟨h.objects, h.enters⟩, h.collections, h.disabled hon, h.remembered hon⟩⟩
  | false =>
    -- out of the mode no hidden collections are sampled, and none are wanted
    have hnone : ∀ u, u ∉ (B.sample (B.collSteps (visPlan (B.sample s) want)
        (B.localSteps (visPlan (B.sample s) want) s))).hiddenLc := by
      intro u hu
      have hmem := (mem_sample_hidden.mp hu).1
      rw [hmode, hon] at hmem
      cases hmem
    simp only [hnone, hwant hon, List.not_mem_nil, implies_true, and_true]
    exact ⟨fun ⟨hthere, henter⟩ => ⟨hthere, by simp [hwant hon],
        fun himp => (Bool.false_ne_true (hon.symm.trans himp)).elim, henter,
        fun himp => (Bool.false_ne_true (hon.symm.trans himp)).elim⟩,
      fun h => ⟨h.objects, h.enters⟩⟩

end SpaceView

/-! ## On the wire -/

namespace VisSig

/-- The texts of a list of names are these names. -/
private theorem itemNames_map (us : List Uuid) :
    itemNames (us.map fun u => JsonValue.str u.toList) = some us := by
  induction us with
  | nil => rfl
  | cons u us ih =>
    rw [List.map_cons, itemNames, ih, Option.map_some, String.ofList_toList]

/-- A list of names is read back from its JSON value. -/
private theorem names_namesValue (us : List Uuid) : names (some (namesValue us)) = some us := by
  unfold names namesValue
  cases us with
  | nil => rfl
  | cons u us => exact itemNames_map (u :: us)

/-- It holds nothing but texts, as `dumps` and `loads` need it. -/
private theorem plain_namesValue (us : List Uuid) : JsonValue.plain (namesValue us) = true := by
  have hitems : ∀ vs : List Uuid,
      JsonValue.plainItems (vs.map fun u => JsonValue.str u.toList) = true := by
    intro vs
    induction vs with
    | nil => rfl
    | cons u vs ih => exact ih
  exact hitems us

/-- The JSON text of a signature is read back as the value it was written from. -/
private theorem loads_value (sig : VisSig) : JsonValue.loads sig.value.dumps = some sig.value := by
  apply JsonValue.loads_dumps
  unfold value
  simp only [JsonValue.plain, JsonValue.plainFields, plain_namesValue, Bool.and_self]

/-- The bytes of a signature are its JSON text. -/
private theorem fromUTF8?_encode (sig : VisSig) :
    String.fromUTF8? sig.encode = some (String.ofList sig.value.dumps) := by
  unfold encode String.fromUTF8?
  rw [String.toUTF8_eq_toByteArray, dif_pos (String.isValidUTF8 _)]
  rfl

/-- The signature that arrives is the one that was sent. -/
theorem decode_encode (sig : VisSig) : decode (some sig.encode) = some sig := by
  have hne : sig.encode.isEmpty = false := by
    have hne : String.ofList sig.value.dumps ≠ "" := by
      rw [ne_eq, String.ofList_eq_empty_iff]
      exact List.cons_ne_nil _ _
    unfold encode ByteArray.isEmpty
    rw [String.toUTF8_eq_toByteArray, String.size_toByteArray, beq_eq_false_iff_ne, ne_eq,
      String.utf8ByteSize_eq_zero_iff]
    exact hne
  unfold decode
  simp only [hne, Bool.false_eq_true, if_false, fromUTF8?_encode, String.toList_ofList,
    loads_value]
  have hl : JsonValue.field [(['l'], namesValue sig.localUuids), (['c'], .bool sig.localColls),
      (['h'], namesValue sig.hiddenLc)] ['l'] = some (namesValue sig.localUuids) := rfl
  have hc : JsonValue.field [(['l'], namesValue sig.localUuids), (['c'], .bool sig.localColls),
      (['h'], namesValue sig.hiddenLc)] ['c'] = some (.bool sig.localColls) := rfl
  have hh : JsonValue.field [(['l'], namesValue sig.localUuids), (['c'], .bool sig.localColls),
      (['h'], namesValue sig.hiddenLc)] ['h'] = some (namesValue sig.hiddenLc) := rfl
  unfold value
  simp only [hl, hc, hh, names_namesValue, Option.any_some, truthy, make_self]

end VisSig

/-- The steps lead to the wanted signature if and only if what it names is there, Local View can be
    entered with it where it has to be, no disabled collection is to be shown, and the mode does not
    come on with collections hidden that are not wanted so. The plan is empty if and only if nothing
    is to change, and a signature arrives as it was sent. -/
theorem visview_plan {S : Type} {B : SpaceView S} {K : SpaceView.Behind S} (hB : B.Documented K)
    (s : S) {want : VisSig} (hwant : want.Settled) :
    (B.sample (B.applyVis s want) = want ↔ B.Reaches K s want) ∧
      (∀ haveSig : VisSig, haveSig.Settled →
        ((visPlan haveSig want).empty ↔ haveSig = want)) ∧
      ∀ sig : VisSig, VisSig.decode (some sig.encode) = some sig :=
  ⟨SpaceView.sample_applyVis_iff hB hwant, fun _ hhave => visPlan_empty_iff hhave hwant,
    VisSig.decode_encode⟩

/-! ## A collection that stays hidden -/

/-- A viewport, what is selected in its view layer, and what is hidden there or disabled. -/
structure Viewport where
  inLocal : Bool := false
  members : List Uuid := []
  selected : List Uuid := []
  hiddenObjects : List Uuid := []
  localColls : Bool := false
  hidden : List Uuid := []
  hiddenColls : List Uuid := []
  disabledColls : List Uuid := []
deriving DecidableEq

namespace Viewport

/-- One collection more or less. -/
def flipHidden (hidden : List Uuid) (u : Uuid) : List Uuid :=
  if u ∈ hidden then hidden.filter (· ≠ u) else u :: hidden

/-- Blender, on a file with these objects and collections side by side. -/
def blender (objects collections : List Uuid) : SpaceView Viewport where
  objects := objects
  collections := collections
  localView v := v.inLocal
  localViewGet v u := u ∈ v.members
  useLocalCollections v := v.localColls
  listed v u := u ∉ v.hiddenColls
  visibleGet v u :=
    u ∉ v.disabledColls && if v.localColls then decide (u ∉ v.hidden) else u ∉ v.hiddenColls
  selectOnly us v :=
    { v with selected := objects.filter fun u => u ∈ us && u ∉ v.hiddenObjects }
  localview v :=
    if v.inLocal then { v with inLocal := false, members := [] }
    else if v.selected = [] then v
    else { v with inLocal := true, members := v.selected }
  localViewSet u on v :=
    { v with members := if on then u :: v.members else v.members.filter (· ≠ u) }
  setLocalCollections on v := { v with localColls := on }
  hideCollection u v :=
    if v.localColls then
      -- it is cancelled for a disabled collection
      if u ∈ v.disabledColls then v else { v with hidden := flipHidden v.hidden u }
    -- in the view layer the operator leaves this collection alone to be seen
    else { v with hiddenColls := collections.filter (· ≠ u) }

def behind : SpaceView.Behind Viewport where
  selected v u := u ∈ v.selected
  selectable v u := u ∉ v.hiddenObjects
  hiddenHere v u := u ∈ v.disabledColls || u ∈ v.hidden
  disabled v u := u ∈ v.disabledColls

/-- A toggle turns one collection and no other. -/
private theorem mem_flipHidden (hidden : List Uuid) (u v : Uuid) :
    v ∈ flipHidden hidden u ↔ if v = u then u ∉ hidden else v ∈ hidden := by
  unfold flipHidden
  by_cases hu : u ∈ hidden
  · by_cases heq : v = u
    · simp [hu, heq]
    · simp [hu, heq]
  · by_cases heq : v = u
    · simp [hu, heq]
    · simp [hu, heq]

/-- It does what the documentation says. -/
theorem documented (objects collections : List Uuid) :
    (blender objects collections).Documented behind where
  -- the selection
  selected_selectOnly us v u hu := by
    replace hu : u ∈ objects := hu
    simp [blender, behind, hu]
  selectOnly_sameLocal us v := ⟨rfl, fun _ => rfl⟩
  selectOnly_sameColls us v := ⟨rfl, fun _ => rfl, fun _ => rfl, fun _ => rfl⟩
  -- Local View
  localview_leaves v hin := by
    replace hin : v.inLocal = true := hin
    simp [blender, hin]
  localview_enters v u hout _ hu := by
    replace hout : v.inLocal = false := hout
    have hne : v.selected ≠ [] := List.ne_nil_of_mem (of_decide_eq_true hu)
    simp [blender, hout, hne]
  localview_members v u hout hin _ := by
    replace hout : v.inLocal = false := hout
    by_cases hne : v.selected = []
    · simp [blender, hout, hne] at hin
    · simp [blender, behind, hout, hne]
  localview_sameColls v := by
    simp only [blender, behind]
    split_ifs
    · exact ⟨rfl, fun _ => rfl, fun _ => rfl, fun _ => rfl⟩
    · exact ⟨rfl, fun _ => rfl, fun _ => rfl, fun _ => rfl⟩
    · exact ⟨rfl, fun _ => rfl, fun _ => rfl, fun _ => rfl⟩
  localView_set u on v hin := hin
  localViewGet_set u on v w _ _ := by
    by_cases hw : w = u
    · cases on <;> simp [blender, hw]
    · cases on <;> simp [blender, hw]
  localViewSet_sameColls u on v := ⟨rfl, fun _ => rfl, fun _ => rfl, fun _ => rfl⟩
  -- the local collections
  mode_set on v := rfl
  listed_setMode on v u := rfl
  hiddenHere_setMode on v u := rfl
  disabled_setMode on v u := rfl
  setMode_sameLocal on v := ⟨rfl, fun _ => rfl⟩
  visibleGet_own v u hon _ := by
    replace hon : v.localColls = true := hon
    simp [blender, behind, hon]
  listed_hide u v w hon := by
    replace hon : v.localColls = true := hon
    simp only [blender, hon, if_true]
    split_ifs <;> rfl
  hiddenHere_hide u v w hon := by
    replace hon : v.localColls = true := hon
    simp only [blender, behind, hon, if_true]
    by_cases hu : u ∈ v.disabledColls
    · by_cases hw : w = u
      · simp [hu, hw]
      · simp [hu, hw]
    · by_cases hw : w = u
      · simp [hu, mem_flipHidden, hw]
      · simp [hu, mem_flipHidden, hw]
  disabled_hide u v w hon := by
    replace hon : v.localColls = true := hon
    simp only [blender, behind, hon, if_true]
    split_ifs <;> rfl
  hiddenHere_disabled v u hu := by
    simp only [behind] at hu ⊢
    rw [hu, Bool.true_or]
  mode_hide u v := by
    simp only [blender]
    split_ifs <;> rfl
  hide_sameLocal u v := by
    simp only [blender]
    split_ifs
    · exact ⟨rfl, fun _ => rfl⟩
    · exact ⟨rfl, fun _ => rfl⟩
    · exact ⟨rfl, fun _ => rfl⟩

end Viewport

/-- The viewport gives up its collections, one of them hidden, and gets them again. The steps lead
    to each signature that was wanted, but for the last: the collection is still hidden. -/
theorem visview_plan_counterexample :
    (Viewport.blender ["ob"] ["coll"]).Documented Viewport.behind ∧
      let B := Viewport.blender ["ob"] ["coll"]
      let v : Viewport := { localColls := true, hidden := ["coll"] }
      let off := B.applyVis v (.make [] false [])
      B.sample v = .make [] true ["coll"] ∧ B.sample off = .make [] false [] ∧
        B.sample (B.applyVis off (.make [] true [])) = .make [] true ["coll"] ∧
        VisSig.make [] true ["coll"] ≠ .make [] true [] := by
  refine ⟨Viewport.documented _ _, ?_⟩
  decide +kernel

/-- An object goes into Local View, and the hidden collection is shown. -/
theorem visview_plan_shown :
    (Viewport.blender ["ob"] ["coll"]).sample
        ((Viewport.blender ["ob"] ["coll"]).applyVis { localColls := true, hidden := ["coll"] }
          (.make ["ob"] true [])) =
      .make ["ob"] true [] := by
  have hwant : (VisSig.make ["ob"] true []).Settled := fun hno => Bool.noConfusion hno
  refine (visview_plan (Viewport.documented ["ob"] ["coll"]) _ hwant).1.mpr ?_
  exact
    { objects := by simp [VisSig.make, DeltaPlan.mem_sorted, Viewport.blender]
      collections := by simp [VisSig.make, DeltaPlan.mem_sorted]
      disabled := fun _ _ _ _ hno => by simp [Viewport.behind] at hno
      enters := fun _ _ => ⟨rfl, by simp [VisSig.make, DeltaPlan.mem_sorted, Viewport.behind]⟩
      remembered := fun _ hno => by cases hno }

end QCBridge
