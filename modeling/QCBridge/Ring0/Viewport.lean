import QCBridge.Ring1.Visview

/-!
# The replica's viewport

`_apply_vis` of `ring0/replica_apply.py`: what a viewport shows is sampled, and the steps of the
plan are carried out on it one after the other.

What Blender answers about the viewport, and what its operators do to it, is a parameter
(`SpaceView`). The window and the region that the operators need are there; without them
`_apply_vis` returns at once.
-/

namespace QCBridge

/-- What `_apply_vis` asks Blender about the target viewport and has it do there. `S` is Blender's
    state. -/
structure SpaceView (S : Type) where
  /-- The stamped objects of the view layer. -/
  objects : List Uuid
  /-- The stamped collections that the view layer has a layer collection of. -/
  collections : List Uuid
  /-- `space.local_view is not None`. -/
  localView : S → Bool
  /-- `local_view_get` of an object. -/
  localViewGet : S → Uuid → Bool
  /-- `space.use_local_collections`. -/
  useLocalCollections : S → Bool
  /-- Neither `exclude` nor `hide_viewport` of the layer collection is set. -/
  listed : S → Uuid → Bool
  /-- `visible_get` of the layer collection. -/
  visibleGet : S → Uuid → Bool
  /-- `select_set` of every object of the view layer: `true` for those with these stamps. -/
  selectOnly : List Uuid → S → S
  /-- `bpy.ops.view3d.localview`. -/
  localview : S → S
  /-- `local_view_set` of an object. -/
  localViewSet : Uuid → Bool → S → S
  /-- The assignment to `space.use_local_collections`. -/
  setLocalCollections : Bool → S → S
  /-- `bpy.ops.object.hide_collection(toggle=True)`, by the collection instead of its index. -/
  hideCollection : Uuid → S → S

namespace SpaceView

variable {S : Type} (B : SpaceView S)

/-- The signature, as `_apply_vis` samples it. -/
def sample (s : S) : VisSig :=
  .make (if B.localView s then B.objects.filter (B.localViewGet s) else [])
    (B.useLocalCollections s)
    (if B.useLocalCollections s then
      B.collections.filter fun u => B.listed s u && !B.visibleGet s u
    else [])

/-- An object of the plan, in or out of Local View. A stamp that no object carries is passed
    over. -/
def localStep (on : Bool) (s : S) (u : Uuid) : S :=
  if u ∈ B.objects then B.localViewSet u on s else s

/-- A collection of the plan, to hide or to show. -/
def hideStep (s : S) (step : Uuid × Bool) : S :=
  if step.1 ∈ B.collections then
    -- already as wanted
    if (!B.visibleGet s step.1) = step.2 then s else B.hideCollection step.1 s
  else s

/-- The steps of a plan about Local View, in their order. -/
def localSteps (p : VisPlan) (s : S) : S :=
  let s₁ := if p.exit && B.localView s then B.localview s else s
  let s₂ := if p.enterWith ≠ [] then B.localview (B.selectOnly p.enterWith s₁) else s₁
  p.remove.foldl (B.localStep false) (p.add.foldl (B.localStep true) s₂)

/-- Those about collections: the mode is set before they are hidden and shown. -/
def collSteps (p : VisPlan) (s : S) : S :=
  let s₁ := match p.setLocalColls with
    | some on => B.setLocalCollections on s
    | none => s
  (p.lcHide.map (·, true) ++ p.lcShow.map (·, false)).foldl B.hideStep s₁

/-- `_apply_vis`. -/
def applyVis (s : S) (want : VisSig) : S :=
  let p := visPlan (B.sample s) want
  -- `p.exit` is only set in Local View, so the test of `in_local` can read the state
  if p.empty then s else B.collSteps p (B.localSteps p s)

end SpaceView

end QCBridge
