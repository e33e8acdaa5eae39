import QCBridge.ForStd.Eventually
import QCBridge.Ring0.Following
import QCBridge.Spec.HotPacket

/-!
# The view comes to rest

Once the host looks at one thing, every application of its packet leaves the view's settings as the
packet has them, and a re-assert sees to what is looked through. What `view_matrix` reads is as old
as the last redraw, so it takes two re-asserts with a redraw between them, and one after. From then
on nothing is written any more, and the render goes on from where it is.

## Key results

- `RegionView.applied_eq`: a view that shows the packet is not written to
- `Following.reasserts_again`: the last packet is applied again and again
- `Following.comes_to_rest`: the view shows what the host sees, and stays as it is
-/

namespace QCBridge

variable {M : ViewMath} {h : HotState} {zoomOffset : Binary64} {cam : Option SceneCamera}
  {core : List UInt8}

/-- The camera's zoom, with what the replica adds to it. -/
def ViewMath.zoomOf (M : ViewMath) (h : HotState) (zoomOffset : Binary64) : Binary64 :=
  M.clampZoom (M.plus h.camZoom zoomOffset)

/-- What is written for a packet is read back as good as equal. -/
structure ViewMath.Keeps (M : ViewMath) (h : HotState) (zoomOffset : Binary64)
    (cam : Option SceneCamera) : Prop where
  zoom : M.apart (M.rna (M.zoomOf h zoomOffset)) (M.zoomOf h zoomOffset) = false
  offset : M.apart (M.rna h.camOffset.1) h.camOffset.1 = false ∧
    M.apart (M.rna h.camOffset.2) h.camOffset.2 = false
  matrix : M.matrixApart (M.rnaMatrix h.viewMatrix) h.viewMatrix = false
  lens : M.apart (M.rna h.lens) h.lens = false
  clipStart : M.apart (M.rna h.clipStart) h.clipStart = false
  clipEnd : M.apart (M.rna h.clipEnd) h.clipEnd = false
  expect : ∀ c, cam = some c → M.matrixClose c.expect c.expect = true

/-! ## The view -/

namespace RegionView

variable {v : RegionView}

/-- The perspective that a packet asks for. -/
def aim (h : HotState) : Perspective := if h.camera then .camera else perspectiveOf h

/-- The view is as the packet has it, but for what it looks at. -/
structure Posed (M : ViewMath) (h : HotState) (zoomOffset : Binary64) (v : RegionView) : Prop where
  perspective : v.perspective = aim h
  zoom : h.camera = true → M.apart v.cameraZoom (M.zoomOf h zoomOffset) = false
  offset : h.camera = true → M.apart v.cameraOffset.1 h.camOffset.1 = false ∧
    M.apart v.cameraOffset.2 h.camOffset.2 = false
  lens : M.apart v.lens h.lens = false
  clipStart : M.apart v.clipStart h.clipStart = false
  clipEnd : M.apart v.clipEnd h.clipEnd = false

/-- It is what the packet looks at. -/
def Right (M : ViewMath) (h : HotState) (cam : Option SceneCamera) (m : ViewMatrix) : Prop :=
  if h.camera then ∀ c, cam = some c → M.matrixClose m c.expect = true
  else M.matrixApart m h.viewMatrix = false

/-- A viewport that shows what the packet says. -/
def Shows (M : ViewMath) (h : HotState) (zoomOffset : Binary64) (cam : Option SceneCamera)
    (v : RegionView) : Prop :=
  v.Posed M h zoomOffset ∧ Right M h cam v.drawn

/-- The view after `_apply_hot`. -/
def applied (M : ViewMath) (h : HotState) (zoomOffset : Binary64) (cam : Option SceneCamera)
    (reassert : Bool) (v : RegionView) : RegionView :=
  (if h.camera then v.followCamera M cam zoomOffset h reassert true
    else v.followFree M h).followSpace M h

/-- What a view looks at. -/
def Aims (v w : RegionView) : Prop :=
  w.perspective = v.perspective ∧ w.bound = v.bound ∧ w.matrix = v.matrix ∧ w.drawn = v.drawn

/-- Two changes that leave alone what is looked at. -/
theorem Aims.trans {w x : RegionView} (hvw : v.Aims w) (hwx : w.Aims x) : v.Aims x := by
  obtain ⟨hp, hb, hm, hd⟩ := hvw
  obtain ⟨hp', hb', hm', hd'⟩ := hwx
  exact ⟨hp'.trans hp, hb'.trans hb, hm'.trans hm, hd'.trans hd⟩

/-- Then the next redraw shows the same. -/
theorem Aims.source {w : RegionView} (hvw : v.Aims w) (cam : Option SceneCamera) :
    w.source cam = v.source cam := by
  obtain ⟨hp, hb, hm, -⟩ := hvw
  simp only [RegionView.source, hp, hb, hm]

/-- The space is another matter than what is looked at. -/
private theorem aims_followSpace (M : ViewMath) (h : HotState) (v : RegionView) :
    v.Aims (v.followSpace M h) ∧ (v.followSpace M h).cameraZoom = v.cameraZoom ∧
      (v.followSpace M h).cameraOffset = v.cameraOffset := by
  unfold followSpace
  dsimp only
  split <;> split <;> split <;> exact ⟨⟨rfl, rfl, rfl, rfl⟩, rfl, rfl⟩

/-- The lens and the clip range are as the packet has them, also where they were written just now.
    -/
private theorem followSpace_kept (hkeeps : M.Keeps h zoomOffset cam) (v : RegionView) :
    M.apart (v.followSpace M h).lens h.lens = false ∧
      M.apart (v.followSpace M h).clipStart h.clipStart = false ∧
      M.apart (v.followSpace M h).clipEnd h.clipEnd = false := by
  have hlens := hkeeps.lens
  have hstart := hkeeps.clipStart
  have hend := hkeeps.clipEnd
  unfold followSpace
  dsimp only
  split <;> split <;> split <;> simp_all

/-- Nor is the camera's zoom what is looked at. -/
private theorem aims_followZoom (M : ViewMath) (zoom : Binary64) (offset : Binary64 × Binary64)
    (v : RegionView) : v.Aims (v.followZoom M zoom offset) := by
  unfold followZoom
  dsimp only
  split <;> split <;> exact ⟨rfl, rfl, rfl, rfl⟩

/-- The zoom and the offset are read back as good as equal, also where they were written just now.
    -/
private theorem followZoom_kept {zoom : Binary64} {offset : Binary64 × Binary64}
    (hzoom : M.apart (M.rna zoom) zoom = false)
    (hoffset : M.apart (M.rna offset.1) offset.1 = false ∧
      M.apart (M.rna offset.2) offset.2 = false) (v : RegionView) :
    M.apart (v.followZoom M zoom offset).cameraZoom zoom = false ∧
      M.apart (v.followZoom M zoom offset).cameraOffset.1 offset.1 = false ∧
      M.apart (v.followZoom M zoom offset).cameraOffset.2 offset.2 = false := by
  obtain ⟨hx, hy⟩ := hoffset
  unfold followZoom
  dsimp only
  split <;> split <;> simp_all [setCameraZoom, setCameraOffset]

/-- With a camera to bind, camera view is entered or was entered already. -/
private theorem lookThrough_camera {c : SceneCamera} (reassert : Bool) (v : RegionView) :
    (v.lookThrough M (some c) reassert true).perspective = .camera := by
  simp only [lookThrough]
  split
  · rfl
  · split
    · rfl
    · rename_i hcamera _
      exact not_not.mp hcamera

/-- Where camera view is entered, or entered again, it looks through the camera. -/
private theorem lookThrough_cases (c : SceneCamera) (reassert : Bool) (v : RegionView) :
    (v.lookThrough M (some c) reassert true).source (some c) = c.expect ∨
      v.lookThrough M (some c) reassert true = v ∧ v.perspective = .camera ∧
        (reassert = true → M.matrixClose v.drawn c.expect = true) := by
  simp only [lookThrough]
  split
  · exact .inl (by simp [source, setPerspective])
  · rename_i hcamera
    split
    · exact .inl (by simp [source, setPerspective])
    · rename_i hclose
      refine .inr ⟨rfl, not_not.mp hcamera, fun hre => ?_⟩
      simpa [hre] using hclose

/-- Out of camera view the perspective is the packet's. -/
private theorem followFree_perspective (M : ViewMath) (h : HotState) (v : RegionView) :
    (v.followFree M h).perspective = perspectiveOf h := by
  unfold followFree
  dsimp only
  by_cases hne : (v.followMatrix M h.viewMatrix).perspective ≠ perspectiveOf h
  · rw [if_pos hne]
    rfl
  · rw [if_neg hne]
    exact not_not.mp hne

/-- A packet without a camera does not ask for camera view. -/
private theorem perspectiveOf_ne_camera (h : HotState) : perspectiveOf h ≠ .camera := by
  unfold perspectiveOf
  split <;> decide

/-- Out of camera view the view's own matrix is drawn. -/
private theorem source_of_ne_camera (hne : v.perspective ≠ .camera) (cam : Option SceneCamera) :
    v.source cam = v.matrix := by
  unfold source
  cases cam with
  | none => rfl
  | some c => simp [hne]

/-- What `view_matrix` reads changes with a redraw and not with a write. -/
private theorem followFree_drawn (M : ViewMath) (h : HotState) (v : RegionView) :
    (v.followFree M h).drawn = v.drawn := by
  unfold followFree followMatrix
  dsimp only
  split <;> split <;> rfl

/-- The matrix is written, or it was right as far as could be seen. -/
private theorem followFree_matrix (M : ViewMath) (h : HotState) (v : RegionView) :
    (v.followFree M h).matrix = M.rnaMatrix h.viewMatrix ∨
      (v.followFree M h).matrix = v.matrix ∧ M.matrixApart v.drawn h.viewMatrix = false := by
  unfold followFree followMatrix
  dsimp only
  by_cases hapart : M.matrixApart v.drawn h.viewMatrix
  · refine .inl ?_
    rw [if_pos hapart]
    split <;> rfl
  · refine .inr ⟨?_, by simpa using hapart⟩
    rw [if_neg hapart]
    split <;> rfl

/-! ## One application -/

section Applied

variable (hcam : h.camera = true → cam.isSome)

include hcam

/-- What an application does about where the view looks. -/
private theorem applied_looks (hkeeps : M.Keeps h zoomOffset cam) (reassert : Bool)
    (v : RegionView) :
    (v.applied M h zoomOffset cam reassert).perspective = aim h ∧
      (v.applied M h zoomOffset cam reassert).drawn = v.drawn ∧
      (Right M h cam ((v.applied M h zoomOffset cam reassert).source cam) ∨
        (v.perspective = aim h → (v.applied M h zoomOffset cam reassert).source cam
          = v.source cam ∧ (reassert = true → Right M h cam v.drawn))) := by
  unfold applied aim Right
  cases hcamera : h.camera with
  | true =>
    simp only [if_true]
    obtain ⟨c, rfl⟩ := Option.isSome_iff_exists.mp (hcam hcamera)
    have haims : (v.lookThrough M (some c) reassert true).Aims
        ((v.followCamera M (some c) zoomOffset h reassert true).followSpace M h) :=
      (aims_followZoom M _ _ _).trans (aims_followSpace M h _).1
    obtain ⟨hpersp, -, -, hdrawn⟩ := id haims
    refine ⟨hpersp.trans (lookThrough_camera reassert v), ?_, ?_⟩
    · -- no write is drawn before the next redraw
      rw [hdrawn]
      simp only [lookThrough]
      split
      · rfl
      · split <;> rfl
    · rw [haims.source]
      rcases lookThrough_cases (M := M) c reassert v with hsource | ⟨heq, -, hclose⟩
      · refine .inl fun c' hc' => ?_
        obtain rfl := Option.some.inj hc'
        rw [hsource]
        exact hkeeps.expect c rfl
      · refine .inr fun _ => ⟨by rw [heq], fun hre c' hc' => ?_⟩
        obtain rfl := Option.some.inj hc'
        exact hclose hre
  | false =>
    simp only [Bool.false_eq_true, if_false]
    have haims := (aims_followSpace M h (v.followFree M h)).1
    obtain ⟨hpersp, -, -, hdrawn⟩ := id haims
    have hfree := followFree_perspective M h v
    refine ⟨hpersp.trans hfree, hdrawn.trans (followFree_drawn M h v), ?_⟩
    rw [haims.source, source_of_ne_camera (hfree ▸ perspectiveOf_ne_camera h)]
    rcases followFree_matrix M h v with hwritten | ⟨hsame, hright⟩
    · exact .inl (hwritten ▸ hkeeps.matrix)
    · refine .inr fun hv => ⟨?_, fun _ => hright⟩
      rw [hsame, source_of_ne_camera (hv ▸ perspectiveOf_ne_camera h)]

/-- Whatever the view was, after one application it is as the packet has it, but for what it looks
    at. -/
private theorem applied_posed (hkeeps : M.Keeps h zoomOffset cam) (reassert : Bool)
    (v : RegionView) :
    (v.applied M h zoomOffset cam reassert).Posed M h zoomOffset := by
  have hspace := followSpace_kept hkeeps (if h.camera then
    v.followCamera M cam zoomOffset h reassert true else v.followFree M h)
  refine ⟨(applied_looks hcam hkeeps reassert v).1, fun hcamera => ?_, fun hcamera => ?_,
    hspace.1, hspace.2.1, hspace.2.2⟩
  all_goals
    unfold applied
    simp only [hcamera, if_true]
    obtain ⟨-, hzoom, hoffset⟩ := aims_followSpace M h
      (v.followCamera M cam zoomOffset h reassert true)
    obtain ⟨hz, ho⟩ := followZoom_kept hkeeps.zoom hkeeps.offset
      (v.lookThrough M cam reassert true)
  · rw [hzoom]
    exact hz
  · rw [hoffset]
    exact ho

/-- A view that shows the packet is not written to. -/
theorem applied_eq (hshows : v.Shows M h zoomOffset cam) (reassert : Bool) :
    v.applied M h zoomOffset cam reassert = v := by
  obtain ⟨hposed, hright⟩ := hshows
  -- the clips and the lens are those of the packet
  have hspace : ∀ w : RegionView, w = v → w.followSpace M h = v := by
    intro w hw
    subst hw
    simp [followSpace, hposed.lens, hposed.clipStart, hposed.clipEnd]
  apply hspace
  cases hcamera : h.camera with
  -- through the camera: perspective, matrix, offset and zoom are as they should be
  | true =>
    obtain ⟨c, rfl⟩ := Option.isSome_iff_exists.mp (hcam hcamera)
    have hpersp : v.perspective = .camera := by
      rw [hposed.perspective, aim, if_pos hcamera]
    have hclose : M.matrixClose v.drawn c.expect = true := by
      simp only [Right, hcamera, if_true] at hright
      exact hright c rfl
    obtain ⟨hx, hy⟩ := hposed.offset hcamera
    have hzoom := hposed.zoom hcamera
    simp only [ViewMath.zoomOf] at hzoom
    simp [followCamera, lookThrough, followZoom, hpersp, hclose, hzoom, hx, hy]
  -- a free view: the matrix is near enough
  | false =>
    have hpersp : v.perspective = perspectiveOf h := by
      rw [hposed.perspective, aim, hcamera]
      rfl
    have hapart : M.matrixApart v.drawn h.viewMatrix = false := by
      simpa [Right, hcamera] using hright
    simp [followFree, followMatrix, hapart, hpersp]

end Applied

/-! ## Stages -/

/-- The redraw shows what will be shown then, or the view is right. -/
def Settling (M : ViewMath) (h : HotState) (zoomOffset : Binary64) (cam : Option SceneCamera)
    (v : RegionView) : Prop :=
  v.Posed M h zoomOffset ∧ (v.drawn = v.source cam ∨ Right M h cam (v.source cam))

/-- What the next redraw shows is right. -/
def Aimed (M : ViewMath) (h : HotState) (zoomOffset : Binary64) (cam : Option SceneCamera)
    (v : RegionView) : Prop :=
  v.Posed M h zoomOffset ∧ Right M h cam (v.source cam)

/-- It is aimed right, and the last redraw has shown it. -/
def Rests (M : ViewMath) (h : HotState) (zoomOffset : Binary64) (cam : Option SceneCamera)
    (v : RegionView) : Prop :=
  v.Aimed M h zoomOffset cam ∧ v.drawn = v.source cam

/-- A redraw leaves what the next one will show. -/
private theorem source_redraw (v : RegionView) : (v.redraw cam).source cam = v.source cam := by
  unfold source redraw
  cases cam <;> rfl

/-- A redraw changes no setting. -/
theorem Posed.redraw (hposed : v.Posed M h zoomOffset) (cam : Option SceneCamera) :
    (v.redraw cam).Posed M h zoomOffset :=
  ⟨hposed.perspective, hposed.zoom, hposed.offset, hposed.lens, hposed.clipStart, hposed.clipEnd⟩

/-- After a redraw, what is drawn is what will be drawn. -/
private theorem Posed.settling_redraw (hposed : v.Posed M h zoomOffset) :
    (v.redraw cam).Settling M h zoomOffset cam :=
  ⟨hposed.redraw cam, .inl (source_redraw v).symm⟩

/-- The redraw of a view that is aimed right shows what it should. -/
private theorem Aimed.rests_redraw (haimed : v.Aimed M h zoomOffset cam) :
    (v.redraw cam).Rests M h zoomOffset cam :=
  ⟨⟨haimed.1.redraw cam, (source_redraw v).symm ▸ haimed.2⟩, (source_redraw v).symm⟩

/-- A view at rest shows what the packet says. -/
theorem Rests.shows (hrests : v.Rests M h zoomOffset cam) : v.Shows M h zoomOffset cam :=
  ⟨hrests.1.1, hrests.2 ▸ hrests.1.2⟩

/-- A redraw of a view at rest draws the same again. -/
private theorem Rests.redraw_eq (hrests : v.Rests M h zoomOffset cam) : v.redraw cam = v := by
  unfold RegionView.redraw
  rw [← hrests.2]

/-- An application leaves a view that is aimed right: it writes the packet's view again or nothing.
    -/
theorem Aimed.applied (hcam : h.camera = true → cam.isSome) (hkeeps : M.Keeps h zoomOffset cam)
    (haimed : v.Aimed M h zoomOffset cam) (reassert : Bool) :
    (v.applied M h zoomOffset cam reassert).Aimed M h zoomOffset cam := by
  refine ⟨applied_posed hcam hkeeps reassert v, ?_⟩
  rcases (applied_looks hcam hkeeps reassert v).2.2 with hright | hsame
  · exact hright
  · rw [(hsame haimed.1.perspective).1]
    exact haimed.2

/-- A re-assert after a redraw sees what there is to see. -/
private theorem Settling.aimed_applied (hcam : h.camera = true → cam.isSome)
    (hkeeps : M.Keeps h zoomOffset cam) (hsettling : v.Settling M h zoomOffset cam) :
    (v.applied M h zoomOffset cam true).Aimed M h zoomOffset cam := by
  obtain ⟨hposed, hdrawn | hright⟩ := hsettling
  · refine ⟨applied_posed hcam hkeeps true v, ?_⟩
    rcases (applied_looks hcam hkeeps true v).2.2 with hright | hsame
    · exact hright
    · obtain ⟨hsource, hdrawnRight⟩ := hsame hposed.perspective
      rw [hsource, ← hdrawn]
      exact hdrawnRight rfl
  · exact Aimed.applied hcam hkeeps ⟨hposed, hright⟩ true

/-- An application leaves a view settling: where it writes what is looked at, it writes what is
    right. -/
theorem Settling.applied (hcam : h.camera = true → cam.isSome) (hkeeps : M.Keeps h zoomOffset cam)
    (hsettling : v.Settling M h zoomOffset cam) (reassert : Bool) :
    (v.applied M h zoomOffset cam reassert).Settling M h zoomOffset cam := by
  obtain ⟨hposed, hdrawn | hright⟩ := hsettling
  · refine ⟨applied_posed hcam hkeeps reassert v, ?_⟩
    obtain ⟨-, hsameDrawn, hright | hsame⟩ := applied_looks hcam hkeeps reassert v
    · exact .inr hright
    · exact .inl (hsameDrawn.trans (hdrawn.trans (hsame hposed.perspective).1.symm))
  · obtain ⟨hposed', hright'⟩ := Aimed.applied hcam hkeeps ⟨hposed, hright⟩ reassert
    exact ⟨hposed', .inr hright'⟩

end RegionView

/-! ## The replica -/

namespace Following

variable {s : Following}

/-- The host looks at one thing, and nobody else changes the view. -/
structure Still (core : List UInt8) (zoomOffset : Binary64) (cam : Option SceneCamera)
    (s : Following) : Prop where
  polled : s.polled.map hotCore = some core
  zoomOffset : s.zoomOffset = zoomOffset
  camera : s.camera = cam
  off : s.shot.on = false ∧ s.shot.restore = false
  io : s.io = .idle
  showing : ∃ v, s.area = .showing v

/-- What is about to be applied again is the host's packet, and no goodbye waits. -/
structure Ready (core : List UInt8) (s : Following) : Prop where
  last : s.lastHot = some core
  greeted : s.hostGoodbye = false

/-- A re-assert began after every goodbye, with the host's packet. -/
def Primed (core : List UInt8) (s : Following) : Prop :=
  ∀ start, s.tick = .reasserting start → s.Ready core

/-- No goodbye waits, and a re-assert is of the host's packet. -/
structure Fresh (core : List UInt8) (s : Following) : Prop where
  greeted : s.hostGoodbye = false
  primed : s.Primed core

/-- Packets go on coming, all of the same view, camera view finds the camera, and a screen that a
    goodbye brings back has a viewport. -/
def Calm (core : List UInt8) : Act → Prop
  | .pass | .io | .redraw => True
  | .packet data => hotCore data = core
  | .turn answers => answers.binds = true ∧ answers.bust = false ∧
      ∀ area, answers.restored = some area → ∃ v, area = .showing v
  | _ => False

/-- The kinds of actions that bring the view on. -/
inductive Kind where
  | pass | turn | redraw

def Kind.Of : Kind → Act → Prop
  | .pass, .pass => True
  | .turn, .turn _ => True
  | .redraw, .redraw => True
  | _, _ => False

/-- Time passes in one way. -/
private theorem Kind.Of.eq_pass {act : Act} (hof : Kind.Of .pass act) : act = .pass := by
  cases act with
  | pass => rfl
  | _ => exact hof.elim

/-- A turn brings its answers. -/
private theorem Kind.Of.eq_turn {act : Act} (hof : Kind.Of .turn act) :
    ∃ answers, act = .turn answers := by
  cases act with
  | turn answers => exact ⟨answers, rfl⟩
  | _ => exact hof.elim

/-- There is one redraw. -/
private theorem Kind.Of.eq_redraw {act : Act} (hof : Kind.Of .redraw act) : act = .redraw := by
  cases act with
  | redraw => rfl
  | _ => exact hof.elim

/-- The last packet is applied again. -/
def Reasserts (core : List UInt8) (s : Following) (act : Act) : Prop :=
  (∃ answers, act = .turn answers) ∧ (∃ start, s.tick = .reasserting start) ∧
    s.lastHot = some core

/-! ## Steps -/

/-- Of the state, `_apply_hot` changes three fields. -/
theorem applyHot_eq_with (M : ViewMath) (s : Following) (packed : List UInt8)
    (reassert binds : Bool) : ∃ area frame last, s.applyHot M packed reassert binds =
      { s with area := area, frameCurrent := frame, lastFrameApply := last } ∧
      ((∃ v, s.area = .showing v) → ∃ v, area = .showing v) ∧
      (s.area ≠ .missing → area ≠ .missing) := by
  unfold applyHot
  split
  · unfold followFrame
    split
    · split
      · exact ⟨s.area, _, s.clock, rfl, id, id⟩
      · exact ⟨s.area, s.frameCurrent, s.lastFrameApply, rfl, id, id⟩
    · dsimp only
      split
      · exact ⟨_, _, s.clock, rfl, fun _ => ⟨_, rfl⟩, fun _ => (by simp)⟩
      · exact ⟨_, s.frameCurrent, s.lastFrameApply, rfl, fun _ => ⟨_, rfl⟩, fun _ => (by simp)⟩
  · exact ⟨s.area, s.frameCurrent, s.lastFrameApply, rfl, id, id⟩

/-- The same of the beginning of a tick. -/
theorem beginTick_eq_with (M : ViewMath) (s : Following) (answers : TickAnswers) :
    ∃ goodbye lastHot area frame last tick, s.beginTick M answers =
      { s with
        hostGoodbye := goodbye, lastHot := lastHot, area := area, frameCurrent := frame,
        lastFrameApply := last, tick := tick } ∧
      ((∀ a, answers.restored = some a → ∃ v, a = .showing v) →
        (∃ v, s.area = .showing v) → ∃ v, area = .showing v) ∧
      (answers.restored ≠ some .missing → s.area ≠ .missing → area ≠ .missing) := by
  -- a goodbye restores the screen, which may leave another area
  have hgood : ∃ goodbye lastHot area₀,
      (if s.hostGoodbye then s.handleGoodbye answers.restored else s) =
        { s with hostGoodbye := goodbye, lastHot := lastHot, area := area₀ } ∧
      (area₀ = s.area ∨ answers.restored = some area₀) := by
    split
    · refine ⟨_, _, _, rfl, ?_⟩
      cases hrestored : answers.restored with
      | none => exact .inl rfl
      | some a => exact .inr rfl
    · exact ⟨s.hostGoodbye, s.lastHot, s.area, rfl, .inl rfl⟩
  obtain ⟨goodbye, lastHot, area₀, hgood, harea⟩ := hgood
  -- a view is shown if one was shown and the screen brought one
  have hshowing : (∀ a, answers.restored = some a → ∃ v, a = .showing v) →
      (∃ v, s.area = .showing v) → ∃ v, area₀ = .showing v := by
    intro hrestored hs
    rcases harea with rfl | hbrought
    · exact hs
    · exact hrestored _ hbrought
  -- an area is there if one was and the screen brought one
  have hthere : answers.restored ≠ some .missing → s.area ≠ .missing → area₀ ≠ .missing := by
    intro hrestored hs
    rcases harea with rfl | hbrought
    · exact hs
    · exact fun heq => hrestored (heq ▸ hbrought)
  unfold beginTick afterHot
  dsimp only
  rw [hgood]
  split
  · -- a packet is waiting: it is applied in the same tick
    split
    · obtain ⟨area, frame, last, heq, hshowing', hthere'⟩ := applyHot_eq_with M
        { s with hostGoodbye := goodbye, lastHot := lastHot, area := area₀ } _ false answers.binds
      rw [heq]
      exact ⟨goodbye, lastHot, area, frame, last, _, rfl,
        fun hrestored hs => hshowing' (hshowing hrestored hs),
        fun hrestored hs => hthere' (hthere hrestored hs)⟩
    · -- none is: the tick rests, or re-asserts
      split <;> exact ⟨_, _, _, _, _, _, rfl, hshowing, hthere⟩
  · split <;> exact ⟨_, _, _, _, _, _, rfl, hshowing, hthere⟩

/-- `_shot_apply_bust` forgets the last packet, and changes nothing else. -/
theorem bust_eq_with (s : Following) (answers : TickAnswers) :
    ∃ lastHot, (if answers.bust then { s with lastHot := none } else s) =
      { s with lastHot := lastHot } := by
  split
  · exact ⟨_, rfl⟩
  · exact ⟨s.lastHot, rfl⟩

/-- What `_apply_hot` makes of the host's packet. -/
private theorem applyHot_view (hstate : unpackHot core = some h) (hoff : s.shot.on = false)
    {v : RegionView} (hv : s.area = .showing v) (reassert : Bool) :
    (s.applyHot M core reassert true).area
        = .showing (v.applied M h s.zoomOffset s.camera reassert) ∧
      ((s.applyHot M core reassert true).frameCurrent = h.frame ∨
        s.clock < s.lastFrameApply + frameMinIntervalMs ∧
          (s.applyHot M core reassert true).frameCurrent = s.frameCurrent ∧
          (s.applyHot M core reassert true).lastFrameApply = s.lastFrameApply) := by
  unfold applyHot followFrame RegionView.applied
  simp only [hstate, hv, hoff, Bool.false_eq_true, if_false]
  by_cases hframe : h.frame ≠ s.frameCurrent ∧ s.lastFrameApply + frameMinIntervalMs ≤ s.clock
  · simp [hframe]
  · rw [if_neg hframe]
    refine ⟨rfl, ?_⟩
    by_cases hsame : h.frame = s.frameCurrent
    · exact .inl hsame.symm
    · refine .inr ⟨?_, rfl, rfl⟩
      have := fun hle => hframe ⟨hsame, hle⟩
      omega

/-- A goodbye waits, or another packet than the host's was the last. -/
def Stale (core : List UInt8) (s : Following) : Prop :=
  s.hostGoodbye = true ∨ s.lastHot ≠ some core

instance (core : List UInt8) (s : Following) : Decidable (s.Stale core) :=
  inferInstanceAs (Decidable (_ ∨ _))

/-- The re-assert is due. -/
def Late (s : Following) : Prop := s.lastHotApplied + reassertMs ≤ s.clock

instance (s : Following) : Decidable s.Late := inferInstanceAs (Decidable (_ ≤ _))

/-- A tick begins with a packet that was not the last one. -/
private theorem beginTick_stale (hpolled : s.polled.map hotCore = some core) (hstale : s.Stale core)
    (answers : TickAnswers) : ∃ s₀ : Following,
      (s₀ = s ∨ s.hostGoodbye = true ∧ s₀ = s.handleGoodbye answers.restored) ∧
      s₀.hostGoodbye = false ∧ s.beginTick M answers =
        { s₀.applyHot M core false answers.binds with tick := .recording core s.clock } := by
  unfold beginTick
  cases hgoodbye : s.hostGoodbye with
  | true =>
    -- `_handle_goodbye` drops the last packet, so any packet is another one
    refine ⟨s.handleGoodbye answers.restored, .inr ⟨rfl, rfl⟩, rfl, ?_⟩
    simp only [if_true]
    rw [show (s.handleGoodbye answers.restored).polled = s.polled from rfl, hpolled]
    dsimp only
    rw [if_pos (by simp [handleGoodbye])]
    rfl
  | false =>
    refine ⟨s, .inl rfl, hgoodbye, ?_⟩
    simp only [Bool.false_eq_true, if_false]
    rw [hpolled]
    dsimp only
    rw [if_pos]
    rcases hstale with hno | hne
    · rw [hgoodbye] at hno
      cases hno
    · exact hne.symm

/-- A tick begins with the packet that was the last one. -/
private theorem beginTick_fresh (hpolled : s.polled.map hotCore = some core)
    (hfresh : ¬ s.Stale core)
    (answers : TickAnswers) : s.beginTick M answers =
      if s.Late then { s with tick := .reasserting s.clock } else { s with tick := .serving } := by
  obtain ⟨hgoodbye, hlast⟩ := not_or.mp hfresh
  simp only [Bool.not_eq_true, not_not] at hgoodbye hlast
  unfold beginTick
  dsimp only
  rw [if_neg (by rw [hgoodbye]; decide), hpolled]
  dsimp only
  have hsome : s.lastHot.isSome = true := by rw [hlast]; rfl
  rw [if_neg (fun hne => hne hlast.symm)]
  unfold afterHot
  by_cases hlate : s.Late
  · rw [if_pos ⟨hsome, hlate⟩, if_pos hlate]
  · rw [if_neg fun hboth => hlate hboth.2, if_neg hlate]

/-- Out of shot mode, a tick ends without it. -/
private theorem turn_serving (hserving : s.tick = .serving)
    (hoff : s.shot.on = false ∧ s.shot.restore = false) {answers : TickAnswers}
    (hbust : answers.bust = false) :
    s.turn M answers = { s with tick := .resting } := by
  unfold turn
  simp [hserving, hbust, hoff.1, hoff.2]

/-- The turn of the main thread leaves what the IO thread and others write. -/
theorem Still.turn (hstill : s.Still core zoomOffset cam) {answers : TickAnswers}
    (hcalm : Calm core (.turn answers)) : (s.turn M answers).Still core zoomOffset cam := by
  obtain ⟨-, hbust, hrestored⟩ := hcalm
  cases htick : s.tick with
  | resting =>
    obtain ⟨_, _, _, _, _, _, heq, hshowing, -⟩ := beginTick_eq_with M s answers
    -- the beginning of a tick leaves a viewport where there is one
    simp only [Following.turn, htick]
    rw [heq]
    exact ⟨hstill.polled, hstill.zoomOffset, hstill.camera, hstill.off, hstill.io,
      hshowing hrestored hstill.showing⟩
  | recording packed start =>
    simp only [Following.turn, htick]
    exact ⟨hstill.polled, hstill.zoomOffset, hstill.camera, hstill.off, hstill.io, hstill.showing⟩
  | reasserting start =>
    simp only [Following.turn, htick]
    split
    · -- so does an application of the packet
      rename_i packed _
      obtain ⟨_, _, _, heq, hshowing, -⟩ := applyHot_eq_with M s packed true answers.binds
      rw [heq]
      exact ⟨hstill.polled, hstill.zoomOffset, hstill.camera, hstill.off, hstill.io,
        hshowing hstill.showing⟩
    · exact ⟨hstill.polled, hstill.zoomOffset, hstill.camera, hstill.off, hstill.io,
        hstill.showing⟩
  | serving =>
    -- the service has nothing to do out of shot mode
    rw [turn_serving htick hstill.off hbust]
    exact ⟨hstill.polled, hstill.zoomOffset, hstill.camera, hstill.off, hstill.io, hstill.showing⟩

/-- An IO thread that has nothing in hand does nothing. -/
private theorem ioTurn_idle (hio : s.io = .idle) : s.ioTurn = s := by
  unfold ioTurn
  rw [hio]

/-- What an action does while the host looks at one thing. -/
private theorem Still.step_cases (hstill : s.Still core zoomOffset cam) {act : Act}
    (hcalm : Calm core act) :
    s.step M act = { s with clock := s.clock + 1 } ∨
    (∃ data, hotCore data = core ∧ s.step M act = { s with polled := some data }) ∨
    s.step M act = s ∨
    (∃ answers, act = .turn answers ∧ Calm core (.turn answers) ∧
      s.step M act = s.turn M answers) ∨
    ∃ v, s.area = .showing v ∧ s.step M act = { s with area := .showing (v.redraw cam) } := by
  cases act with
  | pass => exact .inl rfl
  | packet data => exact .inr (.inl ⟨data, hcalm, if_pos hstill.io⟩)
  | io => exact .inr (.inr (.inl (ioTurn_idle hstill.io)))
  | turn answers => exact .inr (.inr (.inr (.inl ⟨answers, rfl, hcalm, rfl⟩)))
  | redraw =>
    obtain ⟨v, hv⟩ := hstill.showing
    exact .inr (.inr (.inr (.inr ⟨v, hv, by simp only [Following.step, hv, hstill.camera]⟩)))
  | nudge | setShot | goodbye | viewport | moveCamera | camera | frame => exact hcalm.elim

/-- While the host looks at one thing, no action but a packet of it comes from outside. -/
theorem Still.step (hstill : s.Still core zoomOffset cam) {act : Act} (hcalm : Calm core act) :
    (s.step M act).Still core zoomOffset cam := by
  rcases hstill.step_cases (M := M) hcalm with heq | ⟨data, hcore, heq⟩ | heq |
    ⟨answers, -, hturn, heq⟩ | ⟨v, -, heq⟩ <;> rw [heq]
  · exact ⟨hstill.polled, hstill.zoomOffset, hstill.camera, hstill.off, hstill.io, hstill.showing⟩
  · exact ⟨congrArg some hcore, hstill.zoomOffset, hstill.camera, hstill.off, hstill.io,
      hstill.showing⟩
  · exact hstill
  · exact hstill.turn hturn
  · exact ⟨hstill.polled, hstill.zoomOffset, hstill.camera, hstill.off, hstill.io, ⟨_, rfl⟩⟩

/-- A turn begins a re-assert with the host's packet only, and after every goodbye. -/
private theorem primed_turn (hstill : s.Still core zoomOffset cam) {answers : TickAnswers}
    (hbust : answers.bust = false) : (s.turn M answers).Primed core := by
  intro start hstart
  cases htick : s.tick with
  | resting =>
    simp only [Following.turn, htick] at hstart ⊢
    -- a tick that begins with a new packet records it
    by_cases hstale : s.Stale core
    · obtain ⟨s₀, -, -, heq⟩ := beginTick_stale (M := M) hstill.polled hstale answers
      rw [heq] at hstart
      cases hstart
    · rw [beginTick_fresh hstill.polled hstale] at hstart ⊢
      obtain ⟨hgoodbye, hlast⟩ := not_or.mp hstale
      split at hstart
      · -- the re-assert is due, of the packet that was the last one
        rename_i hlate
        rw [if_pos hlate]
        exact ⟨not_not.mp hlast, Bool.not_eq_true _ ▸ hgoodbye⟩
      · cases hstart
  | recording packed start =>
    simp only [Following.turn, htick] at hstart
    cases hstart
  | reasserting start =>
    simp only [Following.turn, htick] at hstart
    split at hstart <;> cases hstart
  | serving =>
    rw [turn_serving htick hstill.off hbust] at hstart
    cases hstart

/-- No action begins a re-assert of another packet or with a goodbye waiting. -/
theorem Primed.step (hprimed : s.Primed core) (hstill : s.Still core zoomOffset cam) {act : Act}
    (hcalm : Calm core act) : (s.step M act).Primed core := by
  rcases hstill.step_cases (M := M) hcalm with heq | ⟨data, -, heq⟩ | heq |
    ⟨answers, -, hturn, heq⟩ | ⟨v, -, heq⟩ <;> rw [heq]
  · exact fun start htick => ⟨(hprimed start htick).last, (hprimed start htick).greeted⟩
  · exact fun start htick => ⟨(hprimed start htick).last, (hprimed start htick).greeted⟩
  · exact hprimed
  · exact primed_turn hstill hturn.2.1
  · exact fun start htick => ⟨(hprimed start htick).last, (hprimed start htick).greeted⟩

/-- A turn of the main thread brings no goodbye. -/
private theorem turn_greeted (hstill : s.Still core zoomOffset cam)
    (hgreeted : s.hostGoodbye = false)
    {answers : TickAnswers} (hbust : answers.bust = false) :
    (s.turn M answers).hostGoodbye = false := by
  cases htick : s.tick with
  | resting =>
    simp only [Following.turn, htick]
    by_cases hstale : s.Stale core
    · -- a goodbye that waits is handled before the packet is applied
      obtain ⟨s₀, -, hgreeted₀, heq⟩ := beginTick_stale (M := M) hstill.polled hstale answers
      obtain ⟨_, _, _, happly, -⟩ := applyHot_eq_with M s₀ core false answers.binds
      rw [heq, happly]
      exact hgreeted₀
    · rw [beginTick_fresh hstill.polled hstale]
      split <;> exact hgreeted
  | recording packed start =>
    simp only [Following.turn, htick]
    exact hgreeted
  | reasserting start =>
    simp only [Following.turn, htick]
    split
    · rename_i packed _
      -- an application of a packet brings none
      obtain ⟨_, _, _, heq, -⟩ := applyHot_eq_with M s packed true answers.binds
      rw [heq]
      exact hgreeted
    · exact hgreeted
  | serving =>
    rw [turn_serving htick hstill.off hbust]
    exact hgreeted

/-- Nor does one bring a goodbye. -/
theorem Fresh.step (hfresh : s.Fresh core) (hstill : s.Still core zoomOffset cam) {act : Act}
    (hcalm : Calm core act) : (s.step M act).Fresh core := by
  refine ⟨?_, hfresh.primed.step hstill hcalm⟩
  rcases hstill.step_cases (M := M) hcalm with heq | ⟨data, -, heq⟩ | heq |
    ⟨answers, -, hturn, heq⟩ | ⟨v, -, heq⟩ <;> rw [heq]
  · exact hfresh.greeted
  · exact hfresh.greeted
  · exact hfresh.greeted
  · exact turn_greeted hstill hfresh.greeted hturn.2.1
  · exact hfresh.greeted

/-! ## Again and again -/

/-- How far it is to the next re-assert: what the main thread has to do before, and how long it has
    to wait. A re-assert of something else, and a packet to record, come first. -/
def rank (core : List UInt8) (s : Following) : Nat :=
  match s.tick with
  | .reasserting _ => if s.lastHot = some core then 0 else 1014
  | .recording packed start =>
    if s.hostGoodbye ∨ packed ≠ core then 1013 else start + reassertMs - s.clock + 4
  | .serving =>
    if s.Stale core then 1012 else if s.Late then 2 else s.lastHotApplied + reassertMs - s.clock + 3
  | .resting =>
    if s.Stale core then 1010 else if s.Late then 1 else s.lastHotApplied + reassertMs - s.clock + 3

/-- Only time brings it on. -/
def waits (core : List UInt8) (s : Following) : Bool :=
  (s.tick = .serving ∨ s.tick = .resting) ∧ ¬ s.Stale core ∧ ¬ s.Late

/-- What was applied is recorded: if it was the host's, only the re-assert is left. -/
private theorem rank_recording {packed : List UInt8} {start : Nat}
    (htick : s.tick = .recording packed start) (answers : TickAnswers) :
    (s.turn M answers).rank core < s.rank core := by
  simp only [Following.turn, htick]
  by_cases hother : s.hostGoodbye = true ∨ packed ≠ core
  · have hstale : Stale core
        { s with lastHot := some packed, lastHotApplied := start, tick := .serving } := by
      exact hother.imp id fun hne heq => hne (Option.some.inj heq)
    -- the next tick has the host's packet to apply
    have hbefore : s.rank core = 1013 := by simp only [rank, htick]; rw [if_pos hother]
    rw [hbefore]
    simp [rank, hstale]
  · have hbefore : s.rank core = start + reassertMs - s.clock + 4 := by
      simp only [rank, htick]
      rw [if_neg hother]
    have hstale : ¬ Stale core
        { s with lastHot := some packed, lastHotApplied := start, tick := .serving } := by
      rintro (hg | hne)
      · exact hother (.inl hg)
      · exact hother (.inr fun heq => hne (congrArg some heq))
    rw [hbefore]
    simp only [rank, hstale, if_false]
    split <;> omega

/-- After a re-assert of another packet the host's is recorded. -/
private theorem rank_reasserting {start : Nat} (htick : s.tick = .reasserting start)
    (hother : s.lastHot ≠ some core) (answers : TickAnswers) :
    (s.turn M answers).rank core < s.rank core := by
  have hbefore : s.rank core = 1014 := by simp [rank, htick, hother]
  rw [hbefore]
  cases hlast : s.lastHot with
  -- there is nothing to apply
  | none =>
    have hturn : s.turn M answers = { s with tick := .resting } := by
      unfold Following.turn
      rw [htick]
      dsimp only
      rw [hlast]
    have hstale : Stale core { s with tick := .resting } := .inr hother
    rw [hturn]
    simp [rank, hstale]
  -- that packet is applied, and the host's is a new one at the next tick
  | some packed =>
    obtain ⟨area, frame, last, happly, -⟩ := applyHot_eq_with M s packed true answers.binds
    have hturn : (s.turn M answers).tick = .serving ∧ (s.turn M answers).lastHot = s.lastHot := by
      unfold Following.turn
      rw [htick]
      dsimp only
      rw [hlast]
      dsimp only
      rw [happly]
      exact ⟨rfl, hlast⟩
    have hstale : (s.turn M answers).Stale core := .inr (hturn.2 ▸ hother)
    simp [rank, hturn.1, hstale]

/-- The main thread brings it on, unless it waits. -/
private theorem rank_turn (hstill : s.Still core zoomOffset cam) {answers : TickAnswers}
    (hbust : answers.bust = false) (hno : ¬ s.Reasserts core (.turn answers)) :
    (s.waits core = false → (s.turn M answers).rank core < s.rank core) ∧
      (s.waits core = true → (s.turn M answers).waits core = true ∧
        (s.turn M answers).rank core = s.rank core) := by
  cases htick : s.tick with
  | resting =>
    by_cases hstale : s.Stale core
    · -- the host's packet is applied now, and has to be recorded
      obtain ⟨s₀, hs₀, hgoodbye, heq⟩ := beginTick_stale (M := M) hstill.polled hstale answers
      obtain ⟨area, frame, last, happly, -⟩ := applyHot_eq_with M s₀ core false answers.binds
      have hturn : (s.turn M answers).rank core = reassertMs + 4 := by
        simp only [Following.turn, htick]
        rw [heq, happly]
        have hclock : s₀.clock = s.clock := by rcases hs₀ with rfl | ⟨-, rfl⟩ <;> rfl
        simp [rank, hgoodbye, hclock]
      refine ⟨fun _ => ?_, fun hwaits => ?_⟩
      · rw [hturn]
        simp [rank, htick, hstale, reassertMs]
      · simp [waits, hstale] at hwaits
    · -- nothing is new: the tick is for the re-assert, if it is due
      have hturn : s.turn M answers = if s.Late then { s with tick := .reasserting s.clock }
          else { s with tick := .serving } := by
        simp only [Following.turn, htick]
        exact beginTick_fresh hstill.polled hstale answers
      have hlast : s.lastHot = some core := not_not.mp (not_or.mp hstale).2
      rw [hturn]
      by_cases hlate : s.Late
      · rw [if_pos hlate]
        refine ⟨fun _ => ?_, fun hwaits => ?_⟩
        · simp [rank, htick, hstale, hlate, hlast]
        · simp [waits, hlate] at hwaits
      · rw [if_neg hlate]
        have hstale' : ¬ Stale core { s with tick := .serving } := hstale
        have hlate' : ¬ Late { s with tick := .serving } := hlate
        refine ⟨fun hwaits => ?_, fun _ => ⟨?_, ?_⟩⟩
        · simp [waits, htick, hstale, hlate] at hwaits
        · simp [waits, hstale', hlate']
        · simp [rank, htick, hstale, hlate, hstale', hlate']
  | recording packed start =>
    have hwaits : s.waits core = false := by simp [waits, htick]
    exact ⟨fun _ => rank_recording htick answers, fun hw => absurd hw (by rw [hwaits]; decide)⟩
  | reasserting start =>
    have hwaits : s.waits core = false := by simp [waits, htick]
    -- a re-assert of the host's packet is what is waited for
    have hother : s.lastHot ≠ some core := fun hlast => hno ⟨⟨_, rfl⟩, ⟨start, htick⟩, hlast⟩
    exact ⟨fun _ => rank_reasserting htick hother answers,
      fun hw => absurd hw (by rw [hwaits]; decide)⟩
  | serving =>
    rw [turn_serving htick hstill.off hbust]
    -- the tick ends, and the next one finds the host's packet new
    by_cases hstale : s.Stale core
    · have hstale' : Stale core { s with tick := .resting } := hstale
      refine ⟨fun _ => ?_, fun hwaits => ?_⟩
      · simp [rank, htick, hstale, hstale']
      · simp [waits, hstale] at hwaits
    · have hstale' : ¬ Stale core { s with tick := .resting } := hstale
      -- it ends, and the next one finds the re-assert due
      by_cases hlate : s.Late
      · have hlate' : Late { s with tick := .resting } := hlate
        refine ⟨fun _ => ?_, fun hwaits => ?_⟩
        · simp [rank, htick, hstale, hstale', hlate, hlate']
        · simp [waits, hlate] at hwaits
      · -- it ends, and there is only to wait
        have hlate' : ¬ Late { s with tick := .resting } := hlate
        refine ⟨fun hwaits => ?_, fun _ => ⟨?_, ?_⟩⟩
        · simp [waits, htick, hstale, hlate] at hwaits
        · simp [waits, hstale', hlate']
        · simp [rank, htick, hstale, hlate, hstale', hlate']

/-- A re-assert that is not due comes closer with time. -/
private theorem not_late_pass (hnot : ¬ s.Late) :
    s.lastHotApplied + reassertMs - (s.clock + 1) < s.lastHotApplied + reassertMs - s.clock := by
  unfold Late at hnot
  omega

/-- Time brings it on where only time does. -/
private theorem rank_later {s' : Following} (htick : s'.tick = s.tick)
    (hlast : s'.lastHot = s.lastHot)
    (hgoodbye : s'.hostGoodbye = s.hostGoodbye) (happlied : s'.lastHotApplied = s.lastHotApplied)
    (hclock : s'.clock = s.clock + 1) :
    (s'.waits core = s.waits core ∧ s'.rank core = s.rank core ∨ s'.rank core < s.rank core) ∧
      (s.waits core = true → s'.rank core < s.rank core) := by
  -- what is stale does not depend on the time, and what is late stays late
  have hstale : s'.Stale core ↔ s.Stale core := by simp only [Stale, hlast, hgoodbye]
  have hlater : s.Late → s'.Late := fun h => by
    unfold Late at h ⊢
    omega
  cases ht : s.tick with
  | reasserting start =>
    rw [ht] at htick
    exact ⟨.inl ⟨by simp [waits, ht, htick], by simp [rank, ht, htick, hlast]⟩, by simp [waits, ht]⟩
  | recording packed start =>
    rw [ht] at htick
    refine ⟨?_, by simp [waits, ht]⟩
    simp only [waits, rank, ht, htick, hgoodbye, hclock]
    -- another packet to be recorded, or a goodbye, is not brought on by time
    by_cases hother : s.hostGoodbye = true ∨ packed ≠ core
    · rw [if_pos hother, if_pos hother]
      exact .inl ⟨by simp, rfl⟩
    · rw [if_neg hother, if_neg hother]
      -- the record is old enough already, or time makes it so
      by_cases hnow : start + reassertMs ≤ s.clock
      · exact .inl ⟨by simp, by omega⟩
      · exact .inr (by omega)
  | serving | resting =>
    rw [ht] at htick
    by_cases hs : s.Stale core
    · have hs' := hstale.mpr hs
      exact ⟨.inl ⟨by simp [waits, hs, hs'], by simp [rank, ht, htick, hs, hs']⟩,
        by simp [waits, hs]⟩
    · have hs' := mt hstale.mp hs
      -- the re-assert is due already
      by_cases hlate : s.Late
      · have hlate' := hlater hlate
        exact ⟨.inl ⟨by simp [waits, hlate, hlate'],
          by simp [rank, ht, htick, hs, hs', hlate, hlate']⟩, by simp [waits, hlate]⟩
      · -- the re-assert comes nearer
        have hfalls : s'.rank core < s.rank core := by
          have hless := not_late_pass hlate
          simp only [rank, ht, htick, hs, hs', hlate, if_false, happlied, hclock]
          split <;> omega
        exact ⟨.inr hfalls, fun _ => hfalls⟩

/-- How far it is depends on the tick, the last packet, the goodbye and the clock. -/
private theorem rank_of_same {s' : Following} (htick : s'.tick = s.tick)
    (hlast : s'.lastHot = s.lastHot)
    (hgoodbye : s'.hostGoodbye = s.hostGoodbye) (happlied : s'.lastHotApplied = s.lastHotApplied)
    (hclock : s'.clock = s.clock) :
    s'.waits core = s.waits core ∧ s'.rank core = s.rank core := by
  have hstale : s'.Stale core ↔ s.Stale core := by simp only [Stale, hlast, hgoodbye]
  have hlate : s'.Late ↔ s.Late := by simp only [Late, happlied, hclock]
  simp only [waits, rank, htick, hstale, hlate, hlast, hgoodbye, happlied, hclock]
  exact ⟨trivial, trivial⟩

/-- Nothing takes it further away, but that it happens. -/
private theorem rank_step (hstill : s.Still core zoomOffset cam) {act : Act} (hcalm : Calm core act)
    (hno : ¬ s.Reasserts core act) :
    (s.step M act).waits core = s.waits core ∧ (s.step M act).rank core = s.rank core ∨
      (s.step M act).rank core < s.rank core := by
  rcases hstill.step_cases (M := M) hcalm with heq | ⟨data, -, heq⟩ | heq |
    ⟨answers, rfl, hturn, heq⟩ | ⟨v, -, heq⟩ <;> rw [heq]
  · have htick : Following.tick { s with clock := s.clock + 1 } = s.tick := rfl
    exact (rank_later htick rfl rfl rfl rfl).1
  · exact .inl (rank_of_same rfl rfl rfl rfl rfl)
  · exact .inl ⟨rfl, rfl⟩
  · obtain ⟨hfalls, hsame⟩ := rank_turn (M := M) hstill hturn.2.1 hno
    cases hwaits : s.waits core with
    | false => exact .inr (hfalls hwaits)
    | true => exact .inl (hsame hwaits)
  · exact .inl (rank_of_same rfl rfl rfl rfl rfl)

/-! ## What happens to the view -/

/-- The view is left, drawn, or follows the packet, and so does the frame. -/
structure Follows (M : ViewMath) (h : HotState) (zoomOffset : Binary64) (cam : Option SceneCamera)
    (s s' : Following) : Prop where
  view : ∀ v, s.area = .showing v → ∃ v', s'.area = .showing v' ∧
    (v' = v ∨ v' = v.redraw cam ∨ ∃ reassert, v' = v.applied M h zoomOffset cam reassert)
  frame : s'.frameCurrent = h.frame ∨
    s'.frameCurrent = s.frameCurrent ∧ s'.lastFrameApply = s.lastFrameApply
  clock : s.clock ≤ s'.clock

/-- An action that touches neither the view nor the frame. -/
theorem Follows.of_same {s' : Following} (harea : s'.area = s.area)
    (hframe : s'.frameCurrent = s.frameCurrent) (hlast : s'.lastFrameApply = s.lastFrameApply)
    (hclock : s.clock ≤ s'.clock) : Follows M h zoomOffset cam s s' :=
  ⟨fun v hv => ⟨v, harea.trans hv, .inl rfl⟩, .inr ⟨hframe, hlast⟩, hclock⟩

/-- The packet is applied. -/
private theorem Still.follows_applyHot (hstill : s.Still core zoomOffset cam)
    (hstate : unpackHot core = some h) (reassert : Bool) :
    Follows M h zoomOffset cam s (s.applyHot M core reassert true) := by
  obtain ⟨v, hv⟩ := hstill.showing
  obtain ⟨harea, hframe⟩ := applyHot_view (M := M) hstate hstill.off.1 hv reassert
  obtain ⟨area, frame, last, heq, -⟩ := applyHot_eq_with M s core reassert true
  refine ⟨fun w hw => ⟨_, harea, ?_⟩, hframe.imp id And.right, by rw [heq]⟩
  obtain rfl : v = w := by
    rw [hv] at hw
    exact ViewArea.showing.inj hw
  rw [hstill.zoomOffset, hstill.camera]
  exact .inr (.inr ⟨reassert, rfl⟩)

/-- A turn of the main thread applies the host's packet or nothing. -/
private theorem Still.follows_turn (hstill : s.Still core zoomOffset cam) (hfresh : s.Fresh core)
    (hstate : unpackHot core = some h) {answers : TickAnswers} (hbinds : answers.binds = true)
    (hbust : answers.bust = false) : Follows M h zoomOffset cam s (s.turn M answers) := by
  cases htick : s.tick with
  | resting =>
    simp only [Following.turn, htick]
    by_cases hstale : s.Stale core
    · obtain ⟨s₀, hs₀, -, heq⟩ := beginTick_stale (M := M) hstill.polled hstale answers
      rw [heq, hbinds]
      -- no goodbye waits, that could bring another viewport
      obtain rfl := hs₀.resolve_right fun hgoodbye => by
        rw [hfresh.greeted] at hgoodbye
        cases hgoodbye.1
      have hfollows := hstill.follows_applyHot (M := M) hstate false
      exact ⟨hfollows.view, hfollows.frame, hfollows.clock⟩
    · rw [beginTick_fresh hstill.polled hstale]
      split <;> exact .of_same rfl rfl rfl (Nat.le_refl _)
  | recording packed start =>
    simp only [Following.turn, htick]
    exact .of_same rfl rfl rfl (Nat.le_refl _)
  | reasserting start =>
    have hlast := (hfresh.primed start htick).last
    have hfollows := hstill.follows_applyHot (M := M) hstate true
    unfold Following.turn
    rw [htick]
    dsimp only
    rw [hlast, hbinds]
    exact ⟨hfollows.view, hfollows.frame, hfollows.clock⟩
  | serving =>
    rw [turn_serving htick hstill.off hbust]
    exact .of_same rfl rfl rfl (Nat.le_refl _)

/-- Every action leaves the view, draws it, or applies the host's packet to it. -/
theorem Still.follows (hstill : s.Still core zoomOffset cam) (hfresh : s.Fresh core)
    (hstate : unpackHot core = some h) {act : Act} (hcalm : Calm core act) :
    Follows M h zoomOffset cam s (s.step M act) := by
  rcases hstill.step_cases (M := M) hcalm with heq | ⟨data, -, heq⟩ | heq |
    ⟨answers, -, hturn, heq⟩ | ⟨v, hv, heq⟩ <;> rw [heq]
  · exact .of_same rfl rfl rfl (Nat.le_succ _)
  · exact .of_same rfl rfl rfl (Nat.le_refl _)
  · exact .of_same rfl rfl rfl (Nat.le_refl _)
  · exact hstill.follows_turn hfresh hstate hturn.1 hturn.2.1
  · refine ⟨fun w hw => ⟨_, rfl, ?_⟩, .inr ⟨rfl, rfl⟩, Nat.le_refl _⟩
    rw [hv] at hw
    obtain rfl := ViewArea.showing.inj hw
    exact .inr (.inl rfl)

/-- The packet is applied again. -/
private theorem Reasserts.applies {act : Act} (hre : s.Reasserts core act)
    (hstill : s.Still core zoomOffset cam) (hstate : unpackHot core = some h)
    (hcalm : Calm core act) {v : RegionView} (hv : s.area = .showing v) :
    (s.step M act).area = .showing (v.applied M h zoomOffset cam true) ∧
      ((s.step M act).frameCurrent = h.frame ∨ s.clock < s.lastFrameApply + frameMinIntervalMs ∧
        (s.step M act).frameCurrent = s.frameCurrent) := by
  obtain ⟨⟨answers, rfl⟩, ⟨start, htick⟩, hlast⟩ := hre
  obtain ⟨harea, hframe⟩ := applyHot_view (M := M) hstate hstill.off.1 hv true
  rw [hstill.zoomOffset, hstill.camera] at harea
  have hbinds : answers.binds = true := hcalm.1
  show (s.turn M answers).area = _ ∧ ((s.turn M answers).frameCurrent = _ ∨ _ ∧
    (s.turn M answers).frameCurrent = _)
  unfold Following.turn
  rw [htick]
  dsimp only
  rw [hlast, hbinds]
  exact ⟨harea, hframe.imp id fun hno => ⟨hno.1, hno.2.1⟩⟩

/-- A redraw draws the view that is shown. -/
private theorem redraw_applies (hstill : s.Still core zoomOffset cam) {v : RegionView}
    (hv : s.area = .showing v) : (s.step M .redraw).area = .showing (v.redraw cam) := by
  simp only [Following.step, hv, hstill.camera]

/-! ## Schedules -/

section Schedule

variable {acts : Nat → Act} (hstill : s.Still core zoomOffset cam)
  (hcalm : ∀ k, Calm core (acts k)) (hfair : ∀ kind k, ∃ m, k ≤ m ∧ Kind.Of kind (acts m))

include hstill hcalm

/-- Along the schedule the host looks at one thing. -/
private theorem scheduled_still (k : Nat) :
    (scheduled (step M) s acts k).Still core zoomOffset cam :=
  scheduled_invariant (P := Calm core) (fun _ _ h hact => h.step hact) hstill hcalm k

include hfair

/-- The host's packet is applied again and again. -/
theorem reasserts_again (k : Nat) :
    ∃ m, k ≤ m ∧ (scheduled (step M) s acts m).Reasserts core (acts m) := by
  -- as long as it does not happen, it comes nearer
  apply exists_of_nearer (v := fun m => ((scheduled (step M) s acts m).waits core,
    (scheduled (step M) s acts m).rank core)) (f := Prod.snd)
  · intro m _ hno
    have := rank_step (M := M) (scheduled_still hstill hcalm m) (hcalm m) hno
    exact this.imp (fun hsame => Prod.ext hsame.1 hsame.2) id
  · intro m _
    cases hwaits : (scheduled (step M) s acts m).waits core with
    | true =>
      obtain ⟨i, hi, hof⟩ := hfair .pass m
      refine ⟨i, hi, fun heq => .inr ?_⟩
      show rank core ((scheduled (step M) s acts i).step M (acts i)) < _
      rw [hof.eq_pass]
      have htick : ((scheduled (step M) s acts i).step M .pass).tick =
        (scheduled (step M) s acts i).tick := rfl
      exact (rank_later htick rfl rfl rfl rfl).2 (congrArg Prod.fst heq)
    | false =>
      obtain ⟨i, hi, hof⟩ := hfair .turn m
      refine ⟨i, hi, fun heq => ?_⟩
      by_cases hre : (scheduled (step M) s acts i).Reasserts core (acts i)
      · exact .inl hre
      · refine .inr ?_
        show rank core ((scheduled (step M) s acts i).step M (acts i)) < _
        obtain ⟨answers, hact⟩ := hof.eq_turn
        have hcalm' : Calm core (.turn answers) := hact ▸ hcalm i
        rw [hact] at hre ⊢
        exact (rank_turn (scheduled_still hstill hcalm i) hcalm'.2.1 hre).1 (congrArg Prod.fst heq)

/-- After a turn, a re-assert is of the host's packet. -/
private theorem exists_primed :
    ∃ n, ∀ m, n ≤ m → (scheduled (step M) s acts m).Primed core := by
  obtain ⟨m, -, hof⟩ := hfair .turn 0
  refine ⟨m + 1, fun k hk => ?_⟩
  induction k, hk using Nat.le_induction with
  | base =>
    obtain ⟨answers, hact⟩ := hof.eq_turn
    have hcalm' : Calm core (.turn answers) := hact ▸ hcalm m
    show ((scheduled (step M) s acts m).step M (acts m)).Primed core
    rw [hact]
    exact primed_turn (scheduled_still hstill hcalm m) hcalm'.2.1
  | succ k _ ih => exact ih.step (scheduled_still hstill hcalm k) (hcalm k)

/-- From some moment on every goodbye is handled, and what is applied again is the host's
    packet. -/
private theorem exists_fresh :
    ∃ n, ∀ m, n ≤ m → (scheduled (step M) s acts m).Fresh core := by
  obtain ⟨n, hprimed⟩ := exists_primed (M := M) hstill hcalm hfair
  -- a re-assert comes, and it began after every goodbye
  obtain ⟨m, hm, hre⟩ := reasserts_again (M := M) hstill hcalm hfair n
  obtain ⟨start, htick⟩ := hre.2.1
  refine ⟨m, fun k hk => ?_⟩
  induction k, hk using Nat.le_induction with
  | base => exact ⟨(hprimed m hm start htick).greeted, hprimed m hm⟩
  | succ k _ ih => exact ih.step (scheduled_still hstill hcalm k) (hcalm k)

variable (hstate : unpackHot core = some h) (hkeeps : M.Keeps h zoomOffset cam)
  (hcam : h.camera = true → cam.isSome) {n : Nat}
  (hfresh : ∀ m, n ≤ m → (scheduled (step M) s acts m).Fresh core)

include hstate hfresh

omit hfair in
/-- From the moment that every goodbye is handled, each step leaves the view, draws it or applies
    the packet. -/
private theorem scheduled_follows {m : Nat} (hm : n ≤ m) : Follows M h zoomOffset cam
    (scheduled (step M) s acts m) (scheduled (step M) s acts (m + 1)) :=
  (scheduled_still hstill hcalm m).follows (hfresh m hm) hstate (hcalm m)

/-- A view of a kind is shown. -/
def InView (R : RegionView → Prop) (s : Following) : Prop := ∃ v, s.area = .showing v ∧ R v

omit hfair in
/-- A kind of view that redraws and applications stay in is not left. -/
private theorem inView_succ {R : RegionView → Prop}
    (hR : ∀ v, R v → R (v.redraw cam) ∧ ∀ re, R (v.applied M h zoomOffset cam re)) {m : Nat}
    (hm : n ≤ m) (hview : (scheduled (step M) s acts m).InView R) :
    (scheduled (step M) s acts (m + 1)).InView R := by
  obtain ⟨v, hv, hRv⟩ := hview
  obtain ⟨v', hv', heq⟩ := (scheduled_follows hstill hcalm hstate hfresh hm).view v hv
  refine ⟨v', hv', ?_⟩
  rcases heq with rfl | rfl | ⟨re, rfl⟩
  · exact hRv
  · exact (hR v hRv).1
  · exact (hR v hRv).2 re

/-- Where every view of a kind turns into one of another with a re-assert, such a view comes: the
    kind is not left before, and re-asserts go on. -/
private theorem exists_inView_reassert {P Q : RegionView → Prop}
    (hP : ∀ v, P v → P (v.redraw cam) ∧ ∀ re, P (v.applied M h zoomOffset cam re))
    (hQ : ∀ v, P v → Q (v.applied M h zoomOffset cam true)) {k : Nat} (hk : n ≤ k)
    (hview : (scheduled (step M) s acts k).InView P) :
    ∃ m, n ≤ m ∧ (scheduled (step M) s acts m).InView Q := by
  obtain ⟨m, hm, hQm⟩ := exists_stage
    (P := fun m => (scheduled (step M) s acts m).InView P)
    (Q := fun m => (scheduled (step M) s acts m).InView Q)
    (reasserts_again (M := M) hstill hcalm hfair)
    (fun m hm => inView_succ hstill hcalm hstate hfresh hP (Nat.le_trans hk hm))
    (fun m _ hview hre => by
      obtain ⟨v, hv, hPv⟩ := hview
      exact ⟨_, (hre.applies (scheduled_still hstill hcalm m) hstate (hcalm m) hv).1, hQ v hPv⟩)
    hview
  exact ⟨m, Nat.le_trans hk hm, hQm⟩

/-- The same with a redraw: redraws go on too. -/
private theorem exists_inView_redraw {P Q : RegionView → Prop}
    (hP : ∀ v, P v → P (v.redraw cam) ∧ ∀ re, P (v.applied M h zoomOffset cam re))
    (hQ : ∀ v, P v → Q (v.redraw cam)) {k : Nat} (hk : n ≤ k)
    (hview : (scheduled (step M) s acts k).InView P) :
    ∃ m, n ≤ m ∧ (scheduled (step M) s acts m).InView Q := by
  obtain ⟨m, hm, hQm⟩ := exists_stage
    (P := fun m => (scheduled (step M) s acts m).InView P)
    (Q := fun m => (scheduled (step M) s acts m).InView Q) (hfair .redraw)
    (fun m hm => inView_succ hstill hcalm hstate hfresh hP (Nat.le_trans hk hm))
    (fun m _ hview hof => by
      obtain ⟨v, hv, hPv⟩ := hview
      refine ⟨v.redraw cam, ?_, hQ v hPv⟩
      show ((scheduled (step M) s acts m).step M (acts m)).area = _
      rw [hof.eq_redraw]
      exact redraw_applies (scheduled_still hstill hcalm m) hv)
    hview
  exact ⟨m, Nat.le_trans hk hm, hQm⟩

include hkeeps hcam

/-- The view comes to rest. -/
private theorem exists_rests :
    ∃ m, n ≤ m ∧ (scheduled (step M) s acts m).InView (·.Rests M h zoomOffset cam) := by
  obtain ⟨v, hv⟩ := (scheduled_still (M := M) hstill hcalm n).showing
  have hposed := fun (v : RegionView) re =>
    RegionView.applied_posed (M := M) hcam hkeeps re v
  -- a re-assert sets everything but what may be hidden by an old drawing
  obtain ⟨a, ha, hposedView⟩ := exists_inView_reassert hstill hcalm hfair hstate hfresh
    (P := fun _ => True) (Q := (·.Posed M h zoomOffset)) (fun _ _ => ⟨trivial, fun _ => trivial⟩)
    (fun v _ => hposed v true) (Nat.le_refl n) ⟨v, hv, trivial⟩
  -- a redraw shows it
  obtain ⟨b, hb, hsettling⟩ := exists_inView_redraw hstill hcalm hfair hstate hfresh
    (Q := (·.Settling M h zoomOffset cam))
    (fun v hv => ⟨hv.redraw cam, hposed v⟩) (fun _ hv => hv.settling_redraw) ha hposedView
  -- so the next re-assert sees that it is wrong
  obtain ⟨c, hc, haimed⟩ := exists_inView_reassert hstill hcalm hfair hstate hfresh
    (Q := (·.Aimed M h zoomOffset cam))
    (fun v hv => ⟨hv.1.settling_redraw, hv.applied hcam hkeeps⟩)
    (fun _ hv => hv.aimed_applied hcam hkeeps) hb hsettling
  exact exists_inView_redraw hstill hcalm hfair hstate hfresh
    (fun v hv => ⟨hv.rests_redraw.1, hv.applied hcam hkeeps⟩) (fun _ hv => hv.rests_redraw) hc
    haimed

omit hfair hkeeps in
/-- A view at rest is left as it is. -/
private theorem rests_stays {v : RegionView} (hrests : v.Rests M h zoomOffset cam) {m : Nat}
    (hm : n ≤ m)
    (hv : (scheduled (step M) s acts m).area = .showing v) :
    ∀ k, m ≤ k → (scheduled (step M) s acts k).area = .showing v := by
  intro k hk
  induction k, hk using Nat.le_induction with
  | base => exact hv
  | succ k hk ih =>
    obtain ⟨v', hv', heq⟩ :=
      (scheduled_follows hstill hcalm hstate hfresh (Nat.le_trans hm hk)).view v ih
    rw [hv']
    rcases heq with rfl | rfl | ⟨re, rfl⟩
    · rfl
    · rw [hrests.redraw_eq]
    · rw [RegionView.applied_eq hcam hrests.shows]

omit hkeeps hcam

/-- The frame may be set again. -/
private theorem exists_frame_due :
    ∃ m, n ≤ m ∧ ((scheduled (step M) s acts m).frameCurrent = h.frame ∨
    (scheduled (step M) s acts m).lastFrameApply + frameMinIntervalMs
      ≤ (scheduled (step M) s acts m).clock) := by
  -- the milliseconds to wait, unless a packet sets the frame before
  let due : Nat → Nat := fun j =>
    if (scheduled (step M) s acts (n + j)).frameCurrent = h.frame then 0
    else (scheduled (step M) s acts (n + j)).lastFrameApply + frameMinIntervalMs
      - (scheduled (step M) s acts (n + j)).clock
  have hstep : ∀ j, due (j + 1) = due j ∨ due (j + 1) < due j := by
    intro j
    obtain ⟨-, hframe, hclock⟩ :=
      scheduled_follows hstill hcalm hstate hfresh (m := n + j) (Nat.le_add_right n j)
    simp only [due, ← Nat.add_assoc]
    rcases hframe with hset | ⟨hsame, hlast⟩
    · rw [if_pos hset]
      omega
    · rw [hsame, hlast]
      split <;> omega
  -- only time brings it on
  have hmoves : ∀ j, ¬ due j = 0 →
      ∃ m, j ≤ m ∧ (due m = due j → due (m + 1) < due j) := by
    intro j hnot
    obtain ⟨m, hm, hof⟩ := hfair .pass (n + j)
    obtain ⟨i, rfl⟩ := Nat.exists_eq_add_of_le (Nat.le_trans (Nat.le_add_right n j) hm)
    refine ⟨i, by omega, fun heq => ?_⟩
    have hnext : scheduled (step M) s acts (n + i + 1)
        = (scheduled (step M) s acts (n + i)).step M .pass := by rw [← hof.eq_pass]; rfl
    rw [← heq] at hnot ⊢
    simp only [due, ← Nat.add_assoc, hnext, Following.step] at hnot ⊢
    split at hnot
    · exact absurd rfl hnot
    · rename_i hne
      rw [if_neg hne, if_neg hne]
      omega
  obtain ⟨j, -, hzero⟩ := exists_done (D := fun x => x = 0) (f := id) hstep hmoves 0
  refine ⟨n + j, Nat.le_add_right n j, ?_⟩
  simp only [due] at hzero
  split at hzero
  · rename_i hframe
    exact .inl hframe
  · exact .inr (by omega)

/-- The frame is the host's in the end. -/
private theorem exists_frame :
    ∃ m, ∀ k, m ≤ k → (scheduled (step M) s acts k).frameCurrent = h.frame := by
  obtain ⟨a, ha, hdue⟩ := exists_frame_due hstill hcalm hfair hstate hfresh
  obtain ⟨b, hb, hframe⟩ := exists_stage
    (P := fun m => (scheduled (step M) s acts m).frameCurrent = h.frame ∨
      (scheduled (step M) s acts m).lastFrameApply + frameMinIntervalMs
        ≤ (scheduled (step M) s acts m).clock)
    (Q := fun m => (scheduled (step M) s acts m).frameCurrent = h.frame)
    (reasserts_again (M := M) hstill hcalm hfair)
    (fun m hm hP => by
      obtain ⟨-, hframe, hclock⟩ :=
        scheduled_follows hstill hcalm hstate hfresh (Nat.le_trans ha hm)
      rcases hframe with hset | ⟨hsame, hlast⟩
      · exact .inl hset
      · rw [hsame, hlast]
        exact hP.imp id fun hle => Nat.le_trans hle hclock)
    (fun m hm hP hre => by
      obtain ⟨v, hv⟩ := (scheduled_still (M := M) hstill hcalm m).showing
      have happlies := hre.applies (M := M) (scheduled_still hstill hcalm m) hstate (hcalm m) hv
      rcases happlies.2 with hset | ⟨hearly, hsame⟩
      · exact hset
      · exact hsame.trans (hP.resolve_right (Nat.not_le.mpr hearly)))
    hdue
  -- packets set the frame to what it is already
  refine ⟨b, fun k hk => ?_⟩
  induction k, hk using Nat.le_induction with
  | base => exact hframe
  | succ k hk ih =>
    obtain ⟨-, hset | ⟨hsame, -⟩, -⟩ := scheduled_follows hstill hcalm hstate hfresh
      (Nat.le_trans (Nat.le_trans ha hb) hk)
    · exact hset
    · exact hsame.trans ih

end Schedule

/-- While the host looks at one thing and its packets go on coming, the replica's viewport comes to
    show it, whatever it showed before, and is not written to any more. -/
theorem comes_to_rest (M : ViewMath) (host : HotState) (hfits : host.Fits) (s : Following)
    (hstill : s.Still host.core zoomOffset cam) (hkeeps : M.Keeps host zoomOffset cam)
    (hcam : host.camera = true → cam.isSome) (acts : Nat → Act)
    (hcalm : ∀ k, Calm host.core (acts k))
    (hfair : ∀ kind k, ∃ m, k ≤ m ∧ Kind.Of kind (acts m)) :
    ∃ n v, v.Shows M host zoomOffset cam ∧ ∀ m, n ≤ m →
      (scheduled (step M) s acts m).area = .showing v ∧
      (scheduled (step M) s acts m).frameCurrent = host.frame := by
  -- what the replica reads is the host's view without its stamp
  let h : HotState := { host with tHost := .zero, probeSeq := 0 }
  have hstate : unpackHot host.core = some h := by
    have := HotState.unpackMagic_core hfits [] .zero 0
    rw [List.append_nil] at this
    unfold unpackHot
    rw [if_neg (by rw [HotState.length_core hfits]; decide),
      if_neg (by rw [HotState.length_core hfits]; decide), this]
  have hkeeps' : M.Keeps h zoomOffset cam := ⟨hkeeps.zoom, hkeeps.offset, hkeeps.matrix,
    hkeeps.lens, hkeeps.clipStart, hkeeps.clipEnd, hkeeps.expect⟩
  -- from some moment on only the host's packet is applied
  obtain ⟨n, hfresh⟩ := exists_fresh (M := M) hstill hcalm hfair
  -- then the view comes to rest
  obtain ⟨a, ha, v, hv, hrests⟩ := exists_rests hstill hcalm hfair hstate hkeeps' hcam hfresh
  -- and the frame to be the host's
  obtain ⟨b, hframe⟩ := exists_frame hstill hcalm hfair hstate hfresh
  have hstays := rests_stays hstill hcalm hstate hcam hfresh hrests ha hv
  -- the view does not depend on the stamp
  obtain ⟨hposed, hright⟩ := hrests.shows
  refine ⟨max a b, v, ⟨⟨hposed.perspective, hposed.zoom, hposed.offset, hposed.lens,
    hposed.clipStart, hposed.clipEnd⟩, hright⟩, fun m hm => ⟨hstays m ?_, hframe m ?_⟩⟩
  · exact Nat.le_trans (Nat.le_max_left a b) hm
  · exact Nat.le_trans (Nat.le_max_right a b) hm

/-- Numbers that are equal or far apart, and a Blender that keeps every number. -/
def plainMath : ViewMath where
  apart a b := a ≠ b
  wideApart a b := a ≠ b
  close a b := a = b
  plus a _ := a
  clampZoom := id
  belowOne a := a ≠ alphaOne
  rna := id
  rnaMatrix := id

/-- A host that looks through its camera. -/
def throughCamera : HotState where
  frame := 24
  viewMatrix := .replicate 16 .zero
  lens := .zero
  clipStart := .zero
  clipEnd := .zero
  camera := true

def lookedThrough : SceneCamera := ⟨.replicate 16 .zero, (false, .zero)⟩

/-- A replica that shows something else. -/
def elsewhere : Following where
  polled := some throughCamera.core
  camera := some lookedThrough
  area := .showing {
    perspective := .ortho, bound := false, matrix := .replicate 16 alphaOne
    drawn := .replicate 16 alphaOne, cameraZoom := alphaOne, cameraOffset := (alphaOne, alphaOne)
    lens := alphaOne, clipStart := alphaOne, clipEnd := alphaOne }

/-- Time passes, the main thread goes on, and the viewport is drawn. -/
def inTurn (k : Nat) : Act :=
  if k % 3 = 0 then .pass
  else if k % 3 = 1 then .turn ⟨true, false, (0, 0), none, none⟩
  else .redraw

/-- What that host packs fits its fields: its floats are zeroes, and its frame is small. -/
private theorem throughCamera_fits : throughCamera.Fits where
  floats x hx := by
    rw [HotState.toList_floats] at hx
    exact is32_of_isZero ((by decide : ∀ x ∈ [throughCamera.lens, throughCamera.clipStart,
      throughCamera.clipEnd] ++ throughCamera.viewMatrix.toList ++ [throughCamera.camZoom,
      throughCamera.camOffset.1, throughCamera.camOffset.2], x.IsZero) x hx)
  clock := by decide
  frame := by decide
  stamp h := absurd rfl h

/-- A replica that shows something else comes to look through the host's camera, at the host's
    frame. -/
theorem comes_to_rest_elsewhere :
    ∃ n v, v.Shows plainMath throughCamera .zero (some lookedThrough) ∧ ∀ m, n ≤ m →
      (scheduled (step plainMath) elsewhere inTurn m).area = .showing v ∧
      (scheduled (step plainMath) elsewhere inTurn m).frameCurrent = 24 := by
  refine comes_to_rest plainMath throughCamera throughCamera_fits elsewhere ?_ ?_ (fun _ => rfl)
    inTurn ?_ ?_
  · -- the replica looks at the host's packet and at nothing else
    refine ⟨?_, rfl, rfl, ⟨rfl, rfl⟩, rfl, ⟨_, rfl⟩⟩
    have := HotState.hotCore_core throughCamera_fits []
    rw [List.append_nil] at this
    exact congrArg some this
  · -- Blender keeps every number here
    refine ⟨by decide, by decide, by decide, by decide, by decide, by decide, ?_⟩
    intro c hc
    obtain rfl := Option.some.inj hc
    decide
  · -- none of the three actions comes from outside
    intro k
    simp only [inTurn]
    split
    · trivial
    · split
      · exact ⟨rfl, rfl, fun _ h => (by cases h)⟩
      · trivial
  · -- each comes again every third time
    intro kind k
    cases kind with
    | pass => exact ⟨3 * k, by omega, by simp [inTurn, Kind.Of]⟩
    | turn =>
      exact ⟨3 * k + 1, by omega, by simp [inTurn, Kind.Of]⟩
    | redraw => exact ⟨3 * k + 2, by omega, by simp [inTurn, Kind.Of]⟩

end Following

end QCBridge
