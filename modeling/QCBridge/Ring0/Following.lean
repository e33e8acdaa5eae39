import QCBridge.Ring1.HotPacket

/-!
# The view that follows

`ring0/replica_apply.py`: `_apply_hot` and `_service_shot`, and what `_tick_inner` does about them.
The tick applies the host's packet to the largest viewport when it is another than the last one,
and the last one again after a second. In shot mode the viewport keeps the camera's frame instead.
Control messages come on the IO thread, which sets flags and drops `_last_hot`.

An action is what a thread does in one go. The two threads are interleaved where a flag or
`_last_hot` is written by one and read by the other across such an action: `_apply_hot` and the
assignments after it are two, and `_service_shot` is one, in which the IO thread writes nothing. The
clock counts milliseconds. A write to the view is counted even where it changes nothing, for the
render starts over with it. A goodbye may bring another screen. Left out are the probe's stamps,
which the overlay draws, the shading, the regions of the screen, the attribution of local edits, and
what a tick does between the two functions, but that it may drop `_last_hot`.
-/

namespace QCBridge

/-- `view_perspective`. -/
inductive Perspective where
  | persp | ortho | camera
deriving DecidableEq, Repr

/-- Row by row. -/
abbrev ViewMatrix := Vector Binary64 16

/-- `1.0`. -/
def alphaOne : Binary64 := .ofBits (1023 * 2 ^ 52)

/-- What is computed in floating point, and what Blender makes of a number that is written to a
    property of the view. -/
structure ViewMath where
  /-- `abs(a - b) > 1e-6`. -/
  apart : Binary64 → Binary64 → Bool
  /-- `abs(a - b) > 1e-4`. -/
  wideApart : Binary64 → Binary64 → Bool
  /-- `abs(a - b) <= 1e-3`. -/
  close : Binary64 → Binary64 → Bool
  /-- `a + b`. -/
  plus : Binary64 → Binary64 → Binary64
  /-- `max(-30.0, min(600.0, a))`. -/
  clampZoom : Binary64 → Binary64
  /-- `a < 1.0`. -/
  belowOne : Binary64 → Bool
  /-- What a number is read back as. -/
  rna : Binary64 → Binary64
  /-- What the view is after its matrix was written. -/
  rnaMatrix : ViewMatrix → ViewMatrix

namespace ViewMath

variable (M : ViewMath)

def matrixApart (a b : ViewMatrix) : Bool := (List.finRange 16).any fun i => M.apart a[i] b[i]

/-- The comparison of `_camera_view_bound`. -/
def matrixClose (a b : ViewMatrix) : Bool := (List.finRange 16).all fun i => M.close a[i] b[i]

end ViewMath

/-- The scene's camera. -/
structure SceneCamera where
  /-- `matrix_world.normalized().inverted()`. -/
  expect : ViewMatrix
  /-- `show_passepartout` and `passepartout_alpha`. -/
  passepartout : Bool × Binary64
deriving DecidableEq

/-- A viewport: its region's view, and the lens and the clipping of its space. -/
structure RegionView where
  perspective : Perspective
  /-- In camera view, whether Blender looks through the scene's camera. -/
  bound : Bool
  /-- The view, where it is not the camera's. -/
  matrix : ViewMatrix
  /-- What `view_matrix` reads: the view, as it was drawn last. -/
  drawn : ViewMatrix
  cameraZoom : Binary64
  cameraOffset : Binary64 × Binary64
  lens : Binary64
  clipStart : Binary64
  clipEnd : Binary64
  /-- How often it was written to. -/
  writes : Nat := 0
deriving DecidableEq

/-- `_target_view`, and the `region_3d` of its space. -/
inductive ViewArea where
  | missing
  /-- `region_3d` is `None`. -/
  | rebuilding
  | showing (v : RegionView)
deriving DecidableEq

namespace RegionView

variable (M : ViewMath) (v : RegionView)

/-- What the next redraw shows. -/
def source (cam : Option SceneCamera) : ViewMatrix :=
  match cam with
  | some cam => if v.perspective = .camera ∧ v.bound then cam.expect else v.matrix
  | none => v.matrix

def redraw (cam : Option SceneCamera) : RegionView := { v with drawn := v.source cam }

/-- `view_perspective = p`. Camera view may find no camera to look through. -/
def setPerspective (p : Perspective) (binds : Bool) : RegionView :=
  { v with perspective := p, bound := p = .camera ∧ binds, writes := v.writes + 1 }

def setCameraZoom (zoom : Binary64) : RegionView :=
  { v with cameraZoom := M.rna zoom, writes := v.writes + 1 }

def setCameraOffset (offset : Binary64 × Binary64) : RegionView :=
  { v with cameraOffset := (M.rna offset.1, M.rna offset.2), writes := v.writes + 2 }

/-- Camera view, with a camera to look through. -/
def lookThrough (cam : Option SceneCamera) (reassert binds : Bool) : RegionView :=
  match cam with
  -- nothing to look through: the view is left
  | none => v
  | some cam =>
    if v.perspective ≠ .camera then v.setPerspective .camera binds
    else if reassert && !M.matrixClose v.drawn cam.expect then
      (v.setPerspective .persp binds).setPerspective .camera binds
    else v

/-- The zoom and the offset of camera view. -/
def followZoom (zoom : Binary64) (offset : Binary64 × Binary64) : RegionView :=
  let v₁ := if M.apart v.cameraZoom zoom then v.setCameraZoom M zoom else v
  if M.apart v₁.cameraOffset.1 offset.1 || M.apart v₁.cameraOffset.2 offset.2
  then v₁.setCameraOffset M offset else v₁

/-- The view of a host that looks through its camera. -/
def followCamera (cam : Option SceneCamera) (zoomOffset : Binary64) (state : HotState)
    (reassert binds : Bool) : RegionView :=
  (v.lookThrough M cam reassert binds).followZoom M
    (M.clampZoom (M.plus state.camZoom zoomOffset)) state.camOffset

/-- `"PERSP" if state.is_persp else "ORTHO"`. -/
def perspectiveOf (state : HotState) : Perspective := if state.isPersp then .persp else .ortho

def followMatrix (matrix : ViewMatrix) : RegionView :=
  if M.matrixApart v.drawn matrix
  then { v with matrix := M.rnaMatrix matrix, writes := v.writes + 1 } else v

/-- The view of a host that does not. -/
def followFree (state : HotState) : RegionView :=
  let v₁ := v.followMatrix M state.viewMatrix
  if v₁.perspective ≠ perspectiveOf state then v₁.setPerspective (perspectiveOf state) false else v₁

/-- The loop over `lens`, `clip_start` and `clip_end`. -/
def followSpace (state : HotState) : RegionView :=
  let v₁ := if M.apart v.lens state.lens
    then { v with lens := M.rna state.lens, writes := v.writes + 1 } else v
  let v₂ := if M.apart v₁.clipStart state.clipStart
    then { v₁ with clipStart := M.rna state.clipStart, writes := v₁.writes + 1 } else v₁
  if M.apart v₂.clipEnd state.clipEnd
  then { v₂ with clipEnd := M.rna state.clipEnd, writes := v₂.writes + 1 } else v₂

end RegionView

/-- `_shot`. -/
structure Shot where
  on : Bool := false
  fitPending : Bool := false
  measureAt : Nat := 0
  fitZoom : Option Binary64 := none
  savedPp : Option (Bool × Binary64) := none
  restore : Bool := false
  fitRegion : Option (Nat × Nat) := none
deriving DecidableEq

/-- Where the IO thread is, in `nudge_zoom` or `set_shot_mode`. -/
inductive IoPhase where
  | idle
  /-- `_shot["on"]` is set. -/
  | switching (on : Bool)
  /-- Next, `_last_hot = None`. -/
  | busting
deriving DecidableEq

/-- Where the main thread is in `_tick_inner`. -/
inductive TickPhase where
  | resting
  /-- Next, the two assignments after `_apply_hot(packed)`. -/
  | recording (packed : List UInt8) (start : Nat)
  /-- Next, `_apply_hot(_last_hot, reassert=True)`. -/
  | reasserting (start : Nat)
  /-- Next, what comes after the hot packet. -/
  | serving
deriving DecidableEq

/-- What a turn of the main thread meets outside. -/
structure TickAnswers where
  /-- Whether camera view finds the scene's camera. -/
  binds : Bool
  /-- Whether `_apply_vis` or a batch drops `_last_hot`. -/
  bust : Bool
  /-- The size of the viewport's region. -/
  region : Nat × Nat
  /-- The zoom that fits the camera's frame to it, if `_camera_border` can measure the frame. -/
  measured : Option Binary64
  /-- The viewport of the screen that `kiosk.exit_now` goes back to, if the screen is a full one. -/
  restored : Option ViewArea := none

/-- The replica, as far as its view goes. -/
structure Following where
  /-- `time.monotonic`. -/
  clock : Nat := 0
  /-- What `poll_hot` returns. -/
  polled : Option (List UInt8) := none
  lastHot : Option (List UInt8) := none
  lastHotApplied : Nat := 0
  lastFrameApply : Nat := 0
  zoomOffset : Binary64 := .zero
  shot : Shot := {}
  hostGoodbye : Bool := false
  io : IoPhase := .idle
  tick : TickPhase := .resting
  area : ViewArea := .missing
  camera : Option SceneCamera := none
  frameCurrent : Int := 0
deriving DecidableEq

/-- `_REASSERT_S`. -/
def reassertMs : Nat := 1000

/-- `_FRAME_MIN_INTERVAL`. -/
def frameMinIntervalMs : Nat := 100

/-- How long a measurement waits for a redraw. -/
def measureDelayMs : Nat := 300

namespace Following

variable (M : ViewMath) (s : Following)

/-! ## The packet -/

/-- The end of `_apply_hot`, which is all of it in shot mode. -/
def followFrame (state : HotState) : Following :=
  if state.frame ≠ s.frameCurrent ∧ s.lastFrameApply + frameMinIntervalMs ≤ s.clock then
    { s with frameCurrent := state.frame, lastFrameApply := s.clock }
  else s

/-- `_apply_hot`. -/
def applyHot (packed : List UInt8) (reassert binds : Bool) : Following :=
  match unpackHot packed, s.area with
  | some state, .showing v =>
    if s.shot.on then s.followFrame state
    else
      let v₁ := if state.camera then v.followCamera M s.camera s.zoomOffset state reassert binds
        else v.followFree M state
      ({ s with area := .showing (v₁.followSpace M state) } : Following).followFrame state
  | _, _ => s

/-- `_handle_goodbye`. Its `kiosk.exit_now` may bring back the screen from before. -/
def handleGoodbye (restored : Option ViewArea) : Following :=
  { s with hostGoodbye := false, lastHot := none, area := restored.getD s.area }

/-- The `elif`, of a packet that is no other than the last. -/
def afterHot : Following :=
  if s.lastHot.isSome ∧ s.lastHotApplied + reassertMs ≤ s.clock then
    { s with tick := .reasserting s.clock }
  else { s with tick := .serving }

/-- A tick begins. -/
def beginTick (answers : TickAnswers) : Following :=
  let s₁ := if s.hostGoodbye then s.handleGoodbye answers.restored else s
  match s₁.polled.map hotCore with
  | some core =>
    if some core ≠ s₁.lastHot then
      { s₁.applyHot M core false answers.binds with tick := .recording core s₁.clock }
    else s₁.afterHot
  | none => s₁.afterHot

/-! ## Shot mode -/

/-- The passepartout is saved, and covers what is outside of the camera's frame. -/
def coverOutside : Following :=
  match s.camera with
  | none => s
  | some cam =>
    let saved := s.shot.savedPp.getD cam.passepartout
    let covered := cam.passepartout.1 && !M.belowOne cam.passepartout.2
    { s with
      shot := { s.shot with savedPp := some saved }
      camera := some { cam with
        passepartout := if covered then cam.passepartout else (true, M.rna alphaOne) } }

/-- A region of another size is measured again. -/
def noteRegion (region : Nat × Nat) : Following :=
  if s.shot.fitRegion = some region then s
  else if s.shot.fitRegion.isSome ∧ !s.shot.fitPending then
    { s with shot := { s.shot with
      fitPending := true, measureAt := s.clock + measureDelayMs, fitRegion := some region } }
  else { s with shot := { s.shot with fitRegion := some region } }

/-- The frame is fitted to the region. -/
def measureFit (measured : Option Binary64) : Following :=
  if s.shot.fitPending ∧ s.shot.measureAt ≤ s.clock then
    match measured with
    | some zoom => { s with shot := { s.shot with fitZoom := some zoom, fitPending := false } }
    -- try next tick
    | none => s
  else s

/-- The fitted zoom, and no offset. -/
def keepFit (v : RegionView) (zoomOffset : Binary64) (fitZoom : Option Binary64) : RegionView :=
  match fitZoom with
  | none => v
  | some fit =>
    let target := M.clampZoom (M.plus fit zoomOffset)
    let v₁ := if M.wideApart v.cameraZoom target then v.setCameraZoom M target else v
    if v₁.cameraOffset.1.IsZero ∧ v₁.cameraOffset.2.IsZero then v₁
    else v₁.setCameraOffset M (.zero, .zero)

/-- The passepartout is given back. -/
def restoreShot : Following :=
  { s with
    camera := match s.camera, s.shot.savedPp with
      | some cam, some saved => some { cam with passepartout := (saved.1, M.rna saved.2) }
      | cam, _ => cam
    shot := { s.shot with restore := false, savedPp := none, fitZoom := none } }

/-- `_service_shot`. -/
def serviceShot (answers : TickAnswers) : Following :=
  if s.shot.restore then s.restoreShot M
  else if !s.shot.on then s
  else match s.area with
    | .showing v =>
      if v.perspective ≠ .camera then
        -- let a redraw land first
        { s with
          area := .showing (v.setPerspective .camera answers.binds)
          shot := { s.shot with measureAt := s.clock + measureDelayMs } }
      else
        let s₁ := ((s.coverOutside M).noteRegion answers.region).measureFit answers.measured
        { s₁ with area := .showing (keepFit M v s₁.zoomOffset s₁.shot.fitZoom) }
    -- raises: there is no view to read
    | _ => s

/-! ## Steps -/

/-- The next turn of the main thread. -/
def turn (answers : TickAnswers) : Following :=
  match s.tick with
  | .resting => s.beginTick M answers
  | .recording packed start =>
    { s with lastHot := some packed, lastHotApplied := start, tick := .serving }
  | .reasserting start =>
    match s.lastHot with
    | some packed =>
      { s.applyHot M packed true answers.binds with lastHotApplied := start, tick := .serving }
    -- raises: it was dropped in between
    | none => { s with tick := .resting }
  | .serving =>
    let s₁ := if answers.bust then { s with lastHot := none } else s
    let s₂ := if s₁.area ≠ .missing ∧ (s₁.shot.on ∨ s₁.shot.restore) then s₁.serviceShot M answers
      else s₁
    { s₂ with tick := .resting }

/-- The next turn of the IO thread, inside of a handler. -/
def ioTurn : Following :=
  match s.io with
  | .idle => s
  | .switching true =>
    { s with shot := { s.shot with fitPending := true, fitZoom := none }, io := .busting }
  | .switching false => { s with shot := { s.shot with restore := true }, io := .busting }
  | .busting => { s with lastHot := none, io := .idle }

/-- What may happen next. -/
inductive Act where
  /-- A millisecond goes by. -/
  | pass
  /-- A packet comes. -/
  | packet (data : List UInt8)
  /-- `nudge_zoom`. -/
  | nudge (delta : Binary64) (reset : Bool)
  /-- `set_shot_mode`. -/
  | setShot (on : Bool)
  /-- `notify_host_goodbye`. -/
  | goodbye
  /-- The IO thread goes on. -/
  | io
  /-- The main thread goes on. -/
  | turn (answers : TickAnswers)
  | redraw
  /-- Somebody else changes the viewport. -/
  | viewport (area : ViewArea)
  /-- The camera moves. -/
  | moveCamera (expect : ViewMatrix)
  /-- The scene has another camera, or none. -/
  | camera (cam : Option SceneCamera)
  /-- Somebody else changes the frame. -/
  | frame (n : Int)

/-- One action. The IO thread takes a message when it is done with the one before. -/
def step : Act → Following
  | .pass => { s with clock := s.clock + 1 }
  -- the IO thread takes what comes while it has nothing else to do
  | .packet data => if s.io = .idle then { s with polled := some data } else s
  | .nudge delta reset =>
    if s.io = .idle then
      { s with
        zoomOffset := if reset then .zero else M.plus s.zoomOffset delta
        io := .busting }
    else s
  | .setShot on =>
    if s.io = .idle ∧ s.shot.on ≠ on then
      { s with shot := { s.shot with on }, io := .switching on }
    else s
  | .goodbye => if s.io = .idle then { s with hostGoodbye := true } else s
  | .io => s.ioTurn
  | .turn answers => s.turn M answers
  -- Blender draws a view whenever it likes
  | .redraw =>
    match s.area with
    | .showing v => { s with area := .showing (v.redraw s.camera) }
    | _ => s
  | .viewport area => { s with area }
  | .moveCamera expect => { s with camera := s.camera.map ({ · with expect }) }
  | .camera cam => { s with camera := cam }
  | .frame n => { s with frameCurrent := n }

/-- Actions one after the other. -/
def run (acts : List Act) : Following := acts.foldl (step M) s

end Following

end QCBridge
