import QCBridge.Spec.Following

/-!
# The passepartout is given back

In shot mode the passepartout covers what is outside of the camera's frame. The artist's own is
saved, and given back when shot mode is over. Shot mode is switched by the IO thread, flag by flag,
while ticks go on.

## Key results

- `Following.Safe.step`: what is covered is to be given back
- `Following.passepartout_kept`: in every run
- `Following.toServing_step`: every tick comes to its end
- `Following.passepartout_given_back`: when shot mode goes off
-/

namespace QCBridge

namespace Following

variable {M : ViewMath} {s : Following}

/-- The passepartout is as it was, or it covers what is outside and the old one is saved, which is
    to be given back. -/
structure Safe (M : ViewMath) (pp : Bool × Binary64) (s : Following) : Prop where
  camera : ∃ cam, s.camera = some cam ∧ (cam.passepartout = pp ∨
    cam.passepartout = (true, M.rna alphaOne) ∧ s.shot.savedPp = some pp)
  saved : ∀ saved, s.shot.savedPp = some saved → saved = pp
  due : s.shot.savedPp ≠ none → s.shot.on = true ∨ s.shot.restore = true ∨ s.io = .switching false

variable {pp : Bool × Binary64}

/-- What was saved is safe where neither it nor the mode changes. -/
theorem Safe.of_same {s' : Following} (hsafe : s.Safe M pp) (hcamera : s'.camera = s.camera)
    (hsaved : s'.shot.savedPp = s.shot.savedPp) (hon : s'.shot.on = s.shot.on)
    (hrestore : s'.shot.restore = s.shot.restore) (hio : s'.io = s.io) : s'.Safe M pp := by
  refine ⟨?_, ?_, ?_⟩
  · rw [hcamera, hsaved]
    exact hsafe.camera
  · rw [hsaved]
    exact hsafe.saved
  · rw [hsaved, hon, hrestore, hio]
    exact hsafe.due

/-- What was saved is given back, and read back as it was. -/
theorem Safe.restoreShot (hsafe : s.Safe M pp) (hrna : M.rna pp.2 = pp.2) :
    (s.restoreShot M).Safe M pp := by
  obtain ⟨cam, hcam, hpp⟩ := hsafe.camera
  refine ⟨?_, fun saved h => (by cases h), fun h => absurd rfl h⟩
  unfold Following.restoreShot
  cases hsaved : s.shot.savedPp with
  | none =>
    simp only [hcam]
    refine ⟨cam, rfl, .inl (hpp.resolve_right fun h => ?_)⟩
    rw [hsaved] at h
    cases h.2
  | some saved =>
    obtain rfl := hsafe.saved saved hsaved
    simp only [hcam]
    exact ⟨_, rfl, .inl (Prod.ext rfl hrna)⟩

/-- It is saved before it is covered, and only once. -/
theorem Safe.coverOutside (hsafe : s.Safe M pp) (hon : s.shot.on = true) :
    (s.coverOutside M).Safe M pp := by
  obtain ⟨cam, hcam, hpp⟩ := hsafe.camera
  have hsaved : s.shot.savedPp.getD cam.passepartout = pp := by
    cases hsaved : s.shot.savedPp with
    | none =>
      -- nothing is saved, so it was not covered yet
      refine hpp.resolve_right fun h => ?_
      rw [hsaved] at h
      cases h.2
    | some saved => exact hsafe.saved saved hsaved
  unfold Following.coverOutside
  simp only [hcam, hsaved]
  refine ⟨⟨_, rfl, ?_⟩, fun saved h => (Option.some.inj h).symm, fun _ => .inl hon⟩
  by_cases hcovered : (cam.passepartout.1 && !M.belowOne cam.passepartout.2) = true
  · rw [if_pos hcovered]
    exact hpp.imp id fun h => ⟨h.1, rfl⟩
  · rw [if_neg hcovered]
    exact .inr ⟨rfl, rfl⟩

/-- A new region makes the fit be measured again. -/
theorem Safe.noteRegion (hsafe : s.Safe M pp) (region : Nat × Nat) :
    (s.noteRegion region).Safe M pp := by
  unfold Following.noteRegion
  split
  · exact hsafe
  · split <;> exact hsafe.of_same rfl rfl rfl rfl rfl

/-- A measured fit is about the zoom. -/
theorem Safe.measureFit (hsafe : s.Safe M pp) (measured : Option Binary64) :
    (s.measureFit measured).Safe M pp := by
  unfold Following.measureFit
  split
  · split
    · exact hsafe.of_same rfl rfl rfl rfl rfl
    · exact hsafe
  · exact hsafe

/-- The service of the mode, on or off. -/
theorem Safe.serviceShot (hsafe : s.Safe M pp) (hrna : M.rna pp.2 = pp.2) (answers : TickAnswers) :
    (s.serviceShot M answers).Safe M pp := by
  unfold Following.serviceShot
  split
  · exact hsafe.restoreShot hrna
  · split
    · exact hsafe
    · rename_i hon
      have hon : s.shot.on = true := by simpa using hon
      split
      · split
        · exact hsafe.of_same rfl rfl rfl rfl rfl
        · exact (((hsafe.coverOutside hon).noteRegion answers.region).measureFit
            answers.measured).of_same rfl rfl rfl rfl rfl
      · exact hsafe

/-- A packet is about the view and the frame. -/
theorem Safe.applyHot (hsafe : s.Safe M pp) (packed : List UInt8) (reassert binds : Bool) :
    (s.applyHot M packed reassert binds).Safe M pp := by
  obtain ⟨area, frame, last, heq, -⟩ := applyHot_eq_with M s packed reassert binds
  rw [heq]
  exact hsafe.of_same rfl rfl rfl rfl rfl

/-- A tick begins with a goodbye or a packet. -/
theorem Safe.beginTick (hsafe : s.Safe M pp) (answers : TickAnswers) :
    (s.beginTick M answers).Safe M pp := by
  obtain ⟨_, _, _, _, _, _, heq, -⟩ := beginTick_eq_with M s answers
  rw [heq]
  exact hsafe.of_same rfl rfl rfl rfl rfl

/-- A turn of the main thread. -/
theorem Safe.turn (hsafe : s.Safe M pp) (hrna : M.rna pp.2 = pp.2) (answers : TickAnswers) :
    (s.turn M answers).Safe M pp := by
  unfold Following.turn
  split
  · exact hsafe.beginTick answers
  · exact hsafe.of_same rfl rfl rfl rfl rfl
  · split
    · rename_i packed _
      exact (hsafe.applyHot packed true answers.binds).of_same rfl rfl rfl rfl rfl
    · exact hsafe.of_same rfl rfl rfl rfl rfl
  · obtain ⟨last, hbust⟩ := bust_eq_with s answers
    have hsafe₁ : Safe M pp { s with lastHot := last } := hsafe.of_same rfl rfl rfl rfl rfl
    dsimp only
    rw [hbust]
    split
    · exact (hsafe₁.serviceShot hrna answers).of_same rfl rfl rfl rfl rfl
    · exact hsafe₁.of_same rfl rfl rfl rfl rfl

/-- A switch of the mode, access by access. -/
theorem Safe.ioTurn (hsafe : s.Safe M pp) : s.ioTurn.Safe M pp := by
  unfold Following.ioTurn
  split
  · exact hsafe
  · rename_i hio
    refine ⟨hsafe.camera, hsafe.saved, fun h => (hsafe.due h).imp id (.imp id fun hno => ?_)⟩
    rw [hio] at hno
    cases hno
  · exact ⟨hsafe.camera, hsafe.saved, fun _ => .inr (.inl rfl)⟩
  · rename_i hio
    refine ⟨hsafe.camera, hsafe.saved, fun h => (hsafe.due h).imp id (.imp id fun hno => ?_)⟩
    rw [hio] at hno
    cases hno

/-- The scene keeps its camera. -/
def KeepsCamera : Act → Prop
  | .camera _ => False
  | _ => True

/-- Any action that leaves the camera to the replica. -/
theorem Safe.step (hsafe : s.Safe M pp) (hrna : M.rna pp.2 = pp.2) {act : Act}
    (hact : KeepsCamera act) : (s.step M act).Safe M pp := by
  cases act with
  | camera cam => exact hact.elim
  | turn answers => exact hsafe.turn hrna answers
  | io => exact hsafe.ioTurn
  | setShot on =>
    simp only [Following.step]
    split
    · -- shot mode is on, or the IO thread is about to ask for the restore
      refine ⟨hsafe.camera, hsafe.saved, fun _ => ?_⟩
      cases on with
      | true => exact .inl rfl
      | false => exact .inr (.inr rfl)
    · exact hsafe
  | nudge delta reset =>
    simp only [Following.step]
    split
    · rename_i hio
      refine ⟨hsafe.camera, hsafe.saved, fun h => (hsafe.due h).imp id (.imp id fun hno => ?_)⟩
      rw [hio] at hno
      cases hno
    · exact hsafe
  | moveCamera expect =>
    obtain ⟨cam, hcam, hpp⟩ := hsafe.camera
    exact ⟨⟨{ cam with expect }, by simp [Following.step, hcam], hpp⟩, hsafe.saved, hsafe.due⟩
  | pass => exact hsafe.of_same rfl rfl rfl rfl rfl
  | packet data =>
    simp only [Following.step]
    split
    · exact hsafe.of_same rfl rfl rfl rfl rfl
    · exact hsafe
  | goodbye =>
    simp only [Following.step]
    split
    · exact hsafe.of_same rfl rfl rfl rfl rfl
    · exact hsafe
  | redraw =>
    simp only [Following.step]
    split
    · exact hsafe.of_same rfl rfl rfl rfl rfl
    · exact hsafe
  | viewport | frame => exact hsafe.of_same rfl rfl rfl rfl rfl

/-- So it is in every run. -/
theorem Safe.run (hsafe : s.Safe M pp) (hrna : M.rna pp.2 = pp.2) {acts : List Act}
    (hacts : ∀ act ∈ acts, KeepsCamera act) : (s.run M acts).Safe M pp := by
  induction acts generalizing s with
  | nil => exact hsafe
  | cons act acts ih =>
    exact ih (hsafe.step hrna (hacts act (List.mem_cons_self ..)))
      fun a ha => hacts a (List.mem_cons_of_mem _ ha)

/-- When shot mode is over, nothing covers what is outside. -/
theorem Safe.given_back (hsafe : s.Safe M pp) (hon : s.shot.on = false)
    (hrestore : s.shot.restore = false) (hio : s.io ≠ .switching false) :
    ∃ cam, s.camera = some cam ∧ cam.passepartout = pp := by
  obtain ⟨⟨cam, hcam, hpp⟩, -, hdue⟩ := hsafe
  refine ⟨cam, hcam, hpp.resolve_right fun hcovers => ?_⟩
  rcases hdue (by rw [hcovers.2]; simp) with h | h | h
  · rw [hon] at h
    cases h
  · rw [hrestore] at h
    cases h
  · exact hio h

/-- Whatever comes and in whatever order: while the scene keeps its camera, its passepartout is the
    artist's when shot mode is off and nothing is left to give back. -/
theorem passepartout_kept (M : ViewMath) (cam : SceneCamera)
    (hrna : M.rna cam.passepartout.2 = cam.passepartout.2) (area : ViewArea) (acts : List Act)
    (hacts : ∀ act ∈ acts, KeepsCamera act) :
    let s := run M { camera := some cam, area } acts
    ∃ cam', s.camera = some cam' ∧
      (cam'.passepartout = cam.passepartout ∨ cam'.passepartout = (true, M.rna alphaOne) ∧
        s.shot.savedPp = some cam.passepartout) ∧
      (s.shot.on = false → s.shot.restore = false → s.io ≠ .switching false →
        cam'.passepartout = cam.passepartout) := by
  have hstart : Safe M cam.passepartout { camera := some cam, area } :=
    ⟨⟨cam, rfl, .inl rfl⟩, fun _ h => (by cases h), fun h => absurd rfl h⟩
  have hsafe := hstart.run hrna hacts
  obtain ⟨cam', hcam, hpp⟩ := hsafe.camera
  refine ⟨cam', hcam, hpp, fun hon hrestore hio => ?_⟩
  obtain ⟨cam'', hcam', hback⟩ := hsafe.given_back hon hrestore hio
  obtain rfl : cam' = cam'' := Option.some.inj (hcam.symm.trans hcam')
  exact hback

/-- Shot mode goes on, and two ticks go by. -/
def coverActs : List Act :=
  [.setShot true, .io, .io] ++ List.replicate 4 (.turn ⟨true, false, (0, 0), none, none⟩)

/-- Nobody else touches the camera there. -/
private theorem coverActs_keepsCamera : ∀ act ∈ coverActs, KeepsCamera act := by
  intro act hact
  simp only [coverActs, List.cons_append, List.nil_append, List.mem_cons,
    List.mem_replicate] at hact
  rcases hact with rfl | rfl | rfl | ⟨-, rfl⟩ <;> trivial

/-- The camera is covered, and what it had is saved. -/
theorem passepartout_kept_covered :
    let s := run plainMath { camera := some lookedThrough, area := elsewhere.area } coverActs
    ∃ cam', s.camera = some cam' ∧
      (cam'.passepartout = (false, .zero) ∨ cam'.passepartout = (true, alphaOne) ∧
        s.shot.savedPp = some (false, .zero)) ∧
      (s.shot.on = false → s.shot.restore = false → s.io ≠ .switching false →
        cam'.passepartout = (false, .zero)) :=
  passepartout_kept plainMath lookedThrough rfl elsewhere.area coverActs coverActs_keepsCamera

/-- The passepartout is covered by then. -/
example : (run plainMath { camera := some lookedThrough, area := elsewhere.area } coverActs).camera
    = some { lookedThrough with passepartout := (true, alphaOne) } := by decide

/-! ## Given back in the end -/

/-- How many turns it is at most to the end of a tick. A re-assert may find `_last_hot` dropped, and
    the next tick begins with a packet then. -/
def toServing (s : Following) : Nat :=
  match s.tick with
  | .serving => 0
  | .recording .. => 1
  | .reasserting _ => 4
  | .resting => if s.lastHot = none then 3 else 5

/-- The beginning of a tick brings the service nearer. -/
private theorem toServing_beginTick (htick : s.tick = .resting) (answers : TickAnswers) :
    (s.beginTick M answers).toServing < s.toServing := by
  have hbefore : s.toServing = if s.lastHot = none then 3 else 5 := by simp only [toServing, htick]
  have hdropped : s.lastHot = none →
      (if s.hostGoodbye = true then s.handleGoodbye answers.restored else s).lastHot = none := by
    intro hnone
    split
    · rfl
    · exact hnone
  unfold beginTick afterHot
  dsimp only
  rw [hbefore]
  generalize (if s.hostGoodbye = true then s.handleGoodbye answers.restored else s) = s₁
    at hdropped ⊢
  have hafter : toServing (if s₁.lastHot.isSome ∧ s₁.lastHotApplied + reassertMs ≤ s₁.clock then
      { s₁ with tick := .reasserting s₁.clock } else { s₁ with tick := .serving })
      < if s.lastHot = none then 3 else 5 := by
    split
    · -- a re-assert needs a last packet, which a tick does not make up
      rename_i hdue
      have hsome : s.lastHot ≠ none := fun hnone => by
        have := hdue.1
        rw [hdropped hnone] at this
        cases this
      rw [if_neg hsome]
      show 4 < 5
      decide
    · show 0 < _
      split <;> decide
  split
  · split
    · show 1 < _
      split <;> decide
    · exact hafter
  · exact hafter

/-- So does every turn before it. -/
private theorem toServing_turn (hnot : s.tick ≠ .serving) (answers : TickAnswers) :
    (s.turn M answers).toServing < s.toServing := by
  cases htick : s.tick with
  | resting =>
    simp only [Following.turn, htick]
    exact toServing_beginTick htick answers
  | recording packed start =>
    simp [Following.turn, toServing, htick]
  | reasserting start =>
    have hbefore : s.toServing = 4 := by simp only [toServing, htick]
    unfold Following.turn
    rw [hbefore, htick]
    dsimp only
    split
    · exact Nat.succ_pos 3
    · -- dropped in between: the tick raises, and the next one has a packet or serves at once
      rename_i hnone
      simp [toServing, hnone]
  | serving => exact absurd htick hnot

/-- That the last packet is forgotten does not take it further away. -/
private theorem toServing_of_dropped {s' : Following} (htick : s'.tick = s.tick)
    (hlast : s'.lastHot = s.lastHot ∨ s'.lastHot = none) :
    s'.toServing = s.toServing ∨ s'.toServing < s.toServing := by
  unfold toServing
  rw [htick]
  cases s.tick with
  | resting =>
    dsimp only
    rcases hlast with hsame | hnone
    · rw [hsame]
      exact .inl rfl
    · rw [if_pos hnone]
      split
      · exact .inl rfl
      · exact .inr (by decide)
  | _ => exact .inl rfl

/-- But for the end of a tick, everything leaves it as near or brings it nearer. -/
theorem toServing_step (act : Act)
    (hnot : ¬ ((∃ answers, act = .turn answers) ∧ s.tick = .serving)) :
    (s.step M act).toServing = s.toServing ∨ (s.step M act).toServing < s.toServing := by
  cases act with
  | turn answers => exact .inr (toServing_turn (fun h => hnot ⟨⟨_, rfl⟩, h⟩) answers)
  | io =>
    show s.ioTurn.toServing = _ ∨ s.ioTurn.toServing < _
    unfold ioTurn
    split
    · exact .inl rfl
    · exact toServing_of_dropped rfl (.inl rfl)
    · exact toServing_of_dropped rfl (.inl rfl)
    · exact toServing_of_dropped rfl (.inr rfl)
  | redraw | packet | nudge | setShot | goodbye =>
    simp only [Following.step]
    split
    · exact toServing_of_dropped rfl (.inl rfl)
    · exact .inl rfl
  | pass | viewport | moveCamera | camera | frame =>
    exact toServing_of_dropped rfl (.inl rfl)

/-- A tick comes to its end again and again. -/
private theorem serves_again {acts : Nat → Act}
    (hturn : ∀ k, ∃ m answers, k ≤ m ∧ acts m = .turn answers)
    (k : Nat) : ∃ m, k ≤ m ∧ (∃ answers, acts m = .turn answers) ∧
      (scheduled (step M) s acts m).tick = .serving := by
  refine exists_of_nearer (v := fun m => (scheduled (step M) s acts m).toServing) (f := id)
    (fun m _ hno => toServing_step (acts m) hno) fun m _ => ?_
  obtain ⟨i, answers, hi, hact⟩ := hturn m
  refine ⟨i, hi, fun _ => ?_⟩
  by_cases hserving : (scheduled (step M) s acts i).tick = .serving
  · exact .inl ⟨⟨answers, hact⟩, hserving⟩
  · refine .inr ?_
    show ((scheduled (step M) s acts i).step M (acts i)).toServing < _
    rw [hact]
    exact toServing_turn hserving answers

/-- Shot mode is off, or going off. -/
structure Leaving (M : ViewMath) (pp : Bool × Binary64) (s : Following) : Prop where
  safe : s.Safe M pp
  off : s.shot.on = false
  io : s.io ≠ .switching true
  area : s.area ≠ .missing

/-- Shot mode is not turned on again, and the camera and a viewport are kept. -/
def Leaves : Act → Prop
  | .camera _ | .setShot true | .viewport .missing => False
  | .turn answers => answers.restored ≠ some .missing
  | _ => True

/-- Who leaves the camera alone keeps it. -/
private theorem Leaves.keepsCamera {act : Act} (hact : Leaves act) : KeepsCamera act := by
  cases act <;> first | exact hact.elim | trivial

/-- The IO thread's turn is past the flag. -/
private theorem ioTurn_io (s : Following) (on : Bool) : s.ioTurn.io ≠ .switching on := by
  unfold ioTurn
  split
  · rename_i hidle
    rw [hidle]
    simp
  all_goals simp

/-- With the mode off the service gives back what is to be given back, and else does nothing. -/
private theorem serviceShot_off (hoff : s.shot.on = false) (answers : TickAnswers) :
    s.serviceShot M answers = s.restoreShot M ∧ s.shot.restore = true ∨
      s.serviceShot M answers = s ∧ s.shot.restore = false := by
  unfold Following.serviceShot
  cases hrestore : s.shot.restore with
  | true => exact .inl ⟨rfl, rfl⟩
  | false => exact .inr ⟨by simp [hoff], rfl⟩

/-- What a turn leaves, when shot mode is off. -/
private theorem turn_off (hoff : s.shot.on = false) (harea : s.area ≠ .missing)
    {answers : TickAnswers}
    (hrestored : answers.restored ≠ some .missing) :
    (s.turn M answers).shot.on = false ∧ (s.turn M answers).io = s.io ∧
      (s.turn M answers).area ≠ .missing ∧
      (s.shot.restore = false → (s.turn M answers).shot.restore = false) ∧
      (s.tick = .serving → (s.turn M answers).shot.restore = false) := by
  unfold Following.turn
  cases htick : s.tick with
  -- the beginning of a tick, which may restore the screen
  | resting =>
    obtain ⟨_, _, _, _, _, _, heq, -, hthere⟩ := beginTick_eq_with M s answers
    dsimp only
    rw [heq]
    exact ⟨hoff, rfl, hthere hrestored harea, id, fun h => (by cases h)⟩
  -- a tick goes on, and shot mode has no part in it
  | recording packed start => exact ⟨hoff, rfl, harea, id, fun h => (by cases h)⟩
  | reasserting start =>
    dsimp only
    split
    · rename_i packed _
      obtain ⟨_, _, _, heq, -, hthere⟩ := applyHot_eq_with M s packed true answers.binds
      rw [heq]
      exact ⟨hoff, rfl, hthere harea, id, fun h => (by cases h)⟩
    · exact ⟨hoff, rfl, harea, id, fun h => (by cases h)⟩
  -- the service of shot mode: it is off, so it gives back or does nothing
  | serving =>
    obtain ⟨last, hbust⟩ := bust_eq_with s answers
    dsimp only
    rw [← htick, hbust]
    rcases serviceShot_off (M := M) (s := { s with lastHot := last }) hoff answers with
      ⟨heq, hrestore⟩ | ⟨heq, hrestore⟩
    · rw [if_pos ⟨harea, .inr hrestore⟩, heq]
      exact ⟨hoff, rfl, harea, fun _ => rfl, fun _ => rfl⟩
    · rw [heq, ite_self]
      exact ⟨hoff, rfl, harea, fun _ => hrestore, fun _ => hrestore⟩

/-- On the way out of the mode no action goes back into it, and what was given back stays so. -/
theorem Leaving.step (hleaving : s.Leaving M pp) (hrna : M.rna pp.2 = pp.2) {act : Act}
    (hact : Leaves act) : (s.step M act).Leaving M pp ∧
      (s.io ≠ .switching false → (s.step M act).io ≠ .switching false) ∧
      (s.io ≠ .switching false → s.shot.restore = false → (s.step M act).shot.restore = false) := by
  have hsafe := hleaving.safe.step hrna hact.keepsCamera
  obtain ⟨-, hoff, hio, harea⟩ := hleaving
  cases act with
  -- the apply loop's turn
  | turn answers =>
    obtain ⟨hoff', hio', harea', hrestore, -⟩ := turn_off (M := M) hoff harea hact
    exact ⟨⟨hsafe, hoff', fun h => hio (hio' ▸ h), harea'⟩, fun hno h => hno (hio' ▸ h),
      fun _ => hrestore⟩
  -- the io thread's, which switches only when it is asked
  | io =>
    have hcases : s.ioTurn.shot.on = false ∧ s.ioTurn.area = s.area ∧
        (s.io ≠ .switching false → s.ioTurn.shot.restore = s.shot.restore) := by
      unfold Following.ioTurn
      split
      · exact ⟨hoff, rfl, fun _ => rfl⟩
      · exact ⟨hoff, rfl, fun _ => rfl⟩
      · rename_i hgoing
        exact ⟨hoff, rfl, fun hno => absurd hgoing hno⟩
      · exact ⟨hoff, rfl, fun _ => rfl⟩
    obtain ⟨hoff', harea', hrestore⟩ := hcases
    exact ⟨⟨hsafe, hoff', ioTurn_io s true, harea' ▸ harea⟩, fun _ => ioTurn_io s false,
      fun hno hr => (hrestore hno).trans hr⟩
  -- going in is not allowed here, going out is done already
  | setShot on =>
    cases on with
    | true => exact hact.elim
    | false =>
      have hsame : s.step M (.setShot false) = s := if_neg fun h => h.2 hoff
      rw [hsame] at hsafe ⊢
      exact ⟨⟨hsafe, hoff, hio, harea⟩, id, fun _ => id⟩
  -- what is nudged, and what comes from the host, leaves the mode alone
  | nudge delta reset =>
    simp only [Following.step] at hsafe ⊢
    split at hsafe <;> rename_i hidle
    · rw [if_pos hidle]
      exact ⟨⟨hsafe, hoff, by simp, harea⟩, fun _ => by simp, fun _ => id⟩
    · rw [if_neg hidle]
      exact ⟨⟨hsafe, hoff, hio, harea⟩, id, fun _ => id⟩
  | packet | goodbye =>
    simp only [Following.step] at hsafe ⊢
    split at hsafe <;> rename_i hidle
    · rw [if_pos hidle]
      exact ⟨⟨hsafe, hoff, hio, harea⟩, id, fun _ => id⟩
    · rw [if_neg hidle]
      exact ⟨⟨hsafe, hoff, hio, harea⟩, id, fun _ => id⟩
  -- a redraw leaves the mode, and an area stays one
  | redraw =>
    have hsame : (s.step M .redraw).shot = s.shot ∧ (s.step M .redraw).io = s.io ∧
        (s.step M .redraw).area ≠ .missing := by
      simp only [Following.step]
      split
      · exact ⟨rfl, rfl, by simp⟩
      · exact ⟨rfl, rfl, harea⟩
    obtain ⟨hshot, hio', harea'⟩ := hsame
    exact ⟨⟨hsafe, by rw [hshot, hoff], hio' ▸ hio, harea'⟩, fun hno => hio' ▸ hno,
      fun _ hr => by rw [hshot, hr]⟩
  -- a viewport is not missing, by the condition
  | viewport area =>
    refine ⟨⟨hsafe, hoff, hio, ?_⟩, id, fun _ => id⟩
    intro (hmissing : area = .missing)
    subst hmissing
    exact hact
  | camera => exact hact.elim
  | pass | moveCamera | frame => exact ⟨⟨hsafe, hoff, hio, harea⟩, id, fun _ => id⟩

/-- When shot mode goes off and stays off, the passepartout is the artist's from some moment on,
    whatever else happens. -/
theorem passepartout_given_back (M : ViewMath) (cam : SceneCamera)
    (hrna : M.rna cam.passepartout.2 = cam.passepartout.2) (area : ViewArea) (before : List Act)
    (hbefore : ∀ act ∈ before, KeepsCamera act)
    (hoff : (run M { camera := some cam, area } before).shot.on = false)
    (hio : (run M { camera := some cam, area } before).io ≠ .switching true)
    (harea : (run M { camera := some cam, area } before).area ≠ .missing)
    (acts : Nat → Act) (hacts : ∀ k, Leaves (acts k))
    (hio' : ∀ k, ∃ m, k ≤ m ∧ acts m = .io)
    (hturn : ∀ k, ∃ m answers, k ≤ m ∧ acts m = .turn answers) :
    ∃ n, ∀ m, n ≤ m → ∃ cam',
      (scheduled (step M) (run M { camera := some cam, area } before) acts m).camera = some cam' ∧
      cam'.passepartout = cam.passepartout := by
  let sch := scheduled (step M) (run M { camera := some cam, area } before) acts
  have hstart : Safe M cam.passepartout { camera := some cam, area } :=
    ⟨⟨cam, rfl, .inl rfl⟩, fun _ h => (by cases h), fun h => absurd rfl h⟩
  have hleaving : ∀ k, (sch k).Leaving M cam.passepartout := fun k =>
    scheduled_invariant (P := Leaves) (fun _ _ h hact => (h.step hrna hact).1)
      ⟨hstart.run hrna hbefore, hoff, hio, harea⟩ hacts k
  have hnext : ∀ k, sch (k + 1) = (sch k).step M (acts k) := fun _ => rfl
  -- the handler ends
  obtain ⟨a, -, hgone⟩ := exists_stage (P := fun _ => True) (n := 0)
    (Q := fun m => (sch m).io ≠ .switching false) hio' (fun _ _ => id)
    (fun m _ _ hact => by
      rw [hnext, hact]
      exact ioTurn_io (sch m) false)
    trivial
  have hgoneFor : ∀ m, a ≤ m → (sch m).io ≠ .switching false := by
    intro m hm
    induction m, hm using Nat.le_induction with
    | base => exact hgone
    | succ m _ ih => exact ((hleaving m).step hrna (hacts m)).2.1 ih
  -- a tick ends
  obtain ⟨b, hb, hrestored⟩ := exists_stage (P := fun _ => True) (n := a)
    (Q := fun m => (sch m).shot.restore = false) (serves_again hturn) (fun _ _ => id)
    (fun m _ _ hserve => by
      obtain ⟨⟨answers, hact⟩, hserving⟩ := hserve
      have hrestored : Leaves (.turn answers) := hact ▸ hacts m
      rw [hnext, hact]
      exact (turn_off (hleaving m).off (hleaving m).area hrestored).2.2.2.2 hserving)
    trivial
  -- nobody asks for it again
  refine ⟨b, fun m hm => ?_⟩
  have hrestoredFor : (sch m).shot.restore = false := by
    induction m, hm using Nat.le_induction with
    | base => exact hrestored
    | succ m hm ih =>
      exact ((hleaving m).step hrna (hacts m)).2.2 (hgoneFor m (Nat.le_trans hb hm)) ih
  exact (hleaving m).safe.given_back (hleaving m).off hrestoredFor (hgoneFor m (Nat.le_trans hb hm))

/-- The IO thread and the main thread go on by turns. -/
def byTurns (k : Nat) : Act := if k % 2 = 0 then .io else .turn ⟨true, false, (0, 0), none, none⟩

/-- Shot mode is over after that, and the passepartout still covers. -/
def covered : Following :=
  run plainMath { camera := some lookedThrough, area := elsewhere.area }
    (coverActs ++ [.setShot false])

/-- The camera that was covered gets back what it had. -/
theorem passepartout_given_back_covered :
    ∃ n, ∀ m, n ≤ m → ∃ cam', (scheduled (step plainMath) covered byTurns m).camera = some cam' ∧
      cam'.passepartout = lookedThrough.passepartout := by
  have hbefore : ∀ act ∈ coverActs ++ [.setShot false], KeepsCamera act := by
    intro act hact
    rcases List.mem_append.mp hact with hact | hact
    · exact coverActs_keepsCamera act hact
    · obtain rfl := List.mem_singleton.mp hact
      trivial
  have hleaving : covered.shot.on = false ∧ covered.io ≠ .switching true ∧
      covered.area ≠ .missing := by decide
  refine passepartout_given_back plainMath lookedThrough rfl elsewhere.area _ hbefore hleaving.1
    hleaving.2.1 hleaving.2.2 byTurns (fun k => ?_) (fun k => ?_) fun k => ?_
  · simp only [byTurns]
    split
    · trivial
    · exact fun h => (by cases h)
  · exact ⟨2 * k, by omega, by simp [byTurns]⟩
  · exact ⟨2 * k + 1, ⟨true, false, (0, 0), none, none⟩, by omega, by simp [byTurns]⟩

end Following

end QCBridge
