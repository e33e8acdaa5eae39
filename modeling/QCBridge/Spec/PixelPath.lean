import QCBridge.ForStd.Eventually
import QCBridge.ForStd.Guarded
import QCBridge.ForStd.Weigh
import QCBridge.Ring0.PixelPath

/-!
# No encoder is left behind

The supervisor spawns two children in two steps, and `stop` looks at both from another thread at any
moment in between. A child that `stop` does not see yet is taken down by the supervisor, which finds
the event set; so once `stop` returns nothing of the pixel path runs.

That takes calls of `start` and `stop` that come one after the other, and a `join` that waits until
the thread has returned.

## Key results

- `PixelPath.Good.turn`: a step of the supervisor, whatever it meets
- `PixelPath.run_contained`: what holds in every such run
- `PixelPath.stop_returns`: `stop` needs no more than its waits
-/

namespace QCBridge

namespace PixelPath

variable {s : PixelPath}

/-! ## Children -/

/-- The child has neither exited nor been killed. -/
def alive (s : PixelPath) (pid : Nat) : Bool := (s.children[pid]?).any Child.alive

/-- What the child was spawned as. -/
def kindOf (s : PixelPath) (pid : Nat) : Option ChildKind := (s.children[pid]?).map Child.kind

/-- Which processes are alive depends on the children alone. -/
private theorem alive_of_children {s' : PixelPath} (h : s'.children = s.children) (pid : Nat) :
    s'.alive pid = s.alive pid := by rw [alive, alive, h]

/-- And so does what they are. -/
private theorem kindOf_of_children {s' : PixelPath} (h : s'.children = s.children) (pid : Nat) :
    s'.kindOf pid = s.kindOf pid := by rw [kindOf, kindOf, h]

/-- A process that does not run is not alive. -/
private theorem not_alive_of_not_runs {pid : Nat} (h : s.runs pid = false) :
    s.alive pid = false := by
  simp only [runs, alive] at h ⊢
  cases hchild : s.children[pid]? with
  | none => rfl
  | some c =>
    rw [hchild] at h
    simp only [Option.any_some] at h
    simp [Child.alive, h]

/-- What is done to a child that stays what it was and comes to no new life. -/
private theorem alive_onChild {f : Child → Child} (hf : ∀ c, (f c).alive = true → c.alive = true)
    {pid q : Nat} (h : (s.onChild pid f).alive q = true) : s.alive q = true := by
  simp only [alive, onChild, List.getElem?_modify, Option.any_eq_true] at h ⊢
  obtain ⟨c, hc, halive⟩ := h
  split at hc
  · obtain ⟨c', hc', rfl⟩ := Option.map_eq_some_iff.mp hc
    exact ⟨c', hc', hf c' halive⟩
  · obtain ⟨c', hc', rfl⟩ := Option.map_eq_some_iff.mp hc
    exact ⟨c', hc', halive⟩

/-- What is done to a child does not make it another kind. -/
private theorem kindOf_onChild {f : Child → Child} (hf : ∀ c, (f c).kind = c.kind) (pid q : Nat) :
    (s.onChild pid f).kindOf q = s.kindOf q := by
  simp only [kindOf, onChild, List.getElem?_modify]
  cases s.children[q]? with
  | none => rfl
  | some c =>
    by_cases hq : pid = q
    · simp [hq, hf]
    · simp [hq]

/-- A poll finds out who has ended, and brings nobody to life. -/
private theorem alive_poll {pid q : Nat} (h : (s.poll pid).alive q = true) : s.alive q = true :=
  alive_onChild (f := fun c => { c with returncode := c.exit }) (fun _ hc => hc) h

/-- Nor does it make one another kind. -/
private theorem kindOf_poll (pid q : Nat) : (s.poll pid).kindOf q = s.kindOf q :=
  kindOf_onChild (f := fun c => { c with returncode := c.exit }) (fun _ => rfl) pid q

/-- A child that was killed is no more. -/
private theorem alive_kill {pid q : Nat} (h : (s.kill pid).alive q = true) :
    s.alive q = true ∧ q ≠ pid := by
  refine ⟨alive_onChild (fun c hc => by simp [Child.alive] at hc) h, ?_⟩
  rintro rfl
  simp only [alive, kill, onChild, List.getElem?_modify, if_true, Option.any_eq_true] at h
  obtain ⟨c, hc, halive⟩ := h
  obtain ⟨c', -, rfl⟩ := Option.map_eq_some_iff.mp hc
  simp [Child.alive] at halive

/-- A kill does not either. -/
private theorem kindOf_kill (pid q : Nat) : (s.kill pid).kindOf q = s.kindOf q :=
  kindOf_onChild (f := fun c => { c with killed := true }) (fun _ => rfl) pid q

/-- A spawn adds one process, with the next number. -/
private theorem alive_spawn {kind : ChildKind} {argv : List String} {q : Nat}
    (h : (s.spawn kind argv).alive q = true) : s.alive q = true ∨ q = s.children.length := by
  simp only [alive, spawn] at h ⊢
  rcases Nat.lt_trichotomy q s.children.length with hlt | heq | hgt
  · rw [List.getElem?_append_left hlt] at h
    exact .inl h
  · exact .inr heq
  · rw [List.getElem?_append_right (by omega), List.getElem?_eq_none (by simp; omega)] at h
    simp at h

/-- The others stay what they are. -/
private theorem kindOf_spawn {kind : ChildKind} {argv : List String} {q : Nat} {k : ChildKind}
    (h : s.kindOf q = some k) : (s.spawn kind argv).kindOf q = some k := by
  simp only [kindOf, spawn] at h ⊢
  have hlt : q < s.children.length := by
    by_contra hge
    rw [List.getElem?_eq_none (by omega)] at h
    simp at h
  rw [List.getElem?_append_left hlt]
  exact h

/-- The new one is of the kind that was spawned. -/
private theorem kindOf_spawn_new (kind : ChildKind) (argv : List String) :
    (s.spawn kind argv).kindOf s.children.length = some kind := by
  simp [kindOf, spawn]

/-! ## A supervisor -/

/-- `_cap_proc` is the business of the supervisor of a helper only. -/
def helperOf (s : PixelPath) (t : Supervisor) : List Nat :=
  match t.work with
  | .readback .. => s.capProc.toList
  | .screen _ => []

/-- The children that a supervisor has still to take down. -/
def holds (s : PixelPath) (t : Supervisor) : List Nat :=
  match t.phase with
  | .bornHelper pid => [pid]
  | .spawningMux => s.helperOf t
  | .bornMux pid => pid :: s.helperOf t
  | .failed => s.capProc.toList
  | .watching | .left => s.proc.toList ++ s.helperOf t
  | .waitingFor pid => [pid]
  | .reaping pids => pids
  | .awaiting pid pids => pid :: pids
  | _ => []

/-- The children that a supervisor looks at are there. -/
def Ready (s : PixelPath) (t : Supervisor) : Prop :=
  s.proc.isSome ∧ match t.work with
    | .readback .. => s.capProc.isSome
    | .screen _ => True

/-- What a supervisor finds. -/
def Knows (s : PixelPath) (t : Supervisor) : Prop :=
  match t.phase with
  | .bornHelper pid => s.kindOf pid = some .helper ∧ ∃ helper params cmd,
      t.work = .readback helper params cmd
  | .spawningMux => match t.work with
    | .readback .. => s.capProc.isSome
    | .screen _ => True
  | .bornMux pid => s.kindOf pid = some .mux ∧ match t.work with
    | .readback .. => s.capProc.isSome
    | .screen _ => True
  | .watching | .ended => s.Ready t
  | .waitingFor pid => s.kindOf pid = some .mux ∧ s.Ready t ∧ ∃ cmd, t.work = .screen cmd
  | .left => s.Ready t ∧ s.capProc.isSome
  | .reaping pids => s.Ready t ∧ (pids.map s.kindOf).Nodup
  | .awaiting pid pids => s.Ready t ∧ ((pid :: pids).map s.kindOf).Nodup
  | .spawningHelper | .building => ∃ helper params cmd, t.work = .readback helper params cmd
  | _ => True

/-- A supervisor has hold of every child there is. -/
structure Good (s : PixelPath) (t : Supervisor) : Prop where
  held : ∀ pid, s.alive pid = true → pid ∈ s.holds t
  knows : s.Knows t
  procKind : ∀ pid, s.proc = some pid → s.kindOf pid = some .mux
  capKind : ∀ pid, s.capProc = some pid → s.kindOf pid = some .helper

section Turn

variable {t : Supervisor}

/-- Nothing that the supervisor has hold of changes but what it says. -/
private theorem Good.of_children {s' : PixelPath} {t' : Supervisor} (h : s.Good t)
    (halive : ∀ pid, s'.alive pid = true →
      s.alive pid = true ∧ (pid ∈ s.holds t → pid ∈ s'.holds t'))
    (hkind : ∀ pid, s'.kindOf pid = s.kindOf pid) (hproc : s'.proc = s.proc)
    (hcap : s'.capProc = s.capProc) (hknows : s'.Knows t') : s'.Good t' where
  held pid hpid := (halive pid hpid).2 (h.held pid (halive pid hpid).1)
  knows := hknows
  procKind pid hpid := by
    rw [hkind]
    exact h.procKind pid (hproc ▸ hpid)
  capKind pid hpid := by
    rw [hkind]
    exact h.capKind pid (hcap ▸ hpid)

/-- The supervisor goes on without looking at a child. -/
theorem Good.moves {s' : PixelPath} {t' : Supervisor} (h : s.Good t)
    (hchildren : s'.children = s.children) (hproc : s'.proc = s.proc)
    (hcap : s'.capProc = s.capProc) (hholds : ∀ pid ∈ s.holds t, pid ∈ s'.holds t')
    (hknows : s'.Knows t') : s'.Good t' :=
  h.of_children (fun pid hpid => ⟨alive_of_children hchildren pid ▸ hpid, hholds pid⟩)
    (kindOf_of_children hchildren) hproc hcap hknows

/-- After a step the supervisor has hold of every child, and has not run into a missing one. -/
def Carries (s : PixelPath) (t : Supervisor) (c : Chance) : Prop :=
  (s.turn t c).1.Good (s.turn t c).2 ∧ (s.turn t c).2.phase ≠ .crashed

/-- At the top of the loop it holds no child. -/
private theorem Good.turn_checking (h : s.Good t)
    (hphase : t.phase = .checking) (c : Chance) : s.Carries t c := by
  unfold Carries
  simp only [PixelPath.turn, hphase]
  have hholds : ∀ pid, pid ∉ s.holds t := by simp [holds, hphase]
  split
  · exact ⟨h.moves rfl rfl rfl (fun pid hpid => absurd hpid (hholds pid)) trivial, by simp⟩
  · split
    · rename_i hwork
      exact ⟨h.moves rfl rfl rfl (fun pid hpid => absurd hpid (hholds pid)) ⟨_, _, _, hwork⟩,
        by simp⟩
    · rename_i hwork
      refine ⟨h.moves rfl rfl rfl (fun pid hpid => absurd hpid (hholds pid)) ?_, by simp⟩
      simp [Knows, hwork]

/-- Nor in a pause. -/
private theorem Good.turn_pausing (h : s.Good t)
    (hphase : t.phase = .pausing) (c : Chance) : s.Carries t c := by
  unfold Carries
  simp only [PixelPath.turn, hphase]
  exact ⟨h.moves rfl rfl rfl (by simp [holds, hphase]) trivial, by simp⟩

/-- Nor while it builds the command of the helper. -/
private theorem Good.turn_building (h : s.Good t)
    (hphase : t.phase = .building) (c : Chance) : s.Carries t c := by
  unfold Carries
  simp only [PixelPath.turn, hphase]
  have hholds : ∀ pid, pid ∉ s.holds t := by simp [holds, hphase]
  split
  · rename_i hwork _
    split
    · exact ⟨h.moves rfl rfl rfl (fun pid hpid => absurd hpid (hholds pid)) trivial, by simp⟩
    · exact ⟨h.moves rfl rfl rfl (fun pid hpid => absurd hpid (hholds pid)) ⟨_, _, _, hwork⟩,
        by simp⟩
  · exact ⟨h.moves rfl rfl rfl (fun pid hpid => absurd hpid (hholds pid)) trivial, by simp⟩

/-- The new helper is the one child there is. -/
private theorem Good.turn_spawningHelper (h : s.Good t)
    (hphase : t.phase = .spawningHelper) (c : Chance) : s.Carries t c := by
  have hheld := h.held
  have hknows := h.knows
  unfold Carries
  simp only [PixelPath.turn, hphase]
  have hholds : ∀ pid, pid ∉ s.holds t := by simp [holds, hphase]
  simp only [Knows, hphase] at hknows
  -- the process is there, or spawning failed
  split
  · refine ⟨⟨fun pid hpid => ?_, ⟨kindOf_spawn_new .helper t.capCmd, hknows⟩,
      fun pid hpid => kindOf_spawn (h.procKind pid hpid),
      fun pid hpid => kindOf_spawn (h.capKind pid hpid)⟩, by simp⟩
    rcases alive_spawn hpid with halive | rfl
    · exact absurd (hheld pid halive) (hholds pid)
    · simp [holds]
  · exact ⟨h.moves rfl rfl rfl (fun pid hpid => absurd hpid (hholds pid)) trivial, by simp⟩

/-- It becomes `_cap_proc`. -/
private theorem Good.turn_bornHelper {pid : Nat} (h : s.Good t)
    (hphase : t.phase = .bornHelper pid) (c : Chance) : s.Carries t c := by
  have hheld := h.held
  have hknows := h.knows
  unfold Carries
  simp only [PixelPath.turn, hphase]
  simp only [Knows, hphase] at hknows
  obtain ⟨hkind, helper, params, cmd, hwork⟩ := hknows
  -- it is held as `_cap_proc` now
  refine ⟨⟨fun q hq => ?_, ?_, h.procKind, ?_⟩, by simp⟩
  · have := hheld q hq
    simp only [holds, hphase] at this
    simpa [holds, helperOf, hwork] using this
  · simp [Knows, hwork]
  · -- and it is of the helper's kind
    rintro q hq
    obtain rfl := Option.some.inj hq
    exact hkind

/-- The new mux comes to the helper, or is the one child there is. -/
private theorem Good.turn_spawningMux (h : s.Good t)
    (hphase : t.phase = .spawningMux) (c : Chance) : s.Carries t c := by
  have hheld := h.held
  have hknows := h.knows
  unfold Carries
  simp only [PixelPath.turn, hphase]
  simp only [Knows, hphase] at hknows
  split
  · -- beside the helper that it has hold of
    rename_i hwork _
    rw [hwork] at hknows
    refine ⟨⟨fun pid hpid => ?_, ⟨kindOf_spawn_new .mux _, by simp only [hwork]; exact hknows⟩,
      fun pid hpid => kindOf_spawn (h.procKind pid hpid),
      fun pid hpid => kindOf_spawn (h.capKind pid hpid)⟩, by simp⟩
    rcases alive_spawn hpid with halive | rfl
    · -- a child of before is the helper still
      have := hheld pid halive
      simp only [holds, hphase] at this
      exact List.mem_cons_of_mem _ this
    · exact List.mem_cons_self ..
  · -- on its own
    rename_i hwork _
    refine ⟨⟨fun pid hpid => ?_, ⟨kindOf_spawn_new .mux _, by simp [hwork]⟩,
      fun pid hpid => kindOf_spawn (h.procKind pid hpid),
      fun pid hpid => kindOf_spawn (h.capKind pid hpid)⟩, by simp⟩
    rcases alive_spawn hpid with halive | rfl
    · have := hheld pid halive
      simp only [holds, hphase] at this
      exact List.mem_cons_of_mem _ this
    · exact List.mem_cons_self ..
  · -- the spawn fails, and the helper is left to be killed
    rename_i hwork _
    refine ⟨h.moves rfl rfl rfl (fun pid hpid => ?_) trivial, by simp⟩
    simpa [holds, hphase, helperOf, hwork] using hpid
  · -- it fails with no helper about
    rename_i hwork _
    refine ⟨h.moves rfl rfl rfl (fun pid hpid => ?_) trivial, by simp⟩
    simp [holds, hphase, helperOf, hwork] at hpid

/-- It becomes `_proc`. -/
private theorem Good.turn_bornMux {pid : Nat} (h : s.Good t)
    (hphase : t.phase = .bornMux pid) (c : Chance) : s.Carries t c := by
  have hheld := h.held
  have hknows := h.knows
  unfold Carries
  simp only [PixelPath.turn, hphase]
  simp only [Knows, hphase] at hknows
  obtain ⟨hkind, hcap⟩ := hknows
  refine ⟨⟨fun q hq => ?_, ⟨rfl, hcap⟩, ?_, h.capKind⟩, by simp⟩
  · have := hheld q hq
    simp only [holds, hphase] at this
    simpa [holds, helperOf] using this
  · rintro q hq
    obtain rfl := Option.some.inj hq
    exact hkind

/-- Without a mux the helper is killed, unless it has exited. -/
private theorem Good.turn_failed (h : s.Good t)
    (hphase : t.phase = .failed) (c : Chance) : s.Carries t c := by
  have hheld := h.held
  unfold Carries
  simp only [PixelPath.turn, hphase]
  split
  · -- a helper is there: it is killed, or has exited
    rename_i pid hcap
    have hone : ∀ q, s.alive q = true → q = pid := fun q hq => by
      have := hheld q hq
      simpa [holds, hphase, hcap] using this
    split
    · refine ⟨h.of_children (fun q hq => ?_) (kindOf_kill pid) rfl rfl trivial, by simp⟩
      obtain ⟨halive, hne⟩ := alive_kill hq
      exact absurd (hone q halive) hne
    · rename_i hruns
      refine ⟨h.of_children (fun q hq => ?_) (kindOf_poll pid) rfl rfl trivial, by simp⟩
      have halive := alive_poll hq
      rw [hone q halive, not_alive_of_not_runs (by simpa using hruns)] at halive
      cases halive
  · -- none is there
    rename_i hcap
    refine ⟨h.moves rfl rfl rfl (fun pid hpid => ?_) trivial, by simp⟩
    simp [holds, hphase, hcap] at hpid

/-- Both children are there to be watched. -/
private theorem Good.turn_watching (h : s.Good t)
    (hphase : t.phase = .watching) (c : Chance) : s.Carries t c := by
  have hknows := h.knows
  unfold Carries
  simp only [PixelPath.turn, hphase]
  simp only [Knows, hphase] at hknows
  obtain ⟨hproc, hcap⟩ := hknows
  split
  · -- the readback watches both its children
    rename_i hwork
    rw [hwork] at hcap
    simp only at hcap
    -- going to `left` it has hold of the same
    have hholds : ∀ pid ∈ s.holds t, ∀ t' : Supervisor, t'.work = t.work → t'.phase = .left →
        pid ∈ s.holds t' := by
      intro pid hpid t' hwork' hphase'
      simp only [holds, hphase, hphase', helperOf, hwork'] at hpid ⊢
      exact hpid
    have hready : s.Knows { t with phase := .left } :=
      ⟨⟨hproc, by simp only [hwork]; exact hcap⟩, hcap⟩
    split
    · exact ⟨h.moves rfl rfl rfl (fun pid hpid => hholds pid hpid _ rfl rfl) hready, by simp⟩
    · split
      · -- both run, or it has polled them and leaves
        rename_i mux helper hmux hhelper
        split
        · split
          · refine ⟨h.moves rfl rfl rfl (fun pid hpid => ?_) ?_, by simp [hphase]⟩
            · simpa [holds, hphase, helperOf] using hpid
            · simp only [Knows, hphase, Ready, hwork]
              exact ⟨hproc, hcap⟩
          · exact ⟨h, by simp [hphase]⟩
        · refine ⟨h.of_children (fun q hq => ⟨alive_poll (alive_poll hq), fun hin => ?_⟩)
            (fun q => by rw [kindOf_poll, kindOf_poll]) rfl rfl hready, by simp⟩
          exact hholds q hin { t with phase := .left } rfl rfl
      · rename_i hnone
        -- a readback always has both to watch
        obtain ⟨mux, hmux⟩ := Option.isSome_iff_exists.mp hproc
        obtain ⟨helper, hhelper⟩ := Option.isSome_iff_exists.mp hcap
        exact absurd hhelper (hnone mux helper hmux)
  · -- the screen waits for its one child
    rename_i pid hwork hmux
    refine ⟨h.moves rfl rfl rfl (fun q hq => ?_)
      ⟨h.procKind pid hmux, ⟨hproc, by simp [hwork]⟩, _, hwork⟩, by simp⟩
    simpa [holds, hphase, helperOf, hwork, hmux] using hq
  · -- it is there by now
    rename_i hwork hnone
    simp [hnone] at hproc

/-- The one child has exited when the wait returns. -/
private theorem Good.turn_waitingFor {pid : Nat} (h : s.Good t)
    (hphase : t.phase = .waitingFor pid) (c : Chance) : s.Carries t c := by
  have hheld := h.held
  have hknows := h.knows
  unfold Carries
  simp only [PixelPath.turn, hphase]
  simp only [Knows, hphase] at hknows
  split
  · -- it runs still: the wait goes on
    exact ⟨h, by simp [hphase]⟩
  · -- it has exited, and was the one child
    rename_i hruns
    refine ⟨h.of_children (fun q hq => ?_) (kindOf_poll pid) rfl rfl hknows.2.1,
      by simp⟩
    have halive := alive_poll hq
    have := hheld q halive
    simp only [holds, hphase, List.mem_singleton] at this
    rw [this, not_alive_of_not_runs (by simpa using hruns)] at halive
    cases halive

/-- Both children are there to be taken down. -/
private theorem Good.turn_left (h : s.Good t)
    (hphase : t.phase = .left) (c : Chance) : s.Carries t c := by
  have hknows := h.knows
  unfold Carries
  simp only [PixelPath.turn, hphase]
  simp only [Knows, hphase] at hknows
  obtain ⟨hready, hcap⟩ := hknows
  split
  · -- both are polled, and taken down in the next steps
    rename_i mux helper hmux hhelper
    refine ⟨h.of_children (fun q hq => ⟨alive_poll (alive_poll hq), fun hin => ?_⟩)
      (fun q => by rw [kindOf_poll, kindOf_poll]) rfl rfl ⟨hready, ?_⟩, by simp⟩
    · simp only [holds, hphase, helperOf, hmux, hhelper] at hin ⊢
      split at hin <;> simp_all
    · simp [kindOf_poll, h.procKind mux hmux, h.capKind helper hhelper]
  · -- both must be there, by what the phase knows
    rename_i hnone
    obtain ⟨mux, hmux⟩ := Option.isSome_iff_exists.mp hready.1
    obtain ⟨helper, hhelper⟩ := Option.isSome_iff_exists.mp hcap
    exact absurd hhelper (hnone mux helper hmux)

/-- A child that has exited needs no more; one that runs is waited for. -/
private theorem Good.turn_reaping {pids : List Nat} (h : s.Good t)
    (hphase : t.phase = .reaping pids) (c : Chance) : s.Carries t c := by
  have hknows := h.knows
  unfold Carries
  simp only [PixelPath.turn, hphase]
  simp only [Knows, hphase] at hknows
  obtain ⟨hready, hnodup⟩ := hknows
  cases pids with
  | nil => exact ⟨h.moves rfl rfl rfl (by simp [holds, hphase]) hready, by simp⟩
  | cons pid pids =>
    simp only
    split
    · -- it runs, and is waited for
      refine ⟨h.moves rfl rfl rfl (fun q hq => ?_) ⟨hready, hnodup⟩, by simp⟩
      simpa [holds, hphase] using hq
    · -- it has exited, so it is not among the living
      rename_i hruns
      refine ⟨h.of_children (fun q hq => ⟨alive_poll hq, fun hin => ?_⟩) (kindOf_poll pid) rfl
        rfl ⟨hready, ?_⟩, by simp⟩
      · -- the one that was polled needs no more hold
        simp only [holds, hphase, List.mem_cons] at hin ⊢
        refine hin.resolve_left ?_
        rintro rfl
        have halive := alive_poll hq
        -- the others are still different things
        rw [not_alive_of_not_runs (by simpa using hruns)] at halive
        cases halive
      · rw [List.map_congr_left fun q _ => kindOf_poll pid q]
        exact (List.nodup_cons.mp hnodup).2

/-- A child that does not go is killed. -/
private theorem Good.turn_awaiting {pid : Nat} {pids : List Nat} (h : s.Good t)
    (hphase : t.phase = .awaiting pid pids) (c : Chance) : s.Carries t c := by
  have hknows := h.knows
  unfold Carries
  simp only [PixelPath.turn, hphase]
  simp only [Knows, hphase] at hknows
  obtain ⟨hready, hnodup⟩ := hknows
  split
  · split
    · -- it is killed, and needs no more hold
      refine ⟨h.of_children (fun q hq => ⟨(alive_kill hq).1, fun hin => ?_⟩) (kindOf_kill pid)
        rfl rfl ⟨hready, ?_⟩, by simp⟩
      · simp only [holds, hphase, List.mem_cons] at hin ⊢
        exact hin.resolve_left (alive_kill hq).2
      · rw [List.map_congr_left fun q _ => kindOf_kill pid q]
        exact (List.nodup_cons.mp hnodup).2
    · exact ⟨h, by simp [hphase]⟩
  · -- it has exited meanwhile
    rename_i hruns
    refine ⟨h.of_children (fun q hq => ⟨alive_poll hq, fun hin => ?_⟩) (kindOf_poll pid) rfl
      rfl ⟨hready, ?_⟩, by simp⟩
    · simp only [holds, hphase, List.mem_cons] at hin ⊢
      refine hin.resolve_left ?_
      rintro rfl
      have halive := alive_poll hq
      rw [not_alive_of_not_runs (by simpa using hruns)] at halive
      cases halive
    · rw [List.map_congr_left fun q _ => kindOf_poll pid q]
      exact (List.nodup_cons.mp hnodup).2

/-- Past the children, none is left. -/
private theorem Good.turn_ended (h : s.Good t)
    (hphase : t.phase = .ended) (c : Chance) : s.Carries t c := by
  have hknows := h.knows
  unfold Carries
  simp only [PixelPath.turn, hphase]
  -- it has hold of nothing, and nothing is alive
  have hholds : ∀ pid, pid ∉ s.holds t := by simp [holds, hphase]
  simp only [Knows, hphase] at hknows
  obtain ⟨hproc, hcap⟩ := hknows
  split
  · exact ⟨h.moves rfl rfl rfl (fun pid hpid => absurd hpid (hholds pid)) trivial, by simp⟩
  · split
    · -- the helper was outdated, or both have ended
      rename_i hwork
      rw [hwork] at hcap
      simp only at hcap
      split
      · split
        · exact ⟨h.moves rfl rfl rfl (fun pid hpid => absurd hpid (hholds pid)) trivial, by simp⟩
        · split
          · exact ⟨h.moves rfl rfl rfl (fun pid hpid => absurd hpid (hholds pid)) trivial,
              by simp⟩
          · exact ⟨h.moves rfl rfl rfl (fun pid hpid => absurd hpid (hholds pid)) trivial,
              by simp⟩
      · rename_i hnone
        -- a readback has had both
        obtain ⟨mux, hmux⟩ := Option.isSome_iff_exists.mp hproc
        obtain ⟨helper, hhelper⟩ := Option.isSome_iff_exists.mp hcap
        exact absurd hhelper (hnone mux helper hmux)
    · exact ⟨h.moves rfl rfl rfl (fun pid hpid => absurd hpid (hholds pid)) trivial, by simp⟩
    · rename_i hnone
      simp [hnone] at hproc

/-- A step of the supervisor. -/
theorem Good.turn (h : s.Good t) (hlive : t.live = true) (c : Chance) : s.Carries t c := by
  cases hphase : t.phase with
  | checking => exact h.turn_checking hphase c
  | pausing => exact h.turn_pausing hphase c
  | building => exact h.turn_building hphase c
  | spawningHelper => exact h.turn_spawningHelper hphase c
  | bornHelper _ => exact h.turn_bornHelper hphase c
  | spawningMux => exact h.turn_spawningMux hphase c
  | bornMux _ => exact h.turn_bornMux hphase c
  | failed => exact h.turn_failed hphase c
  | watching => exact h.turn_watching hphase c
  | waitingFor _ => exact h.turn_waitingFor hphase c
  | left => exact h.turn_left hphase c
  | reaping _ => exact h.turn_reaping hphase c
  | awaiting _ _ => exact h.turn_awaiting hphase c
  | ended => exact h.turn_ended hphase c
  | done => simp [Supervisor.live, hphase] at hlive
  | crashed => simp [Supervisor.live, hphase] at hlive

/-- A supervisor that has returned has nothing left. -/
private theorem Good.none_alive (h : s.Good t) (hdead : t.live = false) (pid : Nat) :
    s.alive pid = false := by
  by_contra halive
  have := h.held pid (by simpa using halive)
  simp only [Supervisor.live, Bool.and_eq_false_iff, decide_eq_false_iff_not,
    Decidable.not_not] at hdead
  rcases hdead with hphase | hphase <;> simp [holds, hphase] at this

/-- What a step leaves to the other threads. -/
private theorem turn_rest (s : PixelPath) (t : Supervisor) (c : Chance) :
    (s.turn t c).1.supervisors = s.supervisors ∧ (s.turn t c).1.thread = s.thread ∧
      (s.turn t c).1.calls = s.calls ∧ (s.turn t c).1.stop = s.stop := by
  simp only [PixelPath.turn]
  repeat' split
  all_goals exact ⟨rfl, rfl, rfl, rfl⟩

end Turn

/-! ## The module -/

/-- What holds between the supervisors, the callers and the children. -/
structure Contained (s : PixelPath) : Prop where
  /-- The one supervisor that lives is in `_thread`. -/
  threads : ∀ (i : Nat) (t : Supervisor), s.supervisors[i]? = some t → t.live = true →
    s.thread = some i
  good : ∀ (i : Nat) (t : Supervisor), s.supervisors[i]? = some t → t.live = true → s.Good t
  dead : (∀ (i : Nat) (t : Supervisor), s.supervisors[i]? = some t → t.live = false) →
    ∀ pid, s.alive pid = false
  sound : ∀ (i : Nat) (t : Supervisor), s.supervisors[i]? = some t → t.phase ≠ .crashed
  procKind : ∀ pid, s.proc = some pid → s.kindOf pid = some .mux
  capKind : ∀ pid, s.capProc = some pid → s.kindOf pid = some .helper
  one : ∀ who who', s.calls who ≠ .idle → s.calls who' ≠ .idle → who = who'
  joins : ∀ who i, s.calls who = .joining i → s.thread = some i
  forgets : ∀ who, s.calls who = .forgetting → s.thread = none
  stops : ∀ who, s.calls who ≠ .idle → s.stop = true

/-- Without a thread no supervisor lives. -/
private theorem Contained.all_dead (h : s.Contained) (hthread : s.thread = none) (i : Nat)
    (t : Supervisor)
    (hi : s.supervisors[i]? = some t) : t.live = false := by
  by_contra hlive
  have := h.threads i t hi (by simpa using hlive)
  rw [hthread] at this
  cases this

/-- A supervisor's part holds on where no process comes to life and nothing that is stored changes.
    -/
private theorem Good.of_alive {s' : PixelPath} {t : Supervisor} (h : s.Good t)
    (halive : ∀ pid, s'.alive pid = true → s.alive pid = true)
    (hkind : ∀ pid, s'.kindOf pid = s.kindOf pid) (hproc : s'.proc = s.proc)
    (hcap : s'.capProc = s.capProc) : s'.Good t := by
  have hhelper : s'.helperOf t = s.helperOf t := by simp only [helperOf, hcap]
  have hholds : s'.holds t = s.holds t := by simp only [holds, hproc, hcap, hhelper]
  have hkinds : s'.kindOf = s.kindOf := funext hkind
  refine h.of_children (fun pid hpid => ⟨halive pid hpid, hholds ▸ id⟩) hkind hproc hcap ?_
  have hknows := h.knows
  simp only [Knows, Ready, hproc, hcap, hkinds] at hknows ⊢
  exact hknows

/-- Children come to no new life, and the calls go on. -/
theorem Contained.of_eq {s' : PixelPath} (h : s.Contained) (hsup : s'.supervisors = s.supervisors)
    (hthread : s'.thread = s.thread) (hproc : s'.proc = s.proc) (hcap : s'.capProc = s.capProc)
    (halive : ∀ pid, s'.alive pid = true → s.alive pid = true)
    (hkind : ∀ pid, s'.kindOf pid = s.kindOf pid)
    (hone : ∀ who who', s'.calls who ≠ .idle → s'.calls who' ≠ .idle → who = who')
    (hjoins : ∀ who i, s'.calls who = .joining i → s.thread = some i)
    (hforgets : ∀ who, s'.calls who = .forgetting → s.thread = none)
    (hstops : ∀ who, s'.calls who ≠ .idle → s'.stop = true) : s'.Contained where
  -- no supervisor has changed, and no process is new
  threads i t hi hlive := hthread.trans (h.threads i t (hsup ▸ hi) hlive)
  good i t hi hlive := (h.good i t (hsup ▸ hi) hlive).of_alive halive hkind hproc hcap
  dead hall pid := by
    by_contra hpid
    have := h.dead (fun i t hi => hall i t (hsup ▸ hi)) pid
    rw [halive pid (by simpa using hpid)] at this
    cases this
  sound i t hi := h.sound i t (hsup ▸ hi)
  procKind pid hpid := (hkind pid).trans (h.procKind pid (hproc ▸ hpid))
  capKind pid hpid := (hkind pid).trans (h.capKind pid (hcap ▸ hpid))
  -- the calls are as the hypotheses say
  one := hone
  joins who i hwho := hthread.trans (hjoins who i hwho)
  forgets who hwho := hthread.trans (hforgets who hwho)
  stops := hstops

/-- Something is done to a child. -/
theorem Contained.onChild (h : s.Contained) {f : Child → Child}
    (halive : ∀ c, (f c).alive = true → c.alive = true) (hkind : ∀ c, (f c).kind = c.kind)
    (pid : Nat) : (s.onChild pid f).Contained :=
  h.of_eq rfl rfl rfl rfl (fun _ hq => alive_onChild halive hq) (kindOf_onChild hkind pid)
    h.one h.joins h.forgets h.stops

/-- A poll can only end a process. -/
theorem Contained.poll (h : s.Contained) (pid : Nat) : (s.poll pid).Contained :=
  h.onChild (f := fun c => { c with returncode := c.exit }) (fun _ hc => hc) (fun _ => rfl) pid

/-- So can a kill. -/
theorem Contained.kill (h : s.Contained) (pid : Nat) : (s.kill pid).Contained :=
  h.onChild (f := fun c => { c with killed := true }) (fun c hc => by simp [Child.alive] at hc)
    (fun _ => rfl) pid

/-- A supervisor that has returned does nothing. -/
private theorem Contained.supervise_dead (h : s.Contained) {i : Nat} {t : Supervisor}
    (hi : s.supervisors[i]? = some t) (hdead : t.live = false) (c : Chance) :
    s.supervise i c = s := by
  have hdone : t.phase = .done := by
    have := h.sound i t hi
    simp only [Supervisor.live, Bool.and_eq_false_iff, decide_eq_false_iff_not,
      Decidable.not_not] at hdead
    exact hdead.resolve_right this
  have hset : s.supervisors.set i t = s.supervisors := by
    obtain ⟨hlt, rfl⟩ := List.getElem?_eq_some_iff.mp hi
    exact List.set_getElem_self hlt
  simp only [PixelPath.supervise, hi, PixelPath.turn, hdone, hset]

/-- A supervisor goes on. -/
theorem Contained.supervise (h : s.Contained) (i : Nat) (c : Chance) :
    (s.supervise i c).Contained := by
  cases hi : s.supervisors[i]? with
  | none =>
    simp only [PixelPath.supervise, hi]
    exact h
  | some t =>
    cases hlive : t.live with
    | false =>
      rw [h.supervise_dead hi hlive]
      exact h
    | true =>
      simp only [PixelPath.supervise, hi]
      -- the one that lives is the thread that is stored
      have hth := h.threads i t hi hlive
      obtain ⟨hgood, hsound⟩ := (h.good i t hi hlive).turn hlive c
      obtain ⟨-, hthread, hcalls, hstop⟩ := s.turn_rest t c
      generalize s.turn t c = r at hgood hsound hthread hcalls hstop
      have hgood' : PixelPath.Good { r.1 with supervisors := s.supervisors.set i r.2 } r.2 :=
        hgood.of_alive (fun _ hq => hq) (fun _ => rfl) rfl rfl
      have hlt : i < s.supervisors.length := (List.getElem?_eq_some_iff.mp hi).1
      -- so no other supervisor lives, before or after
      have hother : ∀ (j : Nat) (t' : Supervisor), (s.supervisors.set i r.2)[j]? = some t' →
          t'.live = true → j = i ∧ t' = r.2 := by
        intro j t' hj hlive'
        by_cases hji : i = j
        · rw [← hji, List.getElem?_set_self hlt] at hj
          exact ⟨hji.symm, (Option.some.inj hj).symm⟩
        · rw [List.getElem?_set_ne hji] at hj
          have := h.threads j t' hj hlive'
          rw [hth] at this
          exact absurd (Option.some.inj this) hji
      refine ⟨fun j t' hj hlive' => ?_, fun j t' hj hlive' => ?_, fun hall pid => ?_,
        fun j t' hj => ?_, hgood'.procKind, hgood'.capKind, ?_, ?_, ?_, ?_⟩
      · -- the thread that is stored is as it was
        obtain ⟨rfl, -⟩ := hother j t' hj hlive'
        exact hthread.trans hth
      · -- the one that moved is good by its own lemma
        obtain ⟨-, rfl⟩ := hother j t' hj hlive'
        exact hgood'
      · -- and once it is gone no child is alive
        exact hgood'.none_alive (hall i r.2 (List.getElem?_set_self hlt)) pid
      · by_cases hji : i = j
        · rw [← hji, List.getElem?_set_self hlt] at hj
          exact Option.some.inj hj ▸ hsound
        · rw [List.getElem?_set_ne hji] at hj
          exact h.sound j t' hj
      · simp only [hcalls]
        exact h.one
      · -- calls are left where they are
        simp only [hcalls]
        exact fun who j hwho => hthread.trans (h.joins who j hwho)
      · simp only [hcalls]
        exact fun who hwho => hthread.trans (h.forgets who hwho)
      · simp only [hcalls]
        exact fun who hwho => hstop.trans (h.stops who hwho)

/-! ## The calls -/

/-- Calls of `start` and `stop` come one after the other, and a `join` waits until the thread has
    returned. -/
def Serial (s : PixelPath) : Act → Prop
  | .callStop _ | .start _ _ => ∀ who, s.calls who = .idle
  | .joinTimesOut _ => False
  | _ => True

/-- The caller is the only one that is not idle. -/
private theorem eq_of_setCall (s : PixelPath) {who w : Caller} {phase : CallPhase}
    (hwho : ∀ w, w ≠ who → s.calls w = .idle) (hw : (s.setCall who phase).calls w ≠ .idle) :
    w = who := by
  by_contra hne
  simp only [PixelPath.setCall, Function.update_of_ne hne] at hw
  exact hw (hwho w hne)

/-- A call goes on, and no other is under way. -/
theorem Contained.setCall (h : s.Contained) {who : Caller} (hwho : ∀ w, w ≠ who → s.calls w = .idle)
    (hstop : s.stop = true) {phase : CallPhase}
    (hjoins : ∀ i, phase = .joining i → s.thread = some i)
    (hforgets : phase = .forgetting → s.thread = none) : (s.setCall who phase).Contained := by
  have hself : (s.setCall who phase).calls who = phase := Function.update_self ..
  have hidle : ∀ w, (s.setCall who phase).calls w ≠ .idle → w = who :=
    fun _ => s.eq_of_setCall hwho
  refine h.of_eq rfl rfl rfl rfl (fun _ hq => hq) (fun _ => rfl) (fun w w' hw hw' => ?_)
    (fun w i hw => ?_) (fun w hw => ?_) (fun _ _ => hstop)
  · rw [hidle w hw, hidle w' hw']
  · obtain rfl := hidle w (by simp [hw])
    exact hjoins i (hself.symm.trans hw)
  · obtain rfl := hidle w (by simp [hw])
    exact hforgets (hself.symm.trans hw)

/-- A call that is under way is the only one. -/
private theorem Contained.others_idle (h : s.Contained) {who : Caller} (hwho : s.calls who ≠ .idle)
    (w : Caller) (hw : w ≠ who) : s.calls w = .idle := by
  by_contra hne
  exact hw (h.one w who hne hwho)

/-- `stop` goes on. -/
theorem Contained.goOn (h : s.Contained) (who : Caller) (timesOut : Bool) :
    (s.goOn who timesOut).Contained := by
  by_cases hunder : s.calls who = .idle
  · simp only [PixelPath.goOn, hunder]
    exact h
  -- the calls do not overlap, so the others are idle
  have hothers := h.others_idle hunder
  have hstop := h.stops who hunder
  simp only [PixelPath.goOn]
  cases hcall : s.calls who with
  | idle => exact absurd hcall hunder
  | stopping => exact h.setCall hothers hstop (by simp) (by simp)
  | killing pids =>
    cases pids with
    | nil =>
      simp only
      split
      · -- the thread is there to be joined, or none was
        rename_i i hthread
        exact h.setCall hothers hstop (fun j hj => CallPhase.joining.inj hj ▸ hthread) (by simp)
      · rename_i hthread
        exact h.setCall hothers hstop (by simp) fun _ => hthread
    | cons pid pids =>
      simp only
      -- a child that has exited needs no signal
      split
      · exact h.setCall hothers hstop (by simp) (by simp)
      · exact (h.poll pid).setCall hothers hstop (by simp) (by simp)
  | awaiting pid pids =>
    simp only
    split
    · split
      · -- a child that does not go is killed
        exact (h.kill pid).setCall hothers hstop (by simp) (by simp)
      · exact h
    · exact (h.poll pid).setCall hothers hstop (by simp) (by simp)
  | joining i =>
    simp only
    split
    · rename_i hjoined
      -- the one that was joined was the last alive
      have hdead : ∀ (j : Nat) (t : Supervisor), s.supervisors[j]? = some t → t.live = false := by
        intro j t hj
        by_contra hlive
        have hth := h.threads j t hj (by simpa using hlive)
        rw [h.joins who i hcall] at hth
        obtain rfl := Option.some.inj hth
        simp [joined, hj, hlive] at hjoined
      have hidle : ∀ w, (s.setCall who .forgetting).calls w ≠ .idle → w = who :=
        fun _ => s.eq_of_setCall hothers
      refine ⟨fun j t hj hlive => absurd hlive (by simp [hdead j t hj]),
        fun j t hj hlive => absurd hlive (by simp [hdead j t hj]), fun _ => h.dead hdead, h.sound,
        h.procKind, h.capKind, fun w w' hw hw' => ?_, fun w j hw => ?_, fun _ _ => rfl,
        fun _ _ => hstop⟩
      · -- the call that is under way is this one
        rw [hidle w hw, hidle w' hw']
      · have hw' : (s.setCall who .forgetting).calls w = .joining j := hw
        obtain rfl := hidle w (by simp [hw'])
        simp [PixelPath.setCall] at hw'
    · exact h
  | forgetting =>
    -- with no supervisor alive no child is, so both can be forgotten
    have hdead := h.all_dead (h.forgets who hcall)
    have hforgotten : Contained { s with proc := none, capProc := none } :=
      ⟨h.threads, fun i t hi hlive => absurd hlive (by simp [hdead i t hi]),
        h.dead, h.sound, by simp, by simp, h.one, h.joins, h.forgets, h.stops⟩
    exact hforgotten.setCall hothers hstop (by simp) (by simp)

/-- `start`. -/
theorem Contained.start (h : s.Contained) (hidle : ∀ who, s.calls who = .idle) (a : PixelStart) :
    (s.start a).Contained := by
  simp only [PixelPath.start]
  split
  · exact h
  · rename_i hthread
    have hnone : s.thread = none := by simpa using hthread
    -- no thread is stored, so no supervisor lives
    have hdead := h.all_dead hnone
    have hnew : ∀ (status : PixelStatus) (source : PixelSource) (work : PixelWork),
        Contained { s with
          stop := false
          ringName := a.ringName
          thread := some s.supervisors.length
          status := status
          source := source
          supervisors := s.supervisors ++ [{ work := work }] } := by
      intro status source work
      -- the new one comes last
      have hlast : ∀ (i : Nat) (t : Supervisor),
          (s.supervisors ++ [({ work := work } : Supervisor)])[i]? = some t →
          s.supervisors[i]? = some t ∨ i = s.supervisors.length ∧ t = { work := work } := by
        intro i t hi
        rcases Nat.lt_or_ge i s.supervisors.length with hlt | hge
        · exact .inl (by rwa [List.getElem?_append_left hlt] at hi)
        · rw [List.getElem?_append_right hge] at hi
          have hzero : i - s.supervisors.length < 1 := by
            by_contra hbig
            rw [List.getElem?_eq_none (by simp; omega)] at hi
            cases hi
          have : i = s.supervisors.length := by omega
          subst this
          simpa using hi.symm
      refine ⟨fun i t hi hlive => ?_, fun i t hi hlive => ?_, fun _ => h.dead hdead,
        fun i t hi => ?_, h.procKind, h.capKind, by simp [hidle], by simp [hidle], by simp [hidle],
        by simp [hidle]⟩
      · -- an old one does not live, and the new one is stored
        rcases hlast i t hi with hold | ⟨rfl, -⟩
        · rw [hdead i t hold] at hlive
          cases hlive
        · rfl
      · -- the new one has hold of nothing, for nothing is alive
        rcases hlast i t hi with hold | ⟨-, rfl⟩
        · rw [hdead i t hold] at hlive
          cases hlive
        · refine ⟨fun pid hpid => ?_, trivial, h.procKind, h.capKind⟩
          have hpid' : s.alive pid = true := hpid
          rw [h.dead hdead pid] at hpid'
          cases hpid'
      · -- it begins where every supervisor does
        rcases hlast i t hi with hold | ⟨-, rfl⟩
        · exact h.sound i t hold
        · simp
    split
    · exact hnew _ _ _
    · exact hnew _ _ _

/-- One action. -/
theorem Contained.step (h : s.Contained) {act : Act} (hact : s.Serial act) :
    (s.step act).Contained := by
  cases act with
  | supervise i c => exact h.supervise i c
  | callStop who =>
    simp only [PixelPath.step, PixelPath.callStop]
    split
    · -- from here on the supervisors are told to stop
      have hstopped : Contained { s with stop := true } :=
        h.of_eq rfl rfl rfl rfl (fun _ hq => hq) (fun _ => rfl) h.one h.joins h.forgets
          fun _ _ => rfl
      exact hstopped.setCall (fun w _ => hact w) rfl (by simp) (by simp)
    · exact h
  | goOn who timesOut => exact h.goOn who timesOut
  | joinTimesOut who => exact hact.elim
  | start who a =>
    simp only [PixelPath.step]
    split
    · exact h.start hact a
    · exact h
  | restartRing name =>
    exact h.of_eq rfl rfl rfl rfl (fun _ hq => hq) (fun _ => rfl) h.one h.joins h.forgets h.stops
  -- an exit ends one child and makes it no other kind
  | exit pid code =>
    refine h.onChild (fun c hc => ?_) (fun c => ?_) pid
    · split at hc
      · simp [Child.alive] at hc
      · exact hc
    · split <;> rfl
  | killStuck pid => exact h.kill pid

/-- At the start there is no process. -/
private theorem contained_start : Contained {} :=
  ⟨by simp, by simp, by simp [alive], by simp, by simp, by simp, by simp, by simp, by simp, by simp⟩

/-- However the threads and the children take their turns. -/
private theorem contained_run {acts : List Act} (hacts : Along step Serial {} acts) :
    (run acts).Contained :=
  hacts.invariant (fun _ _ h hact => h.step hact) contained_start

/-- The children that a supervisor has hold of were spawned as different things. -/
private theorem Good.kinds_nodup {t : Supervisor} (h : s.Good t) :
    ((s.holds t).map s.kindOf).Nodup := by
  have hknows := h.knows
  have hproc : ∀ mux ∈ s.proc, s.kindOf mux = some .mux := h.procKind
  have hcap : ∀ helper ∈ s.capProc, s.kindOf helper = some .helper := h.capKind
  -- what is held as a helper was spawned as one
  have hhelper : ∀ pid ∈ s.helperOf t, s.kindOf pid = some .helper := by
    intro pid hpid
    simp only [helperOf] at hpid
    split at hpid
    · exact hcap pid (Option.mem_toList.mp hpid)
    · cases hpid
  -- there is one helper at most
  have hone : ((s.helperOf t).map s.kindOf).Nodup := by
    simp only [helperOf]
    split
    · cases s.capProc <;> simp
    · exact List.nodup_nil
  -- a mux is no helper
  have htwo : ∀ mux, s.kindOf mux = some .mux →
      (s.kindOf mux :: (s.helperOf t).map s.kindOf).Nodup := by
    intro mux hmux
    refine List.nodup_cons.mpr ⟨fun hmem => ?_, hone⟩
    obtain ⟨pid, hpid, heq⟩ := List.mem_map.mp hmem
    rw [hhelper pid hpid, hmux] at heq
    cases heq
  have hboth : ((s.proc.toList ++ s.helperOf t).map s.kindOf).Nodup := by
    cases hmux : s.proc with
    | none => exact hone
    | some mux => exact htwo mux (hproc mux hmux)
  -- a phase has hold of a mux, a helper or both
  cases hphase : t.phase with
  | bornMux pid =>
    simp only [Knows, hphase] at hknows
    simpa only [holds, hphase, List.map_cons] using htwo pid hknows.1
  | failed =>
    simp only [holds, hphase]
    cases s.capProc <;> simp
  | spawningMux => simpa only [holds, hphase] using hone
  | watching => simpa only [holds, hphase] using hboth
  | left => simpa only [holds, hphase] using hboth
  | reaping pids =>
    simp only [Knows, hphase] at hknows
    simpa only [holds, hphase] using hknows.2
  | awaiting pid pids =>
    simp only [Knows, hphase] at hknows
    simpa only [holds, hphase] using hknows.2
  | _ => simp [holds, hphase]

/-- The supervisor is at the head of its loop. -/
def between (t : Supervisor) : Bool :=
  match t.phase with
  | .checking | .pausing | .building | .spawningHelper | .ended => true
  | _ => false

/-- In every run of `start` and `stop` one after the other, whatever the children do and the threads
    find at whichever moment: at most one supervisor lives and none has crashed; of each kind at
    most one child runs, and none between two spawns; and none at all once `stop` has joined. -/
theorem run_contained {acts : List Act} (hacts : Along step Serial {} acts) :
    (∀ (i j : Nat) (t t' : Supervisor), (run acts).supervisors[i]? = some t →
      (run acts).supervisors[j]? = some t' → t.live = true → t'.live = true → i = j) ∧
    (∀ (i : Nat) (t : Supervisor), (run acts).supervisors[i]? = some t → t.phase ≠ .crashed) ∧
    (∀ pid pid', (run acts).alive pid = true → (run acts).alive pid' = true →
      (run acts).kindOf pid = (run acts).kindOf pid' → pid = pid') ∧
    (∀ (i : Nat) (t : Supervisor), (run acts).supervisors[i]? = some t → between t = true →
      ∀ pid, (run acts).alive pid = false) ∧
    ((run acts).thread = none → ∀ pid, (run acts).alive pid = false) := by
  have h := contained_run hacts
  generalize run acts = s at h
  refine ⟨fun i j t t' hi hj hlive hlive' => ?_, h.sound, fun pid pid' hpid hpid' hkind => ?_,
    fun i t hi hbetween pid => ?_, fun hthread => h.dead (h.all_dead hthread)⟩
  · have hth := h.threads i t hi hlive
    rw [h.threads j t' hj hlive'] at hth
    exact (Option.some.inj hth).symm
  · -- a supervisor lives, since a child does
    by_cases hall : ∀ (i : Nat) (t : Supervisor), s.supervisors[i]? = some t → t.live = false
    · rw [h.dead hall pid] at hpid
      cases hpid
    · simp only [not_forall] at hall
      obtain ⟨i, t, hi, hlive⟩ := hall
      have hgood := h.good i t hi (by simpa using hlive)
      exact List.inj_on_of_nodup_map hgood.kinds_nodup (hgood.held pid hpid)
        (hgood.held pid' hpid') hkind
  · have hlive : t.live = true := by
      cases hphase : t.phase <;> simp_all [between, Supervisor.live]
    by_contra hpid
    have := (h.good i t hi hlive).held pid (by simpa using hpid)
    cases hphase : t.phase <;> simp_all [between, holds]

/-- The supervisor has just spawned the helper when `stop` is called, which does not see it. -/
def stoppedBetween : List Act :=
  [.start .main { source := .readback, helper := some "qcb-encode-mac", ringName := some "qcb-1" },
    .supervise 0 {}, .supervise 0 {}, .supervise 0 {}, .callStop .main, .goOn .main false]

/-- In that run the calls come one after the other. -/
private theorem serial_stoppedBetween : Along step Serial {} stoppedBetween :=
  ⟨fun _ => rfl, trivial, trivial, trivial, fun _ => rfl, trivial, trivial⟩

/-- The helper that was started second is the only one of its kind that is alive. -/
theorem run_contained_between :
    (run stoppedBetween).alive 0 = true ∧ ∀ pid, (run stoppedBetween).alive pid = true →
      (run stoppedBetween).kindOf pid = (run stoppedBetween).kindOf 0 → pid = 0 :=
  ⟨by decide, fun pid hpid => (run_contained serial_stoppedBetween).2.2.1 pid 0 hpid (by decide)⟩

/-! ## `stop` returns -/

/-- How many steps a supervisor of a helper is away from its end, once the event is set. -/
def phaseLoad : SupervisorPhase → Nat
  | .done | .crashed => 0
  | .checking | .ended | .failed => 1
  | .pausing | .waitingFor _ => 2
  | .reaping pids => 2 + 2 * pids.length
  | .awaiting _ pids => 3 + 2 * pids.length
  | .left => 7
  | .watching => 8
  | .bornMux _ => 9
  | .spawningMux => 10
  | .bornHelper _ => 11
  | .spawningHelper => 12
  | .building => 13

/-- How many steps a call of `stop` is away from its end. -/
def callLoad : CallPhase → Nat
  | .idle => 0
  | .forgetting => 1
  | .joining _ => 2
  | .killing pids => 3 + 2 * pids.length
  | .awaiting _ pids => 4 + 2 * pids.length
  | .stopping => 8

/-- The supervisor runs the helper. -/
def Native (t : Supervisor) : Prop := ∃ helper params cmd, t.work = .readback helper params cmd

/-- A supervisor's turn leaves it its work. -/
private theorem turn_work (s : PixelPath) (t : Supervisor) (c : Chance) :
    (s.turn t c).2.work = t.work := by
  simp only [PixelPath.turn]
  repeat' split
  all_goals rfl

/-- Once the event is set a supervisor waits or comes nearer to its end, and it does not wait for
    good. -/
private theorem turn_phaseLoad {t : Supervisor} (h : s.Good t) (hlive : t.live = true)
    (hnative : Native t)
    (hstop : s.stop = true) (c : Chance) :
    ((s.turn t c).2.phase = t.phase ∨ phaseLoad (s.turn t c).2.phase < phaseLoad t.phase) ∧
      (c.timesOut = true → phaseLoad (s.turn t c).2.phase < phaseLoad t.phase) := by
  obtain ⟨helper, params, cmd, hwork⟩ := hnative
  -- a turn that leaves the phase is one of a wait that has not run out
  suffices (s.turn t c).2.phase = t.phase ∧ c.timesOut = false ∨
      phaseLoad (s.turn t c).2.phase < phaseLoad t.phase by
    rcases this with ⟨hsame, hc⟩ | hlt
    · exact ⟨.inl hsame, by simp [hc]⟩
    · exact ⟨.inr hlt, fun _ => hlt⟩
  simp only [PixelPath.turn, hstop, hwork, if_true]
  cases hphase : t.phase with
  | done | crashed => simp [Supervisor.live, hphase] at hlive
  -- only a screen waits for its child, and this is a readback
  | waitingFor pid =>
    have hknows := h.knows
    simp only [Knows, hphase] at hknows
    obtain ⟨-, -, cmd', hscreen⟩ := hknows
    rw [hwork] at hscreen
    cases hscreen
  | awaiting pid pids =>
    simp only
    split
    · cases htime : c.timesOut with
      | false => exact .inl ⟨by simp [hphase], rfl⟩
      | true => exact .inr (by simp [phaseLoad])
    · exact .inr (by simp [phaseLoad])
  -- one child less
  | reaping pids =>
    refine .inr ?_
    cases pids with
    | nil => simp [phaseLoad]
    | cons pid pids =>
      simp only
      split <;> simp only [phaseLoad, List.length_cons] <;> omega
  | _ =>
    refine .inr ?_
    simp only
    repeat' split
    all_goals simp [phaseLoad]

/-- A call of `start` or `stop` that goes on neither starts nor moves a supervisor. -/
private theorem goOn_supervisors (s : PixelPath) (who : Caller) (timesOut : Bool) :
    (s.goOn who timesOut).supervisors = s.supervisors := by
  simp only [PixelPath.goOn]
  repeat' split
  all_goals rfl

/-- And it leaves the event that tells them to stop as it is. -/
private theorem goOn_stop (s : PixelPath) (who : Caller) (timesOut : Bool) :
    (s.goOn who timesOut).stop = s.stop := by
  simp only [PixelPath.goOn]
  repeat' split
  all_goals rfl

/-- Another caller's place is its own. -/
private theorem goOn_other (s : PixelPath) {who w : Caller} (hw : w ≠ who) (timesOut : Bool) :
    (s.goOn w timesOut).calls who = s.calls who := by
  simp only [PixelPath.goOn]
  repeat' split
  all_goals first | rfl | exact Function.update_of_ne hw.symm _ _

/-- The thread is there, or was joined. -/
private theorem goOn_thread (s : PixelPath) (who : Caller) (timesOut : Bool) :
    (s.goOn who timesOut).thread = s.thread ∨ (s.goOn who timesOut).thread = none := by
  simp only [PixelPath.goOn]
  repeat' split
  all_goals first | exact .inl rfl | exact .inr rfl

/-- A call ends when it has forgotten the children. -/
private theorem goOn_idle (s : PixelPath) {who w : Caller} {timesOut : Bool}
    (h : (s.goOn w timesOut).calls who = .idle) :
    s.calls who = .idle ∨ s.calls who = .forgetting := by
  by_cases hw : w = who
  · rw [hw] at h
    simp only [PixelPath.goOn] at h
    cases hcall : s.calls who with
    | idle => exact .inl rfl
    | forgetting => exact .inr rfl
    | _ =>
      rw [hcall] at h
      repeat' split at h
      all_goals simp_all [setCall]
  · exact .inl (s.goOn_other hw timesOut ▸ h)

/-- A call of `stop` waits or comes nearer to its end, and it does not wait for good once no
    supervisor lives. -/
private theorem goOn_callLoad (s : PixelPath) (who : Caller) (timesOut : Bool) :
    ((s.goOn who timesOut).calls who = s.calls who ∨
      callLoad ((s.goOn who timesOut).calls who) < callLoad (s.calls who)) ∧
    (timesOut = true → s.calls who ≠ .idle →
      (∀ (i : Nat) (t : Supervisor), s.supervisors[i]? = some t → t.live = false) →
      callLoad ((s.goOn who timesOut).calls who) < callLoad (s.calls who)) := by
  have hset : ∀ (s : PixelPath) phase, (s.setCall who phase).calls who = phase :=
    fun s phase => Function.update_self ..
  simp only [PixelPath.goOn]
  cases hcall : s.calls who with
  | idle => exact ⟨.inl hcall, fun _ hne => absurd rfl hne⟩
  | stopping =>
    -- there were two children at most
    have hfalls : callLoad (.killing (s.proc.toList ++ s.capProc.toList)) < callLoad .stopping := by
      simp only [callLoad, List.length_append, Option.length_toList]
      cases s.proc <;> cases s.capProc <;> simp
    simp only [hset]
    exact ⟨.inr hfalls, fun _ _ _ => hfalls⟩
  | killing pids =>
    cases pids with
    | nil =>
      simp only
      split
      all_goals
        simp only [hset]
        exact ⟨.inr (by simp [callLoad]), fun _ _ _ => by simp [callLoad]⟩
    | cons pid pids =>
      simp only
      split
      all_goals
        simp only [hset, callLoad, List.length_cons]
        exact ⟨.inr (by omega), fun _ _ _ => by omega⟩
  | awaiting pid pids =>
    simp only
    split
    · -- while it waits nothing falls, unless time runs out
      cases timesOut with
      | false => exact ⟨.inl hcall, fun h => by cases h⟩
      | true =>
        simp only [if_true, hset, callLoad]
        exact ⟨.inr (by omega), fun _ _ _ => by omega⟩
    · simp only [hset, callLoad]
      exact ⟨.inr (by omega), fun _ _ _ => by omega⟩
  | joining i =>
    simp only
    split
    · simp only [hset]
      exact ⟨.inr (by simp [callLoad]), fun _ _ _ => by simp [callLoad]⟩
    · -- with no supervisor alive the join is over
      rename_i hjoined
      refine ⟨.inl hcall, fun _ _ hdead => absurd ?_ hjoined⟩
      simp only [joined]
      cases hi : s.supervisors[i]? with
      | none => rfl
      | some t => simp [hdead i t hi]
  | forgetting =>
    simp only [hset]
    exact ⟨.inr (by simp [callLoad]), fun _ _ _ => by simp [callLoad]⟩

/-- Nobody calls `start` or `stop`, and a `join` waits. -/
def Calm : Act → Prop
  | .callStop _ | .start _ _ | .joinTimesOut _ => False
  | _ => True

/-- While nobody calls, calls do not overlap. -/
private theorem Calm.serial {act : Act} (hact : Calm act) : s.Serial act := by
  cases act <;> trivial

/-- A call of `stop` is under way or has returned. -/
structure Ending (who : Caller) (s : PixelPath) : Prop where
  contained : s.Contained
  stopped : s.stop = true
  native : ∀ (i : Nat) (t : Supervisor), s.supervisors[i]? = some t → t.live = true → Native t
  joined : s.calls who = .idle → s.thread = none

/-- Where the supervisors are, and the call. -/
def phases (who : Caller) (s : PixelPath) : List SupervisorPhase × CallPhase :=
  (s.supervisors.map Supervisor.phase, s.calls who)

/-- How far they all are from their ends. -/
def phasesLoad (v : List SupervisorPhase × CallPhase) : Nat := weigh phaseLoad v.1 + callLoad v.2

/-- A step of a supervisor. -/
theorem Ending.supervise {who : Caller} (h : s.Ending who) (i : Nat) (c : Chance) :
    (s.supervise i c).Ending who ∧
      ((s.supervise i c).phases who = s.phases who ∨
        phasesLoad ((s.supervise i c).phases who) < phasesLoad (s.phases who)) ∧
      (c.timesOut = true → (∃ t, s.supervisors[i]? = some t ∧ t.live = true) →
        phasesLoad ((s.supervise i c).phases who) < phasesLoad (s.phases who)) := by
  have hcontained := h.contained.supervise i c
  cases hi : s.supervisors[i]? with
  | none =>
    -- there is no such supervisor
    have hsame : s.supervise i c = s := by simp only [PixelPath.supervise, hi]
    rw [hsame]
    exact ⟨h, .inl rfl, by simp⟩
  | some t =>
    cases hlive : t.live with
    | false =>
      rw [h.contained.supervise_dead hi hlive]
      exact ⟨h, .inl rfl, by simp [hlive]⟩
    | true =>
      have hnative := h.native i t hi hlive
      obtain ⟨hor, hfalls⟩ :=
        turn_phaseLoad (h.contained.good i t hi hlive) hlive hnative h.stopped c
      obtain ⟨-, hthread, hcalls, hstop⟩ := s.turn_rest t c
      have hwork := s.turn_work t c
      simp only [PixelPath.supervise, hi] at hcontained ⊢
      generalize s.turn t c = r at *
      have hphase : (s.supervisors.map Supervisor.phase)[i]? = some t.phase := by simp [hi]
      -- the others' phases are as they were
      have hlt : phaseLoad r.2.phase < phaseLoad t.phase →
          phasesLoad (phases who { r.1 with supervisors := s.supervisors.set i r.2 }) <
            phasesLoad (s.phases who) := fun hlt => by
        simp only [phasesLoad, phases, List.map_set, hcalls]
        exact Nat.add_lt_add_right (weigh_set_lt hphase hlt) _
      refine ⟨⟨hcontained, hstop.trans h.stopped, fun j t' hj hlive' => ?_, fun hidle => ?_⟩,
        hor.imp (fun hsame => ?_) hlt, fun htime _ => hlt (hfalls htime)⟩
      · -- the work stays what it was
        have hin : i < s.supervisors.length := (List.getElem?_eq_some_iff.mp hi).1
        by_cases hji : i = j
        · rw [← hji, List.getElem?_set_self hin] at hj
          obtain rfl := Option.some.inj hj
          simpa only [Native, hwork] using hnative
        · rw [List.getElem?_set_ne hji] at hj
          exact h.native j t' hj hlive'
      · exact hthread.trans (h.joined (hcalls ▸ hidle))
      · -- its phase did not move, nor did any other
        obtain ⟨hin, heq⟩ := List.getElem?_eq_some_iff.mp hphase
        simp only [phases, List.map_set, hcalls, hsame, ← heq, List.set_getElem_self]

/-- Whatever happens, all but what is waited for comes nearer to its end. -/
theorem Ending.step {who : Caller} (h : s.Ending who) {act : Act} (hact : Calm act) :
    (s.step act).Ending who ∧ ((s.step act).phases who = s.phases who ∨
      phasesLoad ((s.step act).phases who) < phasesLoad (s.phases who)) := by
  have hcontained := h.contained.step hact.serial
  cases act with
  | supervise i c => exact ⟨(h.supervise i c).1, (h.supervise i c).2.1⟩
  | goOn w timesOut =>
    have hsup := s.goOn_supervisors w timesOut
    have hended : (s.goOn w timesOut).Ending who :=
      ⟨hcontained, (s.goOn_stop w timesOut).trans h.stopped,
        fun i t hi => h.native i t (hsup ▸ hi), fun hidle => by
          rcases s.goOn_thread w timesOut with heq | hnone
          · refine heq.trans ?_
            rcases s.goOn_idle hidle with hbefore | hforgetting
            · exact h.joined hbefore
            · exact h.contained.forgets who hforgetting
          · exact hnone⟩
    refine ⟨hended, ?_⟩
    simp only [PixelPath.step, phases, phasesLoad, hsup]
    -- the call's own load falls, or the call is another's
    by_cases hw : w = who
    · rw [hw]
      refine (s.goOn_callLoad who timesOut).1.imp (fun heq => by rw [heq]) fun hlt => ?_
      exact Nat.add_lt_add_left hlt _
    · exact .inl (by rw [s.goOn_other hw])
  | restartRing name => exact ⟨⟨hcontained, h.stopped, h.native, h.joined⟩, .inl rfl⟩
  | exit pid code => exact ⟨⟨hcontained, h.stopped, h.native, h.joined⟩, .inl rfl⟩
  | killStuck pid => exact ⟨⟨hcontained, h.stopped, h.native, h.joined⟩, .inl rfl⟩
  | _ => exact hact.elim

/-- Who goes on, a supervisor or the caller, and does not wait any longer. -/
def MovesOn (who : Caller) : Option Nat → Act → Prop
  | some i, act => ∃ c, act = .supervise i c ∧ c.timesOut = true
  | none, act => act = .goOn who true

/-- A supervisor stays one, with its liveness, where nothing of its phase changes. -/
private theorem exists_live_of_phases {who : Caller} {s' : PixelPath}
    (h : s'.phases who = s.phases who)
    {i : Nat} {t : Supervisor} (hi : s.supervisors[i]? = some t) :
    ∃ t', s'.supervisors[i]? = some t' ∧ t'.live = t.live := by
  have hmap : s'.supervisors.map Supervisor.phase = s.supervisors.map Supervisor.phase :=
    congrArg Prod.fst h
  have hphase : (s'.supervisors.map Supervisor.phase)[i]? = some t.phase := by
    rw [hmap, List.getElem?_map, hi]
    rfl
  rw [List.getElem?_map] at hphase
  obtain ⟨t', hi', heq⟩ := Option.map_eq_some_iff.mp hphase
  exact ⟨t', hi', by simp only [Supervisor.live, heq]⟩

/-- As long as the call is under way one of the two can go on. -/
theorem Ending.exists_mover {who : Caller} (hwho : s.calls who ≠ .idle) :
    ∃ mover, ∀ s' : PixelPath, s'.Ending who → s'.phases who = s.phases who →
      ∀ act, MovesOn who mover act →
        phasesLoad ((s'.step act).phases who) < phasesLoad (s'.phases who) := by
  by_cases hdead : ∀ (i : Nat) (t : Supervisor), s.supervisors[i]? = some t → t.live = false
  · -- the call finds every supervisor at its end
    refine ⟨none, fun s' h' hsame act hact => ?_⟩
    obtain rfl : act = .goOn who true := hact
    have hcall : s'.calls who ≠ .idle := by
      rw [show s'.calls who = s.calls who from congrArg Prod.snd hsame]
      exact hwho
    have hdead' : ∀ (i : Nat) (t : Supervisor), s'.supervisors[i]? = some t → t.live = false := by
      intro i t hi
      obtain ⟨t', hi', heq⟩ := exists_live_of_phases hsame.symm hi
      exact heq.symm.trans (hdead i t' hi')
    have hfalls := (s'.goOn_callLoad who true).2 rfl hcall hdead'
    simp only [PixelPath.step, phases, phasesLoad, s'.goOn_supervisors]
    exact Nat.add_lt_add_left hfalls _
  · simp only [not_forall] at hdead
    obtain ⟨i, t, hi, hlive⟩ := hdead
    refine ⟨some i, fun s' h' hsame act hact => ?_⟩
    obtain ⟨c, rfl, htime⟩ := hact
    obtain ⟨t', hi', heq⟩ := exists_live_of_phases hsame hi
    exact (h'.supervise i c).2.2 htime ⟨t', hi', heq.trans (by simpa using hlive)⟩

/-- Once `stop` is called on the pixel path of a helper it returns, if nobody calls `start` or
    `stop` meanwhile and the waits of the two threads time out; then nothing runs. -/
theorem stop_returns {acts : List Act} (hacts : Along step Serial {} acts) {who : Caller}
    (hwho : (run acts).calls who ≠ .idle)
    (hnative : ∀ (i : Nat) (t : Supervisor), (run acts).supervisors[i]? = some t →
      t.live = true → Native t)
    {next : Nat → Act} (hcalm : ∀ k, Calm (next k))
    (hagain : ∀ mover k, ∃ m, k ≤ m ∧ MovesOn who mover (next m)) :
    ∃ k, (scheduled step (run acts) next k).calls who = .idle ∧
      (scheduled step (run acts) next k).thread = none ∧
      ∀ pid, (scheduled step (run acts) next k).alive pid = false := by
  -- the invariants of the run, and of the end that has begun
  have hcontained := contained_run hacts
  have hending : ∀ k, (scheduled step (run acts) next k).Ending who :=
    scheduled_invariant (fun _ _ h hact => (h.step hact).1)
      ⟨hcontained, hcontained.stops who hwho, hnative, fun hidle => absurd hidle hwho⟩ hcalm
  -- the calls of the two threads come to their end
  obtain ⟨k, -, hidle⟩ := exists_viewed_done step (run acts) (phases who) (f := phasesLoad)
    (D := fun v => v.2 = .idle) hagain (fun k => ((hending k).step (hcalm k)).2)
    (fun k hnot => by
      obtain ⟨mover, hfalls⟩ := Ending.exists_mover hnot
      exact ⟨mover, fun m hsame act hact => hfalls _ (hending m) hsame act hact⟩) 0
  -- the thread is joined then, so every process is dead
  have hthread := (hending k).joined hidle
  have hends := (hending k).contained
  exact ⟨k, hidle, hthread, hends.dead (hends.all_dead hthread)⟩

/-- The threads take turns, and their waits time out. -/
def takeTurns (k : Nat) : Act :=
  if k % 2 = 0 then .goOn .main true else .supervise (k / 2).unpair.1 { timesOut := true }

/-- A `stop` between two supervisors' turns returns, with no process left. -/
theorem stop_returns_between :
    ∃ k, (scheduled step (run stoppedBetween) takeTurns k).calls .main = .idle ∧
      (scheduled step (run stoppedBetween) takeTurns k).thread = none ∧
      ∀ pid, (scheduled step (run stoppedBetween) takeTurns k).alive pid = false := by
  refine stop_returns serial_stoppedBetween (by decide) ?_ ?_ ?_
  · -- the only supervisor is a native one
    intro i t hi _
    obtain rfl := List.mem_singleton.mp (List.mem_of_getElem? hi)
    exact ⟨_, _, _, rfl⟩
  · -- the turns are calm
    intro k
    simp only [takeTurns]
    split <;> trivial
  · -- and every mover has one again and again
    intro mover k
    cases mover with
    | none => exact ⟨2 * k, by omega, by simp [MovesOn, takeTurns]⟩
    | some i =>
      have hlater := Nat.right_le_pair i k
      have hhalf : (2 * Nat.pair i k + 1) / 2 = Nat.pair i k := by omega
      exact ⟨2 * Nat.pair i k + 1, by omega, { timesOut := true }, by simp [takeTurns, hhalf], rfl⟩

end PixelPath

end QCBridge
