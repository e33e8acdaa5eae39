import QCBridge.Agent.Commands
import QCBridge.ForStd.Guarded
import QCBridge.Spec.ApplyLive

/-!
# The Send/Receive switch

`set_config` applies and saves the whole patch before it tries the new role. What it then takes
for the old role is the other of the two, whatever runs; and what it restores is the role and
nothing else of the patch.

## Key results

- `startRole_eq`, `switchRole_of_starts`, `switchRole_of_fails`: what a switch does
- `Settled`, `settled_run`: what runs is the role of the configuration, at all times
- `setConfig_atomic_iff`: which patches leave nothing half done
-/

namespace QCBridge

namespace Agent

namespace Running

variable {parsesAddr : String → Bool} {a : Running}

/-! ## Starting a role -/

/-- The role of a configuration can be started. -/
def starts (parsesAddr : String → Bool) (cfg : Config) (ans : StartAnswers) : Bool :=
  ans.registers &&
    if cfg.isHost then
      cfg.peer = "" || cfg.fingerprint = "" || (decodePin cfg.fingerprint).isSome
    else parsesAddr cfg.listen && ans.listens

/-- What runs then. -/
def runtimeOf (cfg : Config) : RoleRuntime :=
  ⟨cfg.role, if cfg.isHost then none else some cfg.listen⟩

private theorem register_eq (a : Running) (listen : Option String) (ans : StartAnswers) :
    a.register listen ans =
      ({ a with
        registered := if ans.registers then a.cfg.role :: a.registered.filter (· ≠ a.cfg.role)
          else a.registered },
        if ans.registers then some ⟨a.cfg.role, listen⟩ else none) := by
  unfold register
  split <;> rfl

/-- The target after a start: a host with a peer and no malformed pin has one. -/
def startedTarget (a : Running) : Option HostTarget :=
  if a.cfg.isHost ∧ a.cfg.peer ≠ "" ∧
      (a.cfg.fingerprint = "" ∨ (decodePin a.cfg.fingerprint).isSome) then
    some {
      addr := a.cfg.peer
      fingerprint := if a.cfg.fingerprint = "" then none else decodePin a.cfg.fingerprint
      mtu := defaultMtu }
  else a.target

/-- A start changes the target and the registration, and no more. -/
theorem startRole_eq (a : Running) (ans : StartAnswers) :
    a.startRole parsesAddr ans =
      ({ a with
        target := a.startedTarget
        registered :=
          if starts parsesAddr a.cfg ans then a.cfg.role :: a.registered.filter (· ≠ a.cfg.role)
          else a.registered },
        if starts parsesAddr a.cfg ans then some (runtimeOf a.cfg) else none) := by
  unfold startRole starts runtimeOf startedTarget
  -- a host with no peer
  by_cases hhost : a.cfg.isHost = true
  · rw [if_pos hhost, if_pos hhost, if_pos hhost]
    by_cases hpeer : a.cfg.peer = ""
    · rw [if_pos hpeer, register_eq]
      simp [hpeer]
    · -- a host with a peer: its pin is one, or there is none
      rw [if_neg hpeer]
      by_cases hpin : a.cfg.fingerprint ≠ "" ∧ decodePin a.cfg.fingerprint = none
      · rw [if_pos hpin]
        simp [hpeer, hpin.1, hpin.2]
      · have hok : a.cfg.fingerprint = "" ∨ (decodePin a.cfg.fingerprint).isSome = true := by
          by_cases hempty : a.cfg.fingerprint = ""
          · exact .inl hempty
          · exact .inr (Option.isSome_iff_ne_none.mpr fun hnone => hpin ⟨hempty, hnone⟩)
        have hok' : (decide (a.cfg.fingerprint = "") ||
            (decodePin a.cfg.fingerprint).isSome) = true := by
          simpa using hok
        have htarget : a.cfg.isHost = true ∧ a.cfg.peer ≠ "" ∧
            (a.cfg.fingerprint = "" ∨ (decodePin a.cfg.fingerprint).isSome = true) :=
          ⟨hhost, hpeer, hok⟩
        rw [if_neg hpin, register_eq, if_pos htarget, Bool.or_assoc, hok', Bool.or_true,
          Bool.and_true]
  · -- a replica: its address parses, and it can listen
    have htarget : ¬ (a.cfg.isHost = true ∧ a.cfg.peer ≠ "" ∧
        (a.cfg.fingerprint = "" ∨ (decodePin a.cfg.fingerprint).isSome = true)) :=
      fun h => hhost h.1
    rw [if_neg hhost, if_neg hhost, if_neg hhost, if_neg htarget]
    cases parsesAddr a.cfg.listen <;> cases ans.listens <;> simp [register_eq]

/-! ## The switch -/

theorem switchRole_of_starts (oldRole : String) {ans : SwitchAnswers}
    (h : starts parsesAddr a.cfg ans.first = true) :
    (a.switchRole parsesAddr oldRole ans).cfg = a.cfg ∧
      (a.switchRole parsesAddr oldRole ans).disk = a.disk ∧
      (a.switchRole parsesAddr oldRole ans).runtime = some (runtimeOf a.cfg) := by
  unfold switchRole
  dsimp only
  rw [startRole_eq]
  dsimp only [stopRole]
  simp only [h, if_true, and_self]

/-- A start that fails is followed by one of the old role, with the rest of the patch. -/
theorem switchRole_of_fails (oldRole : String) {ans : SwitchAnswers}
    (h : starts parsesAddr a.cfg ans.first = false) :
    (a.switchRole parsesAddr oldRole ans).cfg = { a.cfg with role := oldRole } ∧
      (a.switchRole parsesAddr oldRole ans).disk =
        (a.disk.save { a.cfg with role := oldRole } ans.savesBack).1 ∧
      (a.switchRole parsesAddr oldRole ans).runtime =
        (if starts parsesAddr { a.cfg with role := oldRole } ans.second then
          some (runtimeOf { a.cfg with role := oldRole }) else none) ∧
      (starts parsesAddr { a.cfg with role := oldRole } ans.second = true →
        oldRole ∈ (a.switchRole parsesAddr oldRole ans).registered) := by
  unfold switchRole
  dsimp only
  rw [startRole_eq]
  dsimp only [stopRole]
  simp only [h, Bool.false_eq_true, if_false]
  rw [startRole_eq]
  dsimp only
  cases starts parsesAddr { a.cfg with role := oldRole } ans.second
  · exact ⟨rfl, rfl, rfl, fun h => absurd h (by decide)⟩
  · exact ⟨rfl, rfl, rfl, fun _ => List.mem_cons_self⟩

/-! ## The patch before the switch -/

variable {patch : Value} {ans : SetAnswers}

/-- The other of the two roles. -/
def otherRole (role : String) : String := if role = "host" then "replica" else "host"

/-- The patch asks for a role, or for another address of a replica. -/
def Switches (parsesAddr : String → Bool) (a : Running) (patch : Value) : Prop :=
  (askedRole patch).isSome ∨ (askedListen parsesAddr patch).isSome ∧ a.cfg.isHost = false

instance : Decidable (Switches parsesAddr a patch) := inferInstanceAs (Decidable (_ ∨ _))

/-- What `set_config` takes for the old role: the other of the one that is asked for. -/
def takenFor (a : Running) (patch : Value) : String :=
  match askedRole patch with
  | some role => otherRole role
  | none => a.cfg.role

private theorem switchesFrom_eq (parsesAddr : String → Bool) (a : Running) (patch : Value)
    (old : String) :
    switchesFrom (applyLive parsesAddr a.cfg patch).1
        (applyLive parsesAddr a.cfg patch).2.changed = some old ↔
      Switches parsesAddr a patch ∧ old = a.takenFor patch := by
  have hrole := applyLive_role parsesAddr a.cfg patch
  unfold switchesFrom Switches takenFor oldRole
  simp only [role_mem_changed, listen_mem_changed]
  -- the patch names a role: the registration changes with it
  cases hasked : askedRole patch with
  | some role =>
    rw [hasked, Option.getD_some] at hrole
    rw [hrole]
    simp only [Option.isSome_some, true_or, if_true, decide_true, true_and, Option.some.injEq]
    exact ⟨Eq.symm, Eq.symm⟩
  -- it names none: only a replica that is asked to listen elsewhere starts anew
  | none =>
    rw [hasked, Option.getD_none] at hrole
    have hhost : (applyLive parsesAddr a.cfg patch).1.isHost = a.cfg.isHost := by
      unfold Config.isHost
      rw [hrole]
    rw [hrole, hhost]
    simp only [Option.isSome_none, Bool.false_eq_true, false_or, decide_false, if_false]
    by_cases hlisten : (askedListen parsesAddr patch).isSome = true ∧ a.cfg.isHost = false
    · rw [if_pos hlisten, Option.some.injEq]
      exact ⟨fun h => ⟨hlisten, h.symm⟩, fun h => h.2.symm⟩
    · rw [if_neg hlisten]
      exact ⟨fun h => (by cases h), fun h => absurd h.1 hlisten⟩

/-- What `retarget` aims at. -/
def aim (cfg : Config) (addr fp : String) : HostTarget where
  addr := addr
  fingerprint :=
    if (if cfg.fingerprint ≠ "" then cfg.fingerprint else fp) = "" then none
    else decodePin (if cfg.fingerprint ≠ "" then cfg.fingerprint else fp)
  mtu := defaultMtu

theorem retarget_eq (a : Running) (addr fp : String) :
    a.retarget addr fp = { a with target := some (aim a.cfg addr fp) } := by
  show (if a.target = some (aim a.cfg addr fp) then a
    else { a with target := some (aim a.cfg addr fp) }) = _
  split
  · rename_i h
    rw [← h]
  · rfl

private theorem store_file (d : Disk) (store : TokenStore) (role token : String) (takes : Bool) :
    (d.store store role token takes).1.file = d.file := by
  unfold Disk.store
  repeat' split
  all_goals rfl

theorem setFields_cfg (a : Running) (ans : SetAnswers) (cfg : Config) (changed : List String) :
    (a.setFields cfg changed ans).cfg = cfg := by
  unfold setFields
  dsimp only
  rw [retarget_eq]
  split <;> split <;> rfl

private theorem setFields_runtime (a : Running) (ans : SetAnswers) (cfg : Config)
    (changed : List String) :
    (a.setFields cfg changed ans).runtime = a.runtime := by
  unfold setFields
  dsimp only
  rw [retarget_eq]
  split <;> split <;> rfl

/-- The token goes to the store and not to the file. -/
theorem setFields_file (a : Running) (ans : SetAnswers) (cfg : Config) (changed : List String) :
    (a.setFields cfg changed ans).disk.file = (a.disk.save cfg ans.saves).1.file := by
  unfold setFields
  dsimp only
  rw [retarget_eq]
  split <;> split <;> first | rfl | exact store_file ..

theorem Switches.changed_ne_nil (h : Switches parsesAddr a patch) :
    (applyLive parsesAddr a.cfg patch).2.changed ≠ [] := by
  have hsome := (switchesFrom_eq parsesAddr a patch _).mpr ⟨h, rfl⟩
  intro hnil
  rw [hnil] at hsome
  simp [switchesFrom] at hsome

/-- A patch that switches is applied, and then the role is switched. -/
theorem setConfig_of_switches (h : Switches parsesAddr a patch) (ans : SetAnswers) :
    a.setConfig parsesAddr patch ans =
      (a.setFields (applyLive parsesAddr a.cfg patch).1
        (applyLive parsesAddr a.cfg patch).2.changed ans).switchRole parsesAddr
          (a.takenFor patch) ans.switch := by
  unfold setConfig
  dsimp only
  rw [if_neg h.changed_ne_nil, (switchesFrom_eq parsesAddr a patch _).mpr ⟨h, rfl⟩]

/-- A patch that switches nothing is applied. -/
theorem setConfig_of_not_switches (h : ¬ Switches parsesAddr a patch) (ans : SetAnswers) :
    a.setConfig parsesAddr patch ans =
      if (applyLive parsesAddr a.cfg patch).2.changed = [] then
        { a with cfg := (applyLive parsesAddr a.cfg patch).1 }
      else a.setFields (applyLive parsesAddr a.cfg patch).1
        (applyLive parsesAddr a.cfg patch).2.changed ans := by
  have hnone : switchesFrom (applyLive parsesAddr a.cfg patch).1
      (applyLive parsesAddr a.cfg patch).2.changed = none := by
    rw [Option.eq_none_iff_forall_ne_some]
    exact fun old hold => h ((switchesFrom_eq parsesAddr a patch old).mp hold).1
  unfold setConfig
  dsimp only
  rw [hnone]

/-! ## Which switches leave nothing half done -/

/-- What runs is the role of the configuration. -/
def Settled (a : Running) : Prop := ∀ rt, a.runtime = some rt → rt.role = a.cfg.role

/-- The start of the role that a patch asks for. -/
def newStart (parsesAddr : String → Bool) (a : Running) (patch : Value) (ans : SetAnswers)
    (old : String) : Running × Option RoleRuntime :=
  ((a.setFields (applyLive parsesAddr a.cfg patch).1
    (applyLive parsesAddr a.cfg patch).2.changed ans).stopRole old).startRole parsesAddr
      ans.switch.first

/-- Role and address are those of before, in memory and in the file, and what ran runs again and
    is registered. -/
structure Restored (a a' : Running) : Prop where
  role : a'.cfg.role = a.cfg.role
  listen : a'.cfg.listen = a.cfg.listen
  file : ∃ c, a'.disk.file = .config c ∧ c.role = a.cfg.role ∧ c.listen = a.cfg.listen
  rebuilt : a'.runtime = some (runtimeOf a.cfg)
  registered : a.cfg.role ∈ a'.registered

/-- A switch is told the role that runs; and if the new one cannot be started, nothing of it is
    left. -/
def Atomic (parsesAddr : String → Bool) (a : Running) (patch : Value) (ans : SetAnswers) :
    Prop :=
  ∀ old, switchesFrom (applyLive parsesAddr a.cfg patch).1
      (applyLive parsesAddr a.cfg patch).2.changed = some old →
    a.runtime.map (·.role) = some old ∧
      ((newStart parsesAddr a patch ans old).2 = none →
        Restored a (a.setConfig parsesAddr patch ans))

/-- The file names the role and the address of before once more. -/
def SavesBack (a : Running) (patch : Value) (ans : SetAnswers) : Prop :=
  match ans.switch.savesBack, ans.saves with
  | .written, _ => True
  -- what is in the file is the patch
  | .refused, .written => askedRole patch = none
  -- or what was there before it
  | .refused, .refused =>
    ∃ c, a.disk.file = .config c ∧ c.role = a.cfg.role ∧ c.listen = a.cfg.listen
  | _, _ => False

/-- The patch can be taken back. -/
structure Switchable (parsesAddr : String → Bool) (a : Running) (patch : Value)
    (ans : SetAnswers) : Prop where
  running : a.runtime ≠ none
  /-- A role that is asked for is the other one. -/
  other : ∀ role, askedRole patch = some role → a.cfg.role = otherRole role
  back : starts parsesAddr (applyLive parsesAddr a.cfg patch).1 ans.switch.first = false →
    (∀ listen, askedListen parsesAddr patch = some listen → listen = a.cfg.listen) ∧
    starts parsesAddr { (applyLive parsesAddr a.cfg patch).1 with role := a.cfg.role }
      ans.switch.second = true ∧
    SavesBack a patch ans

private theorem newStart_snd (a : Running) (patch : Value) (ans : SetAnswers) (old : String) :
    (newStart parsesAddr a patch ans old).2 = none ↔
      starts parsesAddr (applyLive parsesAddr a.cfg patch).1 ans.switch.first = false := by
  have hcfg : ((a.setFields (applyLive parsesAddr a.cfg patch).1
      (applyLive parsesAddr a.cfg patch).2.changed ans).stopRole old).cfg =
        (applyLive parsesAddr a.cfg patch).1 := setFields_cfg ..
  unfold newStart
  rw [startRole_eq, hcfg]
  cases starts parsesAddr (applyLive parsesAddr a.cfg patch).1 ans.switch.first <;> simp

private theorem otherRole_ne (role : String) : otherRole role ≠ role := by
  unfold otherRole
  split
  · rename_i h
    rw [h]
    decide
  · exact fun h => absurd h.symm ‹_›

/-- The file that is left when the switch is taken back. -/
private theorem savesBack_iff
    (hother : ∀ role, askedRole patch = some role → a.cfg.role = otherRole role)
    (hlisten : (applyLive parsesAddr a.cfg patch).1.listen = a.cfg.listen) (d : Disk)
    (hd : d.file = (a.disk.save (applyLive parsesAddr a.cfg patch).1 ans.saves).1.file) :
    (∃ c, (d.save { (applyLive parsesAddr a.cfg patch).1 with role := a.cfg.role }
        ans.switch.savesBack).1.file = .config c ∧ c.role = a.cfg.role ∧
        c.listen = a.cfg.listen) ↔ SavesBack a patch ans := by
  have hrole := applyLive_role parsesAddr a.cfg patch
  unfold SavesBack
  cases ans.switch.savesBack with
  -- the old role is written: the file has it
  | written =>
    refine iff_of_true ⟨_, rfl, ?_⟩ trivial
    split <;> exact ⟨rfl, hlisten⟩
  | torn => simp [Disk.save]
  -- it is refused: the file is the one the patch saved, or the old one
  | refused =>
    simp only [Disk.save, hd]
    cases ans.saves with
    | written =>
      simp only [TomlFile.config.injEq, exists_eq_left']
      -- a role that the patch asks for is not the one of before
      have hasked : (applyLive parsesAddr a.cfg patch).1.role = a.cfg.role ↔
          askedRole patch = none := by
        rw [hrole]
        cases hasked : askedRole patch with
        | none => simp
        | some role =>
          have hne := otherRole_ne role
          rw [← hother role hasked] at hne
          simpa using Ne.symm hne
      rw [← hasked]
      split <;> exact ⟨fun h => h.1, fun h => ⟨h, hlisten⟩⟩
    | refused => exact Iff.rfl
    | torn => simp

/-- The switch is told the role that runs exactly if one runs, and is not the one asked for. -/
private theorem told_iff (hset : a.Settled) :
    a.runtime.map (·.role) = some (a.takenFor patch) ↔
      a.runtime ≠ none ∧ ∀ role, askedRole patch = some role → a.cfg.role = otherRole role := by
  unfold takenFor
  cases hrt : a.runtime with
  | none => simp
  | some rt =>
    rw [Option.map_some, hset rt hrt, Option.some.injEq]
    cases hasked : askedRole patch <;> simp

private theorem takenFor_eq
    (hother : ∀ role, askedRole patch = some role → a.cfg.role = otherRole role) :
    a.takenFor patch = a.cfg.role := by
  unfold takenFor
  split
  · rename_i role hasked
    exact (hother role hasked).symm
  · rfl

/-- What a switch that fails leaves behind. -/
private theorem restored_iff (hsw : Switches parsesAddr a patch)
    (hother : ∀ role, askedRole patch = some role → a.cfg.role = otherRole role)
    (hfails : starts parsesAddr (applyLive parsesAddr a.cfg patch).1 ans.switch.first = false) :
    Restored a (a.setConfig parsesAddr patch ans) ↔
      (∀ listen, askedListen parsesAddr patch = some listen → listen = a.cfg.listen) ∧
      starts parsesAddr { (applyLive parsesAddr a.cfg patch).1 with role := a.cfg.role }
        ans.switch.second = true ∧
      SavesBack a patch ans := by
  have hcfg := setFields_cfg a ans (applyLive parsesAddr a.cfg patch).1
    (applyLive parsesAddr a.cfg patch).2.changed
  have hfile := setFields_file a ans (applyLive parsesAddr a.cfg patch).1
    (applyLive parsesAddr a.cfg patch).2.changed
  have hback := switchRole_of_fails a.cfg.role (hcfg.symm ▸ hfails)
  rw [hcfg] at hback
  obtain ⟨hcfg', hdisk, hruntime, hregistered⟩ := hback
  -- the listener is as before unless the patch asks for another
  have hsame : (∀ listen, askedListen parsesAddr patch = some listen → listen = a.cfg.listen) ↔
      (applyLive parsesAddr a.cfg patch).1.listen = a.cfg.listen := by
    rw [applyLive_listen]
    cases askedListen parsesAddr patch <;> simp
  have hset := setConfig_of_switches hsw ans
  rw [takenFor_eq hother] at hset
  rw [hset, hsame]
  constructor
  · -- what is left behind gives the listener, the start and the file
    intro h
    have hlisten := h.listen
    rw [hcfg'] at hlisten
    have hrebuilt := h.rebuilt
    rw [hruntime] at hrebuilt
    have hfileBack := h.file
    rw [hdisk] at hfileBack
    refine ⟨hlisten, ?_, (savesBack_iff hother hlisten _ hfile).mp hfileBack⟩
    cases hstarts : starts parsesAddr
        { (applyLive parsesAddr a.cfg patch).1 with role := a.cfg.role } ans.switch.second with
    | true => rfl
    | false =>
      rw [hstarts] at hrebuilt
      cases hrebuilt
  · -- and the three of them give what is left behind
    rintro ⟨hlisten, hstarts, hsaves⟩
    refine ⟨by rw [hcfg'], by rw [hcfg']; exact hlisten, ?_, ?_, hregistered hstarts⟩
    · rw [hdisk]
      exact (savesBack_iff hother hlisten _ hfile).mpr hsaves
    · rw [hruntime, if_pos hstarts]
      unfold runtimeOf Config.isHost
      rw [hlisten]

/-! ## What runs is the role of the configuration -/

theorem Settled.of_same {a' : Running} (h : a.Settled) (hruntime : a'.runtime = a.runtime)
    (hrole : a'.cfg.role = a.cfg.role) : a'.Settled := by
  intro rt hrt
  rw [hrole]
  exact h rt (hruntime ▸ hrt)

private theorem settled_switchRole (a : Running) (oldRole : String) (ans : SwitchAnswers) :
    (a.switchRole parsesAddr oldRole ans).Settled := by
  intro rt hrt
  cases hstarts : starts parsesAddr a.cfg ans.first with
  | true =>
    obtain ⟨hcfg, -, hruntime⟩ := switchRole_of_starts oldRole hstarts
    rw [hruntime] at hrt
    obtain rfl := Option.some.inj hrt
    rw [hcfg]
    rfl
  | false =>
    obtain ⟨hcfg, -, hruntime, -⟩ := switchRole_of_fails oldRole hstarts
    rw [hruntime] at hrt
    split at hrt
    · obtain rfl := Option.some.inj hrt
      rw [hcfg]
      rfl
    · cases hrt

theorem Settled.setConfig (h : a.Settled) : (a.setConfig parsesAddr patch ans).Settled := by
  by_cases hsw : Switches parsesAddr a patch
  · rw [setConfig_of_switches hsw]
    exact settled_switchRole _ _ _
  -- a patch that switches nothing leaves the role, and what runs
  · have hnone : askedRole patch = none :=
      Option.not_isSome_iff_eq_none.mp fun hasked => hsw (.inl hasked)
    have hrole : (applyLive parsesAddr a.cfg patch).1.role = a.cfg.role := by
      rw [applyLive_role, hnone]
      rfl
    rw [setConfig_of_not_switches hsw]
    split
    · exact h.of_same rfl hrole
    · exact h.of_same (setFields_runtime ..) (by rw [setFields_cfg]; exact hrole)

theorem Settled.step (h : a.Settled) (act : Act) : (a.step parsesAddr act).Settled := by
  cases act with
  | setConfig patch ans => exact h.setConfig
  | connect peer fingerprint =>
    dsimp only [Running.step, connect]
    rw [retarget_eq]
    split <;> exact h
  | disconnect =>
    dsimp only [Running.step, disconnect]
    split <;> exact h
  | forgetFingerprint saves =>
    dsimp only [Running.step, forgetFingerprint]
    split <;> exact h
  | dial => exact h
  | giveUp => exact h
  | answered hash saves =>
    dsimp only [Running.step, answered, peerUp, giveUp]
    repeat' split
    all_goals exact h

/-- An agent that has started runs the role of its configuration. -/
private theorem settled_boot {p : Platform} {d : Disk} {ans : BootAnswers}
    (h : (boot parsesAddr p d ans).2 = some a) : a.Settled := by
  unfold boot at h
  split at h
  · cases h
  · rw [startRole_eq] at h
    dsimp only at h
    split at h
    · rename_i hrt
      obtain rfl := Option.some.inj h
      intro rt heq
      obtain rfl := Option.some.inj heq
      obtain ⟨ha, hsome⟩ := Prod.mk.inj hrt
      split at hsome
      · obtain rfl := Option.some.inj hsome
        rw [← ha]
        rfl
      · cases hsome
    · cases h

/-- And so it does at all times, whatever is asked of it. -/
theorem settled_run {p : Platform} {d : Disk} {ans : BootAnswers}
    (h : (boot parsesAddr p d ans).2 = some a) (acts : List Act) :
    (acts.foldl (Running.step parsesAddr) a).Settled :=
  foldl_invariant (I := fun a : Running => a.Settled) (fun _ act hs => Settled.step hs act) acts
    (settled_boot h)

/-- Every patch, from every state in which the role of the configuration runs, if any: what the
    switch is told and what it leaves behind are right exactly if the patch can be taken back. -/
theorem setConfig_atomic_iff (hset : a.Settled) :
    Atomic parsesAddr a patch ans ↔
      (Switches parsesAddr a patch → Switchable parsesAddr a patch ans) := by
  unfold Atomic
  simp only [switchesFrom_eq, newStart_snd]
  constructor
  · intro h hsw
    obtain ⟨htold, hrestores⟩ := h _ ⟨hsw, rfl⟩
    obtain ⟨hrunning, hother⟩ := (told_iff hset).mp htold
    exact ⟨hrunning, hother, fun hfails => (restored_iff hsw hother hfails).mp (hrestores hfails)⟩
  · rintro h old ⟨hsw, rfl⟩
    obtain ⟨hrunning, hother, hback⟩ := h hsw
    exact ⟨(told_iff hset).mpr ⟨hrunning, hother⟩,
      fun hfails => (restored_iff hsw hother hfails).mpr (hback hfails)⟩

/-- A host with a peer, for the tests below. -/
private def someHost : Running where
  cfg := { Config.default .other with role := "host" }
  disk := ⟨.config { Config.default .other with role := "host" }, .empty⟩
  runtime := some ⟨"host", none⟩
  registered := ["host"]

/-- Whether the text is one of these two addresses. -/
private def someAddr (s : String) : Bool := s = "0.0.0.0:19990" || s = "10.0.0.9:19990"

/-- The address cannot be bound; the role comes back. -/
theorem setConfig_atomic_iff_bound :
    Atomic someAddr someHost (.obj [("role", .str "replica")])
      { switch := { first := { listens := false } } } := by
  refine (setConfig_atomic_iff ?_).mpr fun _ => ⟨by decide, ?_, fun _ => ⟨?_, by decide, trivial⟩⟩
  · intro rt hrt
    obtain rfl := Option.some.inj hrt
    rfl
  · intro role hrole
    have hreplica : askedRole (.obj [("role", .str "replica")]) = some "replica" := by decide
    obtain rfl := Option.some.inj (hreplica.symm.trans hrole)
    decide
  · intro listen hlisten
    have hnone : askedListen someAddr (.obj [("role", .str "replica")]) = none := by decide
    rw [hnone] at hlisten
    cases hlisten

/-- A host is told to become what it is, and a host to become a replica at an address that cannot
    be bound. -/
theorem setConfig_atomic_counterexample :
    ¬ Atomic someAddr someHost (.obj [("role", .str "host")]) {} ∧
    ¬ Atomic someAddr someHost
      (.obj [("listen", .str "10.0.0.9:19990"), ("role", .str "replica")])
      { switch := { first := { listens := false } } } := by
  constructor
  · intro h
    exact absurd (h "replica" (by decide)).1 (by decide)
  · intro h
    exact absurd ((h "host" (by decide)).2 (by decide)).listen (by decide)

end Running

end Agent

end QCBridge
