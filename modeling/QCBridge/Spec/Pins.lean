import QCBridge.Spec.RoleSwitch

/-!
# The certificate that is enforced

The pin is in the configuration, in the target and in the connection that is under way. A command
that changes the one leaves the others, unless it goes through `retarget` or starts the role.

## Key results

- `setConfig_coherent_iff`, `connect_coherent_iff`: when the target follows the configuration
- `Unpinned.step`, `Unpinned.trusting`: where no pin is enforced, none is until one comes
- `pins_kept_iff`: which runs keep the pins together
-/

namespace QCBridge

namespace Agent

/-! ## Texts of pins -/

/-- A certificate's hash is read back from its text. -/
private theorem decodePin_encodePin (hash : Hash) : decodePin (encodePin hash) = some hash.val := by
  have hdigits : (Hex.encode hash.val).filter (· ≠ ':') = Hex.encode hash.val := by
    rw [List.filter_eq_self]
    intro c hc
    exact decide_eq_true (Hex.forall_mem_encode (P := (· ≠ ':')) (by decide) hash.val c hc)
  unfold decodePin encodePin
  rw [String.toList_ofList, hdigits, Hex.decode_encode]

/-- The pin that `start_role` and `retarget` take a text for. -/
def pinOf (fp : String) : Option (List UInt8) := if fp = "" then none else decodePin fp

/-- The target is held to the certificate that the text names. -/
def Enforces (t : HostTarget) (fp : String) : Prop :=
  t.fingerprint.isSome ∧ t.fingerprint = decodePin fp

instance (t : HostTarget) (fp : String) : Decidable (Enforces t fp) :=
  inferInstanceAs (Decidable (_ ∧ _))

/-- A target that took the text for its pin is held to it exactly if the text is a hash. -/
private theorem enforces_iff {t : HostTarget} {fp : String} (ht : t.fingerprint = pinOf fp)
    (hfp : fp ≠ "") : Enforces t fp ↔ (decodePin fp).isSome := by
  unfold Enforces
  rw [ht, pinOf, if_neg hfp, and_iff_left rfl]

namespace Running

variable {parsesAddr : String → Bool} {a : Running}

/-- A pin of the configuration is the one that the target is held to. -/
def Coherent (a : Running) : Prop :=
  a.cfg.fingerprint ≠ "" → ∀ t, a.target = some t → Enforces t a.cfg.fingerprint

/-! ## Starts -/

/-- A start leaves the target, or has one with the pin of the configuration. -/
private theorem startedTarget_cases (a : Running) :
    a.startedTarget = a.target ∨
      (a.cfg.fingerprint = "" ∨ (decodePin a.cfg.fingerprint).isSome) ∧
        ∃ t, a.startedTarget = some t ∧ t.fingerprint = pinOf a.cfg.fingerprint := by
  unfold startedTarget
  split
  · rename_i h
    exact .inr ⟨h.2.2, _, rfl, rfl⟩
  · exact .inl rfl

/-- The target, if there is one, is from a start with this pin. -/
def Started (fp : String) (target : Option HostTarget) : Prop :=
  ∀ t, target = some t → t.fingerprint = pinOf fp ∧ (fp = "" ∨ (decodePin fp).isSome)

/-- A start takes the pin of the configuration. -/
theorem Started.startedTarget (h : Started a.cfg.fingerprint a.target) :
    Started a.cfg.fingerprint a.startedTarget := by
  intro t ht
  rcases startedTarget_cases a with hsame | ⟨hpin, t', hstarted, hfp⟩
  · exact h t (hsame ▸ ht)
  · rw [hstarted] at ht
    obtain rfl := Option.some.inj ht
    exact ⟨hfp, hpin⟩

/-- A target from a start is held to the pin. -/
private theorem Started.enforces {fp : String} {target : Option HostTarget} (h : Started fp target)
    (hfp : fp ≠ "") {t : HostTarget} (ht : target = some t) : Enforces t fp := by
  obtain ⟨hpin, hempty | hsome⟩ := h t ht
  · exact absurd hempty hfp
  · exact (enforces_iff hpin hfp).mpr hsome

/-- What a switch does to the three places that have a pin. -/
private theorem switchRole_pins (parsesAddr : String → Bool) (a : Running) (oldRole : String)
    (ans : SwitchAnswers) :
    (a.switchRole parsesAddr oldRole ans).cfg.fingerprint = a.cfg.fingerprint ∧
      (a.switchRole parsesAddr oldRole ans).dialling = a.dialling ∧
      Started a.cfg.fingerprint (a.switchRole parsesAddr oldRole ans).target := by
  have hstopped : Started a.cfg.fingerprint (a.stopRole oldRole).target :=
    fun t ht => by cases ht
  have hfirst : Started a.cfg.fingerprint (a.stopRole oldRole).startedTarget :=
    Started.startedTarget (a := a.stopRole oldRole) hstopped
  unfold switchRole
  dsimp only
  rw [startRole_eq]
  cases starts parsesAddr (a.stopRole oldRole).cfg ans.first with
  | true => exact ⟨rfl, rfl, hfirst⟩
  | false =>
    simp only [Bool.false_eq_true, if_false]
    rw [startRole_eq]
    cases starts parsesAddr { (a.stopRole oldRole).cfg with role := oldRole } ans.second <;>
      exact ⟨rfl, rfl, Started.startedTarget (a := { (a.stopRole oldRole) with
        cfg := { (a.stopRole oldRole).cfg with role := oldRole }
        target := (a.stopRole oldRole).startedTarget }) hfirst⟩

/-! ## Commands -/

variable {patch : Value}

/-- The pin of the configuration after a patch. -/
def pinAfter (a : Running) (patch : Value) : String :=
  (askedText "fingerprint" patch).getD a.cfg.fingerprint

/-- New fields do not touch the connection that is under way. -/
private theorem setFields_dialling (a : Running) (ans : SetAnswers) (cfg : Config)
    (changed : List String) : (a.setFields cfg changed ans).dialling = a.dialling := by
  unfold setFields
  dsimp only
  rw [retarget_eq]
  split <;> split <;> rfl

/-- They aim at the peer if it is among them. -/
private theorem setFields_target (a : Running) (ans : SetAnswers) (cfg : Config)
    (changed : List String) :
    (a.setFields cfg changed ans).target =
      if "peer" ∈ changed ∧ cfg.isHost then some (aim cfg cfg.peer cfg.fingerprint)
      else a.target := by
  unfold setFields
  dsimp only
  rw [retarget_eq]
  split <;> split <;> rfl

/-- What `retarget` aims at, with the pin of the configuration. -/
private theorem aim_fingerprint (cfg : Config) (addr : String) :
    (aim cfg addr cfg.fingerprint).fingerprint = pinOf cfg.fingerprint := by
  show pinOf (if cfg.fingerprint ≠ "" then cfg.fingerprint else cfg.fingerprint) = _
  rw [ite_id]

/-- Nor does `set_config`. -/
private theorem setConfig_dialling (ans : SetAnswers) :
    (a.setConfig parsesAddr patch ans).dialling = a.dialling := by
  by_cases hsw : Switches parsesAddr a patch
  · rw [setConfig_of_switches hsw, (switchRole_pins _ _ _ _).2.1, setFields_dialling]
  · rw [setConfig_of_not_switches hsw]
    split
    · rfl
    · exact setFields_dialling ..

/-- The configuration has the pin of the patch, or its own. -/
private theorem setConfig_fingerprint (ans : SetAnswers) :
    (a.setConfig parsesAddr patch ans).cfg.fingerprint = a.pinAfter patch := by
  have hpin := applyLive_fingerprint parsesAddr a.cfg patch
  by_cases hsw : Switches parsesAddr a patch
  · rw [setConfig_of_switches hsw, (switchRole_pins _ _ _ _).1, setFields_cfg]
    exact hpin
  · rw [setConfig_of_not_switches hsw]
    split
    · exact hpin
    · rw [setFields_cfg]
      exact hpin

/-- A switch starts the role, and so takes the pin. -/
private theorem setConfig_started (h : Switches parsesAddr a patch) (ans : SetAnswers) :
    Started (a.pinAfter patch) (a.setConfig parsesAddr patch ans).target := by
  rw [setConfig_of_switches h]
  have hstarted := (switchRole_pins parsesAddr
    (a.setFields (applyLive parsesAddr a.cfg patch).1
      (applyLive parsesAddr a.cfg patch).2.changed ans) (a.takenFor patch) ans.switch).2.2
  rw [setFields_cfg, applyLive_fingerprint] at hstarted
  exact hstarted

/-- A patch that asks for a peer and does not switch aims at it. -/
def Retargets (a : Running) (patch : Value) : Prop :=
  (askedText "peer" patch).isSome ∧ a.cfg.isHost

instance : Decidable (Retargets a patch) := inferInstanceAs (Decidable (_ ∧ _))

/-- Without a switch only a new peer gives a new target. -/
private theorem setConfig_target (h : ¬ Switches parsesAddr a patch) (ans : SetAnswers) :
    (a.setConfig parsesAddr patch ans).target =
      if Retargets a patch then
        some (aim (applyLive parsesAddr a.cfg patch).1 (applyLive parsesAddr a.cfg patch).1.peer
          (applyLive parsesAddr a.cfg patch).1.fingerprint)
      else a.target := by
  have hrole : (applyLive parsesAddr a.cfg patch).1.isHost = a.cfg.isHost := by
    have hnone : askedRole patch = none :=
      Option.not_isSome_iff_eq_none.mp fun hasked => h (.inl hasked)
    unfold Config.isHost
    rw [applyLive_role, hnone, Option.getD_none]
  have hiff : ("peer" ∈ (applyLive parsesAddr a.cfg patch).2.changed ∧
      (applyLive parsesAddr a.cfg patch).1.isHost) ↔ Retargets a patch := by
    rw [hrole, peer_mem_changed, Retargets]
  rw [setConfig_of_not_switches h]
  split
  · rename_i hnil
    rw [if_neg fun hre => List.not_mem_nil (hnil ▸ (hiff.mpr hre).1)]
  · rw [setFields_target, if_congr hiff rfl rfl]

/-- The target follows the pin of a patch. -/
def Follows (parsesAddr : String → Bool) (a : Running) (patch : Value) : Prop :=
  Switches parsesAddr a patch ∨ a.pinAfter patch = "" ∨
    (Retargets a patch → (decodePin (a.pinAfter patch)).isSome) ∧
      -- the pin alone does not go through `retarget`
      (¬ Retargets a patch → ∀ t, a.target = some t → Enforces t (a.pinAfter patch))

/-- So after a patch the pin is enforced exactly where the target follows it. -/
theorem setConfig_coherent_iff (ans : SetAnswers) :
    (a.setConfig parsesAddr patch ans).Coherent ↔ Follows parsesAddr a patch := by
  unfold Coherent Follows
  rw [setConfig_fingerprint]
  by_cases hsw : Switches parsesAddr a patch
  · exact iff_of_true (fun hfp t ht => (setConfig_started hsw ans).enforces hfp ht) (.inl hsw)
  rw [setConfig_target hsw, or_iff_right hsw]
  by_cases hfp : a.pinAfter patch = ""
  · exact iff_of_true (fun hne => absurd hfp hne) (.inl hfp)
  rw [or_iff_right hfp]
  by_cases hre : Retargets a patch
  · have haim := (aim_fingerprint (applyLive parsesAddr a.cfg patch).1
      (applyLive parsesAddr a.cfg patch).1.peer).trans
        (congrArg pinOf (applyLive_fingerprint parsesAddr a.cfg patch))
    rw [if_pos hre, and_iff_left (absurd hre), imp_iff_right hre]
    exact ⟨fun h => (enforces_iff haim hfp).mp (h hfp _ rfl),
      fun h _ t ht => Option.some.inj ht ▸ (enforces_iff haim hfp).mpr h⟩
  · rw [if_neg hre, and_iff_right fun h => absurd h hre]
    exact ⟨fun h _ => h hfp, fun h _ => h hre⟩

/-- `connect` takes the pin of the configuration, if that is one. -/
theorem connect_coherent_iff (h : a.Coherent) (peer fp : String) :
    (a.connect peer fp).Coherent ↔
      (a.cfg.isHost → peer ≠ "" →
        a.cfg.fingerprint = "" ∨ (decodePin a.cfg.fingerprint).isSome) := by
  unfold connect
  rw [retarget_eq]
  split
  · rename_i hhost
    unfold Coherent
    dsimp only
    rw [imp_iff_right hhost.1, imp_iff_right hhost.2]
    by_cases hfp : a.cfg.fingerprint = ""
    · exact iff_of_true (fun hne => absurd hfp hne) (.inl hfp)
    · have haim : (aim a.cfg peer fp).fingerprint = pinOf a.cfg.fingerprint := by
        show pinOf (if a.cfg.fingerprint ≠ "" then a.cfg.fingerprint else fp) = _
        rw [if_pos hfp]
      rw [or_iff_right hfp, ← enforces_iff haim hfp, imp_iff_right hfp]
      exact ⟨fun h => h _ rfl, fun h t ht => Option.some.inj ht ▸ h⟩
  · rename_i hhost
    exact iff_of_true h fun hh hp => absurd ⟨hh, hp⟩ hhost

/-! ## Certificates that come -/

variable {hash : Hash} {t : HostTarget}

/-- A certificate that is accepted with no pin yet is the pin from then on. -/
private theorem answered_of_accepts (saves : Save) (hfp : a.cfg.fingerprint = "")
    (hd : a.dialling = some t) (hacc : accepts t hash = true) :
    (a.answered hash saves).cfg.fingerprint = encodePin hash ∧
      (a.answered hash saves).target =
        a.target.map fun t => { t with fingerprint := some hash.val } := by
  have hhex : Hex.decode (encodePin hash).toList = some hash.val := by
    rw [encodePin, String.toList_ofList, Hex.decode_encode]
  unfold answered peerUp giveUp
  rw [hd]
  dsimp only
  rw [if_pos hacc, if_neg (not_not_intro hfp), hhex]
  exact ⟨rfl, rfl⟩

/-- Any other leaves the pins. -/
private theorem answered_of_not (a : Running) (hash : Hash) (saves : Save)
    (h : a.cfg.fingerprint = "" → ∀ t, a.dialling = some t → accepts t hash = false) :
    (a.answered hash saves).cfg = a.cfg ∧ (a.answered hash saves).target = a.target := by
  unfold answered
  split
  · exact ⟨rfl, rfl⟩
  · rename_i t hd
    split
    · rename_i hacc
      unfold peerUp
      split
      · exact ⟨rfl, rfl⟩
      · rename_i hfp
        rw [h (not_not.mp hfp) t hd] at hacc
        cases hacc
    · exact ⟨rfl, rfl⟩

/-- A certificate that is learned is put into both. -/
theorem Coherent.answered (h : a.Coherent) (saves : Save) : (a.answered hash saves).Coherent := by
  by_cases hacc : a.cfg.fingerprint = "" ∧ ∃ t, a.dialling = some t ∧ accepts t hash = true
  · obtain ⟨hfp, t, hd, hacc⟩ := hacc
    obtain ⟨hcfg, htarget⟩ := answered_of_accepts saves hfp hd hacc
    intro _ t' ht'
    rw [htarget] at ht'
    obtain ⟨t, -, rfl⟩ := Option.map_eq_some_iff.mp ht'
    rw [hcfg, Enforces, decodePin_encodePin]
    exact ⟨rfl, rfl⟩
  · obtain ⟨hcfg, htarget⟩ := answered_of_not a hash saves
      fun hfp t hd => Bool.eq_false_iff.mpr fun hyes => hacc ⟨hfp, t, hd, hyes⟩
    unfold Coherent
    rw [hcfg, htarget]
    exact h

/-- A certificate is only installed in the target that it was learned from. -/
def Own (a : Running) (hash : Hash) : Prop :=
  a.cfg.fingerprint = "" → ∀ t, a.dialling = some t → accepts t hash = true →
    ∀ t', a.target = some t' → t' = t ∨ t'.fingerprint = some hash.val

/-- It is put into the target that it was learned from, unless that has been replaced. -/
private theorem own_iff (saves : Save) : Own a hash ↔ ∀ t, a.dialling = some t →
    (a.answered hash saves).target ≠ a.target → a.target = some t := by
  -- the pin is learned: it goes into the target that is set
  by_cases hacc : a.cfg.fingerprint = "" ∧ ∃ t, a.dialling = some t ∧ accepts t hash = true
  · obtain ⟨hfp, t, hd, hacc⟩ := hacc
    rw [(answered_of_accepts saves hfp hd hacc).2]
    unfold Own
    simp only [hfp, hd, true_implies, Option.some.injEq, forall_eq', hacc]
    cases a.target with
    | none => simp
    | some t' =>
      simp only [Option.some.injEq, forall_eq', Option.map_some, ne_eq]
      have hsame : { t' with fingerprint := some hash.val } = t' ↔
          t'.fingerprint = some hash.val := by
        constructor
        · intro h
          rw [← h]
        · intro h
          rw [← h]
      rw [hsame, or_iff_not_imp_right]
  · -- it is not: the target stays
    have hno : a.cfg.fingerprint = "" → ∀ t, a.dialling = some t → accepts t hash = false :=
      fun hfp t hd => Bool.eq_false_iff.mpr fun hyes => hacc ⟨hfp, t, hd, hyes⟩
    rw [(answered_of_not a hash saves hno).2]
    refine iff_of_true (fun hfp t hd hyes => ?_) fun t _ hne => absurd rfl hne
    rw [hno hfp t hd] at hyes
    cases hyes

/-! ## Without a pin -/

/-- No pin is enforced, and none is in the configuration. -/
structure Unpinned (a : Running) : Prop where
  cfg : a.cfg.fingerprint = ""
  target : ∀ t, a.target = some t → t.fingerprint = none
  dialling : ∀ t, a.dialling = some t → t.fingerprint = none

/-- Whatever certificate the connection under way gets next is accepted and pinned. -/
def Trusting (a : Running) : Prop :=
  ∀ t, a.dialling = some t → ∀ hash saves, accepts t hash = true ∧
    (a.answered hash saves).cfg.fingerprint = encodePin hash ∧
    ∀ t', (a.answered hash saves).target = some t' → t'.fingerprint = some hash.val

/-- Where no pin is enforced every certificate is accepted. -/
theorem Unpinned.trusting (h : a.Unpinned) : a.Trusting := by
  intro t hd hash saves
  have hacc : accepts t hash = true := by
    unfold accepts
    rw [h.dialling t hd]
  obtain ⟨hcfg, htarget⟩ := answered_of_accepts saves h.cfg hd hacc
  refine ⟨hacc, hcfg, fun t' ht' => ?_⟩
  rw [htarget] at ht'
  obtain ⟨t, -, rfl⟩ := Option.map_eq_some_iff.mp ht'
  rfl

/-- What may bring a pin: a command that names one, and a certificate. -/
def Act.brings : Act → Bool
  | .setConfig patch _ => (askedText "fingerprint" patch).any (· ≠ "")
  | .connect _ fingerprint => fingerprint ≠ ""
  | .answered .. => true
  | .disconnect | .forgetFingerprint _ | .dial | .giveUp => false

/-- A patch without a pin brings none. -/
private theorem pinAfter_of_not_brings (hfp : a.cfg.fingerprint = "")
    (h : (askedText "fingerprint" patch).any (· ≠ "") = false) : a.pinAfter patch = "" := by
  unfold pinAfter
  cases hasked : askedText "fingerprint" patch with
  | none => exact hfp
  | some fp =>
    rw [hasked] at h
    simpa using h

/-- No action without a pin brings one. -/
theorem Unpinned.step (h : a.Unpinned) {act : Act} (hact : act.brings = false) :
    (a.step parsesAddr act).Unpinned := by
  cases act with
  -- a configuration without a pin: what is started or aimed has none
  | setConfig patch ans =>
    have hpin := pinAfter_of_not_brings h.cfg hact
    refine ⟨(setConfig_fingerprint ans).trans hpin, fun t ht => ?_, fun t ht =>
      h.dialling t ((setConfig_dialling ans).symm.trans ht)⟩
    by_cases hsw : Switches parsesAddr a patch
    · have hstarted := (setConfig_started hsw ans t ht).1
      rwa [hpin] at hstarted
    · have htarget := (setConfig_target hsw ans).symm.trans ht
      split at htarget
      · obtain rfl := Option.some.inj htarget
        rw [aim_fingerprint, applyLive_fingerprint]
        exact congrArg pinOf hpin
      · exact h.target t htarget
  -- a connection without one
  | connect peer fp =>
    obtain rfl : fp = "" := by simpa [Act.brings] using hact
    dsimp only [Running.step, connect]
    rw [retarget_eq]
    split
    · refine ⟨h.cfg, fun t ht => ?_, h.dialling⟩
      obtain rfl := Option.some.inj ht
      show pinOf (if a.cfg.fingerprint ≠ "" then a.cfg.fingerprint else "") = none
      rw [if_neg (not_not_intro h.cfg)]
      rfl
    · exact h
  -- what is given up or forgotten has none, and dialling takes the target
  | disconnect =>
    dsimp only [Running.step, disconnect]
    split
    · exact ⟨h.cfg, fun t ht => (by cases ht), h.dialling⟩
    · exact h
  | forgetFingerprint saves =>
    dsimp only [Running.step, forgetFingerprint]
    split
    · exact ⟨rfl, h.target, h.dialling⟩
    · exact h
  | dial => exact ⟨h.cfg, h.target, h.target⟩
  | giveUp => exact ⟨h.cfg, h.target, fun t ht => by cases ht⟩
  -- an answer brings one
  | answered hash saves => cases hact

/-- No pin is enforced until one comes, and the next certificate is pinned. -/
def Forgotten (parsesAddr : String → Bool) (a : Running) : Prop :=
  ∀ between : List Act, (∀ act ∈ between, act.brings = false) →
    (between.foldl (step parsesAddr) a).Unpinned ∧ (between.foldl (step parsesAddr) a).Trusting

/-- So it is exactly where no pin is enforced now. -/
private theorem forgotten_iff : Forgotten parsesAddr a ↔ a.Unpinned := by
  constructor
  · intro h
    exact (h [] (by simp)).1
  · intro h between hbetween
    have hrun : (between.foldl (Running.step parsesAddr) a).Unpinned := by
      induction between generalizing a with
      | nil => exact h
      | cons act between ih =>
        exact ih (h.step (hbetween act List.mem_cons_self)) fun act' hact' =>
          hbetween act' (List.mem_cons_of_mem _ hact')
    exact ⟨hrun, hrun.trusting⟩

/-! ## Which runs keep the pins together -/

/-- What a step is to keep: a pin of the configuration is enforced, one that is forgotten is not,
    and one that is learned is installed where it was learned. -/
structure Kept (parsesAddr : String → Bool) (a : Running) (act : Act) : Prop where
  coherent : (a.step parsesAddr act).Coherent
  forgotten : ∀ saves, act = .forgetFingerprint saves → a.cfg.isHost = true →
    Forgotten parsesAddr (a.step parsesAddr act)
  own : ∀ hash saves, act = .answered hash saves → ∀ t, a.dialling = some t →
    (a.step parsesAddr act).target ≠ a.target → a.target = some t

/-- When a step does. -/
def Keeps (parsesAddr : String → Bool) (a : Running) : Act → Prop
  | .setConfig patch _ => Follows parsesAddr a patch
  | .connect peer _ => a.cfg.isHost → peer ≠ "" →
    a.cfg.fingerprint = "" ∨ (decodePin a.cfg.fingerprint).isSome
  -- what is enforced stays enforced
  | .forgetFingerprint _ => a.cfg.isHost = true →
    (∀ t, a.target = some t → t.fingerprint = none) ∧
      ∀ t, a.dialling = some t → t.fingerprint = none
  | .answered hash _ => Own a hash
  | .disconnect | .dial | .giveUp => True

/-- A step keeps the pins together exactly where its condition holds. -/
theorem kept_iff (h : a.Coherent) (act : Act) : Kept parsesAddr a act ↔ Keeps parsesAddr a act := by
  cases act with
  -- the two commands keep the pins where the target does
  | setConfig patch ans =>
    rw [Keeps, ← setConfig_coherent_iff ans]
    exact ⟨fun hk => hk.coherent, fun hc => ⟨hc, fun _ heq => (by cases heq),
      fun _ _ heq => (by cases heq)⟩⟩
  | connect peer fp =>
    rw [Keeps, ← connect_coherent_iff h peer fp]
    exact ⟨fun hk => hk.coherent, fun hc => ⟨hc, fun _ heq => (by cases heq),
      fun _ _ heq => (by cases heq)⟩⟩
  -- disconnecting leaves no target
  | disconnect =>
    refine iff_of_true ⟨?_, fun _ heq => (by cases heq), fun _ _ heq => (by cases heq)⟩ trivial
    dsimp only [step, disconnect]
    split
    · exact fun _ t ht => by cases ht
    · exact h
  | forgetFingerprint saves =>
    -- a host forgets the pin: of the configuration, not of the target
    by_cases hhost : a.cfg.isHost = true
    · have hstep : a.step parsesAddr (.forgetFingerprint saves) =
          { a with
            cfg := { a.cfg with fingerprint := "" }
            disk := (a.disk.save { a.cfg with fingerprint := "" } saves).1 } := if_pos hhost
      rw [Keeps, imp_iff_right hhost]
      constructor
      · intro hk
        have hfree := forgotten_iff.mp (hk.forgotten saves rfl hhost)
        rw [hstep] at hfree
        exact ⟨hfree.target, hfree.dialling⟩
      · rintro ⟨htarget, hdialling⟩
        refine ⟨?_, fun _ _ _ => forgotten_iff.mpr ?_, fun _ _ heq => (by cases heq)⟩ <;>
          rw [hstep]
        · exact fun hne => absurd rfl hne
        · exact ⟨rfl, htarget, hdialling⟩
    · -- a replica forgets nothing
      refine iff_of_true ⟨?_, fun _ _ hh => absurd hh hhost, fun _ _ heq => (by cases heq)⟩
        fun hh => absurd hh hhost
      rw [step, forgetFingerprint, if_neg hhost]
      exact h
  -- dialling and giving up leave the pins where they are
  | dial =>
    exact iff_of_true ⟨h, fun _ heq => (by cases heq), fun _ _ heq => (by cases heq)⟩ trivial
  | giveUp =>
    exact iff_of_true ⟨h, fun _ heq => (by cases heq), fun _ _ heq => (by cases heq)⟩ trivial
  -- an answer is the one of its own target
  | answered hash saves =>
    rw [Keeps, own_iff saves]
    constructor
    · exact fun hk => hk.own hash saves rfl
    · refine fun hown => ⟨h.answered saves, fun _ heq => (by cases heq), fun hash' saves' heq => ?_⟩
      cases heq
      exact hown

/-- An agent starts with the target held to the pin of its configuration. -/
private theorem coherent_boot {p : Platform} {d : Disk} {ans : BootAnswers}
    (h : (boot parsesAddr p d ans).2 = some a) : a.Coherent := by
  unfold boot at h
  split at h
  · cases h
  · rename_i d' cfg _
    rw [startRole_eq] at h
    dsimp only at h
    split at h
    · rename_i hrt
      obtain rfl := Option.some.inj h
      obtain ⟨ha, -⟩ := Prod.mk.inj hrt
      rw [← ha]
      have hstarted : Started cfg.fingerprint (startedTarget { cfg, disk := d' }) :=
        Started.startedTarget (a := { cfg, disk := d' }) fun t ht => by cases ht
      exact fun hfp t ht => hstarted.enforces hfp ht
    · cases h

/-- Every start of the agent, and every run of commands and connections from there: each step
    keeps the pins together exactly if each meets the condition. -/
theorem pins_kept_iff {p : Platform} {d : Disk} {ans : BootAnswers}
    (hboot : (boot parsesAddr p d ans).2 = some a) (acts : List Act) :
    Along (step parsesAddr) (Kept parsesAddr) a acts ↔
      Along (step parsesAddr) (Keeps parsesAddr) a acts :=
  along_congr (I := Coherent) (fun _ act h hk => ((kept_iff h act).mpr hk).coherent)
    (fun _ act h => kept_iff h act) (coherent_boot hboot) acts

/-- The configuration of a host with a peer, for the tests below. -/
private def pairedConfig : Config :=
  { Config.default .other with role := "host", peer := "10.0.0.9:19990" }

/-- That host when it has started. -/
private def pairedHost : Running where
  cfg := pairedConfig
  disk := ⟨.config pairedConfig, .empty⟩
  runtime := some ⟨"host", none⟩
  registered := ["host"]
  target := some ⟨"10.0.0.9:19990", none, defaultMtu⟩

/-- Its start. -/
private theorem boot_pairedHost :
    (boot (fun _ => true) .other ⟨.config pairedConfig, .empty⟩ {}).2 = some pairedHost := by
  rfl

private def someHash : Hash := ⟨List.replicate 32 7, rfl⟩

/-- The certificate is learned, and then the host is pointed elsewhere. -/
theorem pins_kept_iff_learned :
    Along (step fun _ => true) (Kept fun _ => true) pairedHost
      [.dial, .answered someHash .written, .connect "10.0.0.8:19990" ""] := by
  refine (pins_kept_iff boot_pairedHost _).mpr ⟨trivial, ?_, ?_, trivial⟩
  · intro _ t ht _ t' ht'
    exact .inl (Option.some.inj (ht'.symm.trans ht))
  · intro _ _
    exact .inr (Option.isSome_iff_exists.mpr ⟨_, decodePin_encodePin someHash⟩)

/-- A pin that is forgotten stays enforced; a pin that is set is not enforced; and a certificate
    is installed in the target that has taken the place of its own. -/
theorem pins_kept_counterexample :
    ¬ Along (step fun _ => true) (Kept fun _ => true) pairedHost
      [.dial, .answered someHash .written, .forgetFingerprint .written] ∧
    ¬ Along (step fun _ => true) (Kept fun _ => true) pairedHost
      [.setConfig (.obj [("fingerprint", .str "00")]) {}] ∧
    ¬ Along (step fun _ => true) (Kept fun _ => true) pairedHost
      [.dial, .connect "10.0.0.8:19990" "", .answered someHash .written] := by
  refine ⟨?_, ?_, ?_⟩
  · rintro ⟨-, -, h, -⟩
    have hfree := (h.forgotten .written rfl rfl [] (by simp)).1.target _ rfl
    exact absurd hfree (by decide)
  · rintro ⟨h, -⟩
    exact absurd (h.coherent (by decide) _ rfl) (by decide)
  · rintro ⟨-, -, h, -⟩
    have hown := h.own someHash .written rfl _ rfl (by decide)
    exact absurd hown (by decide)

end Running

end Agent

end QCBridge
