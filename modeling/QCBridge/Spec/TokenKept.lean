import QCBridge.Spec.RoleSwitch

/-!
# The token and the next start

The agent holds the token in memory, and its next start reads the entry of the role that the file
names. A patch puts a token into the entry of the role that it asks for, and a switch that fails
names another role; a switch that succeeds leaves the token in the entry of the old one.

## Key results

- `loadConfig_of_config`: what the next start reads
- `Kept`: it is the token in force
- `token_kept_iff`: which runs keep it at every start
-/

namespace QCBridge

namespace Agent

variable {parsesAddr : String → Bool} {p : Platform}

/-! ## Entries -/

/-- What a store gives back of a token. -/
def TokenStore.reads (store : TokenStore) (token : String) : String :=
  match store with
  | .file => trimLines token
  | _ => token

/-- No token is read back as none. -/
@[simp] theorem TokenStore.reads_empty (store : TokenStore) : store.reads "" = "" := by
  cases store <;> rfl

namespace Disk

/-- The token that a start reads for the role; empty if there is none. -/
def stored (d : Disk) (store : TokenStore) (role : String) : String :=
  ((d.entries.get? role).map store.reads).getD ""

/-- A store of its own is read as it is, unless reading fails. -/
private theorem load_eq (d : Disk) {store : TokenStore} (hstore : store ≠ .toml) (role : String)
    (reads : Bool) :
    d.load store role reads =
      if reads then some ((d.entries.get? role).map store.reads) else none := by
  cases store with
  | keychain =>
    have hid : TokenStore.keychain.reads = id := rfl
    rw [hid, Option.map_id]
    rfl
  | file => rfl
  | toml => exact absurd rfl hstore

/-- It keeps a token, and an empty one is taken out. -/
private theorem store_eq (d : Disk) {store : TokenStore} (hstore : store ≠ .toml)
    (role token : String) :
    d.store store role token true =
      ({ d with
        entries := if token = "" then d.entries.erase role else d.entries.insert role token },
        true) := by
  cases store with
  | keychain => rfl
  | file => rfl
  | toml => exact absurd rfl hstore

/-- A token that is stored is read back for its own role, up to what its store gives back. -/
private theorem stored_insert (d : Disk) (store : TokenStore) (role token role' : String) :
    ({ d with
      entries := if token = "" then d.entries.erase role else d.entries.insert role token } :
        Disk).stored store role' = if role' = role then store.reads token
          else d.stored store role' := by
  unfold stored
  dsimp only
  by_cases htoken : token = ""
  · rw [if_pos htoken, Dict.get?_erase]
    by_cases hrole : role' = role
    · simp [hrole, htoken]
    · rw [if_neg (Ne.symm hrole), if_neg hrole]
  · rw [if_neg htoken, Dict.get?_insert]
    by_cases hrole : role' = role
    · simp [hrole]
    · rw [if_neg (Ne.symm hrole), if_neg hrole]

/-- Saving the file leaves the entries. -/
private theorem save_entries (d : Disk) (cfg : Config) (s : Save) :
    (d.save cfg s).1.entries = d.entries := by cases s <;> rfl

/-- So it leaves what a start reads of them. -/
private theorem save_stored (d : Disk) (cfg : Config) (s : Save) (store : TokenStore)
    (role : String) :
    (d.save cfg s).1.stored store role = d.stored store role := by
  unfold stored
  rw [save_entries]

end Disk

/-! ## The file -/

/-- The role that the file names. -/
def TomlFile.role : TomlFile → Option String
  | .config c => some c.role
  | _ => none

/-- After a save. -/
def Save.names (s : Save) (role : String) (before : Option String) : Option String :=
  match s with
  | .written => some role
  | .refused => before
  | .torn => none

/-- The file names the role that was saved, the one before, or none. -/
private theorem role_save (d : Disk) (cfg : Config) (s : Save) :
    (d.save cfg s).1.file.role = s.names cfg.role d.file.role := by
  cases s with
  | written =>
    unfold Disk.save
    dsimp only
    split <;> rfl
  | refused => rfl
  | torn => rfl

/-- The file of an agent that runs, with a store of its own for the token. -/
structure TomlFile.Tidy (f : TomlFile) (store : TokenStore) : Prop where
  present : f ≠ .absent
  store_eq : ∀ c, f = .config c → c.tokenStore = store
  token : ∀ c, f = .config c → c.token = ""

/-- A file without a token in it is saved without one. -/
theorem TomlFile.Tidy.save {d : Disk} {cfg : Config} (h : d.file.Tidy cfg.tokenStore)
    (hstore : cfg.tokenStore ≠ .toml) (s : Save) :
    (d.save cfg s).1.file.Tidy cfg.tokenStore := by
  cases s with
  | written =>
    unfold Disk.save
    dsimp only
    rw [if_neg hstore]
    exact ⟨fun h => (by cases h), fun c hc => (by cases hc; rfl), fun c hc => (by cases hc; rfl)⟩
  | refused => exact h
  | torn => exact ⟨fun h => (by cases h), fun c hc => (by cases hc), fun c hc => (by cases hc)⟩

/-! ## What the next start reads -/

/-- The next start reads the entry of the role that the file names. -/
theorem loadConfig_of_config {d : Disk} {c : Config} (hfile : d.file = .config c)
    (hstore : c.tokenStore ≠ .toml) (htoken : c.token = "") (ans : Running.BootAnswers) :
    Running.loadConfig p d ans =
      (d, if ans.reads then some { c with token := d.stored c.tokenStore c.role } else none) := by
  unfold Running.loadConfig Disk.loadOrCreate Disk.loadToken Disk.stored
  rw [hfile]
  dsimp only
  rw [if_neg hstore, Disk.load_eq d hstore]
  cases ans.reads with
  | false => rfl
  | true =>
    simp only [if_true]
    cases d.entries.get? c.role with
    | none =>
      have hsame : c = { c with token := "" } := by rw [← htoken]
      simp only [Option.map_none, Option.getD_none, htoken, ne_eq, not_true_eq_false, if_false]
      exact congrArg (fun c => (d, some c)) hsame
    | some v => simp [htoken]

/-- The next start reads the token that is in force. -/
def Kept (p : Platform) (m : Machine) : Prop :=
  ∀ a, m = .up a → ∀ ans c, (Running.loadConfig p a.disk ans).2 = some c → c.token = a.cfg.token

/-- It reads the entry of the role that the file names. -/
private theorem kept_up_iff {a : Running} (hstore : a.cfg.tokenStore ≠ .toml)
    (htidy : a.disk.file.Tidy a.cfg.tokenStore) :
    Kept p (.up a) ↔
      ∀ role, a.disk.file.role = some role →
        a.disk.stored a.cfg.tokenStore role = a.cfg.token := by
  unfold Kept
  -- at a start the entry of the file's role is read, and that is what `Kept` asks
  constructor
  · intro h role hrole
    cases hfile : a.disk.file with
    | config c =>
      rw [hfile] at hrole
      obtain rfl := Option.some.inj hrole
      have heq := htidy.store_eq c hfile
      have hload := loadConfig_of_config (p := p) hfile (heq ▸ hstore) (htidy.token c hfile) {}
      have hc := h a rfl {} _ (congrArg Prod.snd hload)
      rw [← heq]
      exact hc
    -- a file that is no configuration names no role
    | _ => simp [hfile, TomlFile.role] at hrole
  · -- a start reads the file, and the token it gives is the entry's
    rintro h a' heq ans c hc
    obtain rfl := Machine.up.inj heq
    cases hfile : a.disk.file with
    -- a configuration is loaded with the token of its role's entry
    | config c₀ =>
      have hsame := htidy.store_eq c₀ hfile
      rw [loadConfig_of_config hfile (hsame ▸ hstore) (htidy.token c₀ hfile)] at hc
      dsimp only at hc
      split at hc
      · obtain rfl := Option.some.inj hc
        dsimp only
        rw [hsame]
        exact h c₀.role (by rw [hfile]; rfl)
      · cases hc
    -- neither of the other two starts is one from a tidy file
    | absent => exact absurd hfile htidy.present
    | broken => simp [Running.loadConfig, Disk.loadOrCreate, hfile] at hc

/-! ## A patch -/

namespace Running

variable {a : Running} {patch : Value} {ans : SetAnswers}

/-- A token in a patch goes into the entry of the role that there is then. -/
private theorem setFields_entries (a : Running) {cfg : Config} (changed : List String)
    (hstore : cfg.tokenStore ≠ .toml) (htakes : ans.takesToken = true) (role : String) :
    (a.setFields cfg changed ans).disk.stored cfg.tokenStore role =
      if "token" ∈ changed ∧ role = cfg.role then cfg.tokenStore.reads cfg.token
      else a.disk.stored cfg.tokenStore role := by
  unfold setFields
  dsimp only
  rw [retarget_eq, htakes, Disk.store_eq _ hstore]
  by_cases htoken : "token" ∈ changed
  · rw [if_pos htoken]
    have hinsert := Disk.stored_insert (a.disk.save cfg ans.saves).1 cfg.tokenStore cfg.role
      cfg.token role
    rw [Disk.save_stored] at hinsert
    simp only [htoken, true_and]
    split <;> exact hinsert
  · simp only [htoken, false_and, if_false]
    split <;> exact Disk.save_stored ..

/-- A switch leaves the token where it is. -/
private theorem switchRole_token (parsesAddr : String → Bool) (a : Running) (oldRole : String)
    (ans : SwitchAnswers) :
    (a.switchRole parsesAddr oldRole ans).cfg.token = a.cfg.token ∧
      (a.switchRole parsesAddr oldRole ans).cfg.tokenStore = a.cfg.tokenStore ∧
      ∀ store role, (a.switchRole parsesAddr oldRole ans).disk.stored store role =
        a.disk.stored store role := by
  cases hstarts : starts parsesAddr a.cfg ans.first with
  | true =>
    obtain ⟨hcfg, hdisk, -⟩ := switchRole_of_starts oldRole hstarts
    rw [hcfg, hdisk]
    exact ⟨rfl, rfl, fun _ _ => rfl⟩
  | false =>
    obtain ⟨hcfg, hdisk, -⟩ := switchRole_of_fails oldRole hstarts
    rw [hcfg, hdisk]
    exact ⟨rfl, rfl, fun _ _ => Disk.save_stored ..⟩

/-- The role that the file names when the fields are saved. -/
def namedFirst (parsesAddr : String → Bool) (a : Running) (patch : Value) (ans : SetAnswers) :
    Option String :=
  if (applyLive parsesAddr a.cfg patch).2.changed = [] then a.disk.file.role
  else ans.saves.names ((askedRole patch).getD a.cfg.role) a.disk.file.role

/-- The role that the file names at the end: that of the patch, or the one that `switch_role`
    took for the old one if the new one cannot be started. -/
def namedLast (parsesAddr : String → Bool) (a : Running) (patch : Value) (ans : SetAnswers) :
    Option String :=
  if Switches parsesAddr a patch ∧
      starts parsesAddr (applyLive parsesAddr a.cfg patch).1 ans.switch.first = false then
    ans.switch.savesBack.names (a.takenFor patch) (a.namedFirst parsesAddr patch ans)
  else a.namedFirst parsesAddr patch ans

/-- The file names the role of the patch. -/
private theorem setFields_role (changed : List String) :
    (a.setFields (applyLive parsesAddr a.cfg patch).1 changed ans).disk.file.role =
      ans.saves.names ((askedRole patch).getD a.cfg.role) a.disk.file.role := by
  rw [setFields_file, role_save, applyLive_role]

/-- And at the end the one that the agent runs in, or wrongly took for the old one. -/
private theorem setConfig_role (a : Running) (patch : Value) (ans : SetAnswers) :
    (a.setConfig parsesAddr patch ans).disk.file.role = a.namedLast parsesAddr patch ans := by
  unfold namedLast namedFirst
  by_cases hsw : Switches parsesAddr a patch
  · rw [setConfig_of_switches hsw, if_neg hsw.changed_ne_nil]
    have hcfg := setFields_cfg a ans (applyLive parsesAddr a.cfg patch).1
      (applyLive parsesAddr a.cfg patch).2.changed
    cases hstarts : starts parsesAddr (applyLive parsesAddr a.cfg patch).1 ans.switch.first with
    | true =>
      obtain ⟨-, hdisk, -⟩ := switchRole_of_starts (a.takenFor patch)
        (hcfg.symm ▸ hstarts)
      rw [hdisk, setFields_role, if_neg (by simp)]
    | false =>
      obtain ⟨-, hdisk, -⟩ := switchRole_of_fails (a.takenFor patch)
        (hcfg.symm ▸ hstarts)
      rw [hdisk, role_save, setFields_role, if_pos ⟨hsw, rfl⟩]
  · simp only [hsw, false_and, if_false]
    rw [setConfig_of_not_switches hsw]
    split
    · rfl
    · exact setFields_role _

/-- The token that a patch leaves in force, and in the entries. -/
private theorem setConfig_token (parsesAddr : String → Bool) (patch : Value)
    (hstore : a.cfg.tokenStore ≠ .toml) (htakes : ans.takesToken = true) :
    (a.setConfig parsesAddr patch ans).cfg.token = (askedText "token" patch).getD a.cfg.token ∧
      (a.setConfig parsesAddr patch ans).cfg.tokenStore = a.cfg.tokenStore ∧
      ∀ role, (a.setConfig parsesAddr patch ans).disk.stored a.cfg.tokenStore role =
        match askedText "token" patch with
        | some token =>
          if role = (askedRole patch).getD a.cfg.role then a.cfg.tokenStore.reads token
          else a.disk.stored a.cfg.tokenStore role
        | none => a.disk.stored a.cfg.tokenStore role := by
  have hsame := applyLive_tokenStore parsesAddr a.cfg patch
  -- what the fields come to
  have hfields : ∀ role, (a.setFields (applyLive parsesAddr a.cfg patch).1
      (applyLive parsesAddr a.cfg patch).2.changed ans).disk.stored a.cfg.tokenStore role =
        match askedText "token" patch with
        | some token =>
          if role = (askedRole patch).getD a.cfg.role then a.cfg.tokenStore.reads token
          else a.disk.stored a.cfg.tokenStore role
        | none => a.disk.stored a.cfg.tokenStore role := by
    intro role
    have hentries := setFields_entries a (applyLive parsesAddr a.cfg patch).2.changed
      (hsame ▸ hstore) htakes role
    simp only [hsame, applyLive_role, applyLive_token, token_mem_changed] at hentries
    rw [hentries]
    cases askedText "token" patch <;> simp
  have hcfg := setFields_cfg a ans (applyLive parsesAddr a.cfg patch).1
    (applyLive parsesAddr a.cfg patch).2.changed
  have htoken := applyLive_token parsesAddr a.cfg patch
  by_cases hsw : Switches parsesAddr a patch
  · obtain ⟨htok, hsto, hstored⟩ := switchRole_token parsesAddr
      (a.setFields (applyLive parsesAddr a.cfg patch).1
        (applyLive parsesAddr a.cfg patch).2.changed ans) (a.takenFor patch) ans.switch
    rw [setConfig_of_switches hsw, htok, hsto, hcfg]
    exact ⟨htoken, hsame, fun role => (hstored _ role).trans (hfields role)⟩
  · rw [setConfig_of_not_switches hsw]
    split
    · rename_i hnil
      have hnone : askedText "token" patch = none := by
        rw [← Option.not_isSome_iff_eq_none, ← token_mem_changed parsesAddr a.cfg,
          hnil]
        exact List.not_mem_nil
      rw [hnone]
      exact ⟨by rw [htoken, hnone], hsame, fun _ => rfl⟩
    · rw [hcfg]
      exact ⟨htoken, hsame, hfields⟩

/-- No command puts a token into the file. -/
private theorem setConfig_tidy (parsesAddr : String → Bool) (patch : Value) (ans : SetAnswers)
    (hstore : a.cfg.tokenStore ≠ .toml) (h : a.disk.file.Tidy a.cfg.tokenStore) :
    (a.setConfig parsesAddr patch ans).disk.file.Tidy a.cfg.tokenStore := by
  have hsame := applyLive_tokenStore parsesAddr a.cfg patch
  have hcfg := setFields_cfg a ans (applyLive parsesAddr a.cfg patch).1
    (applyLive parsesAddr a.cfg patch).2.changed
  have hfields : (a.setFields (applyLive parsesAddr a.cfg patch).1
      (applyLive parsesAddr a.cfg patch).2.changed ans).disk.file.Tidy a.cfg.tokenStore := by
    rw [setFields_file, ← hsame]
    exact TomlFile.Tidy.save (hsame.symm ▸ h) (hsame.symm ▸ hstore) _
  -- a switch of roles: it starts, or the old role is written back
  by_cases hsw : Switches parsesAddr a patch
  · rw [setConfig_of_switches hsw]
    cases hstarts : starts parsesAddr (applyLive parsesAddr a.cfg patch).1 ans.switch.first with
    | true =>
      obtain ⟨-, hdisk, -⟩ := switchRole_of_starts (a.takenFor patch)
        (hcfg.symm ▸ hstarts)
      rw [hdisk]
      exact hfields
    | false =>
      obtain ⟨-, hdisk, -⟩ := switchRole_of_fails (a.takenFor patch)
        (hcfg.symm ▸ hstarts)
      rw [hdisk, hcfg]
      rw [← hsame] at hfields hstore ⊢
      refine TomlFile.Tidy.save ?_ ?_ _
      · exact hfields
      · exact hstore
  · -- no switch: nothing is asked, or the fields are saved
    rw [setConfig_of_not_switches hsw]
    split
    · exact h
    · exact hfields

/-! ## A start -/

/-- A start writes to the disk only while it loads. -/
private theorem boot_fst (parsesAddr : String → Bool) (p : Platform) (d : Disk)
    (ans : BootAnswers) :
    (boot parsesAddr p d ans).1 = (loadConfig p d ans).1 := by
  unfold boot
  split
  · rename_i heq
    rw [heq]
  · rename_i heq
    rw [heq, startRole_eq]
    dsimp only
    split <;> rename_i hrt <;> rw [← (Prod.mk.inj hrt).1]

/-- It runs with what it has loaded. -/
private theorem boot_of_some {d : Disk} {ans : BootAnswers}
    (h : (boot parsesAddr p d ans).2 = some a) :
    loadConfig p d ans = (a.disk, some a.cfg) := by
  unfold boot at h
  split at h
  · cases h
  · rename_i heq
    rw [heq]
    rw [startRole_eq] at h
    dsimp only at h
    split at h
    · rename_i hrt
      obtain rfl := Option.some.inj h
      rw [← (Prod.mk.inj hrt).1]
    · cases h

end Running

/-- A token that a start moves out of the file is given back by its store. -/
def Disk.Movable (d : Disk) : Prop :=
  ∀ c, d.file = .config c → c.token ≠ "" → d.entries.get? c.role = none →
    c.tokenStore.reads c.token = c.token

/-- The file keeps the token somewhere else. -/
def Disk.Own (d : Disk) : Prop := ∀ c, d.file = .config c → c.tokenStore ≠ .toml

/-- What a start leaves, where it comes to a configuration. -/
structure Loaded (d d' : Disk) (cfg : Config) : Prop where
  own : cfg.tokenStore ≠ .toml
  tidy : d'.file.Tidy cfg.tokenStore
  kept : (∀ role, d'.file.role = some role → d'.stored cfg.tokenStore role = cfg.token) ↔
    d.Movable

/-- A file with a store of its own is saved with one. -/
theorem Disk.Own.save {d : Disk} (h : d.Own) (cfg : Config) (hstore : cfg.tokenStore ≠ .toml)
    (s : Save) : (d.save cfg s).1.Own := by
  cases s with
  | written =>
    unfold Disk.save
    dsimp only
    rw [if_neg hstore]
    intro c hc
    obtain rfl := TomlFile.config.inj hc
    exact hstore
  | refused => exact h
  | torn => exact fun c hc => by cases hc

/-- What is saved has no token, and names its role. -/
private theorem save_written (d : Disk) (cfg : Config) (hstore : cfg.tokenStore ≠ .toml) :
    (d.save cfg .written).1.file = .config { cfg with token := "" } := by
  unfold Disk.save
  dsimp only
  rw [if_neg hstore]

/-- A configuration without a token is such a file. -/
private theorem tidy_config {c : Config} (htoken : c.token = "") :
    (TomlFile.config c).Tidy c.tokenStore where
  present h := by cases h
  store_eq c' hc := by
    obtain rfl := TomlFile.config.inj hc
    rfl
  token c' hc := by
    obtain rfl := TomlFile.config.inj hc
    exact htoken

/-- A file without a token is loaded with the entry's. -/
private theorem Loaded.of_empty {d : Disk} {c : Config} (hfile : d.file = .config c)
    (hstore : c.tokenStore ≠ .toml) (htoken : c.token = "") :
    Loaded d d { c with token := d.stored c.tokenStore c.role } where
  own := hstore
  tidy := hfile ▸ tidy_config htoken
  kept := by
    refine iff_of_true (fun role hrole => ?_) fun c' hc' hne => ?_
    · rw [hfile] at hrole
      obtain rfl := Option.some.inj hrole
      rfl
    · obtain rfl := TomlFile.config.inj (hfile.symm.trans hc')
      exact absurd htoken hne

/-- The copy in the file goes. -/
private theorem Loaded.of_stored {d : Disk} {c : Config} {v : String} (hfile : d.file = .config c)
    (hstore : c.tokenStore ≠ .toml) (hv : d.entries.get? c.role = some v) :
    Loaded d (d.save { c with token := c.tokenStore.reads v } .written).1
      { c with token := c.tokenStore.reads v } where
  own := hstore
  tidy := by
    rw [save_written d { c with token := c.tokenStore.reads v } hstore]
    exact tidy_config rfl
  kept := by
    refine iff_of_true (fun role hrole => ?_) fun c' hc' _ hnone => ?_
    · rw [save_written d { c with token := c.tokenStore.reads v } hstore] at hrole
      obtain rfl := Option.some.inj hrole
      rw [Disk.save_stored]
      unfold Disk.stored
      rw [hv]
      rfl
    · obtain rfl := TomlFile.config.inj (hfile.symm.trans hc')
      rw [hv] at hnone
      cases hnone

/-- The token moves into the store. -/
private theorem Loaded.of_moved {d : Disk} {c : Config} (hfile : d.file = .config c)
    (hstore : c.tokenStore ≠ .toml) (hne : c.token ≠ "")
    (hnone : d.entries.get? c.role = none) :
    Loaded d ((d.store c.tokenStore c.role c.token true).1.save c .written).1 c where
  own := hstore
  tidy := by
    rw [save_written _ c hstore]
    exact tidy_config (c := { c with token := "" }) rfl
  kept := by
    -- the entry of the role is the token, those of the others are as before
    have hstored : ∀ role, ((d.store c.tokenStore c.role c.token true).1.save c .written).1.stored
        c.tokenStore role = if role = c.role then c.tokenStore.reads c.token
          else d.stored c.tokenStore role := by
      intro role
      rw [Disk.save_stored, Disk.store_eq _ hstore]
      exact Disk.stored_insert ..
    constructor
    · -- the token of the file is what the entry gives back
      intro h c' hc' _ _
      obtain rfl := TomlFile.config.inj (hfile.symm.trans hc')
      have hrole := h c.role (by rw [save_written _ c hstore]; rfl)
      rw [hstored, if_pos rfl] at hrole
      exact hrole
    · -- and the other way round, the file names the configuration's role
      intro h role hrole
      rw [save_written _ c hstore] at hrole
      obtain rfl := Option.some.inj hrole
      rw [hstored]
      simpa using h c hfile hne hnone

/-- A token that is still in the file is moved into its entry first. -/
private theorem loadToken_loaded {d : Disk} {c : Config} (hfile : d.file = .config c) (hown : d.Own)
    (reads : Bool) (moved : Save) :
    (d.loadToken c reads true moved).1.Own ∧
      ∀ cfg, (d.loadToken c reads true moved).2 = some cfg →
        Loaded d (d.loadToken c reads true moved).1 cfg := by
  have hstore := hown c hfile
  unfold Disk.loadToken
  rw [if_neg hstore, Disk.load_eq d hstore]
  -- the keyring does not answer: the start ends here
  cases reads with
  | false => exact ⟨hown, fun cfg hcfg => by cases hcfg⟩
  | true =>
    simp only [if_true]
    cases hentry : d.entries.get? c.role with
    -- the role has an entry, which is what the start takes
    | some v =>
      simp only [Option.map_some]
      -- no token in the file: nothing is written
      by_cases htoken : c.token = ""
      · rw [if_neg (not_not_intro htoken)]
        refine ⟨hown, fun cfg hcfg => ?_⟩
        obtain rfl := Option.some.inj hcfg
        have hstored : d.stored c.tokenStore c.role = c.tokenStore.reads v := by
          unfold Disk.stored
          rw [hentry]
          rfl
        rw [← hstored]
        exact .of_empty hfile hstore htoken
      · -- a token in the file too: it is taken out
        rw [if_pos htoken]
        cases moved with
        | written =>
          refine ⟨Disk.Own.save hown { c with token := c.tokenStore.reads v } hstore .written,
            fun cfg hcfg => ?_⟩
          obtain rfl := Option.some.inj hcfg
          exact .of_stored hfile hstore hentry
        | refused => exact ⟨hown, fun cfg hcfg => by cases hcfg⟩
        | torn => exact ⟨Disk.Own.save hown c hstore .torn, fun cfg hcfg => by cases hcfg⟩
    -- the role has no entry yet
    | none =>
      simp only [Option.map_none]
      -- and the file no token: there is none
      by_cases htoken : c.token = ""
      · rw [if_neg (not_not_intro htoken)]
        refine ⟨hown, fun cfg hcfg => ?_⟩
        obtain rfl := Option.some.inj hcfg
        have hloaded := Loaded.of_empty hfile hstore htoken
        have hsame : { c with token := d.stored c.tokenStore c.role } = c := by
          unfold Disk.stored
          rw [hentry, ← htoken]
          rfl
        rwa [hsame] at hloaded
      · -- the token of the file moves into the entry, and out of the file
        have hown' : (d.store c.tokenStore c.role c.token true).1.Own := by
          rw [Disk.store_eq _ hstore]
          exact hown
        have hmoved := fun s => Disk.Own.save hown' c hstore s
        rw [if_pos htoken]
        rw [show d.store c.tokenStore c.role c.token true =
          ((d.store c.tokenStore c.role c.token true).1, true) by rw [Disk.store_eq _ hstore]]
        cases moved with
        | written =>
          refine ⟨hmoved .written, fun cfg hcfg => ?_⟩
          obtain rfl := Option.some.inj hcfg
          exact .of_moved hfile hstore htoken hentry
        | refused => exact ⟨hmoved .refused, fun cfg hcfg => by cases hcfg⟩
        | torn => exact ⟨hmoved .torn, fun cfg hcfg => by cases hcfg⟩

/-- A start moves the token out of the file, if it is there, and reads it. -/
private theorem loadConfig_loaded (p : Platform) {d : Disk} (hown : d.Own)
    (ans : Running.BootAnswers)
    (htakes : ans.takes = true) :
    (Running.loadConfig p d ans).1.Own ∧
      ∀ cfg, (Running.loadConfig p d ans).2 = some cfg →
        Loaded d (Running.loadConfig p d ans).1 cfg := by
  unfold Running.loadConfig Disk.loadOrCreate
  rw [htakes]
  cases hfile : d.file with
  | config c => exact loadToken_loaded hfile hown ans.reads ans.moves
  | broken => exact ⟨hown, fun cfg hcfg => by cases hcfg⟩
  | absent =>
    cases ans.creates with
    | refused => exact ⟨hown, fun cfg hcfg => by cases hcfg⟩
    | torn => exact ⟨fun c hc => (by cases hc), fun cfg hcfg => by cases hcfg⟩
    -- the file is the default now, without a token
    | written =>
      have hfile' : (d.save (.default p) .written).1.file = .config (.default p) := rfl
      have hown' : (d.save (.default p) .written).1.Own :=
        Disk.Own.save hown (.default p) (show TokenStore.keychain ≠ .toml by decide) .written
      obtain ⟨hown'', hloaded⟩ := loadToken_loaded hfile' hown' ans.reads ans.moves
      refine ⟨hown'', fun cfg hcfg => ?_⟩
      have h := hloaded cfg hcfg
      refine ⟨h.own, h.tidy, h.kept.trans (iff_of_true (fun c hc hne => ?_) fun c hc => ?_)⟩
      · obtain rfl := TomlFile.config.inj hc
        exact absurd rfl hne
      · rw [hfile] at hc
        cases hc

/-! ## Runs -/

/-- The token has a store of its own, and the file of an agent that runs does not have it. -/
structure Machine.Tidy (m : Machine) : Prop where
  own : m.disk.Own
  up : ∀ a, m = .up a → a.cfg.tokenStore ≠ .toml ∧ a.disk.file.Tidy a.cfg.tokenStore

/-- The role that the file names after the patch has the token that is then in force. -/
def KeepsPatch (parsesAddr : String → Bool) (a : Running) (patch : Value) (saves : Save)
    (switch : Running.SwitchAnswers) : Prop :=
  ∀ role, a.namedLast parsesAddr patch { saves, switch } = some role →
    match askedText "token" patch with
    | some token =>
      -- the new token went to the entry of the role that the patch asks for
      if role = (askedRole patch).getD a.cfg.role then a.cfg.tokenStore.reads token = token
      else a.disk.stored a.cfg.tokenStore role = token
    | none =>
      a.disk.file.role = some role ∨ a.disk.stored a.cfg.tokenStore role = a.cfg.token

/-- What happens leaves the token to the next start. -/
def Keeps (parsesAddr : String → Bool) (p : Platform) (m : Machine) : TokenAct → Prop
  | .setConfig patch saves switch =>
    match m with
    | .down _ => True
    | .up a => KeepsPatch parsesAddr a patch saves switch
  | .restart creates moves reads start =>
    (Running.boot parsesAddr p m.disk { creates, moves, reads, start }).2.isSome →
      m.disk.Movable

/-- No command, start or end puts a token into the file. -/
theorem Machine.Tidy.step {m : Machine} (h : m.Tidy) (parsesAddr : String → Bool)
    (p : Platform) (act : TokenAct) :
    (m.step parsesAddr p act).Tidy := by
  cases act with
  | setConfig patch saves switch =>
    cases m with
    | down d => exact h
    -- the agent runs: the command leaves the store and the file's tidiness
    | up a =>
      obtain ⟨hstore, htidy⟩ := h.up a rfl
      have htakes : ({ saves, switch } : Running.SetAnswers).takesToken = true := rfl
      obtain ⟨-, hsame, -⟩ := Running.setConfig_token parsesAddr patch hstore htakes
      have htidy' := Running.setConfig_tidy parsesAddr patch { saves, switch } hstore htidy
      refine ⟨fun c hc => ?_, fun a' ha' => ?_⟩
      · rw [htidy'.store_eq c hc]
        exact hstore
      · obtain rfl := Machine.up.inj ha'
        rw [hsame]
        exact ⟨hstore, htidy'⟩
  | restart creates moves reads start =>
    obtain ⟨hown, hloaded⟩ := loadConfig_loaded p h.own
      { creates, moves, reads, start } rfl
    have hfst := Running.boot_fst parsesAddr p m.disk { creates, moves, reads, start }
    dsimp only [Machine.step]
    -- a start that fails leaves the file it found or wrote
    rcases hboot : Running.boot parsesAddr p m.disk { creates, moves, reads, start } with
      ⟨d, _ | a⟩
    · rw [hboot] at hfst
      refine ⟨?_, fun a ha => by cases ha⟩
      show d.Own
      rw [show d = _ from hfst]
      exact hown
    · -- a start that does not leaves what was loaded
      have hload := Running.boot_of_some (congrArg Prod.snd hboot)
      rw [hload] at hown hloaded
      have hcfg := hloaded a.cfg rfl
      refine ⟨hown, fun a' ha' => ?_⟩
      obtain rfl := Machine.up.inj ha'
      exact ⟨hcfg.own, hcfg.tidy⟩

/-- A step keeps the token exactly if it leaves it to the next start. -/
private theorem kept_step_iff {m : Machine} (h : m.Tidy) (hkept : Kept p m) (act : TokenAct) :
    Kept p (m.step parsesAddr p act) ↔ Keeps parsesAddr p m act := by
  have htidy := h.step parsesAddr p act
  cases act with
  | setConfig patch saves switch =>
    cases m with
    | down d => exact iff_of_true (fun a ha => by cases ha) trivial
    -- the agent runs: the token is kept if the entries still give it
    | up a =>
      obtain ⟨hstore, hfile⟩ := h.up a rfl
      have htakes : ({ saves, switch } : Running.SetAnswers).takesToken = true := rfl
      obtain ⟨htoken, hsame, hstored⟩ := Running.setConfig_token parsesAddr patch hstore htakes
      obtain ⟨hstore', hfile'⟩ := htidy.up _ rfl
      have hbefore := (kept_up_iff hstore hfile).mp hkept
      refine (kept_up_iff hstore' hfile').trans ?_
      rw [Running.setConfig_role, hsame, htoken]
      refine forall_congr' fun role => imp_congr_right fun _ => ?_
      rw [hstored role]
      -- the patch names a token, or asks nothing of it
      cases askedText "token" patch with
      | some token =>
        dsimp only [Option.getD_some]
        split <;> exact Iff.rfl
      | none => exact ⟨.inr, fun hor => hor.elim (hbefore role) id⟩
  | restart creates moves reads start =>
    obtain ⟨-, hloaded⟩ := loadConfig_loaded p h.own
      { creates, moves, reads, start } rfl
    dsimp only [Machine.step, Keeps] at htidy ⊢
    -- a start that fails keeps nothing up, one that does not loads the entry
    rcases hboot : Running.boot parsesAddr p m.disk { creates, moves, reads, start } with
      ⟨d, _ | a⟩
    · exact iff_of_true (fun a ha => by cases ha) fun hsome => by cases hsome
    · rw [hboot] at htidy
      have hload := Running.boot_of_some (congrArg Prod.snd hboot)
      rw [hload] at hloaded
      obtain ⟨hstore, hfile⟩ := htidy.up a rfl
      refine (kept_up_iff hstore hfile).trans ((hloaded a.cfg rfl).kept.trans ?_)
      exact ⟨fun hm _ => hm, fun hm => hm rfl⟩

/-- Every run of patches and starts, from every disk whose token has a store of its own: the next
    start always reads the token in force, exactly if every patch leaves it to the entry of the
    role that the file then names, and no token that is moved out of the file loses its end. -/
theorem token_kept_iff {d : Disk} (hown : d.Own) (acts : List TokenAct) :
    Along (Machine.step parsesAddr p) (Keeps parsesAddr p) (.down d) acts ↔
      ∀ done rest, acts = done ++ rest →
        Kept p (done.foldl (Machine.step parsesAddr p) (.down d)) := by
  have hdown : (Machine.down d).Tidy := ⟨hown, fun a ha => by cases ha⟩
  exact along_iff_throughout (I := Machine.Tidy) (fun _ act h => h.step parsesAddr p act)
    (fun _ act h hkept => kept_step_iff h hkept act) hdown (fun a ha => by cases ha) acts

/-- The disk of a replica with a token, for the tests below. -/
private def someDisk : Disk := ⟨.config (.default .other), .ofList [("replica", "t")]⟩

/-- A new token and the other role, in one patch, and a start. -/
theorem token_kept_iff_together :
    Kept .other ([.restart .written .written true {},
      .setConfig (.obj [("role", .str "host"), ("token", .str "n")]) .written {},
      .restart .written .written true {}].foldl (Machine.step (fun _ => true) .other)
        (.down someDisk)) := by
  have hown : someDisk.Own := by
    intro c hc
    obtain rfl := TomlFile.config.inj hc
    exact TokenStore.noConfusion
  have halong : Along (Machine.step (fun _ => true) .other) (Keeps (fun _ => true) .other)
      (.down someDisk) [.restart .written .written true {},
        .setConfig (.obj [("role", .str "host"), ("token", .str "n")]) .written {},
        .restart .written .written true {}] := by
    refine ⟨fun _ => ?_, ?_, fun _ => ?_, trivial⟩
    · intro c hc hne
      obtain rfl := TomlFile.config.inj hc
      exact absurd rfl hne
    · intro role hrole
      obtain rfl := Option.some.inj hrole
      exact (rfl : TokenStore.keychain.reads "n" = "n")
    · intro c hc hne
      obtain rfl := TomlFile.config.inj hc
      exact absurd rfl hne
  exact (token_kept_iff hown _).mp halong _ [] (List.append_nil _).symm

/-- The other role alone: the token stays in the entry of the old one. -/
theorem token_kept_counterexample :
    ¬ Kept .other ([.restart .written .written true {},
      .setConfig (.obj [("role", .str "host")]) .written {}].foldl
        (Machine.step (fun _ => true) .other) (.down someDisk)) := by
  intro h
  exact absurd (h _ rfl {} _ rfl) (by decide)

end Agent

end QCBridge
