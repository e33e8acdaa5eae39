import QCBridge.ForStd.Guarded
import QCBridge.Agent.Config

/-!
# What a patch does to a field

A key of a patch sets its own field and no other. So each field of the configuration is, after
the patch, what the patch has for its key, if that is a value for it, and else what it was.

## Key results

- `Sets`: a key and the field that it sets
- `Sets.applyLive_field`, `Sets.mem_changed`: what comes of the field
-/

namespace QCBridge

namespace Agent

/-- What the patch has for a key. -/
def Value.field (patch : Value) (k : String) : Option Value := patch.asObject.bind (·.get? k)

variable {parsesAddr : String → Bool}

/-- The key sets the field, to what it takes from its value, and is the only one to do so. -/
structure Sets {β : Type} (parsesAddr : String → Bool) (field : Config → β) (k : String)
    (takes : Value → Option β) : Prop where
  live : k ∈ liveFields
  now : k ∉ restartFields
  self : ∀ cfg v, (setLive parsesAddr cfg k v).map field = takes v
  other : ∀ cfg k' v cfg', k' ≠ k → setLive parsesAddr cfg k' v = some cfg' →
    field cfg' = field cfg

namespace Sets

variable {β : Type} {field : Config → β} {k : String} {takes : Value → Option β}

/-- Another key leaves the field, and whether it counts as changed. -/
private theorem applyKey_of_ne (h : Sets parsesAddr field k takes) (s : Config × Applied)
    {e : String × Value} (hne : e.1 ≠ k) :
    field (applyKey parsesAddr s e).1 = field s.1 ∧
      (k ∈ (applyKey parsesAddr s e).2.changed ↔ k ∈ s.2.changed) := by
  unfold applyKey
  split
  split
  · exact ⟨rfl, Iff.rfl⟩
  · split
    · exact ⟨rfl, Iff.rfl⟩
    · split
      · rename_i hset
        exact ⟨h.other _ _ _ _ hne hset, by simp [Ne.symm hne]⟩
      · exact ⟨rfl, Iff.rfl⟩

/-- Its own key sets the field where the value is taken. -/
private theorem applyKey_self (h : Sets parsesAddr field k takes) (s : Config × Applied)
    (v : Value) :
    field (applyKey parsesAddr s (k, v)).1 = (takes v).getD (field s.1) ∧
      (k ∈ (applyKey parsesAddr s (k, v)).2.changed ↔ k ∈ s.2.changed ∨ (takes v).isSome) := by
  have hself := h.self s.1 v
  unfold applyKey
  dsimp only
  rw [if_neg h.now, if_neg (not_not_intro h.live)]
  split
  · rename_i hset
    rw [hset] at hself
    rw [← hself]
    exact ⟨rfl, by simp⟩
  · rename_i hset
    rw [hset] at hself
    rw [← hself]
    exact ⟨rfl, by simp⟩

/-- A key is in a patch once, so that the one value decides. -/
private theorem foldl_applyKey (h : Sets parsesAddr field k takes) (l : List (String × Value))
    (hl : (l.map Prod.fst).Nodup) (s : Config × Applied) :
    field (l.foldl (applyKey parsesAddr) s).1 =
        ((Dict.lookup k l).bind takes).getD (field s.1) ∧
      (k ∈ (l.foldl (applyKey parsesAddr) s).2.changed ↔
        k ∈ s.2.changed ∨ ((Dict.lookup k l).bind takes).isSome) := by
  induction l generalizing s with
  | nil => simp [Dict.lookup]
  | cons e l ih =>
    obtain ⟨k', v⟩ := e
    rw [List.map_cons, List.nodup_cons] at hl
    obtain ⟨hrest, hchanged⟩ := ih hl.2 (applyKey parsesAddr s (k', v))
    rw [List.foldl_cons, hrest, hchanged]
    by_cases hk : k' = k
    · -- the key comes once
      subst hk
      have hnone : Dict.lookup k' l = none :=
        (Dict.get?_eq_none_iff (⟨l, hl.2⟩ : Dict String Value) k').mpr hl.1
      obtain ⟨hfield, hmem⟩ := h.applyKey_self s v
      simp only [hnone, Dict.lookup, hfield, hmem, if_true, Option.bind_none, Option.bind_some,
        Option.getD_none, Option.isSome_none, Bool.false_eq_true, or_false, and_self]
    · obtain ⟨hfield, hmem⟩ := h.applyKey_of_ne s (e := (k', v)) hk
      rw [hfield, hmem]
      simp only [Dict.lookup, if_neg hk, and_self]

/-- The field after a patch. -/
theorem applyLive_field (h : Sets parsesAddr field k takes) (cfg : Config) (patch : Value) :
    field (applyLive parsesAddr cfg patch).1 =
      ((patch.field k).bind takes).getD (field cfg) := by
  unfold applyLive Value.field
  cases hobj : patch.asObject with
  | none => rfl
  | some obj => exact (h.foldl_applyKey obj.entries obj.nodup (cfg, {})).1

/-- And when it counts as changed. -/
theorem mem_changed (h : Sets parsesAddr field k takes) (cfg : Config) (patch : Value) :
    k ∈ (applyLive parsesAddr cfg patch).2.changed ↔ ((patch.field k).bind takes).isSome := by
  unfold applyLive Value.field
  cases hobj : patch.asObject with
  | none => simp
  | some obj =>
    rw [(h.foldl_applyKey obj.entries obj.nodup (cfg, {})).2]
    simp only [List.not_mem_nil, false_or]
    rfl

end Sets

/-! ## Each field has its key -/

/-- A key leaves every field that is not its own. -/
structure Untouched (k : String) (cfg cfg' : Config) : Prop where
  role : k ≠ "role" → cfg'.role = cfg.role
  token : k ≠ "token" → cfg'.token = cfg.token
  tokenStore : cfg'.tokenStore = cfg.tokenStore
  listen : k ≠ "listen" → cfg'.listen = cfg.listen
  peer : k ≠ "peer" → cfg'.peer = cfg.peer
  fingerprint : k ≠ "fingerprint" → cfg'.fingerprint = cfg.fingerprint
  capMbps : k ≠ "cap_mbps" → cfg'.capMbps = cfg.capMbps
  localPort : cfg'.localPort = cfg.localPort
  blenderPath : k ≠ "blender_path" → cfg'.blenderPath = cfg.blenderPath
  blenderArgs : k ≠ "blender_args" → cfg'.blenderArgs = cfg.blenderArgs
  kiosk : k ≠ "kiosk" → cfg'.kiosk = cfg.kiosk
  replicaResolution : k ≠ "replica_resolution" → cfg'.replicaResolution = cfg.replicaResolution
  replicaBackingScale :
    k ≠ "replica_backing_scale" → cfg'.replicaBackingScale = cfg.replicaBackingScale
  idleSecs : k ≠ "idle_secs" → cfg'.idleSecs = cfg.idleSecs
  tray : cfg'.tray = cfg.tray
  name : k ≠ "name" → cfg'.name = cfg.name
  discovery : k ≠ "discovery" → cfg'.discovery = cfg.discovery
  phonebook : k ≠ "phonebook" → cfg'.phonebook = cfg.phonebook
  pathMappings : k ≠ "path_mappings" → cfg'.pathMappings = cfg.pathMappings
  cacheRoot : k ≠ "cache_root" → cfg'.cacheRoot = cfg.cacheRoot
  sharedRoot : k ≠ "shared_root" → cfg'.sharedRoot = cfg.sharedRoot

/-- `set_live` touches the field of its key alone. -/
theorem setLive_untouched {cfg cfg' : Config} {k : String} {v : Value}
    (h : setLive parsesAddr cfg k v = some cfg') : Untouched k cfg cfg' := by
  unfold setLive at h
  split at h <;> first
    | cases h
    | (obtain ⟨_, -, rfl⟩ := Option.map_eq_some_iff.mp h
       constructor <;> first
         | rfl
         | exact fun _ => rfl
         | exact fun hne => absurd rfl hne)

/-! ## The fields that the commands go by -/

/-- What each of the five keys takes: a role that there is, an address that parses, and any text. -/
private theorem setLive_own (cfg : Config) (v : Value) :
    (setLive parsesAddr cfg "role" v).map Config.role = v.asStr.filter (· ∈ roles) ∧
      (setLive parsesAddr cfg "listen" v).map Config.listen = v.asStr.filter parsesAddr ∧
      (setLive parsesAddr cfg "token" v).map Config.token = v.asStr ∧
      (setLive parsesAddr cfg "peer" v).map Config.peer = v.asStr ∧
      (setLive parsesAddr cfg "fingerprint" v).map Config.fingerprint = v.asStr := by
  simp only [setLive, Option.map_map, Function.comp_def, Option.map_id', and_self]

/-- Roles. -/
private theorem sets_role :
    Sets parsesAddr Config.role "role" fun v => v.asStr.filter (· ∈ roles) where
  live := by decide
  now := by decide
  self cfg v := (setLive_own cfg v).1
  other _ _ _ _ hne hset := (setLive_untouched hset).role hne

/-- Addresses. -/
private theorem sets_listen :
    Sets parsesAddr Config.listen "listen" fun v => v.asStr.filter parsesAddr where
  live := by decide
  now := by decide
  self cfg v := (setLive_own cfg v).2.1
  other _ _ _ _ hne hset := (setLive_untouched hset).listen hne

/-- Any text. -/
private theorem sets_token : Sets parsesAddr Config.token "token" Value.asStr where
  live := by decide
  now := by decide
  self cfg v := (setLive_own cfg v).2.2.1
  other _ _ _ _ hne hset := (setLive_untouched hset).token hne

/-- Any text. -/
private theorem sets_peer : Sets parsesAddr Config.peer "peer" Value.asStr where
  live := by decide
  now := by decide
  self cfg v := (setLive_own cfg v).2.2.2.1
  other _ _ _ _ hne hset := (setLive_untouched hset).peer hne

/-- Any text. -/
private theorem sets_fingerprint :
    Sets parsesAddr Config.fingerprint "fingerprint" Value.asStr where
  live := by decide
  now := by decide
  self cfg v := (setLive_own cfg v).2.2.2.2
  other _ _ _ _ hne hset := (setLive_untouched hset).fingerprint hne

/-- The role that a patch asks for, if it asks for one that there is. -/
def askedRole (patch : Value) : Option String :=
  (patch.field "role").bind fun v => v.asStr.filter (· ∈ roles)

/-- The address that a patch asks for, if it is one. -/
def askedListen (parsesAddr : String → Bool) (patch : Value) : Option String :=
  (patch.field "listen").bind fun v => v.asStr.filter parsesAddr

/-- The text that a patch has for a key, if it has one. -/
def askedText (k : String) (patch : Value) : Option String := (patch.field k).bind Value.asStr

section

variable (parsesAddr : String → Bool) (cfg : Config) (patch : Value)

/-- The role after a patch. -/
theorem applyLive_role :
    (applyLive parsesAddr cfg patch).1.role = (askedRole patch).getD cfg.role :=
  sets_role.applyLive_field cfg patch

/-- The address that is listened on. -/
theorem applyLive_listen :
    (applyLive parsesAddr cfg patch).1.listen = (askedListen parsesAddr patch).getD cfg.listen :=
  sets_listen.applyLive_field cfg patch

/-- The token. -/
theorem applyLive_token :
    (applyLive parsesAddr cfg patch).1.token = (askedText "token" patch).getD cfg.token :=
  sets_token.applyLive_field cfg patch

/-- The fingerprint. -/
theorem applyLive_fingerprint :
    (applyLive parsesAddr cfg patch).1.fingerprint =
      (askedText "fingerprint" patch).getD cfg.fingerprint :=
  sets_fingerprint.applyLive_field cfg patch

/-- The role counts as changed whenever the patch has a good one, also the same. -/
theorem role_mem_changed :
    "role" ∈ (applyLive parsesAddr cfg patch).2.changed ↔ (askedRole patch).isSome :=
  sets_role.mem_changed cfg patch

/-- So does the address. -/
theorem listen_mem_changed :
    "listen" ∈ (applyLive parsesAddr cfg patch).2.changed ↔
      (askedListen parsesAddr patch).isSome :=
  sets_listen.mem_changed cfg patch

/-- And the token. -/
theorem token_mem_changed :
    "token" ∈ (applyLive parsesAddr cfg patch).2.changed ↔ (askedText "token" patch).isSome :=
  sets_token.mem_changed cfg patch

/-- And the peer. -/
theorem peer_mem_changed :
    "peer" ∈ (applyLive parsesAddr cfg patch).2.changed ↔ (askedText "peer" patch).isSome :=
  sets_peer.mem_changed cfg patch

/-- No live key says where the token is stored. -/
private theorem applyKey_tokenStore (s : Config × Applied) (e : String × Value) :
    (applyKey parsesAddr s e).1.tokenStore = s.1.tokenStore := by
  unfold applyKey
  split
  split
  · rfl
  · split
    · rfl
    · split
      · rename_i hset
        exact (setLive_untouched hset).tokenStore
      · rfl

/-- Where the token is kept no patch changes. -/
theorem applyLive_tokenStore :
    (applyLive parsesAddr cfg patch).1.tokenStore = cfg.tokenStore := by
  unfold applyLive
  split
  · rfl
  · rename_i obj _
    exact foldl_invariant (I := fun s : Config × Applied => s.1.tokenStore = cfg.tokenStore)
      (fun s e hs => (applyKey_tokenStore parsesAddr s e).trans hs) obj.entries rfl

end

end Agent

end QCBridge
