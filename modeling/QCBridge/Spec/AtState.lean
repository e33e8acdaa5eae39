import QCBridge.Spec.Keyed
import QCBridge.Spec.Replay
import QCBridge.ForStd.Guarded

/-!
# `"@"` values across blobs

No blob carries an `"@"` value, so whatever a blob replaces loses them. The
replica keeps the values it was sent, and after a batch puts back those of the
blobs' primaries. A datablock that rode along as a dependency is replaced just
the same, and nothing puts its values back.

## Key results

- `AtAgrees`: the invariant, up to the datablocks a batch has replaced so far
- `at_values_stand`: the values stand while no batch replaces a dependency that has some
-/

namespace QCBridge

variable {V δ : Type}

/-! ## What the replica was sent -/

/-- What the log says was received: which datablocks there are, and the last value
    of every path that was received while its datablock was there. -/
structure Received (V : Type) where
  live : Uuid → Bool
  last : Uuid → Path → Option V := fun _ _ => none

namespace Received

/-- A property write is received. -/
def write (s : Received V) (u : Uuid) (c : Path × V) : Received V :=
  { s with last := fun u' p => if u' = u ∧ p = c.1 then some c.2 else s.last u' p }

/-- One event. A bootstrap starts over from its file. -/
def step (s : Received V) : Ev (Entry V) V δ → Received V
  | .dispatched m =>
    match m.header.kind with
    | .t1 =>
      if s.live m.header.uuid then m.changes.foldl (fun s c => s.write m.header.uuid c) s else s
    | .tomb => { s with live := fun u => u ≠ m.header.uuid && s.live u }
    | _ => s
  | .applied e =>
    if e.isBoot then { live := (Scene.ofFile e.blob).live }
    else { s with live := fun u => s.live u || u ∈ Scene.carried e.blob }
  | _ => s

/-- The whole log, from a scene. -/
def ofLog (scene : Scene V) (log : List (Ev (Entry V) V δ)) : Received V :=
  log.foldl step { live := scene.live }

@[simp] theorem ofLog_append (scene : Scene V) (l₁ l₂ : List (Ev (Entry V) V δ)) :
    ofLog scene (l₁ ++ l₂) = l₂.foldl step (ofLog scene l₁) := List.foldl_append

@[simp] theorem write_live (s : Received V) (u : Uuid) (c : Path × V) :
    (s.write u c).live = s.live := rfl

end Received

/-- The value that the replica keeps to put back. -/
def ReplicaData.saved {S : Type} (d : ReplicaData V δ S) (u : Uuid) (p : Path) : Option V :=
  (d.atState.get? u).bind (·.get? p)

/-- The replica knows what it was sent, keeps the `"@"` values among it, and shows
    them on every datablock outside of `replaced`. -/
structure AtAgrees (replaced : List Uuid) (d : ReplicaData V δ (Scene V)) (s : Received V) :
    Prop where
  live : ∀ u, s.live u = d.scene.live u
  saved : ∀ u p, p.isSetter = true → s.last u p = d.saved u p
  setter : ∀ u p v, d.saved u p = some v → p.isSetter = true
  shown : ∀ u c p v, u ∉ replaced → d.scene u = some c → d.saved u p = some v → c p = some v

namespace AtAgrees

open Replica

variable {replaced : List Uuid} {d : ReplicaData V δ (Scene V)} {s : Received V}

/-- Only the scene and the kept values matter. -/
theorem of_eq (h : AtAgrees replaced d s) {d' : ReplicaData V δ (Scene V)}
    (hscene : d'.scene = d.scene) (hat : d'.atState = d.atState) : AtAgrees replaced d' s := by
  have hsaved : d'.saved = d.saved := by
    funext u p
    simp only [ReplicaData.saved, hat]
  exact ⟨hscene ▸ h.live, hsaved ▸ h.saved, hsaved ▸ h.setter, hscene ▸ hsaved ▸ h.shown⟩

/-- A value put back on a datablock that is there. -/
private theorem rewrite (h : AtAgrees replaced d s) {u : Uuid} {p : Path} {v : V}
    (hsaved : d.saved u p = some v) :
    AtAgrees replaced { d with scene := d.scene.write u p v } s := by
  refine ⟨fun u' => (h.live u').trans (Scene.live_write ..).symm, h.saved, h.setter, ?_⟩
  intro u' c p' v' hu' hc hp'
  have hp' : d.saved u' p' = some v' := hp'
  obtain ⟨c₀, hc₀, hc⟩ := Scene.write_some hc
  rw [hc]
  split
  · rename_i heq
    rw [← hp', heq.1, heq.2, hsaved]
  · exact h.shown u' c₀ p' v' hu' hc₀ hp'

/-- A received value is written and, where its path is an `"@"` path, kept. -/
theorem writeChange (h : AtAgrees replaced d s) {u : Uuid} (hlive : d.scene.live u = true)
    (c : Path × V) : AtAgrees replaced (writeChange (.keyed V δ) u d c) (s.write u c) := by
  have hwrite : (Blender.keyed V δ).writeRna d.scene u c.1 c.2 =
      some (d.scene.write u c.1 c.2) := by
    simp [Blender.keyed, hlive]
  simp only [Replica.writeChange, hwrite]
  -- what is kept afterwards: at an `"@"` path of this datablock the new value
  have hsaved : ∀ u' p', ReplicaData.saved (S := Scene V)
      { d with atState := if c.1.isSetter then
          d.atState.insert u ((d.atState.getD u Dict.empty).insert c.1 c.2) else d.atState } u' p' =
        if c.1.isSetter = true ∧ u' = u ∧ p' = c.1 then some c.2 else d.saved u' p' := by
    intro u' p'
    simp only [ReplicaData.saved]
    cases hset : c.1.isSetter with
    | false => simp
    | true =>
      simp only [if_true, true_and, Dict.get?_insert]
      by_cases hu : u = u'
      · subst hu
        simp only [if_true, Option.bind_some, Dict.get?_insert, true_and, eq_comm (a := p')]
        split
        · rfl
        · cases hget : d.atState.get? u with
          | none => simp [Dict.getD, hget]
          | some saved => simp [Dict.getD, hget]
      · simp [hu, Ne.symm hu]
  -- the write touches no handle
  refine ⟨fun u' => (h.live u').trans (Scene.live_write ..).symm, ?_, ?_, ?_⟩
  · -- kept: at the path itself the value received, elsewhere what was kept
    intro u' p' hp'
    refine Eq.trans ?_ (hsaved u' p').symm
    by_cases heq : u' = u ∧ p' = c.1
    · obtain ⟨rfl, rfl⟩ := heq
      simp [Received.write, hp']
    · rw [if_neg fun hh => heq hh.2]
      simp only [Received.write, if_neg heq]
      exact h.saved u' p' hp'
  · -- setter: what is kept is at `"@"` paths only
    intro u' p' v hv
    have hv := (hsaved u' p').symm.trans hv
    split at hv
    · rename_i heq
      exact heq.2.2 ▸ heq.1
    · exact h.setter u' p' v hv
  · -- shown: the scene shows the value written, and elsewhere what it showed
    intro u' c' p' v hu' hc' hv
    have hv := (hsaved u' p').symm.trans hv
    obtain ⟨c₀, hc₀, hc'⟩ := Scene.write_some hc'
    rw [hc']
    by_cases heq : u' = u ∧ p' = c.1
    · rw [if_pos heq]
      split at hv
      · exact hv
      · rename_i hnot
        exact absurd ⟨heq.2 ▸ h.setter _ _ _ hv, heq⟩ hnot
    · rw [if_neg heq]
      rw [if_neg fun hh => heq hh.2] at hv
      exact h.shown u' c₀ p' v hu' hc₀ hv

theorem foldl_writeChange (h : AtAgrees replaced d s) {u : Uuid} (hlive : d.scene.live u = true)
    (cs : List (Path × V)) :
    AtAgrees replaced (cs.foldl (Replica.writeChange (.keyed V δ) u) d)
      (cs.foldl (fun s c => s.write u c) s) := by
  induction cs generalizing d s with
  | nil => exact h
  | cons c cs ih =>
    have hnext := h.writeChange hlive c
    have hlive' : (Replica.writeChange (.keyed V δ) u d c).scene.live u = true := by
      rw [← hnext.live, Received.write_live, h.live, hlive]
    exact ih hnext hlive'

/-- `_apply_t1`. -/
theorem applyT1 (h : AtAgrees replaced d s) (g : LaneMerger (Entry V) V δ)
    {m : Msg (Entry V) V δ} (hm : m.header.kind = .t1) :
    AtAgrees replaced (applyT1 (.keyed V δ) g d m) (s.step (.dispatched m)) := by
  simp only [Received.step, hm, Replica.applyT1]
  by_cases hlive : d.scene.live m.header.uuid = true
  · have hres : (Blender.keyed V δ).resolves d.scene m.header.uuid = true := hlive
    rw [if_pos ((h.live _).trans hlive), if_pos hres]
    refine foldl_writeChange ?_ ?_ _
    · split
      · exact h.of_eq rfl rfl
      · exact h
    · split <;> exact hlive
  · have hres : ¬ (Blender.keyed V δ).resolves d.scene m.header.uuid = true := hlive
    have hnot : ¬ s.live m.header.uuid = true := by rwa [h.live]
    rw [if_neg hnot, if_neg hres]
    exact h.of_eq rfl rfl

/-- `_apply_tombstone`. -/
theorem applyTombstone (h : AtAgrees replaced d s) {m : Msg (Entry V) V δ}
    (hm : m.header.kind = .tomb) :
    AtAgrees replaced (applyTombstone (.keyed V δ) d m.header.uuid) (s.step (.dispatched m)) := by
  simp only [Received.step, hm, Replica.applyTombstone]
  by_cases hlive : d.scene.live m.header.uuid = true
  · have hres : (Blender.keyed V δ).resolves d.scene m.header.uuid = true := hlive
    rw [if_pos hres]
    refine ⟨fun u => ?_, h.saved, h.setter, ?_⟩
    · refine Eq.trans ?_ (Scene.live_remove ..).symm
      simp only [h.live]
      split <;> simp_all
    · intro u c p v hu hc hv
      simp only [Blender.keyed, Scene.remove] at hc
      split at hc
      · cases hc
      · exact h.shown u c p v hu hc hv
  · have hres : ¬ (Blender.keyed V δ).resolves d.scene m.header.uuid = true := hlive
    rw [if_neg hres]
    refine ⟨fun u => ?_, h.saved, h.setter, h.shown⟩
    simp only [h.live]
    by_cases hu : u = m.header.uuid
    · subst hu
      simpa using hlive
    · simp [hu]

/-- Any other message leaves all of this alone. -/
theorem step_other {m : Msg (Entry V) V δ} (ht1 : m.header.kind ≠ .t1)
    (htomb : m.header.kind ≠ .tomb) : s.step (.dispatched m) = s := by
  simp only [Received.step]

/-- A blob replaced everything it carries. -/
theorem load (h : AtAgrees replaced d s) {e : Pending (Entry V) δ} (hboot : e.isBoot = false)
    {d' : ReplicaData V δ (Scene V)} (hscene : d'.scene = d.scene.load e.blob)
    (hat : d'.atState = d.atState) :
    AtAgrees (replaced ++ Scene.carried e.blob) d' (s.step (.applied e : Ev (Entry V) V δ)) := by
  have hsaved : d'.saved = d.saved := by
    funext u p
    simp only [ReplicaData.saved, hat]
  simp only [Received.step, hboot, Bool.false_eq_true, if_false]
  refine ⟨fun u => ?_, hsaved ▸ h.saved, hsaved ▸ h.setter, ?_⟩
  · rw [hscene, Scene.live_load, ← h.live]
  · intro u c p v hu hc hv
    rw [List.mem_append, not_or] at hu
    rw [hscene, Scene.load_of_not_carried _ hu.2] at hc
    exact h.shown u c p v hu.1 hc (hsaved ▸ hv)

/-- The values stand on a datablock: those kept for it are the ones it shows. -/
def Shows (d : ReplicaData V δ (Scene V)) (u : Uuid) (p : Path) (v : V) : Prop :=
  ∀ c, d.scene u = some c → c p = some v

/-- A kept value put back stays, and so does every other kept value already shown. -/
private theorem shows_write {u : Uuid} {p p' : Path} {v v' : V} (hsaved : d.saved u p = some v)
    (hsaved' : d.saved u p' = some v') (h : p' = p ∨ Shows d u p' v') :
    Shows { d with scene := d.scene.write u p v } u p' v' := by
  intro c hc
  obtain ⟨c₀, hc₀, hc⟩ := Scene.write_some hc
  rw [hc]
  split
  · rename_i heq
    rw [← hsaved', heq.2, hsaved]
  · rename_i hne
    exact (h.resolve_left fun heq => hne ⟨rfl, heq⟩) c₀ hc₀

/-- The loop of `_reapply_at_state`, over some of the kept values. -/
private theorem foldl_reapply {u : Uuid} (h : AtAgrees replaced d s) (hlive : d.scene.live u = true)
    (l : List (Path × V)) (hl : ∀ c ∈ l, d.saved u c.1 = some c.2) :
    let d' := l.foldl (putBack (.keyed V δ) u) d
    AtAgrees replaced d' s ∧ d'.atState = d.atState ∧
      ∀ p v, d.saved u p = some v → ((p, v) ∈ l ∨ Shows d u p v) → Shows d' u p v := by
  induction l generalizing d with
  | nil => exact ⟨h, rfl, fun p v _ hp => hp.resolve_left (by simp)⟩
  | cons c l ih =>
    have hwrite : putBack (.keyed V δ) u d c = { d with scene := d.scene.write u c.1 c.2 } := by
      simp [putBack, Blender.keyed, hlive]
    have hc := hl c (by simp)
    simp only [List.foldl_cons, hwrite]
    obtain ⟨hagrees, hat, hshows⟩ := ih (h.rewrite hc)
      ((Scene.live_write ..).trans hlive) fun c' hc' => hl c' (by simp [hc'])
    refine ⟨hagrees, hat, fun p v hp hmem => hshows p v hp ?_⟩
    rcases hmem with hmem | hshown
    · rcases List.mem_cons.mp hmem with heq | hmem
      · exact .inr (shows_write hc hp (.inl (congrArg Prod.fst heq)))
      · exact .inl hmem
    · exact .inr (shows_write hc hp (.inr hshown))

/-- `_reapply_at_state`: the datablock shows its values again. -/
theorem reapplyAtState (h : AtAgrees replaced d s) (u : Uuid) :
    AtAgrees (replaced.filter (· ≠ u)) (reapplyAtState (.keyed V δ) d u) s ∧
      (reapplyAtState (.keyed V δ) d u).atState = d.atState := by
  -- only the values of `u` itself are in question
  have hwiden : ∀ d' : ReplicaData V δ (Scene V), AtAgrees replaced d' s →
      (∀ p v, d'.saved u p = some v → Shows d' u p v) →
      AtAgrees (replaced.filter (· ≠ u)) d' s := by
    intro d' h' hu
    refine ⟨h'.live, h'.saved, h'.setter, fun u' c p v hmem hc hv => ?_⟩
    by_cases heq : u' = u
    · exact hu p v (heq ▸ hv) c (heq ▸ hc)
    · exact h'.shown u' c p v (fun hin => hmem (by simp [hin, heq])) hc hv
  simp only [Replica.reapplyAtState]
  cases hget : d.atState.get? u with
  | none =>
    refine ⟨hwiden d h fun p v hv => ?_, rfl⟩
    simp [ReplicaData.saved, hget] at hv
  | some saved =>
    have hsaved : ∀ p, d.saved u p = saved.get? p := by
      intro p
      simp [ReplicaData.saved, hget]
    by_cases hlive : d.scene.live u = true
    · have hres : (Blender.keyed V δ).resolves d.scene u = true := hlive
      simp only [if_pos hres]
      obtain ⟨hagrees, hat, hshows⟩ := h.foldl_reapply hlive saved.entries fun c hc =>
        (hsaved c.1).trans (Dict.get?_of_mem hc)
      refine ⟨hwiden _ hagrees fun p v hv => ?_, hat⟩
      simp only [ReplicaData.saved, hat] at hv
      exact hshows p v hv (.inl ((Dict.mem_entries_iff ..).mpr ((hsaved p).symm.trans hv)))
    · have hres : ¬ (Blender.keyed V δ).resolves d.scene u = true := hlive
      simp only [if_neg hres]
      refine ⟨hwiden d h fun p v _ c hc => ?_, trivial⟩
      simp [Scene.live, hc] at hlive

/-- Putting back the values of several datablocks. -/
theorem foldl_reapplyAtState (h : AtAgrees replaced d s) (us : List Uuid) :
    AtAgrees (replaced.filter (· ∉ us)) (us.foldl (Replica.reapplyAtState (.keyed V δ)) d) s ∧
      (us.foldl (Replica.reapplyAtState (.keyed V δ)) d).atState = d.atState := by
  induction us generalizing d replaced with
  | nil => simpa using h
  | cons u us ih =>
    obtain ⟨hone, hat⟩ := h.reapplyAtState u
    obtain ⟨hrest, hat'⟩ := ih hone
    refine ⟨?_, hat'.trans hat⟩
    rw [List.filter_filter] at hrest
    simpa [List.mem_cons, not_or, Bool.and_comm] using hrest

/-- What has no kept values shows all of them. -/
private theorem of_unsaved (h : AtAgrees replaced d s)
    (hnone : ∀ u ∈ replaced, d.atState.get? u = none) :
    AtAgrees [] d s := by
  refine ⟨h.live, h.saved, h.setter, fun u c p v _ hc hv => ?_⟩
  by_cases hu : u ∈ replaced
  · simp [ReplicaData.saved, hnone u hu] at hv
  · exact h.shown u c p v hu hc hv

end AtAgrees

/-! ## The apply loop -/

namespace Replica

/-- What holds of the apply loop between two actions. -/
def AtShown (scene : Scene V) (replaced : List Uuid) (r : Replica (Entry V) V δ (Scene V)) : Prop :=
  AtAgrees replaced r.data (Received.ofLog scene r.log)

variable {scene : Scene V} {replaced : List Uuid} {r : Replica (Entry V) V δ (Scene V)}

/-- The property is carried by everything a message does. -/
theorem atShown_carries (scene : Scene V) (replaced : List Uuid) :
    Carries (.keyed V δ) fun d log => AtAgrees replaced d (Received.ofLog scene log) where
  of_eq h hscene hat := AtAgrees.of_eq h hscene hat
  quiet {d log ev} hev h := by
    cases ev with
    | dispatched m => cases hev
    | applied e => cases hev
    | _ =>
      simp only [Received.ofLog_append]
      exact h
  t1 hm h := by
    simp only [Received.ofLog_append]
    exact AtAgrees.applyT1 h _ hm
  tomb hm h := by
    simp only [Received.ofLog_append]
    exact AtAgrees.applyTombstone h hm
  other ht1 htomb h := by
    simpa only [Received.ofLog_append, List.foldl_cons, List.foldl_nil,
      AtAgrees.step_other ht1 htomb] using h
  link h := AtAgrees.of_eq h rfl rfl
  libfile h := AtAgrees.of_eq h rfl rfl

/-! ## Batches -/

/-- The blobs that a batch takes. -/
def batched (budget : Nat) : List (Pending (Entry V) δ) → Nat → List (Pending (Entry V) δ)
  | [], _ => []
  | e :: rest, applied =>
    if applied ≠ 0 ∧ (e.isBoot ∨ budget ≤ applied) then []
    else if e.isBoot then [e]
    else e :: batched budget rest (applied + 1)

/-- A bootstrap shares its batch with no other blob. -/
private theorem batched_noBoot {budget applied : Nat} {es : List (Pending (Entry V) δ)}
    {e : Pending (Entry V) δ} (he : e ∈ batched budget es applied) (hboot : e.isBoot = false) :
    ∀ e' ∈ batched budget es applied, e'.isBoot = false := by
  -- after its first blob a batch takes no bootstrap
  have hlater : ∀ (es : List (Pending (Entry V) δ)) (applied : Nat), applied ≠ 0 →
      ∀ e' ∈ batched budget es applied, e'.isBoot = false := by
    intro es
    induction es with
    | nil => intro _ _ e' he'; simp [batched] at he'
    | cons e₀ rest ih =>
      intro applied hpos e' he'
      simp only [batched] at he'
      split at he'
      · cases he'
      · rename_i hstop
        have hnot : e₀.isBoot = false := by
          by_contra hb
          exact hstop ⟨hpos, .inl (by simpa using hb)⟩
        rw [if_neg (by simp [hnot])] at he'
        rcases List.mem_cons.mp he' with rfl | he'
        · exact hnot
        · exact ih (applied + 1) (Nat.succ_ne_zero _) e' he'
  -- the first blob: a bootstrap is a batch of its own
  cases es with
  | nil => simp [batched] at he
  | cons e₀ rest =>
    intro e' he'
    simp only [batched] at he he'
    split at he
    · cases he
    · rename_i hgo
      rw [if_neg hgo] at he'
      split at he
      · rename_i hb
        obtain rfl := List.mem_singleton.mp he
        rw [hb] at hboot
        cases hboot
      · rename_i hb
        rw [if_neg hb] at he'
        rcases List.mem_cons.mp he' with rfl | he'
        · simpa using hb
        · exact hlater rest _ (Nat.succ_ne_zero _) e' he'

/-- The datablocks a blob replaces. A bootstrap replaces the scene. -/
def replacedBy (e : Pending (Entry V) δ) : List Uuid :=
  if e.isBoot then [] else Scene.carried e.blob

/-- The datablocks whose values are put back for a blob. -/
def reappliedFor (e : Pending (Entry V) δ) : List Uuid :=
  if e.isBoot ∨ e.header.uuid = "" then [] else [e.header.uuid]

/-- One blob of a batch. -/
theorem AtShown.applyNext (h : r.AtShown scene replaced) (e : Pending (Entry V) δ)
    (rest : List (Pending (Entry V) δ)) :
    (applyNext (.keyed V δ) r e rest).1.AtShown scene (replaced ++ replacedBy e) ∧
      (applyNext (.keyed V δ) r e rest).2.1 = reappliedFor e ∧
      (e.isBoot = false →
        (applyNext (.keyed V δ) r e rest).1.data.atState = r.data.atState) := by
  -- a bootstrap: nothing is kept, and the scene is the one in its file
  cases hboot : e.isBoot with
  | true =>
    refine ⟨?_, by simp [Replica.applyNext, applyOne, hboot, reappliedFor], by simp⟩
    have hlog : Received.ofLog scene
        (Replica.applyNext (.keyed V δ) r e rest).1.log =
          { live := (Scene.ofFile e.blob).live } := by
      simp only [Replica.applyNext, applyOne, hboot, if_true, applyBoot, Received.ofLog_append,
        List.foldl_cons, List.foldl_nil, Received.step]
    have hat : (Replica.applyNext (.keyed V δ) r e rest).1.data.atState = Dict.empty := by
      simp only [Replica.applyNext, applyOne, hboot, if_true, applyBoot]
    have hscene : (Replica.applyNext (.keyed V δ) r e rest).1.data.scene =
        Scene.ofFile e.blob := by
      simp only [Replica.applyNext, applyOne, hboot, if_true, applyBoot]
      rfl
    have hnone : ∀ u p, (Replica.applyNext (.keyed V δ) r e rest).1.data.saved u p = none := by
      intro u p
      simp [ReplicaData.saved, hat]
    rw [AtShown, hlog]
    refine ⟨fun u => by rw [hscene], fun u p _ => (hnone u p).symm, ?_, ?_⟩
    · intro u p v hv
      rw [hnone] at hv
      cases hv
    · intro u c p v _ _ hv
      rw [hnone] at hv
      cases hv
  -- a datablock's blob is loaded over the scene, and what is kept stays
  | false =>
    have hone : (Blender.keyed V δ).applyBlob r.data.scene e.blob =
        some (r.data.scene.load e.blob, 0) := rfl
    refine ⟨?_, ?_, ?_⟩
    · have hscene : (Replica.applyNext (.keyed V δ) r e rest).1.data.scene =
          r.data.scene.load e.blob := by simp [Replica.applyNext, applyOne, hboot, hone]
      have hat : (Replica.applyNext (.keyed V δ) r e rest).1.data.atState = r.data.atState := by
        simp [Replica.applyNext, applyOne, hboot, hone]
      have hnext := AtAgrees.load h hboot hscene hat
      have hlog : (Replica.applyNext (.keyed V δ) r e rest).1.log = r.log ++ [Ev.applied e] := by
        simp [Replica.applyNext, applyOne, hboot, hone]
      rw [AtShown, hlog, Received.ofLog_append, replacedBy, if_neg (by simp [hboot])]
      exact hnext
    · simp [Replica.applyNext, applyOne, hboot, hone, reappliedFor]
    · intro _
      simp [Replica.applyNext, applyOne, hboot, hone]

/-- The batch loop. -/
theorem AtShown.batchLoop (budget : Nat) (es : List (Pending (Entry V) δ)) (applied : Nat)
    (h : r.AtShown scene replaced) (reapply : List Uuid) (due : List (Msg (Entry V) V δ)) :
    (batchLoop (.keyed V δ) budget es applied r reapply due).1.AtShown scene
        (replaced ++ (batched budget es applied).flatMap replacedBy) ∧
      (batchLoop (.keyed V δ) budget es applied r reapply due).2.1 =
        reapply ++ (batched budget es applied).flatMap reappliedFor ∧
      ((∀ e ∈ batched budget es applied, e.isBoot = false) →
        (batchLoop (.keyed V δ) budget es applied r reapply due).1.data.atState =
          r.data.atState) := by
  induction es generalizing r replaced applied reapply due with
  | nil => simpa [Replica.batchLoop, batched] using h
  | cons e rest ih =>
    obtain ⟨hnext, hre, hat⟩ := h.applyNext e rest
    simp only [Replica.batchLoop, batched]
    split
    · -- the batch is full
      simpa using h
    · split
      · -- a bootstrap ends it
        rename_i hboot
        simp only [List.flatMap_cons, List.flatMap_nil, List.append_nil]
        exact ⟨hnext, by rw [hre], fun hno => by simp [hboot] at hno⟩
      · -- any other blob goes on
        rename_i hboot
        obtain ⟨hloop, hre', hat'⟩ := ih (applied + 1) hnext
          (reapply ++ (Replica.applyNext (.keyed V δ) r e rest).2.1)
          (due ++ (Replica.applyNext (.keyed V δ) r e rest).2.2)
        simp only [List.flatMap_cons, ← List.append_assoc]
        refine ⟨hloop, by rw [hre', hre], fun hno => ?_⟩
        rw [hat' fun e' he' => hno e' (List.mem_cons_of_mem _ he'), hat (by simpa using hboot)]

/-- `_apply_pending_batch`, when every datablock it replaces either has its values
    put back or has none. -/
theorem AtShown.applyPendingBatch (budget : Nat) (h : r.AtShown scene [])
    (hsafe : ∀ u ∈ (batched budget r.pending 0).flatMap replacedBy,
      u ∈ (batched budget r.pending 0).flatMap reappliedFor ∨ r.data.atState.get? u = none) :
    (applyPendingBatch (.keyed V δ) budget r).AtShown scene [] := by
  obtain ⟨hloop, hre, hat⟩ := h.batchLoop budget r.pending 0 [] []
  simp only [List.nil_append] at hloop hre
  obtain ⟨hback, hkept⟩ := AtAgrees.foldl_reapplyAtState hloop
    ((batched budget r.pending 0).flatMap reappliedFor)
  have hnone := hback.of_unsaved fun u hu => by
    obtain ⟨hmem, hnot⟩ := List.mem_filter.mp hu
    have hnot : u ∉ (batched budget r.pending 0).flatMap reappliedFor := by simpa using hnot
    -- only tier-2 blobs replace datablocks, and a batch that has one has no bootstrap
    obtain ⟨e, he, hue⟩ := List.mem_flatMap.mp hmem
    rw [hkept, hat (batched_noBoot he (by
      by_contra hb
      simp [replacedBy, hb] at hue))]
    exact (hsafe u hmem).resolve_left hnot
  simp only [Replica.applyPendingBatch]
  refine (atShown_carries scene []).release (J := fun d log => AtAgrees [] d _) ?_ _
  rw [hre]
  exact AtAgrees.of_eq hnone rfl rfl

end Replica

/-! ## Runs -/

/-- Every datablock that the action's batch replaces is the primary of a blob of
    that batch, or no `"@"` value is kept for it. -/
def Node.AtCarried (n : Node (Entry V) V δ (Scene V)) : Node.Act → Prop
  | .turn _ _ => True
  | .batch budget =>
    ∀ u ∈ (Replica.batched budget n.replica.pending 0).flatMap Replica.replacedBy,
      u ∈ (Replica.batched budget n.replica.pending 0).flatMap Replica.reappliedFor ∨
        n.replica.data.atState.get? u = none

instance (n : Node (Entry V) V δ (Scene V)) : (a : Node.Act) → Decidable (n.AtCarried a)
  | .turn _ _ => .isTrue trivial
  | .batch budget => by
    unfold Node.AtCarried
    exact List.decidableBAll _ _

/-- Every datablock shows the last value received of each of its `"@"` paths. -/
def AtValuesStand (scene : Scene V) (r : Replica (Entry V) V δ (Scene V)) : Prop :=
  ∀ u c, r.data.scene u = some c → ∀ p v, p.isSetter = true →
    (Received.ofLog scene r.log).last u p = some v → c p = some v

/-- One action. -/
private theorem Node.atShown_step {scene : Scene V} {n : Node (Entry V) V δ (Scene V)}
    {a : Node.Act}
    (h : n.replica.AtShown scene []) (hsafe : n.AtCarried a) :
    (n.step (.keyed V δ) a).replica.AtShown scene [] := by
  cases a with
  | turn kf kc =>
    simp only [Node.step]
    cases htake : n.take kf kc with
    | mk n' out =>
      cases out with
      | none => exact take_none htake ▸ h
      | some m =>
        obtain ⟨-, hdata, hlog, -⟩ := take_some htake
        have h' : n'.replica.AtShown scene [] := by
          rw [Replica.AtShown, hdata, hlog]
          exact h
        exact (Replica.atShown_carries scene []).handle h' m
  | batch budget => exact h.applyPendingBatch budget hsafe

/-- In every run whose batches replace no dependency that has `"@"` values, every
    datablock shows the values it was sent last, after every batch and in between. -/
theorem at_values_stand (scene : Scene V) (c0 f0 : Nat) (cold fast : List (Msg (Entry V) V δ))
    (acts : List Node.Act)
    (h : Along (Node.step (.keyed V δ)) Node.AtCarried (Node.start scene c0 f0 cold fast) acts) :
    AtValuesStand scene
      (Node.run (.keyed V δ) (Node.start scene c0 f0 cold fast) acts).replica := by
  have hnone : ∀ u p, (Node.start scene c0 f0 cold fast).replica.data.saved u p = none :=
    fun _ _ => rfl
  have hstart : (Node.start scene c0 f0 cold fast).replica.AtShown scene [] := by
    refine ⟨fun _ => rfl, fun u p _ => (hnone u p).symm, fun u p v hv => ?_, ?_⟩
    · rw [hnone] at hv
      cases hv
    · intro u c p v _ _ hv
      rw [hnone] at hv
      cases hv
  have hrun := h.invariant (I := fun n => n.replica.AtShown scene [])
    (fun n a hn hsafe => n.atShown_step hn hsafe) hstart
  intro u c hc p v hp hlast
  exact hrun.shown u c p v (by simp) hc ((hrun.saved u p hp).symm.trans hlast)

/-! ## A value that is lost -/

namespace Dependency

/-- Objects `"p"` and `"d"`, without values. -/
def scene : Scene Nat := fun u => if u = "p" ∨ u = "d" then some fun _ => none else none

/-- `"d"` is hidden. -/
def hide : Msg (Entry Nat) Nat Nat where
  header := { kind := .t1, lane := .fast, seq := some 1, uuid := "d" }
  payload := .changes [(.setter "hide", 1)]

/-- A one-chunk blob of the datablock `u` that carries `entries`. -/
def blob (u : Uuid) (entries : List (Entry Nat)) : Msg (Entry Nat) Nat Nat where
  header := { kind := .t2, seq := some 1, uuid := u,
              blob := some ⟨.t2 u 0, 0, 1, entries.length, 0⟩ }
  payload := .bytes entries

/-- The delta is applied, the blob arrives, a batch applies it. -/
def acts : List Node.Act := [.turn 64 0, .turn 0 8, .batch 16]

end Dependency

open Dependency in
/-- The blob of `"p"` brings `"d"` along, and `"d"` is no longer hidden. -/
theorem at_values_stand_counterexample :
    ¬ AtValuesStand scene (Node.run (.keyed Nat Nat)
      (Node.start scene 0 0 [blob "p" [("p", Dict.empty), ("d", Dict.empty)]] [hide])
      acts).replica := by
  intro h
  have := h "d" _ rfl (.setter "hide") 1 rfl (by decide)
  revert this
  decide

open Dependency in
/-- The blob of `"d"` itself leaves it hidden. -/
theorem at_values_stand_primary :
    AtValuesStand scene (Node.run (.keyed Nat Nat)
      (Node.start scene 0 0 [blob "d" [("d", Dict.empty)]] [hide]) acts).replica :=
  at_values_stand scene 0 0 [blob "d" [("d", Dict.empty)]] [hide] acts
    ⟨trivial, trivial, by decide, trivial⟩

end QCBridge
