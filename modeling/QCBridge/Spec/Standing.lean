import QCBridge.Spec.AtState

/-!
# What is left standing of the fast messages

For each datablock, what the fast messages handled since the last blob that
brought it add up to: a tombstone removes it, and of the deltas for a path the
last one wins. The scene shows exactly that, whatever the batches replace and put
back in between.

## Key results

- `Trail.ofLog`: what the log adds up to
- `standing_run`: the scene shows it
-/

namespace QCBridge

variable {V δ : Type}

/-- The values of some paths overwritten in order. -/
def Content.writes (c : Content V) (changes : List (Path × V)) : Content V :=
  changes.foldl (fun c x p => if p = x.1 then some x.2 else c p) c

/-- More is written over more. -/
theorem Content.writes_mono {f c : Content V} (h : ∀ p v, f p = some v → c p = some v)
    (changes : List (Path × V)) :
    ∀ p v, f.writes changes p = some v → c.writes changes p = some v := by
  induction changes generalizing f c with
  | nil => exact h
  | cons x changes ih =>
    refine ih (f := fun p => if p = x.1 then some x.2 else f p) fun p v hv => ?_
    by_cases hp : p = x.1
    · simpa [hp] using hv
    · simp only [hp, if_false] at hv ⊢
      exact h p v hv

/-- What is known of a datablock: nothing but the values written to it since a blob
    brought it, or that it is gone (`none`). -/
abbrev Trail (V : Type) := Option (Content V)

/-- Whether the blob brings the datablock, or touches it as its primary. -/
def Pending.brings (u : Uuid) (e : Pending (Entry V) δ) : Bool :=
  e.isBoot || e.header.uuid = u || u ∈ Scene.carried e.blob

namespace Trail

/-- A message of the datablock. -/
def message (t : Trail V) (m : Msg (Entry V) V δ) : Trail V :=
  match m.header.kind with
  | .t1 => t.map (·.writes m.changes)
  | .tomb => none
  | _ => t

/-- One event. -/
def step (u : Uuid) (t : Trail V) : Ev (Entry V) V δ → Trail V
  | .dispatched m => if m.header.uuid = u then t.message m else t
  | .applied e => if e.brings u then some fun _ => none else t
  | _ => t

/-- The whole log. -/
def ofLog (u : Uuid) (log : List (Ev (Entry V) V δ)) : Trail V :=
  log.foldl (step u) (some fun _ => none)

@[simp] theorem ofLog_append (u : Uuid) (l₁ l₂ : List (Ev (Entry V) V δ)) :
    ofLog u (l₁ ++ l₂) = l₂.foldl (step u) (ofLog u l₁) := List.foldl_append

/-- The datablock `s` shows what the trail says. -/
def Holds : Trail V → Option (Content V) → Prop
  | none, s => s = none
  | some f, s => ∀ c, s = some c → ∀ p v, f p = some v → c p = some v

private theorem holds_unknown (s : Option (Content V)) : Holds (some fun _ => none) s := by
  intro c _ p v hv
  cases hv

end Trail

/-- Every datablock shows what the log adds up to, but those of `back`, of which
    nothing is known until their values are put back. -/
def Stands (back : List Uuid) (d : ReplicaData V δ (Scene V)) (log : List (Ev (Entry V) V δ)) :
    Prop :=
  ∀ u, (Trail.ofLog u log).Holds (d.scene u) ∧
    (u ∈ back → Trail.ofLog u log = some fun _ => none)

namespace Stands

open Replica

variable {back : List Uuid} {d : ReplicaData V δ (Scene V)} {log : List (Ev (Entry V) V δ)}

/-- The deltas of a message, written one after the other. -/
theorem foldl_writeChange (u : Uuid) (changes : List (Path × V)) (d : ReplicaData V δ (Scene V))
    {c : Content V} (hc : d.scene u = some c) :
    (changes.foldl (writeChange (.keyed V δ) u) d).scene u = some (c.writes changes) ∧
      ∀ u', u' ≠ u → (changes.foldl (writeChange (.keyed V δ) u) d).scene u' = d.scene u' := by
  induction changes generalizing d c with
  | nil => exact ⟨hc, fun _ _ => rfl⟩
  | cons x changes ih =>
    have hlive : d.scene.live u = true := by simp [Scene.live, hc]
    have hwrite : (writeChange (.keyed V δ) u d x).scene = d.scene.write u x.1 x.2 := by
      simp [writeChange, Blender.keyed, hlive]
    have hself : (writeChange (.keyed V δ) u d x).scene u =
        some fun p => if p = x.1 then some x.2 else c p := by
      rw [hwrite, Scene.write, if_pos rfl, hc]
      rfl
    obtain ⟨hrest, hothers⟩ := ih _ hself
    refine ⟨hrest, fun u' hu' => ?_⟩
    rw [List.foldl_cons, hothers u' hu', hwrite, Scene.write, if_neg hu']

/-- `_apply_t1`. -/
theorem applyT1 (g : LaneMerger (Entry V) V δ) (d : ReplicaData V δ (Scene V))
    (m : Msg (Entry V) V δ) :
    (applyT1 (.keyed V δ) g d m).scene m.header.uuid =
        (d.scene m.header.uuid).map (·.writes m.changes) ∧
      ∀ u, u ≠ m.header.uuid → (applyT1 (.keyed V δ) g d m).scene u = d.scene u := by
  simp only [Replica.applyT1]
  cases hc : d.scene m.header.uuid with
  | none =>
    have hres : (Blender.keyed V δ).resolves d.scene m.header.uuid = false := by
      simp [Blender.keyed, Scene.live, hc]
    simp only [hres, Bool.false_eq_true, if_false]
    exact ⟨hc, fun _ _ => rfl⟩
  | some c =>
    have hres : (Blender.keyed V δ).resolves d.scene m.header.uuid = true := by
      simp [Blender.keyed, Scene.live, hc]
    simp only [hres, if_true]
    split
    · exact foldl_writeChange m.header.uuid m.changes _ hc
    · exact foldl_writeChange m.header.uuid m.changes _ hc

/-- `_apply_tombstone`. -/
theorem applyTombstone (d : ReplicaData V δ (Scene V)) (u : Uuid) :
    (applyTombstone (.keyed V δ) d u).scene u = none ∧
      ∀ u', u' ≠ u → (applyTombstone (.keyed V δ) d u).scene u' = d.scene u' := by
  simp only [Replica.applyTombstone]
  cases hc : d.scene u with
  | none =>
    have hres : (Blender.keyed V δ).resolves d.scene u = false := by
      simp [Blender.keyed, Scene.live, hc]
    simp only [hres, Bool.false_eq_true, if_false]
    exact ⟨hc, fun _ _ => trivial⟩
  | some c =>
    have hres : (Blender.keyed V δ).resolves d.scene u = true := by
      simp [Blender.keyed, Scene.live, hc]
    simp only [hres, if_true]
    exact ⟨if_pos rfl, fun u' hu' => if_neg hu'⟩

/-- What holds once a message of one datablock is handled. -/
theorem dispatched (h : Stands back d log) {m : Msg (Entry V) V δ} (hm : m.header.uuid ∉ back)
    {d' : ReplicaData V δ (Scene V)}
    (hself : ((Trail.ofLog m.header.uuid log).message m).Holds (d'.scene m.header.uuid))
    (hothers : ∀ u, u ≠ m.header.uuid → d'.scene u = d.scene u) :
    Stands back d' (log ++ [.dispatched m]) := by
  intro u
  rw [Trail.ofLog_append, List.foldl_cons, List.foldl_nil, Trail.step]
  by_cases hu : m.header.uuid = u
  · subst hu
    rw [if_pos rfl]
    exact ⟨hself, fun hback => absurd hback hm⟩
  · rw [if_neg hu, hothers u (Ne.symm hu)]
    exact h u

/-- An event that is no effect. -/
theorem quiet (h : Stands back d log) {ev : Ev (Entry V) V δ} (hev : ev.isEffect = false) :
    Stands back d (log ++ [ev]) := by
  cases ev with
  | dispatched m => cases hev
  | applied e => cases hev
  | _ =>
    intro u
    rw [Trail.ofLog_append]
    exact h u

/-- The scene shows what the log adds up to, through everything a message does. -/
theorem carries : Carries (.keyed V δ) (@Stands V δ []) where
  of_eq h hscene _ := by
    intro u
    rw [hscene]
    exact h u
  quiet hev h := h.quiet hev
  -- values are written over what is known, if anything is
  t1 {d log g m} hm h := by
    obtain ⟨hself, hothers⟩ := applyT1 g d m
    refine h.dispatched (by simp) ?_ hothers
    have hold := (h m.header.uuid).1
    rw [hself]
    simp only [Trail.message, hm]
    cases hf : Trail.ofLog m.header.uuid log with
    | none =>
      rw [hf] at hold
      have hnone : d.scene m.header.uuid = none := hold
      rw [hnone]
      rfl
    | some f =>
      rw [hf] at hold
      intro c hc p v hv
      obtain ⟨c₀, hc₀, rfl⟩ := Option.map_eq_some_iff.mp hc
      exact Content.writes_mono (fun p v => hold c₀ hc₀ p v) m.changes p v hv
  -- after a tombstone nothing is known, and nothing is there
  tomb {d log m} hm h := by
    obtain ⟨hself, hothers⟩ := applyTombstone d m.header.uuid
    refine h.dispatched (by simp) ?_ hothers
    simp only [Trail.message, hm]
    exact hself
  -- any other message leaves what is known
  other {d log m} ht1 htomb h := by
    refine h.dispatched (by simp) ?_ fun _ _ => rfl
    have hsame : (Trail.ofLog m.header.uuid log).message m = Trail.ofLog m.header.uuid log := by
      simp only [Trail.message]
    rw [hsame]
    exact (h m.header.uuid).1
  link h := h
  libfile h := h

/-! ## Batches -/

/-- A blob was applied. -/
theorem applied (h : Stands back d log) {e : Pending (Entry V) δ}
    {d' : ReplicaData V δ (Scene V)} (hothers : ∀ u, e.brings u = false → d'.scene u = d.scene u)
    {more : List Uuid} (hmore : ∀ u ∈ more, e.brings u = true) :
    Stands (back ++ more) d' (log ++ [.applied e]) := by
  intro u
  rw [Trail.ofLog_append, List.foldl_cons, List.foldl_nil, Trail.step]
  by_cases hu : e.brings u = true
  · rw [if_pos hu]
    exact ⟨Trail.holds_unknown _, fun _ => rfl⟩
  · rw [if_neg hu, hothers u (by simpa using hu)]
    refine ⟨(h u).1, fun hback => ?_⟩
    rcases List.mem_append.mp hback with hback | hback
    · exact (h u).2 hback
    · exact absurd (hmore u hback) hu

/-- Values put back on a datablock of which nothing is known. -/
private theorem foldl_putBack {u : Uuid} (values : List (Path × V))
    (d : ReplicaData V δ (Scene V)) :
    ∀ u', u' ≠ u → (values.foldl (putBack (.keyed V δ) u) d).scene u' = d.scene u' := by
  induction values generalizing d with
  | nil => exact fun _ _ => rfl
  | cons x values ih =>
    intro u' hu'
    rw [List.foldl_cons, ih _ u' hu']
    simp only [putBack]
    split
    · rename_i s hs
      simp only [Blender.keyed] at hs
      split at hs
      · cases hs
        exact if_neg hu'
      · cases hs
    · rfl

/-- The values of the batch's primaries are put back. -/
theorem reapply (h : Stands back d log) (us : List Uuid) (hus : us ⊆ back) :
    Stands back (us.foldl (reapplyAtState (.keyed V δ)) d) log := by
  induction us generalizing d with
  | nil => exact h
  | cons u us ih =>
    refine ih (fun u' => ?_) fun u' hu' => hus (by simp [hu'])
    refine ⟨?_, (h u').2⟩
    by_cases hu : u' = u
    · rw [(h u').2 (hus (by simp [hu]))]
      exact Trail.holds_unknown _
    · have hsame : (reapplyAtState (.keyed V δ) d u).scene u' = d.scene u' := by
        simp only [Replica.reapplyAtState]
        split
        · rfl
        · split
          · exact foldl_putBack _ d u' hu
          · rfl
      rw [hsame]
      exact (h u').1

variable {r : Replica (Entry V) V δ (Scene V)}

/-- One blob of a batch. -/
theorem applyNext (h : Stands back r.data r.log) (e : Pending (Entry V) δ)
    (rest : List (Pending (Entry V) δ)) :
    Stands (back ++ (applyNext (.keyed V δ) r e rest).2.1)
      (applyNext (.keyed V δ) r e rest).1.data (applyNext (.keyed V δ) r e rest).1.log := by
  cases hboot : e.isBoot with
  | true =>
    simp only [Replica.applyNext, applyOne, hboot, if_true, applyBoot]
    refine (h.applied (fun u hu => ?_) (by simp)).quiet rfl
    simp [Pending.brings, hboot] at hu
  | false =>
    have hone : (Blender.keyed V δ).applyBlob r.data.scene e.blob =
        some (r.data.scene.load e.blob, 0) := rfl
    simp only [Replica.applyNext, applyOne, hboot, Bool.false_eq_true, if_false, hone]
    refine h.applied (fun u hu => ?_) fun u hu => ?_
    · simp only [Pending.brings, Bool.or_eq_false_iff, decide_eq_false_iff_not] at hu
      exact Scene.load_of_not_carried _ hu.2
    · split at hu
      · cases hu
      · obtain rfl := List.mem_singleton.mp hu
        simp [Pending.brings]

/-- The batch loop. -/
theorem batchLoop (h : Stands back r.data r.log) (budget : Nat) (es : List (Pending (Entry V) δ))
    (applied : Nat) (due : List (Msg (Entry V) V δ)) :
    let out := batchLoop (.keyed V δ) budget es applied r back due
    Stands out.2.1 out.1.data out.1.log := by
  induction es generalizing r back applied due with
  | nil => exact h
  | cons e rest ih =>
    have hnext := h.applyNext e rest
    simp only [Replica.batchLoop]
    split
    · exact h
    · split
      · exact hnext
      · exact ih hnext _ _

/-- `_apply_pending_batch`. -/
theorem applyPendingBatch (h : Stands [] r.data r.log) (budget : Nat) :
    Stands [] (applyPendingBatch (.keyed V δ) budget r).data
      (applyPendingBatch (.keyed V δ) budget r).log := by
  have hloop := h.batchLoop budget r.pending 0 []
  have hback := hloop.reapply _ (fun u hu => hu)
  simp only [Replica.applyPendingBatch]
  refine carries.release (J := Stands []) ?_ _
  exact fun u => ⟨(hback u).1, fun hu => by cases hu⟩

end Stands

/-- After any run the scene shows what the log adds up to. -/
theorem standing_run (scene : Scene V) (c0 f0 : Nat) (cold fast : List (Msg (Entry V) V δ))
    (acts : List Node.Act) :
    let r := (Node.run (.keyed V δ) (Node.start scene c0 f0 cold fast) acts).replica
    Stands [] r.data r.log := by
  refine foldl_invariant (f := Node.step (.keyed V δ))
    (I := fun n => Stands [] n.replica.data n.replica.log) ?_ acts ?_
  · intro n a h
    cases a with
    | turn kf kc =>
      simp only [Node.step]
      cases htake : n.take kf kc with
      | mk n' out =>
        cases out with
        | none =>
          rw [Node.take_none htake]
          exact h
        | some m =>
          obtain ⟨-, hdata, hlog, -, -⟩ := Node.take_some htake
          exact Stands.carries.handle (by rw [hdata, hlog]; exact h) m
    | batch budget => exact h.applyPendingBatch budget
  · intro u
    exact ⟨Trail.holds_unknown _, fun hu => by cases hu⟩

end QCBridge
