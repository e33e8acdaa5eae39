import QCBridge.ForStd.Guarded
import QCBridge.Ring0.Manifest
import QCBridge.Spec.Keyed

/-!
# What the inventory promises

A delta repair trusts the inventory: what it names is not sent again. So it may name only
what the replica has, with the newest digest applied.

A manifest batch breaks this. It says what a file carried when the host hashed it, and it
is merged whatever happened to the file since: a datablock that a tombstone removed comes
back into the inventory, and so do the datablocks of another host's file of the same
number. Whatever takes a datablock away breaks it too, but for a tombstone its own: a blob when
one of its arrivals takes the place of a datablock of another stamp, and the removal of a mesh or
of a library, with which the objects go that use it.

## Key results

- `Custody.Honest`: the promise
- `Custody.Sound`: the handlers that cannot break it
- `inventory_honest`: a run of those keeps the promise, and its merges add only what is here
- `inventory_counterexample`: a batch after a tombstone
-/

namespace QCBridge

variable {β V δ S : Type}

/-- A property write takes no datablock away. -/
def Blender.Spares (B : Blender β V δ S) : Prop :=
  ∀ s u p v s', B.writeRna s u p v = some s' → ∀ x, B.resolves s x = true → B.resolves s' x = true

namespace Custody

variable (B : Blender β V δ S) {c : Custody β V δ S}

/-- The inventory names what the replica has, and of what a blob brought, the newest
    digest. -/
structure Honest (c : Custody β V δ S) : Prop where
  here : ∀ u d, c.held.get? u = some d → B.resolves c.scene u = true
  newest : ∀ u d, c.newest.get? u = some d → c.held.get? u = some d

/-- What a merge adds was in a batch for the file that runs, and no tombstone named it. -/
def MergesHonestly (c : Custody β V δ S) : Prop :=
  ∀ u d, c.mergeManifests.held.get? u = some d → c.held.get? u = some d ∨
    u ∉ c.buried ∧ ∃ m ∈ c.manifests, c.running = some m.file ∧ m.held.get? u = some d

/-- Everything else that has an entry is in the scene. -/
def Leaves (c : Custody β V δ S) (uuid : Option Uuid) (s : S) : Prop :=
  ∀ u d, c.held.get? u = some d → uuid ≠ some u → B.resolves s u = true

/-- The handlers that keep the inventory honest. Nothing that has an entry is taken away, but by
    its own tombstone, and a blob brings its own datablock if it has a digest. A batch that
    carries the number of the file that runs is of that file, and names, of what has no entry,
    only what is here and no tombstone named since. -/
def Sound (c : Custody β V δ S) : Act β V δ → Prop
  | .apply e => e.isBoot = false → ∀ s errors, B.applyBlob c.scene e.blob = some (s, errors) →
    c.Leaves B none s ∧ (e.header.digest.isSome = true → B.resolves s e.header.uuid = true)
  | .tomb uuid => ∀ s, B.remove c.scene uuid = some s → c.Leaves B (some uuid) s
  | .link h => c.Leaves B none (B.applyLink c.scene h)
  | .libfile h data => c.Leaves B none (B.applyLibfile c.scene h data)
  | .merge => ∀ m ∈ c.manifests, c.bootGen.isSome = true → m.boot = c.bootGen →
    ∀ u ∈ m.held.keys, c.held.get? u = none →
      c.running = some m.file ∧ B.resolves c.scene u = true ∧ u ∉ c.buried
  | _ => True

/-! ## Merging -/

/-- Where an entry of the inventory comes from when batches are merged. -/
private theorem get?_mergeBatch {held : Dict Uuid δ} {m : Manifest β δ} {u : Uuid} {d : δ}
    (h : (mergeBatch held m).get? u = some d) :
    held.get? u = some d ∨ held.get? u = none ∧ m.held.get? u = some d := by
  -- the fold over one batch, by induction on its entries
  have hfold : ∀ (entries : List (Uuid × δ)) (held : Dict Uuid δ),
      (entries.foldl (fun held e => if (held.get? e.1).isSome then held
        else held.insert e.1 e.2) held).get? u = some d →
      held.get? u = some d ∨ held.get? u = none ∧ (u, d) ∈ entries := by
    intro entries
    induction entries with
    | nil => exact fun _ h => .inl h
    | cons e entries ih =>
      intro held h
      rcases ih _ h with h | ⟨h, hmem⟩ <;> dsimp only at h
      · -- an entry of before, or this one, which was not held yet
        split at h
        · exact .inl h
        · rename_i hnone
          rw [Dict.get?_insert] at h
          split at h
          · rename_i hu
            obtain rfl := Option.some.inj h
            subst hu
            exact .inr ⟨Option.not_isSome_iff_eq_none.mp hnone, List.mem_cons_self ..⟩
          · exact .inl h
      · -- an entry of the batch that comes later
        split at h
        · exact .inr ⟨h, List.mem_cons_of_mem _ hmem⟩
        · rw [Dict.get?_insert] at h
          split at h
          · cases h
          · exact .inr ⟨h, List.mem_cons_of_mem _ hmem⟩
  exact (hfold _ _ h).imp_right fun h => ⟨h.1, Dict.get?_of_mem h.2⟩

/-- A batch takes no entry away. -/
private theorem mergeBatch_keeps {held : Dict Uuid δ} (m : Manifest β δ) {u : Uuid} {d : δ}
    (h : held.get? u = some d) : (mergeBatch held m).get? u = some d := by
  unfold mergeBatch
  induction m.held.entries generalizing held with
  | nil => exact h
  | cons e entries ih =>
    apply ih
    dsimp only
    split
    · exact h
    · rename_i hnone
      rw [Dict.get?_insert_of_ne _ _ fun heq => ?_]
      · exact h
      · rw [heq, h] at hnone
        exact hnone rfl

/-- One turn takes nothing away, and adds what its batch names if the batch carries the
    number of the file that runs. -/
private theorem get?_mergeTurn {gen : Option Nat} {r : Dict Uuid δ × List (Manifest β δ)}
    {m : Manifest β δ} {u : Uuid} {d : δ} :
    (r.1.get? u = some d → (mergeTurn gen r m).1.get? u = some d) ∧
      ((mergeTurn gen r m).1.get? u = some d → r.1.get? u = some d ∨
        r.1.get? u = none ∧ gen.isSome = true ∧ m.boot = gen ∧ m.held.get? u = some d) := by
  unfold mergeTurn
  split
  · split <;> exact ⟨fun h => h, .inl⟩
  · rename_i hahead
    split
    · exact ⟨fun h => h, .inl⟩
    · rename_i hboot
      have hgen : gen.isSome = true := by
        cases gen with
        | none => simp at hahead
        | some g => rfl
      exact ⟨mergeBatch_keeps m, fun h =>
        (get?_mergeBatch h).imp_right fun h => ⟨h.1, hgen, not_not.mp hboot, h.2⟩⟩

/-- A merge takes nothing away, and adds what batches of the running number name. -/
private theorem get?_mergeManifests {u : Uuid} {d : δ} :
    (c.held.get? u = some d → c.mergeManifests.held.get? u = some d) ∧
      (c.mergeManifests.held.get? u = some d → c.held.get? u = some d ∨
        c.held.get? u = none ∧ ∃ m ∈ c.manifests, c.bootGen.isSome = true ∧
          m.boot = c.bootGen ∧ m.held.get? u = some d) := by
  have hfold : ∀ (ms : List (Manifest β δ)) (r : Dict Uuid δ × List (Manifest β δ)),
      (r.1.get? u = some d → (ms.foldl (mergeTurn c.bootGen) r).1.get? u = some d) ∧
        ((ms.foldl (mergeTurn c.bootGen) r).1.get? u = some d → r.1.get? u = some d ∨
          r.1.get? u = none ∧ ∃ m ∈ ms, c.bootGen.isSome = true ∧ m.boot = c.bootGen ∧
            m.held.get? u = some d) := by
    intro ms
    induction ms with
    | nil => exact fun r => ⟨fun h => h, .inl⟩
    | cons m ms ih =>
      intro r
      obtain ⟨hkeep, hfrom⟩ := ih (mergeTurn c.bootGen r m)
      constructor
      · exact fun h => hkeep (get?_mergeTurn.1 h)
      · intro h
        obtain h | ⟨hnone, m', hm', hrest⟩ := hfrom h
        · exact (get?_mergeTurn.2 h).imp_right fun h => ⟨h.1, m, List.mem_cons_self .., h.2⟩
        · apply Or.inr
          -- what a turn leaves without an entry had none before it
          have hr : r.1.get? u = none := by
            cases hr : r.1.get? u with
            | none => rfl
            | some d' => rw [(get?_mergeTurn (d := d')).1 hr] at hnone; cases hnone
          exact ⟨hr, m', List.mem_cons_of_mem _ hm', hrest⟩
  unfold mergeManifests
  split
  · exact ⟨fun h => h, .inl⟩
  · exact hfold c.manifests (c.held, [])

/-! ## What leaves the datablocks in place -/

/-- The inventory as before, and every datablock still here. -/
def Widens (d d' : ReplicaData V δ S) : Prop :=
  d'.held = d.held ∧ ∀ u, B.resolves d.scene u = true → B.resolves d'.scene u = true

variable {B} {d d' d'' : ReplicaData V δ S}

theorem Widens.refl (d : ReplicaData V δ S) : Widens B d d := ⟨rfl, fun _ h => h⟩

theorem Widens.trans (h : Widens B d d') (h' : Widens B d' d'') : Widens B d d'' :=
  ⟨h'.1.trans h.1, fun u hu => h'.2 u (h.2 u hu)⟩

theorem Widens.foldl {α : Type} {f : ReplicaData V δ S → α → ReplicaData V δ S}
    (hf : ∀ d a, Widens B d (f d a)) (as : List α) (d : ReplicaData V δ S) :
    Widens B d (as.foldl f d) := by
  induction as generalizing d with
  | nil => exact .refl d
  | cons a as ih => exact (hf d a).trans (ih _)

/-- `refreshGapStats` only counts. -/
private theorem widens_refreshGapStats (g : LaneMerger β V δ) (h : Widens B d d') :
    Widens B d (Replica.refreshGapStats g d') := h

private theorem widens_writeChange (hB : B.Spares) (uuid : Uuid) (d : ReplicaData V δ S)
    (ch : Path × V) : Widens B d (Replica.writeChange B uuid d ch) := by
  unfold Replica.writeChange
  split
  · rename_i s hs
    exact ⟨rfl, hB _ _ _ _ s hs⟩
  · exact ⟨rfl, fun _ h => h⟩

private theorem widens_putBack (hB : B.Spares) (uuid : Uuid) (d : ReplicaData V δ S)
    (ch : Path × V) : Widens B d (Replica.putBack B uuid d ch) := by
  unfold Replica.putBack
  split
  · rename_i s hs
    exact ⟨rfl, hB _ _ _ _ s hs⟩
  · exact ⟨rfl, fun _ h => h⟩

private theorem widens_applyT1 (hB : B.Spares) (g : LaneMerger β V δ) (d : ReplicaData V δ S)
    (m : Msg β V δ) : Widens B d (Replica.applyT1 B g d m) := by
  unfold Replica.applyT1
  split
  · refine Widens.trans ?_ (Widens.foldl (widens_writeChange hB _) _ _)
    split <;> exact ⟨rfl, fun _ h => h⟩
  · exact widens_refreshGapStats g ⟨rfl, fun _ h => h⟩

private theorem widens_reapplyAtState (hB : B.Spares) (d : ReplicaData V δ S) (uuid : Uuid) :
    Widens B d (Replica.reapplyAtState B d uuid) := by
  unfold Replica.reapplyAtState
  split
  · exact .refl d
  · split
    · exact Widens.foldl (widens_putBack hB uuid) _ d
    · exact .refl d

/-! ## The invariant -/

theorem Honest.widen {c c' : Custody β V δ S} (h : c.Honest B)
    (hw : Widens B c.replica.data c'.replica.data) (hnewest : c'.newest = c.newest) :
    c'.Honest B where
  here u d hu := hw.2 u (h.here u d (by rwa [held, hw.1] at hu))
  newest u d hu := by
    rw [held, hw.1]
    exact h.newest u d (hnewest ▸ hu)

/-- Another scene, in which everything with an entry is. -/
theorem Honest.scene (h : c.Honest B) {s : S} (hs : c.Leaves B none s) :
    (c.withData { c.replica.data with scene := s }).Honest B where
  here u d hu := hs u d hu (by simp)
  newest := h.newest

/-- The inventory is empty after a bootstrap. -/
theorem Honest.applyBoot (c : Custody β V δ S) (e : Pending β δ) (hboot : e.isBoot = true) :
    (c.apply B e).Honest B := by
  have happly : Replica.applyOne B c.replica e = some (Replica.applyBoot B c.replica e, []) := by
    simp only [Replica.applyOne, hboot, if_true]
  unfold Custody.apply
  simp only [happly, hboot, if_true]
  exact ⟨fun u d hu => (by cases hu), fun u d hu => (by cases hu)⟩

/-- A blob with a digest sets its own entry, and leaves the others. -/
theorem Honest.applyBlob (h : c.Honest B) {e : Pending β δ} (hs : Sound B c (.apply e))
    (hboot : e.isBoot = false) : (c.apply B e).Honest B := by
  unfold Custody.apply Replica.applyOne
  simp only [hboot, Bool.false_eq_true, if_false]
  cases hblob : B.applyBlob c.replica.data.scene e.blob with
  | none => exact h
  | some r =>
    obtain ⟨s, errors⟩ := r
    obtain ⟨hothers, hown⟩ := hs hboot s errors hblob
    cases hd : e.header.digest with
    | none => exact ⟨fun u d hu => hothers u d hu (by simp), h.newest⟩
    | some digest =>
      refine ⟨fun u d hu => ?_, fun u d hu => ?_⟩
      · -- the blob's own entry, or one that was there
        change (c.held.insert e.header.uuid digest).get? u = some d at hu
        rw [Dict.get?_insert] at hu
        split at hu
        · rename_i heq
          subst heq
          exact hown (hd ▸ rfl)
        · exact hothers u d hu (by simp)
      · change (c.newest.insert e.header.uuid digest).get? u = some d at hu
        change (c.held.insert e.header.uuid digest).get? u = some d
        rw [Dict.get?_insert] at hu ⊢
        split at hu
        · rename_i heq
          rw [if_pos heq]
          exact hu
        · rename_i hne
          rw [if_neg hne]
          exact h.newest u d hu

/-- A tombstone takes its own datablock and its own entry. -/
theorem Honest.tomb (h : c.Honest B) {uuid : Uuid} (hs : Sound B c (.tomb uuid)) :
    (step B c (.tomb uuid)).Honest B := by
  by_cases hres : B.resolves c.replica.data.scene uuid = true
  · -- whether or not the removal raised, the other datablocks with an entry are here
    have hothers : ∀ u d, u ≠ uuid → c.held.get? u = some d →
        B.resolves (step B c (.tomb uuid)).scene u = true := by
      intro u d hne hu
      unfold step withData Custody.scene Replica.applyTombstone
      simp only [hres, if_true]
      cases hrem : B.remove c.replica.data.scene uuid with
      | none => exact h.here u d hu
      | some s => exact hs s hrem u d hu fun heq => hne (Option.some.inj heq).symm
    have hheld : (step B c (.tomb uuid)).held = c.held.erase uuid := by
      unfold step withData held Replica.applyTombstone
      simp only [hres, if_true]
      cases B.remove c.replica.data.scene uuid <;> rfl
    refine ⟨fun u d hu => ?_, fun u d hu => ?_⟩
    · rw [hheld, Dict.get?_erase] at hu
      split at hu
      · cases hu
      · rename_i hne
        exact hothers u d (Ne.symm hne) hu
    · change (c.newest.erase uuid).get? u = some d at hu
      rw [hheld]
      rw [Dict.get?_erase] at hu ⊢
      split at hu
      · cases hu
      · rename_i hne
        rw [if_neg hne]
        exact h.newest u d hu
  · -- nothing of that stamp is here, so it has no entry
    have hdata : Replica.applyTombstone B c.replica.data uuid = c.replica.data := by
      unfold Replica.applyTombstone
      simp only [hres, Bool.false_eq_true, if_false]
    change Honest B { c.withData (Replica.applyTombstone B c.replica.data uuid) with
      newest := c.newest.erase uuid, buried := uuid :: c.buried }
    rw [hdata]
    refine ⟨h.here, fun u d hu => ?_⟩
    change (c.newest.erase uuid).get? u = some d at hu
    rw [Dict.get?_erase] at hu
    split at hu
    · cases hu
    · exact h.newest u d hu

/-- What a batch may add is here, and was not removed. -/
private theorem mergesHonestly (hs : Sound B c .merge) : c.MergesHonestly := by
  intro u d hu
  obtain hu | ⟨hnone, m, hm, hgen, hboot, hmu⟩ := get?_mergeManifests.2 hu
  · exact .inl hu
  · have hkey : u ∈ m.held.keys := (Dict.mem_keys_iff _ _).mpr ⟨d, hmu⟩
    obtain ⟨hfile, -, hburied⟩ := hs m hm hgen hboot u hkey hnone
    exact .inr ⟨hburied, m, hm, hfile, hmu⟩

/-- `_merge_manifests` only writes the inventory. -/
private theorem mergeManifests_rest (c : Custody β V δ S) :
    c.mergeManifests.scene = c.scene ∧ c.mergeManifests.newest = c.newest := by
  unfold mergeManifests
  split <;> exact ⟨rfl, rfl⟩

theorem Honest.merge (h : c.Honest B) (hs : Sound B c .merge) : c.mergeManifests.Honest B := by
  obtain ⟨hscene, hnewest⟩ := mergeManifests_rest c
  refine ⟨fun u d hu => ?_, fun u d hu => ?_⟩
  · rw [hscene]
    obtain hu | ⟨hnone, m, hm, hgen, hboot, hmu⟩ := get?_mergeManifests.2 hu
    · exact h.here u d hu
    · have hkey : u ∈ m.held.keys := (Dict.mem_keys_iff _ _).mpr ⟨d, hmu⟩
      exact (hs m hm hgen hboot u hkey hnone).2.1
  · exact get?_mergeManifests.1 (h.newest u d (hnewest ▸ hu))

/-- One handler. -/
theorem Honest.step (hB : B.Spares) (h : c.Honest B) {act : Act β V δ} (hs : Sound B c act) :
    (step B c act).Honest B := by
  cases act with
  | apply e =>
    cases hboot : e.isBoot with
    | true => exact Honest.applyBoot c e hboot
    | false => exact h.applyBlob hs hboot
  | tomb uuid => exact h.tomb hs
  | t1 m => exact h.widen (widens_applyT1 hB _ _ m) rfl
  | putBack uuid => exact h.widen (widens_reapplyAtState hB _ uuid) rfl
  | link hd => exact h.scene hs
  | libfile hd data => exact h.scene hs
  | manifest m => exact h.widen (.refl _) rfl
  | merge => exact h.merge hs
  | newSession seqs => exact h.widen ⟨rfl, fun _ hu => hu⟩ rfl

private theorem honest_start (scene : S) : (start (β := β) (V := V) (δ := δ) scene).Honest B :=
  ⟨fun u d hu => (by cases hu), fun u d hu => (by cases hu)⟩

end Custody

open Custody

/-- In every run of handlers that cannot break it, in any order, the inventory names only
    what the replica has, with the newest digest applied, and every merge adds only what a
    batch for the file that runs names and no tombstone removed. -/
theorem inventory_honest (B : Blender β V δ S) (hB : B.Spares) (scene : S)
    (acts : List (Act β V δ)) (hacts : Along (step B) (Sound B) (start scene) acts) :
    (run B (start scene) acts).Honest B ∧
      ∀ before after, acts = before ++ .merge :: after →
        (run B (start scene) before).MergesHonestly := by
  constructor
  · exact Along.invariant (I := Honest B) (fun _ _ h hs => h.step hB hs) (honest_start scene) hacts
  · intro before after heq
    rw [heq, Along.append_iff] at hacts
    exact mergesHonestly hacts.2.1

/-! ## A batch that comes late -/

private theorem Blender.keyed_spares (V δ : Type) : (Blender.keyed V δ).Spares := by
  intro s u p v s' h x hx
  simp only [Blender.keyed] at h hx ⊢
  split at h
  · obtain rfl := Option.some.inj h
    rwa [Scene.live_write]
  · cases h

namespace LateBatch

/-- The bootstrap of a file with `"u"` and `"v"`. -/
def boot : Pending (Entry Nat) Nat where
  header := { kind := .boot, seq := some 1, blob := some ⟨.boot 0 1, 0, 1, 2, 0⟩ }
  blob := [("u", Dict.empty), ("v", Dict.empty)]
  seq := some 1

/-- What the host hashed of it. -/
def batch : Manifest (Entry Nat) Nat :=
  ⟨some 0, Dict.empty.insert "u" 1, [("u", Dict.empty), ("v", Dict.empty)]⟩

/-- A blob of `"v"`. -/
def blob : Pending (Entry Nat) Nat where
  header := { kind := .t2, seq := some 2, uuid := "v", blob := some ⟨.t2 "v" 2, 0, 1, 1, 0⟩,
              digest := some 2 }
  blob := [("v", Dict.empty)]
  seq := some 2

/-- The batch is merged before `"u"` is removed. -/
def early : List (Act (Entry Nat) Nat Nat) :=
  [.apply boot, .manifest batch, .merge, .apply blob, .tomb "u"]

/-- The batch is merged after `"u"` was removed. -/
def late : List (Act (Entry Nat) Nat Nat) := [.apply boot, .tomb "u", .manifest batch, .merge]

end LateBatch

open LateBatch in
/-- The batch that came in time leaves nothing to be found of `"u"`. -/
theorem inventory_honest_early :
    (run (.keyed Nat Nat) (start fun _ => none) early).Honest (.keyed Nat Nat) ∧
      ∀ before after, early = before ++ .merge :: after →
        (run (.keyed Nat Nat) (start fun _ => none) before).MergesHonestly := by
  apply inventory_honest (.keyed Nat Nat) (Blender.keyed_spares Nat Nat) (fun _ => none) early
  -- the condition of each action
  refine ⟨fun h => (by cases h), trivial, ?_, ?_, ?_, trivial⟩
  · -- the batch came in time
    intro m hm _ _ u hu _
    obtain rfl := List.mem_singleton.mp hm
    obtain rfl := List.mem_singleton.mp hu
    exact ⟨rfl, by decide, by decide⟩
  · -- the blob that is loaded leaves no other datablock behind
    intro _ s errors h
    obtain ⟨rfl, rfl⟩ := Prod.mk.inj (Option.some.inj h)
    constructor
    · intro u d hu _
      have hmem : (u, d) ∈ [("u", 1)] := (Dict.mem_entries_iff _ _ _).mpr hu
      obtain ⟨rfl, -⟩ := Prod.mk.inj (List.mem_singleton.mp hmem)
      decide
    · exact fun _ => by decide
  · -- the removal takes its own datablock alone
    intro s h u d hu hne
    obtain rfl := Option.some.inj h
    have hmem : (u, d) ∈ [("u", 1), ("v", 2)] := (Dict.mem_entries_iff _ _ _).mpr hu
    rcases List.mem_cons.mp hmem with heq | hmem
    · exact absurd (congrArg some (Prod.mk.inj heq).1).symm hne
    · obtain ⟨rfl, -⟩ := Prod.mk.inj (List.mem_singleton.mp hmem)
      decide

open LateBatch in
/-- The batch that came late says that `"u"` is here. -/
theorem inventory_counterexample :
    ¬ (run (.keyed Nat Nat) (start fun _ => none) late).Honest (.keyed Nat Nat) := by
  intro h
  have := h.here "u" 1 (by decide)
  revert this
  decide

end QCBridge
