import QCBridge.Spec.FastOrder
import QCBridge.ForStd.History

/-!
# Undo and the tombstones

A datablock that the sweep finds gone leaves a tombstone in the dirty set, and undo can
bring it back with the same stamp. The sweep then adopts it again and marks it for a
resend. The mark does nothing while the tombstone is still there, and the tombstone goes
out; and the resend is skipped when the digest of the blob is still on record.

## Key results

- `Host.WaitsDead`: no tombstone waits for a datablock that is alive
- `Host.ReadoptPending`: a resend that is owed is pending
- `tombs_dead`: what follows for the tombstones that are sent, and for the resends
-/

namespace QCBridge

variable {β V δ : Type}

/-! ## Tombstones -/

/-- The tombstones that the drain took were of dead datablocks. -/
def DrainsDead (journal : List (Note β V δ)) : Prop :=
  ∀ u alive, Note.drained u alive ∈ journal → alive = false

/-- The tombstones that were refused are of dead datablocks. -/
def BacksDead (journal : List (Note β V δ)) : Prop :=
  ∀ u alive, Note.tombBack u alive ∈ journal → alive = false

/-- What holds of all that was put back held before. -/
theorem BacksDead.of_append {journal more : List (Note β V δ)}
    (h : BacksDead (journal ++ more)) : BacksDead journal :=
  fun u alive hmem => h u alive (List.mem_append_left _ hmem)

/-- What was taken in two stretches. -/
theorem DrainsDead.append {journal more : List (Note β V δ)} (h : DrainsDead journal)
    (hmore : DrainsDead more) : DrainsDead (journal ++ more) := by
  intro u alive hmem
  rcases List.mem_append.mp hmem with hmem | hmem
  · exact h u alive hmem
  · exact hmore u alive hmem

namespace Host

/-- No tombstone waits for a datablock that a tick finds alive. -/
def WaitsDead (h : Host β V δ) (c : World β V × Call β δ) : Prop :=
  match c.2 with
  | .tick => ∀ u ∈ DirtySet.tombstonesOf h.dirty.entries.entries, u ∉ c.1.dbs.keys
  | _ => True

/-- What a call in the world `w` keeps: the tombstones that were taken are of dead
    datablocks, and in a tick so are those that wait. -/
def TombsDead (w : World β V) (tick : Prop) (h : Host β V δ) : Prop :=
  BacksDead h.journal →
    (tick → ∀ u, h.dirty.entries.get? u = some .tombstone → u ∉ w.dbs.keys) ∧
    DrainsDead h.journal

namespace TombsDead

variable {w : World β V} {tick : Prop} {h h' : Host β V δ}

/-- A move that takes no tombstone, and makes none of a datablock that is alive. -/
theorem move (hh : h.TombsDead w tick) (notes : List (Note β V δ))
    (hjournal : h'.journal = h.journal ++ notes)
    (hnotes : ∀ u alive, Note.drained u alive ∉ notes)
    (hdirty : BacksDead h'.journal → ∀ u, h'.dirty.entries.get? u = some .tombstone →
      u ∉ w.dbs.keys ∨ h.dirty.entries.get? u = some .tombstone) : h'.TombsDead w tick := by
  intro hback
  have hmade := hdirty hback
  rw [hjournal] at hback ⊢
  obtain ⟨hdead, hdrains⟩ := hh hback.of_append
  refine ⟨fun ht u hu => ?_, hdrains.append fun u alive hmem => absurd hmem (hnotes u alive)⟩
  rcases hmade u hu with hnot | hold
  · exact hnot
  · exact hdead ht u hold

/-- A move that makes no tombstone. -/
theorem same (hh : h.TombsDead w tick) (notes : List (Note β V δ))
    (hjournal : h'.journal = h.journal ++ notes)
    (hnotes : ∀ u alive, Note.drained u alive ∉ notes)
    (hdirty : h'.dirty.entries = h.dirty.entries) : h'.TombsDead w tick := by
  apply hh.move notes hjournal hnotes
  rw [hdirty]
  exact fun _ u hu => .inr hu

end TombsDead

/-- A mark makes no tombstone. -/
private theorem get?_mark_tombstone {d : DirtySet} {u u' : Uuid} {t : Tier}
    (h : (d.mark u t).entries.get? u' = some .tombstone) :
    d.entries.get? u' = some .tombstone := by
  rw [DirtySet.get?_mark] at h
  split at h
  · rename_i heq
    subst heq
    split at h
    · assumption
    · cases h
    · cases h
  · exact h

/-- A deletion is of one datablock. -/
theorem get?_markDeleted_of_ne (d : DirtySet) {u u' : Uuid} (h : u ≠ u') :
    (d.markDeleted u).entries.get? u' = d.entries.get? u' := by
  unfold DirtySet.markDeleted
  split
  · exact Dict.get?_insert_of_ne _ _ h
  · exact Dict.get?_erase_of_ne _ h

/-- A handle that finds nothing is dead. -/
private theorem not_mem_keys_of_isSome {w : World β V} {u : Uuid}
    (h : (w.dbs.get? u).isSome = false) : u ∉ w.dbs.keys := by
  rw [← Dict.get?_eq_none_iff]
  simpa using h

/-- A mark puts no tombstone in. -/
private theorem keepsMark_tombsDead (w : World β V) (tick : Prop) :
    KeepsMark (δ := δ) w (TombsDead w tick) where
  same {h h'} hh hcore := by
    refine hh.same [] ?_ (by simp) ?_
    · rw [journal_of_core hcore, List.append_nil]
    · rw [dirty_of_core hcore]
  act {h a} _ hh := hh.same [.act a] rfl (by simp) rfl
  adopt u hh := hh.same [] (List.append_nil _).symm (by simp) rfl
  requeued u hh := hh.move [_] rfl (by simp) fun _ _ hu' => .inr (get?_mark_tombstone hu')
  tombBack {h} u hh := by
    refine hh.move [.tombBack u (w.dbs.get? u).isSome] rfl (by simp) fun hback u' hu' => ?_
    have hentries : (h.tombBack w u).dirty.entries = h.dirty.entries.insert u .tombstone := rfl
    rw [hentries, Dict.get?_insert] at hu'
    split at hu'
    · rename_i heq
      have hdead := hback u _ (List.mem_append_right h.journal (List.mem_singleton_self _))
      rw [← heq]
      exact .inl (not_mem_keys_of_isSome hdead)
    · exact .inr hu'
  wantBoot u hh := hh.same [_] rfl (by simp) rfl
  mark u t now _ hh :=
    hh.move [] (List.append_nil _).symm (by simp) fun _ _ hu' => .inr (get?_mark_tombstone hu')

/-- The sweep puts them in for datablocks that are gone. -/
private theorem keepsSweep_tombsDead (w : World β V) (tick : Prop) :
    KeepsSweep (δ := δ) w (TombsDead w tick) where
  toKeepsMark := keepsMark_tombsDead w tick
  readopt u db _ _ hh :=
    hh.move [.readopted u] rfl (by simp) fun _ _ hu' => .inr (get?_mark_tombstone hu')
  forget {h} u hu hh := by
    refine hh.move [.forgotten u] rfl (by simp) fun _ u' hu' => ?_
    by_cases heq : u = u'
    · rw [← heq]
      exact .inl hu
    · have hget : (h.forget u).dirty.entries.get? u' = h.dirty.entries.get? u' :=
        get?_markDeleted_of_ne _ heq
      rw [hget] at hu'
      exact .inr hu'

/-- The drain takes the tombstones that wait: of dead datablocks. -/
theorem TombsDead.drained {w : World β V} {h : Host β V δ} (hh : h.TombsDead w True) :
    (h.drained w).TombsDead w True := by
  unfold Host.drained
  rw [foldl_note]
  intro hback
  obtain ⟨hdead, hdrains⟩ := hh hback.of_append
  refine ⟨fun _ u hu => (nomatch hu), hdrains.append fun u alive hmem => ?_⟩
  obtain ⟨u', hu', heq⟩ := List.mem_map.mp hmem
  obtain ⟨rfl, rfl⟩ : u' = u ∧ (w.dbs.get? u').isSome = alive := by simpa using heq
  have hget := (h.dirty.entries.mem_entries_iff u' _).mp (DirtySet.mem_tombstonesOf.mp hu')
  have hnot := hdead trivial u' hget
  rw [← Dict.get?_eq_none_iff] at hnot
  rw [hnot]
  rfl

/-- The drain of a tick takes tombstones of what was gone when it swept. -/
private theorem keepsTick_tombsDead [BEq V] [DecidableEq δ] (H : Digests β V δ)
    (w : World β V) : KeepsTick H w (TombsDead w True) where
  toKeepsSweep := keepsSweep_tombsDead w True
  autoSkip hh := hh.same [_] rfl (by simp) rfl
  autoBoot data sceneDigest hh := hh.same [_] rfl (by simp) rfl
  flush hh := (keepsSweep_tombsDead w True).flushDirty H (fun hh => hh.drained)
    (fun _ _ hh => hh.move [] (List.append_nil _).symm (by simp)
      fun _ _ hu' => .inr (get?_mark_tombstone hu'))
    (fun _ hh => hh.same [] (List.append_nil _).symm (by simp) rfl) hh
  resend hh := (keepsSweep_tombsDead w True).drainFastResend H
    (fun _ _ _ hh => hh.same [_] rfl (by simp) rfl)
    (fun _ hh => hh.same [.act .endFast] rfl (by simp) rfl) hh

end Host

/-! ## Resends -/

/-- The datablock `u` travels in the blob of `v`: its own, or its owner's if it is a shape
    key. -/
def World.Carries (w : World β V) (u v : Uuid) : Prop :=
  ∃ db, w.dbs.get? u = some db ∧
    if db.kind = .key then db.user = some v ∧ v ≠ u ∧ v ∈ w.dbs.keys else v = u

instance (w : World β V) (u v : Uuid) : Decidable (w.Carries u v) :=
  match hget : w.dbs.get? u with
  | none => .isFalse (by simp [World.Carries, hget])
  | some db =>
    decidable_of_iff (if db.kind = .key then db.user = some v ∧ v ≠ u ∧ v ∈ w.dbs.keys else v = u)
      (by simp [World.Carries, hget])

/-- What a note does to the question whether the blob of `v` is owed for the datablock `u`,
    which the sweep found again. -/
def Note.owesBlob (u v : Uuid) (owed : Bool) : Note β V δ → Bool
  | .readopted x => x = u || owed
  | .forgotten x => x ≠ u && owed
  | .act (.cutT2 x _ _ _) => x ≠ v && owed
  | .unsupported x => x ≠ v && owed
  | _ => owed

/-- The datablock `u` was adopted again, and no blob of `v` was made since. -/
def owesBlob (u v : Uuid) (journal : List (Note β V δ)) : Bool :=
  journal.foldl (Note.owesBlob u v) false

/-- A note that starts no debt. -/
def Note.Quiet (u v : Uuid) (n : Note β V δ) : Prop :=
  ∀ owed, n.owesBlob u v owed = true → owed = true

/-- One note more decides from what was owed before it. -/
private theorem owesBlob_snoc (u v : Uuid) (journal : List (Note β V δ)) (n : Note β V δ) :
    owesBlob u v (journal ++ [n]) = n.owesBlob u v (owesBlob u v journal) := by
  simp [owesBlob]

/-- Notes that start no debt leave what was owed, or less. -/
private theorem owesBlob_of_append {u v : Uuid} {journal notes : List (Note β V δ)}
    (hquiet : ∀ n ∈ notes, n.Quiet u v) (h : owesBlob u v (journal ++ notes) = true) :
    owesBlob u v journal = true := by
  induction notes generalizing journal with
  | nil => rwa [List.append_nil] at h
  | cons n notes ih =>
    have hsnoc : owesBlob u v (journal ++ [n]) = true := by
      apply ih fun n' hn' => hquiet n' (by simp [hn'])
      rwa [List.append_assoc]
    rw [owesBlob_snoc] at hsnoc
    exact hquiet n (by simp) _ hsnoc

/-- Only a datablock that is adopted again is owed a blob. -/
theorem Note.quiet {u v : Uuid} {n : Note β V δ} (h : n ≠ .readopted u) : n.Quiet u v := by
  intro owed
  cases n with
  | readopted x =>
    have hne : x ≠ u := by
      rintro rfl
      exact h rfl
    simp [Note.owesBlob, hne]
  | forgotten x => simp [Note.owesBlob]
  | unsupported x => simp [Note.owesBlob]
  | act a =>
    cases a with
    | cutT2 x data digest more => simp [Note.owesBlob]
    | _ => exact id
  | _ => exact id

/-- Only the sweep that finds the datablock again starts a debt. -/
private theorem Note.quiet_of_ne {u v : Uuid} {n : Note β V δ} (h : n ≠ .readopted u) :
    ∀ n' ∈ [n], n'.Quiet u v := by
  intro n' hn'
  rw [List.mem_singleton.mp hn']
  exact quiet h

/-- From the `k`-th note on, the blob of `v` is skipped only while it is not owed. -/
def SkipsSettled (k : Nat) (u v : Uuid) (before : List (Note β V δ)) : Note β V δ → Prop
  | .act (.skip x _ _) => k ≤ before.length → x = v → owesBlob u v before = false
  | _ => True

namespace Host

/-- A blob that is owed is pending: the datablock is known, and dirty for a resend. -/
def ReadoptPending (u v : Uuid) (h : Host β V δ) : Prop :=
  owesBlob u v h.journal = true →
    h.dirty.entries.get? u = some (.dirty .t2) ∧ u ∈ h.uuidToDb

/-- A clean datablock waits for nothing. -/
private theorem not_readoptPending {u v : Uuid} {h : Host β V δ}
    (hh : owesBlob u v h.journal = true ∧ h.dirty.entries.get? u = none) :
    ¬ h.ReadoptPending u v := by
  intro hpending
  have hget := (hpending hh.1).1
  rw [hh.2] at hget
  cases hget

/-- While the blob is owed the datablock stays alive in its file, and where it is alive it
    travels in the blob of `v`. -/
def Stays (u v : Uuid) (h : Host β V δ) (c : World β V × Call β δ) : Prop :=
  (u ∈ c.1.dbs.keys → c.1.Carries u v) ∧
    (owesBlob u v h.journal = true → u ∈ c.1.dbs.keys ∧
      match c.2 with
      | .newFile => False
      | _ => True)

/-- What a call in the world `w` keeps: a blob that is owed is pending, or still to come in
    the flush. -/
def Waiting (k : Nat) (w : World β V) (u v : Uuid) (coming : Prop) (h : Host β V δ) : Prop :=
  k ≤ h.journal.length ∧
    (BacksDead h.journal → History (SkipsSettled k u v) h.journal →
      owesBlob u v h.journal = true →
        u ∈ w.dbs.keys ∧ u ∈ h.uuidToDb ∧
          (h.dirty.entries.get? u = some (.dirty .t2) ∨ coming))

/-- What is dirty for a resend stays so under any mark. -/
private theorem get?_mark_t2 {d : DirtySet} {u u' : Uuid} {t : Tier}
    (h : d.entries.get? u' = some (.dirty .t2)) :
    (d.mark u t).entries.get? u' = some (.dirty .t2) := by
  rw [DirtySet.get?_mark]
  split
  · rename_i heq
    subst heq
    rw [h]
    cases t <;> rfl
  · exact h

/-- A mark for a resend takes, unless a tombstone is there. -/
private theorem get?_mark_self {d : DirtySet} {u : Uuid} (h : d.entries.get? u ≠ some .tombstone) :
    (d.mark u .t2).entries.get? u = some (.dirty .t2) := by
  rw [DirtySet.get?_mark, if_pos rfl]
  cases hget : d.entries.get? u with
  | none => rfl
  | some m =>
    cases m with
    | dirty t => cases t <;> rfl
    | tombstone => exact absurd hget h

namespace Waiting

variable {k : Nat} {w : World β V} {u v : Uuid} {coming : Prop} {h h' : Host β V δ}

/-- A move that starts no debt and keeps what is pending. -/
theorem move (hh : h.Waiting k w u v coming) (notes : List (Note β V δ))
    (hjournal : h'.journal = h.journal ++ notes) (hquiet : ∀ n ∈ notes, n.Quiet u v)
    (hknown : u ∈ w.dbs.keys → u ∈ h.uuidToDb → u ∈ h'.uuidToDb)
    (hdirty : BacksDead h'.journal → u ∈ w.dbs.keys →
      h.dirty.entries.get? u = some (.dirty .t2) →
      h'.dirty.entries.get? u = some (.dirty .t2)) : h'.Waiting k w u v coming := by
  obtain ⟨hlen, hwait⟩ := hh
  refine ⟨by rw [hjournal, List.length_append]; omega, fun hback hskips howed => ?_⟩
  have hkeep := hdirty hback
  rw [hjournal] at hback hskips howed
  obtain ⟨halive, hmem, hpending⟩ :=
    hwait hback.of_append hskips.of_append (owesBlob_of_append hquiet howed)
  exact ⟨halive, hknown halive hmem, hpending.imp_left (hkeep halive)⟩

/-- A move that leaves the dirty set and the registry alone. -/
theorem same (hh : h.Waiting k w u v coming) (notes : List (Note β V δ))
    (hjournal : h'.journal = h.journal ++ notes) (hquiet : ∀ n ∈ notes, n.Quiet u v)
    (hknown : h'.uuidToDb = h.uuidToDb) (hdirty : h'.dirty.entries = h.dirty.entries) :
    h'.Waiting k w u v coming := by
  apply hh.move notes hjournal hquiet
  · rw [hknown]
    exact fun _ hmem => hmem
  · rw [hdirty]
    exact fun _ _ hget => hget

end Waiting

/-- A mark leaves what waits for a resend waiting. -/
private theorem keepsMark_waiting (k : Nat) (w : World β V) (u v : Uuid) (coming : Prop) :
    KeepsMark (δ := δ) w (Waiting k w u v coming) where
  same {h h'} hh hcore := by
    refine hh.same [] ?_ (by simp) (uuidToDb_of_core hcore) ?_
    · rw [journal_of_core hcore, List.append_nil]
    · rw [dirty_of_core hcore]
  act {h a} _ hh := hh.same [.act a] rfl (Note.quiet_of_ne (by simp)) rfl rfl
  adopt x hh := hh.move [] (List.append_nil _).symm (by simp)
    (fun _ hmem => List.mem_insert_of_mem hmem) (fun _ _ hget => hget)
  requeued x hh := hh.move [_] rfl (Note.quiet_of_ne (by simp)) (fun _ hmem => hmem)
    (fun _ _ hget => get?_mark_t2 hget)
  tombBack {h} x hh := by
    refine hh.move [.tombBack x (w.dbs.get? x).isSome] rfl (Note.quiet_of_ne (by simp))
      (fun _ hmem => hmem) (fun hback halive hget => ?_)
    -- a tombstone that is refused is of another datablock
    have hdead := hback x _ (List.mem_append_right h.journal (List.mem_singleton_self _))
    have hne : x ≠ u := by
      rintro rfl
      exact not_mem_keys_of_isSome hdead halive
    have hentries : (h.tombBack w x).dirty.entries = h.dirty.entries.insert x .tombstone :=
      rfl
    rw [hentries, Dict.get?_insert_of_ne _ _ hne]
    exact hget
  wantBoot x hh := hh.same [_] rfl (Note.quiet_of_ne (by simp)) rfl rfl
  mark x t now _ hh := hh.move [] (List.append_nil _).symm (by simp) (fun _ hmem => hmem)
    (fun _ _ hget => get?_mark_t2 hget)

/-- What a call keeps of both. -/
def Safe (k : Nat) (w : World β V) (u v : Uuid) (tick coming : Prop) (h : Host β V δ) : Prop :=
  h.TombsDead w tick ∧ h.Waiting k w u v coming

/-- And it skips no blob. -/
private theorem keepsMark_safe (k : Nat) (w : World β V) (u v : Uuid) (tick coming : Prop) :
    KeepsMark (δ := δ) w (Safe k w u v tick coming) :=
  (keepsMark_tombsDead w tick).and (keepsMark_waiting k w u v coming)

/-- The sweep marks what it finds again for a resend. -/
private theorem keepsSweep_safe (k : Nat) (w : World β V) (u v : Uuid) (coming : Prop) :
    KeepsSweep (δ := δ) w (Safe k w u v True coming) where
  toKeepsMark := keepsMark_safe k w u v True coming
  readopt {h} x db hdb hnew hh := by
    refine ⟨(keepsSweep_tombsDead w True).readopt x db hdb hnew hh.1, ?_⟩
    by_cases hx : x = u
    · -- found again: no tombstone stands in the way of the mark
      rw [hx] at hdb ⊢
      obtain ⟨htombs, hlen, -⟩ := hh
      refine ⟨?_, fun hback _ _ => ?_⟩
      · show k ≤ (h.journal ++ [_]).length
        rw [List.length_append]
        omega
      have halive : u ∈ w.dbs.keys := (Dict.mem_keys_iff ..).mpr ⟨db, hdb⟩
      refine ⟨halive, List.mem_insert_self, .inl (get?_mark_self fun htomb => ?_)⟩
      exact (htombs (BacksDead.of_append hback)).1 trivial u htomb halive
    · refine hh.2.move [.readopted x] rfl (fun n hn => Note.quiet ?_)
        (fun _ hmem => List.mem_insert_of_mem hmem) (fun _ _ hget => get?_mark_t2 hget)
      rw [List.mem_singleton.mp hn]
      simpa using hx
  forget {h} x hx hh := by
    refine ⟨(keepsSweep_tombsDead w True).forget x hx hh.1, ?_⟩
    have hne : u ∈ w.dbs.keys → x ≠ u := by
      rintro halive rfl
      exact hx halive
    refine hh.2.move [.forgotten x] rfl (Note.quiet_of_ne (by simp)) (fun halive hmem => ?_)
      (fun _ halive hget => ?_)
    · exact (List.mem_erase_of_ne (hne halive).symm).mpr hmem
    · exact (get?_markDeleted_of_ne _ (hne halive)).trans hget

/-! ### The flush pays -/

/-- Nothing is owed. -/
def Settled (k : Nat) (u v : Uuid) (h : Host β V δ) : Prop :=
  k ≤ h.journal.length ∧
    (BacksDead h.journal → History (SkipsSettled k u v) h.journal →
      owesBlob u v h.journal = false)

namespace Settled

variable {k : Nat} {u v : Uuid} {h h' : Host β V δ}

/-- Notes that start no debt leave a settled host settled. -/
theorem move (hh : h.Settled k u v) (notes : List (Note β V δ))
    (hjournal : h'.journal = h.journal ++ notes) (hquiet : ∀ n ∈ notes, n.Quiet u v) :
    h'.Settled k u v := by
  obtain ⟨hlen, hsettled⟩ := hh
  refine ⟨by rw [hjournal, List.length_append]; omega, fun hback hskips => ?_⟩
  rw [hjournal] at hback hskips ⊢
  rw [Bool.eq_false_iff]
  intro howed
  have hbefore := owesBlob_of_append hquiet howed
  rw [hsettled hback.of_append hskips.of_append] at hbefore
  cases hbefore

/-- A note that ends a debt. -/
private theorem of_pays (hlen : k ≤ h.journal.length) {n : Note β V δ}
    (hjournal : h'.journal = h.journal ++ [n]) (hpays : ∀ owed, n.owesBlob u v owed = false) :
    h'.Settled k u v := by
  refine ⟨by rw [hjournal, List.length_append]; omega, fun _ _ => ?_⟩
  rw [hjournal, owesBlob_snoc, hpays]

/-- Nothing is owed, so nothing waits. -/
theorem waiting {w : World β V} {coming : Prop} (hh : h.Settled k u v) :
    h.Waiting k w u v coming := by
  refine ⟨hh.1, fun hback hskips howed => ?_⟩
  rw [hh.2 hback hskips] at howed
  cases howed

end Settled

/-- So does every move of the sending half. -/
private theorem keeps_settled (k : Nat) (w : World β V) (u v : Uuid) :
    Keeps (δ := δ) w (Settled k u v) where
  same {h h'} hh hcore := by
    refine hh.move [] ?_ (by simp)
    rw [journal_of_core hcore, List.append_nil]
  act {h a} _ hh := hh.move [.act a] rfl (Note.quiet_of_ne (by simp))
  adopt x hh := hh.move [] (List.append_nil _).symm (by simp)
  requeued x hh := hh.move [_] rfl (Note.quiet_of_ne (by simp))
  tombBack x hh := hh.move [_] rfl (Note.quiet_of_ne (by simp))
  wantBoot x hh := hh.move [_] rfl (Note.quiet_of_ne (by simp))

section Flush

variable [BEq V] [DecidableEq δ] (H : Digests β V δ) {w : World β V} {k : Nat}
  {u v : Uuid}

/-- The blob is made, or the type has no tier 2, or the blob is skipped while nothing is
    owed. -/
private theorem shipBlob_settled {h : Host β V δ} (hlen : k ≤ h.journal.length) (db : Datablock β V)
    (snapshot : Option (Dict Path V)) : ((h.shipBlob H w v db snapshot).1).Settled k u v := by
  unfold shipBlob
  split
  · exact .of_pays hlen (n := .unsupported v) rfl (by simp [Note.owesBlob])
  · rename_i data _
    dsimp only
    split
    · -- skipped
      refine ⟨Nat.le_trans hlen (by simp [act, observe]), fun _ hskips => ?_⟩
      have hlast := History.last hskips
      show owesBlob u v (h.journal ++ [.act (.skip v data _)]) = false
      rw [owesBlob_snoc]
      exact hlast hlen rfl
    · apply (keeps_settled k w u v).drainT2Outbox
      refine Settled.of_pays ?_ rfl ?_
      · exact hlen
      · simp [Note.owesBlob]

/-- The flush of a datablock that travels in the blob of `v`. -/
private theorem flushT2_settled {h : Host β V δ} (hlen : k ≤ h.journal.length)
    (hcarries : w.Carries u v) (hknown : u ∈ h.uuidToDb) (snapshot : Option (Dict Path V)) :
    ((h.flushT2 H w u snapshot).1).Settled k u v := by
  obtain ⟨db, hget, hcarries⟩ := hcarries
  have hdb : h.db w u = some db := by
    unfold Host.db
    rw [if_pos hknown, hget]
  unfold flushT2
  rw [hdb]
  dsimp only
  split at hcarries
  · -- a shape key: its owner's blob carries it
    rename_i hkey
    obtain ⟨huser, hne, hmem⟩ := hcarries
    rw [if_pos hkey, huser]
    dsimp only
    rw [if_neg hne]
    obtain ⟨ownerDb, howner⟩ := (Dict.mem_keys_iff ..).mp hmem
    have hdbOwner : ((h.observe u (snapshot.getD db.snapshot)).adopt v).db w v =
        some ownerDb := by
      unfold Host.db
      rw [if_pos (mem_adopt _ v), howner]
    rw [hdbOwner]
    apply shipBlob_settled
    exact hlen
  · rename_i hkey
    rw [if_neg hkey]
    obtain rfl := hcarries
    exact shipBlob_settled H hlen db snapshot

/-- The flush of tier 2 makes the blob that is owed, and so settles it. -/
private theorem flushT2Or_settled {h : Host β V δ} (hlen : k ≤ h.journal.length)
    (hcarries : w.Carries u v) (hknown : u ∈ h.uuidToDb) (snapshot : Option (Dict Path V))
    (fallback : List (Path × V)) : (h.flushT2Or H w u snapshot fallback).Settled k u v := by
  have hflush := flushT2_settled H hlen hcarries hknown snapshot
  unfold flushT2Or
  split
  · rename_i h' heq
    rw [heq] at hflush
    exact (keeps_settled k w u v).sendT1 H u fallback none false hflush
  · rename_i h' heq
    rwa [heq] at hflush

/-- A blob that is owed is made by the flush of its datablock. -/
theorem Waiting.flushT2Or {h : Host β V δ} {coming coming' : Prop}
    (hcarries : u ∈ w.dbs.keys → w.Carries u v) (hh : h.Waiting k w u v coming) :
    (h.flushT2Or H w u none []).Waiting k w u v coming' := by
  obtain ⟨hlen, hwait⟩ := hh
  by_cases howed : BacksDead h.journal ∧ History (SkipsSettled k u v) h.journal ∧
      owesBlob u v h.journal = true
  · obtain ⟨hback, hskips, howed⟩ := howed
    obtain ⟨halive, hknown, -⟩ := hwait hback hskips howed
    exact (flushT2Or_settled H hlen (hcarries halive) hknown none []).waiting
  · have hsettled : h.Settled k u v := by
      refine ⟨hlen, fun hback hskips => ?_⟩
      rw [Bool.eq_false_iff]
      exact fun howes => howed ⟨hback, hskips, howes⟩
    exact ((keeps_settled k w u v).flushT2Or H u none [] hsettled).waiting

omit [BEq V] [DecidableEq δ] in
/-- An entry that goes back to the dirty set. -/
theorem Safe.requeue {h : Host β V δ} {coming : Prop} (hh : h.Safe k w u v True coming)
    (x : Uuid) (t : Tier) :
    ({ h with dirty := h.dirty.requeue x t } : Host β V δ).Safe k w u v True coming :=
  ⟨hh.1.move [] (List.append_nil _).symm (by simp)
      fun _ _ hu' => .inr (get?_mark_tombstone hu'),
    hh.2.move [] (List.append_nil _).symm (by simp) (fun _ hmem => hmem)
      fun _ _ hget => get?_mark_t2 hget⟩

omit [BEq V] [DecidableEq δ] in
/-- The debounce is about when, not what. -/
theorem Safe.touchReady {h : Host β V δ} {coming : Prop} (hh : h.Safe k w u v True coming)
    (x : Uuid) : (h.touchReady x w.now).Safe k w u v True coming :=
  ⟨hh.1.same [] (List.append_nil _).symm (by simp) rfl,
    hh.2.same [] (List.append_nil _).symm (by simp) rfl rfl⟩

omit [BEq V] [DecidableEq δ] in
/-- The entry that is owed goes back to the dirty set: no tombstone is there. -/
private theorem Safe.requeue_self {h : Host β V δ} {coming coming' : Prop}
    (hh : h.Safe k w u v True coming) :
    ({ h with dirty := h.dirty.requeue u .t2 } : Host β V δ).Safe k w u v True coming' := by
  refine ⟨(hh.requeue u .t2).1, hh.2.1, fun hback hskips howed => ?_⟩
  obtain ⟨halive, hknown, -⟩ := hh.2.2 hback hskips howed
  refine ⟨halive, hknown, .inl (get?_mark_self fun htomb => ?_)⟩
  exact (hh.1 hback).1 trivial u htomb halive

/-- One entry of the flush. -/
private theorem safe_flushEntry {ready : List Uuid} {s : Host β V δ × Nat} {e : Uuid × Tier}
    {rest : List (Uuid × Tier)} (hcarries : u ∈ w.dbs.keys → w.Carries u v)
    (hs : s.1.Safe k w u v True ((u, .t2) ∈ e :: rest)) :
    (flushEntry H w ready s e).1.Safe k w u v True ((u, .t2) ∈ rest) := by
  obtain ⟨h, budget⟩ := s
  by_cases he : e = (u, .t2)
  · -- the entry that is owed
    subst he
    unfold flushEntry
    dsimp only
    split
    · exact hs.requeue_self
    · split
      · exact hs.requeue_self.touchReady _
      · exact ⟨(keepsMark_tombsDead w True).flushT2Or H _ _ _ hs.1,
          hs.2.flushT2Or H hcarries⟩
      · rename_i heq
        cases heq
  · -- another one
    have hrest : h.Safe k w u v True ((u, .t2) ∈ rest) := by
      refine ⟨hs.1, hs.2.1, fun hback hskips howed => ?_⟩
      obtain ⟨halive, hknown, hpending⟩ := hs.2.2 hback hskips howed
      refine ⟨halive, hknown, hpending.imp_right fun hmem => ?_⟩
      exact (List.mem_cons.mp hmem).resolve_left fun heq => he heq.symm
    obtain ⟨x, t⟩ := e
    unfold flushEntry
    dsimp only
    split
    · exact hrest.requeue x t
    · split
      · exact (hrest.requeue x .t2).touchReady x
      · exact (keepsMark_safe k w u v True _).flushT2Or H _ _ _ hrest
      · exact (keepsMark_safe k w u v True _).flushT1 H _ hrest

/-- The flush of the dirty set. -/
private theorem safe_flushDirty (hcarries : u ∈ w.dbs.keys → w.Carries u v) {h : Host β V δ}
    (hh : h.Safe k w u v True False) : (h.flushDirty H w).Safe k w u v True False := by
  -- the drain takes the marks, and keeps the blob owed on its list
  have hdrained : (h.drained w).Safe k w u v True ((u, .t2) ∈ h.dirty.drain.2.2) := by
    refine ⟨hh.1.drained, ?_⟩
    obtain ⟨-, hlen, hwait⟩ := hh
    unfold Host.drained
    rw [foldl_note]
    refine ⟨by rw [List.length_append]; exact Nat.le_trans hlen (Nat.le_add_right _ _),
      fun hback hskips howed => ?_⟩
    -- what it notes is no news of the datablock
    have hquiet : ∀ n ∈ h.dirty.drain.2.1.map fun x =>
        (Note.drained x (w.dbs.get? x).isSome : Note β V δ), n.Quiet u v := by
      intro n hn
      obtain ⟨x, -, rfl⟩ := List.mem_map.mp hn
      exact Note.quiet (by simp)
    obtain ⟨halive, hknown, hpending⟩ :=
      hwait hback.of_append hskips.of_append (owesBlob_of_append hquiet howed)
    refine ⟨halive, hknown, .inr (DirtySet.mem_dirtyOf.mpr ?_)⟩
    exact (Dict.mem_entries_iff ..).mpr (hpending.resolve_right id)
  obtain ⟨h₁, hcore, heq⟩ := flushDirty_eq H (w := w) h
  rw [heq]
  -- the turns of the drain serve what is owed, by induction on them
  have hloop : ∀ (entries : List (Uuid × Tier)) (ready : List Uuid) (s : Host β V δ × Nat),
      s.1.Safe k w u v True ((u, .t2) ∈ entries) →
        (entries.foldl (flushEntry H w ready) s).1.Safe k w u v True False := by
    intro entries ready
    induction entries with
    -- after the last nothing may be owed any more
    | nil =>
      intro s hs
      refine ⟨hs.1, hs.2.1, fun hback hskips howed => ?_⟩
      obtain ⟨halive, hknown, hpending⟩ := hs.2.2 hback hskips howed
      exact ⟨halive, hknown, hpending.imp_right List.not_mem_nil⟩
    | cons e entries ih => exact fun s hs => ih _ (safe_flushEntry H hcarries hs)
  apply hloop
  -- the tombstones first, which owe nothing
  apply Keeps.foldl
    (fun h x hh => (keepsMark_safe k w u v True ((u, Tier.t2) ∈ _)).sendTombstone x hh)
  exact (keepsMark_safe k w u v True _).same hdrained hcore

/-- A tick in which the datablock is alive, if it is owed. -/
private theorem keepsTick_safe (hcarries : u ∈ w.dbs.keys → w.Carries u v) :
    KeepsTick H w (Safe k w u v True False) where
  toKeepsSweep := keepsSweep_safe k w u v False
  autoSkip hh := ⟨(keepsTick_tombsDead H w).autoSkip hh.1,
    hh.2.same [_] rfl (Note.quiet_of_ne (by simp)) rfl rfl⟩
  autoBoot data sceneDigest hh := ⟨(keepsTick_tombsDead H w).autoBoot data sceneDigest hh.1,
    hh.2.same [_] rfl (Note.quiet_of_ne (by simp)) rfl rfl⟩
  flush hh := safe_flushDirty H hcarries hh
  resend hh := (keepsSweep_safe k w u v False).drainFastResend H
    (fun _ _ _ hh => ⟨hh.1.same [_] rfl (by simp) rfl,
      hh.2.same [_] rfl (Note.quiet_of_ne (by simp)) rfl rfl⟩)
    (fun _ hh => ⟨hh.1.same [.act .endFast] rfl (by simp) rfl,
      hh.2.same [.act .endFast] rfl (Note.quiet_of_ne (by simp)) rfl rfl⟩) hh

omit [BEq V] [DecidableEq δ] in
/-- A repair asks for blobs, which are then made or owed still. -/
private theorem keepsRequest_safe : KeepsRequest (δ := δ) w (Safe k w u v False False) where
  toKeepsMark := keepsMark_safe k w u v False False
  window gapAt hh := ⟨hh.1.same [_] rfl (by simp) rfl,
    hh.2.same [_] rfl (Note.quiet_of_ne (by simp)) rfl rfl⟩

/-! ### Sessions -/

/-- The tombstones taken so far, after any call. -/
private theorem drainsDead_call {h : Host β V δ} (c : World β V × Call β δ)
    (hh : BacksDead h.journal → DrainsDead h.journal) (hwaits : h.WaitsDead c) :
    BacksDead (h.call H c).journal → DrainsDead (h.call H c).journal := by
  obtain ⟨w, c⟩ := c
  by_cases htick : c = .tick
  · subst htick
    have hsafe : h.TombsDead w True := by
      refine fun hback => ⟨fun _ u hu => hwaits u ?_, hh hback⟩
      exact DirtySet.mem_tombstonesOf.mpr ((Dict.mem_entries_iff ..).mpr hu)
    exact fun hback => ((keepsTick_tombsDead H w).flushTick hsafe hback).2
  · have hsafe : h.TombsDead w False := fun hback => ⟨fun ht => ht.elim, hh hback⟩
    by_cases hfile : c = .newFile
    · subst hfile
      obtain ⟨data, sceneDigest, hjournal⟩ := resetForNewFile_journal H w h
      intro hback
      show DrainsDead (h.resetForNewFile H w).journal
      have hback' : BacksDead (h.resetForNewFile H w).journal := hback
      rw [hjournal] at hback' ⊢
      exact (hh hback'.of_append).append (by simp [DrainsDead])
    · have hkeep : KeepsRequest (δ := δ) w (TombsDead w False) :=
        { toKeepsMark := keepsMark_tombsDead w False
          window := fun _ hh => hh.same [_] rfl (by simp) rfl }
      exact fun hback => (hkeep.call H htick hfile hsafe hback).2

omit [BEq V] [DecidableEq δ] in
/-- What a call in the world `w` finds waiting. -/
private theorem waiting_of_pending {h : Host β V δ} {c : World β V × Call β δ}
    (hlen : k ≤ h.journal.length)
    (hpending : BacksDead h.journal → History (SkipsSettled k u v) h.journal →
      h.ReadoptPending u v)
    (hstays : h.Stays u v c) : h.Waiting k c.1 u v False := by
  refine ⟨hlen, fun hback hskips howed => ?_⟩
  obtain ⟨hget, hknown⟩ := hpending hback hskips howed
  exact ⟨(hstays.2 howed).1, hknown, .inl hget⟩

/-- What is owed, after any call. -/
private theorem readoptPending_call {h : Host β V δ} (c : World β V × Call β δ)
    (hdrains : BacksDead h.journal → DrainsDead h.journal) (hlen : k ≤ h.journal.length)
    (hpending : BacksDead h.journal → History (SkipsSettled k u v) h.journal →
      h.ReadoptPending u v)
    (hwaits : h.WaitsDead c) (hstays : h.Stays u v c) :
    k ≤ (h.call H c).journal.length ∧
      (BacksDead (h.call H c).journal → History (SkipsSettled k u v) (h.call H c).journal →
        (h.call H c).ReadoptPending u v) := by
  have hwaiting := waiting_of_pending hlen hpending hstays
  obtain ⟨w, c⟩ := c
  have hof : ∀ {h' : Host β V δ}, h'.Waiting k w u v False →
      k ≤ h'.journal.length ∧ (BacksDead h'.journal → History (SkipsSettled k u v) h'.journal →
        h'.ReadoptPending u v) := by
    intro h' hh'
    refine ⟨hh'.1, fun hback hskips howed => ?_⟩
    obtain ⟨-, hknown, hget⟩ := hh'.2 hback hskips howed
    exact ⟨hget.resolve_right id, hknown⟩
  by_cases htick : c = .tick
  · subst htick
    have htombs : h.TombsDead w True := by
      refine fun hback => ⟨fun _ x hx => hwaits x ?_, hdrains hback⟩
      exact DirtySet.mem_tombstonesOf.mpr ((Dict.mem_entries_iff ..).mpr hx)
    exact hof ((keepsTick_safe H hstays.1).flushTick ⟨htombs, hwaiting⟩).2
  · by_cases hfile : c = .newFile
    · -- a file is opened only while nothing is owed
      subst hfile
      obtain ⟨data, sceneDigest, hjournal⟩ := resetForNewFile_journal H w h
      have hcall : (h.call H (w, .newFile)).journal =
          h.journal ++ [.act (.cutBoot data sceneDigest)] :=
        hjournal
      refine ⟨by rw [hcall, List.length_append]; omega, fun _ _ howed => ?_⟩
      rw [hcall] at howed
      have howed' : owesBlob u v h.journal = true :=
        owesBlob_of_append (Note.quiet_of_ne (by simp)) howed
      exact (hstays.2 howed').2.elim
    · have htombs : h.TombsDead w False :=
        fun hback => ⟨fun ht => ht.elim, hdrains hback⟩
      exact hof (keepsRequest_safe.call H htick hfile ⟨htombs, hwaiting⟩).2

/-- What is owed, after any calls. -/
private theorem readoptPending_run {h : Host β V δ} {calls : List (World β V × Call β δ)}
    (hdrains : BacksDead h.journal → DrainsDead h.journal)
    (hpending : BacksDead h.journal → History (SkipsSettled h.journal.length u v) h.journal →
      h.ReadoptPending u v)
    (halong : Along (call H) (fun h c => h.WaitsDead c ∧ h.Stays u v c) h calls)
    (hback : BacksDead (h.run H calls).journal)
    (hskips : History (SkipsSettled h.journal.length u v) (h.run H calls).journal) :
    (h.run H calls).ReadoptPending u v := by
  have hrun := halong.invariant
    (I := fun h' => (BacksDead h'.journal → DrainsDead h'.journal) ∧
      h.journal.length ≤ h'.journal.length ∧
      (BacksDead h'.journal → History (SkipsSettled h.journal.length u v) h'.journal →
        h'.ReadoptPending u v))
    (fun h' c hh' hc =>
      ⟨drainsDead_call H c hh'.1 hc.1, readoptPending_call H c hh'.1 hh'.2.1 hh'.2.2 hc.1 hc.2⟩)
    ⟨hdrains, Nat.le_refl _, hpending⟩
  exact hrun.2.2 hback hskips

/-- In every session in which undo brings no datablock back while its tombstone waits, and
    no refused tombstone is of a datablock that is alive, the tombstones that the drain
    takes are of dead datablocks. And as long as a datablock that was adopted again stays
    alive, and no digest on record stands in for its blob, its resend is pending until the
    blob is made. -/
theorem tombs_dead (w : World β V) (c0 f0 : Nat) (calls : List (World β V × Call β δ))
    (hback : BacksDead ((start w c0 f0).run H calls).journal)
    (hwaits : Along (call H) WaitsDead (start w c0 f0) calls) :
    DrainsDead ((start w c0 f0).run H calls).journal ∧
      ∀ u v before after, calls = before ++ after →
        ((start w c0 f0).run H before).ReadoptPending u v →
        Along (call H) (Stays u v) ((start w c0 f0).run H before) after →
        History (SkipsSettled ((start w c0 f0).run H before).journal.length u v)
          ((start w c0 f0).run H calls).journal →
        ((start w c0 f0).run H calls).ReadoptPending u v := by
  -- at the start nothing is noted
  have hstart : BacksDead (start w c0 f0 : Host β V δ).journal →
      DrainsDead (start w c0 f0 : Host β V δ).journal := by
    have hscan := initialScan_scanned w ({ ledger := Ledger.start c0 f0 } : Host β V δ)
    simp only [scanned, Prod.mk.injEq] at hscan
    rw [show (start w c0 f0 : Host β V δ).journal = [] from hscan.2.2.1]
    exact fun _ u alive hmem => absurd hmem List.not_mem_nil
  -- every call drains the dead alone, by the condition
  have hdrains : ∀ {h : Host β V δ} {calls}, Along (call H) WaitsDead h calls →
      (BacksDead h.journal → DrainsDead h.journal) →
      BacksDead (h.run H calls).journal → DrainsDead (h.run H calls).journal :=
    fun halong hh => halong.invariant (I := fun h => BacksDead h.journal → DrainsDead h.journal)
      (fun _ c hh hw => drainsDead_call H c hh hw) hh
  -- the second part: a readoption that waits
  refine ⟨hdrains hwaits hstart hback, ?_⟩
  rintro u v before after rfl hpending hstays hskips
  obtain ⟨hwaitsBefore, hwaitsAfter⟩ := (Along.append_iff _ _ _).mp hwaits
  have hbefore : BacksDead ((start w c0 f0).run H before).journal →
      DrainsDead ((start w c0 f0).run H before).journal := hdrains hwaitsBefore hstart
  -- the calls after it are a run of their own
  have hrun : ((start w c0 f0).run H (before ++ after)) =
      ((start w c0 f0).run H before).run H after := List.foldl_append
  rw [hrun] at hback hskips ⊢
  exact readoptPending_run H hbefore (fun _ _ => hpending) (hwaitsAfter.and hstays) hback hskips

end Flush

end Host

/-! ## A datablock that comes back -/

instance (h : Host β V δ) : (c : World β V × Host.Call β δ) → Decidable (h.WaitsDead c)
  | (w, .tick) =>
    inferInstanceAs (Decidable (∀ u ∈ DirtySet.tombstonesOf h.dirty.entries.entries,
      u ∉ w.dbs.keys))
  | (_, .depsgraph _) | (_, .bootstrap) | (_, .newFile) | (_, .fastWindow _)
  | (_, .delta _ _) | (_, .libraries _) => .isTrue trivial

instance (u v : Uuid) (h : Host β V δ) :
    (c : World β V × Host.Call β δ) → Decidable (h.Stays u v c)
  | (w, .newFile) =>
    inferInstanceAs (Decidable ((u ∈ w.dbs.keys → w.Carries u v) ∧
      (owesBlob u v h.journal = true → u ∈ w.dbs.keys ∧ False)))
  | (w, .tick) | (w, .depsgraph _) | (w, .bootstrap) | (w, .fastWindow _)
  | (w, .delta _ _) | (w, .libraries _) =>
    inferInstanceAs (Decidable ((u ∈ w.dbs.keys → w.Carries u v) ∧
      (owesBlob u v h.journal = true → u ∈ w.dbs.keys ∧ True)))

namespace Undo

open Camera (Digest digests scene)

/-- Camera `"a"`, with a lens. -/
def camera (lens : String) : Datablock (Entry String) String where
  snapshot := Dict.empty
  blend := some [("a", .ofList [(.rna "lens", lens)])]

/-- The scene and the camera. -/
def alive (lens : String) (now : Int) : World (Entry String) String where
  dbs := ⟨[("s", scene "a"), ("a", camera lens)], by simp⟩
  stamps := by simp [Dict.keys, mainfileUuid]
  now := now

/-- The camera is deleted. -/
def gone (now : Int) : World (Entry String) String where
  dbs := .ofList [("s", scene "a")]
  stamps := by decide
  now := now

/-- The bootstrap leaves, and the digest of the camera is put on record. -/
def boot : List (World (Entry String) String × Host.Call (Entry String) Digest) :=
  [(alive "50" 0, .bootstrap), (alive "50" 0, .tick)]

/-- The camera is deleted and undo brings it back, all while sync is paused. -/
def paused : List (World (Entry String) String × Host.Call (Entry String) Digest) :=
  boot ++ [({ gone 250 with paused := true }, .tick),
    ({ alive "50" 500 with paused := true }, .tick),
    (alive "50" 600, .tick)]

/-- The camera is deleted, its tombstone leaves, and undo brings it back with `lens`. -/
def calls (lens : String) :
    List (World (Entry String) String × Host.Call (Entry String) Digest) :=
  boot ++ [(gone 250, .tick), (alive lens 500, .tick)]

/-- The host after that. -/
def host (calls : List (World (Entry String) String × Host.Call (Entry String) Digest)) :
    Host (Entry String) String Digest :=
  (Host.start (alive "50" 0) 0 0).run digests calls

/-- No tombstone was of a datablock that is alive. -/
def dead : Note (Entry String) String Digest → Bool
  | .drained _ alive | .tombBack _ alive => !alive
  | _ => true

/-- No blob was skipped. -/
def shipped : Note (Entry String) String Digest → Bool
  | .act (.skip _ _ _) => false
  | _ => true

end Undo

open Undo in
/-- The tombstone of the camera leaves although the camera is back, and its resend is lost;
    and without the pause the resend is skipped, although the tombstone has left. -/
theorem tombs_dead_counterexample :
    (¬ DrainsDead (host paused).journal ∧ ¬ (host paused).ReadoptPending "a" "a") ∧
      DrainsDead (host (calls "50" ++ [(alive "50" 600, .tick)])).journal ∧
      ¬ (host (calls "50" ++ [(alive "50" 600, .tick)])).ReadoptPending "a" "a" := by
  have hdrained : Note.drained "a" true ∈ (host paused).journal := by decide +kernel
  have hpaused : owesBlob "a" "a" (host paused).journal = true ∧
      (host paused).dirty.entries.get? "a" = none := by decide +kernel
  have hdead : (host (calls "50" ++ [(alive "50" 600, .tick)])).journal.all dead = true := by
    decide +kernel
  have hskipped : owesBlob "a" "a" (host (calls "50" ++ [(alive "50" 600, .tick)])).journal =
      true ∧ (host (calls "50" ++ [(alive "50" 600, .tick)])).dirty.entries.get? "a" = none := by
    decide +kernel
  refine ⟨⟨fun h => ?_, Host.not_readoptPending hpaused⟩, fun u alive hmem => ?_,
    Host.not_readoptPending hskipped⟩
  · cases h _ _ hdrained
  · simpa [dead] using List.all_eq_true.mp hdead _ hmem

open Undo in
/-- A camera that comes back after its tombstone has left, and with another lens, waits for
    its resend. -/
theorem tombs_dead_pending :
    DrainsDead (host (calls "35")).journal ∧ (host (calls "35")).ReadoptPending "a" "a" := by
  have hdead : (host (calls "35")).journal.all dead = true := by decide +kernel
  have hshipped : (host (calls "35")).journal.all shipped = true := by decide +kernel
  have h := Host.tombs_dead Camera.digests (alive "50" 0) 0 0 (calls "35")
    (fun u alive hmem => by simpa [dead] using List.all_eq_true.mp hdead _ hmem)
    (by decide +kernel)
  refine ⟨h.1, h.2 "a" "a" [] (calls "35") rfl (fun howed => by cases howed) (by decide +kernel) ?_⟩
  apply History.of_forall
  intro n hn before
  have hne := List.all_eq_true.mp hshipped n hn
  unfold SkipsSettled
  split
  · cases hne
  · trivial

end QCBridge
