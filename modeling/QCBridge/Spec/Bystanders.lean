import QCBridge.Spec.DirtyHistory
import QCBridge.Spec.Raising
import QCBridge.Spec.Resurrection

/-!
# What a datablock that raises does to the others

The drain empties the dirty set before the loop takes up its entries one at a time. An
exception in one of them ends the tick, and the entries that come after it are neither
sent nor put back. An entry whose handle an undo freed is dropped in its turn: the flush
takes it for one that died.

## Key results

- `Host.served_flushEntry`: what gets through its turn is served
- `Host.Unspoken`: what does not is neither put back nor sent, but may go along with others
- `Host.loses_none_iff`: when no other entry of the drain is lost
-/

namespace QCBridge

variable {β V δ : Type}

/-- The note tells that the edit of `u` was sent, was queued, was found to be what the
    replica has, or waits for the automatic bootstrap. -/
def Note.Speaks (w : World β V) (u : Uuid) : Note β V δ → Prop
  | .act (.t1 x _ _ _ _) => x = u
  | .act (.cutT2 v _ _ _) | .act (.skip v _ _) | .unsupported v => w.Carries u v
  | _ => False

/-- The note tells that the datablock went along in a blob, or would have if its type had
    one. -/
def Note.Ships (w : World β V) (u : Uuid) : Note β V δ → Prop
  | .act (.cutT2 v _ _ _) | .act (.skip v _ _) | .unsupported v => w.Carries u v
  | _ => False

/-- The note tells of a tier-1 message of the datablock. -/
def Note.Edits (u : Uuid) : Note β V δ → Prop
  | .act (.t1 x _ _ _ _) => x = u
  | _ => False

namespace Host

/-! ## What is accounted for -/

/-- Since the journal `j` something was said of the datablock, or its mark is there. -/
def Accounted (said : Note β V δ → Prop) (back : Option Mark → Prop) (u : Uuid)
    (j : List (Note β V δ)) (h : Host β V δ) : Prop :=
  back (h.dirty.entries.get? u) ∨ ∃ notes, h.journal = j ++ notes ∧ ∃ n ∈ notes, said n

/-- The journal goes on from `j`. -/
def Extends (j : List (Note β V δ)) (h : Host β V δ) : Prop := ∃ notes, h.journal = j ++ notes

/-- Marks and tombstones leave what is there. -/
structure Stable (back : Option Mark → Prop) : Prop where
  mark : ∀ (d : DirtySet) u u' t, back (d.entries.get? u) → back ((d.mark u' t).entries.get? u)
  tombstone : back (some .tombstone)

/-- That there is a mark is not undone by another mark. -/
private theorem stable_isSome : Stable fun m => m.isSome = true where
  mark d u u' t h := d.get?_mark_isSome u' u t h
  tombstone := rfl

/-- Nor is a tombstone. -/
private theorem stable_tombstone : Stable (· = some Mark.tombstone) where
  mark d u u' t h := by
    rw [DirtySet.get?_mark]
    split
    · rename_i heq
      rw [heq, h]
    · exact h
  tombstone := rfl

variable {said : Note β V δ → Prop} {back : Option Mark → Prop} {u : Uuid}
  {j : List (Note β V δ)}

/-- Notes that are added extend the journal. -/
theorem Extends.move {h h' : Host β V δ} (hh : Extends j h) (notes : List (Note β V δ))
    (hjournal : h'.journal = h.journal ++ notes) : Extends j h' := by
  obtain ⟨old, heq⟩ := hh
  exact ⟨old ++ notes, by rw [hjournal, heq, List.append_assoc]⟩

/-- What is accounted for stays so while the mark stays and notes are added. -/
theorem Accounted.move {h h' : Host β V δ} (hh : Accounted said back u j h)
    (notes : List (Note β V δ)) (hjournal : h'.journal = h.journal ++ notes)
    (hdirty : back (h.dirty.entries.get? u) → back (h'.dirty.entries.get? u)) :
    Accounted said back u j h' := by
  rcases hh with hback | ⟨old, heq, n, hn, hsaid⟩
  · exact .inl (hdirty hback)
  · exact .inr ⟨old ++ notes, by rw [hjournal, heq, List.append_assoc], n,
      List.mem_append_left _ hn, hsaid⟩

/-- Something is said of the datablock. -/
private theorem Extends.speak {h h' : Host β V δ} (hh : Extends j h) (notes : List (Note β V δ))
    (hjournal : h'.journal = h.journal ++ notes) {n : Note β V δ} (hn : n ∈ notes)
    (hsaid : said n) : Accounted said back u j h' := by
  obtain ⟨old, heq⟩ := hh
  exact .inr ⟨old ++ notes, by rw [hjournal, heq, List.append_assoc], n,
    List.mem_append_right _ hn, hsaid⟩

/-- No move of the sync loop takes a note back. -/
theorem keeps_extends (w : World β V) (j : List (Note β V δ)) : Keeps w (Extends j) where
  same {h h'} hh hcore := by
    refine hh.move [] ?_
    rw [journal_of_core hcore, List.append_nil]
  act hh hh' := hh'.move [_] rfl
  adopt _ hh := hh.move [] (List.append_nil _).symm
  requeued _ hh := hh.move [_] rfl
  tombBack _ hh := hh.move [_] rfl
  wantBoot _ hh := hh.move [_] rfl

/-- Nor does one lose what is accounted for. -/
private theorem keeps_accounted (w : World β V) (hback : Stable back) :
    Keeps w (Accounted said back u j) where
  same {h h'} hh hcore := by
    refine hh.move [] ?_ ?_
    · rw [journal_of_core hcore, List.append_nil]
    · rw [dirty_of_core hcore]
      exact id
  act _ hh := hh.move [_] rfl id
  adopt _ hh := hh.move [] (List.append_nil _).symm id
  requeued x hh := hh.move [_] rfl (hback.mark _ _ _ _)
  tombBack {h} x hh := by
    refine hh.move [.tombBack x (w.dbs.get? x).isSome] rfl fun hu => ?_
    have hentries : (h.tombBack w x).dirty.entries = h.dirty.entries.insert x .tombstone := rfl
    rw [hentries, Dict.get?_insert]
    split
    · exact hback.tombstone
    · exact hu
  wantBoot _ hh := hh.move [_] rfl id

/-! ## Tombstones -/

/-- A tombstone that is sent has left, or waits again. -/
private theorem accounted_sendTombstone {w : World β V} {h : Host β V δ} (hh : Extends j h) :
    Accounted (· = .act (.tomb u)) (· = some .tombstone) u j (h.sendTombstone w u).1 := by
  unfold Host.sendTombstone Host.send
  dsimp only
  split
  · rename_i heq
    split at heq
    · obtain rfl := (Prod.mk.inj heq).1
      exact hh.speak [.act (.tomb u)] rfl (List.mem_singleton_self _) rfl
    · cases heq
  · rename_i heq
    split at heq
    · cases heq
    · obtain rfl := (Prod.mk.inj heq).1
      exact .inl (Dict.get?_insert_self ..)

/-- Each tombstone of the drain is sent or put back. -/
private theorem accounted_sendTombstones {w : World β V} {tombs : List Uuid} (hu : u ∈ tombs)
    {h : Host β V δ} (hh : Extends j h) :
    Accounted (· = .act (.tomb u)) (· = some .tombstone) u j
      (tombs.foldl (fun h u => (h.sendTombstone w u).1) h) := by
  induction tombs generalizing h with
  | nil => cases hu
  | cons x tombs ih =>
    rw [List.foldl_cons]
    rcases List.mem_cons.mp hu with rfl | hu
    · exact Keeps.foldl (fun h x hh => (keeps_accounted w stable_tombstone).sendTombstone x hh)
        tombs (accounted_sendTombstone hh)
    · exact ih hu ((keeps_extends w j).sendTombstone x hh)

/-! ## Entries -/

/-- When its turn came there was nothing to send for the datablock: it is gone, what would go
    travels in no blob, or it is as the replica is believed to show it. -/
def Silent [BEq V] (w : World β V) (h : Host β V δ) (u : Uuid) (t : Tier) : Prop :=
  match w.dbs.get? u, t with
  | none, _ => True
  | some _, .t2 => ∀ v, ¬ w.Carries u v
  | some db, .t1 =>
    match h.shadow.get? u with
    | none => db.saved = false ∨ ∀ v, ¬ w.Carries u v
    | some shadow =>
      let diff := diffOf shadow db.snapshot
      if diff.structural then ∀ v, ¬ w.Carries u v else diff.changes = []

/-- The datablock is dirty again, or something was said of it. -/
abbrev Served (w : World β V) (u : Uuid) (j : List (Note β V δ)) (h : Host β V δ) : Prop :=
  Accounted (Note.Speaks w u) (fun m => m.isSome = true) u j h

section Flush

variable [BEq V] [DecidableEq δ] {F : Faults} (H : Digests β V δ) {w : World β V}

/-- A blob that is shipped serves every datablock it carries. -/
private theorem served_shipBlob {v : Uuid} (hcarries : w.Carries u v) (db : Datablock β V)
    (snapshot : Option (Dict Path V)) {h : Host β V δ} (hh : Extends j h) :
    Served w u j (h.shipBlob H w v db snapshot).1 := by
  unfold Host.shipBlob
  split
  · exact hh.speak [.unsupported v] rfl (List.mem_singleton_self _) hcarries
  · rename_i data _
    dsimp only
    split
    · exact hh.speak [.act (.skip v data _)] rfl (List.mem_singleton_self _) hcarries
    · apply (keeps_accounted w stable_isSome).drainT2Outbox
      exact hh.speak [.act (.cutT2 v data _ _)] rfl (List.mem_singleton_self _) hcarries

/-- A datablock that is flushed as a blob is served, or travels in none. -/
private theorem served_flushT2 (snapshot : Option (Dict Path V)) {h : Host β V δ} (hh : Extends j h)
    {db : Datablock β V} (hdb : h.db w u = some db) :
    Served w u j (h.flushT2 H w u snapshot).1 ∨ ∀ v, ¬ w.Carries u v := by
  have hget := get?_of_db hdb
  -- who is carried, written out at this datablock
  have hcarries : ∀ {v}, w.Carries u v →
      if db.kind = .key then db.user = some v ∧ v ≠ u ∧ v ∈ w.dbs.keys else v = u := by
    rintro v ⟨db', hget', hv⟩
    rw [hget] at hget'
    cases hget'
    exact hv
  unfold Host.flushT2
  rw [hdb]
  dsimp only
  -- shape keys: their owner's blob carries them
  split
  · rename_i hkey
    simp only [if_pos hkey] at hcarries
    split
    · rename_i howner
      right
      intro v hv
      rw [howner] at hcarries
      exact absurd (hcarries hv).1 nofun
    · rename_i owner howner
      rw [howner] at hcarries
      split
      · -- an owner that is the key itself carries nobody
        rename_i hself
        right
        intro v hv
        obtain ⟨heq, hne, -⟩ := hcarries hv
        exact hne ((Option.some.inj heq).symm.trans hself)
      · rename_i hself
        have hadopted : ((h.observe u (snapshot.getD db.snapshot)).adopt owner).db w owner =
            w.dbs.get? owner := if_pos (mem_adopt _ owner)
        -- the owner must be in the file
        split
        · rename_i hnone
          right
          intro v hv
          obtain ⟨heq, -, hmem⟩ := hcarries hv
          rw [hadopted, Option.some.inj heq] at hnone
          exact absurd hmem ((Dict.get?_eq_none_iff ..).mp hnone)
        · rename_i ownerDb hsome
          left
          rw [hadopted] at hsome
          have hmem : owner ∈ w.dbs.keys := (Dict.mem_keys_iff ..).mpr ⟨ownerDb, hsome⟩
          apply served_shipBlob H ⟨db, hget, ?_⟩ ownerDb none
          · exact (keeps_extends w j).adopt owner ((keeps_extends w j).same hh rfl)
          · rw [if_pos hkey]
            exact ⟨howner, hself, hmem⟩
  · -- any other datablock is carried by its own blob
    rename_i hkey
    left
    apply served_shipBlob H ⟨db, hget, ?_⟩ db snapshot hh
    rw [if_neg hkey]

/-- A tier-1 message leaves, or its datablock is dirty again. -/
private theorem served_sendT1 {changes : List (Path × V)} (hchanges : changes ≠ [])
    (old : Option (Dict Path V)) (full : Bool) {h : Host β V δ} (hh : Extends j h) :
    Served w u j (h.sendT1 H w u changes old full).1 := by
  -- what is given back is dirty, with a shadow to restore or without
  have hback : ∀ {h : Host β V δ}, Served w u j (h.giveBack u old) := by
    intro h
    have hmark : ((h.dirty.mark u .t1).entries.get? u).isSome = true := by
      rw [DirtySet.get?_mark, if_pos rfl]
      rfl
    unfold Host.giveBack
    cases old with
    | none => exact .inl hmark
    | some old => exact .inl hmark
  unfold Host.sendT1
  rw [if_neg hchanges]
  have hsettle := (keeps_extends w j).settleTargets H (settersFirst changes) [] hh
  dsimp only
  split
  · -- a target waits: the changes go back
    exact hback
  · rename_i h' targets heq
    rw [heq] at hsettle
    -- the message leaves, or is refused and goes back
    split
    · rename_i hsend
      unfold Host.send at hsend
      dsimp only at hsend
      split at hsend
      · obtain rfl := (Prod.mk.inj hsend).1
        exact hsettle.speak [.act (.t1 u _ _ _ _)] rfl (List.mem_singleton_self _) rfl
      · cases hsend
    · exact hback

/-- A blob, or the tier-1 message it falls back to, serves the datablock. -/
private theorem served_flushT2Or (snapshot : Option (Dict Path V)) (fallback : List (Path × V))
    {h : Host β V δ} (hh : Extends j h) {db : Datablock β V} (hdb : h.db w u = some db) :
    Served w u j (h.flushT2Or H w u snapshot fallback) ∨ ∀ v, ¬ w.Carries u v := by
  have hflush := served_flushT2 H snapshot hh hdb
  unfold Host.flushT2Or
  split
  · rename_i h' heq
    rw [heq] at hflush
    exact hflush.imp_left fun hserved =>
      (keeps_accounted w stable_isSome).sendT1 H u fallback none false hserved
  · rename_i h' heq
    rwa [heq] at hflush

omit [BEq V] [DecidableEq δ] in
/-- A handle that works is that of the datablock in the file. -/
private theorem db_of_works {h : Host β V δ} (hworks : h.Works w u) : h.db w u = w.dbs.get? u := by
  unfold Host.db
  split
  · rfl
  · rename_i hnot
    exact ((Dict.get?_eq_none_iff ..).mpr fun hmem => hnot (hworks hmem)).symm

/-- A tier-1 flush of a working handle serves the datablock, or there is nothing to send. -/
private theorem served_flushT1 {h : Host β V δ} (hh : Extends j h) (hworks : h.Works w u) :
    Served w u j (h.flushT1 H w u) ∨ Silent w h u .t1 := by
  unfold Host.flushT1 Silent
  rw [← db_of_works hworks]
  cases hdb : h.db w u with
  | none => exact .inr trivial
  | some db =>
    dsimp only
    generalize hseen : (if db.kind = .scene then
      { h with sceneDigest := some (H.scene db.snapshot) } else h) = h₁
    -- what is seen of the datablock leaves the journal, the shadow and the handle alone
    have hcore : (h₁.observe u db.snapshot).core = h.core := by
      rw [← hseen]
      split <;> rfl
    have hshadow : h₁.shadow = h.shadow := by
      rw [← hseen]
      split <;> rfl
    have hh₁ := (keeps_extends w j).same hh hcore
    have hdb₁ : (h₁.observe u db.snapshot).db w u = some db := by
      unfold Host.db at hdb ⊢
      rw [uuidToDb_of_core hcore]
      exact hdb
    have hdiff : (h₁.shadow.diffAndUpdate u db.snapshot).2 =
        (h.shadow.get? u).map (diffOf · db.snapshot) := by
      rw [hshadow]
      rfl
    rw [hdiff]
    -- with no shadow only what was saved before asks for a blob
    cases h.shadow.get? u with
    | none =>
      dsimp only [Option.map_none]
      split
      · exact (served_flushT2Or H _ _ hh₁ hdb₁).imp_right .inr
      · rename_i hsaved
        exact .inr (.inl (by simpa using hsaved))
    -- a diff with no changes is silent, any other is served
    | some shadow =>
      dsimp only [Option.map_some]
      split
      · exact served_flushT2Or H _ _ hh₁ hdb₁
      · by_cases hchanges : (diffOf shadow db.snapshot).changes = []
        · exact .inr hchanges
        · exact .inl (served_sendT1 H hchanges _ _ hh₁)

/-- The entry is taken up in its turn: its window is over, and a blob may still go. -/
def TakenUp (ready : List Uuid) (s : Host β V δ × Nat) (e : Uuid × Tier) : Prop :=
  e.1 ∈ ready ∧ (e.2 = .t2 → s.2 ≠ 0)

instance (ready : List Uuid) (s : Host β V δ × Nat) (e : Uuid × Tier) :
    Decidable (TakenUp ready s e) := inferInstanceAs (Decidable (_ ∧ _))

/-- An entry that has had its turn is served, unless there was nothing to send. -/
theorem served_flushEntry (ready : List Uuid) (s : Host β V δ × Nat) (t : Tier)
    (hs : Extends j s.1) (hworks : TakenUp ready s (u, t) → s.1.Works w u) :
    Served w u j (flushEntry H w ready s (u, t)).1 ∨ Silent w s.1 u t := by
  obtain ⟨h, budget⟩ := s
  -- an entry put off is dirty again
  have hmark : ∀ t, ((h.dirty.mark u t).entries.get? u).isSome = true := by
    intro t
    rw [DirtySet.get?_mark, if_pos rfl]
    rfl
  unfold Host.flushEntry
  dsimp only
  split
  · exact .inl (.inl (hmark t))
  · rename_i hready
    rw [not_not] at hready
    -- tier 1 is always taken up, tier 2 while there is budget
    cases t with
    | t1 => exact served_flushT1 H hs (hworks ⟨hready, nofun⟩)
    | t2 =>
      cases budget with
      | zero => exact .inl (.inl (hmark .t2))
      | succ budget =>
        have hdb := db_of_works (hworks ⟨hready, by simp⟩)
        unfold Silent
        rw [← hdb]
        cases hdb : h.db w u with
        | none => exact .inr trivial
        | some db => exact served_flushT2Or H none [] hs hdb

/-! ## The loop -/

/-- What raises in an entry's turn is the datablock itself, and no entry comes after it; and
    the handles of what is taken up work. -/
def TurnsSafe (F : Faults) (H : Digests β V δ) (w : World β V) (ready : List Uuid) :
    Host β V δ × Nat → List (Uuid × Tier) → Prop
  | _, [] => True
  | s, e :: es =>
    (∀ x ∈ Raising.turnRaises F w ready s e, x = e.1 ∧ es = []) ∧
      (TakenUp ready s e → s.1.Works w e.1) ∧ TurnsSafe F H w ready (flushEntry H w ready s e) es

instance TurnsSafe.decide (F : Faults) (H : Digests β V δ) (w : World β V) (ready : List Uuid) :
    (s : Host β V δ × Nat) → (es : List (Uuid × Tier)) → Decidable (TurnsSafe F H w ready s es)
  | _, [] => .isTrue trivial
  | s, e :: es =>
    have := TurnsSafe.decide F H w ready (flushEntry H w ready s e) es
    inferInstanceAs (Decidable ((∀ x ∈ Raising.turnRaises F w ready s e, x = e.1 ∧ es = []) ∧
      (TakenUp ready s e → s.1.Works w e.1) ∧
        TurnsSafe F H w ready (flushEntry H w ready s e) es))

omit [BEq V] [DecidableEq δ] in
/-- An entry that is put back loses none of the others. -/
private theorem accounted_requeue (hback : Stable back) {h : Host β V δ} (x : Uuid) (t : Tier)
    (hh : Accounted said back u j h) :
    Accounted said back u j { h with dirty := h.dirty.requeue x t } :=
  hh.move [] (List.append_nil _).symm (hback.mark _ _ _ _)

omit [BEq V] [DecidableEq δ] in
/-- Touching the debouncer loses none either. -/
private theorem accounted_touch {h : Host β V δ} (x : Uuid) (hh : Accounted said back u j h) :
    Accounted said back u j (h.touchReady x w.now) :=
  hh.move [] (List.append_nil _).symm id

/-- What is accounted for stays so wherever the loop stops. -/
private theorem accounted_forEach (F : Faults) (hback : Stable back) (ready : List Uuid)
    (entries : List (Uuid × Tier)) {s : Host β V δ × Nat}
    (hs : Accounted said back u j s.1) :
    Accounted said back u j
      (Attempt.forEach (Raising.flushEntry F H w ready) entries s).1.1 := by
  apply Attempt.forEach_invariant (I := fun s : Host β V δ × Nat => Accounted said back u j s.1)
    _ entries hs
  exact fun s e hs => Raising.keeps_flushEntry F H (keeps_accounted w hback)
    (fun x t hh => accounted_requeue hback x t hh) (fun x hh => accounted_touch x hh) ready s e hs

/-- The loop takes no note back, wherever it stops. -/
private theorem extends_forEach (F : Faults) (ready : List Uuid) (entries : List (Uuid × Tier))
    {s : Host β V δ × Nat} (hs : Extends j s.1) :
    Extends j (Attempt.forEach (Raising.flushEntry F H w ready) entries s).1.1 := by
  apply Attempt.forEach_invariant (I := fun s : Host β V δ × Nat => Extends j s.1) _ entries hs
  exact fun s e hs => Raising.keeps_flushEntry F H (keeps_extends w j) (fun _ _ hh => hh)
    (fun _ hh => hh) ready s e hs

/-! ## Without a turn

An entry that does not get through its turn is not put back, and no tier-1 message of it
leaves. All that can still speak of it is a blob that other entries ship. -/

/-- Since the journal `j` the datablock went along in a blob. -/
def Carried (w : World β V) (u : Uuid) (j : List (Note β V δ)) (h : Host β V δ) : Prop :=
  ∃ notes, h.journal = j ++ notes ∧ ∃ n ∈ notes, n.Ships w u

/-- The datablock is not dirty, and since the journal `j` no tier-1 message of it left. -/
structure Unspoken (u : Uuid) (j : List (Note β V δ)) (h : Host β V δ) : Prop where
  clean : h.dirty.entries.get? u = none
  unsent : ∃ notes, h.journal = j ++ notes ∧ ∀ n ∈ notes, ¬ n.Edits u

omit [BEq V] [DecidableEq δ] in
/-- What edits nothing of the datablock and leaves its mark says nothing of it. -/
theorem Unspoken.move {h h' : Host β V δ} (hh : Unspoken u j h) (notes : List (Note β V δ))
    (hjournal : h'.journal = h.journal ++ notes) (hnotes : ∀ n ∈ notes, ¬ n.Edits u)
    (hdirty : h'.dirty.entries.get? u = h.dirty.entries.get? u) : Unspoken u j h' := by
  obtain ⟨hclean, old, heq, hold⟩ := hh
  refine ⟨hdirty.trans hclean, old ++ notes, by rw [hjournal, heq, List.append_assoc], ?_⟩
  intro n hn
  rcases List.mem_append.mp hn with hn | hn
  · exact hold n hn
  · exact hnotes n hn

omit [BEq V] [DecidableEq δ] in
/-- Served, and nothing said of it: it went along with another. -/
private theorem Carried.of_served {h : Host β V δ} (hserved : Served w u j h)
    (hh : Unspoken u j h) :
    Carried w u j h := by
  rcases hserved with hdirty | ⟨notes, heq, n, hn, hspeaks⟩
  · rw [hh.clean] at hdirty
    cases hdirty
  · obtain ⟨-, notes', heq', hunsent⟩ := hh
    obtain rfl := List.append_cancel_left (heq.symm.trans heq')
    refine ⟨notes, heq, n, hn, ?_⟩
    have hnot := hunsent n hn
    cases n with
    | act a =>
      cases a with
      | t1 x changes targets full sd => exact absurd hspeaks hnot
      | _ => exact hspeaks
    | _ => exact hspeaks

omit [BEq V] [DecidableEq δ] in
/-- What goes along is served. -/
theorem Carried.served {h : Host β V δ} (hcarried : Carried w u j h) : Served w u j h := by
  obtain ⟨notes, heq, n, hn, hships⟩ := hcarried
  refine .inr ⟨notes, heq, n, hn, ?_⟩
  cases n with
  | act a =>
    cases a with
    | t1 x changes targets full sd => exact hships.elim
    | _ => exact hships
  | _ => exact hships

omit [BEq V] [DecidableEq δ] in
/-- Blobs are no tier-1 messages. -/
private theorem keepsBlobs_unspoken (w : World β V) (u : Uuid) (j : List (Note β V δ)) :
    KeepsBlobs w (Unspoken u j) where
  same {h h'} hh hcore := by
    refine hh.move [] ?_ (by simp) ?_
    · rw [journal_of_core hcore, List.append_nil]
    · rw [dirty_of_core hcore]
  blob {h a} ha hh := by
    refine hh.move [.act a] rfl ?_ rfl
    intro n hn
    obtain rfl := List.mem_singleton.mp hn
    cases a with
    | t1 x changes targets full sd => exact ha.elim
    | _ => exact id
  adopt x hh := hh.move [] (List.append_nil _).symm (by simp) rfl
  wantBoot x hh := hh.move [.unsupported x] rfl (by simp [Note.Edits]) rfl

omit [BEq V] [DecidableEq δ] in
/-- A mark of another datablock is none of this one. -/
theorem Unspoken.mark {h : Host β V δ} (hh : Unspoken u j h) {v : Uuid} (hne : v ≠ u) (t : Tier) :
    (h.dirty.mark v t).entries.get? u = none := by
  rw [DirtySet.get?_mark, if_neg hne]
  exact hh.clean

omit [BEq V] [DecidableEq δ] in
/-- Nor is a shadow of another one that is given back. -/
theorem Unspoken.giveBack {h : Host β V δ} (hh : Unspoken u j h) {v : Uuid} (hne : v ≠ u)
    (old : Option (Dict Path V)) : Unspoken u j (h.giveBack v old) := by
  have hback : Unspoken u j (h.requeued v) := by
    refine hh.move [.givenBack v (h.debounce.touched.get? v).isSome] rfl (by simp [Note.Edits]) ?_
    exact (hh.mark hne .t1).trans hh.clean.symm
  unfold Host.giveBack
  dsimp only
  split
  · exact hback
  · exact ⟨hback.clean, hback.unsent⟩

omit [BEq V] [DecidableEq δ] in
/-- A step that is no tier-1 message of the datablock. -/
theorem Unspoken.send {h : Host β V δ} (hh : Unspoken u j h) {a : LedgerAct β V δ}
    (ha : ¬ (Note.act a : Note β V δ).Edits u) : Unspoken u j (h.send w a).1 := by
  apply send_invariant (keepsBlobs_unspoken w u j).same _ hh
  intro h hh
  exact hh.move [.act a] rfl (by simpa using ha) rfl

/-- Of another datablock, or of one that raises. -/
theorem Unspoken.sendT1 {h : Host β V δ} (hh : Unspoken u j h) {v : Uuid}
    (changes : List (Path × V)) (old : Option (Dict Path V)) (full : Bool)
    (hother : v = u → ∃ x, (Raising.sendT1 F H w h v changes old full).2 = .error x) :
    Unspoken u j (Raising.sendT1 F H w h v changes old full).1 := by
  unfold Raising.sendT1 at hother ⊢
  split
  · exact hh
  · rename_i hchanges
    rw [if_neg hchanges] at hother
    have hsettled := Raising.keeps_settleTargets F H (keepsBlobs_unspoken w u j)
      (settersFirst changes) [] hh
    dsimp only at hother ⊢
    generalize Raising.settleTargets F H w (settersFirst changes) h [] = r at hother hsettled
    obtain ⟨h', x | targets⟩ := r
    · exact hsettled
    · -- the targets are settled, and nothing raises any more
      have hne : v ≠ u := by
        rintro rfl
        obtain ⟨x, herr⟩ := hother rfl
        rw [Attempt.andThen_ok] at herr
        split at herr
        · cases herr
        · split at herr
          · cases herr
          · cases herr
      rw [Attempt.andThen_ok]
      cases targets with
      | none => exact hsettled.giveBack hne old
      | some targets =>
        have hsent := hsettled.send (w := w)
          (a := .t1 v (settersFirst changes) targets full (h'.sd w v)) hne
        dsimp only
        split
        · rename_i heq
          rwa [heq] at hsent
        · rename_i heq
          rw [heq] at hsent
          exact hsent.giveBack hne old

/-- A flush of another datablock says nothing of this one; nor does one of its own that raises. -/
theorem Unspoken.flushT2Or {h : Host β V δ} (hh : Unspoken u j h) {v : Uuid}
    (snapshot : Option (Dict Path V)) (fallback : List (Path × V))
    (hother : v = u → ∃ x, (Raising.flushT2Or F H w h v snapshot fallback).2 = .error x) :
    Unspoken u j (Raising.flushT2Or F H w h v snapshot fallback).1 := by
  have hflush := Raising.keeps_flushT2 F H (keepsBlobs_unspoken w u j) v snapshot hh
  unfold Raising.flushT2Or at hother ⊢
  generalize Raising.flushT2 F H w h v snapshot = r at hother hflush
  obtain ⟨asked, x | _ | _⟩ := r
  · exact hflush
  · exact hflush
  · rw [Attempt.andThen_ok, if_pos rfl] at hother ⊢
    have hsent := hh.sendT1 (F := F) H (w := w) (v := v) fallback none false
    generalize Raising.sendT1 F H w h v fallback none false = r at hother hsent
    obtain ⟨h', x | b⟩ := r
    · exact hsent fun _ => ⟨x, rfl⟩
    · have hne : v ≠ u := by
        rintro rfl
        obtain ⟨x, herr⟩ := hother rfl
        cases herr
      have hasked := Unspoken.sendT1 (F := {}) H (w := w) hflush fallback none false (absurd · hne)
      rw [Raising.sendT1_eq H asked v fallback none false (Raising.eq_nil_of_quiet (F := {})
        (fun _ => rfl) fun _ hx => World.raises_of_mem_targetRaises hx)] at hasked
      exact hasked

/-- The same of a tier-1 flush. -/
theorem Unspoken.flushT1 {h : Host β V δ} (hh : Unspoken u j h) {v : Uuid}
    (hother : v = u → ∃ x, (Raising.flushT1 F H w h v).2 = .error x) :
    Unspoken u j (Raising.flushT1 F H w h v).1 := by
  unfold Raising.flushT1 at hother ⊢
  -- no handle says nothing
  split
  · exact hh
  · rename_i db hdb
    rw [hdb] at hother
    dsimp only at hother ⊢
    -- neither does a snapshot that raises
    split
    · exact hh
    · rename_i hsnapshot
      rw [if_neg hsnapshot] at hother
      -- what is seen of the datablock is said of nobody
      have hseen : Unspoken u j ((if db.kind = .scene then
          { h with sceneDigest := some (H.scene db.snapshot) } else h).observe v db.snapshot) := by
        split
        · exact (keepsBlobs_unspoken w u j).same hh rfl
        · exact (keepsBlobs_unspoken w u j).same hh rfl
      -- a blob with no shadow to compare
      split
      · rename_i hdiff
        rw [hdiff] at hother
        dsimp only at hother
        split
        · rename_i hsaved
          rw [if_pos hsaved] at hother
          exact hseen.flushT2Or H _ _ hother
        · exact hseen
      · -- a blob or a message for the diff
        rename_i diff hdiff
        rw [hdiff] at hother
        dsimp only at hother
        split
        · rename_i hstructural
          rw [if_pos hstructural] at hother
          exact hseen.flushT2Or H _ _ hother
        · rename_i hstructural
          rw [if_neg hstructural] at hother
          apply Attempt.andThen_invariant (I := Unspoken u j) _ fun _ _ _ hs => hs
          apply hseen.sendT1 H
          intro heq
          obtain ⟨x, herr⟩ := hother heq
          rcases Attempt.of_andThen_error herr with herr | ⟨_, _, _, herr⟩
          · exact ⟨x, herr⟩
          · cases herr

/-- The turn of another entry, or of one that raises. -/
theorem Unspoken.flushEntry {ready : List Uuid} {s : Host β V δ × Nat} (hs : Unspoken u j s.1)
    {e : Uuid × Tier}
    (hother : e.1 = u → ∃ x, (Raising.flushEntry F H w ready s e).2 = .error x) :
    Unspoken u j (Raising.flushEntry F H w ready s e).1.1 := by
  obtain ⟨h, budget⟩ := s
  obtain ⟨v, t⟩ := e
  have hput : v ≠ u → ∀ t, Unspoken u j { h with dirty := h.dirty.requeue v t } := fun hne t =>
    hs.move [] (List.append_nil _).symm (by simp) ((hs.mark hne t).trans hs.clean.symm)
  unfold Raising.flushEntry at hother ⊢
  dsimp only at hother ⊢
  split
  · rename_i hready
    rw [if_pos hready] at hother
    exact hput (fun heq => nomatch hother heq) t
  · rename_i hready
    rw [if_neg hready] at hother
    cases t with
    | t1 => exact hs.flushT1 H hother
    | t2 =>
      cases budget with
      | zero =>
        have hback := hput (fun heq => nomatch hother heq) .t2
        exact ⟨hback.clean, hback.unsent⟩
      | succ budget => exact hs.flushT2Or H none [] hother

/-- The turn of an entry whose handle does not work changes nothing. -/
private theorem flushEntry_not_works {ready : List Uuid} {s : Host β V δ × Nat} {e : Uuid × Tier}
    (htaken : TakenUp ready s e) (hnot : ¬ s.1.Works w e.1) :
    (Raising.flushEntry F H w ready s e).1.1 = s.1 := by
  obtain ⟨h, budget⟩ := s
  obtain ⟨v, t⟩ := e
  obtain ⟨hready, hbudget⟩ := htaken
  have hdb : h.db w v = none := if_neg fun hmem => hnot fun _ => hmem
  unfold Raising.flushEntry
  dsimp only
  rw [if_neg (not_not.mpr hready)]
  -- tier 1 ends at the missing handle
  cases t with
  | t1 =>
    dsimp only
    unfold Raising.flushT1
    rw [hdb]
  -- so does tier 2, which has the budget to be taken up
  | t2 =>
    cases budget with
    | zero => exact absurd rfl (hbudget rfl)
    | succ budget =>
      dsimp only
      unfold Raising.flushT2Or Raising.flushT2
      rw [hdb]
      dsimp only
      split
      · rfl
      · rfl

/-- A loop over other entries says nothing of the datablock, wherever it stops. -/
theorem Unspoken.forEach {ready : List Uuid} {es : List (Uuid × Tier)}
    (hne : ∀ e ∈ es, e.1 ≠ u) {s : Host β V δ × Nat} (hs : Unspoken u j s.1) :
    Unspoken u j (Attempt.forEach (Raising.flushEntry F H w ready) es s).1.1 := by
  induction es generalizing s with
  | nil => exact hs
  | cons e es ih =>
    rw [Attempt.forEach_cons]
    apply Attempt.andThen_invariant (I := fun s : Host β V δ × Nat => Unspoken u j s.1)
    · exact hs.flushEntry H fun heq => absurd heq (hne e List.mem_cons_self)
    · exact fun s' _ _ hs' => ih (fun e he => hne e (List.mem_cons_of_mem _ he)) hs'

/-! ## Ticks -/

/-- The host when a tick comes to the drain. -/
abbrev atDrain (F : Faults) (H : Digests β V δ) (w : World β V) (h : Host β V δ) : Host β V δ :=
  (Raising.beforeDrain F H w h).1

/-- The loop of a drain over the first entries, as far as it gets. -/
abbrev drainLoop (F : Faults) (H : Digests β V δ) (w : World β V) (h : Host β V δ)
    (entries : List (Uuid × Tier)) : Attempt Uuid (Host β V δ × Nat) Unit :=
  Attempt.forEach (Raising.flushEntry F H w (h.debounce.ready w.now).2) entries
    (Raising.drained w h, t2PerTick)

/-- The turn of the entry behind `before` comes. -/
def HasTurn (F : Faults) (H : Digests β V δ) (w : World β V) (h : Host β V δ)
    (before : List (Uuid × Tier)) : Prop := (drainLoop F H w h before).2 = .ok ()

/-- The datablock raises in the turn of the entry behind `before`: it ends the tick, or it is
    the entry's own, whose freed handle raises what the flush catches. -/
def RaisesIn (F : Faults) (H : Digests β V δ) (w : World β V) (h : Host β V δ)
    (before : List (Uuid × Tier)) (e : Uuid × Tier) (x : Uuid) : Prop :=
  let ready := (h.debounce.ready w.now).2
  let s := (drainLoop F H w h before).1
  HasTurn F H w h before ∧
    ((Raising.flushEntry F H w ready s e).2 = .error x ∨
      x = e.1 ∧ TakenUp ready s e ∧ ¬ s.1.Works w x ∧ s.1.Registered x)

/-- The entry behind `before` gets through its turn: nothing raises in it, and its handle
    works if it is taken up. -/
def GetsThrough (F : Faults) (H : Digests β V δ) (w : World β V) (h : Host β V δ)
    (before : List (Uuid × Tier)) (e : Uuid × Tier) : Prop :=
  let ready := (h.debounce.ready w.now).2
  let s := (drainLoop F H w h before).1
  HasTurn F H w h before ∧ (Raising.flushEntry F H w ready s e).2 = .ok () ∧
    (TakenUp ready s e → s.1.Works w e.1)

/-- If the tick comes to the drain, `P` holds of every entry of it but a datablock that
    raises, whichever datablock that is. -/
def OfOthers (F : Faults) (H : Digests β V δ) (w : World β V) (h : Host β V δ)
    (P : Host β V δ → List (Uuid × Tier) → Uuid → Tier → Prop) : Prop :=
  let hd := atDrain F H w h
  (Raising.beforeDrain F H w h).2 = .ok true →
    ∀ x, (∃ before e after, hd.dirty.drain.2.2 = before ++ e :: after ∧
        RaisesIn F H w hd before e x) →
      ∀ before u t after, hd.dirty.drain.2.2 = before ++ (u, t) :: after → u ≠ x →
        P hd before u t

/-- When the tick ends, wherever that is: if it came to the drain, the tombstones that the
    drain returned have left or wait again; and every entry but a datablock that raises was
    served, unless there was nothing to send. -/
def LosesNone (F : Faults) (H : Digests β V δ) (w : World β V) (h : Host β V δ) : Prop :=
  ((Raising.beforeDrain F H w h).2 = .ok true →
    ∀ u ∈ (atDrain F H w h).dirty.drain.2.1,
      Accounted (· = .act (.tomb u)) (· = some .tombstone) u (atDrain F H w h).journal
        (Raising.flushTick F H w h)) ∧
  OfOthers F H w h fun hd before u t =>
    Served w u hd.journal (Raising.flushTick F H w h) ∨
      Silent w (drainLoop F H w hd before).1.1 u t

/-- Every entry but a datablock that raises gets through its turn, goes along in a blob that
    the others ship, or has nothing to send. -/
def SparesOthers (F : Faults) (H : Digests β V δ) (w : World β V) (h : Host β V δ) : Prop :=
  OfOthers F H w h fun hd before u t =>
    GetsThrough F H w hd before (u, t) ∨ Carried w u hd.journal (Raising.flushTick F H w h) ∨
      Silent w (drainLoop F H w hd before).1.1 u t

/-- If the tick comes to the drain: nothing raises in the turn of an entry but, in the last
    one, its own datablock, and the handles of what is taken up work. -/
def RaisesLast (F : Faults) (H : Digests β V δ) (w : World β V) (h : Host β V δ) : Prop :=
  (Raising.beforeDrain F H w h).2 = .ok true →
    TurnsSafe F H w ((atDrain F H w h).debounce.ready w.now).2
      (Raising.drained w (atDrain F H w h), t2PerTick) (atDrain F H w h).dirty.drain.2.2

instance (F : Faults) (H : Digests β V δ) (w : World β V) (h : Host β V δ) :
    Decidable (RaisesLast F H w h) :=
  inferInstanceAs (Decidable ((Raising.beforeDrain F H w h).2 = .ok true →
    TurnsSafe F H w ((atDrain F H w h).debounce.ready w.now).2
      (Raising.drained w (atDrain F H w h), t2PerTick) (atDrain F H w h).dirty.drain.2.2))

omit [BEq V] [DecidableEq δ] in
/-- The drain goes on from the journal. -/
theorem extends_drained {h : Host β V δ} : Extends h.journal (Raising.drained w h) := by
  unfold Raising.drained
  dsimp only
  apply Keeps.foldl (fun h x hh => (keeps_extends w _).sendTombstone x hh)
  rw [foldl_note]
  exact ⟨_, rfl⟩

omit [BEq V] [DecidableEq δ] in
/-- The tombstones that the drain took out are sent or put back before the loop. -/
theorem accounted_drained {h : Host β V δ} (hu : u ∈ h.dirty.drain.2.1) :
    Accounted (· = .act (.tomb u)) (· = some .tombstone) u h.journal
      (Raising.drained w h) := by
  unfold Raising.drained
  dsimp only
  apply accounted_sendTombstones hu
  rw [foldl_note]
  exact ⟨_, rfl⟩

omit [BEq V] [DecidableEq δ] in
/-- The tombstones of a drain are of other datablocks than its entries. -/
private theorem unspoken_drained {h : Host β V δ} {t : Tier} (hu : (u, t) ∈ h.dirty.drain.2.2) :
    Unspoken u h.journal (Raising.drained w h) := by
  have hmarked : h.dirty.entries.get? u = some (.dirty t) :=
    (Dict.mem_entries_iff ..).mp (DirtySet.mem_dirtyOf.mp hu)
  -- an entry of the drain is not one of its tombstones
  have hnot : u ∉ h.dirty.drain.2.1 := by
    intro htomb
    have hget := (Dict.mem_entries_iff ..).mp (DirtySet.mem_tombstonesOf.mp htomb)
    rw [hmarked] at hget
    cases hget
  -- one tombstone, sent or put back, is of its own datablock
  have hsend : ∀ (x : Uuid), x ≠ u → ∀ {h' : Host β V δ}, Unspoken u h.journal h' →
      Unspoken u h.journal (h'.sendTombstone w x).1 := by
    intro x hne h' hh'
    have hsent := hh'.send (w := w) (a := .tomb x) (by simp [Note.Edits])
    unfold Host.sendTombstone
    split
    · rename_i heq
      rwa [heq] at hsent
    · rename_i heq
      rw [heq] at hsent
      apply hsent.move [.tombBack x (w.dbs.get? x).isSome] rfl (by simp [Note.Edits])
      exact Dict.get?_insert_of_ne _ _ hne
  -- so are all of them, by induction on the list
  have hloop : ∀ (tombs : List Uuid) {h' : Host β V δ}, u ∉ tombs → Unspoken u h.journal h' →
      Unspoken u h.journal (tombs.foldl (fun h x => (h.sendTombstone w x).1) h') := by
    intro tombs
    induction tombs with
    | nil => exact fun _ hh' => hh'
    | cons x tombs ih =>
      intro h' hmem hh'
      rw [List.mem_cons, not_or] at hmem
      exact ih hmem.2 (hsend x (Ne.symm hmem.1) hh')
  unfold Raising.drained
  dsimp only
  apply hloop _ hnot
  rw [foldl_note]
  refine ⟨rfl, _, rfl, ?_⟩
  intro n hn
  obtain ⟨x, -, rfl⟩ := List.mem_map.mp hn
  exact id

/-- An entry that gets through its turn is served wherever the loop stops. -/
theorem GetsThrough.served {h : Host β V δ} {before after : List (Uuid × Tier)} {t : Tier}
    (hthrough : GetsThrough F H w h before (u, t)) :
    Served w u h.journal (drainLoop F H w h (before ++ (u, t) :: after)).1.1 ∨
      Silent w (drainLoop F H w h before).1.1 u t := by
  obtain ⟨hturn, hok, hworks⟩ := hthrough
  have hext := extends_forEach H (w := w) F (h.debounce.ready w.now).2 before
    (s := (Raising.drained w h, t2PerTick)) (extends_drained (w := w) (h := h))
  have hloop : drainLoop F H w h before = ((drainLoop F H w h before).1, .ok ()) :=
    Prod.ext rfl hturn
  unfold drainLoop at *
  rw [Attempt.forEach_append, hloop, Attempt.andThen_ok, Attempt.forEach_cons,
    Raising.flushEntry_of_ok H hok, Attempt.andThen_ok]
  exact (served_flushEntry H _ _ t hext hworks).imp_left fun hserved =>
    accounted_forEach H F stable_isSome _ after hserved

/-- Of an entry that does not get through its turn nothing is said but what others ship. -/
private theorem unspoken_of_not_through {h : Host β V δ} {before after : List (Uuid × Tier)}
    {t : Tier}
    (hsplit : h.dirty.drain.2.2 = before ++ (u, t) :: after)
    (hnot : ¬ GetsThrough F H w h before (u, t)) :
    Unspoken u h.journal (drainLoop F H w h (before ++ (u, t) :: after)).1.1 := by
  have hnodup : ((before ++ (u, t) :: after).map Prod.fst).Nodup := by
    rw [← hsplit]
    exact DirtySet.nodup_dirtyOf h.dirty.entries.nodup
  rw [List.map_append, List.map_cons, List.nodup_append] at hnodup
  obtain ⟨-, hrest, hapart⟩ := hnodup
  have hbefore : ∀ e ∈ before, e.1 ≠ u := fun e he =>
    hapart _ (List.mem_map_of_mem he) _ List.mem_cons_self
  have hafter : ∀ e ∈ after, e.1 ≠ u := by
    intro e he heq
    have hmem : e.1 ∈ after.map Prod.fst := List.mem_map_of_mem he
    rw [heq] at hmem
    exact (List.nodup_cons.mp hrest).1 hmem
  have hstart : Unspoken u h.journal (Raising.drained w h) :=
    unspoken_drained (t := t) (by rw [hsplit]; simp)
  have hcome : Unspoken u h.journal (drainLoop F H w h before).1.1 :=
    Unspoken.forEach H hbefore (s := (Raising.drained w h, t2PerTick)) hstart
  unfold GetsThrough HasTurn at hnot
  unfold drainLoop at *
  rw [Attempt.forEach_append]
  generalize Attempt.forEach _ before _ = r at hnot hcome ⊢
  obtain ⟨s, x | ⟨⟩⟩ := r
  · exact hcome
  · rw [Attempt.andThen_ok, Attempt.forEach_cons]
    apply Attempt.andThen_invariant (I := fun s : Host β V δ × Nat => Unspoken u h.journal s.1)
      _ fun s' _ _ hs' => hs'.forEach H hafter
    cases hturn : (Raising.flushEntry F H w (h.debounce.ready w.now).2 s (u, t)).2 with
    | error x => exact hcome.flushEntry H fun _ => ⟨x, hturn⟩
    | ok a =>
      -- it is taken up, and its handle does not work
      simp only [hturn, true_and, Classical.not_imp] at hnot
      rw [flushEntry_not_works H hnot.1 hnot.2]
      exact hcome

/-- The loop is the end of a tick that comes to the drain. -/
private theorem flushTick_of_drain {h : Host β V δ}
    (hreach : (Raising.beforeDrain F H w h).2 = .ok true) :
    Raising.flushTick F H w h = (drainLoop F H w (atDrain F H w h)
      (atDrain F H w h).dirty.drain.2.2).1.1 := by
  have hpair : Raising.beforeDrain F H w h = (atDrain F H w h, .ok true) := Prod.ext rfl hreach
  unfold Raising.flushTick Raising.flushTickInner
  rw [hpair, Attempt.andThen_ok, if_pos rfl]
  rfl

/-- Up to an entry nothing raises, and the loop is the one without exceptions. -/
theorem TurnsSafe.before {ready : List Uuid} {before after : List (Uuid × Tier)}
    {e : Uuid × Tier} {s : Host β V δ × Nat}
    (hsafe : TurnsSafe F H w ready s (before ++ e :: after)) :
    Attempt.forEach (Raising.flushEntry F H w ready) before s =
        (before.foldl (flushEntry H w ready) s, .ok ()) ∧
      TurnsSafe F H w ready (before.foldl (flushEntry H w ready) s) (e :: after) := by
  induction before generalizing s with
  | nil => exact ⟨rfl, hsafe⟩
  | cons e' before ih =>
    have hquiet : Raising.turnRaises F w ready s e' = [] := by
      rw [List.eq_nil_iff_forall_not_mem]
      intro x hx
      obtain ⟨-, hnil⟩ := hsafe.1 x hx
      simp at hnil
    rw [Attempt.forEach_cons, Raising.flushEntry_eq H ready s e' hquiet, Attempt.andThen_ok]
    exact ih hsafe.2.2

/-- In particular when nothing raises but the last entry. -/
private theorem RaisesLast.spares {h : Host β V δ} (hlast : RaisesLast F H w h) :
    SparesOthers F H w h := by
  rintro hreach x ⟨before', e, after', hsplit', hturn', hraises⟩ before u t after hsplit hne
  have hsafe := hlast hreach
  generalize atDrain F H w h = hd at hsafe hsplit hsplit' hturn' hraises ⊢
  have hturns := hsafe
  rw [hsplit'] at hturns
  obtain ⟨hloop', hown', hworks', -⟩ := hturns.before
  rw [hsplit] at hsafe
  obtain ⟨hloop, hown, hworks, -⟩ := hsafe.before
  -- whoever raises is the last entry
  have hlast' : x = e.1 ∧ after' = [] := by
    unfold drainLoop at hraises
    rw [hloop'] at hraises
    rcases hraises with herr | ⟨rfl, htaken, hnot, -⟩
    · exact hown' x (Raising.flushEntry_error H herr)
    · exact absurd (hworks' htaken) hnot
  left
  refine ⟨congrArg Prod.snd hloop, ?_, ?_⟩
  · unfold drainLoop
    rw [hloop]
    cases hturn : (Raising.flushEntry F H w (hd.debounce.ready w.now).2 _ (u, t)).2 with
    | ok a => rfl
    | error y =>
      exfalso
      obtain ⟨rfl, hnil⟩ := hown y (Raising.flushEntry_error H hturn)
      obtain ⟨rfl, hnil'⟩ := hlast'
      rw [hsplit, hnil, hnil'] at hsplit'
      have heq := (List.append_inj' hsplit' rfl).2
      exact hne (congrArg Prod.fst (List.cons_eq_cons.mp heq).1)
  · unfold drainLoop
    rw [hloop]
    exact hworks

end Flush

end Host

/-! ## A camera that raises -/

namespace Broken

open Camera (Digest digests)

/-- A camera with a lens. -/
def camera (u : Uuid) (lens : String) : Datablock (Entry String) String where
  snapshot := .ofList [(.rna "lens", lens)]
  blend := some [(u, .ofList [(.rna "lens", lens)])]

/-- Two cameras. -/
def file (lens : String) (now : Int) : World (Entry String) String where
  dbs := ⟨[("a", camera "a" lens), ("b", camera "b" lens)], by simp⟩
  stamps := by simp [Dict.keys, mainfileUuid]
  now := now

/-- The bootstrap leaves, and both cameras are edited, in this order. -/
def calls (edited : List Uuid) :
    List (World (Entry String) String × Host.Call (Entry String) Digest) :=
  [(file "50" 0, .bootstrap), (file "50" 0, .tick),
   (file "35" 0, .depsgraph (edited.map fun u => { uuid := u }))]

/-- The host after that. -/
def host (edited : List Uuid) : Host (Entry String) String Digest :=
  (Host.start (file "50" 0) 0 0).run digests (calls edited)

/-- The snapshot of `"a"` raises. -/
def faults : Faults where
  snapshot u := u = "a"

end Broken

open Broken in
-- camera `"b"` has its turn before `"a"` raises
example : Host.SparesOthers faults Camera.digests (file "35" 80) (host ["b", "a"]) ∧
    (Host.Raising.flushTickInner faults Camera.digests (file "35" 80)
      (host ["b", "a"])).2 = .error "a" :=
  ⟨Host.RaisesLast.spares Camera.digests (by decide +kernel), by decide +kernel⟩

end QCBridge
