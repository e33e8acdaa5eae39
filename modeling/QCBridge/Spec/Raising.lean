import QCBridge.Ring0.Raising
import QCBridge.Spec.Trace

/-!
# Ticks that raise, and ticks that do not

A function that returns does what it does in the loop without exceptions, and what it
raises is among the datablocks that it serializes. And what the moves of the loop preserve
holds wherever an exception ends the tick.

## Key results

- `Host.Raising.flushEntry_of_ok`, `Host.Raising.flushEntry_error`: turns that return, and
  turns that raise
- `Host.Raising.flushTick_eq`: without exceptions nothing is different
- `Host.Raising.keeps_flushEntry`: what the moves preserve survives an exception
-/

namespace QCBridge

variable {β V δ : Type}

/-! ## What raises -/

/-- Whether the blob of a datablock raises, its snapshot being `taken` already or not. -/
def Datablock.blobRaises (db : Datablock β V) (F : Faults) (u : Uuid) (taken : Bool) : Bool :=
  db.blend.isSome && (F.serialize u || (!taken && F.snapshot u))

/-- The datablocks that raise while the blob of `u` is made: itself, or its owner if it is
    a shape key. -/
def World.blobRaises (w : World β V) (F : Faults) (u : Uuid) (taken : Bool) : List Uuid :=
  match w.dbs.get? u with
  | none => []
  | some db =>
    if db.kind = .key then
      (if !taken && F.snapshot u then [u] else []) ++
        db.user.toList.filter fun o =>
          (w.dbs.get? o).any fun ownerDb => ownerDb.blobRaises F o false
    else if db.blobRaises F u taken then [u] else []

/-- The datablocks that raise while the targets of a tier-1 message are shipped. -/
def World.targetRaises (w : World β V) (F : Faults) (shipped : List Uuid)
    (changes : List (Path × V)) : List Uuid :=
  ((changes.filterMap fun c => w.target c.1 c.2).filter (· ∉ shipped)).flatMap
    fun t => w.blobRaises F t false

/-- What raises among the targets is a target, of a setter of the message, not shipped before. -/
private theorem World.mem_targetRaises {w : World β V} {F : Faults} {shipped : List Uuid}
    {changes : List (Path × V)} {x : Uuid} :
    x ∈ w.targetRaises F shipped changes ↔ ∃ c ∈ changes, ∃ t, w.target c.1 c.2 = some t ∧
      t ∉ shipped ∧ x ∈ w.blobRaises F t false := by
  unfold targetRaises
  rw [List.mem_flatMap]
  constructor
  · rintro ⟨t, ht, hx⟩
    obtain ⟨ht, hnot⟩ := List.mem_filter.mp ht
    obtain ⟨c, hc, htarget⟩ := List.mem_filterMap.mp ht
    exact ⟨c, hc, t, htarget, by simpa using hnot, hx⟩
  · rintro ⟨c, hc, t, htarget, hnot, hx⟩
    refine ⟨t, List.mem_filter.mpr ⟨?_, by simpa using hnot⟩, hx⟩
    exact List.mem_filterMap.mpr ⟨c, hc, htarget⟩

/-! ### Without faults -/

/-- A datablock that does not raise does so in neither way. -/
private theorem Faults.not_raises {F : Faults} {u : Uuid} (h : F.raises u = false) :
    F.snapshot u = false ∧ F.serialize u = false := by
  unfold raises at h
  exact Bool.or_eq_false_iff.mp (Bool.or_eq_false_iff.mp h).1

/-- A snapshot that raises is one way. -/
private theorem Faults.raises_of_snapshot {F : Faults} {u : Uuid} (h : F.snapshot u = true) :
    F.raises u = true := by
  unfold raises
  rw [h, Bool.true_or, Bool.true_or]

/-- A blob that raises is another. -/
private theorem Faults.raises_of_serialize {F : Faults} {u : Uuid} (h : F.serialize u = true) :
    F.raises u = true := by
  unfold raises
  rw [h, Bool.or_true, Bool.true_or]

/-- A freed handle is the third. -/
private theorem Faults.raises_of_freed {F : Faults} {u : Uuid} (h : F.freed u = true) :
    F.raises u = true := by
  unfold raises
  rw [h, Bool.or_true]

/-- Where nothing raises no sweep does. -/
theorem Faults.sampling_quiet {F : Faults} (hF : ∀ u, F.raises u = false)
    (hsample : ∀ u, F.sample u = false) (e : Uuid × Datablock β V) : F.sampling e = false := by
  unfold sampling
  rw [hsample, (not_raises (hF e.1)).1, Bool.and_false, Bool.or_false]

/-- What raises for a blob raises. -/
private theorem Datablock.raises_of_blobRaises {db : Datablock β V} {F : Faults} {u : Uuid}
    {taken : Bool}
    (h : db.blobRaises F u taken = true) : F.raises u = true := by
  unfold blobRaises at h
  rcases Bool.or_eq_true_iff.mp (Bool.and_eq_true_iff.mp h).2 with hserialize | hsnapshot
  · exact F.raises_of_serialize hserialize
  · exact F.raises_of_snapshot (Bool.and_eq_true_iff.mp hsnapshot).2

/-- Also the owner of a shape key. -/
private theorem World.raises_of_mem_blobRaises {w : World β V} {F : Faults} {u x : Uuid}
    {taken : Bool}
    (h : x ∈ w.blobRaises F u taken) : F.raises x = true := by
  unfold blobRaises at h
  split at h
  · cases h
  · split at h
    · -- a shape key: its snapshot, or the blob of its owner
      rcases List.mem_append.mp h with h | h
      · split at h
        · rename_i hsnapshot
          obtain rfl := List.mem_singleton.mp h
          exact F.raises_of_snapshot (Bool.and_eq_true_iff.mp hsnapshot).2
        · cases h
      · obtain ⟨-, hany⟩ := List.mem_filter.mp h
        obtain ⟨db, -, hdb⟩ := (Option.any_eq_true ..).mp hany
        exact Datablock.raises_of_blobRaises hdb
    · -- any other: its own blob
      split at h
      · rename_i hblob
        obtain rfl := List.mem_singleton.mp h
        exact Datablock.raises_of_blobRaises hblob
      · cases h

/-- And a target. -/
theorem World.raises_of_mem_targetRaises {w : World β V} {F : Faults} {shipped : List Uuid}
    {changes : List (Path × V)} {x : Uuid} (h : x ∈ w.targetRaises F shipped changes) :
    F.raises x = true := by
  obtain ⟨_, _, _, _, _, hx⟩ := mem_targetRaises.mp h
  exact raises_of_mem_blobRaises hx

namespace Host

/-- The order of the changes is all that is changed. -/
private theorem mem_settersFirst {changes : List (Path × V)} {c : Path × V} :
    c ∈ settersFirst changes ↔ c ∈ changes := by
  unfold settersFirst
  rw [List.mem_append, List.mem_filter, List.mem_filter]
  cases c.1.isSetter <;> simp

/-- A handle that works is of a datablock in the file. -/
theorem get?_of_db {h : Host β V δ} {w : World β V} {u : Uuid} {db : Datablock β V}
    (hdb : h.db w u = some db) : w.dbs.get? u = some db := by
  unfold Host.db at hdb
  split at hdb
  · exact hdb
  · cases hdb

/-! ## What is shipped stays so -/

section Shipped

variable (w : World β V)

/-- Sending a message ships no datablock. -/
private theorem shipped_send (h : Host β V δ) (a : LedgerAct β V δ) :
    (h.send w a).1.shipped = h.shipped := by
  unfold Host.send
  dsimp only
  split <;> rfl

/-- Nor do the chunks of a blob. -/
private theorem shipped_sendChunks (a : LedgerAct β V δ) (chunks : List (Msg β V δ))
    (h : Host β V δ) : (sendChunks w a chunks h).1.shipped = h.shipped := by
  induction chunks generalizing h with
  | nil => rfl
  | cons m chunks ih =>
    have hsend := shipped_send w h a
    unfold Host.sendChunks
    split
    · rename_i h' heq
      rw [heq] at hsend
      exact (ih h').trans hsend
    · rename_i h' heq
      rwa [heq] at hsend

/-- What was shipped stays so while the outbox is drained. -/
private theorem shipped_drainBlobs (only : Option Uuid) (uuids : List Uuid) (h : Host β V δ)
    {t : Uuid}
    (ht : t ∈ h.shipped) : t ∈ (drainBlobs w only uuids h).1.shipped := by
  induction uuids generalizing h with
  | nil => exact ht
  | cons u uuids ih =>
    unfold Host.drainBlobs
    split
    · exact ih h ht
    · -- a blob that is drained becomes shipped, one that is refused stays as it was
      have hsent := shipped_sendChunks w (.sendT2 u)
        (((h.ledger.t2Outbox.get? u).map Outgoing.chunks).getD []) h
      dsimp only
      split
      · rename_i h' heq
        rw [heq] at hsent
        apply ih
        apply List.mem_insert_of_mem
        rwa [hsent]
      · rename_i h' heq
        rw [heq] at hsent
        rwa [hsent]

variable [BEq V] [DecidableEq δ] (H : Digests β V δ)

/-- And while another blob is cut. -/
private theorem shipped_shipBlob (h : Host β V δ) (u : Uuid) (db : Datablock β V)
    (snapshot : Option (Dict Path V)) {t : Uuid} (ht : t ∈ h.shipped) :
    t ∈ (h.shipBlob H w u db snapshot).1.shipped := by
  unfold Host.shipBlob
  split
  · exact ht
  · dsimp only
    split
    · exact ht
    · exact shipped_drainBlobs w _ _ _ ht

/-- And while another datablock is flushed. -/
private theorem shipped_flushT2 (h : Host β V δ) (u : Uuid) (snapshot : Option (Dict Path V))
    {t : Uuid}
    (ht : t ∈ h.shipped) : t ∈ (h.flushT2 H w u snapshot).1.shipped := by
  unfold Host.flushT2
  split
  · exact ht
  · -- only the shipping changes what is shipped
    split
    · dsimp only
      split
      · exact ht
      · split
        · exact ht
        · split
          · exact ht
          · exact shipped_shipBlob w H _ _ _ _ ht
    · exact shipped_shipBlob w H _ _ _ _ ht

end Shipped

namespace Raising

section Safe

variable [BEq V] [DecidableEq δ] {F : Faults} (H : Digests β V δ) {w : World β V}

/-! ## What does not raise -/

/-- A blob that was shipped without an exception is that of the sync loop. -/
private theorem shipBlob_of_ok {h : Host β V δ} {u : Uuid} {db : Datablock β V}
    {snapshot : Option (Dict Path V)} {a : Bool}
    (hok : (shipBlob F H w h u db snapshot).2 = .ok a) :
    shipBlob F H w h u db snapshot = .returned (h.shipBlob H w u db snapshot) := by
  unfold shipBlob at hok ⊢
  split at hok
  · cases hok
  · rename_i hsafe
    rw [if_neg hsafe]
    rfl

/-- The same of a tier-2 flush. -/
private theorem flushT2_of_ok {h : Host β V δ} {u : Uuid} {snapshot : Option (Dict Path V)}
    {a : Bool}
    (hok : (flushT2 F H w h u snapshot).2 = .ok a) :
    flushT2 F H w h u snapshot = .returned (h.flushT2 H w u snapshot) := by
  unfold flushT2 at hok ⊢
  unfold Host.flushT2
  cases hdb : h.db w u with
  -- no datablock: a dead handle raises before the tier is looked at
  | none =>
    rw [hdb] at hok
    dsimp only at hok ⊢
    split at hok
    · cases hok
    · rename_i hhandle
      rw [if_neg hhandle]
      rfl
  | some db =>
    rw [hdb] at hok
    dsimp only at hok ⊢
    -- shape keys: their snapshot is taken first, and the owner's blob carries them
    by_cases hkey : db.kind = .key
    · rw [if_pos hkey] at hok
      rw [if_pos hkey, if_pos hkey]
      by_cases hsnapshot : (snapshot.isNone && F.snapshot u) = true
      · rw [if_pos hsnapshot] at hok
        cases hok
      · rw [if_neg hsnapshot] at hok ⊢
        cases howner : db.user with
        | none => rfl
        | some owner =>
          rw [howner] at hok
          dsimp only at hok ⊢
          by_cases hown : owner = u
          · rw [if_pos hown, if_pos hown]
            rfl
          · rw [if_neg hown] at hok
            -- another owner ships its own blob, if it is in the file
            rw [if_neg hown, if_neg hown]
            cases hdbOwner : ((h.observe u (snapshot.getD db.snapshot)).adopt owner).db w owner with
            | none => rfl
            | some ownerDb =>
              rw [hdbOwner] at hok
              obtain ⟨h', b, heq, -⟩ := Attempt.of_andThen_ok hok
              dsimp only
              rw [shipBlob_of_ok H (congrArg Prod.snd heq)]
              rfl
    · -- anything else ships its own blob
      rw [if_neg hkey] at hok
      rw [if_neg hkey, if_neg hkey]
      exact shipBlob_of_ok H hok

/-- The same of the targets of a message. -/
private theorem settleTargets_of_ok {changes : List (Path × V)} {h : Host β V δ}
    {targets : List Uuid}
    {a : Option (List Uuid)} (hok : (settleTargets F H w changes h targets).2 = .ok a) :
    settleTargets F H w changes h targets =
      .returned (Host.settleTargets H w changes h targets) := by
  -- the induction is on the changes of the message
  induction changes generalizing h targets with
  | nil => rfl
  | cons c changes ih =>
    obtain ⟨path, value⟩ := c
    unfold settleTargets at hok ⊢
    unfold Host.settleTargets
    cases htarget : w.target path value with
    | none =>
      rw [htarget] at hok
      exact ih hok
    | some t =>
      rw [htarget] at hok
      dsimp only at hok ⊢
      -- a target that has been shipped is only asked whether it is held
      by_cases hmem : t ∈ (h.adopt t).shipped
      · rw [if_pos hmem, Attempt.andThen_ok] at hok
        rw [if_pos hmem, if_pos hmem, Attempt.andThen_ok]
        split at hok
        · rename_i hheld
          rw [if_pos hheld, if_pos hheld]
          rfl
        · rename_i hheld
          rw [if_neg hheld, if_neg hheld]
          exact ih hok
      · -- any other is shipped first
        rw [if_neg hmem] at hok
        obtain ⟨h', b, heq, hrest⟩ := Attempt.of_andThen_ok hok
        have hflush := flushT2_of_ok H (congrArg Prod.snd heq)
        have hh' : ((h.adopt t).flushT2 H w t none).1 = h' :=
          congrArg Prod.fst (hflush.symm.trans heq)
        rw [if_neg hmem, if_neg hmem, hh', heq, Attempt.andThen_ok]
        split at hrest
        · rename_i hheld
          rw [if_pos hheld, if_pos hheld]
          rfl
        · rename_i hheld
          rw [if_neg hheld, if_neg hheld]
          exact ih hrest

/-- The same of a tier-1 message. -/
private theorem sendT1_of_ok {h : Host β V δ} {u : Uuid} {changes : List (Path × V)}
    {old : Option (Dict Path V)} {full : Bool} {a : Bool}
    (hok : (sendT1 F H w h u changes old full).2 = .ok a) :
    sendT1 F H w h u changes old full = .returned (h.sendT1 H w u changes old full) := by
  unfold sendT1 at hok ⊢
  unfold Host.sendT1
  -- no change, no message
  by_cases hnil : changes = []
  · rw [if_pos hnil, if_pos hnil]
    rfl
  · rw [if_neg hnil] at hok
    rw [if_neg hnil, if_neg hnil]
    -- the targets raise nothing, so they are settled alike
    dsimp only at hok ⊢
    obtain ⟨h', targets, heq, -⟩ := Attempt.of_andThen_ok hok
    rw [settleTargets_of_ok H (congrArg Prod.snd heq), Attempt.andThen_returned]
    obtain ⟨h', _ | targets⟩ := Host.settleTargets H w (settersFirst changes) h []
    · rfl
    · dsimp only
      obtain ⟨h'', _ | _⟩ :=
        h'.send w (.t1 u (settersFirst changes) targets full (h'.sd w u))
      · rfl
      · rfl

/-- The same of a tier-2 flush with its fallback. -/
private theorem flushT2Or_of_ok {h : Host β V δ} {u : Uuid} {snapshot : Option (Dict Path V)}
    {fallback : List (Path × V)} (hok : (flushT2Or F H w h u snapshot fallback).2 = .ok ()) :
    flushT2Or F H w h u snapshot fallback = (h.flushT2Or H w u snapshot fallback, .ok ()) := by
  unfold flushT2Or at hok ⊢
  unfold Host.flushT2Or
  obtain ⟨h', unsupported, heq, hrest⟩ := Attempt.of_andThen_ok hok
  have hflush := flushT2_of_ok H (congrArg Prod.snd heq)
  rw [hflush] at heq ⊢
  rw [Attempt.andThen_returned]
  generalize h.flushT2 H w u snapshot = r at heq ⊢
  -- a type without tier 2 falls back, any other is done
  obtain ⟨h₁, _ | _⟩ := r
  · rfl
  · cases heq
    rw [if_pos rfl] at hrest
    obtain ⟨h₂, b, hsent, -⟩ := Attempt.of_andThen_ok hrest
    dsimp only
    rw [if_pos rfl, hsent]
    rfl

/-- The same of a tier-1 flush. -/
private theorem flushT1_of_ok {h : Host β V δ} {u : Uuid} (hok : (flushT1 F H w h u).2 = .ok ()) :
    flushT1 F H w h u = (h.flushT1 H w u, .ok ()) := by
  unfold flushT1 at hok ⊢
  unfold Host.flushT1
  cases hdb : h.db w u with
  | none => rfl
  | some db =>
    rw [hdb] at hok
    dsimp only at hok ⊢
    -- the snapshot is taken before anything else
    by_cases hsnapshot : F.snapshot u = true
    · rw [if_pos hsnapshot] at hok
      cases hok
    · rw [if_neg hsnapshot] at hok ⊢
      generalize (if db.kind = .scene then
        { h with sceneDigest := some (H.scene db.snapshot) } else h) = h₁ at hok ⊢
      -- with no shadow there is no diff, so the blob is for what was saved before
      cases hdiff : (h₁.shadow.diffAndUpdate u db.snapshot).2 with
      | none =>
        rw [hdiff] at hok
        dsimp only at hok ⊢
        split at hok
        · rename_i hsaved
          rw [if_pos hsaved, if_pos hsaved]
          exact flushT2Or_of_ok H hok
        · rename_i hsaved
          rw [if_neg hsaved, if_neg hsaved]
      -- a structural diff asks for a blob, any other for a message
      | some diff =>
        rw [hdiff] at hok
        dsimp only at hok ⊢
        split at hok
        · rename_i hstructural
          rw [if_pos hstructural, if_pos hstructural]
          exact flushT2Or_of_ok H hok
        · rename_i hstructural
          rw [if_neg hstructural, if_neg hstructural]
          obtain ⟨h', b, heq, -⟩ := Attempt.of_andThen_ok hok
          rw [sendT1_of_ok H (congrArg Prod.snd heq), Attempt.andThen_returned]

/-- A turn in which nothing raises is a turn of the loop without exceptions. -/
theorem flushEntry_of_ok {ready : List Uuid} {s : Host β V δ × Nat} {e : Uuid × Tier}
    (hok : (flushEntry F H w ready s e).2 = .ok ()) :
    flushEntry F H w ready s e = (Host.flushEntry H w ready s e, .ok ()) := by
  obtain ⟨h, budget⟩ := s
  obtain ⟨u, t⟩ := e
  unfold flushEntry at hok ⊢
  unfold Host.flushEntry
  dsimp only at hok ⊢
  -- put off
  by_cases hready : u ∉ ready
  · rw [if_pos hready, if_pos hready]
  · rw [if_neg hready] at hok
    rw [if_neg hready, if_neg hready]
    -- taken up by its tier
    cases t with
    | t1 =>
      dsimp only at hok ⊢
      rw [flushT1_of_ok H hok]
    | t2 =>
      cases budget with
      | zero => rfl
      | succ budget =>
        dsimp only at hok ⊢
        rw [flushT2Or_of_ok H hok]

/-- The same of a full tier-1 message. -/
private theorem sendT1Full_of_ok {h : Host β V δ} {u : Uuid} {a : Bool}
    (hok : (sendT1Full F H w h u).2 = .ok a) :
    sendT1Full F H w h u = .returned (h.sendT1Full H w u) := by
  unfold sendT1Full at hok ⊢
  unfold Host.sendT1Full
  cases hdb : h.db w u with
  | none => rfl
  | some db =>
    rw [hdb] at hok
    dsimp only at hok ⊢
    -- the shadow, which is known
    cases hshadow : h.shadow.get? u with
    | some shadow =>
      rw [hshadow] at hok
      exact sendT1_of_ok H hok
    -- its own values, whose snapshot does not raise
    | none =>
      rw [hshadow] at hok
      dsimp only at hok ⊢
      split at hok
      · cases hok
      · rename_i hsnapshot
        rw [if_neg hsnapshot]
        exact sendT1_of_ok H hok

/-- Only a type without tier 2 falls back to tier 1. -/
private theorem flushT2_unsupported {h : Host β V δ} {u : Uuid} {snapshot : Option (Dict Path V)}
    (hflush : (h.flushT2 H w u snapshot).2 = true) :
    ∃ db, h.db w u = some db ∧ db.kind ≠ .key ∧ db.blend = none := by
  unfold Host.flushT2 at hflush
  split at hflush
  · cases hflush
  · rename_i db hdb
    refine ⟨db, hdb, ?_⟩
    -- shape keys answer false whatever their owner does
    split at hflush
    · dsimp only at hflush
      split at hflush
      · cases hflush
      · split at hflush
        · cases hflush
        · split at hflush
          · cases hflush
          · cases hflush
    · -- of the rest only a type with nothing to save falls back
      rename_i hkey
      refine ⟨hkey, ?_⟩
      unfold Host.shipBlob at hflush
      split at hflush
      · assumption
      · dsimp only at hflush
        split at hflush
        · cases hflush
        · cases hflush

/-- The datablocks that raise while a datablock is flushed to tier 2. -/
def flushT2Raises (F : Faults) (w : World β V) (h : Host β V δ) (u : Uuid)
    (db : Datablock β V) (taken : Bool) (fallback : List (Path × V)) : List Uuid :=
  if db.kind = .key ∨ db.blend.isSome then w.blobRaises F u taken
  else w.targetRaises F h.shipped fallback

/-- The datablocks that raise in the flush of a datablock. -/
def flushRaises (F : Faults) (w : World β V) (h : Host β V δ) (u : Uuid) (t : Tier) :
    List Uuid :=
  match h.db w u, t with
  | none, .t1 => []
  | none, .t2 => if h.Registered u && F.freed u then [u] else []
  | some db, .t2 => flushT2Raises F w h u db false []
  | some db, .t1 =>
    if F.snapshot u then [u]
    else
      match h.shadow.get? u with
      | none => if db.saved then flushT2Raises F w h u db true [] else []
      | some shadow =>
        let diff := diffOf shadow db.snapshot
        if diff.structural then flushT2Raises F w h u db true diff.changes
        else w.targetRaises F h.shipped diff.changes

/-- The datablocks that raise in the turn of an entry of the flush loop. -/
def turnRaises (F : Faults) (w : World β V) (ready : List Uuid) (s : Host β V δ × Nat)
    (e : Uuid × Tier) : List Uuid :=
  if e.1 ∉ ready ∨ (e.2 = .t2 ∧ s.2 = 0) then [] else flushRaises F w s.1 e.1 e.2

/-- The datablocks that raise in the re-assert of a datablock. -/
def fullRaises (F : Faults) (w : World β V) (h : Host β V δ) (u : Uuid) : List Uuid :=
  match h.db w u with
  | none => []
  | some db =>
    match h.shadow.get? u with
    | some shadow => w.targetRaises F h.shipped (sendable shadow)
    | none =>
      if F.snapshot u then [u] else w.targetRaises F h.shipped (sendable db.snapshot)

/-- The datablocks that raise in the resend of a datablock. -/
def resendRaises (F : Faults) (w : World β V) (h : Host β V δ) (u : Uuid) : List Uuid :=
  if (h.db w u).any fun db => db.blend.isSome && F.serialize u then [u] else []

/-! ### Who raises -/

/-- Only the datablock itself raises while its blob is shipped. -/
private theorem shipBlob_error {h : Host β V δ} {u x : Uuid} {db : Datablock β V}
    {snapshot : Option (Dict Path V)}
    (herr : (shipBlob F H w h u db snapshot).2 = .error x) :
    x = u ∧ db.blobRaises F u snapshot.isSome = true := by
  unfold shipBlob at herr
  split at herr
  · rename_i hraises
    refine ⟨(Except.error.inj herr).symm, ?_⟩
    unfold Datablock.blobRaises
    rwa [Option.not_isSome]
  · cases herr

/-- In a tier-2 flush it is the datablock, its owner, or a handle that was freed. -/
private theorem flushT2_error {h : Host β V δ} {u x : Uuid} {snapshot : Option (Dict Path V)}
    (herr : (flushT2 F H w h u snapshot).2 = .error x) :
    x ∈ w.blobRaises F u snapshot.isSome ∨
      x = u ∧ h.db w u = none ∧ h.Registered u ∧ F.freed u = true := by
  unfold flushT2 at herr
  cases hdb : h.db w u with
  | none =>
    rw [hdb] at herr
    dsimp only at herr
    split at herr
    · rename_i hfreed
      obtain ⟨hregistered, hfreed⟩ := Bool.and_eq_true_iff.mp hfreed
      exact .inr ⟨(Except.error.inj herr).symm, rfl, of_decide_eq_true hregistered, hfreed⟩
    · cases herr
  | some db =>
    left
    rw [hdb] at herr
    unfold World.blobRaises
    rw [get?_of_db hdb, Option.not_isSome]
    dsimp only at herr ⊢
    split at herr
    · rename_i hkey
      rw [if_pos hkey, List.mem_append]
      split at herr
      · rename_i hsnapshot
        rw [if_pos hsnapshot]
        exact .inl (List.mem_singleton.mpr (Except.error.inj herr).symm)
      · -- its owner's blob carries a shape key
        right
        split at herr
        · cases herr
        · rename_i owner howner
          split at herr
          · cases herr
          · split at herr
            · cases herr
            · rename_i ownerDb hdbOwner
              rcases Attempt.of_andThen_error herr with herr | ⟨_, _, _, herr⟩
              · obtain ⟨rfl, hraises⟩ := shipBlob_error H herr
                rw [howner, List.mem_filter]
                refine ⟨List.mem_singleton_self _, ?_⟩
                rw [get?_of_db hdbOwner]
                exact hraises
              · cases herr
    · rename_i hkey
      obtain ⟨rfl, hraises⟩ := shipBlob_error H herr
      rw [← Option.not_isSome, if_neg hkey, if_pos hraises]
      exact List.mem_singleton_self _

/-- While targets are shipped it is one of them. -/
private theorem settleTargets_error {shipped : List Uuid} {changes : List (Path × V)}
    {h : Host β V δ}
    {targets : List Uuid} {x : Uuid} (hshipped : ∀ t ∈ shipped, t ∈ h.shipped)
    (herr : (settleTargets F H w changes h targets).2 = .error x) :
    x ∈ w.targetRaises F shipped changes := by
  induction changes generalizing h targets with
  | nil => cases herr
  | cons c changes ih =>
    obtain ⟨path, value⟩ := c
    have hlater : x ∈ w.targetRaises F shipped changes →
        x ∈ w.targetRaises F shipped ((path, value) :: changes) := by
      rw [World.mem_targetRaises, World.mem_targetRaises]
      rintro ⟨c, hc, hx⟩
      exact ⟨c, List.mem_cons_of_mem _ hc, hx⟩
    unfold settleTargets at herr
    cases htarget : w.target path value with
    | none =>
      rw [htarget] at herr
      exact hlater (ih hshipped herr)
    | some t =>
      rw [htarget] at herr
      dsimp only at herr
      by_cases hmem : t ∈ (h.adopt t).shipped
      · rw [if_pos hmem, Attempt.andThen_ok] at herr
        split at herr
        · cases herr
        · exact hlater (ih (h := h.adopt t) hshipped herr)
      · rw [if_neg hmem] at herr
        rcases Attempt.of_andThen_error herr with herr | ⟨h', b, heq, herr⟩
        · rcases flushT2_error H herr with hx | ⟨-, hnone, -⟩
          · exact World.mem_targetRaises.mpr
              ⟨_, List.mem_cons_self, t, htarget, fun ht => hmem (hshipped t ht), hx⟩
          · -- the handle of a target is the one just found
            have hget : (h.adopt t).db w t = w.dbs.get? t := if_pos (List.mem_insert_self ..)
            rw [hget, Dict.get?_eq_none_iff] at hnone
            exact absurd (w.stamps_target _ _ _ htarget) hnone
        · split at herr
          · cases herr
          · refine hlater (ih (fun u hu => ?_) herr)
            have hflush := (flushT2_of_ok H (congrArg Prod.snd heq)).symm.trans heq
            have hh' : ((h.adopt t).flushT2 H w t none).1 = h' := congrArg Prod.fst hflush
            rw [← hh']
            exact shipped_flushT2 w H _ _ _ (hshipped u hu)

/-- In a tier-1 message it is one of its targets. -/
private theorem sendT1_error {h : Host β V δ} {u x : Uuid} {changes : List (Path × V)}
    {old : Option (Dict Path V)} {full : Bool}
    (herr : (sendT1 F H w h u changes old full).2 = .error x) :
    x ∈ w.targetRaises F h.shipped changes := by
  unfold sendT1 at herr
  split at herr
  · cases herr
  · dsimp only at herr
    -- a target raised, since sending does not
    rcases Attempt.of_andThen_error herr with herr | ⟨h', targets, -, herr⟩
    · obtain ⟨c, hc, hx⟩ := World.mem_targetRaises.mp
        (settleTargets_error H (fun _ ht => ht) herr)
      exact World.mem_targetRaises.mpr ⟨c, mem_settersFirst.mp hc, hx⟩
    · -- neither does giving back
      split at herr
      · cases herr
      · split at herr
        · cases herr
        · cases herr

/-- In a tier-2 flush with its fallback it is one of those two. -/
private theorem flushT2Or_error {h : Host β V δ} {u x : Uuid} {snapshot : Option (Dict Path V)}
    {fallback : List (Path × V)} {db : Datablock β V} (hdb : h.db w u = some db)
    (herr : (flushT2Or F H w h u snapshot fallback).2 = .error x) :
    x ∈ flushT2Raises F w h u db snapshot.isSome fallback := by
  unfold flushT2Or at herr
  unfold flushT2Raises
  -- the blob raises, or the fallback after it does
  rcases Attempt.of_andThen_error herr with herr | ⟨h', unsupported, heq, herr⟩
  · rcases flushT2_error H herr with hx | ⟨-, hnone, -⟩
    · -- the blob of the datablock itself: what raises in it is on the list
      split
      · exact hx
      · rename_i hnot
        rw [not_or, Bool.not_eq_true, Option.isSome_eq_false_iff, Option.isNone_iff_eq_none] at hnot
        unfold World.blobRaises Datablock.blobRaises at hx
        rw [get?_of_db hdb] at hx
        dsimp only at hx
        rw [if_neg hnot.1, hnot.2] at hx
        cases hx
    · rw [hdb] at hnone
      cases hnone
  · cases unsupported with
    | false => cases herr
    | true =>
      -- the fallback: the datablock has no blob, so the message is what raised
      rw [if_pos rfl] at herr
      rcases Attempt.of_andThen_error herr with herr | ⟨_, _, _, herr⟩
      · have hflush := (flushT2_of_ok H (congrArg Prod.snd heq)).symm.trans heq
        obtain ⟨db', hdb', hkey, hblend⟩ :=
          flushT2_unsupported H (Except.ok.inj (congrArg Prod.snd hflush))
        rw [hdb] at hdb'
        cases hdb'
        rw [if_neg (by simp [hkey, hblend])]
        exact sendT1_error H herr
      · cases herr

/-- In a tier-1 flush it is the datablock or a target. -/
private theorem flushT1_error {h : Host β V δ} {u x : Uuid}
    (herr : (flushT1 F H w h u).2 = .error x) :
    x ∈ flushRaises F w h u .t1 := by
  unfold flushT1 at herr
  unfold flushRaises
  cases hdb : h.db w u with
  | none =>
    rw [hdb] at herr
    cases herr
  | some db =>
    rw [hdb] at herr
    dsimp only at herr ⊢
    -- the snapshot raises, and the list is the datablock alone
    by_cases hsnapshot : F.snapshot u = true
    · rw [if_pos hsnapshot] at herr ⊢
      exact List.mem_singleton.mpr (Except.error.inj herr).symm
    · rw [if_neg hsnapshot] at herr ⊢
      -- what is seen of the datablock leaves what is shipped and the handle alone
      generalize hseen : (if db.kind = .scene then
        { h with sceneDigest := some (H.scene db.snapshot) } else h) = h₁ at herr
      have hshipped : (h₁.observe u db.snapshot).shipped = h.shipped := by
        rw [← hseen]
        split <;> rfl
      have hdb₁ : (h₁.observe u db.snapshot).db w u = some db := by
        rw [← hdb, ← hseen]
        split <;> rfl
      have hdiff : (h₁.shadow.diffAndUpdate u db.snapshot).2 =
          (h.shadow.get? u).map (diffOf · db.snapshot) := by
        rw [← hseen]
        split <;> rfl
      have hflush : ∀ {fallback : List (Path × V)},
          (flushT2Or F H w (h₁.observe u db.snapshot) u (some db.snapshot) fallback).2 = .error x →
            x ∈ flushT2Raises F w h u db true fallback := by
        intro fallback herr
        have hx := flushT2Or_error H hdb₁ herr
        unfold flushT2Raises at hx ⊢
        rwa [hshipped] at hx
      rw [hdiff] at herr
      -- the list is the one of the branch that the shadow takes
      cases hshadow : h.shadow.get? u with
      | none =>
        rw [hshadow] at herr
        dsimp only [Option.map_none] at herr ⊢
        split at herr
        · rename_i hsaved
          rw [if_pos hsaved]
          exact hflush herr
        · cases herr
      | some shadow =>
        rw [hshadow] at herr
        dsimp only [Option.map_some] at herr ⊢
        split at herr
        · rename_i hstructural
          rw [if_pos hstructural]
          exact hflush herr
        · rename_i hstructural
          rw [if_neg hstructural]
          rcases Attempt.of_andThen_error herr with herr | ⟨_, _, _, herr⟩
          · rw [← hshipped]
            exact sendT1_error H herr
          · cases herr

/-- What raises in a turn. -/
theorem flushEntry_error {ready : List Uuid} {s : Host β V δ × Nat} {e : Uuid × Tier} {x : Uuid}
    (herr : (flushEntry F H w ready s e).2 = .error x) : x ∈ turnRaises F w ready s e := by
  obtain ⟨h, budget⟩ := s
  obtain ⟨u, t⟩ := e
  unfold flushEntry at herr
  unfold turnRaises
  dsimp only at herr ⊢
  by_cases hready : u ∉ ready
  · rw [if_pos hready] at herr
    cases herr
  · rw [if_neg hready] at herr
    cases t with
    | t1 =>
      rw [if_neg (by simp [hready])]
      exact flushT1_error H herr
    | t2 =>
      cases budget with
      | zero => cases herr
      | succ budget =>
        rw [if_neg (by simp [hready])]
        unfold flushRaises
        cases hdb : h.db w u with
        | none =>
          -- a freed handle
          unfold flushT2Or at herr
          rcases Attempt.of_andThen_error herr with herr | ⟨h', b, heq, herr⟩
          · rcases flushT2_error H herr with hx | ⟨rfl, -, hregistered, hfreed⟩
            · unfold flushT2 at herr
              rw [hdb] at herr
              dsimp only at herr ⊢
              split at herr
              · rename_i hfreed
                rw [if_pos hfreed]
                exact List.mem_singleton.mpr (Except.error.inj herr).symm
              · cases herr
            · dsimp only
              rw [if_pos (by simp [hregistered, hfreed])]
              exact List.mem_singleton_self _
          · unfold flushT2 at heq
            rw [hdb] at heq
            dsimp only at heq
            split at heq
            · cases heq
            · cases heq
              cases herr
        | some db => exact flushT2Or_error H hdb herr

/-- In a full tier-1 message too. -/
private theorem sendT1Full_error {h : Host β V δ} {u x : Uuid}
    (herr : (sendT1Full F H w h u).2 = .error x) : x ∈ fullRaises F w h u := by
  unfold sendT1Full at herr
  unfold fullRaises
  cases hdb : h.db w u with
  | none =>
    rw [hdb] at herr
    cases herr
  | some db =>
    rw [hdb] at herr
    dsimp only at herr ⊢
    -- with a shadow only the targets can raise
    cases hshadow : h.shadow.get? u with
    | some shadow =>
      rw [hshadow] at herr
      exact sendT1_error H herr
    -- without one the snapshot can, too
    | none =>
      rw [hshadow] at herr
      dsimp only at herr ⊢
      by_cases hsnapshot : F.snapshot u = true
      · rw [if_pos hsnapshot] at herr ⊢
        exact List.mem_singleton.mpr (Except.error.inj herr).symm
      · rw [if_neg hsnapshot] at herr ⊢
        exact sendT1_error (h := h.observe u db.snapshot) H herr

/-! ### Without exceptions -/

/-- Targets of which none raises are shipped as in the sync loop. -/
theorem settleTargets_eq (changes : List (Path × V)) (h : Host β V δ) (targets : List Uuid)
    (hsafe : w.targetRaises F h.shipped changes = []) :
    settleTargets F H w changes h targets =
      .returned (Host.settleTargets H w changes h targets) := by
  have hquiet : ∀ x, (settleTargets F H w changes h targets).2 ≠ .error x := by
    intro x herr
    exact List.eq_nil_iff_forall_not_mem.mp hsafe x
      (settleTargets_error H (fun _ ht => ht) herr)
  obtain ⟨a, ha⟩ := Attempt.exists_ok hquiet
  exact settleTargets_of_ok H ha

/-- And so is a message with such targets sent. -/
theorem sendT1_eq (h : Host β V δ) (u : Uuid) (changes : List (Path × V))
    (old : Option (Dict Path V)) (full : Bool) (hsafe : w.targetRaises F h.shipped changes = []) :
    sendT1 F H w h u changes old full = .returned (h.sendT1 H w u changes old full) := by
  have hquiet : ∀ x, (sendT1 F H w h u changes old full).2 ≠ .error x := by
    intro x herr
    exact List.eq_nil_iff_forall_not_mem.mp hsafe x (sendT1_error H herr)
  obtain ⟨a, ha⟩ := Attempt.exists_ok hquiet
  exact sendT1_of_ok H ha

/-- A turn in which nothing raises is a turn of the sync loop. -/
theorem flushEntry_eq (ready : List Uuid) (s : Host β V δ × Nat) (e : Uuid × Tier)
    (hsafe : turnRaises F w ready s e = []) :
    flushEntry F H w ready s e = (Host.flushEntry H w ready s e, .ok ()) := by
  have hquiet : ∀ x, (flushEntry F H w ready s e).2 ≠ .error x := by
    intro x herr
    exact List.eq_nil_iff_forall_not_mem.mp hsafe x (flushEntry_error H herr)
  obtain ⟨⟨⟩, ha⟩ := Attempt.exists_ok hquiet
  exact flushEntry_of_ok H ha

/-- So is a full tier-1 message. -/
theorem sendT1Full_eq (h : Host β V δ) {u : Uuid} (hsafe : fullRaises F w h u = []) :
    sendT1Full F H w h u = .returned (h.sendT1Full H w u) := by
  have hquiet : ∀ x, (sendT1Full F H w h u).2 ≠ .error x := by
    intro x herr
    exact List.eq_nil_iff_forall_not_mem.mp hsafe x (sendT1Full_error H herr)
  obtain ⟨a, ha⟩ := Attempt.exists_ok hquiet
  exact sendT1Full_of_ok H ha

omit [BEq V] in
/-- So is a blob of the delta queue. -/
theorem resendT2_eq (h : Host β V δ) {u : Uuid} (expect : Option δ)
    (hsafe : resendRaises F w h u = []) :
    resendT2 F H w h u expect = .returned (h.resendT2 H w u expect) := by
  unfold resendRaises at hsafe
  unfold resendT2
  split
  · rename_i hraises
    rw [if_pos hraises] at hsafe
    cases hsafe
  · rfl

/-! ### Without faults -/

omit [BEq V] [DecidableEq δ] in
/-- What a tier-2 flush lists does raise. -/
private theorem raises_of_mem_flushT2Raises {h : Host β V δ} {u x : Uuid} {db : Datablock β V}
    {taken : Bool} {fallback : List (Path × V)}
    (hx : x ∈ flushT2Raises F w h u db taken fallback) : F.raises x = true := by
  unfold flushT2Raises at hx
  split at hx
  · exact World.raises_of_mem_blobRaises hx
  · exact World.raises_of_mem_targetRaises hx

omit [DecidableEq δ] in
/-- So does what a turn lists. -/
theorem raises_of_mem_turnRaises {ready : List Uuid} {s : Host β V δ × Nat}
    {e : Uuid × Tier} {x : Uuid} (hx : x ∈ turnRaises F w ready s e) : F.raises x = true := by
  unfold turnRaises flushRaises at hx
  -- no handle, or a turn that is put off: the list is empty
  split at hx
  · cases hx
  · split at hx
    · cases hx
    · -- tier 2: a dead handle, or what its blob raises
      split at hx
      · rename_i hfreed
        obtain rfl := List.mem_singleton.mp hx
        exact F.raises_of_freed (Bool.and_eq_true_iff.mp hfreed).2
      · cases hx
    · exact raises_of_mem_flushT2Raises hx
    · -- tier 1: the snapshot, else the blob or the targets
      split at hx
      · rename_i hsnapshot
        obtain rfl := List.mem_singleton.mp hx
        exact F.raises_of_snapshot hsnapshot
      · split at hx
        · split at hx
          · exact raises_of_mem_flushT2Raises hx
          · cases hx
        · dsimp only at hx
          split at hx
          · exact raises_of_mem_flushT2Raises hx
          · exact World.raises_of_mem_targetRaises hx

omit [BEq V] [DecidableEq δ] in
/-- So does what a full message lists. -/
theorem raises_of_mem_fullRaises {h : Host β V δ} {u x : Uuid} (hx : x ∈ fullRaises F w h u) :
    F.raises x = true := by
  unfold fullRaises at hx
  split at hx
  · cases hx
  · split at hx
    · exact World.raises_of_mem_targetRaises hx
    · split at hx
      · rename_i hsnapshot
        obtain rfl := List.mem_singleton.mp hx
        exact F.raises_of_snapshot hsnapshot
      · exact World.raises_of_mem_targetRaises hx

omit [BEq V] [DecidableEq δ] in
/-- So does what a resend lists. -/
theorem raises_of_mem_resendRaises {h : Host β V δ} {u x : Uuid}
    (hx : x ∈ resendRaises F w h u) : F.raises x = true := by
  unfold resendRaises at hx
  split at hx
  · rename_i hany
    obtain rfl := List.mem_singleton.mp hx
    obtain ⟨db, -, hdb⟩ := (Option.any_eq_true ..).mp hany
    exact F.raises_of_serialize (Bool.and_eq_true_iff.mp hdb).2
  · cases hx

omit [BEq V] [DecidableEq δ] in
/-- Without faults nothing raises. -/
theorem eq_nil_of_quiet {l : List Uuid} (hF : ∀ u, F.raises u = false)
    (hl : ∀ x ∈ l, F.raises x = true) : l = [] := by
  rw [List.eq_nil_iff_forall_not_mem]
  intro x hx
  have hraises := hl x hx
  rw [hF x] at hraises
  cases hraises

omit [BEq V] [DecidableEq δ] in
/-- The sweeps, when they sample nothing that raises. -/
theorem sweeps_returned {h : Host β V δ}
    (hsafe : sweepIntervalMs ≤ w.now - h.lastSweep → ∀ e ∈ w.dbs.entries, h.Registered e.1 →
      F.sampling e = false) : sweeps F w h = (h.sweeps w, .ok ()) := by
  unfold sweeps
  split
  · rename_i hdue
    have hnone : (w.dbs.entries.find? fun e =>
        decide (h.Registered e.1) && F.sampling e) = none := by
      rw [List.find?_eq_none]
      intro e he hraises
      obtain ⟨hregistered, hsampling⟩ := Bool.and_eq_true_iff.mp hraises
      rw [hsafe hdue e he (of_decide_eq_true hregistered)] at hsampling
      cases hsampling
    rw [hnone]
  · rfl

/-! ### The tick -/

section Quiet

variable (hF : ∀ u, F.raises u = false)
include hF

/-- Where nothing raises the window is re-asserted as in the sync loop. -/
private theorem fastResendLoop_eq (n : Nat) (h : Host β V δ) :
    fastResendLoop F H w n h = (Host.fastResendLoop H w n h, .ok ()) := by
  induction n generalizing h with
  | zero => rfl
  | succ n ih =>
    unfold fastResendLoop Host.fastResendLoop
    cases h.fastResendQueue with
    | nil => rfl
    | cons e rest =>
      obtain ⟨u, kind⟩ := e
      dsimp only
      -- a tombstone raises nothing
      by_cases hkind : kind = .tomb
      · rw [if_pos hkind, if_pos hkind, Attempt.andThen_ok]
        obtain ⟨h', _ | _⟩ := h.sendTombstone w u
        · rfl
        · exact ih _
      · -- a datablock in full does not raise here
        rw [if_neg hkind, if_neg hkind, sendT1Full_eq H h
          (eq_nil_of_quiet hF fun _ hx => raises_of_mem_fullRaises hx),
          Attempt.andThen_returned]
        obtain ⟨h', _ | _⟩ := h.sendT1Full H w u
        · rfl
        · exact ih _

/-- To its end. -/
private theorem drainFastResend_eq (h : Host β V δ) :
    drainFastResend F H w h = (h.drainFastResend H w, .ok ()) := by
  unfold drainFastResend Host.drainFastResend
  rw [fastResendLoop_eq H hF, Attempt.andThen_ok]
  generalize Host.fastResendLoop H w fastResendPerTick h = h₁
  dsimp only
  split
  · obtain ⟨h', _ | _⟩ := h₁.send w .endFast
    · rfl
    · rfl
  · rfl

omit [BEq V] in
/-- The blobs of a delta leave as in the sync loop. -/
private theorem deltaBlobs_eq (n : Nat) (h : Host β V δ) :
    deltaBlobs F H w n h = .returned (Host.deltaBlobs H w n h) := by
  induction n generalizing h with
  | zero => rfl
  | succ n ih =>
    unfold deltaBlobs Host.deltaBlobs
    cases h.deltaQueue with
    | nil => rfl
    | cons e rest =>
      obtain ⟨u, expect⟩ := e
      dsimp only
      rw [resendT2_eq H h expect (eq_nil_of_quiet hF fun _ hx => raises_of_mem_resendRaises hx),
        Attempt.andThen_returned]
      obtain ⟨h', _ | _⟩ := h.resendT2 H w u expect
      · rfl
      · exact ih _

/-- And its re-asserts. -/
private theorem deltaReasserts_eq (n : Nat) (h : Host β V δ) :
    deltaReasserts F H w n h = .returned (Host.deltaReasserts H w n h) := by
  induction n generalizing h with
  | zero => rfl
  | succ n ih =>
    unfold deltaReasserts Host.deltaReasserts
    cases h.deltaTail with
    | nil => rfl
    | cons u rest =>
      dsimp only
      rw [sendT1Full_eq H h
          (eq_nil_of_quiet hF fun _ hx => raises_of_mem_fullRaises hx), Attempt.andThen_returned]
      obtain ⟨h', _ | _⟩ := h.sendT1Full H w u
      · rfl
      · exact ih _

/-- And with them the whole delta. -/
private theorem drainDelta_eq (h : Host β V δ) :
    drainDelta F H w h = (h.drainDelta H w, .ok ()) := by
  unfold drainDelta Host.drainDelta
  obtain ⟨h₁, _ | _⟩ := h.drainT2Outbox w none
  · rfl
  · dsimp only
    rw [deltaBlobs_eq H hF, Attempt.andThen_returned]
    obtain ⟨h₂, _ | n⟩ := Host.deltaBlobs H w deltaPerTick h₁
    · rfl
    · dsimp only
      split
      · rw [deltaReasserts_eq H hF, Attempt.andThen_returned]
        obtain ⟨h₃, _ | _⟩ := Host.deltaReasserts H w n h₂
        · rfl
        · rfl
      · rfl

omit [BEq V] [DecidableEq δ] in
/-- Hashes are primed as in the sync loop. -/
private theorem primeLoop_eq (uuids : List Uuid) (n : Nat) (h : Host β V δ) :
    primeLoop F H w uuids n h = Host.primeLoop H w uuids n h := by
  induction uuids generalizing n h with
  | nil => rfl
  | cons u uuids ih =>
    have hone : primeOne F H w h u = h.primeOne H w u := by
      unfold primeOne
      rw [if_neg (by simp [(Faults.not_raises (hF u)).2])]
    unfold primeLoop Host.primeLoop
    rw [hone]
    split
    · exact ih _ _
    · rfl

omit [BEq V] [DecidableEq δ] in
/-- A bootstrap is cut as in the sync loop. -/
theorem sendBootstrap_eq (h : Host β V δ) : sendBootstrap F H w h = h.sendBootstrap H w := by
  have hscene : sceneDigestNow F H w h = h.sceneDigestNow H w := by
    unfold sceneDigestNow
    cases w.scene with
    | none => rfl
    | some u => rw [if_neg (by simp [(Faults.not_raises (hF u)).1])]
  unfold sendBootstrap Host.sendBootstrap
  rw [hscene]

omit [BEq V] [DecidableEq δ] in
/-- Sweeps in which nothing raises come to their end. -/
private theorem sweeps_eq (hsample : ∀ u, F.sample u = false) (h : Host β V δ) :
    sweeps F w h = (h.sweeps w, .ok ()) := by
  apply sweeps_returned
  exact fun _ e _ _ => Faults.sampling_quiet hF hsample e

/-- The loop over the drain comes to its end. -/
private theorem forEach_flushEntry_eq (ready : List Uuid) (entries : List (Uuid × Tier))
    (s : Host β V δ × Nat) :
    Attempt.forEach (flushEntry F H w ready) entries s =
      (entries.foldl (Host.flushEntry H w ready) s, .ok ()) := by
  induction entries generalizing s with
  | nil => rfl
  | cons e entries ih =>
    rw [Attempt.forEach_cons, flushEntry_eq H ready s e
      (eq_nil_of_quiet hF fun _ hx => raises_of_mem_turnRaises hx), Attempt.andThen_ok, ih,
      List.foldl_cons]

/-- And with it the flush of the dirty set. -/
theorem flushDirty_eq (h : Host β V δ) :
    flushDirty F H w h = (h.flushDirty H w, .ok ()) := by
  unfold flushDirty
  rw [forEach_flushEntry_eq H hF]
  rfl

omit [BEq V] [DecidableEq δ] in
/-- An automatic bootstrap is that of the sync loop. -/
private theorem autoBoot_eq (h : Host β V δ) : autoBoot F H w h = h.autoBoot H w := by
  unfold autoBoot Host.autoBoot
  cases h.autoBootAt with
  | none => rfl
  | some t => simp only [sendBootstrap_eq H hF]

/-- The idle half of the tick comes to its end. -/
private theorem idle_eq (hsample : ∀ u, F.sample u = false) (h : Host β V δ) :
    (beforeIdleDrain F H w h).andThen (fun h reached =>
      if reached then flushDirty F H w h else (h, .ok ())) = (h.flushIdle H w, .ok ()) := by
  unfold beforeIdleDrain Host.flushIdle
  dsimp only
  rw [autoBoot_eq H hF]
  obtain ⟨h₁, _ | _⟩ := (h.sendManifestBatch w).autoBoot H w
  · dsimp only
    rw [sweeps_eq hF hsample, Attempt.andThen_ok]
    split
    · rw [primeLoop_eq H hF]
      rfl
    · rw [Attempt.andThen_ok, if_pos rfl]
      exact flushDirty_eq H hF _
  · rfl

omit [DecidableEq δ] in
/-- A file is scanned to its end. -/
private theorem forEach_scanOne_eq (hsample : ∀ u, F.sample u = false)
    (es : List (Uuid × Datablock β V))
    (h : Host β V δ) : Attempt.forEach (scanOne F) es h =
      (es.foldl (fun h e =>
        let h := h.adopt e.1
        let h := { h with dirty := h.dirty.assumeKnown e.1 }
        if e.2.saved ∧ e.2.tracked then h.observe e.1 e.2.snapshot else h) h, .ok ()) := by
  induction es generalizing h with
  | nil => rfl
  | cons e es ih =>
    -- one datablock is sampled without an exception
    have hone : scanOne F h e = ((fun h : Host β V δ =>
        let h := h.adopt e.1
        let h := { h with dirty := h.dirty.assumeKnown e.1 }
        if e.2.saved ∧ e.2.tracked then h.observe e.1 e.2.snapshot else h) h, .ok ()) := by
      unfold scanOne
      simp only [(Faults.not_raises (hF e.1)).1, hsample, Bool.and_false, Bool.false_eq_true,
        if_false]
      split
      · rfl
      · rfl
    rw [Attempt.forEach_cons, hone, Attempt.andThen_ok, ih, List.foldl_cons]

omit [DecidableEq δ] in
/-- A new file is taken up as in the sync loop. -/
theorem resetForNewFile_eq (hsample : ∀ u, F.sample u = false) (h : Host β V δ) :
    resetForNewFile F H w h = h.resetForNewFile H w := by
  unfold resetForNewFile Host.resetForNewFile Host.initialScan
  dsimp only
  rw [forEach_scanOne_eq hF hsample, Attempt.andThen_ok, sendBootstrap_eq H hF]

/-- The tick without exceptions is the tick of the loop. -/
theorem flushTick_eq (hsample : ∀ u, F.sample u = false) (h : Host β V δ) :
    flushTick F H w h = h.flushTick H w := by
  unfold flushTick flushTickInner beforeDrain Host.flushTick
  -- each stage that gives up ends both ticks alike
  obtain ⟨h₁, _ | _⟩ := h.drainBoot w
  · rfl
  · dsimp only
    split
    · rfl
    · obtain ⟨h₂, _ | _⟩ := h₁.drainLib w
      · rfl
      · dsimp only
        obtain ⟨h₃, _ | _⟩ := h₂.drainT2Outbox w none
        · rfl
        · dsimp only
          -- the resend raises nowhere, so the two agree on it
          have hresent : (if h₃.fastResendQueue ≠ [] ∨ h₃.fastResendEnd = true then
                drainFastResend F H w h₃ else (h₃, .ok ())) =
              ((if h₃.fastResendQueue ≠ [] ∨ h₃.fastResendEnd = true then
                h₃.drainFastResend H w else h₃), .ok ()) := by
            rw [drainFastResend_eq H hF]
            split
            · rfl
            · rfl
          rw [hresent, Attempt.andThen_ok]
          generalize (if h₃.fastResendQueue ≠ [] ∨ h₃.fastResendEnd = true then
            h₃.drainFastResend H w else h₃) = h₄
          split
          · rw [drainDelta_eq H hF]
            rfl
          · rw [idle_eq H hF hsample]

end Quiet

end Safe

/-! ## Wherever an exception ends the tick -/

section Keeps

variable [BEq V] [DecidableEq δ] (F : Faults) (H : Digests β V δ) {w : World β V}
  {I : Host β V δ → Prop}

section Blobs

variable (hI : KeepsBlobs w I)
include hI

/-- What moves keep is kept while a blob is shipped, wherever it raises. -/
private theorem keeps_shipBlob {uuid : Uuid} (hu : uuid ≠ mainfileUuid) (db : Datablock β V)
    (snapshot : Option (Dict Path V)) {h : Host β V δ} (hh : I h) :
    I (shipBlob F H w h uuid db snapshot).1 := by
  unfold shipBlob
  split
  · exact hh
  · exact hI.shipBlob H hu db snapshot hh

/-- In a tier-2 flush. -/
theorem keeps_flushT2 (uuid : Uuid) (snapshot : Option (Dict Path V)) {h : Host β V δ}
    (hh : I h) : I (flushT2 F H w h uuid snapshot).1 := by
  unfold flushT2
  -- no handle: nothing is changed
  split
  · split
    · exact hh
    · exact hh
  · -- shape keys, whose owner takes part, and then any other datablock
    rename_i db hdb
    split
    · split
      · exact hh
      · have hseen : ∀ s, I (h.observe uuid s) := fun s => hI.same hh rfl
        dsimp only
        split
        · exact hseen _
        · rename_i owner _
          have howner := hI.adopt owner (hseen (snapshot.getD db.snapshot))
          split
          · exact howner
          · split
            · exact howner
            · rename_i ownerDb hdbOwner
              exact Attempt.andThen_invariant
                (keeps_shipBlob F H hI (w.stamps _ (mem_keys_of_db hdbOwner)) ownerDb none howner)
                fun _ _ _ hs => hs
    · exact keeps_shipBlob F H hI (w.stamps _ (mem_keys_of_db hdb)) db snapshot hh

/-- While targets are shipped. -/
theorem keeps_settleTargets (changes : List (Path × V)) (targets : List Uuid) {h : Host β V δ}
    (hh : I h) : I (settleTargets F H w changes h targets).1 := by
  induction changes generalizing h targets with
  | nil => exact hh
  | cons c changes ih =>
    unfold settleTargets
    split
    · exact ih targets hh
    · rename_i t _
      have hadopt := hI.adopt t hh
      apply Attempt.andThen_invariant
      · -- a target that is shipped, or is shipped now
        split
        · exact hadopt
        · exact keeps_flushT2 F H hI t none hadopt
      · intro h' _ _ hh'
        split
        · exact hh'
        · exact ih _ hh'

end Blobs

variable (hI : Keeps w I)
include hI

/-- In a tier-1 message. -/
theorem keeps_sendT1 (uuid : Uuid) (changes : List (Path × V)) (old : Option (Dict Path V))
    (full : Bool) {h : Host β V δ} (hh : I h) :
    I (sendT1 F H w h uuid changes old full).1 := by
  unfold sendT1
  split
  · exact hh
  · apply Attempt.andThen_invariant (keeps_settleTargets F H hI.blobs (settersFirst changes) [] hh)
    intro h' targets _ hh'
    cases targets with
    -- given back
    | none => exact hI.giveBack uuid old hh'
    | some targets =>
      dsimp only
      -- sent, or refused and given back
      split
      · rename_i hsend
        exact hI.of_send hsend trivial hh'
      · rename_i hsend
        exact hI.giveBack uuid old (hI.of_send hsend trivial hh')

/-- In a tier-2 flush with its fallback. -/
private theorem keeps_flushT2Or (uuid : Uuid) (snapshot : Option (Dict Path V))
    (fallback : List (Path × V)) {h : Host β V δ} (hh : I h) :
    I (flushT2Or F H w h uuid snapshot fallback).1 := by
  unfold flushT2Or
  apply Attempt.andThen_invariant (keeps_flushT2 F H hI.blobs uuid snapshot hh)
  intro h' unsupported _ hh'
  split
  · exact Attempt.andThen_invariant (keeps_sendT1 F H hI uuid fallback none false hh)
      fun _ _ _ _ => hI.sendT1 H uuid fallback none false hh'
  · exact hh'

/-- And in a tier-1 flush. -/
private theorem keeps_flushT1 (uuid : Uuid) {h : Host β V δ} (hh : I h) :
    I (flushT1 F H w h uuid).1 := by
  unfold flushT1
  split
  · exact hh
  · rename_i db _
    split
    · exact hh
    · -- what is seen of the datablock is kept
      have hseen : I ((if db.kind = .scene then
          { h with sceneDigest := some (H.scene db.snapshot) } else h).observe uuid
          db.snapshot) := by
        split
        · exact hI.same hh rfl
        · exact hI.same hh rfl
      dsimp only
      split
      · split
        · exact keeps_flushT2Or F H hI uuid _ _ hseen
        · exact hseen
      · split
        · exact keeps_flushT2Or F H hI uuid _ _ hseen
        · exact Attempt.andThen_invariant (keeps_sendT1 F H hI uuid _ _ _ hseen)
            fun _ _ _ hs => hs

/-- What the moves and what is put back preserve survives an entry, whether it raises or
    not. -/
theorem keeps_flushEntry
    (hrequeue : ∀ {h : Host β V δ} u t, I h → I { h with dirty := h.dirty.requeue u t })
    (htouch : ∀ {h : Host β V δ} u, I h → I (h.touchReady u w.now)) (ready : List Uuid)
    (s : Host β V δ × Nat) (e : Uuid × Tier) (hs : I s.1) :
    I (flushEntry F H w ready s e).1.1 := by
  unfold flushEntry
  dsimp only
  split
  · exact hrequeue _ _ hs
  · split
    · exact htouch _ (hrequeue _ _ hs)
    · exact keeps_flushT2Or F H hI _ _ _ hs
    · exact keeps_flushT1 F H hI _ hs

end Keeps

end Raising

end Host

end QCBridge
