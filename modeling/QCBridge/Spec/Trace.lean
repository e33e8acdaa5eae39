import QCBridge.Ring0.Host

/-!
# What the host's calls preserve

The functions of `HostSync` change the state that matters for sending by a few
primitive moves: a step of the ledger, a datablock adopted, marked, given back or
forgotten, a tombstone put back, a request for a bootstrap. A property that every
move preserves is preserved by every call, and so holds after any session.

The ledger is the first use: its state after any session is the run of the steps
it took. What holds of every run of the ledger holds of every session.

## Key results

- `Host.Keeps`, `Host.KeepsCall`: what a property must survive
- `Host.KeepsCall.call`: it survives every call then
- `Host.run_ledger`: the ledger of a session is the run of its trace
-/

namespace QCBridge

variable {β V δ : Type}

/-- Steps that the host can take: a datablock's blob is never the bootstrap's, and
    `_send_cold_msg` only speaks of libraries. -/
def LedgerAct.Valid : LedgerAct β V δ → Prop
  | .cutT2 uuid _ _ _ => uuid ≠ mainfileUuid
  | .sendCold kind _ => kind = .link ∨ kind = .unlink ∨ kind = .libMissing
  | _ => True

/-- The steps other than the end of a re-assert, which only the re-assert takes. -/
def LedgerAct.Plain : LedgerAct β V δ → Prop
  | .endFast => False
  | a => a.Valid

/-- The steps of a blob: it is cut or found to be on record, and its chunks leave. -/
def LedgerAct.OfBlob : LedgerAct β V δ → Prop
  | .cutT2 u _ _ _ => u ≠ mainfileUuid
  | .skip _ _ _ | .sendT2 _ => True
  | _ => False

/-- The steps of a blob are not the end of a re-assert. -/
theorem LedgerAct.OfBlob.plain {a : LedgerAct β V δ} (h : a.OfBlob) : a.Plain := by
  cases a with
  | cutT2 u data digest more => exact h
  | skip u data digest => trivial
  | sendT2 u => trivial
  | _ => exact h.elim

/-- A plain step is one that the host can take. -/
theorem LedgerAct.Plain.valid {a : LedgerAct β V δ} (h : a.Plain) : a.Valid := by
  cases a with
  | endFast => trivial
  | _ => exact h

/-- The ledger after two stretches of steps. -/
theorem Ledger.run_append (l : Ledger β V δ) (as bs : List (LedgerAct β V δ)) :
    l.run (as ++ bs) = (l.run as).run bs := List.foldl_append

namespace Host

/-- The state that the moves change. -/
def core (h : Host β V δ) :=
  (h.ledger, h.trace, h.journal, h.dirty, h.debounce, h.uuidToDb, h.autoBootAt,
    h.fastResendQueue, h.fastResendEnd)

section Core

variable {h h' : Host β V δ} (hcore : h'.core = h.core)
include hcore

/-- The ledger is in the core. -/
theorem ledger_of_core : h'.ledger = h.ledger := congrArg (·.1) hcore

/-- The trace is. -/
private theorem trace_of_core : h'.trace = h.trace := congrArg (·.2.1) hcore

/-- The journal is. -/
theorem journal_of_core : h'.journal = h.journal := congrArg (·.2.2.1) hcore

/-- The dirty set is. -/
theorem dirty_of_core : h'.dirty = h.dirty := congrArg (·.2.2.2.1) hcore

/-- The debounce is. -/
theorem debounce_of_core : h'.debounce = h.debounce := congrArg (·.2.2.2.2.1) hcore

/-- The handles are. -/
theorem uuidToDb_of_core : h'.uuidToDb = h.uuidToDb := congrArg (·.2.2.2.2.2.1) hcore

/-- The time asked for by an unsupported type is. -/
theorem autoBootAt_of_core : h'.autoBootAt = h.autoBootAt := congrArg (·.2.2.2.2.2.2.1) hcore

/-- The queue of the re-assert is. -/
theorem fastResendQueue_of_core : h'.fastResendQueue = h.fastResendQueue :=
  congrArg (·.2.2.2.2.2.2.2.1) hcore

end Core

/-- A datablock is dirty again because a tier-1 message of it did not leave. -/
def requeued (h : Host β V δ) (uuid : Uuid) : Host β V δ :=
  { h with dirty := h.dirty.requeue uuid .t1 }.note
    (.givenBack uuid (h.debounce.touched.get? uuid).isSome)

/-- A tombstone that was refused waits in the dirty set. -/
def tombBack (h : Host β V δ) (w : World β V) (uuid : Uuid) : Host β V δ :=
  { h with dirty := h.dirty.requeueTombstone uuid }.note
    (.tombBack uuid (w.dbs.get? uuid).isSome)

/-- A type without tier 2 asks for a bootstrap. -/
def wantBoot (h : Host β V δ) (w : World β V) (uuid : Uuid) : Host β V δ :=
  { h with autoBootAt := some (w.now + autoBootDebounceMs) }.note (.unsupported uuid)

/-- What a property of the host must survive while it ships blobs. -/
structure KeepsBlobs (w : World β V) (I : Host β V δ → Prop) : Prop where
  same : ∀ {h h' : Host β V δ}, I h → h'.core = h.core → I h'
  blob : ∀ {h : Host β V δ} {a : LedgerAct β V δ}, a.OfBlob → I h → I (h.act a)
  adopt : ∀ {h : Host β V δ} (u : Uuid), I h → I (h.adopt u)
  wantBoot : ∀ {h : Host β V δ} (u : Uuid), I h → I (h.wantBoot w u)

/-- What a property of the host must survive while it sends. -/
structure Keeps (w : World β V) (I : Host β V δ → Prop) : Prop where
  same : ∀ {h h' : Host β V δ}, I h → h'.core = h.core → I h'
  act : ∀ {h : Host β V δ} {a : LedgerAct β V δ}, a.Plain → I h → I (h.act a)
  adopt : ∀ {h : Host β V δ} (u : Uuid), I h → I (h.adopt u)
  requeued : ∀ {h : Host β V δ} (u : Uuid), I h → I (h.requeued u)
  tombBack : ∀ {h : Host β V δ} (u : Uuid), I h → I (h.tombBack w u)
  wantBoot : ∀ {h : Host β V δ} (u : Uuid), I h → I (h.wantBoot w u)

/-- Two properties at once. -/
theorem Keeps.and {w : World β V} {I J : Host β V δ → Prop} (hI : Keeps w I) (hJ : Keeps w J) :
    Keeps w fun h => I h ∧ J h where
  same hh hcore := ⟨hI.same hh.1 hcore, hJ.same hh.2 hcore⟩
  act ha hh := ⟨hI.act ha hh.1, hJ.act ha hh.2⟩
  adopt u hh := ⟨hI.adopt u hh.1, hJ.adopt u hh.2⟩
  requeued u hh := ⟨hI.requeued u hh.1, hJ.requeued u hh.2⟩
  tombBack u hh := ⟨hI.tombBack u hh.1, hJ.tombBack u hh.2⟩
  wantBoot u hh := ⟨hI.wantBoot u hh.1, hJ.wantBoot u hh.2⟩

/-- A handle that is alive belongs to a datablock of the world. -/
theorem mem_keys_of_db {h : Host β V δ} {w : World β V} {uuid : Uuid} {db : Datablock β V}
    (hdb : h.db w uuid = some db) : uuid ∈ w.dbs.keys := by
  simp only [Host.db] at hdb
  split at hdb
  · exact (Dict.mem_keys_iff ..).mpr ⟨db, hdb⟩
  · cases hdb

/-- What a step of the ledger preserves survives sending it. -/
theorem send_invariant {w : World β V} {I : Host β V δ → Prop} {a : LedgerAct β V δ}
    (hsame : ∀ {h h' : Host β V δ}, I h → h'.core = h.core → I h')
    (hact : ∀ {h : Host β V δ}, I h → I (h.act a)) {h : Host β V δ} (hh : I h) :
    I (h.send w a).1 := by
  have htried : I { h with tries := h.tries + 1 } := hsame hh rfl
  unfold Host.send
  dsimp only
  split
  · exact hact htried
  · exact htried

/-- What a step of the ledger preserves survives a blob's chunks, however many are taken. -/
private theorem sendChunks_invariant {w : World β V} {I : Host β V δ → Prop} {a : LedgerAct β V δ}
    (hsame : ∀ {h h' : Host β V δ}, I h → h'.core = h.core → I h')
    (hact : ∀ {h : Host β V δ}, I h → I (h.act a)) (chunks : List (Msg β V δ))
    {h : Host β V δ} (hh : I h) : I (sendChunks w a chunks h).1 := by
  induction chunks generalizing h with
  | nil => exact hh
  | cons m chunks ih =>
    have hsent := send_invariant (w := w) hsame hact hh
    unfold Host.sendChunks
    split
    · rename_i h' heq
      rw [heq] at hsent
      exact ih hsent
    · rename_i h' heq
      rwa [heq] at hsent

namespace KeepsBlobs

variable {w : World β V} {I : Host β V δ → Prop} (hI : KeepsBlobs w I)
include hI

/-- The outbox of blobs: chunks leave, and what has left whole is shipped. -/
theorem drainBlobs (only : Option Uuid) (uuids : List Uuid) {h : Host β V δ} (hh : I h) :
    I (drainBlobs w only uuids h).1 := by
  induction uuids generalizing h with
  | nil => exact hh
  | cons u uuids ih =>
    unfold Host.drainBlobs
    split
    · exact ih hh
    · -- the chunks leave, and the last makes the blob a shipped one
      have hsent := sendChunks_invariant (w := w) (a := .sendT2 u) hI.same
        (hI.blob trivial) (((h.ledger.t2Outbox.get? u).map Outgoing.chunks).getD []) hh
      dsimp only
      split
      · rename_i h' heq
        rw [heq] at hsent
        exact ih (hI.same hsent rfl)
      · rename_i h' heq
        rwa [heq] at hsent

/-- All of it, or one entry. -/
theorem drainT2Outbox (only : Option Uuid) {h : Host β V δ} (hh : I h) :
    I (h.drainT2Outbox w only).1 := hI.drainBlobs only _ hh

variable [BEq V] [DecidableEq δ] (H : Digests β V δ)

/-- A blob is cut or found to be on record. No datablock is named like the bootstrap. -/
theorem shipBlob {uuid : Uuid} (hu : uuid ≠ mainfileUuid) (db : Datablock β V)
    (snapshot : Option (Dict Path V)) {h : Host β V δ} (hh : I h) :
    I (h.shipBlob H w uuid db snapshot).1 := by
  unfold Host.shipBlob
  split
  · exact hI.wantBoot uuid hh
  · have hseen : ∀ s, I (h.observe uuid s) := fun s => hI.same hh rfl
    dsimp only
    split
    · exact hI.blob (a := .skip _ _ _) trivial (hseen _)
    · apply hI.drainT2Outbox
      apply hI.blob (a := .cutT2 _ _ _ _) hu
      exact hI.same hh rfl

end KeepsBlobs

/-- Blobs are sent like the rest. -/
theorem Keeps.blobs {w : World β V} {I : Host β V δ → Prop} (hI : Keeps w I) :
    KeepsBlobs w I where
  same := hI.same
  blob ha := hI.act ha.plain
  adopt := hI.adopt
  wantBoot := hI.wantBoot

namespace Keeps

variable {w : World β V} {I : Host β V δ → Prop} (hI : Keeps w I)
include hI

/-! ## Sending -/

omit hI in
/-- A loop over a list, of which each turn survives. -/
theorem foldl {α : Type} {f : Host β V δ → α → Host β V δ} (hf : ∀ h a, I h → I (f h a))
    (as : List α) {h : Host β V δ} (hh : I h) : I (as.foldl f h) := by
  induction as generalizing h with
  | nil => exact hh
  | cons a as ih => exact ih (hf h a hh)

/-- A message that is offered to the transport. -/
theorem send {h : Host β V δ} {a : LedgerAct β V δ} (ha : a.Plain) (hh : I h) :
    I (h.send w a).1 := send_invariant hI.same (hI.act ha) hh

/-- The host after a send, by the transport's answer. -/
theorem of_send {h h' : Host β V δ} {a : LedgerAct β V δ} {ok : Bool}
    (heq : h.send w a = (h', ok)) (ha : a.Plain) (hh : I h) : I h' := by
  have hsent := hI.send ha hh
  rwa [heq] at hsent

/-- The chunks of a blob. -/
theorem sendChunks {a : LedgerAct β V δ} (ha : a.Plain) (chunks : List (Msg β V δ))
    {h : Host β V δ} (hh : I h) : I (sendChunks w a chunks h).1 :=
  sendChunks_invariant hI.same (hI.act ha) chunks hh

/-- The bootstrap's outbox. -/
theorem drainBoot {h : Host β V δ} (hh : I h) : I (h.drainBoot w).1 := by
  unfold Host.drainBoot
  split
  · exact hh
  · exact hI.sendChunks (a := .sendBoot) trivial _ hh

/-- The library lane. -/
theorem drainLib {h : Host β V δ} (hh : I h) : I (h.drainLib w).1 :=
  hI.sendChunks (a := .sendLib) trivial _ hh

/-- The outbox of blobs. -/
theorem drainT2Outbox (only : Option Uuid) {h : Host β V δ} (hh : I h) :
    I (h.drainT2Outbox w only).1 := hI.blobs.drainT2Outbox only hh

/-- A tombstone is sent, or put back. -/
theorem sendTombstone (uuid : Uuid) {h : Host β V δ} (hh : I h) :
    I (h.sendTombstone w uuid).1 := by
  unfold Host.sendTombstone
  split
  · rename_i h' heq
    exact hI.of_send heq trivial hh
  · rename_i h' heq
    exact hI.tombBack uuid (hI.of_send heq trivial hh)

/-- A message that did not leave: the datablock is dirty again, its shadow as it was. -/
theorem giveBack (uuid : Uuid) (old : Option (Dict Path V)) {h : Host β V δ} (hh : I h) :
    I (h.giveBack uuid old) := by
  have hback := hI.requeued uuid hh
  unfold Host.giveBack
  dsimp only
  split
  · exact hback
  · exact hI.same hback rfl

section Flush

variable [BEq V] [DecidableEq δ] (H : Digests β V δ)

/-! ## Tier 2 -/

/-- A blob, for a property that survives sending in general. -/
theorem shipBlob {uuid : Uuid} (hu : uuid ≠ mainfileUuid) (db : Datablock β V)
    (snapshot : Option (Dict Path V)) {h : Host β V δ} (hh : I h) :
    I (h.shipBlob H w uuid db snapshot).1 := hI.blobs.shipBlob H hu db snapshot hh

/-- Tier 2 of a datablock, or the request for a bootstrap where its type has none. -/
theorem flushT2 (uuid : Uuid) (snapshot : Option (Dict Path V)) {h : Host β V δ} (hh : I h) :
    I (h.flushT2 H w uuid snapshot).1 := by
  unfold Host.flushT2
  split
  · exact hh
  · rename_i db hdb
    split
    · -- a shape key: its owner's blob carries it
      have hseen : ∀ s, I (h.observe uuid s) := fun s => hI.same hh rfl
      dsimp only
      split
      · exact hseen _
      · rename_i owner _
        have howner := hI.adopt owner (hseen (snapshot.getD db.snapshot))
        split
        · exact howner
        · split
          · exact howner
          · rename_i ownerDb hdbOwner
            exact hI.shipBlob H (w.stamps _ (mem_keys_of_db hdbOwner)) ownerDb none howner
    · exact hI.shipBlob H (w.stamps _ (mem_keys_of_db hdb)) db snapshot hh

/-! ## Tier 1 -/

/-- The targets of a message: each is adopted, and shipped if it was not. -/
theorem settleTargets (changes : List (Path × V)) (targets : List Uuid) {h : Host β V δ}
    (hh : I h) : I (settleTargets H w changes h targets).1 := by
  induction changes generalizing h targets with
  | nil => exact hh
  | cons c changes ih =>
    unfold Host.settleTargets
    split
    · exact ih targets hh
    · -- a target is adopted, and shipped unless it was
      rename_i t _
      have hadopt := hI.adopt t hh
      have hflush := hI.flushT2 H t none hadopt
      dsimp only
      split
      · split
        · exact hadopt
        · exact ih _ hadopt
      · split
        · exact hflush
        · exact ih _ hflush

/-- Tier 1: the message leaves or is given back. -/
theorem sendT1 (uuid : Uuid) (changes : List (Path × V)) (old : Option (Dict Path V))
    (full : Bool) {h : Host β V δ} (hh : I h) :
    I (h.sendT1 H w uuid changes old full).1 := by
  unfold Host.sendT1
  split
  · exact hh
  · -- the targets first
    have hsettle := hI.settleTargets H (settersFirst changes) [] hh
    dsimp only
    split
    · -- one of them waits
      rename_i h' heq
      rw [heq] at hsettle
      exact hI.giveBack uuid old hsettle
    · -- none does: the message is sent, or given back
      rename_i h' targets heq
      rw [heq] at hsettle
      split
      · rename_i hsend
        exact hI.of_send hsend trivial hsettle
      · rename_i hsend
        exact hI.giveBack uuid old (hI.of_send hsend trivial hsettle)

/-- Tier 2, or tier 1 for a type without it. -/
theorem flushT2Or (uuid : Uuid) (snapshot : Option (Dict Path V)) (fallback : List (Path × V))
    {h : Host β V δ} (hh : I h) : I (h.flushT2Or H w uuid snapshot fallback) := by
  have hflush := hI.flushT2 H uuid snapshot hh
  unfold Host.flushT2Or
  split
  · rename_i h' heq
    rw [heq] at hflush
    exact hI.sendT1 H uuid fallback none false hflush
  · rename_i h' heq
    rwa [heq] at hflush

/-- The changes since the shadow. -/
theorem flushT1 (uuid : Uuid) {h : Host β V δ} (hh : I h) : I (h.flushT1 H w uuid) := by
  unfold Host.flushT1
  split
  · exact hh
  · rename_i db _
    -- what is seen of the datablock
    have hseen : I ((if db.kind = .scene then
        { h with sceneDigest := some (H.scene db.snapshot) } else h).observe uuid db.snapshot) := by
      split
      · exact hI.same hh rfl
      · exact hI.same hh rfl
    dsimp only
    -- a blob or a message
    split
    · split
      · exact hI.flushT2Or H uuid _ _ hseen
      · exact hseen
    · split
      · exact hI.flushT2Or H uuid _ _ hseen
      · exact hI.sendT1 H uuid _ _ _ hseen

/-! ## Repairs -/

/-- A re-assert of one datablock. -/
theorem sendT1Full (uuid : Uuid) {h : Host β V δ} (hh : I h) : I (h.sendT1Full H w uuid).1 := by
  unfold Host.sendT1Full
  split
  · exact hI.sendTombstone uuid hh
  · split
    · exact hI.sendT1 H uuid _ _ _ hh
    · exact hI.sendT1 H uuid _ _ _ (hI.same hh rfl)

omit [BEq V] in
/-- A blob for a repair. -/
theorem resendT2 (uuid : Uuid) (expect : Option δ) {h : Host β V δ} (hh : I h) :
    I (h.resendT2 H w uuid expect).1 := by
  unfold Host.resendT2
  split
  · exact hI.sendTombstone uuid hh
  · rename_i db hdb
    split
    · exact hh
    · dsimp only
      split
      · exact hI.act (a := .record _ _ _) trivial hh
      · apply hI.drainT2Outbox
        exact hI.act (a := .cutT2 _ _ _ _) (w.stamps _ (mem_keys_of_db hdb)) hh

omit [BEq V] in
/-- The blobs of a repair. -/
theorem deltaBlobs (n : Nat) {h : Host β V δ} (hh : I h) : I (deltaBlobs H w n h).1 := by
  induction n generalizing h with
  | zero => exact hh
  | succ n ih =>
    unfold Host.deltaBlobs
    split
    · exact hh
    · rename_i uuid expect _ _
      have hsent := hI.resendT2 H uuid expect hh
      split
      · rename_i h' heq
        rw [heq] at hsent
        exact ih (hI.same hsent rfl)
      · rename_i h' heq
        rwa [heq] at hsent

/-- Its re-asserts. -/
theorem deltaReasserts (n : Nat) {h : Host β V δ} (hh : I h) :
    I (deltaReasserts H w n h).1 := by
  induction n generalizing h with
  | zero => exact hh
  | succ n ih =>
    unfold Host.deltaReasserts
    split
    · exact hh
    · -- the datablock in full
      rename_i uuid _ _
      have hsent := hI.sendT1Full H uuid hh
      split
      · rename_i h' heq
        rw [heq] at hsent
        exact ih (hI.same hsent rfl)
      · rename_i h' heq
        rwa [heq] at hsent

omit [BEq V] [DecidableEq δ] in
/-- Its end. -/
theorem deltaEnd {h : Host β V δ} (hh : I h) : I (h.deltaEnd w) := by
  unfold Host.deltaEnd
  split
  · split
    · rename_i heq
      exact hI.same (hI.of_send heq trivial hh) rfl
    · rename_i heq
      exact hI.of_send heq trivial hh
  · exact hh

/-- All of a repair that one tick takes. -/
theorem drainDelta {h : Host β V δ} (hh : I h) : I (h.drainDelta H w) := by
  -- the blobs that wait, those of the repair, then its re-asserts and its end
  have hdrain := hI.drainT2Outbox none hh
  unfold Host.drainDelta
  split
  · rename_i h₁ heq
    rwa [heq] at hdrain
  · rename_i h₁ heq
    rw [heq] at hdrain
    have hblobs := hI.deltaBlobs H deltaPerTick hdrain
    split
    · rename_i h₂ heq₂
      rwa [heq₂] at hblobs
    · rename_i h₂ n heq₂
      rw [heq₂] at hblobs
      split
      · have htail := hI.deltaReasserts H n hblobs
        split
        · rename_i h₃ heq₃
          rwa [heq₃] at htail
        · rename_i h₃ heq₃
          rw [heq₃] at htail
          exact hI.deltaEnd htail
      · exact hblobs

/-! ## Idle work -/

omit [BEq V] [DecidableEq δ] in
/-- One datablock's digest. -/
theorem primeOne (uuid : Uuid) {h : Host β V δ} (hh : I h) : I (h.primeOne H w uuid).1 := by
  unfold Host.primeOne
  split
  · exact hh
  · split
    · exact hh
    · split
      · exact hh
      · exact hI.same (hI.act (a := .record _ _ _) trivial hh) rfl

omit [BEq V] [DecidableEq δ] in
/-- The digests of one tick. -/
theorem primeLoop (uuids : List Uuid) (n : Nat) {h : Host β V δ} (hh : I h) :
    I (primeLoop H w uuids n h) := by
  induction uuids generalizing n h with
  | nil => exact hI.same hh rfl
  | cons u uuids ih =>
    unfold Host.primeLoop
    split
    · exact ih _ (hI.primeOne H u hh)
    · exact hI.same hh rfl

omit [BEq V] [DecidableEq δ] in
/-- The manifest. -/
theorem sendManifestBatch {h : Host β V δ} (hh : I h) : I (h.sendManifestBatch w) := by
  unfold Host.sendManifestBatch
  split
  · exact hI.same hh rfl
  · exact hh

omit [BEq V] [DecidableEq δ] in
/-- Libraries that came into the file. -/
theorem linkLibraries (libs : List (String × List String × List String)) {h : Host β V δ}
    (hh : I h) : I (linkLibraries w libs h) := by
  induction libs generalizing h with
  | nil => exact hh
  | cons lib libs ih =>
    unfold Host.linkLibraries
    split
    · exact ih hh
    · split
      · rename_i heq
        exact ih (hI.same (hI.of_send heq (a := .sendCold _ _) (.inl rfl) hh) rfl)
      · rename_i heq
        exact ih (hI.of_send heq (a := .sendCold _ _) (.inl rfl) hh)

omit [BEq V] [DecidableEq δ] in
/-- Libraries that left it. -/
theorem unlinkLibraries (paths : List String) {h : Host β V δ} (hh : I h) :
    I (unlinkLibraries w paths h) := by
  induction paths generalizing h with
  | nil => exact hh
  | cons path paths ih =>
    unfold Host.unlinkLibraries
    split
    · exact ih hh
    · split
      · rename_i heq
        exact ih (hI.same (hI.of_send heq (a := .sendCold _ _) (.inr (.inl rfl)) hh) rfl)
      · rename_i heq
        exact ih (hI.of_send heq (a := .sendCold _ _) (.inr (.inl rfl)) hh)

omit [BEq V] [DecidableEq δ] in
/-- Files that the replica asks for. -/
theorem serveLibRequests (reqs : List (String × Option (List β))) {h : Host β V δ} (hh : I h) :
    I (serveLibRequests w reqs h) := by
  induction reqs generalizing h with
  | nil => exact hh
  | cons req reqs ih =>
    unfold Host.serveLibRequests
    split
    · exact ih hh
    · split
      · exact ih (hI.same (hI.act (a := .cutLib _ _) trivial hh) rfl)
      · split
        · rename_i heq
          exact ih (hI.same (hI.of_send heq (a := .sendCold _ _) (.inr (.inr rfl)) hh) rfl)
        · rename_i heq
          exact ih (hI.of_send heq (a := .sendCold _ _) (.inr (.inr rfl)) hh)

omit [BEq V] [DecidableEq δ] in
/-- The plan of a repair enters the queues. -/
theorem sendDelta (plan : DeltaPlan) (held : Dict Uuid δ) {h : Host β V δ} (hh : I h) :
    I (h.sendDelta w plan held) := by
  have htombs := Keeps.foldl (fun h u hh => hI.sendTombstone u hh) plan.tombs hh
  exact hI.same htombs rfl

end Flush

end Keeps

/-! ## Bootstraps -/

/-- A bootstrap is one step of the ledger, as far as the moves are concerned. -/
theorem sendBootstrap_core (H : Digests β V δ) (w : World β V) (h : Host β V δ) :
    ∃ data sceneDigest,
      (h.sendBootstrap H w).core = (h.act (.cutBoot data sceneDigest)).core := by
  have hcore : (h.sceneDigestNow H w).core = h.core := by
    unfold sceneDigestNow
    split <;> rfl
  simp only [core, Prod.mk.injEq] at hcore
  obtain ⟨hledger, htrace, hjournal, hdirty, hdebounce, huuid, hauto, hqueue, hend⟩ := hcore
  refine ⟨w.mainfile, w.scene.bind fun _ => (h.sceneDigestNow H w).sceneDigest, ?_⟩
  simp only [sendBootstrap, core, act, hledger, htrace, hjournal, hdirty, hdebounce, huuid,
    hauto, hqueue, hend]

/-- What the scan of a file leaves alone. -/
def scanned (h : Host β V δ) :=
  (h.ledger, h.trace, h.journal, h.dirty.entries, h.debounce, h.autoBootAt, h.fastResendQueue,
    h.fastResendEnd)

/-- The scan of a file adopts its datablocks, and sends and marks nothing. -/
theorem initialScan_scanned [BEq V] (w : World β V) (h : Host β V δ) :
    (h.initialScan w).scanned = h.scanned := by
  unfold initialScan
  generalize w.dbs.entries = entries
  induction entries generalizing h with
  | nil => rfl
  | cons e entries ih =>
    rw [List.foldl_cons, ih]
    dsimp only
    split <;> rfl

/-- A file that is opened is scanned, and serialized at once. -/
theorem resetForNewFile_scanned [BEq V] (H : Digests β V δ) (w : World β V)
    (h : Host β V δ) :
    ∃ data sceneDigest, (h.resetForNewFile H w).scanned =
      ({ h with debounce := {}, dirty := {} }.act (.cutBoot data sceneDigest)).scanned := by
  -- the scan changes no lane, no journal and no queue
  have hscan := initialScan_scanned w
    { h with shadow := {}, debounce := {}, dirty := {}, uuidToDb := [], deadHandles := [] }
  -- and the bootstrap is one cut behind it
  obtain ⟨data, sceneDigest, hcore⟩ := sendBootstrap_core H w
    ({ h with
      shadow := {}, debounce := {}, dirty := {}, uuidToDb := [],
      deadHandles := [] }.initialScan w)
  simp only [scanned, Prod.mk.injEq] at hscan
  obtain ⟨hledger, htrace, hjournal, hdirty, hdebounce, hauto, hqueue, hend⟩ := hscan
  simp only [core, act, Prod.mk.injEq] at hcore
  obtain ⟨hledger', htrace', hjournal', hdirty', hdebounce', -, hauto', hqueue', hend'⟩ := hcore
  refine ⟨data, sceneDigest, ?_⟩
  -- so only the cut is left of both
  show (sendBootstrap H w _).scanned = _
  simp only [scanned, act, hledger', htrace', hjournal', hdirty', hdebounce', hauto', hqueue',
    hend', hledger, htrace, hjournal, hdirty, hdebounce, hauto, hqueue, hend]

/-- A new file leaves one entry in the journal: its bootstrap. -/
theorem resetForNewFile_journal [BEq V] (H : Digests β V δ) (w : World β V)
    (h : Host β V δ) :
    ∃ data sceneDigest, (h.resetForNewFile H w).journal =
      h.journal ++ [.act (.cutBoot data sceneDigest)] := by
  obtain ⟨data, sceneDigest, hreset⟩ := resetForNewFile_scanned H w h
  simp only [scanned, Prod.mk.injEq] at hreset
  exact ⟨data, sceneDigest, hreset.2.2.1⟩

/-! ## Sweeps and marks -/

/-- What a property must survive while datablocks are marked. -/
structure KeepsMark (w : World β V) (I : Host β V δ → Prop) : Prop extends Keeps w I where
  mark : ∀ {h : Host β V δ} (u : Uuid) (t : Tier) (now : Int), h.Registered u → I h →
    I (h.mark u t now)

/-- Two properties at once. -/
theorem KeepsMark.and {w : World β V} {I J : Host β V δ → Prop} (hI : KeepsMark w I)
    (hJ : KeepsMark w J) : KeepsMark w fun h => I h ∧ J h where
  toKeeps := hI.toKeeps.and hJ.toKeeps
  mark u t now hmem hh := ⟨hI.mark u t now hmem hh.1, hJ.mark u t now hmem hh.2⟩

/-- What a property must survive while datablocks are found and forgotten. -/
structure KeepsSweep (w : World β V) (I : Host β V δ → Prop) : Prop extends KeepsMark w I where
  readopt : ∀ {h : Host β V δ} (u : Uuid) (db : Datablock β V), w.dbs.get? u = some db →
    ¬ h.Registered u → I h → I (((h.adopt u).mark u .t2 w.now).note (.readopted u))
  forget : ∀ {h : Host β V δ} (u : Uuid), u ∉ w.dbs.keys → I h → I (h.forget u)

/-- What is adopted has a handle. -/
theorem mem_adopt (h : Host β V δ) (u : Uuid) : u ∈ (h.adopt u).uuidToDb :=
  List.mem_insert_self

/-- A property that survives the marks survives a depsgraph batch. -/
theorem KeepsMark.onDepsgraph {w : World β V} {I : Host β V δ → Prop} (hI : KeepsMark w I)
    (updates : List Update) {h : Host β V δ} (hh : I h) :
    I (h.onDepsgraph w updates) := by
  unfold Host.onDepsgraph
  split
  · exact hI.same hh rfl
  · split
    · exact hh
    · -- an update marks its own datablock, or nothing
      apply Keeps.foldl _ updates hh
      intro h u hh
      unfold noteUpdate
      split
      · exact hh
      · split
        · exact hh
        · exact hI.mark _ _ _ (.inl (mem_adopt h u.uuid)) (hI.adopt u.uuid hh)

namespace KeepsSweep

variable {w : World β V} {I : Host β V δ → Prop} (hI : KeepsSweep w I)
include hI

/-- Deletions that the sweep finds. -/
theorem sweepDeletions {h : Host β V δ} (hh : I h) : I (h.sweepDeletions w) := by
  -- what differs from the sample is marked
  have hswept : ∀ (l : List (Uuid × Tier)) {h : Host β V δ}, I h → I (l.foldl (fun h s =>
      if h.Registered s.1 then h.mark s.1 s.2 (w.now - debounceMs) else h) h) := by
    intro l h hh
    apply Keeps.foldl _ l hh
    intro h s hh
    split
    · rename_i hmem
      exact hI.mark _ _ _ hmem hh
    · exact hh
  -- what is stamped and not registered is adopted again
  have hfound : ∀ (l : List (Uuid × Datablock β V)), (∀ e ∈ l, w.dbs.get? e.1 = some e.2) →
      ∀ {h : Host β V δ}, I h → I (l.foldl (fun h e =>
        if e.2.stamped ∧ ¬ h.Registered e.1 then
          ((h.adopt e.1).mark e.1 .t2 w.now).note (.readopted e.1)
        else h) h) := by
    intro l
    induction l with
    | nil => exact fun _ _ hh => hh
    | cons e l ih =>
      intro hl h hh
      rw [List.foldl_cons]
      apply ih fun e' he' => hl e' (by simp [he'])
      split
      · rename_i hnew
        exact hI.readopt _ _ (hl e (by simp)) hnew.2 hh
      · exact hh
  -- what is gone from the world is forgotten
  have hgone : ∀ (l : List Uuid), (∀ u ∈ l, u ∉ w.dbs.keys) → ∀ {h : Host β V δ}, I h →
      I (l.foldl Host.forget h) := by
    intro l
    induction l with
    | nil => exact fun _ _ hh => hh
    | cons u l ih =>
      intro hl h hh
      exact ih (fun u' hu' => hl u' (by simp [hu'])) (hI.forget u (hl u (by simp)) hh)
  unfold Host.sweepDeletions
  apply hgone
  · intro u hu
    simpa using (List.mem_filter.mp hu).2
  · apply hfound _ _ (hswept _ hh)
    exact fun e he => Dict.get?_of_mem he

/-- The sweep, where it is due. -/
theorem sweeps {h : Host β V δ} (hh : I h) : I (h.sweeps w) := by
  unfold Host.sweeps
  split
  · have hlinked := hI.linkLibraries w.libraries.entries (hI.sweepDeletions hh)
    exact hI.same (hI.unlinkLibraries _ hlinked) rfl
  · exact hh

end KeepsSweep

/-! ## The drain -/

/-- The dirty set and the debouncer without what the tick takes. -/
def drained (w : World β V) (h : Host β V δ) : Host β V δ :=
  h.dirty.drain.2.1.foldl (fun h u => h.note (.drained u (w.dbs.get? u).isSome))
    { h with debounce := (h.debounce.ready w.now).1, dirty := h.dirty.drain.1 }

/-- Notes one after the other. -/
theorem foldl_note {α : Type} (f : α → Note β V δ) (l : List α) (h : Host β V δ) :
    l.foldl (fun h x => h.note (f x)) h = { h with journal := h.journal ++ l.map f } := by
  induction l generalizing h with
  | nil => simp
  | cons x l ih =>
    rw [List.foldl_cons, ih]
    simp [note]

section Drain

variable [BEq V] [DecidableEq δ] (H : Digests β V δ) {w : World β V}
  {I : Host β V δ → Prop}

/-- The flush of what was drained: the tombstones, then the entries. -/
theorem flushDirty_eq (h : Host β V δ) : ∃ h₁ : Host β V δ, h₁.core = (h.drained w).core ∧
    h.flushDirty H w =
      (h.dirty.drain.2.2.foldl (flushEntry H w (h.debounce.ready w.now).2)
        (h.dirty.drain.2.1.foldl (fun h u => (h.sendTombstone w u).1) h₁, t2PerTick)).1 := by
  refine ⟨_, ?_, rfl⟩
  unfold drained
  rw [foldl_note, foldl_note]
  rfl

/-- A property that survives the moves, the drain and what is put back survives the
    flush. -/
theorem Keeps.flushDirty (hI : Keeps w I)
    (hdrain : ∀ {h : Host β V δ}, I h → I (h.drained w))
    (hrequeue : ∀ {h : Host β V δ} u t, I h → I { h with dirty := h.dirty.requeue u t })
    (htouch : ∀ {h : Host β V δ} u, I h → I (h.touchReady u w.now)) {h : Host β V δ}
    (hh : I h) : I (h.flushDirty H w) := by
  -- the turn of an entry: it is put off, or flushed by its tier
  have hentry : ∀ (ready : List Uuid) (s : Host β V δ × Nat) (e : Uuid × Tier), I s.1 →
      I (flushEntry H w ready s e).1 := by
    intro ready s e hs
    unfold flushEntry
    dsimp only
    split
    · exact hrequeue _ _ hs
    · split
      · exact htouch _ (hrequeue _ _ hs)
      · exact hI.flushT2Or H _ _ _ hs
      · exact hI.flushT1 H _ hs
  -- the turns of all of them, by induction on the drain
  have hloop : ∀ (entries : List (Uuid × Tier)) (ready : List Uuid) (s : Host β V δ × Nat),
      I s.1 → I (entries.foldl (flushEntry H w ready) s).1 := by
    intro entries ready
    induction entries with
    | nil => exact fun s hs => hs
    | cons e entries ih => exact fun s hs => ih _ (hentry ready s e hs)
  obtain ⟨h₁, hcore, heq⟩ := flushDirty_eq H (w := w) h
  rw [heq]
  apply hloop
  apply Keeps.foldl (fun h u hh => hI.sendTombstone u hh)
  exact hI.same (hdrain hh) hcore

/-! ## The re-assert -/

/-- A property that survives the moves, the entries done with and the end survives the
    re-assert. -/
theorem Keeps.drainFastResend (hI : Keeps w I)
    (hpop : ∀ {h h' : Host β V δ} {u : Uuid} {kind : Kind} {rest : List (Uuid × Kind)},
      h.fastResendQueue = (u, kind) :: rest →
      (if kind = .tomb then h.sendTombstone w u else h.sendT1Full H w u) = (h', true) →
      I h → I h' → I ({ h' with fastResendQueue := h'.fastResendQueue.tail }.note
        (.reasserted u (decide (kind = Kind.tomb) || (h.db w u).isNone) (w.dbs.get? u).isSome
          ((h.shadow.get? u).or ((h.db w u).map Datablock.snapshot)))))
    (hend : ∀ {h : Host β V δ}, h.fastResendQueue = [] → I h →
      I { h.act .endFast with fastResendEnd := false }) {h : Host β V δ}
    (hh : I h) : I (h.drainFastResend H w) := by
  -- the entries of one tick, by induction on how many are left
  have hloop : ∀ (n : Nat) {h : Host β V δ}, I h → I (fastResendLoop H w n h) := by
    intro n
    induction n with
    | zero => exact fun hh => hh
    | succ n ih =>
      intro h hh
      unfold fastResendLoop
      split
      · exact hh
      · rename_i u kind rest hqueue
        -- an entry is a tombstone or the datablock in full
        have hsent : I (if kind = .tomb then h.sendTombstone w u else h.sendT1Full H w u).1 := by
          split
          · exact hI.sendTombstone u hh
          · exact hI.sendT1Full H u hh
        dsimp only
        split
        · -- taken: the loop goes on
          rename_i h' heq
          rw [heq] at hsent
          exact ih (hpop hqueue heq hh hsent)
        · -- refused: it stops
          rename_i h' heq
          rwa [heq] at hsent
  have hrest := hloop fastResendPerTick hh
  unfold Host.drainFastResend Host.send
  dsimp only
  split
  · -- an empty queue: its end is sent, and noted if it is taken
    rename_i hempty
    split
    · rename_i heq
      split at heq
      · obtain rfl := (Prod.mk.inj heq).1
        apply hend
        · exact hempty.1
        · exact hI.same hrest rfl
      · cases heq
    · rename_i heq
      split at heq
      · cases heq
      · obtain rfl := (Prod.mk.inj heq).1
        exact hI.same hrest rfl
  · exact hrest

end Drain

/-! ## Calls -/

/-- What a property must survive to survive the requests. -/
structure KeepsRequest (w : World β V) (I : Host β V δ → Prop) : Prop
    extends KeepsMark w I where
  window : ∀ {h : Host β V δ} (gapAt : Nat), I h → I (h.resendFastWindow gapAt)

/-- What a property must survive to survive the idle part of a tick. -/
structure KeepsIdle [BEq V] [DecidableEq δ] (H : Digests β V δ) (w : World β V)
    (I : Host β V δ → Prop) : Prop extends KeepsSweep w I where
  autoSkip : ∀ {h : Host β V δ}, I h → I ({ h with autoBootAt := none }.note .autoSkipped)
  autoBoot : ∀ {h : Host β V δ} (data : List β) (sceneDigest : Option δ), I h →
    I ({ h with autoBootAt := none }.act (.cutBoot data sceneDigest))
  flush : ∀ {h : Host β V δ}, I h → I (h.flushDirty H w)

/-- What a property must survive to survive a tick. -/
structure KeepsTick [BEq V] [DecidableEq δ] (H : Digests β V δ) (w : World β V)
    (I : Host β V δ → Prop) : Prop extends KeepsIdle H w I where
  resend : ∀ {h : Host β V δ}, I h → I (h.drainFastResend H w)

/-- What a property must survive to survive any call. -/
structure KeepsCall [BEq V] [DecidableEq δ] (H : Digests β V δ) (w : World β V)
    (I : Host β V δ → Prop) : Prop extends KeepsTick H w I, KeepsRequest w I where
  newFile : ∀ {h : Host β V δ}, I h → I (h.resetForNewFile H w)

namespace KeepsRequest

variable [BEq V] [DecidableEq δ] (H : Digests β V δ) {w : World β V}
  {I : Host β V δ → Prop} (hI : KeepsRequest w I)
include hI

omit [BEq V] [DecidableEq δ] in
/-- A bootstrap is cut and its outbox filled. -/
theorem sendBootstrap {h : Host β V δ} (hh : I h) : I (h.sendBootstrap H w) := by
  obtain ⟨data, sceneDigest, hcore⟩ := sendBootstrap_core H w h
  exact hI.same (hI.act (a := .cutBoot data sceneDigest) trivial hh) hcore

/-- A property that survives the requests survives every call that is no tick and opens
    no file. -/
theorem call {c : Call β δ} (htick : c ≠ .tick) (hfile : c ≠ .newFile) {h : Host β V δ}
    (hh : I h) : I (h.call H (w, c)) := by
  cases c with
  | tick => exact absurd rfl htick
  | depsgraph updates => exact hI.onDepsgraph updates hh
  | bootstrap => exact hI.sendBootstrap H hh
  | newFile => exact absurd rfl hfile
  | fastWindow gapAt => exact hI.window gapAt hh
  | delta plan held => exact hI.sendDelta plan held hh
  | libraries reqs => exact hI.serveLibRequests reqs hh

end KeepsRequest

namespace KeepsIdle

variable [BEq V] [DecidableEq δ] {H : Digests β V δ} {w : World β V}
  {I : Host β V δ → Prop} (hI : KeepsIdle H w I)
include hI

/-- The bootstrap that an unsupported type asked for, once its time has come. -/
private theorem autoBootTick {h : Host β V δ} (hh : I h) : I (h.autoBoot H w).1 := by
  unfold Host.autoBoot
  split
  · exact hh
  · split
    · exact hh
    · split
      · exact hI.autoSkip hh
      · split
        · obtain ⟨data, sceneDigest, hcore⟩ := sendBootstrap_core H w
            { h with autoBootAt := none, lastAutoBoot := some w.now }
          exact hI.same (hI.autoBoot data sceneDigest hh) hcore
        · exact hh

/-- A tick with no bootstrap on its way out. -/
theorem flushIdle {h : Host β V δ} (hh : I h) : I (h.flushIdle H w) := by
  have hboot := hI.autoBootTick (hI.sendManifestBatch hh)
  unfold Host.flushIdle
  dsimp only
  split
  · rename_i h' heq
    rwa [heq] at hboot
  · rename_i h' heq
    rw [heq] at hboot
    have hsweeps := hI.sweeps hboot
    split
    · exact hI.primeLoop H _ _ hsweeps
    · exact hI.flush hsweeps

/-- The tick, when the re-assert turns one property into another. -/
theorem flushTick_of {J : Host β V δ → Prop} (hJ : Keeps w J)
    (hresend : ∀ {h : Host β V δ}, J h → I (h.drainFastResend H w))
    (hof : ∀ {h : Host β V δ}, J h → I h) {h : Host β V δ} (hh : J h) : I (h.flushTick H w) := by
  have hboot := hJ.drainBoot hh
  unfold Host.flushTick
  split
  · -- each stage of the tick that is not done ends it
    rename_i h₁ heq
    rw [heq] at hboot
    exact hof hboot
  · rename_i h₁ heq
    rw [heq] at hboot
    split
    · exact hof hboot
    · -- the library files
      have hlib := hJ.drainLib hboot
      split
      · rename_i h₂ heq₂
        rw [heq₂] at hlib
        exact hof hlib
      · rename_i h₂ heq₂
        rw [heq₂] at hlib
        -- the blobs
        have hblobs := hJ.drainT2Outbox none hlib
        split
        · rename_i h₃ heq₃
          rw [heq₃] at hblobs
          exact hof hblobs
        · rename_i h₃ heq₃
          rw [heq₃] at hblobs
          -- the re-assert, if there is one
          have hresent : I (if h₃.fastResendQueue ≠ [] ∨ h₃.fastResendEnd = true then
              h₃.drainFastResend H w else h₃) := by
            split
            · exact hresend hblobs
            · exact hof hblobs
          dsimp only
          generalize (if h₃.fastResendQueue ≠ [] ∨ h₃.fastResendEnd = true then
              h₃.drainFastResend H w else h₃) = h₄ at hresent
          split
          · exact hI.drainDelta H hresent
          · exact hI.flushIdle hresent

end KeepsIdle

/-- What every part of a tick preserves, a tick preserves. -/
theorem KeepsTick.flushTick [BEq V] [DecidableEq δ] {H : Digests β V δ} {w : World β V}
    {I : Host β V δ → Prop} (hI : KeepsTick H w I) {h : Host β V δ} (hh : I h) :
    I (h.flushTick H w) :=
  hI.toKeepsIdle.flushTick_of hI.toKeeps hI.resend id hh

/-- A property that survives the moves survives every call. -/
theorem KeepsCall.call [BEq V] [DecidableEq δ] {H : Digests β V δ} {w : World β V}
    {I : Host β V δ → Prop} (hI : KeepsCall H w I) (c : Call β δ) {h : Host β V δ} (hh : I h) :
    I (h.call H (w, c)) := by
  by_cases htick : c = .tick
  · rw [htick]
    exact hI.flushTick hh
  · by_cases hfile : c = .newFile
    · rw [hfile]
      exact hI.newFile hh
    · exact hI.toKeepsRequest.call H htick hfile hh

/-! ## The ledger -/

/-- `h'` comes from `h` by steps of the ledger, which the trace records. -/
def Follows (h h' : Host β V δ) : Prop :=
  ∃ acts, h'.trace = h.trace ++ acts ∧ h'.ledger = h.ledger.run acts ∧ ∀ a ∈ acts, a.Valid

namespace Follows

variable {h h₁ h₂ : Host β V δ}

/-- Nothing was sent. -/
theorem of_eq (htrace : h₁.trace = h.trace) (hledger : h₁.ledger = h.ledger) : Follows h h₁ :=
  ⟨[], by simp [htrace], hledger, by simp⟩

/-- The state follows itself. -/
theorem refl (h : Host β V δ) : Follows h h := of_eq rfl rfl

/-- Something else changed. -/
theorem other (hh : Follows h h₁) (htrace : h₂.trace = h₁.trace)
    (hledger : h₂.ledger = h₁.ledger) : Follows h h₂ := by
  obtain ⟨acts, ht, hl, hvalid⟩ := hh
  exact ⟨acts, htrace.trans ht, hledger.trans hl, hvalid⟩

/-- One more step. -/
theorem act {a : LedgerAct β V δ} (ha : a.Valid) (hh : Follows h h₁) : Follows h (h₁.act a) := by
  obtain ⟨acts, htrace, hledger, hvalid⟩ := hh
  refine ⟨acts ++ [a], ?_, ?_, ?_⟩
  · show h₁.trace ++ [a] = h.trace ++ (acts ++ [a])
    rw [htrace, List.append_assoc]
  · show h₁.ledger.step a = h.ledger.run (acts ++ [a])
    rw [hledger, Ledger.run_append]
    rfl
  · intro x hx
    rcases List.mem_append.mp hx with hx | hx
    · exact hvalid x hx
    · obtain rfl := List.mem_singleton.mp hx
      exact ha

end Follows

section Ledger

variable [BEq V] [DecidableEq δ] (H : Digests β V δ) (w : World β V)

omit [BEq V] [DecidableEq δ] in
/-- Every move appends the steps that it takes. -/
private theorem keeps_follows (h : Host β V δ) : KeepsSweep w (Follows h) where
  same hh hcore := by
    exact hh.other (trace_of_core hcore) (ledger_of_core hcore)
  act ha hh := hh.act ha.valid
  adopt u hh := hh.other rfl rfl
  requeued u hh := hh.other rfl rfl
  tombBack u hh := hh.other rfl rfl
  wantBoot u hh := hh.other rfl rfl
  mark u t now _ hh := hh.other rfl rfl
  readopt u db _ _ hh := hh.other rfl rfl
  forget u _ hh := hh.other rfl rfl

/-- Every call only takes steps of the ledger, and records them. -/
theorem keepsCall_follows (h : Host β V δ) : KeepsCall H w (Follows h) where
  toKeepsSweep := keeps_follows w h
  autoSkip hh := hh.other rfl rfl
  autoBoot data sceneDigest hh := (hh.other rfl rfl).act trivial
  -- a drain only notes
  flush hh := (keeps_follows w h).flushDirty H
    (fun hh => by
      unfold drained
      rw [foldl_note]
      exact hh.other rfl rfl)
    (fun _ _ hh => hh.other rfl rfl) (fun _ hh => hh.other rfl rfl) hh
  -- the queue of the re-assert only sends and notes
  resend hh := (keeps_follows w h).drainFastResend H
    (fun _ _ _ hh => hh.other rfl rfl)
    (fun _ hh => (hh.act (a := .endFast) trivial).other rfl rfl) hh
  window gapAt hh := hh.other rfl rfl
  -- a new file cuts a bootstrap
  newFile {h₁} hh := by
    have hscan := initialScan_scanned w
      { h₁ with shadow := {}, debounce := {}, dirty := {}, uuidToDb := [], deadHandles := [] }
    simp only [scanned, Prod.mk.injEq] at hscan
    obtain ⟨data, sceneDigest, hcore⟩ := sendBootstrap_core H w
      ({ h₁ with
        shadow := {}, debounce := {}, dirty := {}, uuidToDb := [],
        deadHandles := [] }.initialScan w)
    exact ((hh.other hscan.2.1 hscan.1).act (a := .cutBoot data sceneDigest) trivial).other
      (trace_of_core hcore) (ledger_of_core hcore)

/-- So a session's ledger is the run of its trace. -/
private theorem run_follows (h : Host β V δ) (calls : List (World β V × Call β δ)) :
    Follows h (h.run H calls) :=
  Keeps.foldl (f := call H) (I := Follows h)
    (fun _ c hh => (keepsCall_follows H c.1 h).call c.2 hh) calls (.refl h)

/-- The ledger of a session is the run of the steps it took. -/
theorem run_ledger (c0 f0 : Nat) (calls : List (World β V × Call β δ)) :
    ((start w c0 f0).run H calls).ledger =
        (Ledger.start c0 f0).run ((start w c0 f0).run H calls).trace ∧
      ∀ a ∈ ((start w c0 f0).run H calls).trace, a.Valid := by
  have hstart := initialScan_scanned w ({ ledger := Ledger.start c0 f0 } : Host β V δ)
  simp only [scanned, Prod.mk.injEq] at hstart
  obtain ⟨acts, htrace, hledger, hvalid⟩ := run_follows H (start w c0 f0) calls
  have hall : ((start w c0 f0).run H calls).trace = acts := by
    rw [htrace, show (start w c0 f0 : Host β V δ).trace = [] from hstart.2.1, List.nil_append]
  rw [hall, hledger, show (start w c0 f0 : Host β V δ).ledger = Ledger.start c0 f0 from hstart.1]
  exact ⟨rfl, hvalid⟩

end Ledger

end Host

end QCBridge
