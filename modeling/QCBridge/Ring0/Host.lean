import QCBridge.Ring0.Ledger
import QCBridge.Ring1.DirtySet
import QCBridge.Ring1.Shadow

/-!
# The host's sync loop

`ring0/host_handlers.py`: edits mark datablocks dirty, a flush tick drains the
outboxes, repairs what the replica reported, and sends what is dirty as deltas,
blobs and tombstones.

What Blender holds is an argument of every call (`World`), and so are the clock
and the transport's answers. A datablock is its stamp. A handle of `_uuid_to_db` is
alive when the world has a datablock with that stamp, unless an undo has freed it: the
datablock is back under the same `session_uid`, and the handle stays dead until the
datablock is met again.
-/

namespace QCBridge

variable {β V δ : Type}

/-- The types that `HostSync` tells apart. -/
inductive IdKind where
  | scene
  | key
  | object
  | collection
  | other
deriving DecidableEq, Repr

/-- What the host reads of a datablock. -/
structure Datablock (β V : Type) where
  kind : IdKind := .object
  /-- It carries its stamp already. -/
  stamped : Bool := true
  /-- `_type_key(db) is not None`. -/
  tracked : Bool := true
  users : Nat := 1
  fakeUser : Bool := false
  /-- `build_snapshot(db)`. -/
  snapshot : Dict Path V
  /-- `tier2_io.serialize(db)`. -/
  blend : Option (List β)
  /-- The stamp of `db.user`, the owner of a shape key. -/
  user : Option Uuid := none

/-- `db.users > 0 or db.use_fake_user`: a full save writes it. -/
def Datablock.saved (db : Datablock β V) : Bool := 0 < db.users || db.fakeUser

/-- What a call of `HostSync` finds around it. -/
structure World (β V : Type) where
  /-- The stampable datablocks of `bpy.data`, in the order the sweeps visit them. -/
  dbs : Dict Uuid (Datablock β V)
  stamps : ∀ u ∈ dbs.keys, u ≠ mainfileUuid
  /-- The stampable datablock that the value of a pointer setter names. -/
  target : Path → V → Option Uuid := fun _ _ => none
  stamps_target : ∀ p v t, target p v = some t → t ∈ dbs.keys := by intros; contradiction
  /-- `bootstrap.serialize_mainfile()`. -/
  mainfile : List β := []
  /-- The linked libraries with users: path, objects, collections. -/
  libraries : Dict String (List String × List String) := Dict.empty
  /-- What the visibility sweep finds changed. -/
  swept : List (Uuid × Tier) := []
  /-- `bpy.context.scene`. -/
  scene : Option Uuid := none
  now : Int := 0
  paused : Bool := false
  /-- The transport's answer to the `n`-th send. -/
  accepts : Nat → Bool := fun _ => true
  /-- Whether the control lane has room for a manifest batch. -/
  manifestRoom : Bool := true

/-- The digests the host computes: of a blob with its point-cache signature, and of
    a Scene's structure. -/
structure Digests (β V δ : Type) where
  blob : List β → Option V → δ
  scene : Dict Path V → δ

/-- What the sync loop did, oldest first: a history variable that no function reads. -/
inductive Note (β V δ : Type) where
  /-- A step of the ledger. -/
  | act (a : LedgerAct β V δ)
  /-- A tier-1 message did not leave: does the debouncer hold the datablock? -/
  | givenBack (uuid : Uuid) (touched : Bool)
  /-- A tombstone was refused: is the datablock alive? -/
  | tombBack (uuid : Uuid) (alive : Bool)
  /-- The tier-2 flush of a datablock found a type without tier 2. -/
  | unsupported (uuid : Uuid)
  /-- The automatic bootstrap was dropped as covered by the last one. -/
  | autoSkipped
  /-- The drain returned a tombstone: is the datablock alive? -/
  | drained (uuid : Uuid) (alive : Bool)
  /-- The sweep found a stamped datablock that it did not know. -/
  | readopted (uuid : Uuid)
  /-- The sweep found a datablock gone. -/
  | forgotten (uuid : Uuid)
  /-- A fast window was asked for. -/
  | windowed (gapAt : Nat)
  /-- An entry of the re-assert was sent, as a tombstone or as a snapshot: is the
      datablock alive, and what is the replica believed to show of it? -/
  | reasserted (uuid : Uuid) (tombstone alive : Bool) (shown : Option (Dict Path V))
deriving DecidableEq

/-- `HostSync`. -/
structure Host (β V δ : Type) where
  ledger : Ledger β V δ := {}
  shadow : ShadowStore V := {}
  debounce : Debouncer := {}
  dirty : DirtySet := {}
  /-- The keys of `_uuid_to_db`, what the registry has adopted, but for the freed handles. -/
  uuidToDb : List Uuid := []
  /-- The keys of `_uuid_to_db` whose handles were freed. -/
  deadHandles : List Uuid := []
  shipped : List Uuid := []
  primeQueue : List Uuid := []
  manifestPending : Dict Uuid δ := Dict.empty
  fastResendQueue : List (Uuid × Kind) := []
  fastResendEnd : Bool := false
  deltaQueue : List (Uuid × Option δ) := []
  deltaTail : List Uuid := []
  deltaEndPending : Bool := false
  libState : Dict String (List String × List String) := Dict.empty
  libsServed : List String := []
  sceneDigest : Option δ := none
  burst : Bool := false
  suppressMarks : Bool := true
  dropNextBatch : Bool := false
  autoBootAt : Option Int := none
  lastAutoBoot : Option Int := none
  bootQueuedAt : Int := 0
  lastSweep : Int := 0
  /-- How many sends were tried, the ledger's steps, and what else was done: history. -/
  tries : Nat := 0
  trace : List (LedgerAct β V δ) := []
  journal : List (Note β V δ) := []

/-! ## Constants -/

/-- `_T2_PER_TICK`. -/
def t2PerTick : Nat := 2

/-- `_FAST_RESEND_PER_TICK`. -/
def fastResendPerTick : Nat := 16

/-- `_DELTA_PER_TICK`. -/
def deltaPerTick : Nat := t2PerTick * 4

/-- `_MANIFEST_BATCH`. -/
def manifestBatch : Nat := 512

/-- `_SWEEP_INTERVAL`. -/
def sweepIntervalMs : Int := 250

/-- `_AUTO_BOOT_DEBOUNCE`. -/
def autoBootDebounceMs : Int := 1000

/-- `_AUTO_BOOT_COVERED_S`. -/
def autoBootCoveredMs : Int := 10000

/-- `_AUTO_BOOT_MIN_INTERVAL`. -/
def autoBootMinIntervalMs : Int := 5000

namespace Host

/-! ## Sending -/

/-- A step of the ledger. -/
def act (h : Host β V δ) (a : LedgerAct β V δ) : Host β V δ :=
  { h with
    ledger := h.ledger.step a
    trace := h.trace ++ [a]
    journal := h.journal ++ [.act a] }

/-- Something worth remembering. -/
def note (h : Host β V δ) (n : Note β V δ) : Host β V δ := { h with journal := h.journal ++ [n] }

/-- `transport.send_cold` and `transport.send_fast`: the step is taken only when the
    transport accepts the message. -/
def send (w : World β V) (h : Host β V δ) (a : LedgerAct β V δ) : Host β V δ × Bool :=
  let ok := w.accepts h.tries
  let h := { h with tries := h.tries + 1 }
  if ok then (h.act a, true) else (h, false)

/-- A loop that sends the chunks of a blob one after the other. -/
def sendChunks (w : World β V) (a : LedgerAct β V δ) :
    List (Msg β V δ) → Host β V δ → Host β V δ × Bool
  | [], h => (h, true)
  | _ :: chunks, h =>
    match h.send w a with
    | (h, true) => sendChunks w a chunks h
    | (h, false) => (h, false)

/-- The bootstrap loop of `_flush_tick_inner`. -/
def drainBoot (w : World β V) (h : Host β V δ) : Host β V δ × Bool :=
  match h.ledger.bootOutbox with
  | none => (h, true)
  | some o => sendChunks w .sendBoot o.chunks h

/-- The library loop of `_flush_tick_inner`. -/
def drainLib (w : World β V) (h : Host β V δ) : Host β V δ × Bool :=
  sendChunks w .sendLib (h.ledger.libOutbox.flatMap Outgoing.chunks) h

/-- The loop of `_drain_t2_outbox` over the datablocks with a blob queued. -/
def drainBlobs (w : World β V) (only : Option Uuid) :
    List Uuid → Host β V δ → Host β V δ × Bool
  | [], h => (h, true)
  | uuid :: uuids, h =>
    if only.any (· ≠ uuid) then drainBlobs w only uuids h
    else
      let chunks := ((h.ledger.t2Outbox.get? uuid).map Outgoing.chunks).getD []
      match sendChunks w (.sendT2 uuid) chunks h with
      -- the last chunk has left: the replica will have the datablock
      | (h, true) => drainBlobs w only uuids { h with shipped := h.shipped.insert uuid }
      | (h, false) => (h, false)

/-- `_drain_t2_outbox`. -/
def drainT2Outbox (w : World β V) (only : Option Uuid) (h : Host β V δ) : Host β V δ × Bool :=
  drainBlobs w only h.ledger.t2Outbox.keys h

/-- `_send_tombstone`. -/
def sendTombstone (w : World β V) (h : Host β V δ) (uuid : Uuid) : Host β V δ × Bool :=
  match h.send w (.tomb uuid) with
  | (h, true) => (h, true)
  | (h, false) =>
    -- refused: it stays in the dirty set for the next tick
    ({ h with dirty := h.dirty.requeueTombstone uuid }.note
      (.tombBack uuid (w.dbs.get? uuid).isSome), false)

/-! ## Datablocks -/

/-- `_uuid_to_db.get(uuid)`, when the handle is alive. -/
def db (h : Host β V δ) (w : World β V) (uuid : Uuid) : Option (Datablock β V) :=
  if uuid ∈ h.uuidToDb then w.dbs.get? uuid else none

/-- The registry has the datablock. -/
def Registered (h : Host β V δ) (uuid : Uuid) : Prop := uuid ∈ h.uuidToDb ∨ uuid ∈ h.deadHandles

instance (h : Host β V δ) (uuid : Uuid) : Decidable (h.Registered uuid) :=
  inferInstanceAs (Decidable (_ ∨ _))

/-- If the datablock is in the file, the registry has a handle that works. -/
def Works (h : Host β V δ) (w : World β V) (uuid : Uuid) : Prop :=
  uuid ∈ w.dbs.keys → uuid ∈ h.uuidToDb

instance (h : Host β V δ) (w : World β V) (uuid : Uuid) : Decidable (h.Works w uuid) :=
  inferInstanceAs (Decidable (_ → _))

/-- `identity.ensure_uuid`, and the handle. -/
def adopt (h : Host β V δ) (uuid : Uuid) : Host β V δ :=
  { h with uuidToDb := h.uuidToDb.insert uuid, deadHandles := h.deadHandles.erase uuid }

/-- `_touch_ready`. -/
def touchReady (h : Host β V δ) (uuid : Uuid) (now : Int) : Host β V δ :=
  { h with debounce := h.debounce.touch uuid (now - debounceMs) }

/-- A datablock is marked dirty and touched. -/
def mark (h : Host β V δ) (uuid : Uuid) (tier : Tier) (touched : Int) : Host β V δ :=
  { h with dirty := h.dirty.mark uuid tier, debounce := h.debounce.touch uuid touched }

/-- A datablock that is gone: a tombstone, and nothing else is kept of it. -/
def forget (h : Host β V δ) (uuid : Uuid) : Host β V δ :=
  { h with
    dirty := h.dirty.markDeleted uuid
    debounce := h.debounce.drop uuid
    shadow := h.shadow.forget uuid
    uuidToDb := h.uuidToDb.erase uuid
    deadHandles := h.deadHandles.erase uuid }.note (.forgotten uuid)

/-- `shadow.diff_and_update`, the diff apart. -/
def observe [BEq V] (h : Host β V δ) (uuid : Uuid) (snapshot : Dict Path V) :
    Host β V δ :=
  { h with shadow := (h.shadow.diffAndUpdate uuid snapshot).1 }

/-- The point-cache signature that rides in a blob's digest. -/
def pcache (snapshot : Dict Path V) : Option V := snapshot.get? (.signature "pcache")

section Flush

variable [BEq V] [DecidableEq δ] (H : Digests β V δ) (w : World β V)

/-! ## Tier 2 -/

/-- `_flush_t2` from the serialization on. The answer is whether the type has no
    tier 2. -/
def shipBlob (h : Host β V δ) (uuid : Uuid) (db : Datablock β V)
    (snapshot : Option (Dict Path V)) : Host β V δ × Bool :=
  match db.blend with
  | none =>
    ({ h with autoBootAt := some (w.now + autoBootDebounceMs) }.note (.unsupported uuid), true)
  | some data =>
    let snapshot := snapshot.getD db.snapshot
    let h := h.observe uuid snapshot
    let digest := H.blob data (pcache snapshot)
    -- the replica already holds exactly this
    if uuid ∈ h.shipped ∧ h.ledger.blobHash.get? uuid = some digest then
      (h.act (.skip uuid data digest), false)
    else
      -- the blob itself tells the replica
      let h := { h with manifestPending := h.manifestPending.erase uuid }
      let h := h.act (.cutT2 uuid data digest h.burst)
      ((h.drainT2Outbox w (some uuid)).1, false)

/-- `_flush_t2`, the fallback apart. A shape key travels with its owner, which is
    never a shape key. -/
def flushT2 (h : Host β V δ) (uuid : Uuid) (snapshot : Option (Dict Path V)) :
    Host β V δ × Bool :=
  match h.db w uuid with
  | none => (h, false)
  | some db =>
    -- a shape key: its owner's blob carries it
    if db.kind = .key then
      let h := h.observe uuid (snapshot.getD db.snapshot)
      match db.user with
      | none => (h, false)
      | some owner =>
        let h := h.adopt owner
        if owner = uuid then (h, false)
        else match h.db w owner with
          | none => (h, false)
          | some ownerDb => ((h.shipBlob H w owner ownerDb none).1, false)
    else h.shipBlob H w uuid db snapshot

/-! ## Tier 1 -/

/-- The loop of `_send_t1` over the changes: a pointer's target the replica does not
    hold is shipped first. `none` says that a target's blob has not left yet. -/
def settleTargets : List (Path × V) → Host β V δ → List Uuid → Host β V δ × Option (List Uuid)
  | [], h, targets => (h, some targets)
  | (path, value) :: changes, h, targets =>
    match w.target path value with
    | none => settleTargets changes h targets
    | some t =>
      let h := h.adopt t
      let h := if t ∈ h.shipped then h else (h.flushT2 H w t none).1
      -- the target's blob is still in the outbox, so the pointer must wait
      if (h.ledger.t2Outbox.get? t).isSome then (h, none)
      else settleTargets changes h (targets ++ [t])

/-- A tier-1 message that did not leave: the datablock is dirty again, and the shadow
    is what it was before the diff. -/
def giveBack (h : Host β V δ) (uuid : Uuid) (old : Option (Dict Path V)) : Host β V δ :=
  let h := { h with dirty := h.dirty.requeue uuid .t1 }.note
    (.givenBack uuid (h.debounce.touched.get? uuid).isSome)
  match old with
  -- a caller that did not diff has nothing to put back
  | none => h
  | some old => { h with shadow := h.shadow.restore uuid (some old) }

/-- The changes with the `"@"` setters first. -/
def settersFirst (changes : List (Path × V)) : List (Path × V) :=
  changes.filter (fun c => c.1.isSetter) ++ changes.filter (fun c => !c.1.isSetter)

/-- `header["sd"]`. -/
def sd (h : Host β V δ) (uuid : Uuid) : Option δ :=
  match h.db w uuid with
  | some db => if db.kind = .scene then h.sceneDigest else none
  | none => none

/-- `_send_t1`. The seq to follow is read when the targets have all left, which is
    what the running maximum of the loop comes to: a target's own seq moves only
    when the loop ships it. -/
def sendT1 (h : Host β V δ) (uuid : Uuid) (changes : List (Path × V))
    (old : Option (Dict Path V)) (full : Bool) : Host β V δ × Bool :=
  if changes = [] then (h, true)
  else
    let changes := settersFirst changes
    -- targets first: a pointer to what the replica does not have would be lost
    match settleTargets H w changes h [] with
    | (h, none) => (h.giveBack uuid old, false)
    | (h, some targets) =>
      match h.send w (.t1 uuid changes targets full (h.sd w uuid)) with
      | (h, true) => (h, true)
      | (h, false) => (h.giveBack uuid old, false)

/-- `_flush_t2` with its fallback. -/
def flushT2Or (h : Host β V δ) (uuid : Uuid) (snapshot : Option (Dict Path V))
    (fallback : List (Path × V)) : Host β V δ :=
  match h.flushT2 H w uuid snapshot with
  | (h, true) => (h.sendT1 H w uuid fallback none false).1
  | (h, false) => h

/-- `_flush_t1`. -/
def flushT1 (h : Host β V δ) (uuid : Uuid) : Host β V δ :=
  match h.db w uuid with
  | none => h
  | some db =>
    let old := h.shadow.get? uuid
    let h := if db.kind = .scene then { h with sceneDigest := some (H.scene db.snapshot) } else h
    let diff := (h.shadow.diffAndUpdate uuid db.snapshot).2
    let h := h.observe uuid db.snapshot
    match diff with
    -- never seen before: the whole datablock goes, unless the file does not save it
    | none => if db.saved then h.flushT2Or H w uuid (some db.snapshot) [] else h
    | some diff =>
      -- a signature changed, which tier 1 cannot carry
      if diff.structural then h.flushT2Or H w uuid (some db.snapshot) diff.changes
      else (h.sendT1 H w uuid diff.changes old false).1

/-! ## Repairs -/

/-- The values of a snapshot that tier 1 can carry. -/
def sendable (snapshot : Dict Path V) : List (Path × V) :=
  snapshot.entries.filter fun c => !c.1.isSignature

/-- `_send_t1_full`. -/
def sendT1Full (h : Host β V δ) (uuid : Uuid) : Host β V δ × Bool :=
  match h.db w uuid with
  -- gone since: the replica is told so
  | none => h.sendTombstone w uuid
  | some db =>
    match h.shadow.get? uuid with
    | some shadow => h.sendT1 H w uuid (sendable shadow) none true
    -- no shadow yet: the state as it is now becomes the shadow
    | none => (h.observe uuid db.snapshot).sendT1 H w uuid (sendable db.snapshot) none true

/-- `_resend_t2`. -/
def resendT2 (h : Host β V δ) (uuid : Uuid) (expect : Option δ) : Host β V δ × Bool :=
  match h.db w uuid with
  | none => h.sendTombstone w uuid
  | some db =>
    match db.blend with
    | none => (h, true)
    | some data =>
      let digest := H.blob data (pcache db.snapshot)
      -- the replica has these bytes
      if expect = some digest then (h.act (.record uuid data digest), true)
      else
        let h := h.act (.cutT2 uuid data digest false)
        ((h.drainT2Outbox w (some uuid)).1, true)

/-- The loop of `_drain_fast_resend`. -/
def fastResendLoop : Nat → Host β V δ → Host β V δ
  | 0, h => h
  | n + 1, h =>
    match h.fastResendQueue with
    | [] => h
    | (uuid, kind) :: _ =>
      let gone := kind = .tomb || (h.db w uuid).isNone
      let shown := (h.shadow.get? uuid).or ((h.db w uuid).map Datablock.snapshot)
      let sent := if kind = .tomb then h.sendTombstone w uuid else h.sendT1Full H w uuid
      match sent with
      | (h, true) =>
        fastResendLoop n ({ h with fastResendQueue := h.fastResendQueue.tail }.note
          (.reasserted uuid gone (w.dbs.get? uuid).isSome shown))
      -- backpressure: the entry stays at the head
      | (h, false) => h

/-- `_drain_fast_resend`. -/
def drainFastResend (h : Host β V δ) : Host β V δ :=
  let h := fastResendLoop H w fastResendPerTick h
  -- the end goes once every entry has left
  if h.fastResendQueue = [] ∧ h.fastResendEnd then
    match h.send w .endFast with
    | (h, true) => { h with fastResendEnd := false }
    | (h, false) => h
  else h

/-- The blobs of `_drain_delta`: `none` on backpressure, else the budget left. -/
def deltaBlobs : Nat → Host β V δ → Host β V δ × Option Nat
  | 0, h => (h, some 0)
  | n + 1, h =>
    match h.deltaQueue with
    | [] => (h, some (n + 1))
    | (uuid, expect) :: _ =>
      match h.resendT2 H w uuid expect with
      | (h, true) => deltaBlobs n { h with deltaQueue := h.deltaQueue.tail }
      | (h, false) => (h, none)

/-- The re-asserts of `_drain_delta`: whether none was refused. -/
def deltaReasserts : Nat → Host β V δ → Host β V δ × Bool
  | 0, h => (h, true)
  | n + 1, h =>
    match h.deltaTail with
    | [] => (h, true)
    | uuid :: _ =>
      match h.sendT1Full H w uuid with
      | (h, true) => deltaReasserts n { h with deltaTail := h.deltaTail.tail }
      | (h, false) => (h, false)

/-- The end of `_drain_delta`. -/
def deltaEnd (h : Host β V δ) : Host β V δ :=
  if h.deltaTail = [] ∧ h.deltaEndPending then
    match h.send w .endCold with
    | (h, true) => { h with deltaEndPending := false }
    | (h, false) => h
  else h

/-- `_drain_delta`. -/
def drainDelta (h : Host β V δ) : Host β V δ :=
  match h.drainT2Outbox w none with
  | (h, false) => h
  | (h, true) =>
    match deltaBlobs H w deltaPerTick h with
    | (h, none) => h
    | (h, some n) =>
      -- the tail goes after the blobs, and the end after both
      if h.deltaQueue = [] then
        match deltaReasserts H w n h with
        | (h, false) => h
        | (h, true) => h.deltaEnd w
      else h

/-! ## Idle work -/

/-- One datablock of `_prime_hashes`: whether it counts against the tick's budget. -/
def primeOne (h : Host β V δ) (uuid : Uuid) : Host β V δ × Bool :=
  if (h.ledger.blobHash.get? uuid).isSome then (h, false)
  else
    match h.db w uuid with
    -- no tier 2: nothing to digest
    | none => (h, false)
    | some db =>
      match db.blend with
      | none => (h, false)
      | some data =>
        let digest := H.blob data (pcache db.snapshot)
        let h := h.act (.record uuid data digest)
        ({ h with manifestPending := h.manifestPending.insert uuid digest }, true)

/-- The loop of `_prime_hashes`, which takes the queue from its end. -/
def primeLoop : List Uuid → Nat → Host β V δ → Host β V δ
  | [], _, h => { h with primeQueue := [] }
  | uuid :: uuids, n, h =>
    if n < t2PerTick then
      let (h, counts) := h.primeOne H w uuid
      primeLoop uuids (if counts then n + 1 else n) h
    else { h with primeQueue := (uuid :: uuids).reverse }

/-- `_prime_hashes`. -/
def primeHashes (h : Host β V δ) : Host β V δ := primeLoop H w h.primeQueue.reverse 0 h

omit [BEq V] [DecidableEq δ] in
/-- `_send_manifest_batch`. -/
def sendManifestBatch (h : Host β V δ) : Host β V δ :=
  if w.manifestRoom then
    { h with manifestPending :=
        (h.manifestPending.keys.take manifestBatch).foldl Dict.erase h.manifestPending }
  else h

/-! ## Sweeps -/

/-- `_sweep_deletions`. -/
def sweepDeletions (h : Host β V δ) : Host β V δ :=
  let h := w.swept.foldl (fun h s =>
    if h.Registered s.1 then h.mark s.1 s.2 (w.now - debounceMs) else h) h
  -- stamped but unknown: undo brought it back
  let h := w.dbs.entries.foldl (fun h e =>
    if e.2.stamped ∧ ¬ h.Registered e.1 then
      ((h.adopt e.1).mark e.1 .t2 w.now).note (.readopted e.1)
    else h) h
  ((h.uuidToDb ++ h.deadHandles).filter (· ∉ w.dbs.keys)).foldl forget h

/-- The new and changed libraries of `_sweep_libraries`. -/
def linkLibraries : List (String × List String × List String) → Host β V δ → Host β V δ
  | [], h => h
  | (path, used) :: libs, h =>
    if h.libState.get? path = some used then linkLibraries libs h
    else
      match h.send w (.sendCold .link path) with
      | (h, true) => linkLibraries libs { h with libState := h.libState.insert path used }
      -- refused: `_lib_state` keeps the old entry, and the next sweep tries again
      | (h, false) => linkLibraries libs h

/-- The libraries gone of `_sweep_libraries`. -/
def unlinkLibraries : List String → Host β V δ → Host β V δ
  | [], h => h
  | path :: paths, h =>
    if path ∈ w.libraries.keys then unlinkLibraries paths h
    else
      match h.send w (.sendCold .unlink path) with
      | (h, true) => unlinkLibraries paths { h with libState := h.libState.erase path }
      | (h, false) => unlinkLibraries paths h

/-- `_sweep_libraries`. -/
def sweepLibraries (h : Host β V δ) : Host β V δ :=
  let h := linkLibraries w w.libraries.entries h
  unlinkLibraries w h.libState.keys h

/-! ## Bootstraps -/

/-- The datablocks a full save writes. -/
def savedDbs (h : Host β V δ) : List Uuid :=
  h.uuidToDb.filter fun u => (w.dbs.get? u).any Datablock.saved

/-- `scene_digest_now`. -/
def sceneDigestNow (h : Host β V δ) : Host β V δ :=
  match w.scene.bind w.dbs.get? with
  | some db => { h with sceneDigest := some (H.scene db.snapshot) }
  | none => h

/-- `send_bootstrap`. -/
def sendBootstrap (h : Host β V δ) : Host β V δ :=
  let h := h.sceneDigestNow H w
  let h := h.act (.cutBoot w.mainfile (w.scene.bind fun _ => h.sceneDigest))
  -- the file has everything: what was queued before is dropped
  { h with
    bootQueuedAt := w.now
    manifestPending := Dict.empty
    deltaQueue := []
    deltaTail := []
    deltaEndPending := false
    shipped := h.savedDbs w
    libState := w.libraries
    primeQueue := (h.savedDbs w).filter fun u => (w.dbs.get? u).any fun db =>
      db.kind ≠ .scene && db.kind ≠ .key && db.blend.isSome
    suppressMarks := false }

/-- `_initial_scan`. -/
def initialScan (h : Host β V δ) : Host β V δ :=
  w.dbs.entries.foldl (fun h e =>
    let h := h.adopt e.1
    let h := { h with dirty := h.dirty.assumeKnown e.1 }
    if e.2.saved ∧ e.2.tracked then h.observe e.1 e.2.snapshot else h) h

/-- `reset_for_new_file`. The bootstrap queued before is superseded by the new one. -/
def resetForNewFile (h : Host β V δ) : Host β V δ :=
  let h := { h with shadow := {}, debounce := {}, dirty := {}, uuidToDb := [], deadHandles := [] }
  let h := h.initialScan w
  -- the one batch that follows the load is covered by the bootstrap
  { h.sendBootstrap H w with dropNextBatch := true }

/-! ## Requests -/

omit [BEq V] [DecidableEq δ] in
/-- `resend_fast_window`. -/
def resendFastWindow (h : Host β V δ) (gapAt : Nat) : Host β V δ :=
  { h with
    fastResendQueue := h.fastResendQueue ++ h.ledger.fastlog.windowSince gapAt
    fastResendEnd := true }.note (.windowed gapAt)

omit [BEq V] [DecidableEq δ] in
/-- `send_delta`, given what the replica said it holds. -/
def sendDelta (h : Host β V δ) (plan : DeltaPlan) (held : Dict Uuid δ) : Host β V δ :=
  let h := plan.tombs.foldl (fun h u => (h.sendTombstone w u).1) h
  let scenes := h.uuidToDb.filter fun u => (w.dbs.get? u).any fun db => db.kind = .scene
  { h with
    deltaQueue := plan.resend.map (fun u => (u, held.get? u)) ++
      plan.verify.map (fun u => (u, held.get? u))
    deltaTail := (if plan.sceneT1 then scenes else []) ++ plan.atState.filter (· ∉ scenes)
    deltaEndPending := true }

/-- `serve_lib_requests`: a readable library comes with its bytes. -/
def serveLibRequests : List (String × Option (List β)) → Host β V δ → Host β V δ
  | [], h => h
  | (path, data) :: reqs, h =>
    -- a library is served once
    if path = "" ∨ path ∈ h.libsServed then serveLibRequests reqs h
    else
      match data with
      | some data =>
        serveLibRequests reqs { h.act (.cutLib path data) with
          libsServed := path :: h.libsServed }
      -- no file: the replica is told, and asks no more
      | none =>
        match h.send w (.sendCold .libMissing path) with
        | (h, true) => serveLibRequests reqs { h with libsServed := path :: h.libsServed }
        | (h, false) => serveLibRequests reqs h

/-- One update of a depsgraph batch. -/
structure Update where
  uuid : Uuid
  /-- A mesh that only its material changed. -/
  shadingOnly : Bool := false
  /-- A bake came or went. -/
  baked : Bool := false

omit [BEq V] [DecidableEq δ] in
/-- One update of `on_depsgraph`. -/
def noteUpdate (h : Host β V δ) (u : Update) : Host β V δ :=
  match w.dbs.get? u.uuid with
  | none => h
  | some db =>
    if u.shadingOnly then h
    else (h.adopt u.uuid).mark u.uuid (if db.tracked && !u.baked then .t1 else .t2) w.now

omit [BEq V] [DecidableEq δ] in
/-- `on_depsgraph`. -/
def onDepsgraph (h : Host β V δ) (updates : List Update) : Host β V δ :=
  if h.dropNextBatch then { h with dropNextBatch := false }
  else if h.suppressMarks then h
  else updates.foldl (noteUpdate w) h

/-! ## The tick -/

/-- One entry of the flush loop, with the blobs the tick may still serialize. -/
def flushEntry (ready : List Uuid) (s : Host β V δ × Nat) (e : Uuid × Tier) :
    Host β V δ × Nat :=
  let (h, budget) := s
  let (uuid, tier) := e
  -- still being edited
  if uuid ∉ ready then ({ h with dirty := h.dirty.requeue uuid tier }, budget)
  else
    match tier, budget with
    -- the tick's blobs are used up: ready again at the next one
    | .t2, 0 => ({ h with dirty := h.dirty.requeue uuid .t2 }.touchReady uuid w.now, 0)
    | .t2, budget + 1 => (h.flushT2Or H w uuid none [], budget)
    | .t1, budget => (h.flushT1 H w uuid, budget)

/-- The drain of the dirty set: tombstones first. -/
def flushDirty (h : Host β V δ) : Host β V δ :=
  let (debounce, ready) := h.debounce.ready w.now
  let (dirty, tombs, entries) := h.dirty.drain
  let blobs := entries.countP fun e => e.2 = .t2 && e.1 ∈ ready
  let h := { h with debounce := debounce, dirty := dirty, burst := t2PerTick < blobs }
  let h := tombs.foldl (fun h u => h.note (.drained u (w.dbs.get? u).isSome)) h
  let h := tombs.foldl (fun h u => (h.sendTombstone w u).1) h
  (entries.foldl (flushEntry H w ready) (h, t2PerTick)).1

/-- The automatic bootstrap: whether one was queued. -/
def autoBoot (h : Host β V δ) : Host β V δ × Bool :=
  match h.autoBootAt with
  | none => (h, false)
  | some t =>
    if w.now < t then (h, false)
    -- the last bootstrap is young enough to hold what asked for this one
    else if w.now - h.bootQueuedAt < autoBootCoveredMs then
      ({ h with autoBootAt := none }.note .autoSkipped, false)
    else if h.lastAutoBoot.all fun last => autoBootMinIntervalMs ≤ w.now - last then
      (sendBootstrap H w { h with autoBootAt := none, lastAutoBoot := some w.now }, true)
    else (h, false)

/-- The sweeps, when they are due. -/
def sweeps (h : Host β V δ) : Host β V δ :=
  if sweepIntervalMs ≤ w.now - h.lastSweep then
    { (h.sweepDeletions w).sweepLibraries w with lastSweep := w.now }
  else h

/-- What a tick does once the outboxes are empty and no repair is under way. -/
def flushIdle (h : Host β V δ) : Host β V δ :=
  let h := h.sendManifestBatch w
  match h.autoBoot H w with
  | (h, true) => h
  | (h, false) =>
    let h := h.sweeps w
    -- digests are only computed when nothing waits to be sent
    if w.paused ∨ h.dirty.isEmpty then h.primeHashes H w else h.flushDirty H w

/-- `_flush_tick_inner`. -/
def flushTick (h : Host β V δ) : Host β V δ :=
  match h.drainBoot w with
  | (h, false) => h
  | (h, true) =>
    -- no bootstrap yet, so nothing the replica could apply to
    if h.suppressMarks then h
    else
      match h.drainLib w with
      | (h, false) => h
      | (h, true) =>
        match h.drainT2Outbox w none with
        | (h, false) => h
        | (h, true) =>
          let h := if h.fastResendQueue ≠ [] ∨ h.fastResendEnd then h.drainFastResend H w else h
          if h.deltaQueue ≠ [] ∨ h.deltaTail ≠ [] ∨ h.deltaEndPending then h.drainDelta H w
          else h.flushIdle H w

/-! ## Sessions -/

/-- What can happen to `HostSync`. -/
inductive Call (β δ : Type) where
  | tick
  | depsgraph (updates : List Update)
  | bootstrap
  | newFile
  | fastWindow (gapAt : Nat)
  | delta (plan : DeltaPlan) (held : Dict Uuid δ)
  | libraries (reqs : List (String × Option (List β)))

/-- One call, in the world it finds. -/
def call (H : Digests β V δ) (h : Host β V δ) (c : World β V × Call β δ) : Host β V δ :=
  match c.2 with
  | .tick => h.flushTick H c.1
  | .depsgraph updates => h.onDepsgraph c.1 updates
  | .bootstrap => h.sendBootstrap H c.1
  | .newFile => h.resetForNewFile H c.1
  | .fastWindow gapAt => h.resendFastWindow gapAt
  | .delta plan held => h.sendDelta c.1 plan held
  | .libraries reqs => serveLibRequests c.1 reqs h

/-- `HostSync.__init__`, when the lanes stand at `c0` and `f0`. -/
def start (w : World β V) (c0 f0 : Nat) : Host β V δ :=
  initialScan w { ledger := Ledger.start c0 f0 }

/-- A session of calls. -/
def run (H : Digests β V δ) (h : Host β V δ) (calls : List (World β V × Call β δ)) : Host β V δ :=
  calls.foldl (call H) h

omit [BEq V] [DecidableEq δ] in
/-- An undo frees handles. -/
def lose (h : Host β V δ) (freed : List Uuid) : Host β V δ :=
  { h with
    uuidToDb := h.uuidToDb.filter (· ∉ freed)
    deadHandles := h.deadHandles ++ h.uuidToDb.filter (· ∈ freed) }

/-- A call, after an undo that frees handles, if any. -/
def callAfter (H : Digests β V δ) (h : Host β V δ) (c : List Uuid × World β V × Call β δ) :
    Host β V δ :=
  (h.lose c.1).call H c.2

/-- A session of calls with undos between them. -/
def runAfter (H : Digests β V δ) (h : Host β V δ)
    (calls : List (List Uuid × World β V × Call β δ)) : Host β V δ :=
  calls.foldl (callAfter H) h

end Flush

end Host

end QCBridge
