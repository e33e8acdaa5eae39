import QCBridge.Ring1.Merge

/-!
# The replica's apply loop

`ring0/replica_apply.py`: messages are taken from the two inboxes one at a time,
observed by their lane's tracker, parked or dispatched; a completed blob waits in
`_pending_blobs` until the next batch applies it.

What Blender does is a parameter (`Blender`): the scene `S` is whatever it keeps,
and each operation that Python wraps in `try` may fail. The clock only decides
how many blobs a batch takes and how many messages a tick handles, so both are
arguments.
-/

namespace QCBridge

/-- The Blender operations the apply loop calls. `none` is a raised exception. -/
structure Blender (β V δ S : Type) where
  /-- `_resolve(uuid) is not None`. -/
  resolves : S → Uuid → Bool
  /-- `_write_rna` on the datablock that `uuid` resolves to. -/
  writeRna : S → Uuid → Path → V → Option S
  /-- `bpy.data.batch_remove` of the datablock that `uuid` resolves to. -/
  remove : S → Uuid → Option S
  /-- `tier2_io.apply_blob`: the scene after it and the errors it counted. -/
  applyBlob : S → List β → Option (S × Nat)
  /-- `bpy.ops.wm.open_mainfile`, and the errors of localizing the new file. -/
  openMainfile : S → List β → Option (S × Nat)
  /-- `_apply_link` ("link" and "unlink"). -/
  applyLink : S → Header δ → S
  /-- `_apply_libfile`. -/
  applyLibfile : S → Header δ → List β → S

/-- The part of `stats` that describes the sync state. -/
structure Stats (δ : Type) where
  seq : Nat := 0
  seqFast : Nat := 0
  gaps : Nat := 0
  parked : Nat := 0
  appliedT1 : Nat := 0
  appliedT2 : Nat := 0
  applyErrors : Nat := 0
  unknownUuid : Nat := 0
  bootstraps : Nat := 0
  resyncs : Nat := 0
  batches : Nat := 0
  hostEnded : Bool := false
  wantResync : Bool := false
  coldApplied : Nat := 0
  fastApplied : Nat := 0
  fastGapAt : Option Nat := none
  gapLane : GapLane := .none
  sceneDigest : Option δ := none
deriving DecidableEq

/-- What the replica holds and says about it: the scene and the module state
    that is not about message order. -/
structure ReplicaData (V δ S : Type) where
  scene : S
  atState : Dict Uuid (Dict Path V) := Dict.empty
  held : Dict Uuid δ := Dict.empty
  bootGen : Option Nat := none
  unknownGap : Bool := false
  stats : Stats δ := {}

/-- An entry of `_pending_blobs`: a completed blob, with the cold seq of the
    chunk that completed it. -/
structure Pending (β δ : Type) where
  header : Header δ
  blob : List β
  seq : Option Nat
deriving DecidableEq

/-- `header.get("kind") == "boot"`. -/
def Pending.isBoot {β δ : Type} (e : Pending β δ) : Bool := e.header.kind = .boot

/-- What the apply loop did, oldest first: a history variable that no function
    reads. -/
inductive Ev (β V δ : Type) where
  /-- Taken from its inbox and observed. -/
  | seen (m : Msg β V δ)
  /-- Handed to `_dispatch`. -/
  | dispatched (m : Msg β V δ)
  /-- Taken out of `_pending_blobs` and handed to `_apply_one`. -/
  | applied (e : Pending β δ)
  /-- A repair's end was processed: is a hole or `want_resync` still reported? -/
  | ended (h : Header δ) (reported : Bool)
deriving DecidableEq

/-- The apply loop's state. -/
structure Replica (β V δ S : Type) where
  merger : LaneMerger β V δ := {}
  inbox : List (Msg β V δ) := []
  inboxFast : List (Msg β V δ) := []
  blobByUuid : Dict Uuid BlobId := Dict.empty
  reassembler : Reassembler β δ := {}
  pending : List (Pending β δ) := []
  data : ReplicaData V δ S
  log : List (Ev β V δ) := []

namespace Replica

variable {β V δ S : Type}

/-- `_refresh_gap_stats`. -/
def refreshGapStats (g : LaneMerger β V δ) (d : ReplicaData V δ S) : ReplicaData V δ S :=
  { d with stats := { d.stats with
      coldApplied := g.coldApplied
      fastApplied := g.fastApplied
      fastGapAt := g.fast.firstMissing
      gapLane := if d.unknownGap && g.gapLane = .none then .unknown else g.gapLane } }

/-- Whether the status the pong carries asks the host for a repair. -/
def reports (d : ReplicaData V δ S) : Bool :=
  d.stats.wantResync || d.stats.gapLane ≠ .none

/-! ## Tier 1, tombstones, repair ends -/

/-- One property write of `_apply_t1`. An `"@"` value that was written is kept,
    to be put back after a blob replaces the datablock. -/
def writeChange (B : Blender β V δ S) (uuid : Uuid) (d : ReplicaData V δ S) (c : Path × V) :
    ReplicaData V δ S :=
  match B.writeRna d.scene uuid c.1 c.2 with
  | some s =>
    { d with
      scene := s
      stats := { d.stats with appliedT1 := d.stats.appliedT1 + 1 }
      atState :=
        -- a setter path
        if c.1.isSetter then
          d.atState.insert uuid ((d.atState.getD uuid Dict.empty).insert c.1 c.2)
        else d.atState }
  -- a path that is not there counts as an error
  | none => { d with stats := { d.stats with applyErrors := d.stats.applyErrors + 1 } }

/-- `_apply_t1`. -/
def applyT1 (B : Blender β V δ S) (g : LaneMerger β V δ) (d : ReplicaData V δ S)
    (m : Msg β V δ) : ReplicaData V δ S :=
  if B.resolves d.scene m.header.uuid then
    let d := match m.header.sd with
      | some sd => { d with stats := { d.stats with sceneDigest := some sd } }
      | none => d
    m.changes.foldl (writeChange B m.header.uuid) d
  else
    -- an edit to what is not here: something was missed
    refreshGapStats g { d with
      unknownGap := true
      stats := { d.stats with unknownUuid := d.stats.unknownUuid + 1, wantResync := true } }

/-- `_apply_tombstone`. A datablock that is not here leaves even its inventory
    entry alone. -/
def applyTombstone (B : Blender β V δ S) (d : ReplicaData V δ S) (uuid : Uuid) :
    ReplicaData V δ S :=
  if B.resolves d.scene uuid then
    let d := match B.remove d.scene uuid with
      | some s => { d with scene := s }
      -- `remove` raised; the inventory forgets it all the same
      | none => { d with stats := { d.stats with applyErrors := d.stats.applyErrors + 1 } }
    { d with held := d.held.erase uuid }
  else d

/-- `_end_resync`: a repair that was not a bootstrap is complete. -/
def endResync (r : Replica β V δ S) (m : Msg β V δ) : Replica β V δ S :=
  let g := if m.header.lane = .fast then r.merger.clearFastGap else r.merger.clearColdGap
  let d := { r.data with
    unknownGap := if m.header.lane = .fast then r.data.unknownGap else false
    stats := { r.data.stats with resyncs := r.data.stats.resyncs + 1 } }
  let d := refreshGapStats g d
  -- a gap on the other lane still asks
  let d := { d with stats := { d.stats with wantResync := d.stats.gapLane ≠ .none } }
  { r with merger := g, data := d, log := r.log ++ [Ev.ended m.header (reports d)] }

/-- `_dispatch` of a fast-lane message. -/
def dispatchFast (B : Blender β V δ S) (r : Replica β V δ S) (m : Msg β V δ) :
    Replica β V δ S :=
  let r := { r with log := r.log ++ [Ev.dispatched m] }
  let r := match m.header.kind with
    | .t1 => { r with data := applyT1 B r.merger r.data m }
    | .tomb => { r with data := applyTombstone B r.data m.header.uuid }
    | .resyncEnd => endResync r m
    -- no other kind is sent on the fast lane
    | _ => r
  let g := r.merger.fastDone m.header.seq
  { r with merger := g, data := refreshGapStats g r.data }

/-- `_release`: parked messages whose blob has now applied. Only fast-lane
    messages are ever parked, so `_dispatch` takes its fast branch on each. -/
def release (B : Blender β V δ S) (items : List (Msg β V δ)) (r : Replica β V δ S) :
    Replica β V δ S :=
  let r := items.foldl (dispatchFast B) r
  { r with data := { r.data with stats := { r.data.stats with parked := r.merger.parked.length } } }

/-- `_release(_merger.cold_done(seq))`. -/
def coldDone (B : Blender β V δ S) (r : Replica β V δ S) (seq : Option Nat) : Replica β V δ S :=
  release B (r.merger.due seq) { r with merger := r.merger.coldDone seq }

/-! ## Applying completed blobs -/

/-- One write of `_reapply_at_state`. -/
def putBack (B : Blender β V δ S) (uuid : Uuid) (d : ReplicaData V δ S) (c : Path × V) :
    ReplicaData V δ S :=
  match B.writeRna d.scene uuid c.1 c.2 with
  | some s => { d with scene := s }
  | none => { d with stats := { d.stats with applyErrors := d.stats.applyErrors + 1 } }

/-- `_reapply_at_state`: put back the `"@"` values after a blob replaced the
    datablock. -/
def reapplyAtState (B : Blender β V δ S) (d : ReplicaData V δ S) (uuid : Uuid) :
    ReplicaData V δ S :=
  match d.atState.get? uuid with
  | none => d
  | some saved =>
    -- the blob may not have brought the datablock
    if B.resolves d.scene uuid then saved.entries.foldl (putBack B uuid) d else d

/-- `_apply_one` of a bootstrap. `apply_mainfile` swallows the exception of
    `open_mainfile` and returns one error; the caller goes on either way. -/
def applyBoot (B : Blender β V δ S) (r : Replica β V δ S) (e : Pending β δ) : Replica β V δ S :=
  let opened := (B.openMainfile r.data.scene e.blob).getD (r.data.scene, 1)
  let g := r.merger.clearColdGap.clearFastGap
  let d := { r.data with
    scene := opened.1
    unknownGap := false
    stats := { r.data.stats with
      bootstraps := r.data.stats.bootstraps + 1
      applyErrors := r.data.stats.applyErrors + opened.2
      hostEnded := false
      wantResync := false } }
  -- the statistics are refreshed before the rest of the state is reset
  let d := refreshGapStats g d
  let d := { d with
    atState := Dict.empty
    held := Dict.empty
    stats := { d.stats with sceneDigest := e.header.sceneDigest }
    bootGen := e.header.bootNumber }
  { r with merger := g, data := d, log := r.log ++ [Ev.ended e.header (reports d)] }

/-- `_apply_one`, and the uuid whose `"@"` state the batch must put back. `none`
    is a raised exception. -/
def applyOne (B : Blender β V δ S) (r : Replica β V δ S) (e : Pending β δ) :
    Option (Replica β V δ S × List Uuid) :=
  -- a bootstrap replaces everything, and says so itself
  if e.isBoot then some (applyBoot B r e, [])
  else
    match B.applyBlob r.data.scene e.blob with
    | none => none
    | some (s, errors) =>
      let d := { r.data with
        scene := s
        stats := { r.data.stats with
          appliedT2 := r.data.stats.appliedT2 + 1
          applyErrors := r.data.stats.applyErrors + errors }
        -- the digest goes into the inventory, if the blob has one
        held := match e.header.digest with
          | some digest => r.data.held.insert e.header.uuid digest
          | none => r.data.held }
      some ({ r with data := d }, if e.header.uuid = "" then [] else [e.header.uuid])

/-- The body of the batch loop for one blob: apply it, count a failure, and let
    `cold_done` hand back the messages parked behind it. -/
def applyNext (B : Blender β V δ S) (r : Replica β V δ S) (e : Pending β δ)
    (rest : List (Pending β δ)) : Replica β V δ S × List Uuid × List (Msg β V δ) :=
  let r := { r with pending := rest, log := r.log ++ [Ev.applied e] }
  let (r, reapply) := match applyOne B r e with
    | some (r, reapply) => (r, reapply)
    | none =>
      -- an exception: counted, and the seq is done all the same
      ({ r with data := { r.data with
          stats := { r.data.stats with applyErrors := r.data.stats.applyErrors + 1 } } }, [])
  ({ r with merger := r.merger.coldDone e.seq }, reapply, r.merger.due e.seq)

/-- The loop of `_apply_pending_batch` over the waiting blobs. `budget` is how
    many the clock allows; the first one always goes, and a bootstrap goes alone. -/
def batchLoop (B : Blender β V δ S) (budget : Nat) :
    List (Pending β δ) → Nat → Replica β V δ S → List Uuid → List (Msg β V δ) →
      Replica β V δ S × List Uuid × List (Msg β V δ)
  | [], _, r, reapply, due => (r, reapply, due)
  | e :: rest, applied, r, reapply, due =>
    -- the clock is asked after the first blob only
    if applied ≠ 0 ∧ (e.isBoot ∨ budget ≤ applied) then (r, reapply, due)
    else
      let (r, u, d) := applyNext B r e rest
      if e.isBoot then (r, reapply ++ u, due ++ d)
      else batchLoop B budget rest (applied + 1) r (reapply ++ u) (due ++ d)

/-- `_apply_pending_batch`. -/
def applyPendingBatch (B : Blender β V δ S) (budget : Nat) (r : Replica β V δ S) :
    Replica β V δ S :=
  let (r, reapply, due) := batchLoop B budget r.pending 0 r [] []
  let d := reapply.foldl (reapplyAtState B) r.data
  let stats := { d.stats with batches := d.stats.batches + 1 }
  release B due { r with data := { d with stats } }

/-! ## Sessions -/

/-- `_handle_new_session`: the trackers are primed with the lane counters that
    the hello reports. -/
def handleNewSession (seqs : Nat × Nat) (r : Replica β V δ S) : Replica β V δ S :=
  let g : LaneMerger β V δ :=
    { cold := { lastSeen := some seqs.1 }
      fast := { lastSeen := some seqs.2 }
      coldApplied := seqs.1
      fastApplied := seqs.2 }
  { r with
    merger := g
    reassembler := {}
    blobByUuid := Dict.empty
    data := refreshGapStats g { r.data with
      atState := Dict.empty
      unknownGap := false
      stats := { r.data.stats with
        seq := 0, seqFast := 0, parked := 0, gaps := 0, wantResync := false } } }

/-! ## Blobs under assembly -/

variable [Inhabited β]

/-- The reassembler after a stale blob of the same datablock was dropped
    (superseded mid-flight). -/
def supersede (r : Replica β V δ S) (m : Msg β V δ) (b : Chunk) : Reassembler β δ :=
  match r.blobByUuid.get? m.header.uuid with
  | some stale => if stale = b.id then r.reassembler else r.reassembler.drop stale
  | none => r.reassembler

/-- What a tier-2 or bootstrap chunk completes, if anything. -/
def completes (r : Replica β V δ S) (m : Msg β V δ) : Option (Header δ × List β) :=
  match m.header.blob with
  | some b => ((r.supersede m b).feed m.header m.data).2
  | none => none

/-- The `("t2", "boot")` branch of `_dispatch`. -/
def dispatchChunk (B : Blender β V δ S) (r : Replica β V δ S) (m : Msg β V δ) (b : Chunk) :
    Replica β V δ S :=
  let fed := (r.supersede m b).feed m.header m.data
  match fed.2 with
  | some (h, blob) =>
    -- a bootstrap supersedes every blob queued before it
    let waiting := if m.header.kind = .boot then [] else r.pending
    { r with
      reassembler := fed.1
      blobByUuid := r.blobByUuid.erase m.header.uuid
      pending := waiting ++ [⟨h, blob, m.header.seq⟩] }
  | none =>
    coldDone B { r with
      reassembler := fed.1
      blobByUuid := r.blobByUuid.insert m.header.uuid b.id } m.header.seq

/-- `_dispatch` of a cold-lane message. A chunk without its `blob` key raises
    before anything is written. -/
def dispatchCold (B : Blender β V δ S) (r : Replica β V δ S) (m : Msg β V δ) :
    Replica β V δ S :=
  let r := { r with log := r.log ++ [Ev.dispatched m] }
  match m.header.kind with
  | .resyncEnd => coldDone B (endResync r m) m.header.seq
  | .t1 => coldDone B { r with data := applyT1 B r.merger r.data m } m.header.seq
  | .tomb => coldDone B { r with data := applyTombstone B r.data m.header.uuid } m.header.seq
  | .link | .unlink =>
    coldDone B { r with data := { r.data with scene := B.applyLink r.data.scene m.header } }
      m.header.seq
  | .libMissing => coldDone B r m.header.seq
  | .libfile =>
    match m.header.blob with
    -- `header["blob"]` raises
    | none => r
    | some _ =>
      let fed := r.reassembler.feed m.header m.data
      let r := { r with reassembler := fed.1 }
      match fed.2 with
      | some (h, blob) =>
        coldDone B { r with data := { r.data with scene := B.applyLibfile r.data.scene h blob } }
          m.header.seq
      | none => r
  | .t2 | .boot =>
    match m.header.blob with
    | none => r
    | some b => dispatchChunk B r m b

/-- `_dispatch`. -/
def dispatch (B : Blender β V δ S) (r : Replica β V δ S) (m : Msg β V δ) : Replica β V δ S :=
  if m.header.lane = .fast then dispatchFast B r m else dispatchCold B r m

/-- The first half of `_process_cold` on a message: its lane's tracker observes it. -/
def observed (r : Replica β V δ S) (m : Msg β V δ) : Replica β V δ S :=
  let g := r.merger.observe m
  let d := if r.merger.follows m then r.data
    -- a seq was skipped
    else refreshGapStats g { r.data with stats := { r.data.stats with wantResync := true } }
  let d := { d with stats := { d.stats with
    seq := g.cold.lastSeen.getD 0
    seqFast := g.fast.lastSeen.getD 0
    gaps := g.gaps } }
  { r with merger := g, data := d, log := r.log ++ [Ev.seen m] }

/-- A fast message that must wait. -/
def parkMsg (r : Replica β V δ S) (m : Msg β V δ) : Replica β V δ S :=
  let g := r.merger.park m
  { r with
    merger := g
    data := { r.data with stats := { r.data.stats with parked := g.parked.length } } }

/-- One message of `_process_cold`: observed, then parked or dispatched. -/
def handle (B : Blender β V δ S) (r : Replica β V δ S) (m : Msg β V δ) : Replica β V δ S :=
  let r := r.observed m
  if r.merger.admits m then dispatch B r m else r.parkMsg m

omit [Inhabited β] in
@[simp] theorem observed_scene (r : Replica β V δ S) (m : Msg β V δ) :
    (r.observed m).data.scene = r.data.scene := by
  simp only [observed]
  split <;> rfl

omit [Inhabited β] in
@[simp] theorem observed_atState (r : Replica β V δ S) (m : Msg β V δ) :
    (r.observed m).data.atState = r.data.atState := by
  simp only [observed]
  split <;> rfl

end Replica

/-! ## The replica and its lanes -/

/-- The replica with what is on its way to it on each lane, oldest first. -/
structure Node (β V δ S : Type) where
  replica : Replica β V δ S
  coldLane : List (Msg β V δ)
  fastLane : List (Msg β V δ)

/-- `_BATCH_MAX`. -/
def batchMax : Nat := 16

namespace Node

variable {β V δ S : Type}

/-- A turn of `_process_cold` up to the message it takes: `poll_fast` finds `kf`
    messages arrived and `poll_cold` finds `kc`. -/
def take (n : Node β V δ S) (kf kc : Nat) : Node β V δ S × Option (Msg β V δ) :=
  let polledFast := if n.replica.inboxFast = [] then n.fastLane.take (min kf 64) else []
  let inboxFast := n.replica.inboxFast ++ polledFast
  let fastLane := n.fastLane.drop polledFast.length
  match inboxFast with
  | m :: rest =>
    ({ n with replica := { n.replica with inboxFast := rest }, fastLane := fastLane }, some m)
  | [] =>
    -- the cold lane waits behind a full batch or a bootstrap
    if n.replica.pending.length < batchMax ∧ ¬ n.replica.pending.any Pending.isBoot then
      let polledCold := if n.replica.inbox = [] then n.coldLane.take (min kc 8) else []
      let coldLane := n.coldLane.drop polledCold.length
      match n.replica.inbox ++ polledCold with
      | m :: rest =>
        ({ replica := { n.replica with inbox := rest }, coldLane := coldLane,
           fastLane := fastLane }, some m)
      | [] => (n, none)
    else (n, none)

/-- What the apply loop may do next, whatever the clock and the network: one turn
    of `_process_cold`, or one `_apply_pending_batch`. Every tick is a sequence of
    these. -/
inductive Act where
  | turn (kf kc : Nat)
  | batch (budget : Nat)
deriving DecidableEq, Repr

variable [Inhabited β]

/-- One action of the apply loop. -/
def step (B : Blender β V δ S) (n : Node β V δ S) : Act → Node β V δ S
  | .turn kf kc =>
    match n.take kf kc with
    | (n, some m) => { n with replica := n.replica.handle B m }
    -- both lanes are empty, or the cold lane waits
    | (n, none) => n
  | .batch budget => { n with replica := n.replica.applyPendingBatch B budget }

/-- The apply loop from a node over a list of actions. -/
def run (B : Blender β V δ S) (n : Node β V δ S) (acts : List Act) : Node β V δ S :=
  acts.foldl (step B) n

omit [Inhabited β] in
/-- A fresh session: empty inboxes, trackers primed with the host's counters `c0`
    and `f0`, and on each lane everything the host will send in it. -/
def start (scene : S) (c0 f0 : Nat) (cold fast : List (Msg β V δ)) : Node β V δ S where
  replica := Replica.handleNewSession (c0, f0) { data := { scene := scene } }
  coldLane := cold
  fastLane := fast

end Node

end QCBridge
