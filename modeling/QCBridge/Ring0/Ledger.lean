import QCBridge.Ring1.Resync

/-!
# The sending half of the host

`ring0/host_handlers.py`: the counters of the two lanes, the outboxes whose chunks
leave as the transport takes them, what each fast message must follow, and the
digest of the last blob of each datablock.

Everything `HostSync` puts on a lane is one of the steps below. A step is taken
only when the transport accepts the message: a refused one leaves no trace here,
its seq is given back.
-/

namespace QCBridge

variable {β V δ : Type}

/-- A blob on its way out: the chunks still queued. What they were cut from is
    history. -/
structure Outgoing (β V δ : Type) where
  id : BlobId
  data : List β
  chunks : List (Msg β V δ)
deriving DecidableEq

/-- What the host did, oldest first: a history variable that no function reads. -/
inductive Sent (β V δ : Type) where
  /-- A blob was serialized and queued. -/
  | cut (id : BlobId) (data : List β)
  /-- A message left on the cold lane. -/
  | cold (m : Msg β V δ)
  /-- The last chunk of a blob had left. -/
  | left (id : BlobId) (data : List β)
  /-- A message left on the fast lane. -/
  | fast (m : Msg β V δ)
  /-- A digest was put on record for a datablock without sending a blob. -/
  | recorded (uuid : Uuid) (data : List β)
deriving DecidableEq

/-- The sending half of `HostSync`. -/
structure Ledger (β V δ : Type) where
  seq : Nat := 0
  seqFast : Nat := 0
  uuidColdSeq : Dict Uuid Nat := Dict.empty
  bootLastSeq : Nat := 0
  linkSeq : Nat := 0
  bootOutbox : Option (Outgoing β V δ) := none
  libOutbox : List (Outgoing β V δ) := []
  t2Outbox : Dict Uuid (Outgoing β V δ) := Dict.empty
  sentBoot : Nat := 0
  libsShipped : Nat := 0
  fastlog : FastLog := {}
  blobHash : Dict Uuid δ := Dict.empty
  log : List (Sent β V δ) := []

/-- One thing that the host puts on a lane, in an outbox or on record. -/
inductive LedgerAct (β V δ : Type) where
  /-- `send_bootstrap`: the chunks of the file. -/
  | cutBoot (data : List β) (sceneDigest : Option δ)
  /-- `_flush_t2` and `_resend_t2`: the chunks of a blob, and its digest. -/
  | cutT2 (uuid : Uuid) (data : List β) (digest : δ) (more : Bool)
  /-- `serve_lib_requests`: the chunks of a library file. -/
  | cutLib (lib : String) (data : List β)
  /-- A chunk of the bootstrap leaves. -/
  | sendBoot
  /-- A chunk of a datablock's blob leaves. -/
  | sendT2 (uuid : Uuid)
  /-- A chunk of a library file leaves. -/
  | sendLib
  /-- `_send_cold_msg`. -/
  | sendCold (kind : Kind) (lib : String)
  /-- The cold `resync_end`. -/
  | endCold
  /-- A tier-1 message, and the datablocks its pointers name. -/
  | t1 (uuid : Uuid) (changes : List (Path × V)) (targets : List Uuid) (full : Bool)
      (sd : Option δ)
  /-- A tombstone. -/
  | tomb (uuid : Uuid)
  /-- The fast `resync_end`. -/
  | endFast
  /-- The digest of a blob is put on record without sending the blob. -/
  | record (uuid : Uuid) (data : List β) (digest : δ)
  /-- `_flush_t2` finds the digest on record and sends nothing. -/
  | skip (uuid : Uuid) (data : List β) (digest : δ)
deriving DecidableEq

namespace Ledger

/-- `_after_for`. -/
def afterFor (l : Ledger β V δ) (uuid : Uuid) : Nat :=
  max (l.uuidColdSeq.getD uuid 0) (max l.bootLastSeq l.linkSeq)

/-- The cold seq a tier-1 message must follow: what its own datablock asks for, and
    the blobs of the datablocks its pointers name. -/
def afterAll (l : Ledger β V δ) (uuid : Uuid) (targets : List Uuid) : Nat :=
  targets.foldl (fun after t => max after (l.uuidColdSeq.getD t 0)) (l.afterFor uuid)

/-- A cold message leaves with the next seq. -/
def pushCold (l : Ledger β V δ) (m : Msg β V δ) : Ledger β V δ :=
  { l with seq := l.seq + 1, log := l.log ++ [.cold (m.withSeq (l.seq + 1))] }

/-- A fast message leaves with the next seq. -/
def pushFast (l : Ledger β V δ) (m : Msg β V δ) : Ledger β V δ :=
  { l with seqFast := l.seqFast + 1, log := l.log ++ [.fast (m.withSeq (l.seqFast + 1))] }

/-- A tier-1 message or a tombstone leaves, and the fast log remembers it. -/
def pushLogged (l : Ledger β V δ) (m : Msg β V δ) : Ledger β V δ :=
  { l.pushFast m with
    fastlog := l.fastlog.record (l.seqFast + 1) m.header.uuid m.header.kind }

/-- The last chunk of a blob has left. -/
def finish (l : Ledger β V δ) (o : Outgoing β V δ) : Ledger β V δ :=
  { l with log := l.log ++ [.left o.id o.data] }

/-- The header of a blob's chunks. -/
def blobInfo (uuid : Uuid) (digest : δ) (more : Bool) : Header δ :=
  { kind := .t2, uuid := uuid, digest := some digest, more := more }

/-- The header of a bootstrap's chunks. -/
def bootInfo (sceneDigest : Option δ) : Header δ :=
  { kind := .boot, uuid := mainfileUuid, sceneDigest := sceneDigest }

/-- The header of a library file's chunks. -/
def libInfo (lib : String) : Header δ := { kind := .libfile, lib := lib }

/-- A tier-1 message. -/
def t1Msg (uuid : Uuid) (changes : List (Path × V)) (after : Nat) (full : Bool) (sd : Option δ) :
    Msg β V δ where
  header := { kind := .t1, lane := .fast, uuid := uuid, after := after, full := full, sd := sd }
  payload := .changes changes

/-- A tombstone. -/
def tombMsg (uuid : Uuid) (after : Nat) : Msg β V δ where
  header := { kind := .tomb, lane := .fast, uuid := uuid, after := after }

/-- The bootstrap's next chunk leaves. The last one supersedes every blob. -/
def sendBoot (l : Ledger β V δ) : Ledger β V δ :=
  match l.bootOutbox with
  | some ⟨id, data, m :: []⟩ =>
    { (l.pushCold m).finish ⟨id, data, []⟩ with
      bootOutbox := none
      bootLastSeq := l.seq + 1
      -- what follows the bootstrap follows every blob before it
      uuidColdSeq := Dict.empty }
  | some ⟨id, data, m :: rest⟩ => { l.pushCold m with bootOutbox := some ⟨id, data, rest⟩ }
  | _ => l

/-- The next chunk of a datablock's blob leaves. -/
def sendT2 (l : Ledger β V δ) (uuid : Uuid) : Ledger β V δ :=
  match l.t2Outbox.get? uuid with
  | some ⟨id, data, m :: []⟩ =>
    { (l.pushCold m).finish ⟨id, data, []⟩ with
      uuidColdSeq := l.uuidColdSeq.insert uuid (l.seq + 1)
      t2Outbox := l.t2Outbox.erase uuid }
  | some ⟨id, data, m :: rest⟩ =>
    { l.pushCold m with
      uuidColdSeq := l.uuidColdSeq.insert uuid (l.seq + 1)
      t2Outbox := l.t2Outbox.insert uuid ⟨id, data, rest⟩ }
  | _ => l

/-- The next chunk of a library file leaves. -/
def sendLib (l : Ledger β V δ) : Ledger β V δ :=
  match l.libOutbox with
  | ⟨id, data, m :: []⟩ :: others =>
    { (l.pushCold m).finish ⟨id, data, []⟩ with libOutbox := others }
  | ⟨id, data, m :: rest⟩ :: others =>
    { l.pushCold m with libOutbox := ⟨id, data, rest⟩ :: others }
  | _ => l

/-- One step. -/
def step (l : Ledger β V δ) : LedgerAct β V δ → Ledger β V δ
  | .cutBoot data sceneDigest =>
    let id := .boot l.sentBoot (l.seq + 1)
    { l with
      bootOutbox := some ⟨id, data, chunkBlob .boot id data (bootInfo sceneDigest) defaultChunkSize⟩
      -- nothing is known of what the replica holds after a bootstrap
      blobHash := Dict.empty
      sentBoot := l.sentBoot + 1
      log := l.log ++ [.cut id data] }
  | .cutT2 uuid data digest more =>
    let id := .t2 uuid (l.seq + 1)
    { l with
      blobHash := l.blobHash.insert uuid digest
      -- a blob still queued is replaced: only the newest state counts
      t2Outbox := l.t2Outbox.insert uuid
        ⟨id, data, chunkBlob .t2 id data (blobInfo uuid digest more) defaultChunkSize⟩
      log := l.log ++ [.cut id data] }
  | .cutLib lib data =>
    let id := .lib l.libsShipped (l.seq + 1)
    { l with
      libOutbox := l.libOutbox ++
        [⟨id, data, chunkBlob .libfile id data (libInfo lib) defaultChunkSize⟩]
      libsShipped := l.libsShipped + 1
      log := l.log ++ [.cut id data] }
  | .sendBoot => l.sendBoot
  | .sendT2 uuid => l.sendT2 uuid
  | .sendLib => l.sendLib
  | .sendCold kind lib =>
    { l.pushCold { header := { kind := kind, lib := lib } } with linkSeq := l.seq + 1 }
  | .endCold => l.pushCold { header := { kind := .resyncEnd } }
  | .t1 uuid changes targets full sd =>
    l.pushLogged (t1Msg uuid changes (l.afterAll uuid targets) full sd)
  | .tomb uuid => l.pushLogged (tombMsg uuid (l.afterFor uuid))
  | .endFast => l.pushFast { header := { kind := .resyncEnd, lane := .fast } }
  | .record uuid data digest =>
    { l with
      blobHash := l.blobHash.insert uuid digest
      log := l.log ++ [.recorded uuid data] }
  | .skip .. => l

/-- The ledger after a list of steps. -/
def run (l : Ledger β V δ) (acts : List (LedgerAct β V δ)) : Ledger β V δ := acts.foldl step l

/-- A ledger with nothing sent, whose lanes go on from `c0` and `f0`. -/
def start (c0 f0 : Nat) : Ledger β V δ := { seq := c0, seqFast := f0 }

/-- What left on the cold lane, oldest first. -/
def coldLane (l : Ledger β V δ) : List (Msg β V δ) :=
  l.log.filterMap fun
    | .cold m => some m
    | _ => none

/-- What left on the fast lane, oldest first. -/
def fastLane (l : Ledger β V δ) : List (Msg β V δ) :=
  l.log.filterMap fun
    | .fast m => some m
    | _ => none

/-- The blobs still queued. -/
def queued (l : Ledger β V δ) : List (Outgoing β V δ) :=
  l.bootOutbox.toList ++ l.libOutbox ++ l.t2Outbox.entries.map Prod.snd

end Ledger

end QCBridge
