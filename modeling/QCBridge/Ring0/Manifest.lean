import QCBridge.Ring0.Replica

/-!
# The inventory of the replica

`ring0/replica_apply.py`: `_held` says which datablocks the replica has, each with the
digest of its blob. Blobs, tombstones and bootstraps write it as they apply. The host's
manifest batches, the digests of what a bootstrap carried, come on the control lane and are
merged on the tick.

Nothing orders the control lane against the other two, so the handlers come in any order.
-/

namespace QCBridge

/-- A manifest batch. -/
structure Manifest (β δ : Type) where
  boot : Option Nat
  held : Dict Uuid δ
  /-- The file whose datablocks it describes: history. -/
  file : List β
deriving DecidableEq

/-- The replica with its manifest batches. -/
structure Custody (β V δ S : Type) where
  replica : Replica β V δ S
  /-- `_manifests`. -/
  manifests : List (Manifest β δ) := []
  /-- The file that runs: history. -/
  running : Option (List β) := none
  /-- The newest digest applied of each datablock, since the bootstrap and since its last
      tombstone: history. -/
  newest : Dict Uuid δ := Dict.empty
  /-- What a tombstone named since the bootstrap: history. -/
  buried : List Uuid := []

namespace Custody

variable {β V δ S : Type}

/-- `_held`. -/
def held (c : Custody β V δ S) : Dict Uuid δ := c.replica.data.held

/-- `bpy.data`. -/
def scene (c : Custody β V δ S) : S := c.replica.data.scene

/-- `_boot_gen`. -/
def bootGen (c : Custody β V δ S) : Option Nat := c.replica.data.bootGen

/-! ## Manifests -/

/-- `_MANIFESTS_AHEAD_MAX`. -/
def manifestsAheadMax : Nat := 256

/-- A batch for the file that runs: it adds what is not there. -/
def mergeBatch (held : Dict Uuid δ) (m : Manifest β δ) : Dict Uuid δ :=
  m.held.entries.foldl (fun held e => if (held.get? e.1).isSome then held
    else held.insert e.1 e.2) held

/-- A turn of the loop of `_merge_manifests`: the inventory, and the batches that wait. -/
def mergeTurn (gen : Option Nat) (r : Dict Uuid δ × List (Manifest β δ)) (m : Manifest β δ) :
    Dict Uuid δ × List (Manifest β δ) :=
  if gen.isNone || m.boot.any (fun boot => gen.any (· < boot)) then
    if r.2.length < manifestsAheadMax then (r.1, r.2 ++ [m]) else r
  else if m.boot ≠ gen then r  -- for a file we no longer run
  else (mergeBatch r.1 m, r.2)

/-- `_merge_manifests`, when the tick gets to it. -/
def mergeManifests (c : Custody β V δ S) : Custody β V δ S :=
  if c.manifests = [] ∨ c.bootGen.isNone ∧ c.replica.pending ≠ [] then c
  else
    let r := c.manifests.foldl (mergeTurn c.bootGen) (c.held, [])
    { c with
      replica := { c.replica with data := { c.replica.data with held := r.1 } }
      manifests := r.2 }

/-! ## The handlers -/

/-- What may happen next. -/
inductive Act (β V δ : Type) where
  /-- `_apply_one` of a completed blob or bootstrap. -/
  | apply (e : Pending β δ)
  /-- `_apply_tombstone`. -/
  | tomb (uuid : Uuid)
  /-- `_apply_t1`. -/
  | t1 (m : Msg β V δ)
  /-- `_reapply_at_state`. -/
  | putBack (uuid : Uuid)
  /-- `_apply_link`. -/
  | link (h : Header δ)
  /-- `_apply_libfile`. -/
  | libfile (h : Header δ) (data : List β)
  /-- `notify_manifest`. -/
  | manifest (m : Manifest β δ)
  /-- The merge of a tick. -/
  | merge
  /-- `_handle_new_session`. -/
  | newSession (seqs : Nat × Nat)

variable (B : Blender β V δ S)

/-- What replaces the replica's data. -/
def withData (c : Custody β V δ S) (d : ReplicaData V δ S) : Custody β V δ S :=
  { c with replica := { c.replica with data := d } }

/-- `_apply_one`. An exception leaves the inventory as it is. -/
def apply (c : Custody β V δ S) (e : Pending β δ) : Custody β V δ S :=
  match Replica.applyOne B c.replica e with
  | none => c
  | some (r, _) =>
    -- a new main file: what is known of the old one is gone
    if e.isBoot then
      { c with
        replica := r
        running := some e.blob
        newest := Dict.empty
        buried := [] }
    -- a blob: its digest is the newest of its datablock
    else
      { c with
        replica := r
        newest := match e.header.digest with
          | some digest => c.newest.insert e.header.uuid digest
          | none => c.newest }

/-- One handler. -/
def step (c : Custody β V δ S) : Act β V δ → Custody β V δ S
  | .apply e => c.apply B e
  | .tomb uuid =>
    { c.withData (Replica.applyTombstone B c.replica.data uuid) with
      newest := c.newest.erase uuid
      buried := uuid :: c.buried }
  | .t1 m => c.withData (Replica.applyT1 B c.replica.merger c.replica.data m)
  | .putBack uuid => c.withData (Replica.reapplyAtState B c.replica.data uuid)
  | .link h => c.withData { c.replica.data with scene := B.applyLink c.scene h }
  | .libfile h data => c.withData { c.replica.data with scene := B.applyLibfile c.scene h data }
  | .manifest m => { c with manifests := c.manifests ++ [m] }
  | .merge => c.mergeManifests
  | .newSession seqs => { c with replica := Replica.handleNewSession seqs c.replica }

/-- Handlers one after the other. -/
def run (c : Custody β V δ S) (acts : List (Act β V δ)) :
    Custody β V δ S :=
  acts.foldl (step B) c

/-- A replica that starts. -/
def start (scene : S) : Custody β V δ S := { replica := { data := { scene := scene } } }

end Custody

end QCBridge
