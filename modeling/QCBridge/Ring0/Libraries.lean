import QCBridge.Ring0.Host

/-!
# Library files on demand

A linked library that the replica cannot place goes into its pong (`need_libs`). The host ships
the file, or says that it has none either (`serve_lib_requests`, in `Ring0.Host`). This is the
replica's half, of `ring0/replica_apply.py`, and the two with the cold lane between them.

Of the replica there are its two lists and the library files under assembly; other blobs have
ids of their own. What it finds on its disk is an argument of every step. A frame that the
transport has taken may be lost at any time, and a bootstrap is applied some time after it
came.
-/

namespace QCBridge

variable {β V δ : Type}

/-! ## The replica -/

/-- `os.path.basename(host_path.replace("\\", "/")) or host_path`. -/
def libName (hostPath : String) : String :=
  let name := (hostPath.toList.reverse.takeWhile fun c => c != '/' && c != '\\').reverse
  if name = [] then hostPath else String.ofList name

/-- What the replica keeps about libraries. -/
structure LibReplica (β δ : Type) where
  needLibs : List String := []
  /-- `libs_missing_on_host`: names, not paths. -/
  libsMissing : List String := []
  reassembler : Reassembler β δ := {}
deriving DecidableEq

namespace LibReplica

/-- `_request_lib`. -/
def requestLib (r : LibReplica β δ) (hostPath : String) : LibReplica β δ :=
  if hostPath = "" ∨ hostPath ∈ r.needLibs then r
  else if libName hostPath ∈ r.libsMissing then r
  else { r with needLibs := r.needLibs ++ [hostPath] }

/-- `_lib_missing_on_host`. -/
def libMissingOnHost (r : LibReplica β δ) (hostPath : String) : LibReplica β δ :=
  { r with
    needLibs := r.needLibs.erase hostPath
    libsMissing :=
      if libName hostPath ∈ r.libsMissing then r.libsMissing
      else r.libsMissing ++ [libName hostPath] }

/-- `_apply_libfile`, if the digest is right and the file can be stored. -/
def applyLibfile (r : LibReplica β δ) (hostPath : String) (stored : Bool) : LibReplica β δ :=
  if stored then { r with needLibs := r.needLibs.erase hostPath } else r

/-- `_dispatch` of a cold frame. `found` says whether the library of a link is there. -/
def dispatch [Inhabited β] (r : LibReplica β δ) (found stored : Bool) (m : Msg β V δ) :
    LibReplica β δ :=
  match m.header.kind with
  | .link => if found then r else r.requestLib m.header.lib
  | .libMissing => r.libMissingOnHost m.header.lib
  | .libfile =>
    match m.header.blob with
    -- `header["blob"]` raises
    | none => r
    | some _ =>
      let fed := r.reassembler.feed m.header m.data
      match fed.2 with
      | some (h, _) => { r with reassembler := fed.1 }.applyLibfile h.lib stored
      | none => { r with reassembler := fed.1 }
  | _ => r

/-- The libraries of a bootstrap that are not there, asked for one after the other. -/
def bootApplied (r : LibReplica β δ) (unplaced : List String) : LibReplica β δ :=
  unplaced.foldl requestLib r

end LibReplica

/-! ## The host, the lane, the replica -/

/-- The host and the replica, and the cold frames on their way, oldest first. -/
structure LibSystem (β V δ : Type) where
  host : Host β V δ
  flight : List (Msg β V δ) := []
  replica : LibReplica β δ := {}

/-- What can happen. -/
inductive LibEvent (β V δ : Type) where
  /-- The host is called; the frames that the transport takes are on their way. -/
  | host (w : World β V) (c : Host.Call β δ)
  /-- The next frame comes in and is dispatched. -/
  | arrive (found stored : Bool)
  /-- A frame is lost. -/
  | lose (k : Nat)
  /-- A bootstrap has been applied. -/
  | bootApplied (unplaced : List String)
  /-- A handshake: what is under assembly is dropped. -/
  | newSession
  /-- The replica starts anew. -/
  | restart

namespace LibSystem

variable [BEq V] [DecidableEq δ] [Inhabited β]

/-- One event. -/
def step (H : Digests β V δ) (s : LibSystem β V δ) : LibEvent β V δ → LibSystem β V δ
  | .host w c =>
    -- what a call puts on the cold lane is in flight
    let h := s.host.call H (w, c)
    { s with
      host := h
      flight := s.flight ++ h.ledger.coldLane.drop s.host.ledger.coldLane.length }
  | .arrive found stored =>
    match s.flight with
    | [] => s
    | m :: rest => { s with flight := rest, replica := s.replica.dispatch found stored m }
  -- the network loses any of them
  | .lose k => { s with flight := s.flight.eraseIdx k }
  | .bootApplied unplaced => { s with replica := s.replica.bootApplied unplaced }
  | .newSession => { s with replica := { s.replica with reassembler := {} } }
  | .restart => { s with replica := {} }

/-- A session of events. -/
def run (H : Digests β V δ) (s : LibSystem β V δ) (events : List (LibEvent β V δ)) :
    LibSystem β V δ := events.foldl (step H) s

/-- A new session of the host, with nothing on the lane. -/
def start (w : World β V) (c0 f0 : Nat) : LibSystem β V δ := { host := Host.start w c0 f0 }

end LibSystem

end QCBridge
