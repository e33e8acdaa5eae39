import QCBridge.Ring0.Host
import QCBridge.ForStd.Attempt

/-!
# The sync loop when datablocks raise

`build_snapshot`, `tier2_io.serialize` and what the visibility sweep reads go over whatever the
artist made, and may raise.
`_flush_t1` and its like catch a `ReferenceError`, which is a datablock that died, and
nothing else: any other exception ends the tick where it is, and `flush_tick` swallows
it there.

These are the functions of the tick again, each with the exceptions that can come out of
it: an exception is named by the datablock that raised. What cannot raise is taken from the
loop as it is.
-/

namespace QCBridge

variable {β V δ : Type}

/-- What raises during a tick. -/
structure Faults where
  /-- `build_snapshot` of these datablocks. -/
  snapshot : Uuid → Bool := fun _ => false
  /-- `tier2_io.serialize` of these, if their type has a tier 2. -/
  serialize : Uuid → Bool := fun _ => false
  /-- `_object_sweep_vector`, `_datablock_sweep_vector` (but for a Scene's snapshot) and
      `_idprops_digest` of these, if the visibility sweep samples their type. -/
  sample : Uuid → Bool := fun _ => false
  /-- The freed handles of these are shape keys, whose snapshot `_flush_t2` takes unguarded. -/
  freed : Uuid → Bool := fun _ => false
  /-- How many changes the visibility sweep had marked when it came to a datablock that raises. -/
  sweptBefore : Nat := 0

/-- Whether the snapshot or the serialization of the datablock raises. -/
def Faults.raises (F : Faults) (uuid : Uuid) : Bool :=
  F.snapshot uuid || F.serialize uuid || F.freed uuid

/-- Whether the visibility sweep raises at a datablock that it knows. It digests the snapshot of a
    Scene. -/
def Faults.sampling (F : Faults) (e : Uuid × Datablock β V) : Bool :=
  F.sample e.1 || (e.2.kind = .scene && F.snapshot e.1)

namespace Host.Raising

section Flush

variable [BEq V] [DecidableEq δ] (F : Faults) (H : Digests β V δ) (w : World β V)

/-! ## Tier 2 -/

/-- `_flush_t2` from the serialization on. -/
def shipBlob (h : Host β V δ) (uuid : Uuid) (db : Datablock β V)
    (snapshot : Option (Dict Path V)) : Attempt Uuid (Host β V δ) Bool :=
  -- the snapshot is built here unless the caller has it
  if db.blend.isSome && (F.serialize uuid || (snapshot.isNone && F.snapshot uuid)) then
    (h, .error uuid)
  else
    let (h, unsupported) := h.shipBlob H w uuid db snapshot
    (h, .ok unsupported)

/-- `_flush_t2`, the fallback apart. -/
def flushT2 (h : Host β V δ) (uuid : Uuid) (snapshot : Option (Dict Path V)) :
    Attempt Uuid (Host β V δ) Bool :=
  match h.db w uuid with
  | none => if h.Registered uuid && F.freed uuid then (h, .error uuid) else (h, .ok false)
  | some db =>
    if db.kind = .key then
      if snapshot.isNone && F.snapshot uuid then (h, .error uuid)
      else
        let h := h.observe uuid (snapshot.getD db.snapshot)
        match db.user with
        | none => (h, .ok false)
        | some owner =>
          let h := h.adopt owner
          -- shape keys travel with the blob of their owner
          if owner = uuid then (h, .ok false)
          else match h.db w owner with
            | none => (h, .ok false)
            | some ownerDb =>
              (shipBlob F H w h owner ownerDb none).andThen fun h _ => (h, .ok false)
    else shipBlob F H w h uuid db snapshot

/-! ## Tier 1 -/

/-- The loop of `_send_t1` over the changes. -/
def settleTargets : List (Path × V) → Host β V δ → List Uuid →
    Attempt Uuid (Host β V δ) (Option (List Uuid))
  | [], h, targets => (h, .ok (some targets))
  | (path, value) :: changes, h, targets =>
    match w.target path value with
    | none => settleTargets changes h targets
    | some t =>
      let h := h.adopt t
      let flushed : Attempt Uuid (Host β V δ) Bool :=
        -- a target that the replica never got leaves before the pointer to it
        if t ∈ h.shipped then (h, .ok false) else flushT2 F H w h t none
      flushed.andThen fun h _ =>
        if (h.ledger.t2Outbox.get? t).isSome then (h, .ok none)
        else settleTargets changes h (targets ++ [t])

/-- `_send_t1`. A target that raises leaves the datablock out of the dirty set, and the
    shadow where the diff moved it. -/
def sendT1 (h : Host β V δ) (uuid : Uuid) (changes : List (Path × V))
    (old : Option (Dict Path V)) (full : Bool) : Attempt Uuid (Host β V δ) Bool :=
  if changes = [] then (h, .ok true)
  else
    let changes := settersFirst changes
    (settleTargets F H w changes h []).andThen fun h targets =>
      match targets with
      -- a target waits
      | none => (h.giveBack uuid old, .ok false)
      | some targets =>
        match h.send w (.t1 uuid changes targets full (h.sd w uuid)) with
        | (h, true) => (h, .ok true)
        -- the message was refused
        | (h, false) => (h.giveBack uuid old, .ok false)

/-- `_flush_t2` with its fallback. -/
def flushT2Or (h : Host β V δ) (uuid : Uuid) (snapshot : Option (Dict Path V))
    (fallback : List (Path × V)) : Attempt Uuid (Host β V δ) Unit :=
  (flushT2 F H w h uuid snapshot).andThen fun asked unsupported =>
    if unsupported then
      -- the bootstrap is asked for once the fallback has returned
      (sendT1 F H w h uuid fallback none false).andThen fun _ _ =>
        ((asked.sendT1 H w uuid fallback none false).1, .ok ())
    else (asked, .ok ())

/-- `_flush_t1`. -/
def flushT1 (h : Host β V δ) (uuid : Uuid) : Attempt Uuid (Host β V δ) Unit :=
  match h.db w uuid with
  | none => (h, .ok ())
  | some db =>
    if F.snapshot uuid then (h, .error uuid)
    else
      let old := h.shadow.get? uuid
      -- the diff moves the shadow before anything is sent
      let h := if db.kind = .scene then { h with sceneDigest := some (H.scene db.snapshot) } else h
      let diff := (h.shadow.diffAndUpdate uuid db.snapshot).2
      let h := h.observe uuid db.snapshot
      match diff with
      | none =>
        if db.saved then flushT2Or F H w h uuid (some db.snapshot) [] else (h, .ok ())
      | some diff =>
        if diff.structural then flushT2Or F H w h uuid (some db.snapshot) diff.changes
        else (sendT1 F H w h uuid diff.changes old false).andThen fun h _ => (h, .ok ())

/-! ## Repairs -/

/-- `_send_t1_full`. -/
def sendT1Full (h : Host β V δ) (uuid : Uuid) : Attempt Uuid (Host β V δ) Bool :=
  match h.db w uuid with
  | none =>
    let (h, sent) := h.sendTombstone w uuid
    (h, .ok sent)
  | some db =>
    match h.shadow.get? uuid with
    -- what the replica is believed to show needs no snapshot
    | some shadow => sendT1 F H w h uuid (sendable shadow) none true
    | none =>
      if F.snapshot uuid then (h, .error uuid)
      else sendT1 F H w (h.observe uuid db.snapshot) uuid (sendable db.snapshot) none true

omit [BEq V] in
/-- `_resend_t2`. -/
def resendT2 (h : Host β V δ) (uuid : Uuid) (expect : Option δ) : Attempt Uuid (Host β V δ) Bool :=
  if (h.db w uuid).any fun db => db.blend.isSome && F.serialize uuid then (h, .error uuid)
  else
    let (h, sent) := h.resendT2 H w uuid expect
    (h, .ok sent)

/-- The loop of `_drain_fast_resend`: whether nothing was refused. -/
def fastResendLoop : Nat → Host β V δ → Attempt Uuid (Host β V δ) Unit
  | 0, h => (h, .ok ())
  | n + 1, h =>
    match h.fastResendQueue with
    | [] => (h, .ok ())
    | (uuid, kind) :: _ =>
      -- `_send_t1_full` sends a tombstone for what has no handle
      let gone := kind = .tomb || (h.db w uuid).isNone
      let shown := (h.shadow.get? uuid).or ((h.db w uuid).map Datablock.snapshot)
      let tried : Attempt Uuid (Host β V δ) Bool :=
        if kind = .tomb then
          let (h, sent) := h.sendTombstone w uuid
          (h, .ok sent)
        else sendT1Full F H w h uuid
      tried.andThen fun h sent =>
        if sent then
          fastResendLoop n ({ h with fastResendQueue := h.fastResendQueue.tail }.note
            (.reasserted uuid gone (w.dbs.get? uuid).isSome shown))
        -- refused: the rest waits for the next tick
        else (h, .ok ())

/-- `_drain_fast_resend`. -/
def drainFastResend (h : Host β V δ) : Attempt Uuid (Host β V δ) Unit :=
  (fastResendLoop F H w fastResendPerTick h).andThen fun h _ =>
    if h.fastResendQueue = [] ∧ h.fastResendEnd then
      match h.send w .endFast with
      | (h, true) => ({ h with fastResendEnd := false }, .ok ())
      | (h, false) => (h, .ok ())
    else (h, .ok ())

omit [BEq V] in
/-- The blobs of `_drain_delta`. -/
def deltaBlobs : Nat → Host β V δ → Attempt Uuid (Host β V δ) (Option Nat)
  | 0, h => (h, .ok (some 0))
  | n + 1, h =>
    match h.deltaQueue with
    | [] => (h, .ok (some (n + 1)))
    | (uuid, expect) :: _ =>
      (resendT2 F H w h uuid expect).andThen fun h sent =>
        if sent then deltaBlobs n { h with deltaQueue := h.deltaQueue.tail } else (h, .ok none)

/-- The re-asserts of `_drain_delta`. -/
def deltaReasserts : Nat → Host β V δ → Attempt Uuid (Host β V δ) Bool
  | 0, h => (h, .ok true)
  | n + 1, h =>
    match h.deltaTail with
    | [] => (h, .ok true)
    | uuid :: _ =>
      (sendT1Full F H w h uuid).andThen fun h sent =>
        if sent then deltaReasserts n { h with deltaTail := h.deltaTail.tail }
        else (h, .ok false)

/-- `_drain_delta`. -/
def drainDelta (h : Host β V δ) : Attempt Uuid (Host β V δ) Unit :=
  match h.drainT2Outbox w none with
  | (h, false) => (h, .ok ())
  | (h, true) =>
    (deltaBlobs F H w deltaPerTick h).andThen fun h budget =>
      match budget with
      | none => (h, .ok ())
      | some n =>
        -- the tail only when no blob is left
        if h.deltaQueue = [] then
          (deltaReasserts F H w n h).andThen fun h sent =>
            (if sent then h.deltaEnd w else h, .ok ())
        else (h, .ok ())

/-! ## Idle work -/

omit [BEq V] [DecidableEq δ] in
/-- One datablock of `_prime_hashes`, which catches what raises. -/
def primeOne (h : Host β V δ) (uuid : Uuid) : Host β V δ × Bool :=
  if F.serialize uuid then (h, false) else h.primeOne H w uuid

omit [BEq V] [DecidableEq δ] in
/-- The loop of `_prime_hashes`. -/
def primeLoop : List Uuid → Nat → Host β V δ → Host β V δ
  | [], _, h => { h with primeQueue := [] }
  | uuid :: uuids, n, h =>
    if n < t2PerTick then
      let (h, counts) := primeOne F H w h uuid
      primeLoop uuids (if counts then n + 1 else n) h
    else { h with primeQueue := (uuid :: uuids).reverse }

omit [BEq V] [DecidableEq δ] in
/-- `scene_digest_now`, which catches what raises. -/
def sceneDigestNow (h : Host β V δ) : Host β V δ :=
  if w.scene.any F.snapshot then h else h.sceneDigestNow H w

omit [BEq V] [DecidableEq δ] in
/-- `send_bootstrap`. -/
def sendBootstrap (h : Host β V δ) : Host β V δ :=
  let h := sceneDigestNow F H w h
  let h := h.act (.cutBoot w.mainfile (w.scene.bind fun _ => h.sceneDigest))
  { h with
    bootQueuedAt := w.now
    manifestPending := Dict.empty
    deltaQueue := []
    deltaTail := []
    deltaEndPending := false
    shipped := h.savedDbs w
    libState := w.libraries
    primeQueue := (h.savedDbs w).filter fun u => (w.dbs.get? u).any fun db =>
      db.kind ≠ .scene && db.kind ≠ .key && db.blend.isSome
    suppressMarks := false }

/-! ## The tick -/

omit [BEq V] [DecidableEq δ] in
/-- The automatic bootstrap. -/
def autoBoot (h : Host β V δ) : Host β V δ × Bool :=
  match h.autoBootAt with
  | none => (h, false)
  | some t =>
    if w.now < t then (h, false)
    else if w.now - h.bootQueuedAt < autoBootCoveredMs then
      ({ h with autoBootAt := none }.note .autoSkipped, false)
    else if h.lastAutoBoot.all fun last => autoBootMinIntervalMs ≤ w.now - last then
      (sendBootstrap F H w { h with autoBootAt := none, lastAutoBoot := some w.now }, true)
    else (h, false)

omit [BEq V] [DecidableEq δ] in
/-- The sweeps. The visibility sweep samples every datablock of its types that it knows, and
    `_last_sweep` is not written when it raises. -/
def sweeps (h : Host β V δ) : Attempt Uuid (Host β V δ) Unit :=
  if sweepIntervalMs ≤ w.now - h.lastSweep then
    match w.dbs.entries.find? fun e => h.Registered e.1 && F.sampling e with
    | some e =>
      ((w.swept.take F.sweptBefore).foldl (fun h s =>
        if h.Registered s.1 then h.mark s.1 s.2 (w.now - debounceMs) else h) h, .error e.1)
    | none => (h.sweeps w, .ok ())
  else (h.sweeps w, .ok ())

/-- One entry of the flush loop. -/
def flushEntry (ready : List Uuid) (s : Host β V δ × Nat) (e : Uuid × Tier) :
    Attempt Uuid (Host β V δ × Nat) Unit :=
  let (h, budget) := s
  let (uuid, tier) := e
  let after (budget : Nat) (r : Attempt Uuid (Host β V δ) Unit) :
      Attempt Uuid (Host β V δ × Nat) Unit :=
    ((r.1, budget), r.2)
  -- not ready yet
  if uuid ∉ ready then (({ h with dirty := h.dirty.requeue uuid tier }, budget), .ok ())
  else
    match tier, budget with
    -- the budget of blobs for this tick is used up
    | .t2, 0 => (({ h with dirty := h.dirty.requeue uuid .t2 }.touchReady uuid w.now, 0), .ok ())
    | .t2, budget + 1 => after budget (flushT2Or F H w h uuid none [])
    | .t1, budget => after budget (flushT1 F H w h uuid)

/-- The drain of the dirty set: the host when the loop over the entries begins. -/
def drained (h : Host β V δ) : Host β V δ :=
  let (debounce, ready) := h.debounce.ready w.now
  let (dirty, tombs, entries) := h.dirty.drain
  let blobs := entries.countP fun e => e.2 = .t2 && e.1 ∈ ready
  let h := { h with debounce := debounce, dirty := dirty, burst := t2PerTick < blobs }
  let h := tombs.foldl (fun h u => h.note (.drained u (w.dbs.get? u).isSome)) h
  tombs.foldl (fun h u => (h.sendTombstone w u).1) h

/-- The drain of the dirty set, and the loop over its entries. -/
def flushDirty (h : Host β V δ) : Attempt Uuid (Host β V δ) Unit :=
  let looped := Attempt.forEach (flushEntry F H w (h.debounce.ready w.now).2)
    h.dirty.drain.2.2 (drained w h, t2PerTick)
  (looped.1.1, looped.2)

omit [BEq V] [DecidableEq δ] in
/-- The idle part of the tick up to the drain: whether it gets there. -/
def beforeIdleDrain (h : Host β V δ) : Attempt Uuid (Host β V δ) Bool :=
  let h := h.sendManifestBatch w
  match autoBoot F H w h with
  | (h, true) => (h, .ok false)
  | (h, false) =>
    (sweeps F w h).andThen fun h _ =>
      if w.paused ∨ h.dirty.isEmpty then (primeLoop F H w h.primeQueue.reverse 0 h, .ok false)
      else (h, .ok true)

/-- The tick up to the drain: whether it gets there. -/
def beforeDrain (h : Host β V δ) : Attempt Uuid (Host β V δ) Bool :=
  match h.drainBoot w with
  -- the bootstrap before everything else
  | (h, false) => (h, .ok false)
  | (h, true) =>
    -- marks are suppressed until the first bootstrap
    if h.suppressMarks then (h, .ok false)
    else
      match h.drainLib w with
      | (h, false) => (h, .ok false)
      | (h, true) =>
        match h.drainT2Outbox w none with
        | (h, false) => (h, .ok false)
        | (h, true) =>
          let resent : Attempt Uuid (Host β V δ) Unit :=
            if h.fastResendQueue ≠ [] ∨ h.fastResendEnd then drainFastResend F H w h
            else (h, .ok ())
          resent.andThen fun h _ =>
            -- a repair takes the whole tick
            if h.deltaQueue ≠ [] ∨ h.deltaTail ≠ [] ∨ h.deltaEndPending then
              (drainDelta F H w h).andThen fun h _ => (h, .ok false)
            else beforeIdleDrain F H w h

/-- `_flush_tick_inner`. -/
def flushTickInner (h : Host β V δ) : Attempt Uuid (Host β V δ) Unit :=
  (beforeDrain F H w h).andThen fun h reached =>
    if reached then flushDirty F H w h else (h, .ok ())

/-- `flush_tick`: the host where the tick ended, whether it raised or not. -/
def flushTick (h : Host β V δ) : Host β V δ := (flushTickInner F H w h).1

/-! ## Sessions -/

omit [DecidableEq δ] in
/-- One datablock of `_initial_scan`, which samples an Object for the visibility sweep. -/
def scanOne (h : Host β V δ) (e : Uuid × Datablock β V) : Attempt Uuid (Host β V δ) Unit :=
  let h := h.adopt e.1
  let h := { h with dirty := h.dirty.assumeKnown e.1 }
  if e.2.saved ∧ e.2.tracked then
    if F.snapshot e.1 then (h, .error e.1)
    else
      let h := h.observe e.1 e.2.snapshot
      if e.2.kind = .object && F.sample e.1 then (h, .error e.1) else (h, .ok ())
  else (h, .ok ())

omit [DecidableEq δ] in
/-- `reset_for_new_file`: the host where it ended, whether it raised or not. -/
def resetForNewFile (h : Host β V δ) : Host β V δ :=
  let h := { h with shadow := {}, debounce := {}, dirty := {}, uuidToDb := [], deadHandles := [] }
  let scanned := Attempt.forEach (scanOne F) w.dbs.entries h
  (scanned.andThen fun h _ =>
    ({ sendBootstrap F H w h with dropNextBatch := true }, .ok ())).1

/-- One call, in the world it finds. The requests and the depsgraph read no snapshot. -/
def call (H : Digests β V δ) (h : Host β V δ) (c : Faults × World β V × Call β δ) :
    Host β V δ :=
  match c.2.2 with
  | .tick => flushTick c.1 H c.2.1 h
  | .bootstrap => sendBootstrap c.1 H c.2.1 h
  | .newFile => resetForNewFile c.1 H c.2.1 h
  | _ => h.call H c.2

/-- A session of calls. -/
def run (H : Digests β V δ) (h : Host β V δ) (calls : List (Faults × World β V × Call β δ)) :
    Host β V δ :=
  calls.foldl (call H) h

end Flush

end Host.Raising

end QCBridge
