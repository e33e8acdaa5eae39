import QCBridge.Ring0.Host

/-!
# The libraries that have been answered

`_libs_served` is written by `serve_lib_requests` and by nothing else: no other call of the
host forgets a library or adds one, and so it holds the libraries answered since the session
began. One lemma for each function that writes to the host, in the order of the source.

## Key results

- `Host.call_libsServed`: every other call leaves the libraries alone
-/

namespace QCBridge

variable {β V δ : Type}

namespace Host

variable {h h' : Host β V δ} {w : World β V} {ok : Bool}

/-! ## Sending -/

@[simp] theorem act_libsServed (h : Host β V δ) (a : LedgerAct β V δ) :
    (h.act a).libsServed = h.libsServed := rfl

@[simp] theorem note_libsServed (h : Host β V δ) (n : Note β V δ) :
    (h.note n).libsServed = h.libsServed := rfl

@[simp] theorem adopt_libsServed (h : Host β V δ) (u : Uuid) :
    (h.adopt u).libsServed = h.libsServed := rfl

@[simp] theorem mark_libsServed (h : Host β V δ) (u : Uuid) (t : Tier) (now : Int) :
    (h.mark u t now).libsServed = h.libsServed := rfl

@[simp] theorem forget_libsServed (h : Host β V δ) (u : Uuid) :
    (h.forget u).libsServed = h.libsServed := rfl

@[simp] theorem touchReady_libsServed (h : Host β V δ) (u : Uuid) (now : Int) :
    (h.touchReady u now).libsServed = h.libsServed := rfl

@[simp] theorem send_libsServed (w : World β V) (h : Host β V δ) (a : LedgerAct β V δ) :
    (h.send w a).1.libsServed = h.libsServed := by
  unfold send
  dsimp only
  split <;> rfl

theorem of_send_libsServed {a : LedgerAct β V δ} (heq : h.send w a = (h', ok)) :
    h'.libsServed = h.libsServed := by
  rw [← send_libsServed w h a, heq]

@[simp] theorem sendChunks_libsServed (w : World β V) (a : LedgerAct β V δ)
    (chunks : List (Msg β V δ)) (h : Host β V δ) :
    (sendChunks w a chunks h).1.libsServed = h.libsServed := by
  induction chunks generalizing h with
  | nil => rfl
  | cons m chunks ih =>
    unfold sendChunks
    split
    next heq => rw [ih, of_send_libsServed heq]
    next heq => rw [of_send_libsServed heq]

@[simp] theorem drainBoot_libsServed (w : World β V) (h : Host β V δ) :
    (h.drainBoot w).1.libsServed = h.libsServed := by
  unfold drainBoot
  split
  · rfl
  · exact sendChunks_libsServed ..

@[simp] theorem drainLib_libsServed (w : World β V) (h : Host β V δ) :
    (h.drainLib w).1.libsServed = h.libsServed := sendChunks_libsServed ..

@[simp] theorem drainBlobs_libsServed (w : World β V) (only : Option Uuid) (uuids : List Uuid)
    (h : Host β V δ) : (drainBlobs w only uuids h).1.libsServed = h.libsServed := by
  induction uuids generalizing h with
  | nil => rfl
  | cons u uuids ih =>
    unfold drainBlobs
    split
    · exact ih h
    · dsimp only
      have hchunks := sendChunks_libsServed w (.sendT2 u)
        (((h.ledger.t2Outbox.get? u).map Outgoing.chunks).getD []) h
      split
      next heq =>
        rw [heq] at hchunks
        rw [ih]
        exact hchunks
      next heq =>
        rw [heq] at hchunks
        exact hchunks

@[simp] theorem drainT2Outbox_libsServed (w : World β V) (only : Option Uuid) (h : Host β V δ) :
    (h.drainT2Outbox w only).1.libsServed = h.libsServed := drainBlobs_libsServed ..

@[simp] theorem sendTombstone_libsServed (w : World β V) (h : Host β V δ) (u : Uuid) :
    (h.sendTombstone w u).1.libsServed = h.libsServed := by
  unfold sendTombstone
  split
  next heq => exact of_send_libsServed heq
  next heq =>
    have hsent := of_send_libsServed heq
    exact hsent

/-- What every step leaves alone, a loop does. -/
private theorem foldl_libsServed {α : Type} {f : Host β V δ → α → Host β V δ}
    (hf : ∀ h a, (f h a).libsServed = h.libsServed) (as : List α) (h : Host β V δ) :
    (as.foldl f h).libsServed = h.libsServed := by
  induction as generalizing h with
  | nil => rfl
  | cons a as ih => rw [List.foldl_cons, ih, hf]

section Flush

variable [BEq V] [DecidableEq δ] (H : Digests β V δ) (w : World β V)

/-! ## Tiers -/

omit [DecidableEq δ] in
@[simp] theorem observe_libsServed (h : Host β V δ) (u : Uuid) (snapshot : Dict Path V) :
    (h.observe u snapshot).libsServed = h.libsServed := rfl

@[simp] theorem shipBlob_libsServed (h : Host β V δ) (u : Uuid) (db : Datablock β V)
    (snapshot : Option (Dict Path V)) :
    (h.shipBlob H w u db snapshot).1.libsServed = h.libsServed := by
  unfold shipBlob
  split
  · rfl
  · dsimp only
    split
    · rfl
    · exact drainT2Outbox_libsServed ..

@[simp] theorem flushT2_libsServed (h : Host β V δ) (u : Uuid)
    (snapshot : Option (Dict Path V)) :
    (h.flushT2 H w u snapshot).1.libsServed = h.libsServed := by
  unfold flushT2
  split
  · rfl
  · split
    · dsimp only
      split
      · rfl
      · split
        · rfl
        · split
          · rfl
          · exact shipBlob_libsServed ..
    · exact shipBlob_libsServed ..

@[simp] theorem settleTargets_libsServed (changes : List (Path × V)) (h : Host β V δ)
    (targets : List Uuid) :
    (settleTargets H w changes h targets).1.libsServed = h.libsServed := by
  induction changes generalizing h targets with
  | nil => rfl
  | cons c changes ih =>
    unfold settleTargets
    split
    · exact ih h targets
    next t _ =>
      have hship := flushT2_libsServed H w (h.adopt t) t none
      rw [adopt_libsServed] at hship
      dsimp only
      split
      · -- the replica has the target
        split
        · rfl
        · rw [ih, adopt_libsServed]
      · split
        · exact hship
        · rw [ih]
          exact hship

omit [BEq V] [DecidableEq δ] in
@[simp] theorem giveBack_libsServed (h : Host β V δ) (u : Uuid) (old : Option (Dict Path V)) :
    (h.giveBack u old).libsServed = h.libsServed := by
  unfold giveBack
  dsimp only
  split <;> rfl

@[simp] theorem sendT1_libsServed (h : Host β V δ) (u : Uuid) (changes : List (Path × V))
    (old : Option (Dict Path V)) (full : Bool) :
    (h.sendT1 H w u changes old full).1.libsServed = h.libsServed := by
  unfold sendT1
  split
  · rfl
  · dsimp only
    have htargets := settleTargets_libsServed H w (settersFirst changes) h []
    split
    next heq =>
      rw [heq] at htargets
      rw [giveBack_libsServed]
      exact htargets
    next heq =>
      rw [heq] at htargets
      split
      next hsend => exact (of_send_libsServed hsend).trans htargets
      next hsend =>
        rw [giveBack_libsServed]
        exact (of_send_libsServed hsend).trans htargets

@[simp] theorem flushT2Or_libsServed (h : Host β V δ) (u : Uuid)
    (snapshot : Option (Dict Path V)) (fallback : List (Path × V)) :
    (h.flushT2Or H w u snapshot fallback).libsServed = h.libsServed := by
  have hflush := flushT2_libsServed H w h u snapshot
  unfold flushT2Or
  split
  next heq =>
    rw [heq] at hflush
    rw [sendT1_libsServed]
    exact hflush
  next heq =>
    rw [heq] at hflush
    exact hflush

@[simp] theorem flushT1_libsServed (h : Host β V δ) (u : Uuid) :
    (h.flushT1 H w u).libsServed = h.libsServed := by
  have hscene : ∀ db : Datablock β V, (if db.kind = .scene then
      { h with sceneDigest := some (H.scene db.snapshot) } else h).libsServed = h.libsServed := by
    intro db
    split <;> rfl
  unfold flushT1
  split
  · rfl
  next db _ =>
    dsimp only
    split
    · split
      · rw [flushT2Or_libsServed, observe_libsServed, hscene]
      · rw [observe_libsServed, hscene]
    · split
      · rw [flushT2Or_libsServed, observe_libsServed, hscene]
      · rw [sendT1_libsServed, observe_libsServed, hscene]

/-! ## Repairs -/

@[simp] theorem sendT1Full_libsServed (h : Host β V δ) (u : Uuid) :
    (h.sendT1Full H w u).1.libsServed = h.libsServed := by
  unfold sendT1Full
  split
  · exact sendTombstone_libsServed ..
  · split
    · exact sendT1_libsServed ..
    · rw [sendT1_libsServed, observe_libsServed]

omit [BEq V] in
@[simp] theorem resendT2_libsServed (h : Host β V δ) (u : Uuid) (expect : Option δ) :
    (h.resendT2 H w u expect).1.libsServed = h.libsServed := by
  unfold resendT2
  split
  · exact sendTombstone_libsServed ..
  · split
    · rfl
    · dsimp only
      split
      · rfl
      · exact drainT2Outbox_libsServed ..

private theorem fastResendLoop_libsServed (n : Nat) (h : Host β V δ) :
    (fastResendLoop H w n h).libsServed = h.libsServed := by
  induction n generalizing h with
  | zero => rfl
  | succ n ih =>
    unfold fastResendLoop
    split
    · rfl
    next u kind _ _ =>
      have hsent : (if kind = .tomb then h.sendTombstone w u
          else h.sendT1Full H w u).1.libsServed = h.libsServed := by
        split
        · exact sendTombstone_libsServed ..
        · exact sendT1Full_libsServed ..
      dsimp only
      split
      next heq =>
        rw [heq] at hsent
        rw [ih]
        exact hsent
      next heq =>
        rw [heq] at hsent
        exact hsent

@[simp] theorem drainFastResend_libsServed (h : Host β V δ) :
    (h.drainFastResend H w).libsServed = h.libsServed := by
  have hloop := fastResendLoop_libsServed H w fastResendPerTick h
  unfold drainFastResend
  dsimp only
  split
  · split
    next heq =>
      have hsent := of_send_libsServed heq
      exact hsent.trans hloop
    next heq => exact (of_send_libsServed heq).trans hloop
  · exact hloop

omit [BEq V] in
private theorem deltaBlobs_libsServed (n : Nat) (h : Host β V δ) :
    (deltaBlobs H w n h).1.libsServed = h.libsServed := by
  induction n generalizing h with
  | zero => rfl
  | succ n ih =>
    unfold deltaBlobs
    split
    · rfl
    next u expect _ _ =>
      have hsent := resendT2_libsServed H w h u expect
      split
      next heq =>
        rw [heq] at hsent
        rw [ih]
        exact hsent
      next heq =>
        rw [heq] at hsent
        exact hsent

private theorem deltaReasserts_libsServed (n : Nat) (h : Host β V δ) :
    (deltaReasserts H w n h).1.libsServed = h.libsServed := by
  induction n generalizing h with
  | zero => rfl
  | succ n ih =>
    unfold deltaReasserts
    split
    · rfl
    next u _ _ =>
      have hsent := sendT1Full_libsServed H w h u
      split
      next heq =>
        rw [heq] at hsent
        rw [ih]
        exact hsent
      next heq =>
        rw [heq] at hsent
        exact hsent

omit [BEq V] [DecidableEq δ] in
private theorem deltaEnd_libsServed (h : Host β V δ) :
    (h.deltaEnd w).libsServed = h.libsServed := by
  unfold deltaEnd
  split
  · split
    next heq =>
      have hsent := of_send_libsServed heq
      exact hsent
    next heq => exact of_send_libsServed heq
  · rfl

@[simp] theorem drainDelta_libsServed (h : Host β V δ) :
    (h.drainDelta H w).libsServed = h.libsServed := by
  have hdrain := drainT2Outbox_libsServed w none h
  unfold drainDelta
  split
  -- a blob is refused
  next heq =>
    rw [heq] at hdrain
    exact hdrain
  next h₁ heq =>
    rw [heq] at hdrain
    have hblobs := deltaBlobs_libsServed H w deltaPerTick h₁
    -- an entry of the repair is refused
    split
    next heq =>
      rw [heq] at hblobs
      exact hblobs.trans hdrain
    next h₂ n heq =>
      rw [heq] at hblobs
      have hrest := deltaReasserts_libsServed H w n h₂
      -- re-asserts are left for this tick, or none are
      split
      · split
        next heq =>
          rw [heq] at hrest
          exact (hrest.trans hblobs).trans hdrain
        next heq =>
          rw [heq] at hrest
          rw [deltaEnd_libsServed]
          exact (hrest.trans hblobs).trans hdrain
      · exact hblobs.trans hdrain

/-! ## Idle work and bootstraps -/

omit [BEq V] [DecidableEq δ] in
@[simp] theorem primeOne_libsServed (h : Host β V δ) (u : Uuid) :
    (h.primeOne H w u).1.libsServed = h.libsServed := by
  unfold primeOne
  split
  · rfl
  · split
    · rfl
    · split
      · rfl
      · rfl

omit [BEq V] [DecidableEq δ] in
private theorem primeLoop_libsServed (us : List Uuid) (n : Nat) (h : Host β V δ) :
    (primeLoop H w us n h).libsServed = h.libsServed := by
  induction us generalizing n h with
  | nil => rfl
  | cons u us ih =>
    unfold primeLoop
    split
    · dsimp only
      rw [ih, primeOne_libsServed]
    · rfl

omit [BEq V] [DecidableEq δ] in
@[simp] theorem primeHashes_libsServed (h : Host β V δ) :
    (h.primeHashes H w).libsServed = h.libsServed := primeLoop_libsServed ..

omit [BEq V] [DecidableEq δ] in
@[simp] theorem sendManifestBatch_libsServed (h : Host β V δ) :
    (h.sendManifestBatch w).libsServed = h.libsServed := by
  unfold sendManifestBatch
  split <;> rfl

omit [BEq V] [DecidableEq δ] in
@[simp] theorem sweepDeletions_libsServed (h : Host β V δ) :
    (h.sweepDeletions w).libsServed = h.libsServed := by
  unfold sweepDeletions
  dsimp only
  rw [foldl_libsServed fun h u => forget_libsServed h u,
    foldl_libsServed, foldl_libsServed]
  · intro h s
    split <;> rfl
  · intro h e
    split <;> rfl

omit [BEq V] [DecidableEq δ] in
private theorem linkLibraries_libsServed (libs : List (String × List String × List String))
    (h : Host β V δ) : (linkLibraries w libs h).libsServed = h.libsServed := by
  induction libs generalizing h with
  | nil => rfl
  | cons lib libs ih =>
    unfold linkLibraries
    split
    · exact ih h
    · split
      next heq =>
        have hsent := of_send_libsServed heq
        rw [ih]
        exact hsent
      next heq => rw [ih, of_send_libsServed heq]

omit [BEq V] [DecidableEq δ] in
private theorem unlinkLibraries_libsServed (paths : List String) (h : Host β V δ) :
    (unlinkLibraries w paths h).libsServed = h.libsServed := by
  induction paths generalizing h with
  | nil => rfl
  | cons path paths ih =>
    unfold unlinkLibraries
    split
    · exact ih h
    · split
      next heq =>
        have hsent := of_send_libsServed heq
        rw [ih]
        exact hsent
      next heq => rw [ih, of_send_libsServed heq]

omit [BEq V] [DecidableEq δ] in
@[simp] theorem sweepLibraries_libsServed (h : Host β V δ) :
    (h.sweepLibraries w).libsServed = h.libsServed := by
  unfold sweepLibraries
  dsimp only
  rw [unlinkLibraries_libsServed, linkLibraries_libsServed]

omit [DecidableEq δ] in
@[simp] theorem initialScan_libsServed (h : Host β V δ) :
    (h.initialScan w).libsServed = h.libsServed := by
  unfold initialScan
  apply foldl_libsServed
  intro h e
  dsimp only
  split <;> rfl

omit [BEq V] [DecidableEq δ] in
@[simp] theorem sendBootstrap_libsServed (h : Host β V δ) :
    (h.sendBootstrap H w).libsServed = h.libsServed := by
  unfold sendBootstrap sceneDigestNow
  dsimp only
  split <;> rfl

omit [DecidableEq δ] in
@[simp] theorem resetForNewFile_libsServed (h : Host β V δ) :
    (h.resetForNewFile H w).libsServed = h.libsServed := by
  unfold resetForNewFile
  simp only [sendBootstrap_libsServed, initialScan_libsServed]

/-! ## The tick -/

private theorem flushEntry_libsServed (ready : List Uuid) (s : Host β V δ × Nat) (e : Uuid × Tier) :
    (flushEntry H w ready s e).1.libsServed = s.1.libsServed := by
  unfold flushEntry
  dsimp only
  split
  · rfl
  · split
    · rfl
    · exact flushT2Or_libsServed ..
    · exact flushT1_libsServed ..

@[simp] theorem flushDirty_libsServed (h : Host β V δ) :
    (h.flushDirty H w).libsServed = h.libsServed := by
  have hentries : ∀ (ready : List Uuid) (entries : List (Uuid × Tier)) (s : Host β V δ × Nat),
      (entries.foldl (flushEntry H w ready) s).1.libsServed = s.1.libsServed := by
    intro ready entries
    induction entries with
    | nil => exact fun _ => rfl
    | cons e entries ih =>
      intro s
      rw [List.foldl_cons, ih, flushEntry_libsServed]
  unfold flushDirty
  dsimp only
  rw [hentries, foldl_libsServed fun h u => sendTombstone_libsServed w h u,
    foldl_libsServed fun h u => note_libsServed h _]

omit [BEq V] [DecidableEq δ] in
@[simp] theorem autoBoot_libsServed (h : Host β V δ) :
    (h.autoBoot H w).1.libsServed = h.libsServed := by
  unfold autoBoot
  split
  · rfl
  · split
    · rfl
    · split
      · rfl
      · split
        · rw [sendBootstrap_libsServed]
        · rfl

@[simp] theorem flushIdle_libsServed (h : Host β V δ) :
    (h.flushIdle H w).libsServed = h.libsServed := by
  have hauto := autoBoot_libsServed H w (h.sendManifestBatch w)
  rw [sendManifestBatch_libsServed] at hauto
  unfold flushIdle
  dsimp only
  split
  next heq =>
    rw [heq] at hauto
    exact hauto
  next h₁ heq =>
    rw [heq] at hauto
    have hsweeps : (h₁.sweeps w).libsServed = h₁.libsServed := by
      unfold sweeps
      split
      · simp only [sweepLibraries_libsServed, sweepDeletions_libsServed]
      · rfl
    split
    · rw [primeHashes_libsServed, hsweeps]
      exact hauto
    · rw [flushDirty_libsServed, hsweeps]
      exact hauto

@[simp] theorem flushTick_libsServed (h : Host β V δ) :
    (h.flushTick H w).libsServed = h.libsServed := by
  have hboot := drainBoot_libsServed w h
  unfold flushTick
  -- the bootstrap is not drained yet
  split
  next heq =>
    rw [heq] at hboot
    exact hboot
  next h₁ heq =>
    rw [heq] at hboot
    have hlib := drainLib_libsServed w h₁
    split
    · exact hboot
    · -- a library file is refused
      split
      next heq =>
        rw [heq] at hlib
        exact hlib.trans hboot
      next h₂ heq =>
        rw [heq] at hlib
        have hblobs := drainT2Outbox_libsServed w none h₂
        split
        -- a blob is refused
        next heq =>
          rw [heq] at hblobs
          exact (hblobs.trans hlib).trans hboot
        next h₃ heq =>
          rw [heq] at hblobs
          -- the re-assert, and then a repair or the idle path
          have hresend : (if h₃.fastResendQueue ≠ [] ∨ h₃.fastResendEnd then
              h₃.drainFastResend H w else h₃).libsServed = h₃.libsServed := by
            split
            · exact drainFastResend_libsServed H w h₃
            · rfl
          have hidle : ∀ h₄ : Host β V δ, (if h₄.deltaQueue ≠ [] ∨ h₄.deltaTail ≠ [] ∨
              h₄.deltaEndPending then h₄.drainDelta H w else h₄.flushIdle H w).libsServed =
              h₄.libsServed := by
            intro h₄
            split
            · exact drainDelta_libsServed H w h₄
            · exact flushIdle_libsServed H w h₄
          exact (hidle _).trans (hresend.trans ((hblobs.trans hlib).trans hboot))

/-! ## Calls -/

omit [BEq V] [DecidableEq δ] in
private theorem onDepsgraph_libsServed (h : Host β V δ) (updates : List Update) :
    (h.onDepsgraph w updates).libsServed = h.libsServed := by
  unfold onDepsgraph
  split
  · rfl
  · split
    · rfl
    · apply foldl_libsServed
      intro h u
      unfold noteUpdate
      split
      · rfl
      · split <;> rfl

omit [BEq V] [DecidableEq δ] in
private theorem sendDelta_libsServed (h : Host β V δ) (plan : DeltaPlan) (held : Dict Uuid δ) :
    (h.sendDelta w plan held).libsServed = h.libsServed := by
  unfold sendDelta
  dsimp only
  exact foldl_libsServed (fun h u => sendTombstone_libsServed w h u) _ _

/-- No call but `serve_lib_requests` answers a library or forgets one. -/
theorem call_libsServed (h : Host β V δ) {c : Call β δ}
    (hc : ∀ reqs, c ≠ .libraries reqs) : (h.call H (w, c)).libsServed = h.libsServed := by
  cases c with
  | tick => exact flushTick_libsServed H w h
  | depsgraph updates => exact onDepsgraph_libsServed w h updates
  | bootstrap => exact sendBootstrap_libsServed H w h
  | newFile => exact resetForNewFile_libsServed H w h
  | fastWindow gapAt => rfl
  | delta plan held => exact sendDelta_libsServed w h plan held
  | libraries reqs => exact absurd rfl (hc reqs)

end Flush

end Host

end QCBridge
