import QCBridge.Spec.Raising

/-!
# Sessions in which something raises

An exception ends a tick, or the scan of a file, between two steps of the ledger. What
every step of the ledger preserves holds wherever that is, and so after any session.

## Key results

- `Host.Raising.ledger_call`: what the steps preserve survives every call
- `Host.Raising.ledger_run`: and every session
- `Host.Raising.run_eq`: a session in which nothing raises is one of the sync loop
-/

namespace QCBridge

variable {β V δ : Type}

/-- No datablock raises, neither when it is read nor when it is sampled. -/
structure Faults.Quiet (F : Faults) : Prop where
  raises : ∀ u, F.raises u = false
  sample : ∀ u, F.sample u = false

namespace Host

/-- What every step of the ledger preserves, the moves of the loop preserve. -/
theorem keeps_ledger (w : World β V) {P : Ledger β V δ → Prop}
    (hP : ∀ l a, P l → P (l.step a)) : Keeps w fun h : Host β V δ => P h.ledger where
  same {h h'} hh hcore := by
    rwa [ledger_of_core hcore]
  act _ hh := hP _ _ hh
  adopt _ hh := hh
  requeued _ hh := hh
  tombBack _ hh := hh
  wantBoot _ hh := hh

namespace Raising

section Ledger

variable {P : Ledger β V δ → Prop} (hP : ∀ l a, P l → P (l.step a))
include hP

section Tick

variable [BEq V] [DecidableEq δ] (F : Faults) (H : Digests β V δ) (w : World β V)

/-! ## Repairs -/

omit [BEq V] [DecidableEq δ] in
/-- A message that is sent is a step of the ledger. -/
private theorem ledger_send {h : Host β V δ} (a : LedgerAct β V δ) (hh : P h.ledger) :
    P (h.send w a).1.ledger := by
  unfold Host.send
  dsimp only
  split
  · exact hP _ _ hh
  · exact hh

/-- So is a full tier-1 message, wherever it raises. -/
private theorem ledger_sendT1Full {h : Host β V δ} (u : Uuid) (hh : P h.ledger) :
    P (sendT1Full F H w h u).1.ledger := by
  have hI := keeps_ledger w hP
  unfold sendT1Full
  split
  · exact hI.sendTombstone u hh
  · split
    · exact keeps_sendT1 F H hI u _ none true hh
    · split
      · exact hh
      · exact keeps_sendT1 F H hI u _ none true hh

omit [BEq V] in
/-- A blob of the delta queue. -/
private theorem ledger_resendT2 {h : Host β V δ} (u : Uuid) (expect : Option δ) (hh : P h.ledger) :
    P (resendT2 F H w h u expect).1.ledger := by
  unfold resendT2
  split
  · exact hh
  · exact (keeps_ledger w hP).resendT2 H u expect hh

/-- The re-asserts of one tick. -/
private theorem ledger_fastResendLoop (n : Nat) {h : Host β V δ} (hh : P h.ledger) :
    P (fastResendLoop F H w n h).1.ledger := by
  induction n generalizing h with
  | zero => exact hh
  | succ n ih =>
    unfold fastResendLoop
    split
    · exact hh
    · dsimp only
      apply Attempt.andThen_invariant (I := fun h : Host β V δ => P h.ledger)
      · split
        · exact (keeps_ledger w hP).sendTombstone _ hh
        · exact ledger_sendT1Full hP F H w _ hh
      · intro h' sent _ hh'
        split
        · exact ih hh'
        · exact hh'

/-- With the end of the re-assert. -/
private theorem ledger_drainFastResend {h : Host β V δ} (hh : P h.ledger) :
    P (drainFastResend F H w h).1.ledger := by
  unfold drainFastResend
  apply Attempt.andThen_invariant (I := fun h : Host β V δ => P h.ledger)
    (ledger_fastResendLoop hP F H w _ hh)
  intro h' _ _ hh'
  have hsend := ledger_send hP w .endFast hh'
  split
  · generalize h'.send w .endFast = r at hsend
    obtain ⟨h'', _ | _⟩ := r
    · exact hsend
    · exact hsend
  · exact hh'

omit [BEq V] in
/-- The blobs of a delta. -/
private theorem ledger_deltaBlobs (n : Nat) {h : Host β V δ} (hh : P h.ledger) :
    P (deltaBlobs F H w n h).1.ledger := by
  induction n generalizing h with
  | zero => exact hh
  | succ n ih =>
    unfold deltaBlobs
    split
    · exact hh
    · apply Attempt.andThen_invariant (I := fun h : Host β V δ => P h.ledger)
        (ledger_resendT2 hP F H w _ _ hh)
      intro h' sent _ hh'
      split
      · exact ih hh'
      · exact hh'

/-- Its re-asserts. -/
private theorem ledger_deltaReasserts (n : Nat) {h : Host β V δ} (hh : P h.ledger) :
    P (deltaReasserts F H w n h).1.ledger := by
  induction n generalizing h with
  | zero => exact hh
  | succ n ih =>
    unfold deltaReasserts
    split
    · exact hh
    · apply Attempt.andThen_invariant (I := fun h : Host β V δ => P h.ledger)
        (ledger_sendT1Full hP F H w _ hh)
      intro h' sent _ hh'
      split
      · exact ih hh'
      · exact hh'

/-- The whole delta. -/
private theorem ledger_drainDelta {h : Host β V δ} (hh : P h.ledger) :
    P (drainDelta F H w h).1.ledger := by
  have hdrain := (keeps_ledger w hP).drainT2Outbox none hh
  unfold drainDelta
  generalize h.drainT2Outbox w none = r at hdrain
  obtain ⟨h₁, _ | _⟩ := r
  · exact hdrain
  · apply Attempt.andThen_invariant (I := fun h : Host β V δ => P h.ledger)
      (ledger_deltaBlobs hP F H w _ hdrain)
    intro h₂ budget _ hh₂
    cases budget with
    | none => exact hh₂
    | some n =>
      dsimp only
      split
      · apply Attempt.andThen_invariant (I := fun h : Host β V δ => P h.ledger)
          (ledger_deltaReasserts hP F H w _ hh₂)
        intro h₃ sent _ hh₃
        dsimp only
        split
        · exact (keeps_ledger w hP).deltaEnd hh₃
        · exact hh₃
      · exact hh₂

/-! ## The tick -/

omit [BEq V] [DecidableEq δ] in
/-- Priming sends nothing. -/
private theorem ledger_primeOne (u : Uuid) {h : Host β V δ} (hh : P h.ledger) :
    P (primeOne F H w h u).1.ledger := by
  unfold primeOne
  split
  · exact hh
  · exact (keeps_ledger w hP).primeOne H u hh

omit [BEq V] [DecidableEq δ] in
/-- However many there are. -/
private theorem ledger_primeLoop (uuids : List Uuid) (n : Nat) {h : Host β V δ} (hh : P h.ledger) :
    P (primeLoop F H w uuids n h).ledger := by
  induction uuids generalizing n h with
  | nil => exact hh
  | cons u uuids ih =>
    unfold primeLoop
    split
    · exact ih _ (ledger_primeOne hP F H w u hh)
    · exact hh

omit [BEq V] [DecidableEq δ] in
/-- A bootstrap. -/
private theorem ledger_sendBootstrap {h : Host β V δ} (hh : P h.ledger) :
    P (sendBootstrap F H w h).ledger := by
  have hscene : P (sceneDigestNow F H w h).ledger := by
    unfold sceneDigestNow Host.sceneDigestNow
    split
    · exact hh
    · split
      · exact hh
      · exact hh
  exact hP _ (.cutBoot w.mainfile (w.scene.bind fun _ => (sceneDigestNow F H w h).sceneDigest))
    hscene

omit [BEq V] [DecidableEq δ] in
/-- An automatic one. -/
private theorem ledger_autoBoot {h : Host β V δ} (hh : P h.ledger) :
    P (autoBoot F H w h).1.ledger := by
  unfold autoBoot
  split
  · exact hh
  · split
    · exact hh
    · split
      · exact hh
      · split
        · apply ledger_sendBootstrap hP
          exact hh
        · exact hh

omit [BEq V] [DecidableEq δ] in
/-- The sweeps, which may send links. -/
private theorem ledger_sweeps {h : Host β V δ} (hh : P h.ledger) : P (sweeps F w h).1.ledger := by
  have hsweep : KeepsSweep w fun h : Host β V δ => P h.ledger := {
    toKeeps := keeps_ledger w hP
    mark := fun _ _ _ _ hh => hh
    readopt := fun _ _ _ _ hh => hh
    forget := fun _ _ hh => hh }
  unfold sweeps
  split
  · split
    · apply Keeps.foldl (I := fun h : Host β V δ => P h.ledger) _ _ hh
      intro h s hh
      split
      · exact hh
      · exact hh
    · exact hsweep.sweeps hh
  · exact hsweep.sweeps hh

/-- The drain of the dirty set. -/
private theorem ledger_flushDirty {h : Host β V δ} (hh : P h.ledger) :
    P (flushDirty F H w h).1.ledger := by
  have hI := keeps_ledger w hP
  have hdrained : P (drained w h).ledger := by
    unfold drained
    dsimp only
    apply Keeps.foldl (I := fun h : Host β V δ => P h.ledger) fun h x hh => hI.sendTombstone x hh
    rw [foldl_note]
    exact hh
  unfold flushDirty
  apply Attempt.forEach_invariant (I := fun s : Host β V δ × Nat => P s.1.ledger) _ _ hdrained
  exact fun s e hs => keeps_flushEntry F H hI (fun _ _ hh => hh) (fun _ hh => hh) _ s e hs

omit [BEq V] [DecidableEq δ] in
/-- What the tick does before it. -/
private theorem ledger_beforeIdleDrain {h : Host β V δ} (hh : P h.ledger) :
    P (beforeIdleDrain F H w h).1.ledger := by
  have hboot := ledger_autoBoot hP F H w ((keeps_ledger w hP).sendManifestBatch hh)
  unfold beforeIdleDrain
  dsimp only
  generalize autoBoot F H w (h.sendManifestBatch w) = r at hboot
  obtain ⟨h₁, _ | _⟩ := r
  · apply Attempt.andThen_invariant (I := fun h : Host β V δ => P h.ledger)
      (ledger_sweeps hP F w hboot)
    intro h₂ _ _ hh₂
    split
    · exact ledger_primeLoop hP F H w _ _ hh₂
    · exact hh₂
  · exact hboot

/-- From the tick's beginning. -/
private theorem ledger_beforeDrain {h : Host β V δ} (hh : P h.ledger) :
    P (beforeDrain F H w h).1.ledger := by
  have hI := keeps_ledger w hP
  have hboot := hI.drainBoot hh
  unfold beforeDrain
  generalize h.drainBoot w = r at hboot
  obtain ⟨h₁, _ | _⟩ := r
  · -- each stage that gives up ends the tick before the drain
    exact hboot
  · dsimp only
    split
    · exact hboot
    · -- the library files
      have hlib := hI.drainLib hboot
      generalize h₁.drainLib w = r at hlib
      obtain ⟨h₂, _ | _⟩ := r
      · exact hlib
      · -- the blobs
        have hblobs := hI.drainT2Outbox none hlib
        dsimp only
        generalize h₂.drainT2Outbox w none = r at hblobs
        obtain ⟨h₃, _ | _⟩ := r
        · exact hblobs
        · apply Attempt.andThen_invariant (I := fun h : Host β V δ => P h.ledger)
          · -- the re-assert
            split
            · exact ledger_drainFastResend hP F H w hblobs
            · exact hblobs
          · intro h₄ _ _ hh₄
            -- a repair, or what is done before the drain of an idle tick
            split
            · exact Attempt.andThen_invariant (I := fun h : Host β V δ => P h.ledger)
                (ledger_drainDelta hP F H w hh₄) fun _ _ _ hs => hs
            · exact ledger_beforeIdleDrain hP F H w hh₄

/-- The whole tick, wherever it ends. -/
private theorem ledger_flushTick {h : Host β V δ} (hh : P h.ledger) :
    P (flushTick F H w h).ledger := by
  unfold flushTick flushTickInner
  apply Attempt.andThen_invariant (I := fun h : Host β V δ => P h.ledger)
    (ledger_beforeDrain hP F H w hh)
  intro h' reached _ hh'
  split
  · exact ledger_flushDirty hP F H w hh'
  · exact hh'

/-! ## Sessions -/

omit [DecidableEq δ] in
/-- A new file. -/
private theorem ledger_resetForNewFile {h : Host β V δ} (hh : P h.ledger) :
    P (resetForNewFile F H w h).ledger := by
  unfold resetForNewFile
  apply Attempt.andThen_invariant (I := fun h : Host β V δ => P h.ledger)
  · have hone : ∀ (h : Host β V δ) e, P h.ledger → P (scanOne F h e).1.ledger := by
      intro h e hh
      unfold scanOne
      dsimp only
      split
      · split
        · exact hh
        · split
          · exact hh
          · exact hh
      · exact hh
    exact Attempt.forEach_invariant (I := fun h : Host β V δ => P h.ledger) hone _ hh
  · exact fun h' _ _ hh' => ledger_sendBootstrap hP F H w hh'

end Tick

variable [BEq V] [DecidableEq δ] (H : Digests β V δ)

/-- What the steps of the ledger preserve survives every call, wherever it raises. -/
theorem ledger_call (c : Faults × World β V × Call β δ) {h : Host β V δ} (hh : P h.ledger) :
    P (call H h c).ledger := by
  obtain ⟨F, w, c⟩ := c
  have hI : KeepsMark w fun h : Host β V δ => P h.ledger := {
    toKeeps := keeps_ledger w hP
    mark := fun _ _ _ _ hh => hh }
  cases c with
  | tick => exact ledger_flushTick hP F H w hh
  | depsgraph updates => exact hI.onDepsgraph updates hh
  | bootstrap => exact ledger_sendBootstrap hP F H w hh
  | newFile => exact ledger_resetForNewFile hP F H w hh
  | fastWindow gapAt => exact hh
  | delta plan held => exact hI.sendDelta plan held hh
  | libraries reqs => exact hI.serveLibRequests reqs hh

/-- What the steps of the ledger preserve survives every session. -/
theorem ledger_run (calls : List (Faults × World β V × Call β δ)) {h : Host β V δ}
    (hh : P h.ledger) : P (run H h calls).ledger :=
  Keeps.foldl (f := call H) (I := fun h : Host β V δ => P h.ledger)
    (fun _ c hh => ledger_call hP H c hh) calls hh

end Ledger

/-! ## Sessions in which nothing raises -/

variable [BEq V] [DecidableEq δ] (H : Digests β V δ)

/-- A call in which nothing raises is the call of the sync loop. -/
private theorem call_eq {c : Faults × World β V × Call β δ} (hc : c.1.Quiet) (h : Host β V δ) :
    call H h c = h.call H c.2 := by
  obtain ⟨F, w, c⟩ := c
  cases c with
  | tick => exact flushTick_eq H hc.raises hc.sample h
  | bootstrap => exact sendBootstrap_eq H hc.raises h
  | newFile => exact resetForNewFile_eq H hc.raises hc.sample h
  | depsgraph | fastWindow | delta | libraries => rfl

/-- A session in which nothing raises is a session of the sync loop: what holds of these holds of
    it. -/
theorem run_eq (calls : List (Faults × World β V × Call β δ)) (hquiet : ∀ c ∈ calls, c.1.Quiet)
    (h : Host β V δ) : run H h calls = h.run H (calls.map Prod.snd) := by
  unfold run Host.run
  induction calls generalizing h with
  | nil => rfl
  | cons c calls ih =>
    rw [List.map_cons, List.foldl_cons, List.foldl_cons, call_eq H (hquiet c List.mem_cons_self)]
    exact ih (fun c hc => hquiet c (List.mem_cons_of_mem _ hc)) _

end Raising

end Host

end QCBridge
