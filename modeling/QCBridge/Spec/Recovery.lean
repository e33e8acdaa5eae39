import QCBridge.Spec.Turns

/-!
# A tick that goes on

Where nothing raises but the last entry of the drain, a tick takes its share of every repair
queue and comes to the drain, unless a delta or the automatic bootstrap comes first. An entry
of the dirty set is answered there, or it keeps its place, or it comes nearer.

## Key results

- `Host.Flows`: when nothing holds a tick up
- `Host.flushTick_repaired`: what it does for the repairs
- `Host.flushTick_turn`, `Host.flushTick_tomb`: what it does for an entry of the dirty set
-/

namespace QCBridge

variable {β V δ : Type}

namespace Host

/-! ## The outboxes -/

/-- The host when a tick comes to the repairs. -/
def atRepairs (w : World β V) (h : Host β V δ) : Host β V δ :=
  (((h.drainBoot w).1.drainLib w).1.drainT2Outbox w none).1

/-- Sending asks for no bootstrap. -/
private theorem autoBootAt_send (w : World β V) (h : Host β V δ) (a : LedgerAct β V δ) :
    (h.send w a).1.autoBootAt = h.autoBootAt := by
  unfold Host.send
  dsimp only
  split
  · rfl
  · rfl

/-- Nor do the chunks of a blob. -/
private theorem autoBootAt_sendChunks (w : World β V) (a : LedgerAct β V δ)
    (chunks : List (Msg β V δ)) (h : Host β V δ) :
    (sendChunks w a chunks h).1.autoBootAt = h.autoBootAt := by
  induction chunks generalizing h with
  | nil => rfl
  | cons m chunks ih =>
    have hsend := autoBootAt_send w h a
    unfold Host.sendChunks
    generalize h.send w a = r at hsend
    obtain ⟨h', _ | _⟩ := r
    · exact hsend
    · exact (ih h').trans hsend

/-- Nor does the outbox. -/
private theorem autoBootAt_drainBlobs (w : World β V) (only : Option Uuid) (uuids : List Uuid)
    (h : Host β V δ) : (drainBlobs w only uuids h).1.autoBootAt = h.autoBootAt := by
  induction uuids generalizing h with
  | nil => rfl
  | cons u uuids ih =>
    unfold Host.drainBlobs
    split
    · exact ih h
    · have hsent := autoBootAt_sendChunks w (.sendT2 u)
        (((h.ledger.t2Outbox.get? u).map Outgoing.chunks).getD []) h
      dsimp only
      generalize sendChunks w (.sendT2 u)
        (((h.ledger.t2Outbox.get? u).map Outgoing.chunks).getD []) h = r at hsent
      obtain ⟨h', _ | _⟩ := r
      · exact hsent
      · exact (ih _).trans hsent

/-- Nor does the first half of the tick. -/
theorem autoBootAt_atRepairs (w : World β V) (h : Host β V δ) :
    (atRepairs w h).autoBootAt = h.autoBootAt := by
  have hboot : (h.drainBoot w).1.autoBootAt = h.autoBootAt := by
    unfold Host.drainBoot
    split
    · rfl
    · exact autoBootAt_sendChunks ..
  exact (autoBootAt_drainBlobs ..).trans ((autoBootAt_sendChunks ..).trans hboot)

/-- What every move preserves holds when the tick comes to the repairs. -/
private theorem Keeps.atRepairs {w : World β V} {I : Host β V δ → Prop} (hI : Keeps w I)
    {h : Host β V δ} (hh : I h) : I (atRepairs w h) :=
  hI.drainT2Outbox none (hI.drainLib (hI.drainBoot hh))

section Accepted

variable {w : World β V} (hacc : w.Accepting) [BEq V] [DecidableEq δ] (F : Faults)
  (H : Digests β V δ)
include hacc

omit [BEq V] [DecidableEq δ] in
/-- The outboxes are drained. -/
theorem atRepairs_accepted {h : Host β V δ} (hloaded : h.ledger.Loaded) :
    (h.drainBoot w).2 = true ∧ ((h.drainBoot w).1.drainLib w).2 = true ∧
      (((h.drainBoot w).1.drainLib w).1.drainT2Outbox w none).2 = true ∧
      (h.drainBoot w).1.suppressMarks = h.suppressMarks ∧ Steady h (atRepairs w h) := by
  have hboot : (h.drainBoot w).2 = true ∧ (h.drainBoot w).1.frame = h.frame := by
    unfold Host.drainBoot
    split
    · exact ⟨rfl, rfl⟩
    · exact sendChunks_accepted hacc ..
  have hlib : ((h.drainBoot w).1.drainLib w).2 = true ∧
      ((h.drainBoot w).1.drainLib w).1.frame = (h.drainBoot w).1.frame :=
    sendChunks_accepted hacc ..
  have hI := keeps_loaded (δ := δ) w
  obtain ⟨hok, hsteady⟩ := drainT2Outbox_accepted hacc (hI.drainLib (hI.drainBoot hloaded))
  exact ⟨hboot.1, hlib.1, hok, suppressMarks_of_frame hboot.2,
    hsteady.frame.trans (hlib.2.trans hboot.2), hsteady.clear⟩

omit hacc in
/-- An empty queue without an end to send: nothing happens. -/
theorem drainFastResend_idle (w : World β V) {h : Host β V δ} (hqueue : h.fastResendQueue = [])
    (hend : h.fastResendEnd = false) : h.drainFastResend H w = h := by
  unfold Host.drainFastResend
  rw [show fastResendLoop H w fastResendPerTick h = h by
    rw [fastResendPerTick, fastResendLoop, hqueue]]
  dsimp only
  rw [if_neg (by simp [hend])]

/-- A tick comes to the repairs. -/
private theorem beforeDrain_accepted {h : Host β V δ} (hloaded : h.ledger.Loaded)
    (hmarks : h.suppressMarks = false) (hsafe : FastSafe F H w fastResendPerTick (atRepairs w h)) :
    Raising.beforeDrain F H w h =
      if ((atRepairs w h).drainFastResend H w).deltaQueue ≠ [] ∨
          ((atRepairs w h).drainFastResend H w).deltaTail ≠ [] ∨
          ((atRepairs w h).drainFastResend H w).deltaEndPending then
        (Raising.drainDelta F H w ((atRepairs w h).drainFastResend H w)).andThen
          fun h _ => (h, .ok false)
      else Raising.beforeIdleDrain F H w ((atRepairs w h).drainFastResend H w) := by
  obtain ⟨hboot, hlib, hblobs, hmarks', hsteady⟩ := atRepairs_accepted hacc hloaded
  obtain ⟨heq, -, -⟩ := drainFastResend_safe hacc H F hsteady.clear hsafe
  rw [hmarks] at hmarks'
  unfold Raising.beforeDrain
  rw [show h.drainBoot w = ((h.drainBoot w).1, true) from Prod.ext rfl hboot]
  dsimp only
  rw [if_neg (by simp [hmarks']),
    show (h.drainBoot w).1.drainLib w = (((h.drainBoot w).1.drainLib w).1, true) from
      Prod.ext rfl hlib]
  dsimp only
  rw [show ((h.drainBoot w).1.drainLib w).1.drainT2Outbox w none = (atRepairs w h, true) from
    Prod.ext rfl hblobs]
  dsimp only
  have hresent : (if (atRepairs w h).fastResendQueue ≠ [] ∨
        (atRepairs w h).fastResendEnd = true then
        Raising.drainFastResend F H w (atRepairs w h) else (atRepairs w h, .ok ())) =
      ((atRepairs w h).drainFastResend H w, .ok ()) := by
    split
    · -- the re-assert has entries, or its end to send
      exact heq
    · -- without either it does nothing, so the test makes no difference
      rename_i hidle
      rw [not_or, not_not, Bool.not_eq_true] at hidle
      rw [drainFastResend_idle H w hidle.1 hidle.2]
  rw [hresent, Attempt.andThen_ok]

end Accepted

/-! ## Idle work -/

/-- A delta is under way. -/
def Pending (h : Host β V δ) : Prop :=
  h.deltaQueue ≠ [] ∨ h.deltaTail ≠ [] ∨ h.deltaEndPending = true

/-- No datablock that the host knows raises in a sweep that is due. -/
def SweepSafe (F : Faults) (w : World β V) (h : Host β V δ) : Prop :=
  sweepIntervalMs ≤ w.now - h.lastSweep →
    ∀ e ∈ w.dbs.entries, h.Registered e.1 → F.sampling e = false

/-- What the idle work up to the sweeps leaves alone. -/
structure Idled (h h' : Host β V δ) : Prop where
  frame : h'.frame = h.frame
  outbox : h'.ledger.t2Outbox = h.ledger.t2Outbox
  handles : (h'.uuidToDb, h'.deadHandles) = (h.uuidToDb, h.deadHandles)
  lastSweep : h'.lastSweep = h.lastSweep
  journal : Extends h.journal h'

/-- Idle work leaves the handles. -/
theorem Idled.uuidToDb {h h' : Host β V δ} (hidled : Idled h h') : h'.uuidToDb = h.uuidToDb :=
  congrArg Prod.fst hidled.handles

/-- And so what is registered. -/
theorem Idled.registered {h h' : Host β V δ} (hidled : Idled h h') (u : Uuid) :
    h'.Registered u ↔ h.Registered u := by
  have hdead : h'.deadHandles = h.deadHandles := congrArg Prod.snd hidled.handles
  unfold Registered
  rw [hidled.uuidToDb, hdead]

/-- A clear host stays clear. -/
theorem Idled.clear {h h' : Host β V δ} (hidled : Idled h h') (hclear : h.Clear) : h'.Clear := by
  intro u
  rw [hidled.outbox]
  exact hclear u

/-- And no note is taken back. -/
theorem Idled.later {h h' : Host β V δ} (hidled : Idled h h') {j : List (Note β V δ)}
    (hh : Extends j h) : Extends j h' := by
  obtain ⟨notes, hjournal⟩ := hidled.journal
  exact hh.move notes hjournal

section Idle

variable (F : Faults) (H : Digests β V δ) (w : World β V)

/-- A manifest batch is idle work. -/
private theorem sendManifestBatch_idled (h : Host β V δ) :
    Idled h (h.sendManifestBatch w) ∧ (h.sendManifestBatch w).autoBootAt = h.autoBootAt := by
  unfold Host.sendManifestBatch
  split
  · exact ⟨⟨rfl, rfl, rfl, rfl, .refl h⟩, rfl⟩
  · exact ⟨⟨rfl, rfl, rfl, rfl, .refl h⟩, rfl⟩

/-- So is a bootstrap, while no delta is pending. -/
private theorem sendBootstrap_idled {h : Host β V δ} (hdelta : ¬ h.Pending)
    (hmarks : h.suppressMarks = false) :
    Idled h (Raising.sendBootstrap F H w h) ∧
      (Raising.sendBootstrap F H w h).autoBootAt = h.autoBootAt := by
  unfold Pending at hdelta
  rw [not_or, not_or, not_not, not_not, Bool.not_eq_true] at hdelta
  -- the bootstrap writes the Scene's digest, and then queues the file
  have hscene : ∃ d, Raising.sceneDigestNow F H w h = { h with sceneDigest := d } := by
    unfold Raising.sceneDigestNow Host.sceneDigestNow
    split
    · exact ⟨_, rfl⟩
    · split
      · exact ⟨_, rfl⟩
      · exact ⟨_, rfl⟩
  obtain ⟨d, hscene⟩ := hscene
  unfold Raising.sendBootstrap
  rw [hscene]
  refine ⟨⟨?_, rfl, rfl, rfl, ⟨[_], rfl⟩⟩, rfl⟩
  simp only [frame, act, hdelta, hmarks]

/-- The automatic bootstrap asks for nothing but itself, and once. -/
private theorem autoBoot_idled {h : Host β V δ} (hdelta : ¬ h.Pending)
    (hmarks : h.suppressMarks = false) :
    Idled h (Raising.autoBoot F H w h).1 ∧
      ((Raising.autoBoot F H w h).2 = true →
        h.autoBootAt ≠ none ∧ (Raising.autoBoot F H w h).1.autoBootAt = none) := by
  unfold Raising.autoBoot
  split
  · exact ⟨⟨rfl, rfl, rfl, rfl, .refl h⟩, nofun⟩
  · rename_i t hat
    split
    · exact ⟨⟨rfl, rfl, rfl, rfl, .refl h⟩, nofun⟩
    · split
      · -- too soon after the last one: put off
        exact ⟨⟨rfl, rfl, rfl, rfl, ⟨[_], rfl⟩⟩, nofun⟩
      · split
        · -- due, and nothing is under way
          obtain ⟨hidled, hnone⟩ := sendBootstrap_idled F H w
            (h := { h with autoBootAt := none, lastAutoBoot := some w.now }) hdelta hmarks
          refine ⟨⟨hidled.frame, hidled.outbox, hidled.handles, hidled.lastSweep,
            hidled.journal⟩, fun _ => ⟨?_, hnone⟩⟩
          rw [hat]
          simp
        · exact ⟨⟨rfl, rfl, rfl, rfl, .refl h⟩, nofun⟩

/-- Idle work and idle work is idle work. -/
theorem Idled.trans {h h₁ h₂ : Host β V δ} (h₁₂ : Idled h₁ h₂) (h₀₁ : Idled h h₁) :
    Idled h h₂ where
  frame := h₁₂.frame.trans h₀₁.frame
  outbox := h₁₂.outbox.trans h₀₁.outbox
  handles := h₁₂.handles.trans h₀₁.handles
  lastSweep := h₁₂.lastSweep.trans h₀₁.lastSweep
  journal := h₁₂.later h₀₁.journal

/-- The idle part of a tick queues a bootstrap, or comes to the drain if something is
    dirty. -/
private theorem beforeIdleDrain_idled {h : Host β V δ} (hdelta : ¬ h.Pending)
    (hmarks : h.suppressMarks = false) (hsafe : SweepSafe F w h) :
    (∃ h₁, Idled h h₁ ∧ h.autoBootAt ≠ none ∧ h₁.autoBootAt = none ∧
        Raising.beforeIdleDrain F H w h = (h₁, .ok false)) ∨
      ∃ h₁, Idled h h₁ ∧ Raising.beforeIdleDrain F H w h =
        if w.paused ∨ (h₁.sweeps w).dirty.isEmpty then
          (Raising.primeLoop F H w (h₁.sweeps w).primeQueue.reverse 0 (h₁.sweeps w), .ok false)
        else (h₁.sweeps w, .ok true) := by
  obtain ⟨hmanifest, hat⟩ := sendManifestBatch_idled w h
  have hdelta' : ¬ (h.sendManifestBatch w).Pending := by
    unfold Pending
    rw [deltaQueue_of_frame hmanifest.frame, deltaTail_of_frame hmanifest.frame,
      deltaEndPending_of_frame hmanifest.frame]
    exact hdelta
  obtain ⟨hboot, hfired⟩ :=
    autoBoot_idled F H w hdelta' ((suppressMarks_of_frame hmanifest.frame).trans hmarks)
  have hidled := hboot.trans hmanifest
  unfold Raising.beforeIdleDrain
  dsimp only
  generalize Raising.autoBoot F H w (h.sendManifestBatch w) = r at hidled hfired
  obtain ⟨h₁, _ | _⟩ := r
  · right
    -- no datablock raises in the sweep, so it is the total one
    have hsweeps : Raising.sweeps F w h₁ = (h₁.sweeps w, .ok ()) := by
      apply Raising.sweeps_returned
      intro hdue e he hregistered
      rw [hidled.lastSweep] at hdue
      exact hsafe hdue e he ((hidled.registered _).mp hregistered)
    refine ⟨h₁, hidled, ?_⟩
    dsimp only
    rw [hsweeps, Attempt.andThen_ok]
  · left
    obtain ⟨hsome, hnone⟩ := hfired rfl
    rw [hat] at hsome
    exact ⟨h₁, hidled, hsome, hnone, rfl⟩

end Idle

/-! ## Sweeps -/

theorem Idled.refl (h : Host β V δ) : Idled h h := ⟨rfl, rfl, rfl, rfl, .refl h⟩

section Libraries

variable {w : World β V} (hacc : w.Accepting)
include hacc

/-- The links of new libraries are idle work. -/
private theorem linkLibraries_idled (libs : List (String × List String × List String))
    (h : Host β V δ) : Idled h (linkLibraries w libs h) := by
  induction libs generalizing h with
  | nil => exact .refl h
  | cons lib libs ih =>
    obtain ⟨path, used⟩ := lib
    unfold Host.linkLibraries
    rw [send_accepted hacc]
    split
    · exact ih h
    · exact (ih _).trans ⟨rfl, rfl, rfl, rfl, ⟨[.act (.sendCold .link path)], rfl⟩⟩

/-- So are the unlinks of old ones. -/
private theorem unlinkLibraries_idled (paths : List String) (h : Host β V δ) :
    Idled h (unlinkLibraries w paths h) := by
  induction paths generalizing h with
  | nil => exact .refl h
  | cons path paths ih =>
    unfold Host.unlinkLibraries
    rw [send_accepted hacc]
    split
    · exact ih h
    · exact (ih _).trans ⟨rfl, rfl, rfl, rfl, ⟨[.act (.sendCold .unlink path)], rfl⟩⟩

/-- And with them the sweep of libraries. -/
private theorem sweepLibraries_idled (h : Host β V δ) : Idled h (h.sweepLibraries w) :=
  (unlinkLibraries_idled hacc _ _).trans (linkLibraries_idled hacc _ h)

end Libraries

/-- The entry of `u` through a sweep, which began at `h₀`: it keeps its place, and its window
    is over as it was, or at once, unless the datablock was not known. -/
structure Waits (w : World β V) (u : Uuid) (h₀ h : Host β V δ) : Prop where
  marked : ∃ t, h.dirty.entries.get? u = some (.dirty t)
  touched : ∃ τ, h.debounce.touched.get? u = some τ ∧
    (h₀.debounce.touched.get? u = some τ ∨ τ = w.now - debounceMs ∨
      τ = w.now ∧ u ∉ h₀.uuidToDb ∧ u ∈ h.uuidToDb)
  ahead : h.dirty.ahead u ≤ h₀.dirty.ahead u
  known : u ∈ h₀.uuidToDb → u ∈ h.uuidToDb

/-- What a sweep leaves of the outboxes and of the rest of the frame. -/
def swept (h : Host β V δ) :=
  (h.ledger, h.fastResendQueue, h.fastResendEnd, h.deltaQueue, h.deltaTail,
    h.deltaEndPending, h.suppressMarks)

/-- The tombstone of `u` through a sweep. -/
def TombWaits (u : Uuid) (h : Host β V δ) : Prop :=
  h.dirty.entries.get? u = some .tombstone ∧ u ∈ h.dirty.sent

section Sweep

variable {w : World β V} {u : Uuid} {h₀ h : Host β V δ}

/-- What waits has an entry. -/
private theorem Waits.mem_keys (hh : Waits w u h₀ h) : u ∈ h.dirty.entries.keys := by
  obtain ⟨t, hmarked⟩ := hh.marked
  exact (Dict.mem_keys_iff ..).mpr ⟨_, hmarked⟩

/-- Another mark leaves it waiting. -/
theorem Waits.mark (hh : Waits w u h₀ h) (x : Uuid) (t : Tier) :
    Waits w u h₀ (h.mark x t (w.now - debounceMs)) := by
  obtain ⟨t₀, hmarked⟩ := hh.marked
  obtain ⟨τ, htouched, hτ⟩ := hh.touched
  refine ⟨?_, ?_, ?_, hh.known⟩
  · -- a mark of `u` itself leaves it dirty
    unfold Host.mark
    dsimp only
    rw [DirtySet.get?_mark]
    split
    · rename_i heq
      rw [heq, hmarked]
      exact ⟨_, rfl⟩
    · exact ⟨t₀, hmarked⟩
  · unfold Host.mark
    dsimp only
    rw [Debouncer.get?_touch]
    split
    · exact ⟨_, rfl, .inr (.inl rfl)⟩
    · exact ⟨τ, htouched, hτ⟩
  · exact (DirtySet.ahead_mark hh.mem_keys x t).trans_le hh.ahead

/-- So does an adoption. -/
theorem Waits.readopt (hh : Waits w u h₀ h) {x : Uuid} (hnew : x ∉ h.uuidToDb) :
    Waits w u h₀ (((h.adopt x).mark x .t2 w.now).note (.readopted x)) := by
  obtain ⟨t₀, hmarked⟩ := hh.marked
  obtain ⟨τ, htouched, hτ⟩ := hh.touched
  have hadopt : ∀ {v}, v ∈ h.uuidToDb → v ∈ (h.adopt x).uuidToDb :=
    fun hv => List.mem_insert_of_mem hv
  refine ⟨?_, ?_, ?_, fun hknown => hadopt (hh.known hknown)⟩
  · show ∃ t, (h.dirty.mark x .t2).entries.get? u = some (.dirty t)
    rw [DirtySet.get?_mark]
    split
    · rename_i heq
      rw [heq, hmarked]
      exact ⟨_, rfl⟩
    · exact ⟨t₀, hmarked⟩
  · show ∃ τ, (h.debounce.touch x w.now).touched.get? u = some τ ∧ _
    rw [Debouncer.get?_touch]
    split
    · rename_i heq
      -- `u` is found again: its window opens now
      subst heq
      exact ⟨_, rfl, .inr (.inr ⟨rfl, fun hknown => hnew (hh.known hknown), mem_adopt h x⟩)⟩
    · refine ⟨τ, htouched, ?_⟩
      rcases hτ with hsame | hnow | ⟨hτ, hold, hknown⟩
      · exact .inl hsame
      · exact .inr (.inl hnow)
      · exact .inr (.inr ⟨hτ, hold, hadopt hknown⟩)
  · exact (DirtySet.ahead_mark hh.mem_keys x .t2).trans_le hh.ahead

/-- So does another datablock that is forgotten. -/
theorem Waits.forget (hh : Waits w u h₀ h) {x : Uuid} (hne : x ≠ u) :
    Waits w u h₀ (h.forget x) := by
  obtain ⟨t₀, hmarked⟩ := hh.marked
  obtain ⟨τ, htouched, hτ⟩ := hh.touched
  have hstay : ∀ {v}, v ≠ x → v ∈ h.uuidToDb → v ∈ h.uuidToDb.erase x :=
    fun hv hmem => (List.mem_erase_of_ne hv).mpr hmem
  refine ⟨?_, ?_, ?_, fun hknown => hstay hne.symm (hh.known hknown)⟩
  · show ∃ t, (h.dirty.markDeleted x).entries.get? u = some (.dirty t)
    rw [get?_markDeleted_of_ne h.dirty hne]
    exact ⟨t₀, hmarked⟩
  · show ∃ τ, (h.debounce.drop x).touched.get? u = some τ ∧ _
    rw [show (h.debounce.drop x).touched.get? u = h.debounce.touched.get? u from
      Dict.get?_erase_of_ne _ hne]
    refine ⟨τ, htouched, ?_⟩
    rcases hτ with hsame | hnow | ⟨hτ, hold, hknown⟩
    · exact .inl hsame
    · exact .inr (.inl hnow)
    · exact .inr (.inr ⟨hτ, hold, hstay hne.symm hknown⟩)
  · exact (DirtySet.ahead_markDeleted hne.symm hh.mem_keys).trans hh.ahead

/-- A tombstone that waits is not overwritten by a mark. -/
theorem TombWaits.mark (hh : TombWaits u h) (x : Uuid) (t : Tier) {d : DirtySet}
    (hd : d = h.dirty.mark x t) : d.entries.get? u = some .tombstone ∧ u ∈ d.sent := by
  subst hd
  constructor
  · rw [DirtySet.get?_mark]
    split
    · rename_i heq
      rw [heq, hh.1]
    · exact hh.1
  · unfold DirtySet.mark
    split
    · exact hh.2
    · exact hh.2
    · exact hh.2

/-- Nor by another datablock that is forgotten. -/
theorem TombWaits.forget (hh : TombWaits u h) (x : Uuid) : TombWaits u (h.forget x) := by
  by_cases hx : x = u
  · -- deleted twice: the peer may still know it, so it stays a tombstone
    subst hx
    have hdirty : (h.forget x).dirty = { h.dirty with
        entries := h.dirty.entries.insert x .tombstone } := by
      show h.dirty.markDeleted x = _
      unfold DirtySet.markDeleted
      rw [if_pos hh.2]
    unfold TombWaits
    rw [hdirty]
    exact ⟨Dict.get?_insert_self .., hh.2⟩
  · refine ⟨(get?_markDeleted_of_ne h.dirty hx).trans hh.1, ?_⟩
    show u ∈ (h.dirty.markDeleted x).sent
    unfold DirtySet.markDeleted
    split
    · exact hh.2
    · exact hh.2

/-- What marks, finds and losses preserve survives the sweep of the datablocks. -/
private theorem sweepDeletions_invariant {I : Host β V δ → Prop}
    (hmark : ∀ {h} x t, I h → I (h.mark x t (w.now - debounceMs)))
    (hreadopt : ∀ {h} x, ¬ h.Registered x → I h →
      I (((h.adopt x).mark x .t2 w.now).note (.readopted x)))
    (hforget : ∀ {h} x, I h → I (h.forget x)) (hh : I h) : I (h.sweepDeletions w) := by
  unfold Host.sweepDeletions
  apply Keeps.foldl fun h x => hforget x
  apply Keeps.foldl
  · intro h e hh
    split
    · rename_i hnew
      exact hreadopt e.1 hnew.2 hh
    · exact hh
  · apply Keeps.foldl _ w.swept hh
    intro h s hh
    split
    · exact hmark s.1 s.2 hh
    · exact hh

/-- A sweep sends no blob and touches no repair. -/
private theorem swept_sweepDeletions :
    (h.sweepDeletions w).swept = h.swept ∧ Extends h.journal (h.sweepDeletions w) := by
  have hI : ∀ {h' : Host β V δ}, h'.swept = h.swept ∧ Extends h.journal h' →
      ∀ {h'' : Host β V δ} notes, h''.swept = h'.swept → h''.journal = h'.journal ++ notes →
        h''.swept = h.swept ∧ Extends h.journal h'' :=
    fun hh _ notes hswept hjournal => ⟨hswept.trans hh.1, hh.2.move notes hjournal⟩
  apply sweepDeletions_invariant (I := fun h' => h'.swept = h.swept ∧ Extends h.journal h')
  · exact fun x t hh => hI hh [] rfl (List.append_nil _).symm
  · exact fun x _ hh => hI hh [.readopted x] rfl rfl
  · exact fun x hh => hI hh [.forgotten x] rfl rfl
  · exact ⟨rfl, .refl h⟩

/-- The entry of `u` goes through a sweep, unless its datablock is found gone. -/
private theorem waits_sweepDeletions (hmarked : ∃ t, h.dirty.entries.get? u = some (.dirty t))
    (htouched : (h.debounce.touched.get? u).isSome) :
    Waits w u h (h.sweepDeletions w) ∨
      Said (· = .forgotten u) h.journal (h.sweepDeletions w) := by
  obtain ⟨τ, hτ⟩ := Option.isSome_iff_exists.mp htouched
  have hstart : Waits w u h h := ⟨hmarked, ⟨τ, hτ, .inl hτ⟩, Nat.le_refl _, id⟩
  -- the journal only grows, so what is said in the sweep stays said
  apply And.right (a := Extends h.journal (h.sweepDeletions w))
  apply sweepDeletions_invariant (I := fun h' => Extends h.journal h' ∧
    (Waits w u h h' ∨ Said (· = .forgotten u) h.journal h'))
  · rintro h' x t ⟨hext, hh⟩
    exact ⟨hext.move [] (List.append_nil _).symm, hh.imp (fun hh => hh.mark x t)
      fun hh => hh.move [] (List.append_nil _).symm⟩
  · rintro h' x hnew ⟨hext, hh⟩
    exact ⟨hext.move [.readopted x] rfl, hh.imp (fun hh => hh.readopt fun hx => hnew (.inl hx))
      fun hh => hh.move [.readopted x] rfl⟩
  · rintro h' x ⟨hext, hh⟩
    refine ⟨hext.move [.forgotten x] rfl, ?_⟩
    -- found gone: said, and the entry is given up
    by_cases hx : x = u
    · exact .inr (hext.said (.forgotten x) rfl (congrArg _ hx))
    · exact hh.imp (fun hh => hh.forget hx) fun hh => hh.move [.forgotten x] rfl
  · exact ⟨.refl h, .inl hstart⟩

/-- Nor by a sweep. -/
private theorem tombWaits_sweepDeletions (hh : TombWaits u h) :
    TombWaits u (h.sweepDeletions w) := by
  apply sweepDeletions_invariant (I := TombWaits u)
  · exact fun x t hh => hh.mark x t rfl
  · exact fun x _ hh => hh.mark x .t2 rfl
  · exact fun x hh => hh.forget x
  · exact hh

end Sweep

/-! ## Ticks -/

section Tick

variable [BEq V] [DecidableEq δ]

/-- The host when a tick is done with the re-assert. -/
def reasserted (H : Digests β V δ) (w : World β V) (h : Host β V δ) : Host β V δ :=
  (atRepairs w h).drainFastResend H w

/-- Sync is not paused, and nothing raises in the turns that the tick gives to the repairs,
    in the sweep, and in the drain but, in its last turn, the datablock of that entry. -/
structure Flows (F : Faults) (H : Digests β V δ) (w : World β V) (h : Host β V δ) : Prop where
  paused : w.paused = false
  fast : FastSafe F H w fastResendPerTick (atRepairs w h)
  delta : DeltaSafe F H w (reasserted H w h)
  sweep : ¬ (reasserted H w h).Pending → SweepSafe F w (reasserted H w h)
  last : RaisesLast F H w h

variable {w : World β V} (hacc : w.Accepting) (F : Faults) (H : Digests β V δ)
include hacc

/-- The re-assert of a tick, its window since the tick began. -/
private theorem reasserted_steady {h : Host β V δ} (hloaded : h.ledger.Loaded)
    (hsafe : FastSafe F H w fastResendPerTick (atRepairs w h)) :
    Steady (fastDone h) (reasserted H w h) := by
  obtain ⟨-, -, -, -, hsteady⟩ := atRepairs_accepted hacc hloaded
  obtain ⟨-, hdone, -⟩ := drainFastResend_safe hacc H F hsteady.clear hsafe
  have hframe := hsteady.frame
  simp only [frame, Prod.mk.injEq] at hframe
  refine ⟨hdone.frame.trans ?_, hdone.clear⟩
  simp only [frame, fastDone, hframe]

omit hacc [BEq V] [DecidableEq δ] in
/-- A delta is pending by its queues alone. -/
theorem Pending.congr {h h' : Host β V δ} (hqueue : h'.deltaQueue = h.deltaQueue)
    (htail : h'.deltaTail = h.deltaTail) (hend : h'.deltaEndPending = h.deltaEndPending) :
    h'.Pending ↔ h.Pending := by
  unfold Pending
  rw [hqueue, htail, hend]

/-- A re-assert leaves the delta pending. -/
private theorem reasserted_pending {h : Host β V δ} (hloaded : h.ledger.Loaded)
    (hsafe : FastSafe F H w fastResendPerTick (atRepairs w h)) :
    (reasserted H w h).Pending ↔ h.Pending := by
  have hframe := (reasserted_steady hacc F H hloaded hsafe).frame
  exact Pending.congr (deltaQueue_of_frame hframe :) (deltaTail_of_frame hframe :)
    (deltaEndPending_of_frame hframe :)

/-- How a tick ends: in the delta, with a bootstrap, with nothing to do, or in the drain. -/
private theorem flushTick_cases {h : Host β V δ} (hloaded : h.ledger.Loaded)
    (hmarks : h.suppressMarks = false) (hflows : Flows F H w h) :
    (h.Pending ∧ Raising.flushTick F H w h = (reasserted H w h).drainDelta H w) ∨
      ¬ h.Pending ∧ ∃ h₁, Idled (reasserted H w h) h₁ ∧
        ((reasserted H w h).autoBootAt ≠ none ∧ h₁.autoBootAt = none ∧
            Raising.flushTick F H w h = h₁ ∨
          (h₁.sweeps w).dirty.isEmpty = true ∧ Raising.flushTick F H w h =
            Raising.primeLoop F H w (h₁.sweeps w).primeQueue.reverse 0 (h₁.sweeps w) ∨
          Raising.beforeDrain F H w h = (h₁.sweeps w, .ok true) ∧
            Raising.flushTick F H w h = (Raising.flushDirty F H w (h₁.sweeps w)).1) := by
  have hsteady := reasserted_steady hacc F H hloaded hflows.fast
  have hpending := reasserted_pending hacc F H hloaded hflows.fast
  have hbefore := beforeDrain_accepted hacc F H hloaded hmarks hflows.fast
  rw [show (atRepairs w h).drainFastResend H w = reasserted H w h from rfl] at hbefore
  unfold Raising.flushTick Raising.flushTickInner
  by_cases hdelta : (reasserted H w h).Pending
  · -- the delta takes the tick
    left
    obtain ⟨heq, -, -⟩ := drainDelta_safe hacc H F hsteady.clear hflows.delta
    refine ⟨hpending.mp hdelta, ?_⟩
    unfold Pending at hdelta
    rw [hbefore, if_pos hdelta, heq]
    rfl
  · right
    refine ⟨fun hh => hdelta (hpending.mpr hh), ?_⟩
    have hnone := hdelta
    unfold Pending at hnone
    rw [if_neg hnone] at hbefore
    rw [hbefore]
    rcases beforeIdleDrain_idled F H w hdelta ((suppressMarks_of_frame hsteady.frame).trans hmarks)
      (hflows.sweep hdelta) with ⟨h₁, hidled, hsome, hnone, heq⟩ | ⟨h₁, hidled, heq⟩
    · -- a bootstrap was queued
      refine ⟨h₁, hidled, .inl ⟨hsome, hnone, ?_⟩⟩
      rw [heq]
      rfl
    · refine ⟨h₁, hidled, .inr ?_⟩
      rw [hflows.paused] at heq
      -- the drain, unless nothing is dirty
      by_cases hempty : (h₁.sweeps w).dirty.isEmpty = true
      · left
        rw [heq, if_pos (.inr hempty)]
        exact ⟨hempty, rfl⟩
      · right
        rw [heq, if_neg (by simp [hempty])]
        exact ⟨rfl, rfl⟩

/-! ## The repairs of a tick -/

omit [BEq V] [DecidableEq δ] hacc in
/-- The queues of the repairs. -/
def repairs (h : Host β V δ) :=
  (h.fastResendQueue, h.fastResendEnd, h.deltaQueue, h.deltaTail, h.deltaEndPending,
    h.suppressMarks)

omit [BEq V] [DecidableEq δ] hacc in
/-- The repairs are part of the frame. -/
private theorem repairs_of_frame {h h' : Host β V δ} (hframe : h'.frame = h.frame) :
    h'.repairs = h.repairs := by
  simp only [frame, Prod.mk.injEq] at hframe
  simp only [repairs, hframe]

omit [BEq V] [DecidableEq δ] in
/-- Sweeps leave a clear host clear and its repairs alone. -/
private theorem sweeps_repairs {h : Host β V δ} (hclear : h.Clear) :
    (h.sweeps w).Clear ∧ (h.sweeps w).repairs = h.repairs ∧ Extends h.journal (h.sweeps w) := by
  unfold Host.sweeps
  split
  · obtain ⟨hswept, hext⟩ := swept_sweepDeletions (h := h) (w := w)
    have hidled := sweepLibraries_idled hacc (h.sweepDeletions w)
    simp only [Host.swept, Prod.mk.injEq] at hswept
    refine ⟨hidled.clear fun u => ?_, ?_, hidled.later hext⟩
    · rw [hswept.1]
      exact hclear u
    · show ((h.sweepDeletions w).sweepLibraries w).repairs = h.repairs
      rw [repairs_of_frame hidled.frame]
      simp only [repairs, hswept]
  · exact ⟨hclear, rfl, .refl h⟩

omit [BEq V] [DecidableEq δ] hacc in
/-- Priming hashes is idle work. -/
private theorem primeLoop_idled (uuids : List Uuid) (n : Nat) (h : Host β V δ) :
    Idled h (Raising.primeLoop F H w uuids n h) := by
  induction uuids generalizing n h with
  | nil => exact ⟨rfl, rfl, rfl, rfl, .refl h⟩
  | cons u uuids ih =>
    have hone : Idled h (Raising.primeOne F H w h u).1 := by
      unfold Raising.primeOne Host.primeOne
      split
      · exact .refl h
      · split
        · exact .refl h
        · split
          · exact .refl h
          · split
            · exact .refl h
            · exact ⟨rfl, rfl, rfl, rfl, ⟨[_], rfl⟩⟩
    unfold Raising.primeLoop
    split
    · exact (ih _ _).trans hone
    · exact ⟨rfl, rfl, rfl, rfl, .refl h⟩

/-- The drain leaves a clear host clear and its repairs alone. -/
private theorem flushDirty_repairs {h : Host β V δ} (hclear : h.Clear) :
    (Raising.flushDirty F H w h).1.Clear ∧
      (Raising.flushDirty F H w h).1.repairs = h.repairs ∧
        Extends h.journal (Raising.flushDirty F H w h).1 := by
  have hdrained := drained_accepted hacc hclear
  have hrepairs : (Raising.drained w h).repairs = h.repairs := by
    rw [repairs_of_frame hdrained.frame]
    rfl
  have hstart : (Raising.drained w h).Clear ∧ (Raising.drained w h).repairs = h.repairs ∧
      Extends h.journal (Raising.drained w h) := ⟨hdrained.clear, hrepairs, extends_drained⟩
  unfold Raising.flushDirty
  apply Attempt.forEach_invariant (I := fun s : Host β V δ × Nat =>
    s.1.Clear ∧ s.1.repairs = h.repairs ∧ Extends h.journal s.1) _ _ hstart
  -- an entry is left out, stays behind, or is sent
  rintro s e ⟨hclear', hrepairs', hext⟩
  have hext' := Raising.keeps_flushEntry F H (keeps_extends w h.journal) (fun _ _ hh => hh)
    (fun _ hh => hh) (h.debounce.ready w.now).2 s e hext
  rcases flushEntry_turn hacc F H (h.debounce.ready w.now).2 hclear' e with
    ⟨-, heq⟩ | ⟨-, -, heq⟩ | ⟨-, -, hsteady, -, -⟩
  · rw [heq] at hext' ⊢
    exact ⟨hclear', hrepairs', hext'⟩
  · rw [heq] at hext' ⊢
    exact ⟨hclear', hrepairs', hext'⟩
  · exact ⟨hsteady.clear, (repairs_of_frame hsteady.frame).trans hrepairs', hext'⟩

/-- After the re-assert a tick that has no delta to drain leaves the repairs alone. -/
private theorem idle_repairs {h h₁ : Host β V δ} (hclear : h.Clear) (hidled : Idled h h₁)
    {h' : Host β V δ}
    (hend : h' = h₁ ∨ h' = Raising.primeLoop F H w (h₁.sweeps w).primeQueue.reverse 0
      (h₁.sweeps w) ∨ h' = (Raising.flushDirty F H w (h₁.sweeps w)).1) :
    h'.Clear ∧ h'.repairs = h.repairs ∧ Extends h.journal h' := by
  have hclear₁ : h₁.Clear := hidled.clear hclear
  have hrepairs₁ := repairs_of_frame hidled.frame
  have hext₁ := hidled.later (.refl h)
  obtain ⟨hclear₂, hrepairs₂, notes₂, hjournal₂⟩ := sweeps_repairs hacc hclear₁
  have hext₂ := hext₁.move notes₂ hjournal₂
  rcases hend with rfl | rfl | rfl
  · exact ⟨hclear₁, hrepairs₁, hext₁⟩
  · have hprimed := primeLoop_idled F H (h₁.sweeps w).primeQueue.reverse 0 (h₁.sweeps w) (w := w)
    refine ⟨hprimed.clear hclear₂, ?_, hprimed.later hext₂⟩
    rw [repairs_of_frame hprimed.frame, hrepairs₂, hrepairs₁]
  · obtain ⟨hclear₃, hrepairs₃, notes₃, hjournal₃⟩ := flushDirty_repairs hacc F H hclear₂
    exact ⟨hclear₃, (hrepairs₃.trans hrepairs₂).trans hrepairs₁, hext₂.move notes₃ hjournal₃⟩

/-- In this tick the head `e` of the re-assert had its turn, and nothing to say. -/
def FastBare (H : Digests β V δ) (w : World β V) (h : Host β V δ) (e : Uuid × Kind) : Prop :=
  e.2 ≠ .tomb ∧ ∃ i, (fastResendLoop H w i (atRepairs w h)).fastResendQueue.head? = some e ∧
    Bare w (fastResendLoop H w i (atRepairs w h)) e.1

/-- In this tick the head `e` of the delta had its turn, and no blob. -/
def DeltaBare (H : Digests β V δ) (w : World β V) (h : Host β V δ) (e : Uuid × Option δ) : Prop :=
  ∃ i, (deltaBlobs H w i ((reasserted H w h).drainT2Outbox w none).1).1.deltaQueue.head? =
      some e ∧
    Blobless w (deltaBlobs H w i ((reasserted H w h).drainT2Outbox w none).1).1 e.1

/-- In this tick the head `u` of the delta's re-asserts had its turn, and nothing to say. -/
def TailBare (H : Digests β V δ) (w : World β V) (h : Host β V δ) (u : Uuid) : Prop :=
  ∃ i, (deltaReasserts H w i (atReasserts H w (reasserted H w h))).1.deltaTail.head? = some u ∧
    Bare w (deltaReasserts H w i (atReasserts H w (reasserted H w h))).1 u

/-- What a tick does for the repairs: the queues go on, and what leaves them was sent, unless
    it had nothing to say in its turn. -/
structure Repaired (H : Digests β V δ) (w : World β V) (h h' : Host β V δ) : Prop where
  queues : h'.repairs = (deltaDone (fastDone h)).repairs
  fast : ∀ e ∈ h.fastResendQueue.take fastResendPerTick,
    Said (Note.Reasserts e.1) h.journal h' ∨ FastBare H w h e
  fastEnd : h.fastResendEnd = true → (fastDone h).fastResendEnd = false →
    Said (· = .act .endFast) h.journal h'
  blobs : ∀ e ∈ h.deltaQueue.take deltaPerTick,
    Said (Note.Resends e.1) h.journal h' ∨ DeltaBare H w h e
  reasserts : ∀ u ∈ h.deltaTail.take (deltaPerTick - h.deltaQueue.length),
    Said (Note.Reasserts u) h.journal h' ∨ TailBare H w h u
  deltaEnd : h.deltaEndPending = true → (deltaDone h).deltaEndPending = false →
    Said (· = .act .endCold) h.journal h'

omit hacc [BEq V] [DecidableEq δ] in
/-- Without a delta there is nothing for a tick to do. -/
private theorem deltaDone_of_not_pending {h : Host β V δ} (hdelta : ¬ h.Pending) :
    (deltaDone h).repairs = h.repairs := by
  unfold Pending at hdelta
  rw [not_or, not_or, not_not, not_not, Bool.not_eq_true] at hdelta
  simp only [repairs, deltaDone, hdelta, List.drop_nil, Bool.false_and]

/-- What the re-assert of a tick says. -/
private theorem reasserted_said {h : Host β V δ} (hloaded : h.ledger.Loaded)
    (hsafe : FastSafe F H w fastResendPerTick (atRepairs w h)) :
    Extends h.journal (reasserted H w h) ∧
      (∀ e ∈ h.fastResendQueue.take fastResendPerTick,
        Said (Note.Reasserts e.1) h.journal (reasserted H w h) ∨ FastBare H w h e) ∧
      (h.fastResendEnd = true → (fastDone h).fastResendEnd = false →
        Said (· = .act .endFast) h.journal (reasserted H w h)) := by
  obtain ⟨-, -, -, -, hsteady⟩ := atRepairs_accepted hacc hloaded
  have hqueue := fastResendQueue_of_frame hsteady.frame
  have hlast := fastResendEnd_of_frame hsteady.frame
  obtain ⟨-, -, hsaid⟩ := drainFastResend_safe hacc H F hsteady.clear hsafe
  obtain ⟨hext, hfast, hend⟩ := hsaid ((keeps_extends w _).atRepairs (.refl h))
  rw [show (atRepairs w h).drainFastResend H w = reasserted H w h from rfl] at hext hfast hend
  rw [hqueue] at hfast
  refine ⟨hext, hfast, fun hflag hdone => hend ?_ ?_⟩
  · rw [hlast]
    exact hflag
  · unfold fastDone at hdone ⊢
    rw [hqueue, hlast]
    exact hdone

/-- Each tick goes on with the repairs. -/
theorem flushTick_repaired {h : Host β V δ} (hloaded : h.ledger.Loaded)
    (hmarks : h.suppressMarks = false) (hflows : Flows F H w h) :
    (Raising.flushTick F H w h).Clear ∧ Repaired H w h (Raising.flushTick F H w h) ∧
      Extends (reasserted H w h).journal (Raising.flushTick F H w h) := by
  obtain ⟨hext, hfast, hend'⟩ := reasserted_said hacc F H hloaded hflows.fast
  have hsteady := reasserted_steady hacc F H hloaded hflows.fast
  have hframe := hsteady.frame
  simp only [frame, Prod.mk.injEq] at hframe
  rcases flushTick_cases hacc F H hloaded hmarks hflows with
    ⟨hpending, heq⟩ | ⟨hdelta, h₁, hidled, hend⟩
  · obtain ⟨-, hdone, hsaid⟩ := drainDelta_safe hacc H F hsteady.clear hflows.delta
    -- the delta goes on after the re-assert
    obtain ⟨-, hblobs, htail, hcold⟩ := hsaid hext
    have hlater := (hsaid (.refl (reasserted H w h))).1
    rw [heq]
    refine ⟨hdone.clear, ⟨?_, fun e he => ?_, fun hflag hd => (hend' hflag hd).later hlater,
      fun e he => ?_, fun u hu => ?_, fun hflag hd => ?_⟩, hlater⟩
    · rw [repairs_of_frame hdone.frame]
      simp only [repairs, deltaDone, hframe]
    · exact (hfast e he).imp_left fun hsaid => hsaid.later hlater
    · apply hblobs
      rw [deltaQueue_of_frame hsteady.frame]
      exact he
    · apply htail
      rw [deltaQueue_of_frame hsteady.frame, deltaTail_of_frame hsteady.frame]
      exact hu
    · apply hcold
      · rw [deltaEndPending_of_frame hsteady.frame]
        exact hflag
      · unfold deltaDone at hd ⊢
        rw [deltaQueue_of_frame hsteady.frame, deltaTail_of_frame hsteady.frame,
          deltaEndPending_of_frame hsteady.frame]
        exact hd
  · -- no delta: what is left of the tick says nothing of the repairs
    have hrest : Raising.flushTick F H w h = h₁ ∨ Raising.flushTick F H w h =
        Raising.primeLoop F H w (h₁.sweeps w).primeQueue.reverse 0 (h₁.sweeps w) ∨
        Raising.flushTick F H w h = (Raising.flushDirty F H w (h₁.sweeps w)).1 := by
      rcases hend with ⟨-, -, heq⟩ | ⟨-, heq⟩ | ⟨-, heq⟩
      · exact .inl heq
      · exact .inr (.inl heq)
      · exact .inr (.inr heq)
    obtain ⟨hclear, hrepairs, hlater⟩ := idle_repairs hacc F H hsteady.clear hidled hrest
    have hempty := hdelta
    unfold Pending at hempty
    rw [not_or, not_or, not_not, not_not, Bool.not_eq_true] at hempty
    refine ⟨hclear, ⟨?_, fun e he => ?_, fun hflag hd => (hend' hflag hd).later hlater,
      fun e he => ?_, fun u hu => ?_, fun hflag => ?_⟩, hlater⟩
    · rw [hrepairs, repairs_of_frame hsteady.frame]
      exact (deltaDone_of_not_pending (h := fastDone h) hdelta).symm
    · exact (hfast e he).imp_left fun hsaid => hsaid.later hlater
    · rw [hempty.1] at he
      cases he
    · rw [hempty.2.1, List.take_nil] at hu
      cases hu
    · rw [hempty.2.2] at hflag
      cases hflag

/-! ## The entries of a tick -/

omit [BEq V] [DecidableEq δ] hacc in
/-- A handle that there is stays, sweeps apart. -/
private theorem keeps_known (w : World β V) (u : Uuid) :
    Keeps w fun h : Host β V δ => u ∈ h.uuidToDb where
  same {h h'} hh hcore := by
    rwa [uuidToDb_of_core hcore]
  act _ hh := hh
  adopt _ hh := List.mem_insert_of_mem hh
  requeued _ hh := hh
  tombBack _ hh := hh
  wantBoot _ hh := hh

omit [BEq V] [DecidableEq δ] hacc in
/-- What is marked and touched waits. -/
theorem Waits.refl {u : Uuid} {h : Host β V δ}
    (hmarked : ∃ t, h.dirty.entries.get? u = some (.dirty t))
    (htouched : (h.debounce.touched.get? u).isSome) : Waits w u h h := by
  obtain ⟨τ, hτ⟩ := Option.isSome_iff_exists.mp htouched
  exact ⟨hmarked, ⟨τ, hτ, .inl hτ⟩, Nat.le_refl _, id⟩

omit [BEq V] [DecidableEq δ] hacc in
/-- The dirty set and the debouncer stay where they are. -/
theorem Waits.same {u : Uuid} {h₀ h h' : Host β V δ} (hh : Waits w u h₀ h)
    (hdirty : h'.dirty = h.dirty) (hdebounce : h'.debounce = h.debounce)
    (hknown : ∀ {v}, v ∈ h.uuidToDb → v ∈ h'.uuidToDb) : Waits w u h₀ h' := by
  obtain ⟨τ, hτ, hor⟩ := hh.touched
  refine ⟨by rw [hdirty]; exact hh.marked, ⟨τ, by rw [hdebounce]; exact hτ, ?_⟩,
    by rw [hdirty]; exact hh.ahead, fun hu => hknown (hh.known hu)⟩
  rcases hor with hsame | hnow | ⟨hnow, hold, hnew⟩
  · exact .inl hsame
  · exact .inr (.inl hnow)
  · exact .inr (.inr ⟨hnow, hold, hknown hnew⟩)

omit [BEq V] [DecidableEq δ] in
/-- It waits through the sweeps, or they forget it. -/
private theorem waits_sweeps {u : Uuid} {h : Host β V δ}
    (hmarked : ∃ t, h.dirty.entries.get? u = some (.dirty t))
    (htouched : (h.debounce.touched.get? u).isSome) :
    Waits w u h (h.sweeps w) ∨ Said (· = .forgotten u) h.journal (h.sweeps w) := by
  unfold Host.sweeps
  split
  · have hidled := sweepLibraries_idled hacc (h.sweepDeletions w)
    apply (waits_sweepDeletions hmarked htouched).imp
    · intro hwaits
      refine hwaits.same ?_ ?_ fun {v} hv => ?_
      · exact dirty_of_frame hidled.frame
      · exact debounce_of_frame hidled.frame
      · show v ∈ ((h.sweepDeletions w).sweepLibraries w).uuidToDb
        rwa [hidled.uuidToDb]
    · intro hsaid
      obtain ⟨notes, hjournal⟩ := hidled.journal
      exact hsaid.move notes hjournal
  · exact .inl (.refl hmarked htouched)

omit hacc in
/-- A re-assert takes no note back. -/
private theorem extends_reasserted {j : List (Note β V δ)} {h : Host β V δ} (hh : Extends j h) :
    Extends j (reasserted H w h) := by
  have hI := keeps_extends w j
  apply hI.drainFastResend H
  · exact fun _ _ _ hh => hh.move [_] rfl
  · exact fun _ hh => hh.move [.act .endFast] rfl
  · exact hI.atRepairs hh

omit hacc in
/-- It leaves the handles. -/
private theorem known_reasserted {u : Uuid} {h : Host β V δ} (hu : u ∈ h.uuidToDb) :
    u ∈ (reasserted H w h).uuidToDb := by
  have hI := keeps_known (β := β) (V := V) (δ := δ) w u
  apply hI.drainFastResend H
  · exact fun _ _ _ hh => hh
  · exact fun _ hh => hh
  · exact hI.atRepairs hu

omit [BEq V] [DecidableEq δ] hacc in
/-- So does taking out the dirty set. -/
theorem known_drained {u : Uuid} {h : Host β V δ} (hu : u ∈ h.uuidToDb) :
    u ∈ (Raising.drained w h).uuidToDb := by
  unfold Raising.drained
  dsimp only
  apply Keeps.foldl (I := fun h : Host β V δ => u ∈ h.uuidToDb) fun h x hh =>
    (keeps_known w u).sendTombstone x hh
  rw [foldl_note]
  exact hu

omit hacc in
/-- So does a turn. -/
theorem known_flushEntry {u : Uuid} (ready : List Uuid) (s : Host β V δ × Nat) (e : Uuid × Tier)
    (hu : u ∈ s.1.uuidToDb) : u ∈ (Raising.flushEntry F H w ready s e).1.1.uuidToDb :=
  Raising.keeps_flushEntry F H (keeps_known w u) (fun _ _ hh => hh) (fun _ hh => hh) ready s e hu

omit hacc in
/-- So does the whole loop. -/
private theorem known_flushDirty {u : Uuid} {h : Host β V δ} (hu : u ∈ h.uuidToDb) :
    u ∈ (Raising.flushDirty F H w h).1.uuidToDb := by
  unfold Raising.flushDirty
  exact Attempt.forEach_invariant (I := fun s : Host β V δ × Nat => u ∈ s.1.uuidToDb)
    (known_flushEntry F H _) _ (known_drained hu)

omit [BEq V] [DecidableEq δ] hacc in
/-- What was said since a later moment was said since an earlier one. -/
theorem Said.since {tells : Note β V δ → Prop} {j : List (Note β V δ)} {h h' : Host β V δ}
    (hsaid : Said tells h.journal h') (hext : Extends j h) : Said tells j h' := by
  obtain ⟨old, hjournal⟩ := hext
  obtain ⟨notes, hjournal', n, hn, htells⟩ := hsaid
  exact ⟨old ++ notes, by rw [hjournal', hjournal, List.append_assoc], n,
    List.mem_append_right _ hn, htells⟩

omit [BEq V] [DecidableEq δ] hacc in
/-- What was said was also said in weaker terms. -/
theorem Said.imp {tells tells' : Note β V δ → Prop} {j : List (Note β V δ)} {h : Host β V δ}
    (hsaid : Said tells j h) (himp : ∀ n, tells n → tells' n) : Said tells' j h := by
  obtain ⟨notes, hjournal, n, hn, htells⟩ := hsaid
  exact ⟨notes, hjournal, n, hn, himp n htells⟩

omit [BEq V] [DecidableEq δ] hacc in
/-- The debouncer keeps what it does not hand out. -/
private theorem get?_of_not_ready {d : Debouncer} {u : Uuid} {now τ : Int}
    (hτ : d.touched.get? u = some τ) (hnot : u ∉ (d.ready now).2) :
    (d.ready now).1.touched.get? u = some τ := by
  have hlate : Debouncer.due now τ = false := by
    rw [Bool.eq_false_iff]
    intro hdue
    apply hnot
    unfold Debouncer.due at hdue
    rw [decide_eq_true_eq] at hdue
    exact Debouncer.mem_ready hτ (by omega)
  apply Dict.get?_of_mem
  exact List.mem_filter.mpr ⟨(d.touched.mem_entries_iff u τ).mpr hτ, by simp [hlate]⟩

/-- What the sweep and the drain do for the entry of `u`. -/
private theorem drain_turn {h : Host β V δ} (hclear : h.Clear)
    (hsafe : TurnsSafe F H w ((h.sweeps w).debounce.ready w.now).2
      (Raising.drained w (h.sweeps w), t2PerTick) (h.sweeps w).dirty.drain.2.2)
    {u : Uuid} (hquiet : F.raises u = false)
    (hmarked : ∃ t, h.dirty.entries.get? u = some (.dirty t))
    (htouched : (h.debounce.touched.get? u).isSome) :
    Waits w u h (Raising.flushDirty F H w (h.sweeps w)).1 ∧
        ((∀ τ, h.debounce.touched.get? u = some τ → τ + debounceMs ≤ w.now) →
          (u ∈ h.uuidToDb ∨ u ∉ (Raising.flushDirty F H w (h.sweeps w)).1.uuidToDb) →
          (Raising.flushDirty F H w (h.sweeps w)).1.dirty.ahead u + t2PerTick ≤
            h.dirty.ahead u) ∨
      Said (fun n => n.Speaks w u ∨ n = .forgotten u) h.journal
        (Raising.flushDirty F H w (h.sweeps w)).1 ∨
      ∃ before t after, (h.sweeps w).dirty.drain.2.2 = before ++ (u, t) :: after ∧
        Silent w (before.foldl (flushEntry H w ((h.sweeps w).debounce.ready w.now).2)
          (Raising.drained w (h.sweeps w), t2PerTick)).1 u t := by
  obtain ⟨hclear₂, -, hext₂⟩ := sweeps_repairs hacc hclear
  obtain ⟨-, -, hext₃⟩ := flushDirty_repairs hacc F H hclear₂
  rcases waits_sweeps hacc hmarked htouched with hwaits | hgone
  · obtain ⟨t, hmarked₂⟩ := hwaits.marked
    obtain ⟨τ, hτ, hor⟩ := hwaits.touched
    have hknown := fun hu => known_flushDirty F H (u := u) (h := h.sweeps w) (w := w) hu
    rcases flushDirty_turn hacc F H hclear₂ hsafe hquiet hmarked₂ with
      ⟨hready, hback⟩ | ⟨a, ha, hback⟩ | hsaid | ⟨before, after, hsplit, hsilent⟩
    · -- its window is not over
      left
      rw [get?_of_not_ready hτ hready] at hback
      refine ⟨⟨hback.marked, ⟨τ, hback.touched, ?_⟩, hback.ahead.trans hwaits.ahead,
        fun hu => hknown (hwaits.known hu)⟩, fun hdue hsame => ?_⟩
      · rcases hor with hold | hnow | ⟨hnow, hnew, hfound⟩
        · exact .inl hold
        · exact .inr (.inl hnow)
        · exact .inr (.inr ⟨hnow, hnew, hknown hfound⟩)
      · exfalso
        rcases hor with hold | hnow | ⟨-, hnew, hfound⟩
        · exact hready (Debouncer.mem_ready hτ (hdue τ hold))
        · exact hready (Debouncer.mem_ready hτ (by omega))
        · rcases hsame with hsame | hsame
          · exact hnew hsame
          · exact hsame (hknown hfound)
    · -- two blobs have left before it
      left
      have hahead := hback.ahead
      refine ⟨⟨hback.marked, ⟨_, hback.touched, .inr (.inl rfl)⟩, ?_,
        fun hu => hknown (hwaits.known hu)⟩, fun _ _ => ?_⟩
      · have := hwaits.ahead
        omega
      · have := hwaits.ahead
        omega
    · exact .inr (.inl ((hsaid.since hext₂).imp fun _ hn => .inl hn))
    · exact .inr (.inr ⟨before, t, after, hsplit, hsilent⟩)
  · exact .inr (.inl ((hgone.later hext₃).imp fun _ hn => .inr hn))

/-- In this tick the entry of `u` had its turn, and there was nothing to send. -/
def SilentTurn (F : Faults) (H : Digests β V δ) (w : World β V) (h : Host β V δ) (u : Uuid) :
    Prop :=
  (Raising.beforeDrain F H w h).2 = .ok true ∧
    ∃ before t after, (atDrain F H w h).dirty.drain.2.2 = before ++ (u, t) :: after ∧
      Silent w (before.foldl (flushEntry H w ((atDrain F H w h).debounce.ready w.now).2)
        (Raising.drained w (atDrain F H w h), t2PerTick)).1 u t

/-- In this tick the edit of `u` was sent, or there was nothing to send, or the datablock was
    found gone. -/
def Answered (F : Faults) (H : Digests β V δ) (w : World β V) (h : Host β V δ) (u : Uuid) :
    Prop :=
  Said (fun n => n.Speaks w u ∨ n = .forgotten u) h.journal (Raising.flushTick F H w h) ∨
    SilentTurn F H w h u

/-- What a tick does for the entry of `u`, which is answered or waits. -/
theorem flushTick_turn {h : Host β V δ} (hloaded : h.ledger.Loaded)
    (hmarks : h.suppressMarks = false) (hflows : Flows F H w h) {u : Uuid}
    (hquiet : F.raises u = false) (hmarked : ∃ t, h.dirty.entries.get? u = some (.dirty t))
    (htouched : (h.debounce.touched.get? u).isSome) :
    Answered F H w h u ∨
      Waits w u h (Raising.flushTick F H w h) ∧
        (h.Pending ∨
          (reasserted H w h).autoBootAt ≠ none ∧
            (Raising.flushTick F H w h).autoBootAt = none ∨
          ((∀ τ, h.debounce.touched.get? u = some τ → τ + debounceMs ≤ w.now) →
            (u ∈ h.uuidToDb ∨ u ∉ (Raising.flushTick F H w h).uuidToDb) →
            (Raising.flushTick F H w h).dirty.ahead u + t2PerTick ≤ h.dirty.ahead u)) := by
  have hsteady := reasserted_steady hacc F H hloaded hflows.fast
  have hdirty : (reasserted H w h).dirty = h.dirty := (dirty_of_frame hsteady.frame :)
  have hdebounce : (reasserted H w h).debounce = h.debounce := (debounce_of_frame hsteady.frame :)
  have hwaits : Waits w u h (reasserted H w h) :=
    (Waits.refl hmarked htouched).same hdirty hdebounce fun hv => known_reasserted H hv
  rcases flushTick_cases hacc F H hloaded hmarks hflows with
    ⟨hpending, heq⟩ | ⟨hdelta, h₁, hidled, hend⟩
  · right
    obtain ⟨-, hdone, -⟩ := drainDelta_safe hacc H F hsteady.clear hflows.delta
    rw [heq]
    exact ⟨hwaits.same (dirty_of_frame hdone.frame :) (debounce_of_frame hdone.frame :)
      fun hv => (keeps_known w _).drainDelta H hv, .inl hpending⟩
  · have hext₁ : Extends h.journal h₁ := hidled.later (extends_reasserted H (.refl h))
    have hdirty₁ : h₁.dirty = h.dirty := (dirty_of_frame hidled.frame).trans hdirty
    have hdebounce₁ : h₁.debounce = h.debounce := (debounce_of_frame hidled.frame).trans hdebounce
    have hwaits₁ : Waits w u h h₁ := by
      refine hwaits.same (dirty_of_frame hidled.frame) (debounce_of_frame hidled.frame)
        fun {v} hv => ?_
      rwa [hidled.uuidToDb]
    have hclear₁ : h₁.Clear := hidled.clear hsteady.clear
    have hmarked₁ : ∃ t, h₁.dirty.entries.get? u = some (.dirty t) := hwaits₁.marked
    have htouched₁ : (h₁.debounce.touched.get? u).isSome := by
      rw [hdebounce₁]
      exact htouched
    rcases hend with ⟨hsome, hnone, heq⟩ | ⟨hempty, heq⟩ | ⟨hreach, heq⟩
    · right
      rw [heq]
      exact ⟨hwaits₁, .inr (.inl ⟨hsome, hnone⟩)⟩
    · left
      rcases waits_sweeps hacc hmarked₁ htouched₁ with hwaits₂ | hgone
      · -- nothing is dirty, but the entry is
        obtain ⟨t, hmarked₂⟩ := hwaits₂.marked
        unfold DirtySet.isEmpty at hempty
        have hmem := (Dict.mem_entries_iff ..).mpr hmarked₂
        rw [List.isEmpty_iff.mp hempty] at hmem
        cases hmem
      · left
        rw [heq]
        have hprimed := primeLoop_idled F H (h₁.sweeps w).primeQueue.reverse 0 (h₁.sweeps w)
          (w := w)
        exact ((hgone.since hext₁).later hprimed.journal).imp fun _ hn => .inr hn
    · have hat : atDrain F H w h = h₁.sweeps w := by
        unfold atDrain
        rw [hreach]
      have hlast := hflows.last (by rw [hreach])
      unfold Answered SilentTurn
      rw [hat] at hlast ⊢
      rw [heq, hreach]
      rcases drain_turn hacc F H hclear₁ hlast hquiet hmarked₁ htouched₁ with
        ⟨hwaits', hprogress⟩ | hsaid | hsilent
      · right
        obtain ⟨τ, hτ, hor⟩ := hwaits'.touched
        have hahead := hwaits'.ahead
        rw [hdebounce₁] at hprogress hor
        rw [hdirty₁] at hprogress hahead
        -- what was seen from the sweep on is what is seen from the tick's start on
        refine ⟨⟨hwaits'.marked, ⟨τ, hτ, ?_⟩, hahead, fun hu => hwaits'.known (hwaits₁.known hu)⟩,
          .inr (.inr fun hdue hsame => ?_)⟩
        · rcases hor with hold | hnow | ⟨hnow, hnew, hfound⟩
          · exact .inl hold
          · exact .inr (.inl hnow)
          · exact .inr (.inr ⟨hnow, fun hu => hnew (hwaits₁.known hu), hfound⟩)
        · exact hprogress hdue (hsame.imp_left hwaits₁.known)
      · exact .inl (.inl (hsaid.since hext₁))
      · exact .inl (.inr ⟨rfl, hsilent⟩)

omit [BEq V] [DecidableEq δ] in
/-- A tombstone waits through the sweeps. -/
private theorem tombWaits_sweeps {u : Uuid} {h : Host β V δ} (hh : TombWaits u h) :
    TombWaits u (h.sweeps w) := by
  unfold Host.sweeps
  split
  · have hswept := tombWaits_sweepDeletions (w := w) hh
    unfold TombWaits at hswept ⊢
    dsimp only
    rw [dirty_of_frame (sweepLibraries_idled hacc (h.sweepDeletions w)).frame]
    exact hswept
  · exact hh

/-- What a tick does for a tombstone, which is sent or waits. -/
theorem flushTick_tomb {h : Host β V δ} (hloaded : h.ledger.Loaded)
    (hmarks : h.suppressMarks = false) (hflows : Flows F H w h) {u : Uuid}
    (hh : TombWaits u h) :
    Said (· = .act (.tomb u)) h.journal (Raising.flushTick F H w h) ∨
      TombWaits u (Raising.flushTick F H w h) ∧
        (h.Pending ∨ (reasserted H w h).autoBootAt ≠ none ∧
          (Raising.flushTick F H w h).autoBootAt = none) := by
  have hsteady := reasserted_steady hacc F H hloaded hflows.fast
  have hdirty : (reasserted H w h).dirty = h.dirty := (dirty_of_frame hsteady.frame :)
  rcases flushTick_cases hacc F H hloaded hmarks hflows with
    ⟨hpending, heq⟩ | ⟨hdelta, h₁, hidled, hend⟩
  · right
    obtain ⟨-, hdone, -⟩ := drainDelta_safe hacc H F hsteady.clear hflows.delta
    unfold TombWaits
    rw [heq, show ((reasserted H w h).drainDelta H w).dirty = h.dirty from
      (dirty_of_frame hdone.frame :).trans hdirty]
    exact ⟨hh, .inl hpending⟩
  · have hwaits₁ : TombWaits u h₁ := by
      unfold TombWaits
      rw [dirty_of_frame hidled.frame, hdirty]
      exact hh
    have hclear₁ : h₁.Clear := hidled.clear hsteady.clear
    have hwaits₂ := tombWaits_sweeps hacc hwaits₁
    have hmem := (Dict.mem_entries_iff ..).mpr hwaits₂.1
    rcases hend with ⟨hsome, hnone, heq⟩ | ⟨hempty, heq⟩ | ⟨-, heq⟩
    · right
      rw [heq]
      exact ⟨hwaits₁, .inr ⟨hsome, hnone⟩⟩
    · -- nothing is dirty, but the tombstone is
      unfold DirtySet.isEmpty at hempty
      rw [List.isEmpty_iff.mp hempty] at hmem
      cases hmem
    · left
      obtain ⟨hclear₂, -, hext₂⟩ := sweeps_repairs hacc hclear₁
      have hdrained := drained_accepted hacc hclear₂
      have hsaid : Said (· = .act (.tomb u)) (h₁.sweeps w).journal
          (Raising.drained w (h₁.sweeps w)) := by
        rcases accounted_drained (w := w) (DirtySet.mem_tombstonesOf.mpr hmem) with hback | hsaid
        · rw [dirty_of_frame hdrained.frame] at hback
          cases hback
        · exact hsaid
      -- what the drain says first, the entries after it do not take back
      have hlater : Said (· = .act (.tomb u)) (h₁.sweeps w).journal
          (Raising.flushDirty F H w (h₁.sweeps w)).1 := by
        unfold Raising.flushDirty
        apply Attempt.forEach_invariant (I := fun s : Host β V δ × Nat =>
          Said (· = .act (.tomb u)) (h₁.sweeps w).journal s.1) _ _ hsaid
        exact fun s e hs => Raising.keeps_flushEntry F H (keeps_said w _ _)
          (fun _ _ hh => hh.move [] (List.append_nil _).symm)
          (fun _ hh => hh.move [] (List.append_nil _).symm) _ s e hs
      obtain ⟨notes₂, hjournal₂⟩ := hext₂
      rw [heq]
      exact hlater.since ((hidled.later (extends_reasserted H (.refl h))).move notes₂ hjournal₂)

end Tick

/-! ## Edits -/

section Edits

variable (w : World β V) {u : Uuid} {h : Host β V δ}

/-- Edits of other datablocks leave the entry of `u` where it is. -/
theorem onDepsgraph_other (updates : List Update) (hother : ∀ x ∈ updates, x.uuid ≠ u)
    (hmem : u ∈ h.dirty.entries.keys) :
    (h.onDepsgraph w updates).dirty.entries.get? u = h.dirty.entries.get? u ∧
      (h.onDepsgraph w updates).debounce.touched.get? u = h.debounce.touched.get? u ∧
      (h.onDepsgraph w updates).dirty.ahead u = h.dirty.ahead u := by
  -- the updates of one event, by induction on them
  have hloop : ∀ (updates : List Update), (∀ x ∈ updates, x.uuid ≠ u) → ∀ h : Host β V δ,
      u ∈ h.dirty.entries.keys →
      (updates.foldl (noteUpdate w) h).dirty.entries.get? u = h.dirty.entries.get? u ∧
      (updates.foldl (noteUpdate w) h).debounce.touched.get? u = h.debounce.touched.get? u ∧
      (updates.foldl (noteUpdate w) h).dirty.ahead u = h.dirty.ahead u := by
    intro updates
    induction updates with
    | nil => exact fun _ _ _ => ⟨rfl, rfl, rfl⟩
    | cons x updates ih =>
      intro hother h hmem
      -- one update marks and touches its own datablock
      have hone : (noteUpdate w h x).dirty.entries.get? u = h.dirty.entries.get? u ∧
          (noteUpdate w h x).debounce.touched.get? u = h.debounce.touched.get? u ∧
          (noteUpdate w h x).dirty.ahead u = h.dirty.ahead u := by
        unfold noteUpdate
        split
        · exact ⟨rfl, rfl, rfl⟩
        · split
          · exact ⟨rfl, rfl, rfl⟩
          · refine ⟨?_, ?_, DirtySet.ahead_mark hmem _ _⟩
            · show (h.dirty.mark x.uuid _).entries.get? u = _
              rw [DirtySet.get?_mark, if_neg (hother x List.mem_cons_self)]
            · show (h.debounce.touch x.uuid _).touched.get? u = _
              rw [Debouncer.get?_touch, if_neg (hother x List.mem_cons_self)]
      -- so the datablock is still marked
      have hmem' : u ∈ (noteUpdate w h x).dirty.entries.keys := by
        rw [Dict.mem_keys_iff, hone.1, ← Dict.mem_keys_iff]
        exact hmem
      obtain ⟨hget, htouched, hahead⟩ :=
        ih (fun y hy => hother y (List.mem_cons_of_mem _ hy)) _ hmem'
      exact ⟨hget.trans hone.1, htouched.trans hone.2.1, hahead.trans hone.2.2⟩
  unfold Host.onDepsgraph
  split
  · exact ⟨rfl, rfl, rfl⟩
  · split
    · exact ⟨rfl, rfl, rfl⟩
    · exact hloop updates hother h hmem

/-- What edits leave alone. -/
theorem onDepsgraph_repairs (updates : List Update) (h : Host β V δ) :
    (h.onDepsgraph w updates).repairs = h.repairs ∧
      (h.onDepsgraph w updates).ledger = h.ledger ∧
      (h.onDepsgraph w updates).autoBootAt = h.autoBootAt ∧
      (∀ v ∈ h.uuidToDb, v ∈ (h.onDepsgraph w updates).uuidToDb) ∧
      (∀ v, TombWaits v h → TombWaits v (h.onDepsgraph w updates)) := by
  -- the updates of one event change marks, touches and handles alone
  have hloop : ∀ (updates : List Update) {h' : Host β V δ},
      h'.repairs = h.repairs ∧ h'.ledger = h.ledger ∧ h'.autoBootAt = h.autoBootAt ∧
        (∀ v ∈ h.uuidToDb, v ∈ h'.uuidToDb) ∧ (∀ v, TombWaits v h → TombWaits v h') →
      (updates.foldl (noteUpdate w) h').repairs = h.repairs ∧
        (updates.foldl (noteUpdate w) h').ledger = h.ledger ∧
        (updates.foldl (noteUpdate w) h').autoBootAt = h.autoBootAt ∧
        (∀ v ∈ h.uuidToDb, v ∈ (updates.foldl (noteUpdate w) h').uuidToDb) ∧
        (∀ v, TombWaits v h → TombWaits v (updates.foldl (noteUpdate w) h')) := by
    intro updates h' hh
    apply Keeps.foldl (I := fun h' : Host β V δ => h'.repairs = h.repairs ∧
      h'.ledger = h.ledger ∧ h'.autoBootAt = h.autoBootAt ∧
        (∀ v ∈ h.uuidToDb, v ∈ h'.uuidToDb) ∧ (∀ v, TombWaits v h → TombWaits v h')) _ updates hh
    rintro h' x ⟨hrepairs, hledger, hat, hknown, htomb⟩
    unfold noteUpdate
    split
    · -- an update that is passed over, and one that marks
      exact ⟨hrepairs, hledger, hat, hknown, htomb⟩
    · split
      · exact ⟨hrepairs, hledger, hat, hknown, htomb⟩
      · exact ⟨hrepairs, hledger, hat, fun v hv => List.mem_insert_of_mem (hknown v hv),
          fun v hv => (htomb v hv).mark x.uuid _ rfl⟩
  unfold Host.onDepsgraph
  split
  · exact ⟨rfl, rfl, rfl, fun _ hv => hv, fun _ hv => hv⟩
  · split
    · exact ⟨rfl, rfl, rfl, fun _ hv => hv, fun _ hv => hv⟩
    · exact hloop updates ⟨rfl, rfl, rfl, fun _ hv => hv, fun _ hv => hv⟩

end Edits

end Host

end QCBridge
