import QCBridge.Spec.RaisingRun

/-!
# A transport that takes everything

Nothing is given back then: a blob leaves as soon as it is cut, so the outbox of blobs is
empty between two entries, no target holds a message up, and what is sent leaves the dirty
set, the debouncer and the repair queues as they are.

## Key results

- `Host.drainBlobs_accepted`: the outbox empties
- `Host.Steady`: what sending leaves alone, and one lemma for each function that sends,
  whether it raises or not
-/

namespace QCBridge

variable {β V δ : Type}

/-- The transport takes everything. -/
def World.Accepting (w : World β V) : Prop := ∀ n, w.accepts n = true

/-! ## Blobs that can leave -/

/-- Every queued blob has a chunk to send. -/
def Ledger.Loaded (l : Ledger β V δ) : Prop :=
  ∀ u o, l.t2Outbox.get? u = some o → o.chunks ≠ []

/-- Every step of the ledger cuts blobs into chunks, and drops them when the last has left. -/
theorem Ledger.Loaded.step {l : Ledger β V δ} (h : l.Loaded) (a : LedgerAct β V δ) :
    (l.step a).Loaded := by
  cases a with
  -- the new blob has a chunk at least, and the others are as before
  | cutT2 u data digest more =>
    intro v o hget
    have hcut := Dict.get?_insert l.t2Outbox u
      (⟨.t2 u (l.seq + 1), data, chunkBlob .t2 (.t2 u (l.seq + 1)) data (blobInfo u digest more)
        defaultChunkSize⟩ : Outgoing β V δ) v
    rw [show (l.step (.cutT2 u data digest more)).t2Outbox.get? v = _ from hcut] at hget
    split at hget
    · obtain rfl := Option.some.inj hget
      apply List.ne_nil_of_length_pos
      rw [length_chunkBlob]
      exact chunkCount_pos _ _
    · exact h v o hget
  -- a chunk leaves: the last takes the blob out, any other leaves some behind
  | sendT2 u =>
    intro v o hget
    simp only [Ledger.step, Ledger.sendT2] at hget
    split at hget
    · dsimp only at hget
      rw [Dict.get?_erase] at hget
      split at hget
      · cases hget
      · exact h v o hget
    · rename_i hmore _
      dsimp only at hget
      rw [Dict.get?_insert] at hget
      split at hget
      · obtain rfl := Option.some.inj hget
        rintro rfl
        exact hmore rfl
      · exact h v o hget
    · exact h v o hget
  -- the bootstrap's and the library's chunks are queued elsewhere
  | sendBoot =>
    intro v o hget
    have hsame : (l.step .sendBoot).t2Outbox = l.t2Outbox := by
      simp only [Ledger.step, Ledger.sendBoot]
      split <;> rfl
    rw [hsame] at hget
    exact h v o hget
  | sendLib =>
    intro v o hget
    have hsame : (l.step .sendLib).t2Outbox = l.t2Outbox := by
      simp only [Ledger.step, Ledger.sendLib]
      split <;> rfl
    rw [hsame] at hget
    exact h v o hget
  | _ => exact h

namespace Host

/-- So it is of the host. -/
theorem keeps_loaded (w : World β V) : Keeps w fun h : Host β V δ => h.ledger.Loaded :=
  keeps_ledger w fun _ a hl => hl.step a

/-! ## Frames -/

/-- What sending leaves alone when nothing is refused. -/
def frame (h : Host β V δ) :=
  (h.dirty, h.debounce, h.fastResendQueue, h.fastResendEnd, h.deltaQueue, h.deltaTail,
    h.deltaEndPending, h.suppressMarks)

section Frame

variable {h h' : Host β V δ} (hframe : h'.frame = h.frame)
include hframe

/-- The dirty set is in the frame. -/
theorem dirty_of_frame : h'.dirty = h.dirty := congrArg (·.1) hframe

/-- The debounce is. -/
theorem debounce_of_frame : h'.debounce = h.debounce := congrArg (·.2.1) hframe

/-- The queue of the re-assert is. -/
theorem fastResendQueue_of_frame : h'.fastResendQueue = h.fastResendQueue :=
  congrArg (·.2.2.1) hframe

/-- Its end is. -/
theorem fastResendEnd_of_frame : h'.fastResendEnd = h.fastResendEnd := congrArg (·.2.2.2.1) hframe

/-- The queue of the repair is. -/
theorem deltaQueue_of_frame : h'.deltaQueue = h.deltaQueue := congrArg (·.2.2.2.2.1) hframe

/-- Its re-asserts are. -/
theorem deltaTail_of_frame : h'.deltaTail = h.deltaTail := congrArg (·.2.2.2.2.2.1) hframe

/-- Its end is. -/
theorem deltaEndPending_of_frame : h'.deltaEndPending = h.deltaEndPending :=
  congrArg (·.2.2.2.2.2.2.1) hframe

/-- And whether marks count. -/
theorem suppressMarks_of_frame : h'.suppressMarks = h.suppressMarks :=
  congrArg (·.2.2.2.2.2.2.2) hframe

end Frame

/-- Nothing but sending happened, and no blob is left in the outbox. -/
structure Steady (h h' : Host β V δ) : Prop where
  frame : h'.frame = h.frame
  clear : ∀ u, h'.ledger.t2Outbox.get? u = none

/-- Two stretches in which nothing but sending happened. -/
theorem Steady.trans {h h₁ h₂ : Host β V δ} (h₁₂ : Steady h₁ h₂) (h₀₁ : Steady h h₁) :
    Steady h h₂ :=
  ⟨h₁₂.frame.trans h₀₁.frame, h₁₂.clear⟩

/-- A host with an empty outbox. -/
def Clear (h : Host β V δ) : Prop := ∀ u, h.ledger.t2Outbox.get? u = none

/-- Nothing at all, with the outbox empty. -/
theorem Clear.steady {h : Host β V δ} (hclear : h.Clear) : Steady h h := ⟨rfl, hclear⟩

/-- Nothing happened that the frame or the outbox tells of. -/
theorem Steady.same {h h₁ h₂ : Host β V δ} (hs : Steady h h₁) (hframe : h₂.frame = h₁.frame)
    (hbox : h₂.ledger.t2Outbox = h₁.ledger.t2Outbox) : Steady h h₂ := by
  refine ⟨hframe.trans hs.frame, fun u => ?_⟩
  rw [hbox]
  exact hs.clear u

section Accepted

variable {w : World β V} (hacc : w.Accepting)
include hacc

/-- What is offered is taken. -/
theorem send_accepted (h : Host β V δ) (a : LedgerAct β V δ) :
    h.send w a = ({ h with tries := h.tries + 1 }.act a, true) := by
  unfold Host.send
  dsimp only
  rw [if_pos (hacc _)]

/-- All the chunks of a blob are. -/
theorem sendChunks_accepted (a : LedgerAct β V δ) (chunks : List (Msg β V δ))
    (h : Host β V δ) :
    (sendChunks w a chunks h).2 = true ∧ (sendChunks w a chunks h).1.frame = h.frame := by
  induction chunks generalizing h with
  | nil => exact ⟨rfl, rfl⟩
  | cons m chunks ih =>
    unfold Host.sendChunks
    rw [send_accepted hacc]
    exact ih _

/-- The chunks of a blob leave one after the other, and nothing of it stays queued. -/
private theorem sendChunks_t2 (u : Uuid) (chunks : List (Msg β V δ)) {h : Host β V δ} {id : BlobId}
    {data : List β} (hget : h.ledger.t2Outbox.get? u = some ⟨id, data, chunks⟩)
    (hne : chunks ≠ []) (v : Uuid) :
    (sendChunks w (.sendT2 u) chunks h).1.ledger.t2Outbox.get? v =
      if u = v then none else h.ledger.t2Outbox.get? v := by
  induction chunks generalizing h with
  | nil => exact absurd rfl hne
  | cons m chunks ih =>
    unfold Host.sendChunks
    rw [send_accepted hacc]
    dsimp only
    have hstep : (({ h with tries := h.tries + 1 } : Host β V δ).act (.sendT2 u)).ledger =
        h.ledger.sendT2 u := rfl
    -- the last chunk takes the blob out of the outbox
    cases chunks with
    | nil =>
      have hbox : (h.ledger.sendT2 u).t2Outbox = h.ledger.t2Outbox.erase u := by
        unfold Ledger.sendT2
        rw [hget]
      show (({ h with tries := h.tries + 1 } : Host β V δ).act
        (.sendT2 u)).ledger.t2Outbox.get? v = _
      rw [hstep, hbox, Dict.get?_erase]
    -- with others behind it the outbox holds those, and the induction goes on
    | cons m' chunks =>
      have hbox : (h.ledger.sendT2 u).t2Outbox =
          h.ledger.t2Outbox.insert u ⟨id, data, m' :: chunks⟩ := by
        unfold Ledger.sendT2
        rw [hget]
      rw [ih (by rw [hstep, hbox, Dict.get?_insert_self]) (List.cons_ne_nil _ _), hstep, hbox,
        Dict.get?_insert]
      split
      · rfl
      · rfl

/-- The blobs that are drained leave, and the others stay. -/
theorem drainBlobs_accepted (only : Option Uuid) (uuids : List Uuid) {h : Host β V δ}
    (hloaded : h.ledger.Loaded) :
    (drainBlobs w only uuids h).2 = true ∧ (drainBlobs w only uuids h).1.frame = h.frame ∧
      ∀ v, (drainBlobs w only uuids h).1.ledger.t2Outbox.get? v =
        if v ∈ uuids ∧ only.any (· ≠ v) = false then none else h.ledger.t2Outbox.get? v := by
  induction uuids generalizing h with
  | nil => exact ⟨rfl, rfl, fun v => by simp [drainBlobs]⟩
  | cons u uuids ih =>
    unfold Host.drainBlobs
    -- left out by `only`: it stays where it is
    by_cases hskip : (only.any (· ≠ u)) = true
    · rw [if_pos hskip]
      obtain ⟨hok, hframe, hbox⟩ := ih hloaded
      refine ⟨hok, hframe, fun v => ?_⟩
      rw [hbox]
      by_cases hv : v = u
      · rw [hv, hskip]
        simp
      · simp [hv]
    · -- drained: what it ships is its own
      rw [if_neg hskip]
      obtain ⟨hsent, hframe⟩ := sendChunks_accepted hacc (.sendT2 u)
        (((h.ledger.t2Outbox.get? u).map Outgoing.chunks).getD []) h
      -- whether it was queued or not, afterwards it is not
      have hbox : ∀ v, (sendChunks w (.sendT2 u)
          (((h.ledger.t2Outbox.get? u).map Outgoing.chunks).getD []) h).1.ledger.t2Outbox.get? v =
            if u = v then none else h.ledger.t2Outbox.get? v := by
        intro v
        cases hget : h.ledger.t2Outbox.get? u with
        | none =>
          show h.ledger.t2Outbox.get? v = _
          split
          · rename_i heq
            rw [← heq, hget]
          · rfl
        | some o => exact sendChunks_t2 hacc u o.chunks hget (hloaded u o hget) v
      have hloaded' := (keeps_loaded w).sendChunks (a := .sendT2 u) trivial
        (((h.ledger.t2Outbox.get? u).map Outgoing.chunks).getD []) hloaded
      dsimp only
      generalize sendChunks w (.sendT2 u)
        (((h.ledger.t2Outbox.get? u).map Outgoing.chunks).getD []) h = r
        at hsent hframe hbox hloaded'
      obtain ⟨h', ok⟩ := r
      obtain rfl : ok = true := hsent
      dsimp only
      obtain ⟨hok, hframe', hbox'⟩ := ih (h := { h' with shipped := h'.shipped.insert u }) hloaded'
      refine ⟨hok, hframe'.trans hframe, fun v => ?_⟩
      rw [hbox']
      show (if _ then none else h'.ledger.t2Outbox.get? v) = _
      rw [hbox v]
      -- it is the one just drained, or one that the rest decides
      by_cases hv : u = v
      · subst hv
        rw [Bool.not_eq_true] at hskip
        rw [if_pos (rfl : u = u), ite_self, if_pos ⟨List.mem_cons_self, hskip⟩]
      · have hv' : v ≠ u := fun h => hv h.symm
        simp [hv, hv']

/-- The outbox is drained. -/
theorem drainT2Outbox_accepted {h : Host β V δ} (hloaded : h.ledger.Loaded) :
    (h.drainT2Outbox w none).2 = true ∧ Steady h (h.drainT2Outbox w none).1 := by
  obtain ⟨hok, hframe, hbox⟩ := drainBlobs_accepted hacc none h.ledger.t2Outbox.keys hloaded
  refine ⟨hok, hframe, fun v => ?_⟩
  unfold Host.drainT2Outbox
  rw [hbox]
  split
  · rfl
  · rename_i hnot
    rw [Dict.get?_eq_none_iff]
    simpa using hnot

/-- A blob that is cut leaves at once. -/
theorem Clear.cutT2 {h : Host β V δ} (hclear : h.Clear) (u : Uuid) (data : List β) (digest : δ)
    (more : Bool) :
    Steady h ((h.act (.cutT2 u data digest more)).drainT2Outbox w (some u)).1 := by
  have hloaded : (h.act (.cutT2 u data digest more)).ledger.Loaded := by
    apply Ledger.Loaded.step
    intro v o hget
    rw [hclear v] at hget
    cases hget
  have hget : ∀ v, v ≠ u → (h.act (.cutT2 u data digest more)).ledger.t2Outbox.get? v = none := by
    intro v hv
    exact (Dict.get?_insert_of_ne _ _ fun h => hv h.symm).trans (hclear v)
  obtain ⟨-, hframe, hbox⟩ := drainBlobs_accepted hacc (some u)
    (h.act (.cutT2 u data digest more)).ledger.t2Outbox.keys hloaded
  refine ⟨hframe, fun v => ?_⟩
  unfold Host.drainT2Outbox
  rw [hbox]
  by_cases hv : v = u
  · subst hv
    rw [if_pos]
    refine ⟨?_, by simp⟩
    rw [Dict.mem_keys_iff]
    exact ⟨_, Dict.get?_insert_self ..⟩
  · rw [hget v hv]
    split <;> rfl

/-! ## Sending -/

/-- A message leaves. -/
theorem Clear.send {h : Host β V δ} (hclear : h.Clear) {a : LedgerAct β V δ}
    (hbox : (h.ledger.step a).t2Outbox = h.ledger.t2Outbox) :
    (h.send w a).2 = true ∧ Steady h (h.send w a).1 := by
  rw [send_accepted hacc]
  exact ⟨rfl, hclear.steady.same rfl hbox⟩

/-- A tombstone leaves and is not put back. -/
theorem Clear.sendTombstone {h : Host β V δ} (hclear : h.Clear) (u : Uuid) :
    (h.sendTombstone w u).2 = true ∧ Steady h (h.sendTombstone w u).1 := by
  obtain ⟨hok, hsteady⟩ := hclear.send hacc (a := .tomb u) rfl
  unfold Host.sendTombstone
  generalize h.send w (.tomb u) = r at hok hsteady
  obtain ⟨h', ok⟩ := r
  obtain rfl : ok = true := hok
  exact ⟨rfl, hsteady⟩

section Flush

variable [BEq V] [DecidableEq δ] (F : Faults) (H : Digests β V δ)

omit hacc [DecidableEq δ] in
/-- A snapshot is taken. -/
theorem Clear.observe {h : Host β V δ} (hclear : h.Clear) (u : Uuid) (snapshot : Dict Path V) :
    Steady h (h.observe u snapshot) := hclear.steady.same rfl rfl

/-- A blob leaves as soon as it is cut. -/
theorem Clear.shipBlob {h : Host β V δ} (hclear : h.Clear) (u : Uuid) (db : Datablock β V)
    (snapshot : Option (Dict Path V)) :
    Steady h (Raising.shipBlob F H w h u db snapshot).1 := by
  unfold Raising.shipBlob Host.shipBlob
  split
  · exact hclear.steady
  · dsimp only
    split
    · exact hclear.steady.same rfl rfl
    · have hseen := hclear.observe u (snapshot.getD db.snapshot)
      split
      · exact hseen.same rfl rfl
      · have hpend : Steady h { h.observe u (snapshot.getD db.snapshot) with
            manifestPending :=
              (h.observe u (snapshot.getD db.snapshot)).manifestPending.erase u } :=
          hseen.same rfl rfl
        exact (Clear.cutT2 hacc hpend.clear u _ _ _).trans hpend

/-- Tier 2, also where it raises. -/
theorem Clear.flushT2 {h : Host β V δ} (hclear : h.Clear) (u : Uuid)
    (snapshot : Option (Dict Path V)) :
    Steady h (Raising.flushT2 F H w h u snapshot).1 := by
  unfold Raising.flushT2
  split
  · -- no handle: nothing is sent, raising or not
    split
    · exact hclear.steady
    · exact hclear.steady
  · rename_i db _
    -- shape keys go through their owner, if they have one in the file
    split
    · split
      · exact hclear.steady
      · have hseen := hclear.observe u (snapshot.getD db.snapshot)
        dsimp only
        split
        · exact hseen
        · rename_i owner _
          have hadopt : Steady h ((h.observe u (snapshot.getD db.snapshot)).adopt owner) :=
            hseen.same rfl rfl
          split
          · exact hadopt
          · split
            · exact hadopt
            · rename_i ownerDb _
              apply Attempt.andThen_invariant
              · exact (Clear.shipBlob hacc F H hadopt.clear owner ownerDb none).trans hadopt
              · exact fun _ _ _ hs => hs
    · -- any other datablock ships its own blob
      exact hclear.shipBlob hacc F H u db snapshot

/-- No target holds a message up. -/
theorem Clear.settleTargets (changes : List (Path × V)) {h : Host β V δ} (hclear : h.Clear)
    (targets : List Uuid) :
    Steady h (Raising.settleTargets F H w changes h targets).1 ∧
      (Raising.settleTargets F H w changes h targets).2 ≠ .ok none := by
  induction changes generalizing h targets with
  | nil => exact ⟨hclear.steady, nofun⟩
  | cons c changes ih =>
    unfold Raising.settleTargets
    split
    · -- a value that names nothing asks for nothing
      exact ih hclear targets
    · rename_i t _
      have hadopt : Steady h (h.adopt t) := hclear.steady.same rfl rfl
      -- a target that is named is shipped already, or shipped now
      have hflushed : Steady h (if t ∈ (h.adopt t).shipped then (h.adopt t, .ok false)
          else Raising.flushT2 F H w (h.adopt t) t none : Attempt Uuid (Host β V δ) Bool).1 := by
        split
        · exact hadopt
        · exact (Clear.flushT2 hacc F H hadopt.clear t none).trans hadopt
      dsimp only
      generalize (if t ∈ (h.adopt t).shipped then (h.adopt t, .ok false)
          else Raising.flushT2 F H w (h.adopt t) t none :
          Attempt Uuid (Host β V δ) Bool) = r at hflushed
      obtain ⟨h', _ | b⟩ := r
      · -- the shipping raises, or the walk goes on to the next change
        exact ⟨hflushed, nofun⟩
      · rw [Attempt.andThen_ok, hflushed.clear t]
        obtain ⟨hsteady, hsettled⟩ := ih hflushed.clear (targets ++ [t])
        exact ⟨hsteady.trans hflushed, hsettled⟩

/-- A tier-1 message leaves, unless a target raises. -/
theorem Clear.sendT1 {h : Host β V δ} (hclear : h.Clear) (u : Uuid)
    (changes : List (Path × V)) (old : Option (Dict Path V)) (full : Bool) :
    Steady h (Raising.sendT1 F H w h u changes old full).1 ∧
      (Raising.sendT1 F H w h u changes old full).2 ≠ .ok false := by
  unfold Raising.sendT1
  split
  · exact ⟨hclear.steady, nofun⟩
  · obtain ⟨hsteady, hsettled⟩ := hclear.settleTargets hacc F H (settersFirst changes) []
    dsimp only
    generalize Raising.settleTargets F H w (settersFirst changes) h [] = r at hsteady hsettled
    obtain ⟨h', _ | _ | targets⟩ := r
    · exact ⟨hsteady, nofun⟩
    · exact absurd rfl hsettled
    · obtain ⟨hok, hsent⟩ := Clear.send hacc hsteady.clear
        (a := .t1 u (settersFirst changes) targets full (h'.sd w u)) rfl
      rw [Attempt.andThen_ok]
      dsimp only
      generalize h'.send w (.t1 u (settersFirst changes) targets full (h'.sd w u)) = r at hok hsent
      obtain ⟨h'', ok⟩ := r
      obtain rfl : ok = true := hok
      exact ⟨hsent.trans hsteady, nofun⟩

/-- Tier 2 or tier 1. -/
theorem Clear.flushT2Or {h : Host β V δ} (hclear : h.Clear) (u : Uuid)
    (snapshot : Option (Dict Path V)) (fallback : List (Path × V)) :
    Steady h (Raising.flushT2Or F H w h u snapshot fallback).1 := by
  unfold Raising.flushT2Or
  apply Attempt.andThen_invariant (I := Steady h) (hclear.flushT2 hacc F H u snapshot)
  intro h' unsupported _ hs
  split
  · apply Attempt.andThen_invariant (I := Steady h)
    · exact (Clear.sendT1 hacc F H hclear u fallback none false).1
    · intro _ _ _ _
      have hsent := (Clear.sendT1 hacc {} H hs.clear u fallback none false).1
      rw [Raising.sendT1_eq H h' u fallback none false (Raising.eq_nil_of_quiet (F := {})
        (fun _ => rfl) fun _ hx => World.raises_of_mem_targetRaises hx)] at hsent
      exact hsent.trans hs
  · exact hs

/-- Tier 1. -/
theorem Clear.flushT1 {h : Host β V δ} (hclear : h.Clear) (u : Uuid) :
    Steady h (Raising.flushT1 F H w h u).1 := by
  unfold Raising.flushT1
  split
  · exact hclear.steady
  · rename_i db _
    split
    · exact hclear.steady
    · have hseen : Steady h ((if db.kind = .scene then
          { h with sceneDigest := some (H.scene db.snapshot) } else h).observe u db.snapshot) := by
        split
        · exact hclear.steady.same rfl rfl
        · exact hclear.steady.same rfl rfl
      dsimp only
      split
      · split
        · exact (Clear.flushT2Or hacc F H hseen.clear u _ _).trans hseen
        · exact hseen
      · split
        · exact (Clear.flushT2Or hacc F H hseen.clear u _ _).trans hseen
        · apply Attempt.andThen_invariant (I := Steady h)
          · exact (Clear.sendT1 hacc F H hseen.clear u _ _ _).1.trans hseen
          · exact fun _ _ _ hs => hs

end Flush

end Accepted

end Host

end QCBridge
