import QCBridge.ForStd.Guarded
import QCBridge.Spec.Trace

/-!
# What the host names

Every message names a datablock that the host found in one of its tables: the handles, the
dirty set, a repair's queue, or the world it was called in. So what may be named is bounded
by what the tables hold, from one call to the next.

## Key results

- `Host.Within`: the tables hold only datablocks of a set
- `Host.Site`: where a step of the ledger is taken, and what is known there
- `Host.Speaks.call`: a property that survives the steps at their sites survives every call
  that asks for nothing else
-/

namespace QCBridge

variable {β V δ : Type}

/-! ## Worlds -/

/-- The stamps a world has: of its datablocks, and of the owners of its shape keys. -/
def World.Names (w : World β V) (u : Uuid) : Prop :=
  u ∈ w.dbs.keys ∨ ∃ v db, w.dbs.get? v = some db ∧ db.user = some u

/-- A datablock that travels in a blob of its own. -/
def World.Shippable (w : World β V) (u : Uuid) : Prop :=
  ∃ db, w.dbs.get? u = some db ∧ db.kind ≠ .key ∧ db.blend.isSome = true

/-- Pointers name only such datablocks. -/
def World.TargetsShip (w : World β V) : Prop :=
  ∀ p v t, w.target p v = some t → w.Shippable t

/-! ## The dirty set -/

namespace DirtySet

/-- A mark adds one entry at most. -/
private theorem mem_keys_mark {d : DirtySet} {u x : Uuid} {t : Tier}
    (h : x ∈ (d.mark u t).entries.keys) :
    x = u ∨ x ∈ d.entries.keys := by
  obtain ⟨m, hm⟩ := (Dict.mem_keys_iff ..).mp h
  rw [get?_mark] at hm
  split at hm
  · rename_i heq
    exact .inl heq.symm
  · exact .inr ((Dict.mem_keys_iff ..).mpr ⟨m, hm⟩)

/-- A deletion adds one entry at most: the one deleted, where it is not dropped. -/
private theorem mem_keys_markDeleted {d : DirtySet} {u x : Uuid}
    (h : x ∈ (d.markDeleted u).entries.keys) : x = u ∨ x ∈ d.entries.keys := by
  unfold markDeleted at h
  split at h
  · exact Dict.mem_keys_insert h
  · rw [Dict.keys_erase] at h
    exact .inr (List.mem_filter.mp h).1

end DirtySet

/-! ## The outbox of blobs -/

/-- A chunk that leaves is of its own blob. -/
private theorem Ledger.sendT2_other (l : Ledger β V δ) {u v : Uuid} (hne : u ≠ v) :
    (l.sendT2 u).t2Outbox.get? v = l.t2Outbox.get? v := by
  unfold sendT2
  split
  · exact Dict.get?_erase_of_ne _ hne
  · exact Dict.get?_insert_of_ne _ _ hne
  · rfl

namespace Host

/-- The chunks of one datablock leave the outbox of every other as it was. -/
private theorem sendChunks_other (w : World β V) {u v : Uuid} (hne : u ≠ v)
    (chunks : List (Msg β V δ))
    (h : Host β V δ) :
    (sendChunks w (.sendT2 u) chunks h).1.ledger.t2Outbox.get? v = h.ledger.t2Outbox.get? v := by
  -- one chunk touches the outbox of its own datablock
  have hsend : ∀ h : Host β V δ,
      (h.send w (.sendT2 u)).1.ledger.t2Outbox.get? v = h.ledger.t2Outbox.get? v := by
    intro h
    unfold Host.send
    dsimp only
    split
    · exact h.ledger.sendT2_other hne
    · rfl
  -- and so do they all
  induction chunks generalizing h with
  | nil => rfl
  | cons m chunks ih =>
    unfold Host.sendChunks
    split
    · rename_i h' heq
      rw [ih h', ← hsend h, heq]
    · rename_i h' heq
      rw [← hsend h, heq]

/-- Chunks on their way say nothing of what is shipped: that is set when the last has left. -/
private theorem sendChunks_shipped (w : World β V) (a : LedgerAct β V δ) (chunks : List (Msg β V δ))
    (h : Host β V δ) : (sendChunks w a chunks h).1.shipped = h.shipped := by
  -- one chunk ships nothing by itself
  have hsend : ∀ h : Host β V δ, (h.send w a).1.shipped = h.shipped := by
    intro h
    unfold Host.send
    dsimp only
    split <;> rfl
  -- and neither do they all
  induction chunks generalizing h with
  | nil => rfl
  | cons m chunks ih =>
    unfold Host.sendChunks
    split
    · rename_i h' heq
      rw [ih h', ← hsend h, heq]
    · rename_i h' heq
      rw [← hsend h, heq]

/-! ## The tables -/

/-- The tables that a datablock to be named is taken from hold only those of `K`. -/
structure Within (K : Uuid → Prop) (h : Host β V δ) : Prop where
  handles : ∀ u, h.Registered u → K u
  dirty : ∀ u ∈ h.dirty.entries.keys, K u
  resend : ∀ e ∈ h.fastResendQueue, K e.1
  delta : ∀ e ∈ h.deltaQueue, K e.1
  tail : ∀ u ∈ h.deltaTail, K u

/-- Those tables. -/
def tables (h : Host β V δ) :=
  (h.uuidToDb, h.deadHandles, h.dirty.entries, h.fastResendQueue, h.deltaQueue, h.deltaTail)

namespace Within

variable {K : Uuid → Prop} {h h' : Host β V δ}

/-- What is held depends on the tables alone. -/
theorem same (hh : h.Within K) (htables : h'.tables = h.tables) : h'.Within K := by
  simp only [tables, Prod.mk.injEq] at htables
  obtain ⟨hhandles, hdead, hdirty, hresend, hdelta, htail⟩ := htables
  refine ⟨fun u hu => hh.handles u ?_, hdirty ▸ hh.dirty, hresend ▸ hh.resend, hdelta ▸ hh.delta,
    htail ▸ hh.tail⟩
  unfold Registered at hu ⊢
  rwa [hhandles, hdead] at hu

/-- A handle of `K` more. -/
theorem adopt (hh : h.Within K) {u : Uuid} (hu : K u) : (h.adopt u).Within K where
  handles x hx := by
    rcases hx with hx | hx
    · obtain rfl | hx := List.mem_insert_iff.mp hx
      · exact hu
      · exact hh.handles x (.inl hx)
    · exact hh.handles x (.inr (List.mem_of_mem_erase hx))
  dirty := hh.dirty
  resend := hh.resend
  delta := hh.delta
  tail := hh.tail

/-- One entry of the dirty set more. -/
theorem marked (hh : h.Within K) {u : Uuid} (hu : K u) {dirty : DirtySet}
    (hdirty : ∀ x ∈ dirty.entries.keys, x = u ∨ x ∈ h.dirty.entries.keys) :
    { h with dirty := dirty }.Within K where
  handles := hh.handles
  dirty x hx := by
    obtain rfl | hx := hdirty x hx
    · exact hu
    · exact hh.dirty x hx
  resend := hh.resend
  delta := hh.delta
  tail := hh.tail

/-- A mark on a datablock of `K`. -/
theorem mark (hh : h.Within K) {u : Uuid} (hu : K u) (t : Tier) (now : Int) :
    (h.mark u t now).Within K :=
  (hh.marked hu fun _ => DirtySet.mem_keys_mark (t := t)).same rfl

/-- Forgetting drops a handle and leaves a deletion in the dirty set. -/
theorem forget (hh : h.Within K) {u : Uuid} (hu : K u) : (h.forget u).Within K where
  handles x hx := hh.handles x (hx.imp List.mem_of_mem_erase List.mem_of_mem_erase)
  dirty x hx := by
    obtain rfl | hx := DirtySet.mem_keys_markDeleted hx
    · exact hu
    · exact hh.dirty x hx
  resend := hh.resend
  delta := hh.delta
  tail := hh.tail

end Within

/-! ## The sites -/

/-- The replica holds the datablock, and no blob of it is on its way out. -/
def Landed (h : Host β V δ) (t : Uuid) : Prop :=
  t ∈ h.shipped ∧ h.ledger.t2Outbox.get? t = none

/-- Where the host takes a step of the ledger. -/
def Site (w : World β V) (K : Uuid → Prop) (h : Host β V δ) : LedgerAct β V δ → Prop
  | .t1 u changes targets _ _ => K u ∧ h.ledger.bootOutbox = none ∧ (w.TargetsShip →
    (∀ t ∈ targets, h.Landed t) ∧
      ∀ c ∈ changes, ∀ t, w.target c.1 c.2 = some t → t ∈ targets)
  | .tomb u => K u
  | .cutT2 u _ _ _ => K u ∧ u ≠ mainfileUuid
  | .sendCold kind _ => kind = .link ∨ kind = .unlink ∨ kind = .libMissing
  | .cutBoot .. => False
  | _ => True

/-- A step at its site is one that the host can take. -/
theorem Site.valid {w : World β V} {K : Uuid → Prop} {h : Host β V δ} {a : LedgerAct β V δ}
    (ha : h.Site w K a) : a.Valid := by
  cases a with
  | cutT2 u data digest more => exact ha.2
  | sendCold kind lib => exact ha
  | _ => trivial

/-- What a property of the ledger, and of what the replica is known to hold, must survive
    while the host speaks. -/
structure Speaks (w : World β V) (K : Uuid → Prop) (J : Host β V δ → Prop) : Prop where
  names : ∀ u, w.Names u → K u
  whole : ∀ {h : Host β V δ} {o : Outgoing β V δ}, J h → h.ledger.bootOutbox = some o →
    o.chunks ≠ []
  same : ∀ {h h' : Host β V δ}, J h → h'.ledger = h.ledger → h'.shipped = h.shipped → J h'
  act : ∀ {h : Host β V δ} {a : LedgerAct β V δ}, h.Site w K a → J h → J (h.act a)
  ship : ∀ {h h' : Host β V δ} {u : Uuid} {o : Outgoing β V δ}, J h →
    h.ledger.t2Outbox.get? u = some o → sendChunks w (.sendT2 u) o.chunks h = (h', true) →
    J h' → J { h' with shipped := h'.shipped.insert u }
  boot : ∀ {h : Host β V δ} (sceneDigest : Option δ), J h →
    J { h.act (.cutBoot w.mainfile sceneDigest) with shipped := h.savedDbs w }

/-- Calls that ask the host for nothing but datablocks of `K`. -/
def Asks (K : Uuid → Prop) (h : Host β V δ) : Call β δ → Prop
  | .fastWindow gapAt => ∀ e ∈ h.ledger.fastlog.windowSince gapAt, K e.1
  | .delta plan _ => ∀ u ∈ plan.tombs ++ (plan.resend ++ (plan.verify ++ plan.atState)), K u
  | _ => True

/-- What asks for datablocks of `K` asks for those of every larger set. -/
theorem Asks.mono {K K' : Uuid → Prop} (hmono : ∀ u, K u → K' u) {h : Host β V δ}
    {c : Call β δ} (hasks : h.Asks K c) : h.Asks K' c := by
  cases c with
  | fastWindow gapAt => exact fun e he => hmono _ (hasks e he)
  | delta plan held => exact fun u hu => hmono u (hasks u hu)
  | _ => trivial

/-- The two together; and once the bootstrap is drained, none waits in its outbox. -/
structure Spoken (K : Uuid → Prop) (J : Host β V δ → Prop) (drained : Prop) (h : Host β V δ) :
    Prop where
  within : h.Within K
  said : J h
  boot : drained → h.ledger.bootOutbox = none

/-- The part about the bootstrap can be dropped. -/
private theorem Spoken.weaken {K : Uuid → Prop} {J : Host β V δ → Prop} {b : Prop} {h : Host β V δ}
    (hh : Spoken K J b h) : Spoken K J False h := ⟨hh.within, hh.said, False.elim⟩

/-- Only the cut of a bootstrap fills its outbox, and no site takes that step. -/
private theorem drained_act {w : World β V} {K : Uuid → Prop} (h : Host β V δ) {a : LedgerAct β V δ}
    (ha : h.Site w K a) (hboot : h.ledger.bootOutbox = none) :
    (h.act a).ledger.bootOutbox = none := by
  cases a with
  -- no site cuts a bootstrap
  | cutBoot data sceneDigest => exact ha.elim
  -- chunks leave their own outbox
  | sendBoot =>
    show h.ledger.sendBoot.bootOutbox = none
    unfold Ledger.sendBoot
    simp only [hboot]
  | sendT2 u =>
    show (h.ledger.sendT2 u).bootOutbox = none
    unfold Ledger.sendT2
    split <;> exact hboot
  | sendLib =>
    show h.ledger.sendLib.bootOutbox = none
    unfold Ledger.sendLib
    split <;> exact hboot
  | _ => exact hboot

/-- A bootstrap that is not refused has left its outbox. -/
private theorem sendChunks_drained {w : World β V} {id : BlobId} {data : List β}
    {chunks : List (Msg β V δ)} (hne : chunks ≠ []) {h h' : Host β V δ}
    (hbox : h.ledger.bootOutbox = some ⟨id, data, chunks⟩)
    (heq : sendChunks w .sendBoot chunks h = (h', true)) : h'.ledger.bootOutbox = none := by
  induction chunks generalizing h with
  | nil => exact (hne rfl).elim
  | cons m chunks ih =>
    unfold Host.sendChunks Host.send at heq
    dsimp only at heq
    by_cases hok : w.accepts h.tries = true
    · simp only [hok, if_true] at heq
      -- the last chunk empties the outbox
      cases chunks with
      | nil =>
        obtain ⟨rfl, -⟩ := Prod.mk.inj heq
        show h.ledger.sendBoot.bootOutbox = none
        unfold Ledger.sendBoot
        simp only [hbox]
      -- with others behind it the outbox holds those
      | cons m' chunks =>
        apply ih (by simp) _ heq
        show h.ledger.sendBoot.bootOutbox = _
        unfold Ledger.sendBoot
        simp only [hbox]
    · -- a refusal does not answer true
      simp only [hok, Bool.false_eq_true, if_false] at heq
      cases heq

/-! ## Targets -/

/-- A blob that is refused part-way stays in the outbox. -/
private theorem sendChunks_refused {w : World β V} {u : Uuid} {id : BlobId} {data : List β}
    {chunks : List (Msg β V δ)} {h h' : Host β V δ}
    (hget : h.ledger.t2Outbox.get? u = some ⟨id, data, chunks⟩)
    (heq : sendChunks w (.sendT2 u) chunks h = (h', false)) :
    (h'.ledger.t2Outbox.get? u).isSome = true := by
  induction chunks generalizing h with
  | nil => cases heq
  | cons m chunks ih =>
    unfold Host.sendChunks Host.send at heq
    dsimp only at heq
    -- a chunk is taken: there are others, or it would answer true
    by_cases hok : w.accepts h.tries = true
    · simp only [hok, if_true] at heq
      cases chunks with
      | nil => cases heq
      | cons m' chunks =>
        apply ih _ heq
        show (h.ledger.sendT2 u).t2Outbox.get? u = _
        unfold Ledger.sendT2
        simp only [hget]
        exact Dict.get?_insert_self ..
    · -- a refused one is still there
      simp only [hok, Bool.false_eq_true, if_false] at heq
      obtain ⟨rfl, -⟩ := Prod.mk.inj heq
      rw [hget]
      rfl

/-- What settles a datablock leaves those that are settled alone. -/
structure Lands (t : Uuid) (h h' : Host β V δ) : Prop where
  shipped : ∀ x ∈ h.shipped, x ∈ h'.shipped
  others : ∀ x, x ≠ t → h'.ledger.t2Outbox.get? x = h.ledger.t2Outbox.get? x

/-- The other targets stay settled while one is being settled. -/
theorem Lands.landed {t x : Uuid} {h h' : Host β V δ} (hs : Lands t h h') (hne : x ≠ t)
    (hx : h.Landed x) : h'.Landed x :=
  ⟨hs.shipped x hx.1, (hs.others x hne).trans hx.2⟩

/-- A drain for one datablock ships it, or leaves it in the outbox. -/
private theorem drainBlobs_only (w : World β V) (t : Uuid) (uuids : List Uuid) (h : Host β V δ) :
    Lands t h (drainBlobs w (some t) uuids h).1 ∧
      (t ∈ uuids → t ∈ (drainBlobs w (some t) uuids h).1.shipped ∨
        ((drainBlobs w (some t) uuids h).1.ledger.t2Outbox.get? t).isSome = true) := by
  induction uuids generalizing h with
  | nil => exact ⟨⟨fun _ hx => hx, fun _ _ => rfl⟩, fun h => (List.not_mem_nil h).elim⟩
  | cons u uuids ih =>
    unfold Host.drainBlobs
    by_cases hu : u = t
    · -- the datablock itself: shipped when all its chunks are taken, else in the outbox
      subst hu
      rw [if_neg (by simp)]
      generalize hchunks : ((h.ledger.t2Outbox.get? u).map Outgoing.chunks).getD [] = chunks
      dsimp only
      have hshipped : (sendChunks w (.sendT2 u) chunks h).1.shipped = h.shipped :=
        sendChunks_shipped w _ chunks h
      have hother := fun x (hne : x ≠ u) => sendChunks_other w (Ne.symm hne) chunks h
      split
      · rename_i h' heq
        rw [heq] at hshipped hother
        obtain ⟨hs, -⟩ := ih { h' with shipped := h'.shipped.insert u }
        refine ⟨⟨fun x hx => hs.shipped x (List.mem_insert_of_mem (hshipped ▸ hx)),
          fun x hne => (hs.others x hne).trans (hother x hne)⟩, fun _ => .inl ?_⟩
        exact hs.shipped u List.mem_insert_self
      · -- a refusal leaves the rest of it, and there was something to refuse
        rename_i h' heq
        rw [heq] at hshipped hother
        refine ⟨⟨fun x hx => hshipped ▸ hx, hother⟩, fun _ => .inr ?_⟩
        cases hget : h.ledger.t2Outbox.get? u with
        | none =>
          rw [hget] at hchunks
          obtain rfl : chunks = [] := hchunks.symm
          cases heq
        | some o =>
          rw [hget] at hchunks
          obtain rfl : o.chunks = chunks := hchunks
          exact sendChunks_refused hget heq
    · -- another datablock is left out by `only`
      rw [if_pos (by simpa using Ne.symm hu)]
      obtain ⟨hs, hdone⟩ := ih h
      exact ⟨hs, fun ht => hdone ((List.mem_cons.mp ht).resolve_left (Ne.symm hu))⟩

section Targets

variable [BEq V] [DecidableEq δ] (H : Digests β V δ) {w : World β V}

/-- A datablock that can travel and that the replica does not hold is shipped, or waits in
    the outbox. -/
private theorem flushT2_lands {t : Uuid} (hship : w.Shippable t) {h : Host β V δ}
    (hadopt : t ∈ h.uuidToDb) (hnew : t ∉ h.shipped) :
    Lands t h (h.flushT2 H w t none).1 ∧ (t ∈ (h.flushT2 H w t none).1.shipped ∨
      ((h.flushT2 H w t none).1.ledger.t2Outbox.get? t).isSome = true) := by
  obtain ⟨db, hget, hkind, hblend⟩ := hship
  obtain ⟨data, hdata⟩ := Option.isSome_iff_exists.mp hblend
  -- its handle is there, and its blob is new, so it is cut
  have hdb : h.db w t = some db := (if_pos hadopt).trans hget
  have hfresh : ¬ (t ∈ (h.observe t db.snapshot).shipped ∧
      (h.observe t db.snapshot).ledger.blobHash.get? t =
        some (H.blob data (pcache db.snapshot))) := fun hskip => hnew hskip.1
  unfold Host.flushT2
  simp only [hdb, if_neg hkind]
  unfold Host.shipBlob
  simp only [hdata, Option.getD_none, if_neg hfresh]
  unfold Host.drainT2Outbox
  generalize hcut : ({ h.observe t db.snapshot with
    manifestPending := (h.observe t db.snapshot).manifestPending.erase t } : Host β V δ).act
      (.cutT2 t data (H.blob data (pcache db.snapshot)) (h.observe t db.snapshot).burst) = h₁
  -- what is drained is the outbox with the new blob in it
  obtain ⟨hs, hdone⟩ := drainBlobs_only w t h₁.ledger.t2Outbox.keys h₁
  -- the cut touches no other blob, and ships nothing by itself
  have hbox : ∀ x, x ≠ t → h₁.ledger.t2Outbox.get? x = h.ledger.t2Outbox.get? x := by
    intro x hne
    rw [← hcut]
    exact Dict.get?_insert_of_ne _ _ (Ne.symm hne)
  have hshipped : h₁.shipped = h.shipped := by rw [← hcut]; rfl
  have hin : t ∈ h₁.ledger.t2Outbox.keys := by
    rw [← hcut]
    exact (Dict.mem_keys_iff ..).mpr ⟨_, Dict.get?_insert_self ..⟩
  exact ⟨⟨fun x hx => hs.shipped x (hshipped ▸ hx),
    fun x hne => (hs.others x hne).trans (hbox x hne)⟩, hdone hin⟩

/-- The targets of a tier-1 message that may leave are all settled. -/
private theorem settleTargets_landed (hships : w.TargetsShip) (changes : List (Path × V))
    {h h' : Host β V δ} {targets targets' : List Uuid}
    (heq : settleTargets H w changes h targets = (h', some targets'))
    (hlanded : ∀ t ∈ targets, h.Landed t) :
    (∀ t ∈ targets', h'.Landed t) ∧ (∀ t ∈ targets, t ∈ targets') ∧
      ∀ c ∈ changes, ∀ t, w.target c.1 c.2 = some t → t ∈ targets' := by
  induction changes generalizing h targets with
  | nil =>
    obtain ⟨rfl, htargets⟩ := Prod.mk.inj heq
    obtain rfl := Option.some.inj htargets
    exact ⟨hlanded, fun _ ht => ht, fun c hc => (List.not_mem_nil hc).elim⟩
  | cons c changes ih =>
    unfold Host.settleTargets at heq
    split at heq
    · rename_i hnone
      obtain ⟨hall, hkept, hnamed⟩ := ih heq hlanded
      refine ⟨hall, hkept, fun c' hc' t ht => ?_⟩
      obtain rfl | hc' := List.mem_cons.mp hc'
      · rw [hnone] at ht
        cases ht
      · exact hnamed c' hc' t ht
    · rename_i t htarget
      have hship := hships _ _ _ htarget
      dsimp only at heq
      generalize hnext : (if t ∈ (h.adopt t).shipped then h.adopt t
        else ((h.adopt t).flushT2 H w t none).1) = h₁ at heq
      have hnow : Lands t h h₁ ∧
          (t ∈ h₁.shipped ∨ (h₁.ledger.t2Outbox.get? t).isSome = true) := by
        rw [← hnext]
        split
        · rename_i hin
          exact ⟨⟨fun _ hx => hx, fun _ _ => rfl⟩, .inl hin⟩
        · rename_i hnew
          obtain ⟨hs, hdone⟩ := flushT2_lands H hship (mem_adopt h t) hnew
          exact ⟨⟨hs.shipped, hs.others⟩, hdone⟩
      split at heq
      · cases heq
      · rename_i hbox
        -- the target is settled now, and the ones before it still are
        have hall : ∀ x ∈ targets ++ [t], h₁.Landed x := by
          intro x hx
          by_cases hxt : x = t
          · rw [hxt]
            exact ⟨hnow.2.resolve_right hbox, Option.not_isSome_iff_eq_none.mp hbox⟩
          · have hx := (List.mem_append.mp hx).resolve_right fun h => hxt (List.mem_singleton.mp h)
            exact hnow.1.landed hxt (hlanded x hx)
        obtain ⟨hall, hkept, hnamed⟩ := ih heq hall
        refine ⟨hall, fun x hx => hkept x (List.mem_append_left _ hx), fun c' hc' t' ht' => ?_⟩
        obtain rfl | hc' := List.mem_cons.mp hc'
        · rw [htarget] at ht'
          obtain rfl := Option.some.inj ht'
          exact hkept _ (List.mem_append_right _ (List.mem_singleton_self _))
        · exact hnamed c' hc' t' ht'

end Targets

/-! ## Scans -/

section Scan

variable [BEq V] (w : World β V)

/-- A scan registers what the world has, and nothing else. -/
private theorem initialScan_handles (h : Host β V δ) {u : Uuid}
    (hu : (h.initialScan w).Registered u) :
    h.Registered u ∨ u ∈ w.dbs.keys := by
  -- the fold registers its own entries, by induction on them
  have hscan : ∀ (entries : List (Uuid × Datablock β V)) (h : Host β V δ),
      (entries.foldl (fun h e =>
        let h := h.adopt e.1
        let h := { h with dirty := h.dirty.assumeKnown e.1 }
        if e.2.saved ∧ e.2.tracked then h.observe e.1 e.2.snapshot else h) h).Registered u →
      h.Registered u ∨ u ∈ entries.map Prod.fst := by
    intro entries
    induction entries with
    | nil => exact fun h hu => .inl hu
    | cons e entries ih =>
      intro h hu
      obtain hu | hu := ih _ hu
      · -- an entry that is adopted is one of the world's or was registered before
        have hu : (h.adopt e.1).Registered u := by
          dsimp only at hu
          split at hu <;> exact hu
        rcases hu with hu | hu
        · obtain rfl | hu := List.mem_insert_iff.mp hu
          · exact .inr (List.mem_cons_self ..)
          · exact .inl (.inl hu)
        · exact .inl (.inr (List.mem_of_mem_erase hu))
      · exact .inr (List.mem_cons_of_mem _ hu)
  exact hscan _ h hu

/-- A scan ships nothing. -/
theorem initialScan_shipped (h : Host β V δ) : (h.initialScan w).shipped = h.shipped := by
  unfold Host.initialScan
  generalize w.dbs.entries = entries
  induction entries generalizing h with
  | nil => rfl
  | cons e entries ih =>
    rw [List.foldl_cons, ih]
    dsimp only
    split <;> rfl

end Scan

namespace Speaks

variable {w : World β V} {K : Uuid → Prop} {J : Host β V δ → Prop} {b : Prop} (hJ : Speaks w K J)
include hJ

/-! ## Sending -/

omit hJ in
/-- A loop over a list, of which each turn survives. -/
theorem foldl {α : Type} {f : Host β V δ → α → Host β V δ} (as : List α)
    (hf : ∀ h, ∀ a ∈ as, Spoken K J b h → Spoken K J b (f h a)) {h : Host β V δ}
    (hh : Spoken K J b h) : Spoken K J b (as.foldl f h) := by
  induction as generalizing h with
  | nil => exact hh
  | cons a as ih =>
    exact ih (fun h b hb => hf h b (List.mem_cons_of_mem _ hb)) (hf h a (List.mem_cons_self ..) hh)

/-- The tables change, and what the property sees does not. -/
theorem move {h h' : Host β V δ} (hh : Spoken K J b h) (hwithin : h'.Within K)
    (hledger : h'.ledger = h.ledger) (hshipped : h'.shipped = h.shipped) : Spoken K J b h' :=
  ⟨hwithin, hJ.same hh.said hledger hshipped, fun hb => hledger ▸ hh.boot hb⟩

/-- What neither the tables nor the property sees. -/
theorem other {h h' : Host β V δ} (hh : Spoken K J b h) (htables : h'.tables = h.tables)
    (hledger : h'.ledger = h.ledger) (hshipped : h'.shipped = h.shipped) : Spoken K J b h' :=
  hJ.move hh (hh.within.same htables) hledger hshipped

/-- A step of the ledger at its site. -/
theorem take {h : Host β V δ} {a : LedgerAct β V δ} (ha : h.Site w K a) (hh : Spoken K J b h) :
    Spoken K J b (h.act a) :=
  ⟨hh.within.same rfl, hJ.act ha hh.said, fun hb => h.drained_act ha (hh.boot hb)⟩

/-- A message that is offered to the transport: its step is taken where it is accepted, and else
    only the count of tries goes up. -/
theorem send {h h' : Host β V δ} {a : LedgerAct β V δ} {ok : Bool}
    (heq : h.send w a = (h', ok)) (ha : h.Site w K a) (hh : Spoken K J b h) : Spoken K J b h' := by
  have htried : Spoken K J b { h with tries := h.tries + 1 } := hJ.other hh rfl rfl rfl
  unfold Host.send at heq
  dsimp only at heq
  split at heq
  · obtain ⟨rfl, -⟩ := Prod.mk.inj heq
    apply hJ.take _ htried
    cases a <;> exact ha
  · obtain ⟨rfl, -⟩ := Prod.mk.inj heq
    exact htried

/-- The chunks of a blob, offered one by one until one is refused. -/
theorem sendChunks {a : LedgerAct β V δ} (ha : ∀ h : Host β V δ, h.Site w K a)
    (chunks : List (Msg β V δ)) {h : Host β V δ} (hh : Spoken K J b h) :
    Spoken K J b (sendChunks w a chunks h).1 := by
  induction chunks generalizing h with
  | nil => exact hh
  | cons m chunks ih =>
    unfold Host.sendChunks
    split
    · rename_i h' heq
      exact ih (hJ.send heq (ha h) hh)
    · rename_i h' heq
      exact hJ.send heq (ha h) hh

/-- The bootstrap's outbox. -/
theorem drainBoot {h : Host β V δ} (hh : Spoken K J b h) : Spoken K J b (h.drainBoot w).1 := by
  unfold Host.drainBoot
  split
  · exact hh
  · exact hJ.sendChunks (a := .sendBoot) (fun _ => trivial) _ hh

/-- The library lane. -/
theorem drainLib {h : Host β V δ} (hh : Spoken K J b h) : Spoken K J b (h.drainLib w).1 :=
  hJ.sendChunks (a := .sendLib) (fun _ => trivial) _ hh

/-- The outbox of blobs in order. No datablock is in it twice, so that an entry is still there when
    its turn comes. -/
theorem drainBlobs (only : Option Uuid) (uuids : List Uuid) (hnodup : uuids.Nodup)
    {h : Host β V δ} (hin : ∀ u ∈ uuids, u ∈ h.ledger.t2Outbox.keys) (hh : Spoken K J b h) :
    Spoken K J b (drainBlobs w only uuids h).1 := by
  induction uuids generalizing h with
  | nil => exact hh
  | cons u uuids ih =>
    obtain ⟨hu, hnodup⟩ := List.nodup_cons.mp hnodup
    have hrest := fun v hv => hin v (List.mem_cons_of_mem _ hv)
    obtain ⟨o, ho⟩ := (Dict.mem_keys_iff ..).mp (hin u (List.mem_cons_self ..))
    have hsent := hJ.sendChunks (a := .sendT2 u) (fun _ => trivial) o.chunks hh
    unfold Host.drainBlobs
    rw [ho]
    dsimp only [Option.map_some, Option.getD_some]
    split
    · exact ih hnodup hrest hh
    · split
      · rename_i h' heq
        rw [heq] at hsent
        have hship := hJ.ship hh.2 ho heq hsent.2
        apply ih hnodup
        · -- the entries of the others are as they were
          intro v hv
          have hne : u ≠ v := fun heq => hu (heq ▸ hv)
          have hother := sendChunks_other w hne o.chunks h
          rw [heq] at hother
          obtain ⟨o', ho'⟩ := (Dict.mem_keys_iff ..).mp (hrest v hv)
          exact (Dict.mem_keys_iff ..).mpr ⟨o', hother.trans ho'⟩
        · exact ⟨hsent.within.same rfl, hship, hsent.boot⟩
      · rename_i h' heq
        rwa [heq] at hsent

/-- All of the outbox, or the one entry that is asked for. -/
theorem drainT2Outbox (only : Option Uuid) {h : Host β V δ} (hh : Spoken K J b h) :
    Spoken K J b (h.drainT2Outbox w only).1 :=
  hJ.drainBlobs only _ h.ledger.t2Outbox.nodup (fun _ hu => hu) hh

/-- A tombstone that is refused goes back to the dirty set, where its datablock is one of `K` still.
    -/
theorem sendTombstone {u : Uuid} (hu : K u) {h : Host β V δ} (hh : Spoken K J b h) :
    Spoken K J b (h.sendTombstone w u).1 := by
  unfold Host.sendTombstone
  split
  · rename_i h' heq
    exact hJ.send heq hu hh
  · rename_i h' heq
    have hsent := hJ.send heq hu hh
    have hback : Spoken K J b { h' with dirty := h'.dirty.requeueTombstone u } :=
      hJ.move hsent (hsent.within.marked hu fun _ => Dict.mem_keys_insert) rfl rfl
    exact hJ.other hback rfl rfl rfl

/-- A handle for a datablock of `K`. -/
theorem adopt {u : Uuid} (hu : K u) {h : Host β V δ} (hh : Spoken K J b h) :
    Spoken K J b (h.adopt u) :=
  hJ.move hh (hh.within.adopt hu) rfl rfl

/-- A tier-1 message that did not leave marks its datablock again. -/
theorem giveBack {u : Uuid} (hu : K u) (old : Option (Dict Path V)) {h : Host β V δ}
    (hh : Spoken K J b h) : Spoken K J b (h.giveBack u old) := by
  have hback : Spoken K J b { h with dirty := h.dirty.requeue u .t1 } :=
    hJ.move hh (hh.within.marked hu fun x hx => DirtySet.mem_keys_mark hx) rfl rfl
  unfold Host.giveBack
  dsimp only
  split
  · exact hJ.other hback rfl rfl rfl
  · exact hJ.other hback rfl rfl rfl

omit hJ in
/-- A handle that is alive is one of the world's datablocks. -/
theorem known (hJ : Speaks w K J) {h : Host β V δ} {u : Uuid} {db : Datablock β V}
    (hdb : h.db w u = some db) : K u :=
  hJ.names u (.inl (mem_keys_of_db hdb))

section Flush

variable [BEq V] [DecidableEq δ] (H : Digests β V δ)

/-! ## Tier 2 -/

/-- A blob is cut under the name of a datablock of `K`, or the one on record is taken for it. -/
theorem shipBlob {u : Uuid} (hu : K u) (hmain : u ≠ mainfileUuid) (db : Datablock β V)
    (snapshot : Option (Dict Path V)) {h : Host β V δ} (hh : Spoken K J b h) :
    Spoken K J b (h.shipBlob H w u db snapshot).1 := by
  unfold Host.shipBlob
  split
  · exact hJ.other hh rfl rfl rfl
  · have hseen : ∀ s, Spoken K J b (h.observe u s) := fun s => hJ.other hh rfl rfl rfl
    dsimp only
    split
    · exact hJ.take (a := .skip _ _ _) trivial (hseen _)
    · apply hJ.drainT2Outbox
      apply hJ.take (a := .cutT2 _ _ _ _) ⟨hu, hmain⟩
      exact hJ.other hh rfl rfl rfl

/-- Tier 2 of a datablock: it is in the world when its blob is cut, and so in `K`. -/
theorem flushT2 (u : Uuid) (snapshot : Option (Dict Path V)) {h : Host β V δ}
    (hh : Spoken K J b h) : Spoken K J b (h.flushT2 H w u snapshot).1 := by
  unfold Host.flushT2
  split
  · exact hh
  · rename_i db hdb
    split
    · -- a shape key: its owner's blob carries it
      have hseen : ∀ s, Spoken K J b (h.observe u s) := fun s => hJ.other hh rfl rfl rfl
      dsimp only
      split
      · exact hseen _
      · rename_i owner howner
        have hget : w.dbs.get? u = some db := by
          unfold Host.db at hdb
          split at hdb
          · exact hdb
          · cases hdb
        have hK : K owner := hJ.names owner (.inr ⟨u, db, hget, howner⟩)
        have hadopt := hJ.adopt hK (hseen (snapshot.getD db.snapshot))
        split
        · exact hadopt
        · split
          · exact hadopt
          · rename_i ownerDb hdbOwner
            exact hJ.shipBlob H hK (w.stamps _ (mem_keys_of_db hdbOwner)) ownerDb none hadopt
    · exact hJ.shipBlob H (hJ.known hdb) (w.stamps _ (mem_keys_of_db hdb)) db snapshot hh

/-! ## Tier 1 -/

/-- Targets are adopted from the world and shipped ahead of the message that names them. -/
theorem settleTargets (changes : List (Path × V)) (targets : List Uuid) {h : Host β V δ}
    (hh : Spoken K J b h) : Spoken K J b (settleTargets H w changes h targets).1 := by
  induction changes generalizing h targets with
  | nil => exact hh
  | cons c changes ih =>
    unfold Host.settleTargets
    split
    · exact ih targets hh
    · rename_i t htarget
      -- a target has its stamp from the world
      have hadopt := hJ.adopt (hJ.names t (.inl (w.stamps_target _ _ _ htarget))) hh
      have hflush := hJ.flushT2 H t none hadopt
      dsimp only
      -- shipped already, or shipped now, and either held back or not
      split
      · split
        · exact hadopt
        · exact ih _ hadopt
      · split
        · exact hflush
        · exact ih _ hflush

/-- A tier-1 message leaves with the bootstrap drained and its targets settled, or goes back. -/
theorem sendT1 (hb : b) {u : Uuid} (hu : K u) (changes : List (Path × V))
    (old : Option (Dict Path V))
    (full : Bool) {h : Host β V δ} (hh : Spoken K J b h) :
    Spoken K J b (h.sendT1 H w u changes old full).1 := by
  -- nothing to send
  unfold Host.sendT1
  split
  · exact hh
  · -- the targets first: with one that is held back, the changes go back
    have hsettle := hJ.settleTargets H (settersFirst changes) [] hh
    dsimp only
    split
    · rename_i h' heq
      rw [heq] at hsettle
      exact hJ.giveBack hu old hsettle
    · rename_i h' targets heq
      rw [heq] at hsettle
      -- what the site asks: its datablock, the bootstrap drained, the targets landed
      have hsite : h'.Site w K
          (.t1 u (settersFirst changes) targets full (h'.sd w u)) := by
        refine ⟨hu, hsettle.boot hb, fun hships => ?_⟩
        obtain ⟨hall, -, hnamed⟩ := settleTargets_landed H hships _ heq
          fun t ht => (List.not_mem_nil ht).elim
        exact ⟨hall, hnamed⟩
      -- the message leaves, or is refused and goes back
      split
      · rename_i hsend
        exact hJ.send hsend hsite hsettle
      · rename_i hsend
        exact hJ.giveBack hu old (hJ.send hsend hsite hsettle)

/-- Tier 2 where the type has it, and the changes as tier 1 where it has not. -/
theorem flushT2Or (hb : b) {u : Uuid} (hu : K u) (snapshot : Option (Dict Path V))
    (fallback : List (Path × V)) {h : Host β V δ} (hh : Spoken K J b h) :
    Spoken K J b (h.flushT2Or H w u snapshot fallback) := by
  have hflush := hJ.flushT2 H u snapshot hh
  unfold Host.flushT2Or
  split
  · rename_i h' heq
    rw [heq] at hflush
    exact hJ.sendT1 H hb hu fallback none false hflush
  · rename_i h' heq
    rwa [heq] at hflush

/-- Tier 1 of a dirty datablock: the changes since its shadow. -/
theorem flushT1 (hb : b) {u : Uuid} (hu : K u) {h : Host β V δ} (hh : Spoken K J b h) :
    Spoken K J b (h.flushT1 H w u) := by
  unfold Host.flushT1
  split
  · exact hh
  · rename_i db _
    -- what is seen of the datablock says nothing
    have hseen : Spoken K J b ((if db.kind = .scene then
        { h with sceneDigest := some (H.scene db.snapshot) } else h).observe u db.snapshot) := by
      split
      · exact hJ.other hh rfl rfl rfl
      · exact hJ.other hh rfl rfl rfl
    dsimp only
    -- a blob or a message
    split
    · split
      · exact hJ.flushT2Or H hb hu _ _ hseen
      · exact hseen
    · split
      · exact hJ.flushT2Or H hb hu _ _ hseen
      · exact hJ.sendT1 H hb hu _ _ _ hseen

/-! ## Repairs -/

/-- A re-assert: everything there is of the datablock, or a tombstone where it is gone. -/
theorem sendT1Full (hb : b) {u : Uuid} (hu : K u) {h : Host β V δ} (hh : Spoken K J b h) :
    Spoken K J b (h.sendT1Full H w u).1 := by
  unfold Host.sendT1Full
  split
  · exact hJ.sendTombstone hu hh
  · split
    · exact hJ.sendT1 H hb hu _ _ _ hh
    · exact hJ.sendT1 H hb hu _ _ _ (hJ.other hh rfl rfl rfl)

omit [BEq V] in
/-- A blob for a repair, which names the datablock whatever is on record. -/
theorem resendT2 {u : Uuid} (hu : K u) (expect : Option δ) {h : Host β V δ}
    (hh : Spoken K J b h) : Spoken K J b (h.resendT2 H w u expect).1 := by
  unfold Host.resendT2
  split
  · exact hJ.sendTombstone hu hh
  · rename_i db hdb
    split
    · exact hh
    · dsimp only
      split
      · exact hJ.take (a := .record _ _ _) trivial hh
      · apply hJ.drainT2Outbox
        exact hJ.take (a := .cutT2 _ _ _ _) ⟨hu, w.stamps _ (mem_keys_of_db hdb)⟩ hh

/-- The queue of the re-assert, whose entries are of `K`. -/
theorem fastResendLoop (hb : b) (n : Nat) {h : Host β V δ} (hh : Spoken K J b h) :
    Spoken K J b (fastResendLoop H w n h) := by
  induction n generalizing h with
  | zero => exact hh
  | succ n ih =>
    unfold Host.fastResendLoop
    split
    · -- the queue is empty
      exact hh
    · rename_i u kind rest hqueue
      -- the entry is of `K`, and so is what is sent for it
      have hu : K u := hh.1.resend (u, kind) (hqueue ▸ List.mem_cons_self ..)
      have hsent : Spoken K J b
          (if kind = .tomb then h.sendTombstone w u else h.sendT1Full H w u).1 := by
        split
        · exact hJ.sendTombstone hu hh
        · exact hJ.sendT1Full H hb hu hh
      dsimp only
      -- taken: the loop goes on with the rest of the queue
      split
      · rename_i h' heq
        rw [heq] at hsent
        apply ih
        exact hJ.move hsent ⟨hsent.1.handles, hsent.1.dirty,
          fun e he => hsent.1.resend e (List.mem_of_mem_tail he), hsent.1.delta,
          hsent.1.tail⟩ rfl rfl
      · -- refused: it stops here
        rename_i h' heq
        rwa [heq] at hsent

/-- The re-assert, with the end that it says once its queue is empty. -/
theorem drainFastResend (hb : b) {h : Host β V δ} (hh : Spoken K J b h) :
    Spoken K J b (h.drainFastResend H w) := by
  have hloop := hJ.fastResendLoop H hb fastResendPerTick hh
  unfold Host.drainFastResend
  dsimp only
  split
  · split
    · rename_i heq
      exact hJ.other (hJ.send heq trivial hloop) rfl rfl rfl
    · rename_i heq
      exact hJ.send heq trivial hloop
  · exact hloop

omit [BEq V] in
/-- The blobs of a repair, taken from the head of its queue. -/
theorem deltaBlobs (n : Nat) {h : Host β V δ} (hh : Spoken K J b h) :
    Spoken K J b (deltaBlobs H w n h).1 := by
  induction n generalizing h with
  | zero => exact hh
  | succ n ih =>
    unfold Host.deltaBlobs
    split
    · exact hh
    · -- its datablock is of `K`, and so is what is sent for it
      rename_i u expect rest hqueue
      have hsent := hJ.resendT2 H (hh.1.delta (u, expect) (hqueue ▸ List.mem_cons_self ..))
        expect hh
      split
      · rename_i h' heq
        rw [heq] at hsent
        apply ih
        exact hJ.move hsent ⟨hsent.1.handles, hsent.1.dirty, hsent.1.resend,
          fun e he => hsent.1.delta e (List.mem_of_mem_tail he), hsent.1.tail⟩ rfl rfl
      · rename_i h' heq
        rwa [heq] at hsent

/-- The re-asserts behind them. -/
theorem deltaReasserts (hb : b) (n : Nat) {h : Host β V δ} (hh : Spoken K J b h) :
    Spoken K J b (deltaReasserts H w n h).1 := by
  induction n generalizing h with
  | zero => exact hh
  | succ n ih =>
    unfold Host.deltaReasserts
    split
    · exact hh
    · -- so is the datablock that is asserted again
      rename_i u rest hqueue
      have hsent := hJ.sendT1Full H hb (hh.1.tail u (hqueue ▸ List.mem_cons_self ..)) hh
      split
      · rename_i h' heq
        rw [heq] at hsent
        apply ih
        exact hJ.move hsent ⟨hsent.1.handles, hsent.1.dirty, hsent.1.resend, hsent.1.delta,
          fun x hx => hsent.1.tail x (List.mem_of_mem_tail hx)⟩ rfl rfl
      · rename_i h' heq
        rwa [heq] at hsent

omit [BEq V] [DecidableEq δ] in
/-- The end of a repair, said once the queues are empty. -/
theorem deltaEnd {h : Host β V δ} (hh : Spoken K J b h) : Spoken K J b (h.deltaEnd w) := by
  unfold Host.deltaEnd
  split
  · split
    · rename_i heq
      exact hJ.other (hJ.send heq trivial hh) rfl rfl rfl
    · rename_i heq
      exact hJ.send heq trivial hh
  · exact hh

/-- A repair: blobs, re-asserts, its end. -/
theorem drainDelta (hb : b) {h : Host β V δ} (hh : Spoken K J b h) :
    Spoken K J b (h.drainDelta H w) := by
  have hdrain := hJ.drainT2Outbox none hh
  unfold Host.drainDelta
  -- blobs that wait go first
  split
  · rename_i h₁ heq
    rwa [heq] at hdrain
  · rename_i h₁ heq
    rw [heq] at hdrain
    have hblobs := hJ.deltaBlobs H deltaPerTick hdrain
    -- then the blobs of the repair
    split
    · rename_i h₂ heq₂
      rwa [heq₂] at hblobs
    · rename_i h₂ n heq₂
      rw [heq₂] at hblobs
      -- then its re-asserts, and its end
      split
      · have htail := hJ.deltaReasserts H hb n hblobs
        split
        · rename_i h₃ heq₃
          rwa [heq₃] at htail
        · rename_i h₃ heq₃
          rw [heq₃] at htail
          exact hJ.deltaEnd htail
      · exact hblobs

/-! ## Idle work -/

omit [BEq V] [DecidableEq δ] in
/-- One datablock's digest for the manifest: it ships nothing. -/
theorem primeOne (u : Uuid) {h : Host β V δ} (hh : Spoken K J b h) :
    Spoken K J b (h.primeOne H w u).1 := by
  unfold Host.primeOne
  split
  · exact hh
  · split
    · exact hh
    · split
      · exact hh
      · exact hJ.other (hJ.take (a := .record _ _ _) trivial hh) rfl rfl rfl

omit [BEq V] [DecidableEq δ] in
/-- As many of them as one tick takes. -/
theorem primeLoop (uuids : List Uuid) (n : Nat) {h : Host β V δ} (hh : Spoken K J b h) :
    Spoken K J b (primeLoop H w uuids n h) := by
  induction uuids generalizing n h with
  | nil => exact hJ.other hh rfl rfl rfl
  | cons u uuids ih =>
    unfold Host.primeLoop
    split
    · exact ih _ (hJ.primeOne H u hh)
    · exact hJ.other hh rfl rfl rfl

omit [BEq V] [DecidableEq δ] in
/-- The manifest of what was primed. -/
theorem sendManifestBatch {h : Host β V δ} (hh : Spoken K J b h) :
    Spoken K J b (h.sendManifestBatch w) := by
  unfold Host.sendManifestBatch
  split
  · exact hJ.other hh rfl rfl rfl
  · exact hh

omit [BEq V] [DecidableEq δ] in
/-- Libraries that came into the file. -/
theorem linkLibraries (libs : List (String × List String × List String)) {h : Host β V δ}
    (hh : Spoken K J b h) : Spoken K J b (linkLibraries w libs h) := by
  induction libs generalizing h with
  | nil => exact hh
  | cons lib libs ih =>
    unfold Host.linkLibraries
    split
    · exact ih hh
    · split
      · rename_i heq
        exact ih (hJ.other (hJ.send heq (a := .sendCold _ _) (.inl rfl) hh) rfl rfl rfl)
      · rename_i heq
        exact ih (hJ.send heq (a := .sendCold _ _) (.inl rfl) hh)

omit [BEq V] [DecidableEq δ] in
/-- Libraries that left it. -/
theorem unlinkLibraries (paths : List String) {h : Host β V δ} (hh : Spoken K J b h) :
    Spoken K J b (unlinkLibraries w paths h) := by
  induction paths generalizing h with
  | nil => exact hh
  | cons path paths ih =>
    unfold Host.unlinkLibraries
    split
    · exact ih hh
    · split
      · rename_i heq
        exact ih (hJ.other (hJ.send heq (a := .sendCold _ _) (.inr (.inl rfl)) hh) rfl rfl rfl)
      · rename_i heq
        exact ih (hJ.send heq (a := .sendCold _ _) (.inr (.inl rfl)) hh)

omit [BEq V] [DecidableEq δ] in
/-- Files that the replica asks for: each is sent, or said to be missing. -/
theorem serveLibRequests (reqs : List (String × Option (List β))) {h : Host β V δ}
    (hh : Spoken K J b h) : Spoken K J b (serveLibRequests w reqs h) := by
  induction reqs generalizing h with
  | nil => exact hh
  | cons req reqs ih =>
    unfold Host.serveLibRequests
    split
    · exact ih hh
    · split
      · exact ih (hJ.other (hJ.take (a := .cutLib _ _) trivial hh) rfl rfl rfl)
      · split
        · rename_i heq
          exact ih (hJ.other (hJ.send heq (a := .sendCold _ _) (.inr (.inr rfl)) hh) rfl rfl rfl)
        · rename_i heq
          exact ih (hJ.send heq (a := .sendCold _ _) (.inr (.inr rfl)) hh)

/-! ## Marks and sweeps -/

omit [BEq V] [DecidableEq δ] in
/-- A datablock of `K` is marked dirty. -/
theorem mark {u : Uuid} (hu : K u) (t : Tier) (now : Int) {h : Host β V δ}
    (hh : Spoken K J b h) : Spoken K J b (h.mark u t now) :=
  hJ.move hh (hh.within.mark hu t now) rfl rfl

omit [BEq V] [DecidableEq δ] in
/-- The updates of one evaluation mark what the world has. -/
theorem onDepsgraph (updates : List Update) {h : Host β V δ} (hh : Spoken K J b h) :
    Spoken K J b (h.onDepsgraph w updates) := by
  unfold Host.onDepsgraph
  split
  · exact hJ.other hh rfl rfl rfl
  · split
    · exact hh
    · -- an update marks what the world has
      refine foldl updates (fun h u _ hh => ?_) hh
      unfold noteUpdate
      split
      · exact hh
      · rename_i db hget
        have hu : K u.uuid := hJ.names _ (.inl ((Dict.mem_keys_iff ..).mpr ⟨db, hget⟩))
        split
        · exact hh
        · exact hJ.mark hu _ _ (hJ.adopt hu hh)

omit [BEq V] [DecidableEq δ] in
/-- What is gone is forgotten, and what is back is adopted: both were in a table or are in the
    world. -/
theorem sweepDeletions {h : Host β V δ} (hh : Spoken K J b h) :
    Spoken K J b (h.sweepDeletions w) := by
  -- what differs from the sample is marked, if it is registered
  have hswept : Spoken K J b (w.swept.foldl (fun h s =>
      if h.Registered s.1 then h.mark s.1 s.2 (w.now - debounceMs) else h) h) := by
    refine foldl _ (fun h s _ hh => ?_) hh
    split
    · rename_i hmem
      exact hJ.mark (hh.1.handles _ hmem) _ _ hh
    · exact hh
  -- what is stamped and not registered is adopted again
  have hfound : ∀ {h : Host β V δ}, Spoken K J b h → Spoken K J b (w.dbs.entries.foldl (fun h e =>
      if e.2.stamped ∧ ¬ h.Registered e.1 then
        ((h.adopt e.1).mark e.1 .t2 w.now).note (.readopted e.1)
      else h) h) := by
    intro h hh
    refine foldl _ (fun h e he hh => ?_) hh
    have hu : K e.1 := hJ.names _ (.inl (List.mem_map_of_mem he))
    split
    · exact hJ.other (hJ.mark hu .t2 w.now (hJ.adopt hu hh)) rfl rfl rfl
    · exact hh
  -- what is gone from the world is forgotten
  have hgone : ∀ {h : Host β V δ}, Spoken K J b h →
      Spoken K J b
        (((h.uuidToDb ++ h.deadHandles).filter (· ∉ w.dbs.keys)).foldl Host.forget h) := by
    intro h hh
    have hK : ∀ u ∈ (h.uuidToDb ++ h.deadHandles).filter (· ∉ w.dbs.keys), K u := fun u hu =>
      hh.1.handles u (List.mem_append.mp (List.mem_filter.mp hu).1)
    exact foldl _ (fun h u hu hh => hJ.move hh (hh.within.forget (hK u hu)) rfl rfl) hh
  exact hgone (hfound hswept)

omit [BEq V] [DecidableEq δ] in
/-- The sweep of a tick, where one is due. -/
theorem sweeps {h : Host β V δ} (hh : Spoken K J b h) : Spoken K J b (h.sweeps w) := by
  unfold Host.sweeps
  split
  · have hlinked := hJ.linkLibraries w.libraries.entries (hJ.sweepDeletions hh)
    exact hJ.other (hJ.unlinkLibraries _ hlinked) rfl rfl rfl
  · exact hh

/-! ## Bootstraps -/

omit [BEq V] [DecidableEq δ] in
/-- A bootstrap empties the queue of the delta repair. -/
private theorem sendBootstrap_of {h : Host β V δ} (hhandles : ∀ u, h.Registered u → K u)
    (hdirty : ∀ u ∈ h.dirty.entries.keys, K u) (hresend : ∀ e ∈ h.fastResendQueue, K e.1)
    (hh : J h) : Spoken K J False (h.sendBootstrap H w) := by
  -- the digest of the scene touches none of the queues
  have hseen : (∀ u, (h.sceneDigestNow H w).Registered u → h.Registered u) ∧
      (h.sceneDigestNow H w).dirty = h.dirty ∧
      (h.sceneDigestNow H w).fastResendQueue = h.fastResendQueue ∧
      (h.sceneDigestNow H w).ledger = h.ledger ∧ (h.sceneDigestNow H w).shipped = h.shipped := by
    unfold Host.sceneDigestNow
    split <;> exact ⟨fun _ => id, rfl, rfl, rfl, rfl⟩
  obtain ⟨hhandles', hdirty', hresend', hledger, hshipped⟩ := hseen
  have hboot := hJ.boot (w.scene.bind fun _ => (h.sceneDigestNow H w).sceneDigest)
    (hJ.same hh hledger hshipped)
  -- the bootstrap empties the queues of the repair
  refine ⟨⟨fun u hu => hhandles u (hhandles' u hu), fun u hu => hdirty u ?_,
    fun e he => hresend e (hresend' ▸ he), fun e he => (List.not_mem_nil he).elim,
    fun u hu => (List.not_mem_nil hu).elim⟩, hJ.same hboot rfl rfl, False.elim⟩
  rw [← hdirty']
  exact hu

omit [BEq V] [DecidableEq δ] in
/-- A bootstrap is cut. From here on its outbox may be full. -/
theorem sendBootstrap {h : Host β V δ} (hh : Spoken K J b h) :
    Spoken K J False (h.sendBootstrap H w) :=
  hJ.sendBootstrap_of H hh.1.handles hh.1.dirty hh.1.resend hh.2

omit [DecidableEq δ] in
/-- Of what was there before, a file that is opened leaves the re-assert, and what the
    property sees. -/
theorem resetForNewFile {h : Host β V δ} (hresend : ∀ e ∈ h.fastResendQueue, K e.1)
    (hh : J h) : Spoken K J False (h.resetForNewFile H w) := by
  have hscan := initialScan_scanned w
    { h with shadow := {}, debounce := {}, dirty := {}, uuidToDb := [], deadHandles := [] }
  simp only [scanned, Prod.mk.injEq] at hscan
  obtain ⟨hledger, -, -, hdirty, -, -, hqueue, -⟩ := hscan
  have hboot := hJ.sendBootstrap_of H
    (h := initialScan w
      { h with shadow := {}, debounce := {}, dirty := {}, uuidToDb := [], deadHandles := [] })
    (fun u hu => (initialScan_handles w _ hu).elim
      (fun h => h.elim (fun h => (List.not_mem_nil h).elim) fun h => (List.not_mem_nil h).elim)
      fun hu => hJ.names u (.inl hu))
    (fun u hu => by rw [hdirty] at hu; exact (List.not_mem_nil hu).elim)
    (fun e he => hresend e (hqueue ▸ he)) (hJ.same hh hledger (initialScan_shipped w _))
  exact hJ.other hboot rfl rfl rfl

/-! ## The tick -/

/-- One entry of the dirty set, by its tier. -/
theorem flushEntry (hb : b) {ready : List Uuid} {s : Host β V δ × Nat} {e : Uuid × Tier}
    (he : K e.1) (hs : Spoken K J b s.1) : Spoken K J b (flushEntry H w ready s e).1 := by
  have hrequeue : ∀ t, Spoken K J b { s.1 with dirty := s.1.dirty.requeue e.1 t } := fun t =>
    hJ.move hs (hs.within.marked he fun _ => DirtySet.mem_keys_mark) rfl rfl
  unfold Host.flushEntry
  dsimp only
  split
  · exact hrequeue _
  · split
    · exact hJ.other (hrequeue .t2) rfl rfl rfl
    · exact hJ.flushT2Or H hb he _ _ hs
    · exact hJ.flushT1 H hb he hs

/-- The dirty set, entry by entry. -/
theorem flushDirty (hb : b) {h : Host β V δ} (hh : Spoken K J b h) :
    Spoken K J b (h.flushDirty H w) := by
  have htombs : ∀ u ∈ h.dirty.drain.2.1, K u := fun u hu =>
    hh.1.dirty u (List.mem_map_of_mem (DirtySet.mem_tombstonesOf.mp hu))
  have hentries : ∀ e ∈ h.dirty.drain.2.2, K e.1 := fun e he =>
    hh.1.dirty e.1 (List.mem_map_of_mem (DirtySet.mem_dirtyOf.mp he))
  -- what is drained leaves the dirty set empty
  have htaken : Spoken K J b { h with
      debounce := (h.debounce.ready w.now).1
      dirty := h.dirty.drain.1
      burst := t2PerTick < h.dirty.drain.2.2.countP fun e =>
        e.2 = .t2 && e.1 ∈ (h.debounce.ready w.now).2 } :=
    hJ.move hh ⟨hh.1.handles, fun u hu => (List.not_mem_nil hu).elim, hh.1.resend, hh.1.delta,
      hh.1.tail⟩ rfl rfl
  have hnoted := foldl (f := fun h u => h.note (.drained u (w.dbs.get? u).isSome))
    h.dirty.drain.2.1 (fun _ _ _ hh => hJ.other hh rfl rfl rfl) htaken
  have hsent := foldl (f := fun h u => (h.sendTombstone w u).1) h.dirty.drain.2.1
    (fun _ u hu hh => hJ.sendTombstone (htombs u hu) hh) hnoted
  have hloop : ∀ (entries : List (Uuid × Tier)) (s : Host β V δ × Nat), (∀ e ∈ entries, K e.1) →
      Spoken K J b s.1 →
      Spoken K J b (entries.foldl (Host.flushEntry H w (h.debounce.ready w.now).2) s).1 := by
    intro entries
    induction entries with
    | nil => exact fun s _ hs => hs
    | cons e entries ih =>
      intro s hK hs
      exact ih _ (fun e' he' => hK e' (List.mem_cons_of_mem _ he'))
        (hJ.flushEntry H hb (hK e (List.mem_cons_self ..)) hs)
  exact hloop h.dirty.drain.2.2 (_, t2PerTick) hentries hsent

omit [BEq V] [DecidableEq δ] in
/-- Unless it makes a bootstrap, none waits in its outbox after it. -/
theorem autoBoot {h : Host β V δ} (hh : Spoken K J b h) :
    Spoken K J False (h.autoBoot H w).1 ∧
      ((h.autoBoot H w).2 = false → Spoken K J b (h.autoBoot H w).1) := by
  unfold Host.autoBoot
  split
  · -- not asked for, or not due yet
    exact ⟨hh.weaken, fun _ => hh⟩
  · split
    · exact ⟨hh.weaken, fun _ => hh⟩
    · split
      · -- asked for and dropped
        have hskip : Spoken K J b ({ h with autoBootAt := none }.note .autoSkipped) :=
          hJ.other hh rfl rfl rfl
        exact ⟨hskip.weaken, fun _ => hskip⟩
      · -- made now, or not yet
        split
        · refine ⟨hJ.sendBootstrap H (b := b) (hJ.other hh rfl rfl rfl), fun h => ?_⟩
          cases h
        · exact ⟨hh.weaken, fun _ => hh⟩

/-- A tick with no bootstrap on its way out. -/
theorem flushIdle (hb : b) {h : Host β V δ} (hh : Spoken K J b h) :
    Spoken K J False (h.flushIdle H w) := by
  have hboot := hJ.autoBoot H (hJ.sendManifestBatch hh)
  unfold Host.flushIdle
  dsimp only
  split
  · rename_i h' heq
    rw [heq] at hboot
    exact hboot.1
  · rename_i h' heq
    rw [heq] at hboot
    have hsweeps := hJ.sweeps (hboot.2 rfl)
    split
    · exact (hJ.primeLoop H _ _ hsweeps).weaken
    · exact (hJ.flushDirty H hb hsweeps).weaken

omit [BEq V] [DecidableEq δ] in
/-- A tick that goes on after the bootstrap's chunks has none of them left. -/
private theorem drainBoot_drained {h h' : Host β V δ} (hh : Spoken K J b h)
    (heq : h.drainBoot w = (h', true)) : Spoken K J True h' := by
  have hboot := hJ.drainBoot hh
  rw [heq] at hboot
  refine ⟨hboot.within, hboot.said, fun _ => ?_⟩
  unfold Host.drainBoot at heq
  split at heq
  · rename_i hbox
    obtain ⟨rfl, -⟩ := Prod.mk.inj heq
    exact hbox
  · rename_i o hbox
    exact sendChunks_drained (hJ.whole hh.said hbox) hbox heq

/-- One tick: the bootstrap's outbox goes first, and the rest waits until it is drained. -/
theorem flushTick {h : Host β V δ} (hh : Spoken K J b h) :
    Spoken K J False (h.flushTick H w) := by
  -- the bootstrap first: with chunks left, the tick ends here
  have hboot := hJ.drainBoot hh
  unfold Host.flushTick
  split
  · rename_i h₁ heq
    rw [heq] at hboot
    exact hboot.weaken
  · rename_i h₁ heq
    -- drained: from here on the others may speak
    have hboot := hJ.drainBoot_drained hh heq
    split
    · exact hboot.weaken
    · have hlib := hJ.drainLib hboot
      -- libraries, then blobs, each of which ends the tick when it is refused
      split
      · rename_i h₂ heq₂
        rw [heq₂] at hlib
        exact hlib.weaken
      · rename_i h₂ heq₂
        rw [heq₂] at hlib
        have hblobs := hJ.drainT2Outbox none hlib
        split
        · rename_i h₃ heq₃
          rw [heq₃] at hblobs
          exact hblobs.weaken
        · rename_i h₃ heq₃
          rw [heq₃] at hblobs
          -- the re-assert, then a repair or the idle path
          have hresent : Spoken K J True
              (if h₃.fastResendQueue ≠ [] ∨ h₃.fastResendEnd = true then
                h₃.drainFastResend H w else h₃) := by
            split
            · exact hJ.drainFastResend H trivial hblobs
            · exact hblobs
          dsimp only
          generalize (if h₃.fastResendQueue ≠ [] ∨ h₃.fastResendEnd = true then
              h₃.drainFastResend H w else h₃) = h₄ at hresent
          split
          · exact (hJ.drainDelta H trivial hresent).weaken
          · exact hJ.flushIdle H trivial hresent

/-! ## Calls -/

omit [BEq V] [DecidableEq δ] in
/-- The plan of a repair enters the queues; its datablocks are of `K`. -/
theorem sendDelta {plan : DeltaPlan} (hplan : ∀ u ∈ plan.tombs ++ (plan.resend ++ (plan.verify ++
    plan.atState)), K u) (held : Dict Uuid δ) {h : Host β V δ} (hh : Spoken K J b h) :
    Spoken K J b (h.sendDelta w plan held) := by
  -- the tombstones leave at once
  have htombs := foldl (f := fun h u => (h.sendTombstone w u).1) plan.tombs
    (fun _ u hu hh => hJ.sendTombstone (hplan u (List.mem_append_left _ hu)) hh) hh
  refine hJ.move htombs ⟨htombs.1.handles, htombs.1.dirty, htombs.1.resend, fun e he => ?_,
    fun u hu => ?_⟩ rfl rfl
  · -- the blobs of the plan, and those that it verifies
    obtain he | he := List.mem_append.mp he
    · obtain ⟨u, hu, rfl⟩ := List.mem_map.mp he
      exact hplan u (by simp [hu])
    · obtain ⟨u, hu, rfl⟩ := List.mem_map.mp he
      exact hplan u (by simp [hu])
  · -- the re-asserts: everything known, or the `"@"` states of the plan
    obtain hu | hu := List.mem_append.mp hu
    · split at hu
      · exact htombs.1.handles u (.inl (List.mem_filter.mp hu).1)
      · exact (List.not_mem_nil hu).elim
    · exact hplan u (by simp [(List.mem_filter.mp hu).1])

/-- A property that survives the sites survives every call. -/
theorem call {c : Call β δ} {h : Host β V δ} (hasks : h.Asks K c) (hh : Spoken K J False h) :
    Spoken K J False (h.call H (w, c)) := by
  cases c with
  | tick => exact hJ.flushTick H hh
  | depsgraph updates => exact hJ.onDepsgraph updates hh
  | bootstrap => exact hJ.sendBootstrap H hh
  | newFile => exact hJ.resetForNewFile H hh.1.resend hh.2
  | fastWindow gapAt =>
    refine hJ.move hh ⟨hh.1.handles, hh.1.dirty, fun e he => ?_, hh.1.delta, hh.1.tail⟩ rfl rfl
    obtain he | he := List.mem_append.mp he
    · exact hh.1.resend e he
    · exact hasks e he
  | delta plan held => exact hJ.sendDelta hasks held hh
  | libraries reqs => exact hJ.serveLibRequests reqs hh

omit hJ in
/-- And so every list of calls. -/
theorem run {calls : List (World β V × Call β δ)} (hJ : ∀ c ∈ calls, Speaks c.1 K J)
    {h : Host β V δ} (hasks : Along (Host.call H) (fun h c => h.Asks K c.2) h calls)
    (hh : Spoken K J False h) : Spoken K J False (h.run H calls) := by
  induction calls generalizing h with
  | nil => exact hh
  | cons c calls ih =>
    obtain ⟨hask, hasks⟩ := hasks
    apply ih (fun c' hc' => hJ c' (List.mem_cons_of_mem _ hc')) hasks
    exact (hJ c (List.mem_cons_self ..)).call H hask hh

end Flush

end Speaks

end Host

end QCBridge
