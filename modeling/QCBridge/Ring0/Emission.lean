import QCBridge.Ring0.Host

/-!
# The counters of the sending half

`ring0/host_handlers.py`: every site that puts a message on a lane counts first, stamps the
header, hands it to the transport, and counts back when the transport refuses. Here each
site is written out; the ledger takes the whole of it as one step.

A chunk that was refused stays queued with the stamp on it. The next try overwrites the
stamp before anything reads it, so it is left out.

## Key results

- `Ledger.emit_eq`: a site that is refused leaves the ledger as it was, and one that is not
  takes the ledger's step
- `Host.send_emit`: what the sync loop sends, it sends from a site
-/

namespace QCBridge

variable {β V δ : Type}

namespace Ledger

/-! ## The cold sites -/

/-- A turn of the bootstrap loop of `_flush_tick_inner`. -/
def emitBoot (l : Ledger β V δ) (ok : Bool) : Ledger β V δ × Bool :=
  match l.bootOutbox with
  | some ⟨id, data, chunk :: rest⟩ =>
    let l : Ledger β V δ := { l with seq := l.seq + 1 }
    let header := chunk.withSeq l.seq
    -- `send` took it
    if ok then
      let l : Ledger β V δ := { l with
        log := l.log ++ [.cold header]
        bootOutbox := some ⟨id, data, rest⟩ }
      if rest.isEmpty then
        ({ l with
          log := l.log ++ [.left id data]
          bootOutbox := none
          bootLastSeq := header.seqNo
          uuidColdSeq := Dict.empty }, true)
      else (l, true)
    -- refused: the count is taken back, the chunk stays
    else ({ l with seq := l.seq - 1 }, false)
  | _ => (l, true)

/-- A turn of the library loop of `_flush_tick_inner`. -/
def emitLib (l : Ledger β V δ) (ok : Bool) : Ledger β V δ × Bool :=
  match l.libOutbox with
  | ⟨id, data, chunk :: rest⟩ :: others =>
    let l : Ledger β V δ := { l with seq := l.seq + 1 }
    let header := chunk.withSeq l.seq
    if ok then
      let l : Ledger β V δ := { l with log := l.log ++ [.cold header] }
      if rest.isEmpty then
        ({ l with log := l.log ++ [.left id data], libOutbox := others }, true)
      else ({ l with libOutbox := ⟨id, data, rest⟩ :: others }, true)
    -- refused: the count is taken back, the chunk stays
    else ({ l with seq := l.seq - 1 }, false)
  | _ => (l, true)

/-- A turn of the inner loop of `_drain_t2_outbox`. -/
def emitT2 (l : Ledger β V δ) (uuid : Uuid) (ok : Bool) : Ledger β V δ × Bool :=
  match l.t2Outbox.get? uuid with
  | some ⟨id, data, chunk :: rest⟩ =>
    let l : Ledger β V δ := { l with seq := l.seq + 1 }
    let header := chunk.withSeq l.seq
    if ok then
      let l : Ledger β V δ := { l with
        log := l.log ++ [.cold header]
        uuidColdSeq := l.uuidColdSeq.insert uuid header.seqNo }
      if rest.isEmpty then
        ({ l with log := l.log ++ [.left id data], t2Outbox := l.t2Outbox.erase uuid }, true)
      else ({ l with t2Outbox := l.t2Outbox.insert uuid ⟨id, data, rest⟩ }, true)
    -- refused: the count is taken back, the chunk stays
    else ({ l with seq := l.seq - 1 }, false)
  | _ => (l, true)

/-- `_send_cold_msg`. -/
def emitColdMsg (l : Ledger β V δ) (kind : Kind) (lib : String) (ok : Bool) :
    Ledger β V δ × Bool :=
  let l : Ledger β V δ := { l with seq := l.seq + 1 }
  let header : Msg β V δ := { header := { kind := kind, lib := lib, seq := some l.seq } }
  if ok then ({ l with log := l.log ++ [.cold header], linkSeq := l.seq }, true)
  else ({ l with seq := l.seq - 1 }, false)

/-- The end of `_drain_delta`. -/
def emitEndCold (l : Ledger β V δ) (ok : Bool) : Ledger β V δ × Bool :=
  let l : Ledger β V δ := { l with seq := l.seq + 1 }
  let header : Msg β V δ := { header := { kind := .resyncEnd, seq := some l.seq } }
  if ok then ({ l with log := l.log ++ [.cold header] }, true)
  else ({ l with seq := l.seq - 1 }, false)

/-! ## The fast sites -/

/-- `_send_t1`, once `after` is known. -/
def emitT1 (l : Ledger β V δ) (uuid : Uuid) (changes : List (Path × V)) (after : Nat)
    (full : Bool) (sd : Option δ) (ok : Bool) : Ledger β V δ × Bool :=
  let l : Ledger β V δ := { l with seqFast := l.seqFast + 1 }
  let header := (t1Msg uuid changes after full sd : Msg β V δ).withSeq l.seqFast
  if ok then
    ({ l with
      log := l.log ++ [.fast header]
      fastlog := l.fastlog.record l.seqFast uuid .t1 }, true)
  else ({ l with seqFast := l.seqFast - 1 }, false)

/-- `_send_tombstone`. -/
def emitTomb (l : Ledger β V δ) (uuid : Uuid) (ok : Bool) : Ledger β V δ × Bool :=
  let l : Ledger β V δ := { l with seqFast := l.seqFast + 1 }
  let header := (tombMsg uuid (l.afterFor uuid) : Msg β V δ).withSeq l.seqFast
  if ok then
    ({ l with
      log := l.log ++ [.fast header]
      fastlog := l.fastlog.record l.seqFast uuid .tomb }, true)
  else ({ l with seqFast := l.seqFast - 1 }, false)

/-- The end of `_drain_fast_resend`. -/
def emitEndFast (l : Ledger β V δ) (ok : Bool) : Ledger β V δ × Bool :=
  let l : Ledger β V δ := { l with seqFast := l.seqFast + 1 }
  let header : Msg β V δ :=
    { header := { kind := .resyncEnd, lane := .fast, seq := some l.seqFast } }
  if ok then ({ l with log := l.log ++ [.fast header] }, true)
  else ({ l with seqFast := l.seqFast - 1 }, false)

/-- The site that sends what an act sends. -/
def emit (l : Ledger β V δ) (a : LedgerAct β V δ) (ok : Bool) : Ledger β V δ × Bool :=
  match a with
  | .sendBoot => l.emitBoot ok
  | .sendLib => l.emitLib ok
  | .sendT2 uuid => l.emitT2 uuid ok
  | .sendCold kind lib => l.emitColdMsg kind lib ok
  | .endCold => l.emitEndCold ok
  | .t1 uuid changes targets full sd =>
    l.emitT1 uuid changes (l.afterAll uuid targets) full sd ok
  | .tomb uuid => l.emitTomb uuid ok
  | .endFast => l.emitEndFast ok
  -- nothing leaves
  | a => (l.step a, true)

/-! ## Counting back -/

/-- The message an act would send is there: what a queue sends is at its head. -/
def HasNext (l : Ledger β V δ) : LedgerAct β V δ → Prop
  | .sendBoot => ∃ id data m rest, l.bootOutbox = some ⟨id, data, m :: rest⟩
  | .sendLib => ∃ id data m rest others, l.libOutbox = ⟨id, data, m :: rest⟩ :: others
  | .sendT2 uuid => ∃ id data m rest, l.t2Outbox.get? uuid = some ⟨id, data, m :: rest⟩
  | .sendCold .. | .endCold | .t1 .. | .tomb _ | .endFast => True
  | _ => False

/-- A refused message leaves no trace, and an accepted one is a step of the ledger. -/
theorem emit_eq (l : Ledger β V δ) {a : LedgerAct β V δ} (h : l.HasNext a) (ok : Bool) :
    l.emit a ok = if ok then (l.step a, true) else (l, false) := by
  cases a with
  -- a refused chunk stays at the head of its outbox
  | sendBoot =>
    obtain ⟨id, data, m, rest, hbox⟩ := h
    simp only [emit, emitBoot, step, sendBoot, hbox]
    cases ok with
    | false =>
      rw [← hbox]
      rfl
    | true => cases rest <;> rfl
  | sendLib =>
    obtain ⟨id, data, m, rest, others, hbox⟩ := h
    simp only [emit, emitLib, step, sendLib, hbox]
    cases ok with
    | false =>
      rw [← hbox]
      rfl
    | true => cases rest <;> rfl
  | sendT2 uuid =>
    obtain ⟨id, data, m, rest, hbox⟩ := h
    simp only [emit, emitT2, step, sendT2, hbox]
    cases ok with
    | false =>
      rw [← hbox]
      rfl
    | true => cases rest <;> rfl
  -- what is made up when it is sent leaves nothing behind
  | sendCold kind lib => cases ok <;> rfl
  | endCold => cases ok <;> rfl
  | t1 uuid changes targets full sd => cases ok <;> rfl
  | tomb uuid => cases ok <;> rfl
  | endFast => cases ok <;> rfl
  | cutBoot | cutT2 | cutLib | record | skip => cases h

end Ledger

/-- What the sync loop sends leaves from its site: the transport's answer decides what
    becomes of the counters. -/
theorem Host.send_emit (w : World β V) (h : Host β V δ) {a : LedgerAct β V δ}
    (hnext : h.ledger.HasNext a) :
    ((h.send w a).1.ledger, (h.send w a).2) = h.ledger.emit a (w.accepts h.tries) := by
  rw [Ledger.emit_eq _ hnext]
  unfold Host.send
  dsimp only
  split <;> rfl

end QCBridge
