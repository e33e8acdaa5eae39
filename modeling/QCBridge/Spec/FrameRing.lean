import QCBridge.ForStd.Guarded
import QCBridge.Ring0.FrameRing

/-!
# No torn frame, and none skipped

A slot's seqlock only goes up, and is odd while the slot is written. So what a helper reads
between two looks at the same even seqlock is one frame. The writer keeps off the slot that
`latest` names, and off the one it saw claimed: the frame that a helper aims at stays whole as
long as it is the latest.

The slot has eight bits in `latest`, so a ring has at most 256 slots.

## Key results

- `RingSystem.Sound`: what holds of slots, writer and helper in any state
- `RingSystem.Whole`, `RingSystem.Settled`: an accepted frame; a frame that is done with
- `RingSystem.frame_ring_sound`: every order of steps
- `RingSystem.frame_ring_counterexample`: a ring of 257 slots
-/

namespace QCBridge

variable {n cap : Nat}

/-! ## Slots -/

/-- The next slot is one of the ring's, whatever was claimed. -/
theorem nextSlot_lt (hn : 3 ≤ n) (lastSlot : Option Nat) (claim : Nat) :
    nextSlot lastSlot claim n < n := by
  unfold nextSlot
  dsimp only
  split
  · exact Nat.mod_lt _ (by omega)
  · exact Nat.mod_lt _ (by omega)

/-- In a ring of two slots or more the next one is another. -/
private theorem succ_mod_ne (hn : 2 ≤ n) {x : Nat} (hx : x < n) : (x + 1) % n ≠ x := by
  rcases Nat.lt_or_ge (x + 1) n with hlt | hge
  · rw [Nat.mod_eq_of_lt hlt]
    omega
  · obtain rfl : n = x + 1 := by omega
    rw [Nat.mod_self]
    omega

/-- Neither the slot that is claimed nor the last one is next. -/
private theorem nextSlot_ne (hn : 3 ≤ n) {lastSlot : Option Nat}
    (hlast : ∀ l, lastSlot = some l → l < n)
    (claim : Nat) :
    claim ≠ nextSlot lastSlot claim n + 1 ∧ lastSlot ≠ some (nextSlot lastSlot claim n) := by
  have hfirst : lastSlot.elim 0 (· + 1) % n < n := Nat.mod_lt _ (by omega)
  have hne := succ_mod_ne (by omega) hfirst
  unfold nextSlot
  dsimp only
  split
  next hclaim =>
    refine ⟨by omega, ?_⟩
    intro hl
    obtain ⟨l, rfl⟩ : ∃ l, lastSlot = some l := ⟨_, hl⟩
    have hlt := hlast l rfl
    have heq : (((l + 1) % n) + 1) % n = l := (Option.some.inj hl).symm
    -- two slots on, in a ring of three or more
    rcases Nat.lt_or_ge (l + 1) n with hlt1 | hge1
    · rw [Nat.mod_eq_of_lt hlt1] at heq
      rcases Nat.lt_or_ge (l + 2) n with hlt2 | hge2
      · rw [Nat.mod_eq_of_lt hlt2] at heq
        omega
      · obtain rfl : n = l + 2 := by omega
        rw [Nat.mod_self] at heq
        omega
    · obtain rfl : n = l + 1 := by omega
      rw [Nat.mod_self, Nat.mod_eq_of_lt (by omega)] at heq
      omega
  next hclaim =>
    refine ⟨hclaim, ?_⟩
    intro hl
    obtain ⟨l, rfl⟩ : ∃ l, lastSlot = some l := ⟨_, hl⟩
    exact succ_mod_ne (by omega) (hlast l rfl) (Option.some.inj hl).symm

/-- Eight bits hold the slot, so that it is read back in a ring of at most 256. -/
private theorem slotOf_packLatest {seq slot : Nat} (h : slot < 256) :
    slotOf (packLatest seq slot) = slot := by
  unfold slotOf packLatest
  omega

/-- The sequence number is read back in any ring. -/
private theorem packLatest_div (seq slot : Nat) : packLatest seq slot / 256 = seq := by
  unfold packLatest
  omega

/-- What a cell holds after one store more. -/
private theorem lastStore_snoc (stores : List (Cell × Nat)) (c d : Cell) (v : Nat) :
    lastStore (stores ++ [(c, v)]) d = if c = d then some v else lastStore stores d := by
  unfold lastStore
  rw [List.filter_append]
  by_cases h : c = d
  · rw [if_pos h, List.filter_cons_of_pos (by simpa using h), List.filter_nil,
      List.getLast?_concat]
    rfl
  · rw [if_neg h, List.filter_cons_of_neg (by simpa using h), List.filter_nil, List.append_nil]

/-- A frame stores its whole descriptor, and last. -/
private theorem Frame.value_desc (f : Frame) (d : DescField) :
    f.value (.desc d) = some (f.desc d) := by
  have hpixels : ∀ stores : List (Cell × Nat), (∀ p ∈ stores, p.1 ≠ .desc d) →
      stores.filter (·.1 = .desc d) = [] := by
    intro stores h
    rw [List.filter_eq_nil_iff]
    intro p hp
    simpa using h p hp
  unfold value lastStore stores
  rw [List.filter_append, hpixels, List.nil_append]
  · cases d <;> rfl
  · intro p hp
    obtain ⟨q, -, rfl⟩ := List.mem_map.mp hp
    simp

namespace RingSystem

variable {s : RingSystem} {f : Frame} {slot saw seqlock latest before after : Nat}
  {todo got : List (Cell × Nat)}

/-! ## What holds -/

/-- The slot holds what the frame stores. -/
def Filled (t : Slot) (f : Frame) : Prop := ∀ c v, f.value c = some v → t.cell c = v

/-- What was read is what the frame stores. -/
def Agrees (got : List (Cell × Nat)) (f : Frame) : Prop :=
  ∀ c v w, (c, v) ∈ got → f.value c = some w → v = w

/-- The frame that `latest` names. -/
def Named (s : RingSystem) (latest : Nat) (f : Frame) : Prop :=
  256 ≤ latest ∧ s.calls[latest / 256 - 1]? = some (slotOf latest, f)

/-- Nobody writes the slot; and it holds a frame, if it was ever written. -/
def AtRest (s : RingSystem) (k : Nat) : Prop :=
  (s.slots k).seqlock % 2 = 0 ∧
    ((s.slots k).seqlock = 0 ∨ ∃ f, (k, f) ∈ s.calls ∧ Filled (s.slots k) f)

/-- The writer is in the slot. -/
def Inside (s : RingSystem) (k : Nat) : Prop :=
  ∃ f saw seqlock todo, s.writer = .inside f k saw seqlock todo

/-- The choice of a call of `publish`. -/
structure Choice (n : Nat) (s : RingSystem) (f : Frame) (slot saw : Nat) : Prop where
  call : s.calls.length = s.seq + 1 ∧ s.calls[s.seq]? = some (slot, f)
  lt : slot < n
  unclaimed : saw ≠ slot + 1
  not_last : s.lastSlot ≠ some slot
  order : s.latest / 256 ≤ s.seq

/-- The writer, wherever it is. -/
def WriterSound (n : Nat) (s : RingSystem) : WriterAt → Prop
  | .idle => s.calls.length = s.seq ∧ s.latest / 256 ≤ s.seq
  | .chosen f slot saw => Choice n s f slot saw
  | .inside f slot saw seqlock todo =>
    Choice n s f slot saw ∧ (s.slots slot).seqlock = seqlock ∧ seqlock % 2 = 1 ∧
      ∃ before, f.stores = before ++ todo ∧
        ∀ c v, lastStore before c = some v → (s.slots slot).cell c = v
  | .closed slot =>
    s.calls.length = s.seq ∧ s.latest / 256 < s.seq ∧ slot < n ∧ s.lastSlot ≠ some slot ∧
      1 ≤ (s.slots slot).seqlock ∧
      ∃ f, s.calls[s.seq - 1]? = some (slot, f) ∧ Filled (s.slots slot) f

/-- Nothing is published; or `latest` names the last slot, and the slot holds its frame. -/
def LatestSound (n : Nat) (s : RingSystem) : Prop :=
  (s.latest = 0 ∧ s.lastSlot = none) ∨
    (s.lastSlot = some (slotOf s.latest) ∧ slotOf s.latest < n ∧
      1 ≤ (s.slots (slotOf s.latest)).seqlock ∧
      ∃ f, Named s s.latest f ∧ Filled (s.slots (slotOf s.latest)) f)

/-- A `latest` that the helper read. -/
structure Seen (n : Nat) (s : RingSystem) (latest : Nat) : Prop where
  pos : 256 ≤ latest
  le : latest ≤ s.latest
  lt : slotOf latest < n
  written : 1 ≤ (s.slots (slotOf latest)).seqlock

/-- What the helper read of the slot is there, as long as the seqlock is what it was. -/
structure Reading (s : RingSystem) (latest before : Nat) (got : List (Cell × Nat)) : Prop where
  pos : 1 ≤ before
  le : before ≤ (s.slots (slotOf latest)).seqlock
  there : before % 2 = 0 → (s.slots (slotOf latest)).seqlock = before →
    ∀ c v, (c, v) ∈ got → (s.slots (slotOf latest)).cell c = v
  still : latest = s.latest → (s.slots (slotOf latest)).seqlock = before


/-- The helper, wherever it is. -/
def ReaderSound (n : Nat) (s : RingSystem) : ReaderAt → Prop
  | .start => True
  | .aimed latest => Seen n s latest
  | .claimed latest => Seen n s latest
  | .reading latest before got =>
    Seen n s latest ∧ Reading s latest before got ∧
      got.map Prod.fst = (DescField.all.map Cell.desc).take got.length
  | .converting latest before got =>
    Seen n s latest ∧ Reading s latest before got ∧ before % 2 = 0 ∧
      ∀ d, ∃ v, (Cell.desc d, v) ∈ got
  | .checked latest before after got =>
    Seen n s latest ∧ (∀ d, ∃ v, (Cell.desc d, v) ∈ got) ∧
      (after = before → ∃ f, (slotOf latest, f) ∈ s.calls ∧ Agrees got f) ∧
      (latest = s.latest → ∃ f, Named s latest f ∧ Agrees got f)

/-- An accepted frame: its descriptor, and each of its pixels that was read, are those of one
    call of `publish`. -/
def Whole (s : RingSystem) (latest : Nat) (got : List (Cell × Nat)) : Prop :=
  ∃ f, (slotOf latest, f) ∈ s.calls ∧ (∀ d, (.desc d, f.desc d) ∈ got) ∧
    ∀ k v w, (.pixel k, v) ∈ got → f.value (.pixel k) = some w → v = w

/-- The frame that `latest` names was accepted, or has a bad descriptor, or could not be
    converted. -/
def Settled (cap : Nat) (s : RingSystem) (latest : Nat) : Prop :=
  (∃ f got, Named s latest f ∧ (latest, got) ∈ s.accepted ∧ Agrees got f) ∨
    (∃ f, Named s latest f ∧ descOk cap f.desc = false) ∨ latest ∈ s.failed

structure Sound (n cap : Nat) (s : RingSystem) : Prop where
  rest : ∀ k, ¬ s.Inside k → s.AtRest k
  writer : WriterSound n s s.writer
  latest : LatestSound n s
  reader : ReaderSound n s s.reader
  cursor_le : s.cursor ≤ s.latest
  cursor : s.cursor = s.latest → s.latest = 0 ∨ Settled cap s s.latest
  accepted : ∀ latest got, (latest, got) ∈ s.accepted → Whole s latest got

/-! ## What a step of the writer leaves to the helper -/

/-- What a helper in the middle of a frame may meet: calls are added, `latest` does not go back,
    and a slot is written under an odd seqlock, or one that goes up, and is not the slot that
    `latest` names. -/
structure Later (s s' : RingSystem) : Prop where
  calls : ∃ more, s'.calls = s.calls ++ more
  le : s.latest ≤ s'.latest
  slots : ∀ k, s'.slots k = s.slots k ∨
    (s.slots k).seqlock ≤ (s'.slots k).seqlock ∧
      ((s'.slots k).seqlock % 2 = 1 ∨ (s.slots k).seqlock < (s'.slots k).seqlock) ∧
      (256 ≤ s.latest → k ≠ slotOf s.latest)

/-- A step of the writer. -/
structure Written (s s' : RingSystem) : Prop extends Later s s' where
  reader : s'.reader = s.reader
  cursor : s'.cursor = s.cursor
  accepted : s'.accepted = s.accepted
  failed : s'.failed = s.failed

namespace Later

variable {s' : RingSystem}

/-- A call of `publish` is not forgotten. -/
private theorem mem_calls (h : Later s s') {c : Nat × Frame} (hc : c ∈ s.calls) : c ∈ s'.calls := by
  obtain ⟨more, heq⟩ := h.calls
  rw [heq]
  exact List.mem_append_left more hc

/-- And it keeps its number. -/
private theorem getElem?_calls (h : Later s s') {j : Nat} {c : Nat × Frame}
    (hc : s.calls[j]? = some c) : s'.calls[j]? = some c := by
  obtain ⟨more, heq⟩ := h.calls
  rw [heq, List.getElem?_append_left (List.getElem?_eq_some_iff.mp hc).1, hc]

/-- What `latest` named once, that value still names. -/
theorem named (h : Later s s') (hn : Named s latest f) : Named s' latest f :=
  ⟨hn.1, h.getElem?_calls hn.2⟩

/-- A seqlock does not go back. -/
private theorem seqlock_le (h : Later s s') (k : Nat) :
    (s.slots k).seqlock ≤ (s'.slots k).seqlock := by
  rcases h.slots k with heq | ⟨hle, -⟩
  · exact Nat.le_of_eq (congrArg Slot.seqlock heq.symm)
  · exact hle

/-- What the helper saw published stays published. -/
theorem seen (h : Later s s') (hseen : Seen n s latest) : Seen n s' latest :=
  ⟨hseen.pos, Nat.le_trans hseen.le h.le, hseen.lt, Nat.le_trans hseen.written (h.seqlock_le _)⟩

/-- What the helper read stays there or the seqlock moves on; and as long as `latest` is what it
    was, its slot is not touched. -/
theorem reading (h : Later s s') (hseen : Seen n s latest) (hr : Reading s latest before got) :
    Reading s' latest before got where
  pos := hr.pos
  le := Nat.le_trans hr.le (h.seqlock_le _)
  there heven hsame c v hin := by
    have hle := hr.le
    rcases h.slots (slotOf latest) with heq | ⟨-, hodd | hlt, -⟩
    · rw [heq] at hsame ⊢
      exact hr.there heven hsame c v hin
    · omega
    · omega
  still heq := by
    -- it was the latest before the step
    have hsame : latest = s.latest := Nat.le_antisymm hseen.le (heq ▸ h.le)
    rcases h.slots (slotOf latest) with hslot | ⟨-, -, hne⟩
    · rw [hslot]
      exact hr.still hsame
    · exact absurd (congrArg slotOf hsame) (hne (hsame ▸ hseen.pos))

/-- The helper in the middle of a frame, when the writer has gone on. -/
private theorem readerSound (h : Later s s') {r : ReaderAt} (hr : ReaderSound n s r) :
    ReaderSound n s' r := by
  cases r with
  | start => trivial
  | aimed latest => exact h.seen hr
  | claimed latest => exact h.seen hr
  | reading latest before got => exact ⟨h.seen hr.1, h.reading hr.1 hr.2.1, hr.2.2⟩
  | converting latest before got => exact ⟨h.seen hr.1, h.reading hr.1 hr.2.1, hr.2.2⟩
  | checked latest before after got =>
    obtain ⟨hseen, hdesc, hwhole, hstill⟩ := hr
    refine ⟨h.seen hseen, hdesc, fun heq => ?_, fun heq => ?_⟩
    · obtain ⟨f, hin, hagrees⟩ := hwhole heq
      exact ⟨f, h.mem_calls hin, hagrees⟩
    · obtain ⟨f, hn, hagrees⟩ := hstill (Nat.le_antisymm hseen.le (heq ▸ h.le))
      exact ⟨f, h.named hn, hagrees⟩

end Later

namespace Written

variable {s' : RingSystem}

/-- A frame that is done with stays so. -/
theorem settled (h : Written s s') (hs : Settled cap s latest) : Settled cap s' latest := by
  unfold Settled
  rw [h.accepted, h.failed]
  rcases hs with ⟨f, got, hn, hrest⟩ | ⟨f, hn, hbad⟩ | hfailed
  · exact .inl ⟨f, got, h.named hn, hrest⟩
  · exact .inr (.inl ⟨f, h.named hn, hbad⟩)
  · exact .inr (.inr hfailed)

/-- What is left to show of a step of the writer. -/
theorem sound (h : Written s s') (hs : Sound n cap s) (hrest : ∀ k, ¬ s'.Inside k → s'.AtRest k)
    (hwriter : WriterSound n s' s'.writer) (hlatest : LatestSound n s') : Sound n cap s' where
  rest := hrest
  writer := hwriter
  latest := hlatest
  reader := by
    rw [h.reader]
    exact h.readerSound hs.reader
  cursor_le := by
    rw [h.cursor]
    exact Nat.le_trans hs.cursor_le h.le
  cursor heq := by
    rw [h.cursor] at heq
    have hsame : s'.latest = s.latest :=
      Nat.le_antisymm (heq ▸ hs.cursor_le) h.le
    rw [hsame] at heq ⊢
    exact (hs.cursor heq).imp_right h.settled
  accepted latest got hin := by
    rw [h.accepted] at hin
    obtain ⟨f, hf, hrest⟩ := hs.accepted latest got hin
    exact ⟨f, h.mem_calls hf, hrest⟩

end Written

/-! ## The writer -/

/-- The slot that was chosen is not the last one, which is the one that `latest` names. -/
private theorem Choice.ne_latest (h : Choice n s f slot saw) (hs : LatestSound n s)
    (hpos : 256 ≤ s.latest) : slot ≠ slotOf s.latest := by
  rcases hs with ⟨hzero, -⟩ | ⟨hlast, -⟩
  · omega
  · rintro rfl
    exact h.not_last hlast

/-- `latest` is about a slot that did not change. -/
private theorem LatestSound.of_slots {s' : RingSystem} (h : LatestSound n s) (hw : Written s s')
    (hlatest : s'.latest = s.latest) (hlast : s'.lastSlot = s.lastSlot) : LatestSound n s' := by
  unfold LatestSound
  rw [hlatest, hlast]
  rcases h with hzero | ⟨hlast, hlt, hpos, f, hn, hfilled⟩
  · exact .inl hzero
  · have hslot : s'.slots (slotOf s.latest) = s.slots (slotOf s.latest) := by
      rcases hw.slots (slotOf s.latest) with heq | ⟨-, -, hne⟩
      · exact heq
      · exact absurd rfl (hne hn.1)
    rw [hslot]
    exact .inr ⟨hlast, hlt, hpos, f, hw.named hn, hfilled⟩

/-- A slot that the writer leaves alone stays at rest. -/
theorem AtRest.mono {s' : RingSystem} {k : Nat} (h : s.AtRest k) (hw : Written s s')
    (hslot : s'.slots k = s.slots k) : s'.AtRest k := by
  unfold AtRest
  rw [hslot]
  exact ⟨h.1, h.2.imp_right fun ⟨f, hf, hfilled⟩ => ⟨f, hw.mem_calls hf, hfilled⟩⟩

/-- The last slot is one of the ring's. -/
private theorem lastSlot_lt (h : LatestSound n s) : ∀ l, s.lastSlot = some l → l < n := by
  intro l hl
  rcases h with ⟨-, hnone⟩ | ⟨hlast, hlt, -⟩
  · rw [hnone] at hl
    cases hl
  · obtain rfl : slotOf s.latest = l := Option.some.inj (hlast.symm.trans hl)
    exact hlt

/-- Out of its slot the writer is in none. -/
private theorem not_inside_of {w : WriterAt} (hw : s.writer = w)
    (hne : ∀ f k saw q todo, w ≠ .inside f k saw q todo) (k : Nat) : ¬ s.Inside k := by
  rintro ⟨f, saw, q, todo, hin⟩
  exact hne f k saw q todo (hw.symm.trans hin)

/-- A call of `publish` chooses its slot. -/
private theorem sound_choose (hn : 3 ≤ n) (h : Sound n cap s) (hidle : s.writer = .idle)
    (frame : Frame) :
    Sound n cap (s.write n frame) := by
  have hwriter := h.writer
  rw [hidle] at hwriter
  obtain ⟨hlen, horder⟩ := hwriter
  have hstep : s.write n frame = { s with
      writer := .chosen frame (nextSlot s.lastSlot s.readerClaim n) s.readerClaim
      calls := s.calls ++ [(nextSlot s.lastSlot s.readerClaim n, frame)] } := by
    unfold write
    rw [hidle]
  have hwritten : Written s (s.write n frame) := by
    rw [hstep]
    exact ⟨⟨⟨_, rfl⟩, Nat.le_refl _, fun k => .inl rfl⟩, rfl, rfl, rfl, rfl⟩
  have hslots : (s.write n frame).slots = s.slots := by rw [hstep]
  obtain ⟨hunclaimed, hnot⟩ := nextSlot_ne hn (lastSlot_lt h.latest) s.readerClaim
  refine hwritten.sound h (fun k _ => ?_) ?_
    (h.latest.of_slots hwritten (by rw [hstep]) (by rw [hstep]))
  · exact (h.rest k (not_inside_of hidle (by simp) k)).mono hwritten (by rw [hslots])
  · -- the call is the next one in the list, and its slot is neither claimed nor the last
    rw [hstep]
    refine ⟨⟨?_, ?_⟩, nextSlot_lt hn _ _, hunclaimed, hnot, horder⟩
    · show (s.calls ++ [_]).length = s.seq + 1
      rw [List.length_append, hlen]
      rfl
    · show (s.calls ++ [_])[s.seq]? = _
      rw [← hlen]
      exact List.getElem?_concat_length

/-- A step of the writer in one slot. -/
private theorem written_slot (s : RingSystem) (slot seq : Nat) (t : Slot) (w : WriterAt)
    (hle : (s.slots slot).seqlock ≤ t.seqlock)
    (hup : t.seqlock % 2 = 1 ∨ (s.slots slot).seqlock < t.seqlock)
    (hne : 256 ≤ s.latest → slot ≠ slotOf s.latest) :
    Written s { s with slots := Function.update s.slots slot t, writer := w, seq := seq } where
  calls := ⟨[], (List.append_nil _).symm⟩
  le := Nat.le_refl _
  slots k := by
    by_cases hk : k = slot
    · subst hk
      refine .inr ?_
      dsimp only
      rw [Function.update_self]
      exact ⟨hle, hup, hne⟩
    · exact .inl (Function.update_of_ne hk ..)
  reader := rfl
  cursor := rfl
  accepted := rfl
  failed := rfl

/-- The writer is in one slot at a time. -/
private theorem inside_slot (hw : s.writer = .inside f slot saw seqlock todo) {k : Nat}
    (h : s.Inside k) : k = slot := by
  obtain ⟨g, saw', q, todo', hin⟩ := h
  rw [hw] at hin
  injection hin with _ heq
  exact heq.symm

/-- A choice is about the order of the calls and not about what the slots hold. -/
private theorem Choice.of_slots {s' : RingSystem} (h : Choice n s f slot saw)
    (hcalls : s'.calls = s.calls) (hseq : s'.seq = s.seq) (hlast : s'.lastSlot = s.lastSlot)
    (hlatest : s'.latest = s.latest) : Choice n s' f slot saw where
  call := by rw [hcalls, hseq]; exact h.call
  lt := h.lt
  unclaimed := h.unclaimed
  not_last := by rw [hlast]; exact h.not_last
  order := by rw [hlatest, hseq]; exact h.order

/-- The seqlock becomes odd. -/
private theorem sound_enter (h : Sound n cap s) (hchosen : s.writer = .chosen f slot saw)
    (frame : Frame) : Sound n cap (s.write n frame) := by
  have hchoice : Choice n s f slot saw := by
    have hwriter := h.writer
    rwa [hchosen] at hwriter
  have hnot := not_inside_of hchosen (by simp)
  have heven := (h.rest slot (hnot slot)).1
  have hstep : s.write n frame = { s with
      slots := Function.update s.slots slot
        { s.slots slot with seqlock := (s.slots slot).seqlock / 2 * 2 + 1 }
      writer := .inside f slot saw ((s.slots slot).seqlock / 2 * 2 + 1) f.stores } := by
    unfold write
    rw [hchosen]
  rw [hstep]
  have hwritten := written_slot s slot s.seq
    { s.slots slot with seqlock := (s.slots slot).seqlock / 2 * 2 + 1 }
    (.inside f slot saw ((s.slots slot).seqlock / 2 * 2 + 1) f.stores)
    (by dsimp only; omega) (.inl (by dsimp only; omega)) (hchoice.ne_latest h.latest)
  refine hwritten.sound h (fun k hk => ?_) ?_ (h.latest.of_slots hwritten rfl rfl)
  · -- every slot but this one is at rest as it was
    have hne : k ≠ slot := by
      rintro rfl
      exact hk ⟨_, _, _, _, rfl⟩
    exact (h.rest k (hnot k)).mono hwritten (Function.update_of_ne hne ..)
  · -- no store is done, and all of them are ahead
    refine ⟨hchoice.of_slots rfl rfl rfl rfl, ?_, by omega, [], rfl, fun c v hv => ?_⟩
    · dsimp only
      rw [Function.update_self]
    · cases hv

/-- A store, under the odd seqlock. -/
private theorem sound_store (h : Sound n cap s) {c : Cell} {v : Nat}
    (hinside : s.writer = .inside f slot saw seqlock ((c, v) :: todo)) (frame : Frame) :
    Sound n cap (s.write n frame) := by
  have hwriter := h.writer
  rw [hinside] at hwriter
  obtain ⟨hchoice, hseqlock, hodd, before, hstores, hdone⟩ := hwriter
  have hstep : s.write n frame = { s with
      slots := Function.update s.slots slot
        { s.slots slot with cell := Function.update (s.slots slot).cell c v }
      writer := .inside f slot saw seqlock todo } := by
    unfold write
    rw [hinside]
  rw [hstep]
  have hwritten := written_slot s slot s.seq
    { s.slots slot with cell := Function.update (s.slots slot).cell c v }
    (.inside f slot saw seqlock todo)
    (Nat.le_refl _) (.inl (by rw [hseqlock]; exact hodd)) (hchoice.ne_latest h.latest)
  refine hwritten.sound h (fun k hk => ?_) ?_ (h.latest.of_slots hwritten rfl rfl)
  · have hne : k ≠ slot := by
      rintro rfl
      exact hk ⟨_, _, _, _, rfl⟩
    -- the writer is in this one slot, before and after
    have hout : ¬ s.Inside k := fun hin => hne (inside_slot hinside hin)
    exact (h.rest k hout).mono hwritten (Function.update_of_ne hne ..)
  · -- one more store is done; a later store to the same cell wins
    refine ⟨hchoice.of_slots rfl rfl rfl rfl, ?_, hodd, before ++ [(c, v)], ?_, fun d w hw => ?_⟩
    · dsimp only
      rw [Function.update_self]
      exact hseqlock
    · rw [hstores, List.append_assoc]
      rfl
    · dsimp only
      rw [Function.update_self]
      dsimp only
      rw [lastStore_snoc] at hw
      by_cases hd : c = d
      · rw [if_pos hd] at hw
        rw [← hd, Function.update_self]
        exact Option.some.inj hw
      · rw [if_neg hd] at hw
        rw [Function.update_of_ne (Ne.symm hd)]
        exact hdone d w hw

/-- The seqlock becomes even again, over a whole frame. -/
private theorem sound_leave (h : Sound n cap s) (hinside : s.writer = .inside f slot saw seqlock [])
    (frame : Frame) : Sound n cap (s.write n frame) := by
  have hwriter := h.writer
  rw [hinside] at hwriter
  obtain ⟨hchoice, hseqlock, hodd, before, hstores, hdone⟩ := hwriter
  rw [List.append_nil] at hstores
  have hstep : s.write n frame = { s with
      slots := Function.update s.slots slot { s.slots slot with seqlock := seqlock + 1 }
      seq := s.seq + 1
      writer := .closed slot } := by
    unfold write
    rw [hinside]
  rw [hstep]
  have hwritten := written_slot s slot (s.seq + 1)
    { s.slots slot with seqlock := seqlock + 1 } (.closed slot)
    (by dsimp only; omega) (.inr (by dsimp only; omega)) (hchoice.ne_latest h.latest)
  have hfilled : Filled { s.slots slot with seqlock := seqlock + 1 } f := by
    intro c v hv
    exact hdone c v (hstores ▸ hv)
  refine hwritten.sound h (fun k _ => ?_) ?_ (h.latest.of_slots hwritten rfl rfl)
  · by_cases hk : k = slot
    · -- all stores are done: the slot holds the frame
      subst hk
      unfold AtRest
      dsimp only
      rw [Function.update_self]
      exact ⟨by dsimp only; omega, .inr ⟨f, List.mem_of_getElem? hchoice.call.2, hfilled⟩⟩
    · have hout : ¬ s.Inside k := fun hin => hk (inside_slot hinside hin)
      exact (h.rest k hout).mono hwritten (Function.update_of_ne hk ..)
  · have horder := hchoice.order
    refine ⟨hchoice.call.1, by dsimp only; omega, hchoice.lt, hchoice.not_last, ?_, f,
      hchoice.call.2, ?_⟩
    · dsimp only
      rw [Function.update_self]
      exact Nat.le_add_left 1 seqlock
    · dsimp only
      rw [Function.update_self]
      exact hfilled

/-- `latest` names the frame. -/
private theorem sound_publish (hmax : n ≤ 256) (h : Sound n cap s)
    (hclosed : s.writer = .closed slot)
    (frame : Frame) : Sound n cap (s.write n frame) := by
  have hwriter := h.writer
  rw [hclosed] at hwriter
  obtain ⟨hlen, horder, hlt, hlast, hpos, f, hcall, hfilled⟩ := hwriter
  have hstep : s.write n frame = { s with
      latest := packLatest s.seq slot
      lastSlot := some slot
      writer := .idle } := by
    unfold write
    rw [hclosed]
  rw [hstep]
  have hslot : slotOf (packLatest s.seq slot) = slot := slotOf_packLatest (by omega)
  -- the sequence number is in the high bits, so `latest` goes up whatever the slot
  have hle : s.latest ≤ packLatest s.seq slot := by
    unfold packLatest
    omega
  have hwritten : Written s { s with
      latest := packLatest s.seq slot
      lastSlot := some slot
      writer := .idle } :=
    ⟨⟨⟨[], (List.append_nil _).symm⟩, hle, fun k => .inl rfl⟩, rfl, rfl, rfl, rfl⟩
  refine hwritten.sound h (fun k _ => ?_) ?_ (.inr ⟨?_, ?_, ?_, f, ⟨?_, ?_⟩, ?_⟩)
  · exact (h.rest k (not_inside_of hclosed (by simp) k)).mono hwritten rfl
  · exact ⟨hlen, Nat.le_of_eq (packLatest_div s.seq slot)⟩
  · dsimp only
    rw [hslot]
  · dsimp only
    rw [hslot]
    exact hlt
  · dsimp only
    rw [hslot]
    exact hpos
  · dsimp only
    unfold packLatest
    omega
  · dsimp only
    rw [packLatest_div, hslot]
    exact hcall
  · dsimp only
    rw [hslot]
    exact hfilled

/-- A step of `publish`. -/
private theorem sound_write (hn : 3 ≤ n) (hmax : n ≤ 256) (h : Sound n cap s) (frame : Frame) :
    Sound n cap (s.write n frame) := by
  cases hw : s.writer with
  | idle => exact sound_choose hn h hw frame
  | chosen f slot saw => exact sound_enter h hw frame
  | inside f slot saw seqlock todo =>
    cases todo with
    | nil => exact sound_leave h hw frame
    | cons p todo => exact sound_store h hw frame
  | closed slot => exact sound_publish hmax h hw frame

/-! ## The helper -/

/-- A step of the helper, as the writer sees it. -/
structure Kept (s s' : RingSystem) : Prop where
  slots : s'.slots = s.slots
  latest : s'.latest = s.latest
  seq : s'.seq = s.seq
  lastSlot : s'.lastSlot = s.lastSlot
  writer : s'.writer = s.writer
  calls : s'.calls = s.calls

namespace Kept

variable {s' : RingSystem}

/-- The helper writes to no slot. -/
theorem rest (k : Kept s s') (h : Sound n cap s) (i : Nat) (hi : ¬ s'.Inside i) :
    s'.AtRest i := by
  unfold AtRest
  rw [k.slots, k.calls]
  apply h.rest i
  rintro ⟨f, saw, q, todo, hin⟩
  exact hi ⟨f, saw, q, todo, k.writer.trans hin⟩

/-- And it leaves the writer where it is. -/
private theorem writerSound (k : Kept s s') (h : Sound n cap s) : WriterSound n s' s'.writer := by
  have hwriter := h.writer
  rw [k.writer]
  cases hw : s.writer with
  | idle =>
    rw [hw] at hwriter
    unfold WriterSound
    rw [k.calls, k.seq, k.latest]
    exact hwriter
  | chosen f slot saw =>
    rw [hw] at hwriter
    exact hwriter.of_slots k.calls k.seq k.lastSlot k.latest
  | inside f slot saw seqlock todo =>
    rw [hw] at hwriter
    unfold WriterSound
    rw [k.slots]
    exact ⟨hwriter.1.of_slots k.calls k.seq k.lastSlot k.latest, hwriter.2⟩
  | closed slot =>
    rw [hw] at hwriter
    unfold WriterSound
    rw [k.calls, k.seq, k.latest, k.slots, k.lastSlot]
    exact hwriter

/-- And `latest`. -/
private theorem latestSound (k : Kept s s') (h : Sound n cap s) : LatestSound n s' := by
  unfold LatestSound Named
  rw [k.latest, k.lastSlot, k.slots, k.calls]
  exact h.latest

end Kept

/-- A step of the helper that leaves its cursor. -/
theorem Sound.move (h : Sound n cap s) (claim : Nat) {r : ReaderAt} (hr : ReaderSound n s r) :
    Sound n cap { s with readerClaim := claim, reader := r } := by
  have kept : Kept s { s with readerClaim := claim, reader := r } :=
    ⟨rfl, rfl, rfl, rfl, rfl, rfl⟩
  have later : Later s { s with readerClaim := claim, reader := r } :=
    ⟨⟨[], (List.append_nil _).symm⟩, Nat.le_refl _, fun k => .inl rfl⟩
  exact ⟨kept.rest h, kept.writerSound h, kept.latestSound h, later.readerSound hr,
    h.cursor_le, h.cursor, h.accepted⟩

/-- A step of the helper that moves it. -/
private theorem Sound.moveCursor (h : Sound n cap s) (claim : Nat) (hle : latest ≤ s.latest)
    (hsettled : latest = s.latest → s.latest = 0 ∨ Settled cap s s.latest) :
    Sound n cap { s with readerClaim := claim, cursor := latest, reader := .start } := by
  have kept : Kept s { s with readerClaim := claim, cursor := latest, reader := .start } :=
    ⟨rfl, rfl, rfl, rfl, rfl, rfl⟩
  exact ⟨kept.rest h, kept.writerSound h, kept.latestSound h, trivial, hle, hsettled, h.accepted⟩

/-- The slot that `latest` names is at rest, and holds its frame. -/
private theorem Sound.latest_filled (h : Sound n cap s) (hpos : 256 ≤ s.latest) :
    ∃ f, Named s s.latest f ∧ Filled (s.slots (slotOf s.latest)) f := by
  rcases h.latest with ⟨hzero, -⟩ | ⟨-, -, -, hf⟩
  · omega
  · exact hf

/-- The helper looks for a frame: it sees `latest` go beyond its cursor, or stays at the start. -/
private theorem sound_look (h : Sound n cap s) : Sound n cap (s.look n) := by
  unfold look
  split
  next hstart =>
    split
    · exact h
    next hne =>
      have hlatest : s.latest ≠ 0 := by
        intro hzero
        have := h.cursor_le
        omega
      rcases h.latest with ⟨hzero, -⟩ | ⟨-, hlt, hpos, f, hn, -⟩
      · exact absurd hzero hlatest
      · rw [if_pos hlt]
        exact h.move s.readerClaim ⟨hn.1, Nat.le_refl _, hlt, hpos⟩
  · exact h

/-- A cell that was read was read with a value. -/
private theorem mem_fst {got : List (Cell × Nat)} {c : Cell} (h : c ∈ got.map Prod.fst) :
    ∃ v, (c, v) ∈ got := by
  obtain ⟨p, hp, rfl⟩ := List.mem_map.mp h
  exact ⟨p.2, hp⟩

/-- The list of the descriptor's fields has them all. -/
private theorem mem_all (d : DescField) : d ∈ DescField.all := by cases d <;> decide

/-- After all fields. -/
private theorem described (hgot : got.map Prod.fst = (DescField.all.map Cell.desc).take got.length)
    (hnone : nextField got = none) (d : DescField) : ∃ v, (Cell.desc d, v) ∈ got := by
  have hlen : (DescField.all.map Cell.desc).length ≤ got.length := by
    rw [List.length_map]
    exact List.getElem?_eq_none_iff.mp hnone
  apply mem_fst
  rw [hgot, List.take_of_length_le hlen]
  exact List.mem_map_of_mem (mem_all d)

/-- The fields are read in the order of the descriptor, each once. -/
private theorem nextField_snoc
    (hgot : got.map Prod.fst = (DescField.all.map Cell.desc).take got.length)
    {d : DescField} (hd : nextField got = some d) (v : Nat) :
    (got ++ [(Cell.desc d, v)]).map Prod.fst =
      (DescField.all.map Cell.desc).take (got ++ [(Cell.desc d, v)]).length := by
  have hget : (DescField.all.map Cell.desc)[got.length]? = some (.desc d) := by
    rw [List.getElem?_map]
    exact congrArg (Option.map Cell.desc) hd
  rw [List.map_append, hgot, List.length_append, List.length_singleton, List.take_add_one, hget]
  rfl

/-- Reading one more cell. -/
theorem Reading.snoc (h : Reading s latest before got) (c : Cell) :
    Reading s latest before (got ++ [(c, (s.slots (slotOf latest)).cell c)]) where
  pos := h.pos
  le := h.le
  there heven hsame d v hin := by
    rcases List.mem_append.mp hin with hin | hin
    · exact h.there heven hsame d v hin
    · obtain ⟨rfl, rfl⟩ := Prod.mk.inj (List.mem_singleton.mp hin)
      rfl
  still := h.still

/-- What was read of a slot that holds a frame is the frame's. -/
private theorem agrees_of_filled {t : Slot} (hgot : ∀ c v, (c, v) ∈ got → t.cell c = v)
    (hf : Filled t f) : Agrees got f := fun c v w hin hw =>
  (hgot c v hin).symm.trans (hf c w hw)

/-- The descriptor that was read is the frame's. -/
private theorem fieldOf_eq (hdesc : ∀ d, ∃ v, (Cell.desc d, v) ∈ got) (hagrees : Agrees got f) :
    fieldOf got = f.desc := by
  funext d
  obtain ⟨v, hv⟩ := hdesc d
  unfold fieldOf
  cases hfind : got.find? (·.1 = .desc d) with
  | none =>
    have := List.find?_eq_none.mp hfind _ hv
    simp at this
  | some p =>
    have hfst : p.1 = .desc d := by simpa using List.find?_some hfind
    have hmem : (Cell.desc d, p.2) ∈ got := by
      rw [← hfst]
      exact List.mem_of_find?_eq_some hfind
    exact hagrees _ _ _ hmem (f.value_desc d)

/-- What was read of the slot that `latest` still names is its frame's: the writer keeps off
    that slot. -/
private theorem Reading.agrees_latest (hreading : Reading s latest before got) (h : Sound n cap s)
    (hseen : Seen n s latest) (heven : before % 2 = 0) (heq : latest = s.latest) :
    ∃ f, Named s latest f ∧ Agrees got f := by
  subst heq
  obtain ⟨f, hn, hfilled⟩ := h.latest_filled hseen.pos
  exact ⟨f, hn, agrees_of_filled (hreading.there heven (hreading.still rfl)) hfilled⟩

/-- What was read of a slot, with the same even seqlock before and after, is a frame's. -/
private theorem Reading.agrees_whole (hreading : Reading s latest before got) (h : Sound n cap s)
    (heven : before % 2 = 0) (heq : (s.slots (slotOf latest)).seqlock = before) :
    ∃ f, (slotOf latest, f) ∈ s.calls ∧ Agrees got f := by
  -- the seqlock is even, so the slot is at rest
  have hnot : ¬ s.Inside (slotOf latest) := by
    rintro ⟨g, saw, q, todo, hin⟩
    have hwriter := h.writer
    rw [hin] at hwriter
    have := hwriter.2.1
    have := hwriter.2.2.1
    omega
  obtain ⟨-, hzero | ⟨f, hf, hfilled⟩⟩ := h.rest _ hnot
  · have := hreading.pos
    omega
  · exact ⟨f, hf, agrees_of_filled (hreading.there heven heq) hfilled⟩

/-- A frame whose seqlock did not move is accepted. -/
private theorem sound_accept (h : Sound n cap s) (hle : latest ≤ s.latest)
    (hdesc : ∀ d, ∃ v, (Cell.desc d, v) ∈ got)
    (hwhole : ∃ f, (slotOf latest, f) ∈ s.calls ∧ Agrees got f)
    (hstill : latest = s.latest → ∃ f, Named s latest f ∧ Agrees got f) :
    Sound n cap { s with
      readerClaim := 0
      cursor := latest
      reader := .start
      accepted := s.accepted ++ [(latest, got)] } := by
  have kept : Kept s { s with
      readerClaim := 0
      cursor := latest
      reader := .start
      accepted := s.accepted ++ [(latest, got)] } := ⟨rfl, rfl, rfl, rfl, rfl, rfl⟩
  refine ⟨kept.rest h, kept.writerSound h, kept.latestSound h, trivial, hle,
    fun hcursor => .inr (.inl ?_), ?_⟩
  · -- accepted, and the latest still: it is done with
    obtain ⟨f, hn, hagrees⟩ := hstill hcursor
    obtain rfl : latest = s.latest := hcursor
    exact ⟨f, got, hn, List.mem_append_right _ List.mem_cons_self, hagrees⟩
  · intro latest' got' hin
    rcases List.mem_append.mp hin with hin | hin
    · exact h.accepted latest' got' hin
    · obtain ⟨rfl, rfl⟩ := Prod.mk.inj (List.mem_singleton.mp hin)
      obtain ⟨f, hf, hagrees⟩ := hwhole
      refine ⟨f, hf, fun d => ?_, fun k => hagrees _⟩
      obtain ⟨v, hv⟩ := hdesc d
      rw [← hagrees _ _ _ hv (f.value_desc d)]
      exact hv

/-- The helper goes on: it claims, reads the seqlock, a field, the seqlock again, and accepts or
    drops the frame. -/
private theorem sound_next (h : Sound n cap s) : Sound n cap (s.next cap) := by
  have hreader := h.reader
  unfold next
  cases hr : s.reader with
  | start => exact h
  | aimed latest =>
    rw [hr] at hreader
    exact h.move _ hreader
  | claimed latest =>
    rw [hr] at hreader
    -- the seqlock is read, and no cell yet
    refine h.move s.readerClaim ⟨hreader, ⟨hreader.written, Nat.le_refl _, ?_, fun _ => rfl⟩, rfl⟩
    intro _ _ c v hin
    cases hin
  | reading latest before got =>
    rw [hr] at hreader
    obtain ⟨hseen, hreading, hgot⟩ := hreader
    dsimp only
    split
    next d hd =>
      exact h.move s.readerClaim ⟨hseen, hreading.snoc _, nextField_snoc hgot hd _⟩
    next hnone =>
      -- the descriptor is read
      have hdesc := described hgot hnone
      split
      · exact h.move 0 trivial
      next hodd =>
        have heven : before % 2 = 0 := by omega
        split
        · exact h.move s.readerClaim ⟨hseen, hreading, heven, hdesc⟩
        next hbad =>
          -- a bad descriptor: if it is that of the latest frame, the frame has it
          refine h.moveCursor 0 hseen.le fun heq => .inr (.inr (.inl ?_))
          obtain ⟨f, hn, hagrees⟩ := hreading.agrees_latest h hseen heven heq
          rw [fieldOf_eq hdesc hagrees, Bool.not_eq_true] at hbad
          exact ⟨f, heq ▸ hn, hbad⟩
  | converting latest before got =>
    rw [hr] at hreader
    obtain ⟨hseen, hreading, heven, hdesc⟩ := hreader
    exact h.move s.readerClaim ⟨hseen, hdesc, hreading.agrees_whole h heven,
      hreading.agrees_latest h hseen heven⟩
  | checked latest before after got =>
    rw [hr] at hreader
    obtain ⟨hseen, hdesc, hwhole, hstill⟩ := hreader
    dsimp only
    split
    next heq => exact sound_accept h hseen.le hdesc (hwhole heq) hstill
    · exact h.move 0 trivial

/-- A helper that gives up reads again later: its cursor stays behind. -/
private theorem sound_giveUp (h : Sound n cap s) : Sound n cap s.giveUp := by
  unfold giveUp
  split
  · split
    · exact h.move 0 trivial
    · exact h
  · exact h

/-- A pixel is read like a field, at any time of the conversion. -/
private theorem sound_readPixel (h : Sound n cap s) (k : Nat) : Sound n cap (s.readPixel k) := by
  have hreader := h.reader
  unfold readPixel
  split
  next latest before got hr =>
    rw [hr] at hreader
    obtain ⟨hseen, hreading, heven, hdesc⟩ := hreader
    refine h.move s.readerClaim ⟨hseen, hreading.snoc _, heven, fun d => ?_⟩
    obtain ⟨v, hv⟩ := hdesc d
    exact ⟨v, List.mem_append_left _ hv⟩
  · exact h

/-- A conversion that failed is done with. -/
private theorem sound_convertFailed (h : Sound n cap s) : Sound n cap s.convertFailed := by
  have hreader := h.reader
  unfold convertFailed
  split
  next latest before after got hr =>
    rw [hr] at hreader
    have kept : Kept s { s with
        readerClaim := 0
        cursor := latest
        reader := .start
        failed := s.failed ++ [latest] } := ⟨rfl, rfl, rfl, rfl, rfl, rfl⟩
    refine ⟨kept.rest h, kept.writerSound h, kept.latestSound h, trivial, hreader.1.le,
      fun heq => .inr (.inr (.inr ?_)), h.accepted⟩
    obtain rfl : latest = s.latest := heq
    exact List.mem_append_right _ List.mem_cons_self
  · exact h

/-- A new helper starts at the first frame, with the old claim in the header or without. -/
private theorem sound_respawn (h : Sound n cap s) (released : Bool) :
    Sound n cap (s.respawn released) := by
  exact h.moveCursor _ (Nat.zero_le _) fun heq => .inl heq.symm

/-! ## Every order of steps -/

/-- One step of the writer or of the helper. -/
theorem sound_step (hn : 3 ≤ n) (hmax : n ≤ 256) (h : Sound n cap s) (st : RingStep) :
    Sound n cap (s.step n cap st) := by
  cases st with
  | write frame => exact sound_write hn hmax h frame
  | look => exact sound_look h
  | next => exact sound_next h
  | giveUp => exact sound_giveUp h
  | readPixel k => exact sound_readPixel h k
  | convertFailed => exact sound_convertFailed h
  | respawn released => exact sound_respawn h released

/-- A ring that nobody has written to. -/
private theorem sound_new (n cap : Nat) : Sound n cap {} where
  rest k _ := ⟨rfl, .inl rfl⟩
  writer := ⟨rfl, Nat.le_refl 0⟩
  latest := .inl ⟨rfl, rfl⟩
  reader := trivial
  cursor_le := Nat.le_refl 0
  cursor _ := .inl rfl
  accepted latest got hin := by cases hin

/-- Every order of steps. -/
theorem sound_run (hn : 3 ≤ n) (hmax : n ≤ 256) (steps : List RingStep) :
    Sound n cap (run n cap steps) := by
  have hstep : ∀ s st, Sound n cap s → Sound n cap (step n cap s st) :=
    fun s st h => sound_step hn hmax h st
  exact foldl_invariant hstep steps (sound_new n cap)

end RingSystem

/-- The slot that the writer is about to write or writes, and the claim that it saw. -/
def WriterAt.target : WriterAt → Option (Nat × Nat)
  | .chosen _ slot saw => some (slot, saw)
  | .inside _ slot saw _ _ => some (slot, saw)
  | _ => none

namespace RingSystem

/-- The writer keeps off the slot that `latest` names, once it names one, and off the slot that
    it saw claimed. -/
def KeepsOff (s : RingSystem) : Prop :=
  ∀ slot saw, s.writer.target = some (slot, saw) →
    saw ≠ slot + 1 ∧ (s.latest ≠ 0 → slot ≠ slotOf s.latest)

/-- The slot that the writer has chosen is neither the last nor the one that it saw claimed. -/
private theorem Sound.keepsOff {s : RingSystem} (h : Sound n cap s) : s.KeepsOff := by
  have hchoice : ∀ f slot saw, Choice n s f slot saw →
      saw ≠ slot + 1 ∧ (s.latest ≠ 0 → slot ≠ slotOf s.latest) := by
    intro f slot saw hchoice
    refine ⟨hchoice.unclaimed, fun hne => hchoice.ne_latest h.latest ?_⟩
    rcases h.latest with ⟨hzero, -⟩ | ⟨-, -, -, g, hn, -⟩
    · exact absurd hzero hne
    · exact hn.1
  have hwriter := h.writer
  intro slot saw htarget
  cases hw : s.writer with
  | chosen f k q =>
    rw [hw] at hwriter htarget
    obtain ⟨rfl, rfl⟩ := Prod.mk.inj (Option.some.inj htarget)
    exact hchoice f _ _ hwriter
  | inside f k q seqlock todo =>
    rw [hw] at hwriter htarget
    obtain ⟨rfl, rfl⟩ := Prod.mk.inj (Option.some.inj htarget)
    exact hchoice f _ _ hwriter.1
  | idle => rw [hw] at htarget; cases htarget
  | closed k => rw [hw] at htarget; cases htarget

/-- In a ring of 3 to 256 slots, whatever the order of the steps: a frame that was accepted is
    one frame, the writer keeps off the latest slot and the claimed one, and the helper's cursor
    is at the latest frame only when it is done with it. -/
theorem frame_ring_sound (hn : 3 ≤ n) (hmax : n ≤ 256) (steps : List RingStep) :
    (∀ latest got, (latest, got) ∈ (run n cap steps).accepted →
        Whole (run n cap steps) latest got) ∧
      (run n cap steps).KeepsOff ∧
      ((run n cap steps).latest ≠ 0 → (run n cap steps).cursor = (run n cap steps).latest →
        Settled cap (run n cap steps) (run n cap steps).latest) := by
  have h : Sound n cap (run n cap steps) := sound_run hn hmax steps
  exact ⟨h.accepted, h.keepsOff, fun hne heq => (h.cursor heq).resolve_left hne⟩

/-- A frame of 16 by 16, of which one pixel is stored and read. -/
theorem frame_ring_sound_accepted :
    let frame : Frame := ⟨fun d => DescField.casesOn d 16 16 256 4, [(0, 7)]⟩
    let steps := List.replicate 9 (.write frame) ++ .look :: List.replicate 7 .next ++
      [.readPixel 0, .next, .next]
    (run 3 4096 steps).accepted.length = 1 ∧
      (∀ latest got, (latest, got) ∈ (run 3 4096 steps).accepted →
        Whole (run 3 4096 steps) latest got) ∧
      (run 3 4096 steps).KeepsOff ∧
      ((run 3 4096 steps).latest ≠ 0 →
        (run 3 4096 steps).cursor = (run 3 4096 steps).latest →
        Settled 4096 (run 3 4096 steps) (run 3 4096 steps).latest) :=
  ⟨by decide, frame_ring_sound (by decide) (by decide) _⟩

/-! ## A ring of 257 slots -/

/-- Frames without a pixel, one after the other, and nobody reads. -/
private theorem run_writes (k : Nat) :
    ∃ steps, (run 257 0 steps).writer = .idle ∧ (run 257 0 steps).readerClaim = 0 ∧
      (run 257 0 steps).seq = k ∧
      (k ≤ 257 → (run 257 0 steps).lastSlot = if k = 0 then none else some (k - 1)) ∧
      (0 < k → k ≤ 257 → (run 257 0 steps).latest = packLatest k (k - 1)) := by
  -- the induction is on the frames
  induction k with
  | zero => exact ⟨[], rfl, rfl, rfl, fun _ => rfl, fun h => absurd h (Nat.lt_irrefl 0)⟩
  | succ k ih =>
    obtain ⟨steps, hidle, hclaim, hseq, hlast, -⟩ := ih
    -- one call writes the next slot and shows it
    have hcall : ∀ s : RingSystem, s.writer = .idle →
        ((List.replicate 8 (RingStep.write ⟨fun _ => 0, []⟩)).foldl (step 257 0) s).writer =
            .idle ∧
          ((List.replicate 8 (RingStep.write ⟨fun _ => 0, []⟩)).foldl (step 257 0) s).readerClaim =
            s.readerClaim ∧
          ((List.replicate 8 (RingStep.write ⟨fun _ => 0, []⟩)).foldl (step 257 0) s).seq =
            s.seq + 1 ∧
          ((List.replicate 8 (RingStep.write ⟨fun _ => 0, []⟩)).foldl (step 257 0) s).lastSlot =
            some (nextSlot s.lastSlot s.readerClaim 257) ∧
          ((List.replicate 8 (RingStep.write ⟨fun _ => 0, []⟩)).foldl (step 257 0) s).latest =
            packLatest (s.seq + 1) (nextSlot s.lastSlot s.readerClaim 257) := by
      intro s hs
      obtain ⟨slots, latest, claim, seq, lastSlot, writer, cursor, reader, calls, accepted,
        failed⟩ := s
      obtain rfl : writer = .idle := hs
      exact ⟨rfl, rfl, rfl, rfl, rfl⟩
    obtain ⟨hidle', hclaim', hseq', hlast', hlatest'⟩ := hcall _ hidle
    rw [hclaim] at hclaim' hlast' hlatest'
    have hrun : run 257 0 (steps ++ List.replicate 8 (.write ⟨fun _ => 0, []⟩)) =
        (List.replicate 8 (RingStep.write ⟨fun _ => 0, []⟩)).foldl (step 257 0)
          (run 257 0 steps) := List.foldl_append
    -- which is the slot behind the last one
    have hnext : k + 1 ≤ 257 → nextSlot (run 257 0 steps).lastSlot 0 257 = k := by
      intro hk
      rw [hlast (by omega)]
      by_cases hzero : k = 0
      · rw [hzero]
        rfl
      · rw [if_neg hzero]
        show (if 0 = (k - 1 + 1) % 257 + 1 then ((k - 1 + 1) % 257 + 1) % 257
          else (k - 1 + 1) % 257) = k
        rw [if_neg (by omega), Nat.mod_eq_of_lt (by omega)]
        omega
    refine ⟨steps ++ List.replicate 8 (.write ⟨fun _ => 0, []⟩), ?_⟩
    rw [hrun]
    refine ⟨hidle', hclaim', by rw [hseq', hseq], fun hk => ?_, fun _ hk => ?_⟩
    · rw [hlast', hnext hk]
      rfl
    · rw [hlatest', hnext hk, hseq]
      rfl

/-- The 258th frame goes into slot 0, which `latest` names for the 257th: that one is in
    slot 256. -/
theorem frame_ring_counterexample :
    ¬ ∀ n, 3 ≤ n → ∀ cap steps, (run n cap steps).KeepsOff := by
  intro hall
  obtain ⟨steps, hidle, hclaim, hseq, hlast, hlatest⟩ := run_writes 257
  have hoff := hall 257 (by decide) 0 (steps ++ [.write ⟨fun _ => 0, []⟩])
  have hrun : run 257 0 (steps ++ [.write ⟨fun _ => 0, []⟩]) =
      (run 257 0 steps).write 257 ⟨fun _ => 0, []⟩ := List.foldl_append
  rw [hrun] at hoff
  unfold write KeepsOff at hoff
  rw [hidle] at hoff
  dsimp only at hoff
  rw [hclaim, hlast (Nat.le_refl _), hlatest (by decide) (Nat.le_refl _)] at hoff
  exact (hoff 0 0 rfl).2 (by decide) (by decide)

end RingSystem

end QCBridge
