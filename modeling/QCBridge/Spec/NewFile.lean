import QCBridge.Spec.HostStream
import QCBridge.Spec.Resurrection
import QCBridge.Spec.Sites

/-!
# A new file

`reset_for_new_file` starts over with the handles, the shadow, the dirty set and the chunks
of the bootstrap, and `send_bootstrap` empties the queue of the delta repair. The outbox of
blobs and the queue of the re-assert stay as they are: what they hold of the file before is
sent into the new one.

## Key results

- `Ledger.Tells`: what was sent since a moment names only datablocks of a set
- `Host.newFile_names`: where the two queues hold nothing of the file before, nothing sent
  after the reset names a datablock that the new file does not carry
-/

namespace QCBridge

variable {β V δ : Type}

/-! ## What a message names -/

/-- The kinds of message that name a datablock. -/
def Kind.OfDatablock (k : Kind) : Prop := k = .t1 ∨ k = .tomb ∨ k = .t2

instance (k : Kind) : Decidable k.OfDatablock :=
  inferInstanceAs (Decidable (k = .t1 ∨ k = .tomb ∨ k = .t2))

/-- If the message names a datablock, it is one of `K`. -/
def Msg.Names (K : Uuid → Prop) (m : Msg β V δ) : Prop :=
  m.header.kind.OfDatablock → K m.header.uuid

/-- A message that left on either lane names a datablock of `K`, if any. -/
def Sent.Names (K : Uuid → Prop) : Sent β V δ → Prop
  | .cold m | .fast m => m.Names K
  | _ => True

/-! ## What was sent since -/

/-- What the log holds from place `n` on names only datablocks of `K`. -/
structure Told (n : Nat) (K : Uuid → Prop) (log : List (Sent β V δ)) : Prop where
  long : n ≤ log.length
  names : ∀ s ∈ log.drop n, s.Names K

theorem Told.snoc {n : Nat} {K : Uuid → Prop} {log : List (Sent β V δ)} (h : Told n K log)
    {s : Sent β V δ} (hs : s.Names K) : Told n K (log ++ [s]) where
  long := by
    have hlong := h.long
    simp only [List.length_append, List.length_singleton]
    omega
  names x hx := by
    rw [List.drop_append_of_le_length h.long] at hx
    obtain hx | hx := List.mem_append.mp hx
    · exact h.names x hx
    · obtain rfl := List.mem_singleton.mp hx
      exact hs

/-- Nothing of another datablock was sent since, or waits in the outbox of blobs. -/
structure Ledger.Tells (c0 f0 n : Nat) (K : Uuid → Prop) (l : Ledger β V δ) : Prop where
  streams : l.Streams c0 f0
  outbox : ∀ u ∈ l.t2Outbox.keys, K u
  told : Told n K l.log

/-- What a step of the ledger may name. -/
def LedgerAct.Names (K : Uuid → Prop) : LedgerAct β V δ → Prop
  | .t1 u .. | .tomb u | .cutT2 u .. => K u
  | _ => True

namespace Ledger.Tells

variable {c0 f0 n : Nat} {K : Uuid → Prop} {l : Ledger β V δ}

/-- A message of another kind names no datablock. -/
private theorem names_of_kind {m : Msg β V δ} {k : Kind} (hm : m.header.kind = k)
    (hk : k ≠ .t1 ∧ k ≠ .tomb ∧ k ≠ .t2) (seq : Nat) : (m.withSeq seq).Names K := by
  rintro (h | h | h)
  · exact (hk.1 (hm.symm.trans h)).elim
  · exact (hk.2.1 (hm.symm.trans h)).elim
  · exact (hk.2.2 (hm.symm.trans h)).elim

/-- The chunks of the bootstrap, and those of a library, name no datablock. -/
private theorem names_of_id {o : Outgoing β V δ} {sent : List (Msg β V δ)} (ho : o.On sent)
    (hid : o.id.kind ≠ .t2) {m : Msg β V δ} (hm : m ∈ o.chunks) (seq : Nat) :
    (m.withSeq seq).Names K := by
  refine names_of_kind (ho.label hm).1 ?_ seq
  cases hkind : o.id with
  | t2 u s => rw [hkind] at hid; exact (hid rfl).elim
  | boot n s => exact ⟨Kind.noConfusion, Kind.noConfusion, Kind.noConfusion⟩
  | lib n s => exact ⟨Kind.noConfusion, Kind.noConfusion, Kind.noConfusion⟩

private theorem told_sendBoot (h : l.Tells c0 f0 n K) : Told n K l.sendBoot.log := by
  have hnames : ∀ {o : Outgoing β V δ} {m : Msg β V δ}, l.bootOutbox = some o → m ∈ o.chunks →
      ∀ seq, (m.withSeq seq).Names K := by
    intro o m hbox hm seq
    obtain ⟨ho, n, s, hid, -⟩ := h.streams.boot o hbox
    exact names_of_id ho (by rw [hid]; exact Kind.noConfusion) hm seq
  unfold Ledger.sendBoot
  split
  · rename_i id data m hbox
    exact (h.told.snoc (s := .cold _) (hnames hbox (List.mem_cons_self ..) _)).snoc trivial
  · rename_i id data m rest _ hbox
    exact h.told.snoc (s := .cold _) (hnames hbox (List.mem_cons_self ..) _)
  · exact h.told

private theorem told_sendLib (h : l.Tells c0 f0 n K) : Told n K l.sendLib.log := by
  have hnames : ∀ {o : Outgoing β V δ} {m : Msg β V δ}, o ∈ l.libOutbox → m ∈ o.chunks →
      ∀ seq, (m.withSeq seq).Names K := by
    intro o m hbox hm seq
    obtain ⟨ho, n, s, hid, -⟩ := h.streams.lib o hbox
    exact names_of_id ho (by rw [hid]; exact Kind.noConfusion) hm seq
  unfold Ledger.sendLib
  split
  · rename_i id data m others hbox
    have hin := hbox ▸ List.mem_cons_self ..
    exact (h.told.snoc (s := .cold _) (hnames hin (List.mem_cons_self ..) _)).snoc trivial
  · rename_i id data m rest others _ hbox
    have hin := hbox ▸ List.mem_cons_self ..
    exact h.told.snoc (s := .cold _) (hnames hin (List.mem_cons_self ..) _)
  · exact h.told

private theorem told_sendT2 (h : l.Tells c0 f0 n K) (u : Uuid) : Told n K (l.sendT2 u).log := by
  have hnames : ∀ {o : Outgoing β V δ} {m : Msg β V δ}, l.t2Outbox.get? u = some o →
      m ∈ o.chunks → ∀ seq, (m.withSeq seq).Names K := by
    intro o m hbox hm seq _
    obtain ⟨ho, s, hid, -⟩ := h.streams.t2 u o hbox
    show K m.header.uuid
    rw [(ho.label hm).2, hid]
    exact h.outbox u ((Dict.mem_keys_iff ..).mpr ⟨o, hbox⟩)
  unfold Ledger.sendT2
  split
  · rename_i id data m hbox
    exact (h.told.snoc (s := .cold _) (hnames hbox (List.mem_cons_self ..) _)).snoc trivial
  · rename_i id data m rest _ hbox
    exact h.told.snoc (s := .cold _) (hnames hbox (List.mem_cons_self ..) _)
  · exact h.told

private theorem outbox_sendT2 (h : l.Tells c0 f0 n K) (u : Uuid) :
    ∀ v ∈ (l.sendT2 u).t2Outbox.keys, K v := by
  intro v hv
  unfold Ledger.sendT2 at hv
  split at hv
  · rw [show (l.t2Outbox.erase u).keys = _ from Dict.keys_erase ..] at hv
    exact h.outbox v (List.mem_filter.mp hv).1
  · rename_i id data m rest _ hbox
    obtain rfl | hv := Dict.mem_keys_insert (by exact hv)
    · exact h.outbox v ((Dict.mem_keys_iff ..).mpr ⟨_, hbox⟩)
    · exact h.outbox v hv
  · exact h.outbox v hv

/-- A step that names only datablocks of the set keeps it so. -/
theorem step (h : l.Tells c0 f0 n K) {a : LedgerAct β V δ} (hvalid : a.Valid) (ha : a.Names K) :
    (l.step a).Tells c0 f0 n K := by
  have hstreams := h.streams.step hvalid
  -- the end of a lane names no datablock
  have hend : ∀ lane, (Msg.withSeq (β := β) (V := V) (δ := δ)
      { header := { kind := .resyncEnd, lane := lane } } (l.seq + 1)).Names K :=
    fun _ => names_of_kind (by rfl) ⟨Kind.noConfusion, Kind.noConfusion, Kind.noConfusion⟩ _
  cases a with
  -- a cut is on no lane
  | cutBoot data sceneDigest => exact ⟨hstreams, h.outbox, h.told.snoc trivial⟩
  | cutT2 u data digest more =>
    refine ⟨hstreams, fun v hv => ?_, h.told.snoc trivial⟩
    obtain rfl | hv := Dict.mem_keys_insert (by exact hv)
    · exact ha
    · exact h.outbox v hv
  | cutLib lib data => exact ⟨hstreams, h.outbox, h.told.snoc trivial⟩
  -- a chunk of the bootstrap or of a library leaves the outbox of blobs
  | sendBoot =>
    refine ⟨hstreams, ?_, h.told_sendBoot⟩
    show ∀ u ∈ l.sendBoot.t2Outbox.keys, K u
    unfold Ledger.sendBoot
    split <;> exact h.outbox
  | sendT2 u => exact ⟨hstreams, h.outbox_sendT2 u, h.told_sendT2 u⟩
  | sendLib =>
    refine ⟨hstreams, ?_, h.told_sendLib⟩
    show ∀ u ∈ l.sendLib.t2Outbox.keys, K u
    unfold Ledger.sendLib
    split <;> exact h.outbox
  -- what is sent on the cold lane without data names no datablock
  | sendCold kind lib =>
    refine ⟨hstreams, h.outbox, h.told.snoc (s := .cold _) (names_of_kind (by rfl) ?_ _)⟩
    obtain rfl | rfl | rfl := hvalid
    all_goals exact ⟨Kind.noConfusion, Kind.noConfusion, Kind.noConfusion⟩
  | endCold => exact ⟨hstreams, h.outbox, h.told.snoc (s := .cold _) (hend _)⟩
  -- a message or a tombstone names its own datablock
  | t1 u changes targets full sd =>
    exact ⟨hstreams, h.outbox, h.told.snoc (s := .fast _) fun _ => ha⟩
  | tomb u => exact ⟨hstreams, h.outbox, h.told.snoc (s := .fast _) fun _ => ha⟩
  | endFast => exact ⟨hstreams, h.outbox, h.told.snoc (s := .fast _) (hend _)⟩
  | record u data digest => exact ⟨hstreams, h.outbox, h.told.snoc trivial⟩
  | skip u data digest => exact ⟨hstreams, h.outbox, h.told⟩

end Ledger.Tells

/-! ## After the reset -/

/-- The datablocks that some of the worlds have. -/
def NamedIn (worlds : List (World β V)) (u : Uuid) : Prop := ∃ w ∈ worlds, w.Names u

namespace Host

variable {c0 f0 n : Nat} {K : Uuid → Prop} {w : World β V}

/-- What the host says at its sites names only datablocks of the set. -/
private theorem speaks_tells (hK : ∀ u, w.Names u → K u) :
    Speaks (δ := δ) w K fun h => h.ledger.Tells c0 f0 n K where
  names := hK
  whole hh hbox := (hh.streams.boot _ hbox).1.chunks_ne_nil
  same hh hledger _ := hledger ▸ hh
  act {h a} ha hh := by
    apply hh.step ha.valid
    cases a with
    | t1 u changes targets full sd => exact ha.1
    | cutT2 u data digest more => exact ha.1
    | tomb u => exact ha
    | _ => trivial
  ship _ _ _ hh := hh
  boot sceneDigest hh := hh.step (a := .cutBoot w.mainfile sceneDigest) trivial trivial

section Flush

variable [BEq V] [DecidableEq δ] (H : Digests β V δ)

/-- Whatever the host did before, if its outbox of blobs and its re-assert hold only
    datablocks of the new file, and no repair is asked for others, then everything sent
    after the reset names datablocks that the new file carries or that came to be in it. -/
theorem newFile_names (w₀ : World β V) (c0 f0 : Nat) (before : List (World β V × Call β δ))
    (w : World β V) (after : List (World β V × Call β δ))
    (hblobs : ∀ u ∈ ((start w₀ c0 f0).run H before).ledger.t2Outbox.keys, w.Names u)
    (hresend : ∀ e ∈ ((start w₀ c0 f0).run H before).fastResendQueue, w.Names e.1)
    (hasks : ∀ calls c rest, after = calls ++ c :: rest →
      (((start w₀ c0 f0).run H (before ++ [(w, .newFile)])).run H calls).Asks
        (NamedIn (w :: (calls ++ [c]).map Prod.fst)) c.2) :
    ∀ calls rest, after = calls ++ rest →
      ∀ s ∈ (((start w₀ c0 f0).run H (before ++ [(w, .newFile)])).run H calls).ledger.log.drop
          ((start w₀ c0 f0).run H before).ledger.log.length,
        s.Names (NamedIn (w :: calls.map Prod.fst)) := by
  rw [show (start w₀ c0 f0).run H (before ++ [(w, .newFile)]) =
    ((start w₀ c0 f0).run H before).resetForNewFile H w from List.foldl_append] at *
  generalize hstart : (start w₀ c0 f0).run H before = h at *
  have hstreams : h.ledger.Streams c0 f0 := hstart ▸ run_streams H w₀ c0 f0 before
  intro calls rest hafter
  generalize hK : NamedIn (w :: calls.map Prod.fst) = K
  have hin : ∀ w' ∈ w :: calls.map Prod.fst, ∀ u, w'.Names u → K u :=
    fun w' hw' u hu => hK ▸ ⟨w', hw', hu⟩
  have hreset : Spoken K (fun h' => h'.ledger.Tells c0 f0 h.ledger.log.length K) False
      (h.resetForNewFile H w) := by
    have hfile := hin w (List.mem_cons_self ..)
    apply (speaks_tells hfile).resetForNewFile H (fun e he => hfile _ (hresend e he))
    exact ⟨hstreams, fun u hu => hfile u (hblobs u hu), Nat.le_refl _, by simp⟩
  -- each call is made in one of the worlds, and asks for what they have
  have hspeaks : ∀ c ∈ calls, Speaks c.1 K
      fun h' : Host β V δ => h'.ledger.Tells c0 f0 h.ledger.log.length K :=
    fun c hc => speaks_tells (hin c.1 (List.mem_cons_of_mem _ (List.mem_map_of_mem hc)))
  have hrun := Speaks.run H hspeaks (Along.of_split ?_) hreset
  · exact hrun.2.told.names
  · intro done c todo hcalls
    apply (hasks done c (todo ++ rest) (by rw [hafter, hcalls]; simp)).mono
    rintro u ⟨w', hw', hu⟩
    apply hin w' _ u hu
    rw [hcalls]
    simp only [List.map_append, List.map_cons, List.mem_cons, List.mem_append] at hw' ⊢
    tauto

end Flush

end Host

/-! ## A camera of the file before -/

namespace NewFile

open Camera (Digest digests)
open Undo

/-- The camera is edited, and its blob is refused. -/
def blobRefused : List (World (Entry String) String × Host.Call (Entry String) Digest) :=
  boot ++ [(alive "35" 500, .depsgraph [{ uuid := "a", baked := true }]),
    ({ alive "35" 1000 with accepts := fun _ => false }, .tick)]

/-- The camera is deleted, and the replica asks for the tombstone once more. -/
def tombAsked : List (World (Entry String) String × Host.Call (Entry String) Digest) :=
  boot ++ [(gone 250, .tick), (gone 300, .fastWindow 0)]

/-- What is sent when a file without the camera is opened after that. -/
def sent (before : List (World (Entry String) String × Host.Call (Entry String) Digest)) :
    List (Sent (Entry String) String Digest) :=
  ((host (before ++ [(gone 1100, .newFile)])).run digests [(gone 1200, .tick)]).ledger.log.drop
    (host before).ledger.log.length

/-- A message about the camera. -/
def aboutCamera : Sent (Entry String) String Digest → Bool
  | .cold m | .fast m => m.header.kind.OfDatablock ∧ m.header.uuid = "a"
  | _ => false

private theorem not_names_of_aboutCamera {K : Uuid → Prop} (hK : ¬ K "a")
    {s : Sent (Entry String) String Digest} (hs : aboutCamera s = true) : ¬ s.Names K := by
  intro hnames
  cases s with
  | cold m =>
    obtain ⟨hkind, huuid⟩ := of_decide_eq_true hs
    exact hK (huuid ▸ hnames hkind)
  | fast m =>
    obtain ⟨hkind, huuid⟩ := of_decide_eq_true hs
    exact hK (huuid ▸ hnames hkind)
  | _ => cases hs

private theorem not_names_gone (now : Int) : ¬ (gone now).Names "a" := by
  rintro (hkey | ⟨v, db, hget, huser⟩)
  · exact absurd (List.mem_singleton.mp hkey) (by decide)
  · have hmem := (Dict.mem_entries_iff ..).mpr hget
    obtain heq := List.mem_singleton.mp (show (v, db) ∈ [("s", Camera.scene "a")] from hmem)
    obtain ⟨-, rfl⟩ := Prod.mk.inj heq
    cases huser

end NewFile

open NewFile in
/-- The blob, and the tombstone, of a camera that the new file does not have are sent into
    it. -/
theorem newFile_names_counterexample :
    (∃ s ∈ sent blobRefused, ¬ s.Names (NamedIn [Undo.gone 1100, Undo.gone 1200])) ∧
      ∃ s ∈ sent tombAsked, ¬ s.Names (NamedIn [Undo.gone 1100, Undo.gone 1200]) := by
  have hcamera : ¬ NamedIn [Undo.gone 1100, Undo.gone 1200] "a" := by
    rintro ⟨w, hw, hnames⟩
    obtain rfl | hw := List.mem_cons.mp hw
    · exact not_names_gone _ hnames
    · obtain rfl := List.mem_singleton.mp hw
      exact not_names_gone _ hnames
  have hblob : (sent blobRefused).any aboutCamera = true := by decide +kernel
  have htomb : (sent tombAsked).any aboutCamera = true := by decide +kernel
  obtain ⟨s, hs, hsays⟩ := List.any_eq_true.mp hblob
  obtain ⟨s', hs', hsays'⟩ := List.any_eq_true.mp htomb
  exact ⟨⟨s, hs, not_names_of_aboutCamera hcamera hsays⟩, s', hs',
    not_names_of_aboutCamera hcamera hsays'⟩

open Camera (digests) in
open NewFile in
/-- A file that still has the camera may be opened while the camera's blob waits. -/
theorem newFile_names_reopened :
    (Undo.host blobRefused).ledger.log.length <
      ((Undo.host (blobRefused ++ [(Undo.alive "35" 1100, .newFile)])).run digests
        [(Undo.alive "35" 1200, .tick)]).ledger.log.length ∧
    ∀ s ∈ ((Undo.host (blobRefused ++ [(Undo.alive "35" 1100, .newFile)])).run digests
        [(Undo.alive "35" 1200, .tick)]).ledger.log.drop (Undo.host blobRefused).ledger.log.length,
      s.Names (NamedIn [Undo.alive "35" 1100, Undo.alive "35" 1200]) := by
  have hkeys : (Undo.host blobRefused).ledger.t2Outbox.keys = ["a"] := by decide +kernel
  have hqueue : (Undo.host blobRefused).fastResendQueue = [] := by decide +kernel
  refine ⟨by decide +kernel, ?_⟩
  apply Host.newFile_names digests (Undo.alive "50" 0) 0 0 blobRefused (Undo.alive "35" 1100)
    [(Undo.alive "35" 1200, .tick)] _ _ _ [(Undo.alive "35" 1200, .tick)] [] rfl
  · -- the outbox waits with the camera, which is in the file
    intro u hu
    rw [show ((Host.start (Undo.alive "50" 0) 0 0).run digests blobRefused).ledger.t2Outbox.keys =
      ["a"] from hkeys] at hu
    obtain rfl := List.mem_singleton.mp hu
    exact .inl (by decide)
  · -- no re-assert waits
    intro e he
    rw [show ((Host.start (Undo.alive "50" 0) 0 0).run digests blobRefused).fastResendQueue =
      [] from hqueue] at he
    exact (List.not_mem_nil he).elim
  · -- the call is the first of them
    intro calls c rest heq
    cases calls with
    | nil =>
      obtain ⟨rfl, -⟩ := List.cons.inj heq
      trivial
    | cons c' calls => simp at heq

end QCBridge
