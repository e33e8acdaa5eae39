import QCBridge.ForStd.History
import QCBridge.Spec.FastOrder

/-!
# The blobs that show a datablock

A message names the last blob of its own datablock. The blobs in which the datablock
rode along are not asked for, and neither is one that is still queued. When all of them
have left no later than the seq that the message names, they are behind the message for
good: no chunk of theirs leaves any more.

## Key results

- `Ledger.FollowsCarriers`: what each send must meet
- `Ledger.Serial`: the invariant, and one lemma for each kind of step
-/

namespace QCBridge

variable {β V δ : Type}

/-- The blob was last cut from `data`. -/
def LastCut (log : List (Sent β V δ)) (id : BlobId) (data : List β) : Prop :=
  ∃ before after, log = before ++ .cut id data :: after ∧ ∀ d, Sent.cut id d ∉ after

/-- The blob was last cut from `data` before `m` was sent. -/
def CutBefore (log : List (Sent β V δ)) (id : BlobId) (data : List β) (m : Msg β V δ) : Prop :=
  ∃ before between after, log = before ++ .cut id data :: (between ++ .fast m :: after) ∧
    ∀ d, Sent.cut id d ∉ between ++ after

namespace LastCut

variable {log : List (Sent β V δ)} {id : BlobId} {data data' : List β}

theorem here (log : List (Sent β V δ)) (id : BlobId) (data : List β) :
    LastCut (log ++ [.cut id data]) id data := ⟨log, [], rfl, by simp⟩

theorem append (h : LastCut log id data) {more : List (Sent β V δ)}
    (hmore : ∀ d, Sent.cut id d ∉ more) : LastCut (log ++ more) id data := by
  obtain ⟨before, after, rfl, hafter⟩ := h
  refine ⟨before, after ++ more, by simp, fun d hd => ?_⟩
  rcases List.mem_append.mp hd with hd | hd
  · exact hafter d hd
  · exact hmore d hd

/-- There is one last time. -/
theorem unique (h : LastCut log id data) (h' : LastCut log id data') : data = data' := by
  obtain ⟨before, after, rfl, hafter⟩ := h
  obtain ⟨before', after', heq, hafter'⟩ := h'
  rcases List.append_eq_append_iff.mp heq with ⟨mid, rfl, hmid⟩ | ⟨mid, rfl, hmid⟩
  · cases mid with
    | nil =>
      simp only [List.nil_append, List.cons.injEq, Sent.cut.injEq, true_and] at hmid
      exact hmid.1
    | cons x mid =>
      rw [List.cons_append, List.cons.injEq] at hmid
      exact absurd (hmid.2 ▸ by simp) (hafter data')
  · cases mid with
    | nil =>
      simp only [List.nil_append, List.cons.injEq, Sent.cut.injEq, true_and] at hmid
      exact hmid.1.symm
    | cons x mid =>
      rw [List.cons_append, List.cons.injEq] at hmid
      exact absurd (hmid.2 ▸ by simp) (hafter' data)

end LastCut

namespace CutBefore

variable {log : List (Sent β V δ)} {id : BlobId} {data : List β} {m : Msg β V δ}

/-- What the last entry of the log has to do with it. -/
theorem of_snoc {x : Sent β V δ} (h : CutBefore (log ++ [x]) id data m) :
    (CutBefore log id data m ∧ ∀ d, x ≠ .cut id d) ∨ x = .fast m ∧ LastCut log id data := by
  obtain ⟨before, between, after, hlog, hnone⟩ := h
  rcases List.eq_nil_or_concat after with rfl | ⟨after', last, rfl⟩
  · right
    rw [← List.cons_append, ← List.append_assoc] at hlog
    obtain ⟨rfl, hx⟩ := List.append_inj' hlog rfl
    exact ⟨by simpa using hx, before, between, rfl, by simpa using hnone⟩
  · left
    rw [List.concat_eq_append] at hlog hnone
    have hlog' : log ++ [x] =
        (before ++ .cut id data :: (between ++ .fast m :: after')) ++ [last] := by
      rw [hlog]
      simp
    obtain ⟨rfl, hx⟩ := List.append_inj' hlog' rfl
    obtain rfl : x = last := by simpa using hx
    refine ⟨⟨before, between, after', rfl, fun d hd => hnone d ?_⟩, fun d hd => hnone d ?_⟩
    · rcases List.mem_append.mp hd with hd | hd <;> simp [hd]
    · simp [hd]

/-- Entries that are no fast message. -/
theorem of_append {more : List (Sent β V δ)} (h : CutBefore (log ++ more) id data m)
    (hmore : ∀ x ∈ more, ∀ m, x ≠ .fast m) : CutBefore log id data m := by
  induction more using List.reverseRecOn with
  | nil => simpa using h
  | append_singleton more x ih =>
    rw [← List.append_assoc] at h
    rcases h.of_snoc with ⟨h, -⟩ | ⟨hx, -⟩
    · exact ih h fun y hy => hmore y (by simp [hy])
    · exact absurd hx (hmore x (by simp) m)

end CutBefore

/-- The tier-2 blob shows the datablock, as its primary or along with it. -/
def carriedBy (u : Uuid) (id : BlobId) (data : List (Entry V)) : Bool :=
  match id with
  | .t2 v _ => v = u || u ∈ Scene.carried data
  | _ => false

private theorem kind_of_carriedBy {u : Uuid} {id : BlobId} {data : List (Entry V)}
    (h : carriedBy u id data = true) : id.kind = .t2 := by
  cases id <;> simp_all [carriedBy, BlobId.kind]

namespace Ledger

/-- The blobs that have left whole, and what they were cut from. -/
def leftBlobs (l : Ledger β V δ) : List (BlobId × List β) :=
  l.log.filterMap fun
    | .left id data => some (id, data)
    | _ => none

/-- Every tier-2 blob cut so far that shows the datablock has left, no later than the
    cold seq `a`. -/
def Behind (l : Ledger (Entry V) V δ) (u : Uuid) (a : Nat) : Prop :=
  (∀ q ∈ l.t2Outbox.entries, carriedBy u q.2.id q.2.data = false) ∧
    ∀ c ∈ l.coldLane, c.isLastChunk = true → ∀ b ∈ l.leftBlobs, c.blobId = some b.1 →
      carriedBy u b.1 b.2 = true → c.header.seq.getD 0 ≤ a

/-- A message of a datablock follows every tier-2 blob that shows the datablock. -/
def FollowsCarriers (l : Ledger (Entry V) V δ) : LedgerAct (Entry V) V δ → Prop
  | .t1 u _ targets _ _ => l.Behind u (l.afterAll u targets)
  | .tomb u => l.Behind u (l.afterFor u)
  | _ => True

instance (l : Ledger (Entry V) V δ) (u : Uuid) (a : Nat) : Decidable (l.Behind u a) := by
  unfold Behind
  infer_instance

instance (l : Ledger (Entry V) V δ) (a : LedgerAct (Entry V) V δ) :
    Decidable (l.FollowsCarriers a) := by
  unfold FollowsCarriers
  split <;> infer_instance

/-- A chunk that ends a tier-2 blob ends one that the host cut. -/
def EndsBlob (log : List (Sent β V δ)) (sent : List (Msg β V δ)) (c : Msg β V δ) : Prop :=
  c.header.kind = .t2 → c.isLastChunk = true → ∃ (b : Blob β δ) (mine : List (Msg β V δ)),
    IsChunk c b mine.length ∧ Progress sent b mine ∧ mine.length + 1 = b.count ∧
      Sent.left b.id b.bytes ∈ log

/-- What the host knows of its blobs: what was queued was cut last, and a blob that
    shows `u` and was cut before a message of `u` is behind that message. -/
structure Serial (u : Uuid) (l : Ledger (Entry V) V δ) : Prop where
  ends : History (EndsBlob l.log) l.coldLane
  queued : ∀ v o, l.t2Outbox.get? v = some o → LastCut l.log o.id o.data
  behind : ∀ id data m, CutBefore l.log id data m → m.names u = true →
    carriedBy u id data = true → (∀ v o, l.t2Outbox.get? v = some o → o.id ≠ id) ∧
      ∀ c ∈ l.coldLane, c.isLastChunk = true → c.blobId = some id → Sent.left id data ∈ l.log →
        c.header.seq.getD 0 ≤ m.header.after

namespace Serial

variable {c0 f0 : Nat} {u : Uuid} {l l' : Ledger (Entry V) V δ}

theorem start (u : Uuid) (c0 f0 : Nat) : (Ledger.start c0 f0 : Ledger (Entry V) V δ).Serial u where
  ends := History.nil
  queued v o ho := by simp [Ledger.start] at ho
  behind id data m h := by
    obtain ⟨before, between, after, hlog, -⟩ := h
    simp [Ledger.start] at hlog

/-- The log grows and the cold lane does not. -/
private theorem ends_of_log (h : l.Serial u) {more : List (Sent (Entry V) V δ)}
    (hlog : l'.log = l.log ++ more) (hcold : l'.coldLane = l.coldLane) :
    History (EndsBlob l'.log) l'.coldLane := by
  rw [hcold, hlog]
  intro before c after hsplit hk hlast
  obtain ⟨b, mine, hchunk, hprog, hend, hleft⟩ := h.ends before c after hsplit hk hlast
  exact ⟨b, mine, hchunk, hprog, hend, List.mem_append_left _ hleft⟩

/-- Nothing is cut and nothing leaves. -/
theorem quiet (h : l.Serial u) {more : List (Sent (Entry V) V δ)} (hlog : l'.log = l.log ++ more)
    (hmore : ∀ x ∈ more, ∃ uuid data, x = .recorded uuid data)
    (hout : l'.t2Outbox = l.t2Outbox) : l'.Serial u := by
  have hnot : ∀ x ∈ more, (∀ m, x ≠ .fast m) ∧ (∀ m, x ≠ .cold m) ∧ (∀ id d, x ≠ .cut id d) ∧
      ∀ id d, x ≠ .left id d := by
    intro x hx
    obtain ⟨uuid, data, rfl⟩ := hmore x hx
    simp
  have hcold : l'.coldLane = l.coldLane := by
    rw [coldLane, hlog, List.filterMap_append]
    refine (congrArg (l.coldLane ++ ·) ?_).trans (List.append_nil _)
    refine List.filterMap_eq_nil_iff.mpr fun x hx => ?_
    obtain ⟨uuid, data, rfl⟩ := hmore x hx
    rfl
  refine ⟨h.ends_of_log hlog hcold, ?_, ?_⟩
  · rw [hout, hlog]
    exact fun v o ho => (h.queued v o ho).append fun d hd => (hnot _ hd).2.2.1 _ _ rfl
  · intro id data m hcut hm hu
    rw [hlog] at hcut
    obtain ⟨hqueued, hsent⟩ := h.behind id data m (hcut.of_append fun x hx => (hnot x hx).1) hm hu
    rw [hout, hcold, hlog]
    refine ⟨hqueued, fun c hc hlast hid hleft => hsent c hc hlast hid ?_⟩
    exact (List.mem_append.mp hleft).resolve_right fun hx => (hnot _ hx).2.2.2 _ _ rfl

/-- A blob is cut. What is queued besides it was queued before, under another id. -/
theorem cut (h : l.Serial u) {id : BlobId} {data : List (Entry V)}
    (hlog : l'.log = l.log ++ [.cut id data])
    (hout : ∀ v o, l'.t2Outbox.get? v = some o →
      (o.id = id ∧ o.data = data) ∨ o.id ≠ id ∧ l.t2Outbox.get? v = some o) : l'.Serial u := by
  have hcold : l'.coldLane = l.coldLane := by simp [coldLane, hlog]
  refine ⟨h.ends_of_log hlog hcold, fun v o ho => ?_, ?_⟩
  · rcases hout v o ho with ⟨rfl, rfl⟩ | ⟨hne, ho⟩
    · exact hlog ▸ .here l.log o.id o.data
    · rw [hlog]
      exact (h.queued v o ho).append fun d hd =>
        hne (Sent.cut.inj (List.mem_singleton.mp hd)).1
  · intro id' data' m hcut hm hu
    rw [hlog] at hcut
    rcases hcut.of_snoc with ⟨hcut, hne⟩ | ⟨hx, -⟩
    · obtain ⟨hqueued, hsent⟩ := h.behind id' data' m hcut hm hu
      rw [hcold, hlog]
      refine ⟨fun v o ho heq => ?_, fun c hc hlast hid hleft => hsent c hc hlast hid ?_⟩
      · rcases hout v o ho with ⟨hid, -⟩ | ⟨-, ho⟩
        · exact hne data (by rw [← heq, hid])
        · exact hqueued v o ho heq
      · simpa using hleft
    · cases hx

/-- A cold message leaves, a chunk of something queued or no chunk of a tier-2 blob. -/
theorem cold (h : l.Serial u) {c : Msg (Entry V) V δ} {ended : List (Sent (Entry V) V δ)}
    (hlog : l'.log = l.log ++ (.cold c :: ended))
    (hended : ∀ x ∈ ended, ∃ id data, x = .left id data ∧ c.blobId = some id)
    (hid : ∀ id, c.blobId = some id → id.kind = .t2 →
      ∃ v o, l.t2Outbox.get? v = some o ∧ o.id = id)
    (hend : EndsBlob l'.log l.coldLane c)
    (hout : ∀ v o, l'.t2Outbox.get? v = some o →
      ∃ o', l.t2Outbox.get? v = some o' ∧ o'.id = o.id ∧ o'.data = o.data) : l'.Serial u := by
  have hcold : l'.coldLane = l.coldLane ++ [c] := by
    rw [coldLane, hlog, List.filterMap_append, List.filterMap_cons]
    refine congrArg (l.coldLane ++ c :: ·) (List.filterMap_eq_nil_iff.mpr fun x hx => ?_)
    obtain ⟨id, data, rfl, -⟩ := hended x hx
    rfl
  have hcuts : ∀ id d, Sent.cut id d ∉ Sent.cold c :: ended := by
    intro id d hd
    rcases List.mem_cons.mp hd with hd | hd
    · cases hd
    · obtain ⟨id', data', hx, -⟩ := hended _ hd
      cases hx
  have hfasts : ∀ x ∈ Sent.cold c :: ended, ∀ m, x ≠ Sent.fast m := by
    rintro x hx m rfl
    rcases List.mem_cons.mp hx with hx | hx
    · cases hx
    · obtain ⟨id', data', hx, -⟩ := hended _ hx
      cases hx
  refine ⟨?_, fun v o ho => ?_, ?_⟩
  · rw [hcold]
    refine History.snoc ?_ hend
    intro before c' after hsplit hk hlast
    obtain ⟨b, mine, hchunk, hprog, hcount, hleft⟩ := h.ends before c' after hsplit hk hlast
    exact ⟨b, mine, hchunk, hprog, hcount, by rw [hlog]; exact List.mem_append_left _ hleft⟩
  · obtain ⟨o', ho', hoid, hodata⟩ := hout v o ho
    rw [hlog, ← hoid, ← hodata]
    exact (h.queued v o' ho').append (hcuts _)
  · intro id data m hcut hm hu
    rw [hlog] at hcut
    obtain ⟨hqueued, hsent⟩ := h.behind id data m (hcut.of_append hfasts) hm hu
    -- a blob behind the message is queued no more, so this is no chunk of it
    have hne : c.blobId ≠ some id := by
      intro hcid
      obtain ⟨v, o, ho, hoid⟩ := hid id hcid (kind_of_carriedBy hu)
      exact hqueued v o ho hoid
    refine ⟨fun v o ho heq => ?_, fun c' hc' hlast hcid hleft => ?_⟩
    · obtain ⟨o', ho', hoid, -⟩ := hout v o ho
      exact hqueued v o' ho' (hoid.trans heq)
    · rw [hcold, List.mem_append, List.mem_singleton] at hc'
      rcases hc' with hc' | rfl
      · refine hsent c' hc' hlast hcid ?_
        rw [hlog] at hleft
        rcases List.mem_append.mp hleft with hleft | hleft
        · exact hleft
        · rcases List.mem_cons.mp hleft with hleft | hleft
          · cases hleft
          · obtain ⟨id', data', hx, hcid'⟩ := hended _ hleft
            cases hx
            exact absurd hcid' hne
      · exact absurd hcid hne

/-- A fast message leaves. If it names the datablock, all that shows it is behind. -/
theorem fast (h : l.Serial u) {m : Msg (Entry V) V δ} (hlog : l'.log = l.log ++ [.fast m])
    (hout : l'.t2Outbox = l.t2Outbox) (hm : m.names u = true → l.Behind u m.header.after) :
    l'.Serial u := by
  have hcold : l'.coldLane = l.coldLane := by simp [coldLane, hlog]
  refine ⟨h.ends_of_log hlog hcold, ?_, ?_⟩
  · rw [hout, hlog]
    exact fun v o ho => (h.queued v o ho).append (by simp)
  · intro id data m' hcut hnames hu
    rw [hlog] at hcut
    rw [hout, hcold, hlog]
    rcases hcut.of_snoc with ⟨hold, -⟩ | ⟨hx, hnew⟩
    · obtain ⟨hqueued, hsent⟩ := h.behind id data m' hold hnames hu
      exact ⟨hqueued, fun c hc hlast hid hleft => hsent c hc hlast hid (by simpa using hleft)⟩
    · obtain rfl : m = m' := by simpa using hx
      obtain ⟨hqueued, hsent⟩ := hm hnames
      refine ⟨fun v o ho heq => ?_, fun c hc hlast hid hleft => ?_⟩
      · have hdata := (heq ▸ h.queued v o ho).unique hnew
        have hnot := hqueued (v, o) ((Dict.mem_entries_iff ..).mpr ho)
        rw [heq, hdata, hu] at hnot
        cases hnot
      · refine hsent c hc hlast (id, data) ?_ hid hu
        exact List.mem_filterMap.mpr ⟨_, by simpa using hleft, rfl⟩

/-- The next chunk of something queued leaves. -/
theorem chunk (h : l.Serial u) {o : Outgoing (Entry V) V δ} (hon : o.On l.coldLane)
    {m : Msg (Entry V) V δ} {rest : List (Msg (Entry V) V δ)} (hchunks : o.chunks = m :: rest)
    (hlog : l'.log = l.log ++ (.cold (m.withSeq (l.seq + 1)) ::
      if rest = [] then [.left o.id o.data] else []))
    (hid : o.id.kind = .t2 → ∃ v, l.t2Outbox.get? v = some o)
    (hout : ∀ v o, l'.t2Outbox.get? v = some o →
      ∃ o', l.t2Outbox.get? v = some o' ∧ o'.id = o.id ∧ o'.data = o.data) : l'.Serial u := by
  obtain ⟨b, m', mine, rest', hbid, hbdata, hchunks', hprog, hchunk, -, hlast, -⟩ :=
    hon.next (l.seq + 1)
  rw [hchunks, List.cons.injEq] at hchunks'
  obtain ⟨rfl, rfl⟩ := hchunks'
  have hmid : (m.withSeq (l.seq + 1)).blobId = some o.id := by rw [hchunk.blobId_eq, hbid]
  refine h.cold hlog (fun x hx => ?_) (fun id hcid hkind => ?_) (fun hkind hend => ?_) hout
  · split at hx
    · exact ⟨o.id, o.data, List.mem_singleton.mp hx, hmid⟩
    · cases hx
  · obtain rfl : o.id = id := Option.some.inj (hmid.symm.trans hcid)
    obtain ⟨v, hv⟩ := hid hkind
    exact ⟨v, o, hv, rfl⟩
  · have hnotlib : b.id.kind ≠ .libfile := by rw [← hchunk.kind_eq, hkind]; decide
    rw [hchunk.isLastChunk_eq hnotlib, decide_eq_true_eq] at hend
    refine ⟨b, mine, hchunk, hprog, hend, ?_⟩
    rw [hlog, if_pos (hlast.mpr hend), ← hbid, ← hbdata]
    simp

/-- A message that is no chunk leaves on the cold lane. -/
theorem noChunk (h : l.Serial u) {c : Msg (Entry V) V δ} (hblob : c.header.blob = none)
    (hlog : l'.log = l.log ++ [.cold c]) (hout : l'.t2Outbox = l.t2Outbox) : l'.Serial u := by
  have hended : ∀ x ∈ ([] : List (Sent (Entry V) V δ)),
      ∃ id data, x = .left id data ∧ c.blobId = some id := by simp
  refine h.cold hlog hended (fun id hid => ?_) (fun _ hlast => ?_)
    fun v o ho => ⟨o, hout ▸ ho, rfl, rfl⟩
  · simp [Msg.blobId, hblob] at hid
  · simp [Msg.isLastChunk, hblob] at hlast

/-- Every step of the sending half. -/
theorem step (h : l.Serial u) (hs : l.Streams c0 f0) {a : LedgerAct (Entry V) V δ}
    (ha : l.FollowsCarriers a) : (l.step a).Serial u := by
  have hsame : ∀ v o, l.t2Outbox.get? v = some o →
      ∃ o', l.t2Outbox.get? v = some o' ∧ o'.id = o.id ∧ o'.data = o.data :=
    fun v o ho => ⟨o, ho, rfl, rfl⟩
  cases a with
  -- a cut of another blob leaves those of the outbox
  | cutBoot data sceneDigest =>
    refine h.cut rfl fun v o ho => .inr ⟨fun heq => ?_, ho⟩
    obtain ⟨-, s, hid, -⟩ := hs.t2 v o ho
    rw [hid] at heq
    cases heq
  -- the new blob takes the place of the datablock's old one
  | cutT2 uuid data digest more =>
    refine h.cut rfl fun v o ho => ?_
    simp only [Ledger.step, Dict.get?_insert] at ho
    split at ho
    · obtain rfl := Option.some.inj ho
      exact .inl ⟨rfl, rfl⟩
    · rename_i hne
      refine .inr ⟨fun heq => ?_, ho⟩
      obtain ⟨-, s, hid, -⟩ := hs.t2 v o ho
      rw [hid, BlobId.t2.injEq] at heq
      exact hne heq.1.symm
  | cutLib lib data =>
    refine h.cut rfl fun v o ho => .inr ⟨fun heq => ?_, ho⟩
    obtain ⟨-, s, hid, -⟩ := hs.t2 v o ho
    rw [hid] at heq
    cases heq
  -- a chunk of the bootstrap, if one is queued
  | sendBoot =>
    cases hbox : l.bootOutbox with
    | none =>
      simp only [Ledger.step, sendBoot, hbox]
      exact h
    | some o =>
      obtain ⟨hon, n, s, hid, -⟩ := hs.boot o hbox
      obtain ⟨id, data, chunks⟩ := o
      obtain rfl : id = .boot n s := hid
      cases hchunks : chunks with
      | nil => exact absurd hchunks hon.chunks_ne_nil
      | cons m rest =>
        subst hchunks
        refine h.chunk hon rfl ?_ (fun hk => by cases hk) ?_
        · cases rest <;> simp [Ledger.step, sendBoot, hbox, pushCold, finish]
        · cases rest <;> simpa [Ledger.step, sendBoot, hbox, pushCold, finish] using hsame
  -- a chunk of the datablock's blob, if one is queued
  | sendT2 uuid =>
    cases hbox : l.t2Outbox.get? uuid with
    | none =>
      simp only [Ledger.step, sendT2, hbox]
      exact h
    | some o =>
      obtain ⟨hon, s, hid, -⟩ := hs.t2 uuid o hbox
      obtain ⟨id, data, chunks⟩ := o
      obtain rfl : id = .t2 uuid s := hid
      cases hchunks : chunks with
      | nil => exact absurd hchunks hon.chunks_ne_nil
      | cons m rest =>
        subst hchunks
        refine h.chunk hon rfl ?_ (fun _ => ⟨uuid, hbox⟩) fun v o ho => ?_
        · cases rest <;> simp [Ledger.step, sendT2, hbox, pushCold, finish]
        · cases rest with
          | nil =>
            simp only [Ledger.step, sendT2, hbox, Dict.get?_erase] at ho
            split at ho
            · cases ho
            · exact hsame v o ho
          | cons m' rest =>
            simp only [Ledger.step, sendT2, hbox, Dict.get?_insert] at ho
            split at ho
            · rename_i hv
              obtain rfl := Option.some.inj ho
              exact ⟨⟨.t2 uuid s, data, m :: m' :: rest⟩, hv ▸ hbox, rfl, rfl⟩
            · exact hsame v o ho
  -- a chunk of a library, if one is queued
  | sendLib =>
    cases hbox : l.libOutbox with
    | nil =>
      simp only [Ledger.step, sendLib, hbox]
      exact h
    | cons o others =>
      obtain ⟨hon, n, s, hid, -⟩ := hs.lib o (by simp [hbox])
      obtain ⟨id, data, chunks⟩ := o
      obtain rfl : id = .lib n s := hid
      cases hchunks : chunks with
      | nil => exact absurd hchunks hon.chunks_ne_nil
      | cons m rest =>
        subst hchunks
        refine h.chunk hon rfl ?_ (fun hk => by cases hk) ?_
        · cases rest <;> simp [Ledger.step, sendLib, hbox, pushCold, finish]
        · cases rest <;> simpa [Ledger.step, sendLib, hbox, pushCold, finish] using hsame
  -- a request and an end have no chunk
  | sendCold kind lib => exact h.noChunk rfl rfl rfl
  | endCold => exact h.noChunk rfl rfl rfl
  -- a fast message of the datablock comes after its carriers
  | t1 uuid changes targets full sd =>
    refine h.fast rfl rfl fun hm => ?_
    obtain rfl : uuid = u := Msg.uuid_of_names hm
    exact ha
  | tomb uuid =>
    refine h.fast rfl rfl fun hm => ?_
    obtain rfl : uuid = u := Msg.uuid_of_names hm
    exact ha
  | endFast => exact h.fast rfl rfl fun hm => by simp [Msg.names] at hm
  | record uuid data digest => exact h.quiet rfl (by simp) rfl
  | skip uuid data digest => exact h

/-- Every run of the sending half in which the messages follow their carriers. -/
theorem run (u : Uuid) (c0 f0 : Nat) {acts : List (LedgerAct (Entry V) V δ)}
    (hvalid : ∀ a ∈ acts, a.Valid)
    (h : Along Ledger.step FollowsCarriers (Ledger.start c0 f0 : Ledger (Entry V) V δ) acts) :
    ((Ledger.start c0 f0).run acts).Serial u := by
  suffices hgen : ∀ l : Ledger (Entry V) V δ, l.Streams c0 f0 → l.Serial u →
      Along Ledger.step FollowsCarriers l acts → (l.run acts).Serial u from
    hgen _ (.start c0 f0) (.start u c0 f0) h
  clear h
  induction acts with
  | nil => exact fun l _ hl _ => hl
  | cons a acts ih =>
    intro l hs hl hal
    exact ih (fun a' ha' => hvalid a' (by simp [ha'])) _ (hs.step (hvalid a (by simp)))
      (hl.step hs hal.1) hal.2

end Serial

end Ledger

end QCBridge
