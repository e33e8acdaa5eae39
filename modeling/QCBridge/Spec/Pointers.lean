import QCBridge.ForStd.History
import QCBridge.Spec.FastOrder
import QCBridge.Spec.Sites

/-!
# Names of datablocks

Some changes name another datablock: a camera, a world, the members of a collection. The
replica looks the name up when it applies the change, so the datablock must be there by
then: in the file of the last bootstrap, or in a blob that left since, and with nothing of it
still on its way. `_send_t1` takes care of the setters in its table, and of the blobs that are the
named datablock's own. A blob of another datablock may carry it along, of which nothing is noted.

## Key results

- `Finds`: a message finds a datablock on the replica
- `Ledger.Placed`: what the log says of the blobs, and what the outboxes say
- `Host.names_follow`: a tier-1 message follows what carries the datablocks it names
- `Host.names_follow_counterexample`: `@master_members` is not in the table
-/

namespace QCBridge

variable {β V δ : Type}

/-! ## What the log says -/

/-- The bootstrap cut last, after one more entry. -/
def Sent.boots (last : Option (BlobId × List β)) : Sent β V δ → Option (BlobId × List β)
  | .cut (.boot n s) data => some (.boot n s, data)
  | _ => last

/-- The bootstrap that was cut last, and what it was cut from. -/
def lastBoot (log : List (Sent β V δ)) : Option (BlobId × List β) := log.foldl Sent.boots none

/-- A bootstrap that was cut is the last one from then on. -/
@[simp] theorem lastBoot_snoc (log : List (Sent β V δ)) (s : Sent β V δ) :
    lastBoot (log ++ [s]) = s.boots (lastBoot log) := by
  unfold lastBoot
  rw [List.foldl_append]
  rfl

/-- The entries since the last bootstrap was cut, after one more. -/
def Sent.joins (since : List (Sent β V δ)) : Sent β V δ → List (Sent β V δ)
  | .cut (.boot _ _) _ => []
  | s => since ++ [s]

/-- What was done since the last bootstrap was cut. -/
def sinceBoot (log : List (Sent β V δ)) : List (Sent β V δ) := log.foldl Sent.joins []

/-- What is sent joins what was sent since the bootstrap. -/
@[simp] theorem sinceBoot_snoc (log : List (Sent β V δ)) (s : Sent β V δ) :
    sinceBoot (log ++ [s]) = s.joins (sinceBoot log) := by
  unfold sinceBoot
  rw [List.foldl_append]
  rfl

/-- The newest blob of a datablock, after one more entry. -/
def Sent.cuts (t : Uuid) (last : Option BlobId) : Sent β V δ → Option BlobId
  | .cut (.t2 u s) _ => if u = t then some (.t2 u s) else last
  | _ => last

/-- The newest blob of a datablock. -/
def newestBlob (t : Uuid) (log : List (Sent β V δ)) : Option BlobId := log.foldl (Sent.cuts t) none

/-- A blob that was cut is its datablock's newest. -/
@[simp] theorem newestBlob_snoc (t : Uuid) (log : List (Sent β V δ)) (s : Sent β V δ) :
    newestBlob t (log ++ [s]) = s.cuts t (newestBlob t log) := by
  unfold newestBlob
  rw [List.foldl_append]
  rfl

/-- The newest blob of a datablock is one of its own. -/
private theorem newestBlob_own {t : Uuid} {log : List (Sent β V δ)} {id : BlobId}
    (h : newestBlob t log = some id) : ∃ k, id = .t2 t k := by
  induction log using List.reverseRecOn with
  | nil => cases h
  | append_singleton log s ih =>
    rw [newestBlob_snoc] at h
    unfold Sent.cuts at h
    split at h
    · split at h
      · rename_i hu
        subst hu
        exact ⟨_, (Option.some.inj h).symm⟩
      · exact ih h
    · exact ih h

section Carrier

variable (holds : List β → Uuid → Prop) [∀ data, DecidablePred (holds data)]

/-- The newest blob that carries a datablock, after one more entry: the datablock's own, and
    another's that carries it along. -/
def Sent.carries (t : Uuid) (last : Option BlobId) : Sent β V δ → Option BlobId
  | .cut (.t2 u s) data => if u = t ∨ holds data t then some (.t2 u s) else last
  | _ => last

/-- The newest blob that carries a datablock: `holds` says what a file carries. -/
def newestCarrier (t : Uuid) (log : List (Sent β V δ)) : Option BlobId :=
  log.foldl (Sent.carries holds t) none

/-- No blob of another datablock carries it along since its own newest blob. -/
def CarriedAlone (t : Uuid) (log : List (Sent β V δ)) : Prop :=
  newestCarrier holds t log = newestBlob t log

end Carrier

/-- A blob of the datablock has left since the last bootstrap was cut. -/
def LeftSince (t : Uuid) (log : List (Sent β V δ)) : Prop :=
  ∃ s data, .left (.t2 t s) data ∈ sinceBoot log

/-- The last bootstrap carries the datablock: `holds` says what a file carries. -/
def FromBoot (holds : List β → Uuid → Prop) (t : Uuid) (log : List (Sent β V δ)) : Prop :=
  ∃ id data, lastBoot log = some (id, data) ∧ holds data t

/-- The cold messages of the log that `p` picks have seqs up to `a`. -/
def ColdUpTo (a : Nat) (p : Msg β V δ → Prop) (log : List (Sent β V δ)) : Prop :=
  ∀ m, .cold m ∈ log → p m → ∃ s, m.header.seq = some s ∧ s ≤ a

/-- A message that follows the cold seq `a` finds the datablock on the replica: the last
    bootstrap carries it and has left by then, or the newest blob that carries it is its own, and
    has left, since the last bootstrap was cut and by then. -/
def Finds (holds : List β → Uuid → Prop) [∀ data, DecidablePred (holds data)]
    (log : List (Sent β V δ)) (a : Nat) (t : Uuid) : Prop :=
  (∃ id data, lastBoot log = some (id, data) ∧ holds data t ∧ .left id data ∈ log ∧
    ColdUpTo a (fun m => m.header.kind = .boot) log) ∨
  ∃ k data, newestCarrier holds t log = some (.t2 t k) ∧ .left (.t2 t k) data ∈ sinceBoot log ∧
    ColdUpTo a (fun m => m.header.kind = .t2 ∧ m.header.uuid = t) log

/-! ## The log and the outboxes -/

/-- What waits in the outboxes is what was cut last, and where nothing waits, what was cut
    last has left. -/
structure Ledger.Placed (l : Ledger β V δ) : Prop where
  boot : ∀ o, l.bootOutbox = some o → lastBoot l.log = some (o.id, o.data)
  bootLeft : l.bootOutbox = none → ∀ id data, lastBoot l.log = some (id, data) →
    .left id data ∈ l.log
  bootSeq : l.bootOutbox = none → ColdUpTo l.bootLastSeq (fun m => m.header.kind = .boot) l.log
  blob : ∀ t o, l.t2Outbox.get? t = some o → newestBlob t l.log = some o.id
  blobLeft : ∀ t, l.t2Outbox.get? t = none → LeftSince t l.log →
    ∃ id data, newestBlob t l.log = some id ∧ .left id data ∈ sinceBoot l.log
  blobSeq : ∀ t, ColdUpTo (max (l.uuidColdSeq.getD t 0) l.bootLastSeq)
    (fun m => m.header.kind = .t2 ∧ m.header.uuid = t) l.log

/-- Entries that are not about a bootstrap or the blob of a datablock. -/
def Sent.Aside : Sent β V δ → Prop
  | .cold m => m.header.kind ≠ .boot ∧ m.header.kind ≠ .t2
  | .cut id _ | .left id _ => id.kind = .libfile
  | _ => True

/-! ## One entry more -/

section Snoc

variable {log : List (Sent β V δ)} {s : Sent β V δ} {t : Uuid}

/-- Anything else leaves the last bootstrap. -/
private theorem lastBoot_snoc_of_ne (hs : ∀ n k data, s ≠ .cut (.boot n k) data) :
    lastBoot (log ++ [s]) = lastBoot log := by
  rw [lastBoot_snoc]
  unfold Sent.boots
  split
  · exact (hs _ _ _ rfl).elim
  · rfl

/-- And the newest blob of the datablock. -/
private theorem newestBlob_snoc_of_ne (hs : ∀ k data, s ≠ .cut (.t2 t k) data) :
    newestBlob t (log ++ [s]) = newestBlob t log := by
  rw [newestBlob_snoc]
  unfold Sent.cuts
  split
  · rename_i u k data
    exact if_neg fun heq => hs k data (by rw [heq])
  · rfl

/-- What was sent since the bootstrap was so later on, unless another is cut. -/
private theorem mem_sinceBoot_snoc {x : Sent β V δ} (hs : ∀ n k data, s ≠ .cut (.boot n k) data)
    (hx : x ∈ sinceBoot log) : x ∈ sinceBoot (log ++ [s]) := by
  rw [sinceBoot_snoc]
  unfold Sent.joins
  split
  · exact (hs _ _ _ rfl).elim
  · exact List.mem_append_left _ hx

/-- A blob that has left, left before what came after it. -/
theorem LeftSince.of_snoc (h : LeftSince t (log ++ [s])) (hs : ∀ k data, s ≠ .left (.t2 t k) data) :
    LeftSince t log := by
  obtain ⟨k, data, h⟩ := h
  rw [sinceBoot_snoc] at h
  unfold Sent.joins at h
  split at h
  · exact (List.not_mem_nil h).elim
  · obtain h | h := List.mem_append.mp h
    · exact ⟨k, data, h⟩
    · exact (hs k data (List.mem_singleton.mp h).symm).elim

end Snoc

namespace ColdUpTo

variable {a b : Nat} {p : Msg β V δ → Prop} {log : List (Sent β V δ)}

/-- More may be ahead of a later message. -/
theorem mono (h : ColdUpTo a p log) (hab : a ≤ b) : ColdUpTo b p log := by
  intro m hm hp
  obtain ⟨s, hs, hle⟩ := h m hm hp
  exact ⟨s, hs, Nat.le_trans hle hab⟩

/-- An entry that is no message of the kind. -/
theorem snoc (h : ColdUpTo a p log) {s : Sent β V δ} (hs : ∀ m, s = .cold m → ¬ p m) :
    ColdUpTo a p (log ++ [s]) := by
  intro m hm hp
  obtain hm | hm := List.mem_append.mp hm
  · exact h m hm hp
  · exact (hs m (List.mem_singleton.mp hm).symm hp).elim

/-- A message whose seq is the bound. -/
theorem push (h : ColdUpTo a p log) {m : Msg β V δ} (hm : m.header.seq = some a) :
    ColdUpTo a p (log ++ [.cold m]) := by
  intro m' hm' hp
  obtain hm' | hm' := List.mem_append.mp hm'
  · exact h m' hm' hp
  · obtain rfl := Sent.cold.inj (List.mem_singleton.mp hm')
    exact ⟨a, hm, Nat.le_refl a⟩

end ColdUpTo

/-- No seq is beyond the counter. -/
private theorem Ledger.Streams.coldUpTo {c0 f0 : Nat} {l : Ledger β V δ} (h : l.Streams c0 f0)
    (p : Msg β V δ → Prop) : ColdUpTo l.seq p l.log := by
  intro m hm _
  have hin : m ∈ l.coldLane := List.mem_filterMap.mpr ⟨_, hm, rfl⟩
  obtain ⟨taken, rest, hsplit⟩ := List.append_of_mem hin
  refine ⟨_, h.stream.seq_of_split hsplit, ?_⟩
  rw [h.seq, hsplit, List.length_append, List.length_cons]
  omega

namespace Ledger.Placed

variable {c0 f0 : Nat} {l : Ledger β V δ}

/-- At the start nothing is sent. -/
theorem start (c0 f0 : Nat) : (Ledger.start c0 f0 : Ledger β V δ).Placed where
  boot _ h := by cases h
  bootLeft _ _ _ h := by cases h
  bootSeq _ _ h := (List.not_mem_nil h).elim
  blob _ _ h := by cases h
  blobLeft _ _ h := by
    obtain ⟨k, data, h⟩ := h
    exact (List.not_mem_nil h).elim
  blobSeq _ _ h := (List.not_mem_nil h).elim

/-- Entries that say nothing new of any blob. -/
theorem quiet (h : l.Placed) {l' : Ledger β V δ} {s : Sent β V δ} (hs : s.Aside)
    (hlog : l'.log = l.log ++ [s]) (hboot : l'.bootOutbox = l.bootOutbox)
    (hlast : l'.bootLastSeq = l.bootLastSeq) (ht2 : l'.t2Outbox = l.t2Outbox)
    (hcold : l'.uuidColdSeq = l.uuidColdSeq) : l'.Placed := by
  -- such an entry is no cut of a bootstrap, no cut of a blob and no end of one
  have hcut : ∀ n k data, s ≠ .cut (.boot n k) data := by
    rintro n k data rfl
    cases hs
  have hblob : ∀ t k data, s ≠ .cut (.t2 t k) data := by
    rintro t k data rfl
    cases hs
  have hleft : ∀ t k data, s ≠ .left (.t2 t k) data := by
    rintro t k data rfl
    cases hs
  refine ⟨?_, ?_, ?_, ?_, ?_, ?_⟩
  · -- boot, bootLeft: the last bootstrap is the one of before
    rw [hboot, hlog, lastBoot_snoc_of_ne hcut]
    exact h.boot
  · rw [hboot, hlog, lastBoot_snoc_of_ne hcut]
    exact fun hnone id data hid => List.mem_append_left _ (h.bootLeft hnone id data hid)
  · -- bootSeq: the entry is not a bootstrap's chunk
    rw [hboot, hlast, hlog]
    refine fun hnone => (h.bootSeq hnone).snoc fun m hm hkind => ?_
    subst hm
    exact hs.1 hkind
  · -- blob, blobLeft: so is every newest blob
    intro t
    rw [ht2, hlog, newestBlob_snoc_of_ne (hblob t)]
    exact h.blob t
  · intro t
    rw [ht2, hlog, newestBlob_snoc_of_ne (hblob t)]
    intro hnone hsince
    obtain ⟨id, data, hid, hmem⟩ := h.blobLeft t hnone (hsince.of_snoc (hleft t))
    exact ⟨id, data, hid, mem_sinceBoot_snoc hcut hmem⟩
  · -- blobSeq: the entry is not a blob's chunk
    intro t
    rw [hcold, hlast, hlog]
    refine (h.blobSeq t).snoc fun m hm hkind => ?_
    subst hm
    exact hs.2 hkind.1

/-- The last chunk of the bootstrap leaves: every cold message so far is covered. -/
private theorem bootLeft_of (h : l.Placed) (hstreams : l.Streams c0 f0) {l' : Ledger β V δ}
    {n k : Nat}
    {data : List β} {m : Msg β V δ} (hbox : lastBoot l.log = some (.boot n k, data))
    (hm : m.header.seq = some (l.seq + 1))
    (hlog : l'.log = l.log ++ [.cold m] ++ [.left (.boot n k) data])
    (hboot : l'.bootOutbox = none) (hlast : l'.bootLastSeq = l.seq + 1)
    (ht2 : l'.t2Outbox = l.t2Outbox) : l'.Placed := by
  -- the chunk's number is the last one, so it covers all of the cold lane
  have hseq : ∀ p, ColdUpTo (l.seq + 1) p l'.log := by
    intro p
    rw [hlog]
    exact (((hstreams.coldUpTo p).mono (Nat.le_succ _)).push hm).snoc (by simp)
  -- the entries cut no blob
  have hnewest : ∀ t, newestBlob t l'.log = newestBlob t l.log := by
    intro t
    rw [hlog, newestBlob_snoc_of_ne (by simp), newestBlob_snoc_of_ne (by simp)]
  refine ⟨?_, ?_, ?_, ?_, ?_, ?_⟩
  · -- boot: the outbox is empty
    rw [hboot]
    exact fun o ho => (Option.some_ne_none o ho.symm).elim
  · -- bootLeft: the bootstrap that has just left is the last one cut
    rw [hlog, lastBoot_snoc_of_ne (by simp), lastBoot_snoc_of_ne (by simp), hbox]
    intro _ id data' hid
    obtain ⟨rfl, rfl⟩ := Prod.mk.inj (Option.some.inj hid)
    exact List.mem_append_right _ (List.mem_singleton_self _)
  · -- bootSeq: everything on the cold lane is covered
    rw [hlast]
    exact fun _ => hseq _
  · -- blob, blobLeft: nothing of the blobs moves
    intro t
    rw [ht2, hnewest]
    exact h.blob t
  · intro t
    rw [ht2, hnewest, hlog]
    intro hnone hsince
    obtain ⟨id, data, hid, hmem⟩ :=
      h.blobLeft t hnone ((hsince.of_snoc (by simp)).of_snoc (by simp))
    exact ⟨id, data, hid, mem_sinceBoot_snoc (by simp) (mem_sinceBoot_snoc (by simp) hmem)⟩
  · -- blobSeq: the number of the bootstrap bounds that of every datablock
    intro t
    apply (hseq _).mono
    rw [hlast]
    exact Nat.le_max_right _ _

/-- Another chunk of the bootstrap leaves. -/
private theorem bootNext (h : l.Placed) {l' : Ledger β V δ} {o o' : Outgoing β V δ} {m : Msg β V δ}
    (hbox : l.bootOutbox = some o) (hm : m.header.kind = .boot)
    (hlog : l'.log = l.log ++ [.cold m]) (hboot : l'.bootOutbox = some o') (hid : o'.id = o.id)
    (hdata : o'.data = o.data) (hlast : l'.bootLastSeq = l.bootLastSeq)
    (ht2 : l'.t2Outbox = l.t2Outbox) (hcold : l'.uuidColdSeq = l.uuidColdSeq) : l'.Placed := by
  refine ⟨?_, ?_, ?_, ?_, ?_, ?_⟩
  · -- boot: what is left of the outbox is of the same bootstrap
    rw [hlog, lastBoot_snoc_of_ne (by simp), hboot]
    intro o'' ho''
    obtain rfl := Option.some.inj ho''
    rw [hid, hdata]
    exact h.boot o hbox
  · -- bootLeft, bootSeq: the outbox is not empty yet
    rw [hboot]
    exact fun hnone => (Option.some_ne_none _ hnone).elim
  · rw [hboot]
    exact fun hnone => (Option.some_ne_none _ hnone).elim
  · -- blob, blobLeft: nothing of the blobs moves
    intro t
    rw [ht2, hlog, newestBlob_snoc_of_ne (by simp)]
    exact h.blob t
  · intro t
    rw [ht2, hlog, newestBlob_snoc_of_ne (by simp)]
    intro hnone hsince
    obtain ⟨id, data, hid, hmem⟩ := h.blobLeft t hnone (hsince.of_snoc (by simp))
    exact ⟨id, data, hid, mem_sinceBoot_snoc (by simp) hmem⟩
  · -- blobSeq: the chunk is of the bootstrap, not of a blob
    intro t
    rw [hcold, hlast, hlog]
    refine (h.blobSeq t).snoc fun m' hm' hkind => ?_
    obtain rfl := Sent.cold.inj hm'
    exact Kind.noConfusion (hm.symm.trans hkind.1)

/-- A chunk of the bootstrap leaves. -/
theorem sendBoot (h : l.Placed) (hstreams : l.Streams c0 f0) : l.sendBoot.Placed := by
  unfold Ledger.sendBoot
  split
  · rename_i id data m hbox
    obtain ⟨ho, n, k, hid, -⟩ := hstreams.boot _ hbox
    obtain rfl : id = .boot n k := hid
    exact h.bootLeft_of hstreams (h.boot _ hbox) (by rfl) rfl rfl rfl rfl
  · rename_i id data m rest _ hbox
    obtain ⟨ho, n, k, hid, -⟩ := hstreams.boot _ hbox
    have hkind : m.header.kind = .boot := by
      rw [(ho.label (List.mem_cons_self ..)).1, hid]
      rfl
    exact h.bootNext hbox (m := m.withSeq (l.seq + 1)) hkind rfl rfl rfl rfl rfl rfl rfl
  · exact h

/-- A chunk of a blob leaves, and the seq that is on record for its datablock. -/
private theorem blobSeq_push (h : l.Placed) (hstreams : l.Streams c0 f0) {u : Uuid} {m : Msg β V δ}
    (hm : m.header.seq = some (l.seq + 1)) (huuid : m.header.uuid = u) (t : Uuid) :
    ColdUpTo (max ((l.uuidColdSeq.insert u (l.seq + 1)).getD t 0) l.bootLastSeq)
      (fun m => m.header.kind = .t2 ∧ m.header.uuid = t) (l.log ++ [.cold m]) := by
  unfold Dict.getD
  rw [Dict.get?_insert]
  split
  · exact (((hstreams.coldUpTo _).mono (Nat.le_succ _)).push hm).mono (Nat.le_max_left _ _)
  · rename_i hut
    refine (h.blobSeq t).snoc fun m' hm' hkind => ?_
    obtain rfl := Sent.cold.inj hm'
    exact hut (huuid.symm.trans hkind.2)

/-- The last chunk of a datablock's blob leaves. -/
private theorem blobLeft_of (h : l.Placed) (hstreams : l.Streams c0 f0) {l' : Ledger β V δ}
    {u : Uuid}
    {k : Nat} {data : List β} {m : Msg β V δ} (hbox : newestBlob u l.log = some (.t2 u k))
    (hkind : m.header.kind = .t2) (huuid : m.header.uuid = u)
    (hm : m.header.seq = some (l.seq + 1))
    (hlog : l'.log = l.log ++ [.cold m] ++ [.left (.t2 u k) data])
    (hboot : l'.bootOutbox = l.bootOutbox) (hlast : l'.bootLastSeq = l.bootLastSeq)
    (ht2 : l'.t2Outbox = l.t2Outbox.erase u)
    (hcold : l'.uuidColdSeq = l.uuidColdSeq.insert u (l.seq + 1)) : l'.Placed := by
  have hnewest : ∀ t, newestBlob t l'.log = newestBlob t l.log := by
    intro t
    rw [hlog, newestBlob_snoc_of_ne (by simp), newestBlob_snoc_of_ne (by simp)]
  refine ⟨?_, ?_, ?_, ?_, ?_, ?_⟩
  · -- boot, bootLeft: nothing of the bootstrap moves
    rw [hboot, hlog, lastBoot_snoc_of_ne (by simp), lastBoot_snoc_of_ne (by simp)]
    exact h.boot
  · rw [hboot, hlog, lastBoot_snoc_of_ne (by simp), lastBoot_snoc_of_ne (by simp)]
    exact fun hnone id data hid =>
      List.mem_append_left _ (List.mem_append_left _ (h.bootLeft hnone id data hid))
  · -- bootSeq: the chunk is of a blob, not of the bootstrap
    rw [hboot, hlast, hlog]
    refine fun hnone => ((h.bootSeq hnone).snoc fun m' hm' hboot => ?_).snoc (by simp)
    obtain rfl := Sent.cold.inj hm'
    exact Kind.noConfusion (hkind.symm.trans hboot)
  · -- blob: the datablock's outbox is gone, the others are as before
    intro t o ho
    rw [hnewest]
    rw [ht2, Dict.get?_erase] at ho
    split at ho
    · cases ho
    · exact h.blob t o ho
  · -- blobLeft: of this datablock the blob has just left, of another one it had before
    intro t hnone hsince
    rw [hnewest]
    by_cases hut : u = t
    · subst hut
      refine ⟨_, data, hbox, ?_⟩
      rw [hlog, sinceBoot_snoc]
      exact List.mem_append_right _ (List.mem_singleton_self _)
    · rw [ht2, Dict.get?_erase_of_ne _ hut] at hnone
      rw [hlog] at hsince ⊢
      have hother : ∀ k' data', Sent.left (β := β) (V := V) (δ := δ) (.t2 u k) data ≠
          .left (.t2 t k') data' := by simp [hut]
      obtain ⟨id, data', hid, hmem⟩ :=
        h.blobLeft t hnone ((hsince.of_snoc hother).of_snoc (by simp))
      exact ⟨id, data', hid, mem_sinceBoot_snoc (by simp) (mem_sinceBoot_snoc (by simp) hmem)⟩
  · -- blobSeq: the number of this chunk is written down for the datablock
    intro t
    rw [hcold, hlast, hlog]
    exact (h.blobSeq_push hstreams hm huuid t).snoc (by simp)

/-- Another chunk of a datablock's blob leaves. -/
private theorem blobNext (h : l.Placed) (hstreams : l.Streams c0 f0) {l' : Ledger β V δ} {u : Uuid}
    {o o' : Outgoing β V δ} {m : Msg β V δ} (hbox : l.t2Outbox.get? u = some o)
    (hkind : m.header.kind = .t2) (huuid : m.header.uuid = u)
    (hm : m.header.seq = some (l.seq + 1)) (hlog : l'.log = l.log ++ [.cold m])
    (ht2 : l'.t2Outbox = l.t2Outbox.insert u o') (hid : o'.id = o.id)
    (hboot : l'.bootOutbox = l.bootOutbox) (hlast : l'.bootLastSeq = l.bootLastSeq)
    (hcold : l'.uuidColdSeq = l.uuidColdSeq.insert u (l.seq + 1)) : l'.Placed := by
  refine ⟨?_, ?_, ?_, ?_, ?_, ?_⟩
  · -- boot, bootLeft: nothing of the bootstrap moves
    rw [hboot, hlog, lastBoot_snoc_of_ne (by simp)]
    exact h.boot
  · rw [hboot, hlog, lastBoot_snoc_of_ne (by simp)]
    exact fun hnone id data hid => List.mem_append_left _ (h.bootLeft hnone id data hid)
  · -- bootSeq: the chunk is of a blob, not of the bootstrap
    rw [hboot, hlast, hlog]
    refine fun hnone => (h.bootSeq hnone).snoc fun m' hm' hboot => ?_
    obtain rfl := Sent.cold.inj hm'
    exact Kind.noConfusion (hkind.symm.trans hboot)
  · -- blob: what is left of the outbox is of the same blob
    intro t o'' ho''
    rw [hlog, newestBlob_snoc_of_ne (by simp)]
    rw [ht2, Dict.get?_insert] at ho''
    split at ho''
    · rename_i hut
      obtain rfl := Option.some.inj ho''
      rw [hid]
      exact h.blob t o (hut ▸ hbox)
    · exact h.blob t o'' ho''
  · -- blobLeft: the datablock's outbox is not empty yet
    intro t hnone hsince
    rw [hlog, newestBlob_snoc_of_ne (by simp)]
    rw [ht2, Dict.get?_insert] at hnone
    split at hnone
    · cases hnone
    · rw [hlog] at hsince
      obtain ⟨id, data, hid, hmem⟩ := h.blobLeft t hnone (hsince.of_snoc (by simp))
      exact ⟨id, data, hid, mem_sinceBoot_snoc (by simp) hmem⟩
  · -- blobSeq: the number of this chunk is written down for the datablock
    intro t
    rw [hcold, hlast, hlog]
    exact h.blobSeq_push hstreams hm huuid t

/-- A chunk of a blob leaves. -/
theorem sendT2 (h : l.Placed) (hstreams : l.Streams c0 f0) (u : Uuid) : (l.sendT2 u).Placed := by
  unfold Ledger.sendT2
  split
  · rename_i id data m hbox
    obtain ⟨ho, k, hid, -⟩ := hstreams.t2 u _ hbox
    obtain rfl : id = .t2 u k := hid
    obtain ⟨hkind, huuid⟩ := ho.label (List.mem_cons_self ..)
    exact h.blobLeft_of hstreams (m := m.withSeq (l.seq + 1)) (h.blob u _ hbox) hkind huuid rfl rfl
      rfl rfl rfl rfl
  · rename_i id data m rest _ hbox
    obtain ⟨ho, k, hid, -⟩ := hstreams.t2 u _ hbox
    obtain rfl : id = .t2 u k := hid
    obtain ⟨hkind, huuid⟩ := ho.label (List.mem_cons_self ..)
    exact h.blobNext hstreams (m := m.withSeq (l.seq + 1)) hbox hkind huuid rfl rfl rfl rfl rfl rfl
      rfl
  · exact h

/-- A chunk of a library file leaves. -/
theorem sendLib (h : l.Placed) (hstreams : l.Streams c0 f0) : l.sendLib.Placed := by
  have haside : ∀ {o : Outgoing β V δ} {m : Msg β V δ}, o ∈ l.libOutbox → m ∈ o.chunks →
      ∀ seq, (Sent.cold (m.withSeq seq)).Aside := by
    intro o m hbox hm seq
    obtain ⟨ho, n, k, hid, -⟩ := hstreams.lib o hbox
    have hkind : m.header.kind = .libfile := by
      rw [(ho.label hm).1, hid]
      rfl
    exact ⟨fun h => Kind.noConfusion (hkind.symm.trans h),
      fun h => Kind.noConfusion (hkind.symm.trans h)⟩
  unfold Ledger.sendLib
  split
  · rename_i id data m others hbox
    have hin := hbox ▸ List.mem_cons_self ..
    obtain ⟨-, n, k, hid, -⟩ := hstreams.lib _ hin
    obtain rfl : id = .lib n k := hid
    have hcold : (l.pushCold m).Placed :=
      h.quiet (haside hin (List.mem_cons_self ..) (l.seq + 1)) rfl rfl rfl rfl rfl
    exact hcold.quiet (s := .left (.lib n k) data) rfl rfl rfl rfl rfl rfl
  · rename_i id data m rest others _ hbox
    have hin := hbox ▸ List.mem_cons_self ..
    exact h.quiet (haside hin (List.mem_cons_self ..) (l.seq + 1)) rfl rfl rfl rfl rfl
  · exact h

/-- A bootstrap is cut. The blobs of before say nothing of it. -/
theorem cutBoot (h : l.Placed) (data : List β) (sceneDigest : Option δ) :
    (l.step (.cutBoot data sceneDigest)).Placed := by
  refine ⟨?_, fun hnone => (Option.some_ne_none _ hnone).elim,
    fun hnone => (Option.some_ne_none _ hnone).elim, ?_, ?_, ?_⟩
  · intro o ho
    obtain rfl := Option.some.inj ho
    exact lastBoot_snoc ..
  · intro t
    show ∀ o, l.t2Outbox.get? t = some o → newestBlob t (l.log ++ [_]) = _
    rw [newestBlob_snoc_of_ne (by simp)]
    exact h.blob t
  · -- nothing has left since
    intro t _ hsince
    obtain ⟨k, data', hmem⟩ := hsince
    have hmem : Sent.left (.t2 t k) data' ∈ sinceBoot (l.log ++ [.cut (.boot _ _) data]) := hmem
    rw [sinceBoot_snoc] at hmem
    exact (List.not_mem_nil hmem).elim
  · intro t
    exact (h.blobSeq t).snoc (by simp)

/-- A blob is cut. The one of before is not the newest any more. -/
theorem cutT2 (h : l.Placed) (u : Uuid) (data : List β) (digest : δ) (more : Bool) :
    (l.step (.cutT2 u data digest more)).Placed := by
  generalize hl : l.step (.cutT2 u data digest more) = l'
  have hlog : l'.log = l.log ++ [.cut (.t2 u (l.seq + 1)) data] := by rw [← hl]; rfl
  obtain ⟨o, ht2, hid⟩ : ∃ o : Outgoing β V δ, l'.t2Outbox = l.t2Outbox.insert u o ∧
      o.id = .t2 u (l.seq + 1) := ⟨_, by rw [← hl]; rfl, rfl⟩
  obtain ⟨hboot, hlast, hcold⟩ : l'.bootOutbox = l.bootOutbox ∧
      l'.bootLastSeq = l.bootLastSeq ∧ l'.uuidColdSeq = l.uuidColdSeq := by
    rw [← hl]
    exact ⟨rfl, rfl, rfl⟩
  refine ⟨?_, ?_, ?_, ?_, ?_, ?_⟩
  · -- boot, bootLeft: nothing of the bootstrap moves
    rw [hboot, hlog, lastBoot_snoc_of_ne (by simp)]
    exact h.boot
  · rw [hboot, hlog, lastBoot_snoc_of_ne (by simp)]
    exact fun hnone id data hid => List.mem_append_left _ (h.bootLeft hnone id data hid)
  · -- bootSeq: a cut is no message
    rw [hboot, hlast, hlog]
    exact fun hnone => (h.bootSeq hnone).snoc (by simp)
  · -- blob: the new outbox is of the blob just cut
    intro t o' ho'
    rw [ht2, Dict.get?_insert] at ho'
    split at ho'
    · rename_i hut
      obtain rfl := Option.some.inj ho'
      rw [hlog, newestBlob_snoc, hid]
      exact if_pos hut
    · rename_i hut
      rw [hlog, newestBlob_snoc_of_ne (by simp [hut])]
      exact h.blob t o' ho'
  · -- blobLeft: the datablock has an outbox now, so only the others are asked
    intro t hnone hsince
    rw [ht2, Dict.get?_insert] at hnone
    split at hnone
    · cases hnone
    · rename_i hut
      rw [hlog] at hsince
      obtain ⟨id, data', hid', hmem⟩ := h.blobLeft t hnone (hsince.of_snoc (by simp))
      rw [hlog, newestBlob_snoc_of_ne (by simp [hut])]
      exact ⟨id, data', hid', mem_sinceBoot_snoc (by simp) hmem⟩
  · -- blobSeq: a cut is no message
    intro t
    rw [hcold, hlast, hlog]
    exact (h.blobSeq t).snoc (by simp)

/-- Every step keeps the log and the outboxes together. -/
theorem step (h : l.Placed) (hstreams : l.Streams c0 f0) {a : LedgerAct β V δ} (ha : a.Valid) :
    (l.step a).Placed := by
  cases a with
  | cutBoot data sceneDigest => exact h.cutBoot data sceneDigest
  | cutT2 u data digest more => exact h.cutT2 u data digest more
  | cutLib lib data => exact h.quiet (s := .cut (.lib _ _) data) rfl rfl rfl rfl rfl rfl
  | sendBoot => exact h.sendBoot hstreams
  | sendT2 u => exact h.sendT2 hstreams u
  | sendLib => exact h.sendLib hstreams
  | sendCold kind lib =>
    refine h.quiet (s := .cold _) ?_ rfl rfl rfl rfl rfl
    obtain rfl | rfl | rfl := ha
    all_goals exact ⟨Kind.noConfusion, Kind.noConfusion⟩
  | endCold =>
    exact h.quiet (s := .cold _) ⟨Kind.noConfusion, Kind.noConfusion⟩ rfl rfl rfl rfl rfl
  | t1 u changes targets full sd => exact h.quiet (s := .fast _) trivial rfl rfl rfl rfl rfl
  | tomb u => exact h.quiet (s := .fast _) trivial rfl rfl rfl rfl rfl
  | endFast => exact h.quiet (s := .fast _) trivial rfl rfl rfl rfl rfl
  | record u data digest => exact h.quiet (s := .recorded u data) trivial rfl rfl rfl rfl rfl
  | skip u data digest => exact h

end Ledger.Placed

/-! ## Entries that are none of these -/

/-- Neither a bootstrap that is cut nor a tier-1 message. -/
def Sent.Plain : Sent β V δ → Prop
  | .cut (.boot _ _) _ => False
  | .fast m => m.header.kind ≠ .t1
  | _ => True

/-- A step other than these two. -/
def LedgerAct.Aside : LedgerAct β V δ → Prop
  | .cutBoot .. | .t1 .. => False
  | _ => True

/-- It adds only other entries. -/
private theorem Ledger.step_plain (l : Ledger β V δ) {a : LedgerAct β V δ} (ha : a.Aside) :
    ∃ items, (l.step a).log = l.log ++ items ∧ ∀ s ∈ items, s.Plain := by
  -- one entry, or a last chunk with the entry that its blob left
  have hone : ∀ s : Sent β V δ, s.Plain → ∀ x ∈ [s], x.Plain := by
    intro s hs x hx
    rw [List.mem_singleton.mp hx]
    exact hs
  have hleft : ∀ (m : Msg β V δ) id data, ∀ x ∈ [Sent.cold m, .left id data], x.Plain := by
    intro m id data x hx
    obtain rfl | hx := List.mem_cons.mp hx
    · trivial
    · rw [List.mem_singleton.mp hx]
      trivial
  cases a with
  | cutBoot data sceneDigest => exact ha.elim
  | t1 u changes targets full sd => exact ha.elim
  | cutT2 u data digest more => exact ⟨[_], rfl, hone _ trivial⟩
  | cutLib lib data => exact ⟨[_], rfl, hone _ trivial⟩
  | sendBoot =>
    show ∃ items, l.sendBoot.log = l.log ++ items ∧ _
    unfold Ledger.sendBoot
    split
    · exact ⟨_, List.append_assoc .., hleft _ _ _⟩
    · exact ⟨[_], rfl, hone _ trivial⟩
    · exact ⟨[], (List.append_nil _).symm, fun _ hx => (List.not_mem_nil hx).elim⟩
  | sendT2 u =>
    show ∃ items, (l.sendT2 u).log = l.log ++ items ∧ _
    unfold Ledger.sendT2
    split
    · exact ⟨_, List.append_assoc .., hleft _ _ _⟩
    · exact ⟨[_], rfl, hone _ trivial⟩
    · exact ⟨[], (List.append_nil _).symm, fun _ hx => (List.not_mem_nil hx).elim⟩
  | sendLib =>
    show ∃ items, l.sendLib.log = l.log ++ items ∧ _
    unfold Ledger.sendLib
    split
    · exact ⟨_, List.append_assoc .., hleft _ _ _⟩
    · exact ⟨[_], rfl, hone _ trivial⟩
    · exact ⟨[], (List.append_nil _).symm, fun _ hx => (List.not_mem_nil hx).elim⟩
  | sendCold kind lib => exact ⟨[_], rfl, hone _ trivial⟩
  | endCold => exact ⟨[_], rfl, hone _ trivial⟩
  | tomb u => exact ⟨[_], rfl, hone (.fast _) Kind.noConfusion⟩
  | endFast => exact ⟨[_], rfl, hone (.fast _) Kind.noConfusion⟩
  | record u data digest => exact ⟨[_], rfl, hone _ trivial⟩
  | skip u data digest =>
    exact ⟨[], (List.append_nil _).symm, fun _ hx => (List.not_mem_nil hx).elim⟩

/-- What the last bootstrap carries, and what has left since. -/
private theorem carried_append {holds : List β → Uuid → Prop} {t : Uuid}
    {log items : List (Sent β V δ)}
    (hitems : ∀ s ∈ items, ∀ n k data, s ≠ .cut (.boot n k) data)
    (h : FromBoot holds t log ∨ LeftSince t log) :
    FromBoot holds t (log ++ items) ∨ LeftSince t (log ++ items) := by
  induction items generalizing log with
  | nil => rwa [List.append_nil]
  | cons s items ih =>
    rw [List.append_cons]
    apply ih fun x hx => hitems x (List.mem_cons_of_mem _ hx)
    have hs := hitems s (List.mem_cons_self ..)
    obtain ⟨id, data, hlast, hdata⟩ | ⟨k, data, hleft⟩ := h
    · exact .inl ⟨id, data, (lastBoot_snoc_of_ne hs).trans hlast, hdata⟩
    · exact .inr ⟨k, data, mem_sinceBoot_snoc hs hleft⟩

/-! ## What the replica holds -/

/-- A file that the host saves carries every datablock that a save writes. -/
def World.Saves (w : World β V) (holds : List β → Uuid → Prop) : Prop :=
  ∀ u db, w.dbs.get? u = some db → db.saved = true → holds w.mainfile u

namespace Host

/-- What the host takes the replica to hold, it holds, or it will by the time that what has
    left is applied. -/
structure Carries (holds : List β → Uuid → Prop) (c0 f0 : Nat) (h : Host β V δ) : Prop where
  streams : h.ledger.Streams c0 f0
  placed : h.ledger.Placed
  shipped : ∀ t ∈ h.shipped, FromBoot holds t h.ledger.log ∨ LeftSince t h.ledger.log

/-- The last chunk of a blob leaves, and the log says so. -/
private theorem sendChunks_left {w : World β V} {u : Uuid} {id : BlobId} {data : List β}
    {chunks : List (Msg β V δ)} (hne : chunks ≠ []) {h h' : Host β V δ}
    (hget : h.ledger.t2Outbox.get? u = some ⟨id, data, chunks⟩)
    (heq : sendChunks w (.sendT2 u) chunks h = (h', true)) :
    .left id data ∈ sinceBoot h'.ledger.log := by
  induction chunks generalizing h with
  | nil => exact (hne rfl).elim
  | cons m chunks ih =>
    unfold Host.sendChunks Host.send at heq
    dsimp only at heq
    -- a chunk is taken, or the walk stops and does not answer true
    by_cases hok : w.accepts h.tries = true
    · simp only [hok, if_true] at heq
      cases chunks with
      -- it was the last one: the log says that the blob left
      | nil =>
        obtain ⟨rfl, -⟩ := Prod.mk.inj heq
        show .left id data ∈ sinceBoot (h.ledger.sendT2 u).log
        unfold Ledger.sendT2
        simp only [hget]
        show .left id data ∈ sinceBoot (h.ledger.log ++ [.cold _] ++ [.left id data])
        rw [sinceBoot_snoc]
        exact List.mem_append_right _ (List.mem_singleton_self _)
      -- the outbox holds the rest of the same blob
      | cons m' chunks =>
        apply ih (by simp) _ heq
        show (h.ledger.sendT2 u).t2Outbox.get? u = _
        unfold Ledger.sendT2
        simp only [hget]
        exact Dict.get?_insert_self ..
    · simp only [hok, Bool.false_eq_true, if_false] at heq
      cases heq

variable {holds : List β → Uuid → Prop} {c0 f0 : Nat} {w : World β V}

/-- A file made anew carries what is saved. -/
theorem Carries.cutBoot (hsaves : w.Saves holds) {h : Host β V δ} (hh : h.Carries holds c0 f0)
    (sceneDigest : Option δ) :
    ({ h.act (.cutBoot w.mainfile sceneDigest) with
      shipped := h.savedDbs w } : Host β V δ).Carries holds c0 f0 where
  streams := hh.streams.step (a := .cutBoot w.mainfile sceneDigest) trivial
  placed := hh.placed.cutBoot w.mainfile sceneDigest
  shipped t ht := by
    obtain ⟨-, hsaved⟩ := List.mem_filter.mp ht
    obtain ⟨db, hget, hsaved⟩ := Option.any_eq_true .. |>.mp hsaved
    exact .inl ⟨_, w.mainfile, lastBoot_snoc .., hsaves t db hget hsaved⟩

/-- Where the host speaks, what it names is in the bootstrap or in a blob ahead. -/
private theorem speaks_carries (hsaves : w.Saves holds) :
    Speaks w (fun _ => True) (Carries (δ := δ) holds c0 f0) where
  names _ _ := trivial
  whole hh hbox := (hh.streams.boot _ hbox).1.chunks_ne_nil
  same hh hledger hshipped := by
    refine ⟨hledger ▸ hh.streams, hledger ▸ hh.placed, fun t ht => ?_⟩
    rw [hledger]
    exact hh.shipped t (hshipped ▸ ht)
  act {h a} ha hh := by
    refine ⟨hh.streams.step ha.valid, hh.placed.step hh.streams ha.valid, fun t ht => ?_⟩
    -- what does not cut a bootstrap leaves the last one in place
    have haside : a.Aside → ∃ items, (h.ledger.step a).log = h.ledger.log ++ items ∧
        ∀ s ∈ items, ∀ n k data, s ≠ .cut (.boot n k) data := by
      intro ha
      obtain ⟨items, hlog, hitems⟩ := h.ledger.step_plain ha
      refine ⟨items, hlog, fun s hs n k data heq => ?_⟩
      have hplain := hitems s hs
      rwa [heq] at hplain
    obtain ⟨items, hlog, hitems⟩ : ∃ items, (h.ledger.step a).log = h.ledger.log ++ items ∧
        ∀ s ∈ items, ∀ n k data, s ≠ .cut (.boot n k) data := by
      cases a with
      | cutBoot data sceneDigest => exact ha.elim
      | t1 u changes targets full sd => exact ⟨[_], rfl, by simp⟩
      | _ => exact haside trivial
    show FromBoot holds t (h.ledger.step a).log ∨ LeftSince t (h.ledger.step a).log
    rw [hlog]
    exact carried_append hitems (hh.shipped t ht)
  ship {h h' u o} hh hget heq hh' := by
    refine ⟨hh'.streams, hh'.placed, fun t ht => ?_⟩
    -- the datablock just shipped has left, the others were carried before
    obtain rfl | ht := List.mem_insert_iff.mp ht
    · obtain ⟨ho, k, hid, -⟩ := hh.streams.t2 _ _ hget
      have hleft := sendChunks_left ho.chunks_ne_nil hget heq
      rw [hid] at hleft
      exact .inr ⟨k, _, hleft⟩
    · exact hh'.shipped t ht
  boot sceneDigest hh := hh.cutBoot hsaves sceneDigest

section Names

variable [∀ data, DecidablePred (holds data)]

/-- What is known of a datablock that the last bootstrap carries, once that has left. -/
private theorem Carries.finds_boot {h : Host β V δ} (hh : h.Carries holds c0 f0)
    (hboot : h.ledger.bootOutbox = none) {a : Nat} (ha : h.ledger.bootLastSeq ≤ a) {t : Uuid}
    (ht : FromBoot holds t h.ledger.log) : Finds holds h.ledger.log a t := by
  obtain ⟨id, data, hlast, hdata⟩ := ht
  exact .inl ⟨id, data, hlast, hdata, hh.placed.bootLeft hboot id data hlast,
    (hh.placed.bootSeq hboot).mono ha⟩

/-- What is known of a datablock that is shipped, with no blob on its way. -/
private theorem Carries.finds_landed {h : Host β V δ} (hh : h.Carries holds c0 f0)
    (hboot : h.ledger.bootOutbox = none) {a : Nat} (ha : h.ledger.bootLastSeq ≤ a) {t : Uuid}
    (hcold : h.ledger.uuidColdSeq.getD t 0 ≤ a) (ht : h.Landed t)
    (halone : FromBoot holds t h.ledger.log ∨ CarriedAlone holds t h.ledger.log) :
    Finds holds h.ledger.log a t := by
  obtain hfile | hleft := hh.shipped t ht.1
  · exact hh.finds_boot hboot ha hfile
  obtain hfile | halone := halone
  · exact hh.finds_boot hboot ha hfile
  obtain ⟨id, data, hnewest, hsince⟩ := hh.placed.blobLeft t ht.2 hleft
  obtain ⟨k, rfl⟩ := newestBlob_own hnewest
  exact .inr ⟨k, data, halone.trans hnewest, hsince,
    (hh.placed.blobSeq t).mono (Nat.max_le.mpr ⟨hcold, ha⟩)⟩

end Names

end Host

/-! ## Names in changes -/

/-- `bpy.data.worlds`, `bpy.data.objects`, `bpy.data.collections`. -/
inductive Collection where
  | worlds
  | objects
  | collections
deriving DecidableEq

/-- `_POINTER_SETTERS`, without the `"@"`. -/
def pointerSetters : List (String × Collection) :=
  [("scene_world", .worlds), ("scene_camera", .objects),
    ("instance_collection", .collections), ("dof_focus_object", .objects),
    ("ll_receiver", .collections), ("ll_blocker", .collections)]

/-- The datablock that `_send_t1` looks up for a change: `named` is the lookup in the
    collections of `bpy.data`. -/
def pointerTarget (named : Collection → V → Option Uuid) : Path → V → Option Uuid
  | .setter name, v => (pointerSetters.lookup name).bind fun coll => named coll v
  | _, _ => none

/-- `"@master_members"`. -/
def masterMembers : Path := .setter "master_members"

/-- A change names a datablock: its value is looked up in the table, or lists it as a member
    of the scene's master collection. -/
def World.NamedBy (w : World β V) (members : V → List Uuid) (c : Path × V) (t : Uuid) : Prop :=
  w.target c.1 c.2 = some t ∨ c.1 = masterMembers ∧ t ∈ members c.2

/-- What a change names is in the last bootstrap, or it is named through the table, and no blob of
    another datablock carries it along. -/
def World.NamesWell (w : World β V) (holds : List β → Uuid → Prop)
    [∀ data, DecidablePred (holds data)] (members : V → List Uuid) (log : List (Sent β V δ))
    (c : Path × V) : Prop :=
  (c.1 = masterMembers → ∀ t ∈ members c.2, FromBoot holds t log) ∧
    ∀ t, w.target c.1 c.2 = some t → FromBoot holds t log ∨ CarriedAlone holds t log

/-- A tier-1 message from place `n` of the log on, whose changes name datablocks well, follows all
    the datablocks that it names. -/
def Led (holds : List β → Uuid → Prop) [∀ data, DecidablePred (holds data)]
    (members : V → List Uuid) (w : World β V) (n : Nat) (before : List (Sent β V δ)) :
    Sent β V δ → Prop
  | .fast m => n ≤ before.length → m.header.kind = .t1 →
    (∀ c ∈ m.changes, w.NamesWell holds members before c) →
    ∀ c ∈ m.changes, ∀ t, w.NamedBy members c t → Finds holds before m.header.after t
  | _ => True

namespace Host

variable {holds : List β → Uuid → Prop} [∀ data, DecidablePred (holds data)]
  {members : V → List Uuid} {c0 f0 n : Nat} {w : World β V}

/-- A tier-1 message at its site. -/
private theorem Carries.led (hships : w.TargetsShip) {h : Host β V δ} (hh : h.Carries holds c0 f0)
    {K : Uuid → Prop} {u : Uuid} {changes : List (Path × V)} {targets : List Uuid} {full : Bool}
    {sd : Option δ} (hsite : h.Site w K (.t1 u changes targets full sd)) :
    Led holds members w n h.ledger.log (.fast ((Ledger.t1Msg u changes
      (h.ledger.afterAll u targets) full sd).withSeq (h.ledger.seqFast + 1))) := by
  intro _ _ hwell c hc t hnamed
  obtain ⟨hmembers, halone⟩ := hwell c hc
  obtain ⟨-, hboot, hsettled⟩ := hsite
  obtain ⟨hlanded, htargets⟩ := hsettled hships
  have hlast : h.ledger.bootLastSeq ≤ h.ledger.afterAll u targets :=
    (h.ledger.waitsFor_iff u targets _).mp (.inl (Nat.le_refl _))
  obtain htarget | ⟨hpath, ht⟩ := hnamed
  · have hmem := htargets c hc t htarget
    have hcold : h.ledger.uuidColdSeq.getD t 0 ≤ h.ledger.afterAll u targets :=
      (h.ledger.waitsFor_iff u targets _).mp
        (.inr (.inr ⟨t, List.mem_cons_of_mem _ hmem, Nat.le_refl _⟩))
    exact hh.finds_landed hboot hlast hcold (hlanded t hmem) (halone t htarget)
  · exact hh.finds_boot hboot hlast (hmembers hpath t ht)

/-- The log grows by messages that are led. -/
private theorem speaks_led (hsaves : w.Saves holds) (hships : w.TargetsShip) :
    Speaks w (fun _ => True) fun h : Host β V δ =>
      h.Carries holds c0 f0 ∧ History (Led holds members w n) h.ledger.log where
  names _ _ := trivial
  whole hh := (speaks_carries hsaves).whole hh.1
  same hh hledger hshipped :=
    ⟨(speaks_carries hsaves).same hh.1 hledger hshipped, hledger ▸ hh.2⟩
  act {h a} ha hh := by
    refine ⟨(speaks_carries hsaves).act ha hh.1, ?_⟩
    have haside : a.Aside → History (Led holds members w n) (h.ledger.step a).log := by
      intro hplain
      obtain ⟨items, hlog, hitems⟩ := h.ledger.step_plain hplain
      rw [hlog]
      refine hh.2.append fun s hs more => ?_
      have hplain := hitems s hs
      cases s with
      | fast m => exact fun _ hkind => (hplain hkind).elim
      | _ => trivial
    cases a with
    | cutBoot data sceneDigest => exact ha.elim
    | t1 u changes targets full sd => exact hh.2.snoc (hh.1.led hships ha)
    | _ => exact haside trivial
  ship hh hget heq hh' := ⟨(speaks_carries hsaves).ship hh.1 hget heq hh'.1, hh'.2⟩
  boot sceneDigest hh := ⟨hh.1.cutBoot hsaves sceneDigest, hh.2.snoc trivial⟩

section Flush

variable [BEq V] [DecidableEq δ] (H : Digests β V δ)

end Flush

end Host

/-! ## A new camera -/

namespace Members

open Camera (Digest digests camera)

/-- A scene with one `"@"` value. -/
def scene (path : Path) (v : String) : Datablock (Entry String) String where
  kind := .scene
  snapshot := .ofList [(path, v)]
  blend := none

/-- Cameras `"a"` and `"b"`, by name. -/
def named (coll : Collection) (v : String) : Option Uuid :=
  if coll = .objects ∧ (v = "a" ∨ v = "b") then some v else none

/-- Pointers name one of the two. -/
private theorem pointerTarget_named {p : Path} {v t : String}
    (h : pointerTarget named p v = some t) :
    t = "a" ∨ t = "b" := by
  unfold pointerTarget at h
  split at h
  · obtain ⟨coll, -, h⟩ := Option.bind_eq_some_iff.mp h
    unfold named at h
    split at h
    · rename_i hv
      obtain rfl := Option.some.inj h
      exact hv.2
    · cases h
  · cases h

/-- The scene and camera `"a"`. -/
def file (path : Path) : World (Entry String) String where
  dbs := .ofList [("s", scene path "a"), ("a", camera "a")]
  stamps := by simp [Dict.ofList, Dict.keys_insert, mainfileUuid]
  mainfile := [("s", Dict.empty), ("a", Dict.empty)]

/-- Camera `"b"` is there too, and the value of the scene is `"b"`. -/
def added (path : Path) (now : Int) : World (Entry String) String where
  dbs := ⟨[("s", scene path "b"), ("a", camera "a"), ("b", camera "b")], by simp⟩
  stamps := by simp [Dict.keys, mainfileUuid]
  target := pointerTarget named
  stamps_target := by
    intro p v t h
    obtain rfl | rfl := pointerTarget_named h
    all_goals simp [Dict.keys]
  mainfile := [("s", Dict.empty), ("a", Dict.empty), ("b", Dict.empty)]
  now := now

/-- The bootstrap leaves; the camera is added, and the scene comes to name it. -/
def calls (path : Path) : List (World (Entry String) String × Host.Call (Entry String) Digest) :=
  [(file path, .bootstrap), (file path, .tick),
    (added path 0, .depsgraph [{ uuid := "s" }, { uuid := "b" }])]

/-- The host after that. -/
def host (path : Path) : Host (Entry String) String Digest :=
  (Host.start (file path) 0 0).run digests (calls path)

/-- The host after one more tick. -/
def ticked (path : Path) : Host (Entry String) String Digest :=
  (Host.start (file path) 0 0).run digests (calls path ++ [(added path 80, .tick)])

/-- What a file carries. -/
def holds (data : List (Entry String)) (u : Uuid) : Prop := u ∈ data.map Prod.fst

instance (data : List (Entry String)) : DecidablePred (holds data) :=
  fun u => inferInstanceAs (Decidable (u ∈ data.map Prod.fst))

/-- What a value of `"@master_members"` lists. -/
def members (v : String) : List Uuid := [v]

/-- A file with all the datablocks of the world saves them. -/
private theorem saves_of_keys {w : World (Entry String) String}
    (h : w.dbs.keys = w.mainfile.map Prod.fst) : w.Saves holds := by
  intro u db hget _
  show u ∈ w.mainfile.map Prod.fst
  rw [← h]
  exact (Dict.mem_keys_iff ..).mpr ⟨db, hget⟩

end Members

end QCBridge
