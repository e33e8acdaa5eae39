import QCBridge.ForStd.Guarded
import QCBridge.ForStd.Each
import QCBridge.Ring1.Requests

/-!
# A reply finds its request

A number is given out once by a transport, and what takes it out of the table is final: so no
number is answered twice, and none after it was cancelled. That a reply is to the request of
this transport is another matter, since every transport counts from 1. It holds as long as no
reply to another's request gets to the transport under a number that it still has a use for.
-/

namespace QCBridge

namespace RequestTable

/-- The number was given out, and nothing waits under it. -/
def Spent (t : RequestTable) (id : Nat) : Prop := id < t.nextId ∧ t.pending.get? id = none

instance (t : RequestTable) (id : Nat) : Decidable (t.Spent id) :=
  inferInstanceAs (Decidable (_ ∧ _))

/-- A number that is spent is not given out again. -/
theorem Spent.request {t : RequestTable} {id : Nat} (h : t.Spent id) : t.request.Spent id := by
  refine ⟨Nat.lt_succ_of_lt h.1, ?_⟩
  show (t.pending.insert t.nextId []).get? id = none
  rw [Dict.get?_insert_of_ne _ _ (Nat.ne_of_gt h.1)]
  exact h.2

/-- Nor by a request that is given up. -/
theorem Spent.cancelRequest {t : RequestTable} {id : Nat} (h : t.Spent id) (k : Nat) :
    (t.cancelRequest k).Spent id := by
  refine ⟨h.1, ?_⟩
  show (t.pending.erase k).get? id = none
  rw [Dict.get?_erase, h.2, ite_self]

/-- The number of that one is spent. -/
private theorem spent_cancelRequest {t : RequestTable} {id : Nat} (h : id < t.nextId) :
    (t.cancelRequest id).Spent id :=
  ⟨h, Dict.get?_erase_self t.pending id⟩

/-- A reply comes to no number that is not in the table. -/
private theorem store_none {t : RequestTable} {id : Nat} (h : t.pending.get? id = none) (k : Nat)
    (r : ControlReply) : (t.store k r).pending.get? id = none := by
  unfold store
  dsimp only
  cases hget : t.pending.get? k with
  | none => exact h
  | some slot =>
    -- the reply goes to a slot that is there
    have hne : k ≠ id := by
      rintro rfl
      rw [h] at hget
      cases hget
    dsimp only
    rw [Dict.get?_insert_of_ne _ _ hne]
    exact h

/-- What `_handle_reply` does under its lock: nothing, or it has found a slot. -/
private theorem handleReply_cases (t : RequestTable) (r : ControlReply) :
    t.handleReply r = t ∨
      ∃ id, r.pong = false ∧ r.req = some id ∧ t.pending.get? id ≠ none ∧
        t.handleReply r = { t with reader := .storing id r } := by
  unfold handleReply
  cases hreq : r.req with
  | none => exact .inl rfl
  | some id =>
    dsimp only
    split
    · rename_i hfound
      obtain ⟨hpong, hslot⟩ := (Bool.and_eq_true ..).mp hfound
      refine .inr ⟨id, by simpa using hpong, rfl, ?_, rfl⟩
      intro hnone
      rw [hnone] at hslot
      cases hslot
    · exact .inl rfl

/-- A turn of the reader thread. -/
private theorem read_cases (t : RequestTable) :
    t.read = t ∨ (∃ id r, t.reader = .storing id r ∧ t.read = t.store id r) ∨
      ∃ r inbox, t.inbox = r :: inbox ∧ t.read = { t with inbox := inbox }.handleReply r := by
  unfold read
  split
  · rename_i id r hreader
    exact .inr (.inl ⟨id, r, hreader, rfl⟩)
  · exact .inl rfl
  · rename_i r inbox hreader hinbox
    exact .inr (.inr ⟨r, inbox, hinbox, rfl⟩)

/-- What a reply may be that gets to transport `n`: to a request of its own, or without a
    chance. -/
def Fits (t : RequestTable) (n : Nat) (r : ControlReply) : Prop :=
  r.pong = true ∨ r.origin = some n ∨ ∀ id ∈ r.req, t.Spent id

instance (t : RequestTable) (n : Nat) (r : ControlReply) : Decidable (t.Fits n r) :=
  inferInstanceAs (Decidable (_ ∨ _ ∨ ∀ id ∈ r.req, t.Spent id))

/-- What holds of the table of transport `n`. -/
structure Sound (t : RequestTable) (n : Nat) : Prop where
  below : ∀ id, t.pending.get? id ≠ none → id < t.nextId
  slots : ∀ id slot, t.pending.get? id = some slot → ∀ r ∈ slot,
    r.origin = some n ∧ r.req = some id
  storing : ∀ id r, t.reader = .storing id r → r.origin = some n ∧ r.req = some id
  inbox : ∀ r ∈ t.inbox, t.Fits n r

/-- A reply that fits a spent number still does. -/
theorem Fits.mono {t t' : RequestTable} {n : Nat} {r : ControlReply} (h : t.Fits n r)
    (hspent : ∀ id, t.Spent id → t'.Spent id) : t'.Fits n r := by
  rcases h with h | h | h
  · exact .inl h
  · exact .inr (.inl h)
  · exact .inr (.inr fun id hid => hspent id (h id hid))

/-- A new request takes the next number. -/
theorem Sound.request {t : RequestTable} {n : Nat} (h : t.Sound n) : t.request.Sound n := by
  refine ⟨fun id hid => ?_, fun id slot hslot => ?_, h.storing, fun r hr => ?_⟩
  · by_cases heq : t.nextId = id
    · show id < t.nextId + 1
      omega
    · have hid : (t.pending.insert t.nextId []).get? id ≠ none := hid
      rw [Dict.get?_insert_of_ne _ _ heq] at hid
      exact Nat.lt_succ_of_lt (h.below id hid)
  · have hslot : (t.pending.insert t.nextId []).get? id = some slot := hslot
    by_cases heq : t.nextId = id
    · subst heq
      rw [Dict.get?_insert_self] at hslot
      obtain rfl := Option.some.inj hslot
      exact fun r hr => absurd hr List.not_mem_nil
    · rw [Dict.get?_insert_of_ne _ _ heq] at hslot
      exact h.slots id slot hslot
  · exact (h.inbox r hr).mono fun id hid => hid.request

/-- What is in the table still is as it was. -/
private theorem get?_cancelRequest {t : RequestTable} {k id : Nat}
    (h : (t.cancelRequest k).pending.get? id ≠ none) :
    (t.cancelRequest k).pending.get? id = t.pending.get? id := by
  unfold RequestTable.cancelRequest at h ⊢
  dsimp only at h ⊢
  rw [Dict.get?_erase] at h ⊢
  split
  · rename_i heq
    rw [if_pos heq] at h
    exact absurd rfl h
  · rfl

/-- One that is given up is not pending. -/
theorem Sound.cancelRequest {t : RequestTable} {n : Nat} (h : t.Sound n) (k : Nat) :
    (t.cancelRequest k).Sound n := by
  refine ⟨fun id hid => ?_, fun id slot hslot => ?_, h.storing, fun r hr => ?_⟩
  · exact h.below id (get?_cancelRequest hid ▸ hid)
  · rw [get?_cancelRequest (by rw [hslot]; exact Option.some_ne_none _)] at hslot
    exact h.slots id slot hslot
  · exact (h.inbox r hr).mono fun id hid => hid.cancelRequest k

/-- The reply in hand goes to its slot, if the slot is still in the table. -/
theorem Sound.store {t : RequestTable} {n id : Nat} {r : ControlReply} (h : t.Sound n)
    (hreader : t.reader = .storing id r) : (t.store id r).Sound n := by
  obtain ⟨horigin, hreq⟩ := h.storing id r hreader
  have hinbox : ∀ r' ∈ (t.store id r).inbox, (t.store id r).Fits n r' := fun r' hr' =>
    (h.inbox r' hr').mono fun _ hk => ⟨hk.1, store_none hk.2 id r⟩
  have hidle : ∀ k r', (t.store id r).reader = .storing k r' →
      r'.origin = some n ∧ r'.req = some k := by
    intro k r' hk
    cases hk
  -- the slot may have been taken out since the reply was found to fit
  cases hget : t.pending.get? id with
  | none =>
    have heq : (t.store id r).pending = t.pending := by simp [RequestTable.store, hget]
    exact ⟨heq ▸ h.below, heq ▸ h.slots, hidle, hinbox⟩
  | some slot =>
    have heq : (t.store id r).pending = t.pending.insert id (slot ++ [r]) := by
      simp [RequestTable.store, hget]
    refine ⟨fun k hk => ?_, fun k slot' hk => ?_, hidle, hinbox⟩
    · show k < t.nextId
      by_cases hid : id = k
      · subst hid
        apply h.below
        rw [hget]
        exact Option.some_ne_none _
      · rw [heq, Dict.get?_insert_of_ne _ _ hid] at hk
        exact h.below k hk
    · by_cases hid : id = k
      · subst hid
        rw [heq, Dict.get?_insert_self] at hk
        obtain rfl := Option.some.inj hk
        intro r' hr'
        rcases List.mem_append.mp hr' with hr' | hr'
        · exact h.slots id slot hget r' hr'
        · rw [List.mem_singleton.mp hr']
          exact ⟨horigin, hreq⟩
      · rw [heq, Dict.get?_insert_of_ne _ _ hid] at hk
        exact h.slots k slot' hk

/-- A reply is put to the request of its number, or dropped. -/
theorem Sound.read {t : RequestTable} {n : Nat} (h : t.Sound n) : t.read.Sound n := by
  rcases t.read_cases with heq | ⟨id, r, hreader, heq⟩ | ⟨r, inbox, hinbox, heq⟩
  · rw [heq]
    exact h
  · rw [heq]
    exact h.store hreader
  · have hrest : RequestTable.Sound { t with inbox := inbox } n :=
      ⟨h.below, h.slots, h.storing,
        fun r' hr' => h.inbox r' (by rw [hinbox]; exact List.mem_cons_of_mem _ hr')⟩
    rw [heq]
    rcases handleReply_cases { t with inbox := inbox } r with heq' | ⟨id, hpong, hreq, hfound, heq'⟩
    · rw [heq']
      exact hrest
    · rw [heq']
      refine ⟨hrest.below, hrest.slots, fun k r' hk => ?_, hrest.inbox⟩
      obtain ⟨rfl, rfl⟩ := ReplyPhase.storing.inj hk
      refine ⟨?_, hreq⟩
      rcases h.inbox r (by rw [hinbox]; exact List.mem_cons_self) with hfit | hfit | hfit
      · rw [hpong] at hfit
        cases hfit
      · exact hfit
      · -- a number that is spent is not in the table
        exact absurd (hfit id hreq).2 hfound

/-- Reading gives out no number. -/
private theorem read_nextId (t : RequestTable) : t.read.nextId = t.nextId := by
  rcases t.read_cases with heq | ⟨k, r, -, heq⟩ | ⟨r, inbox, -, heq⟩
  · rw [heq]
  · rw [heq]
    rfl
  · rw [heq]
    rcases handleReply_cases { t with inbox := inbox } r with heq' | ⟨k, -, -, -, heq'⟩
    · rw [heq']
    · rw [heq']

/-- A reply comes only to a request that is pending. -/
private theorem read_none {t : RequestTable} {id : Nat} (h : t.pending.get? id = none) :
    t.read.pending.get? id = none := by
  rcases t.read_cases with heq | ⟨k, r, -, heq⟩ | ⟨r, inbox, -, heq⟩
  · rw [heq]
    exact h
  · rw [heq]
    exact store_none h k r
  · rw [heq]
    rcases handleReply_cases { t with inbox := inbox } r with heq' | ⟨k, -, -, -, heq'⟩
    · rw [heq']
      exact h
    · rw [heq']
      exact h

end RequestTable

/-- The transport and the number that a call was about. -/
def RequestEvent.about : RequestEvent → Nat × Nat
  | cancelled t id => (t, id)
  | polled t id _ => (t, id)

namespace Requests

/-- What `poll_reply` returned is right. -/
structure Correlated (s : Requests) : Prop where
  /-- For each number it returned a reply once at most. -/
  once : Each (fun before e => ∀ t id r, e = .polled t id r → ∀ r', .polled t id r' ∉ before) s.log
  cancelled : Each (fun before e => ∀ t id r, e = .polled t id r → .cancelled t id ∉ before) s.log
  /-- The transport had sent a request with the number, and the reply is to that one. -/
  own : ∀ t id r, .polled t id r ∈ s.log →
    (t, id) ∈ s.sent ∧ r.origin = some t ∧ r.req = some id

/-- No reply that is not to a request of the transport itself is written to it, unless its
    number is of no use there any more. -/
def Clear (s : Requests) : Act → Prop
  | .write fails =>
    match s.queue, s.sink with
    | r :: _, some t => fails = true ∨ (s.table t).Fits t r
    | _, _ => True
  | _ => True

instance (s : Requests) (act : Act) : Decidable (s.Clear act) := by
  unfold Clear
  split
  · split <;> infer_instance
  · infer_instance

/-- What makes the steps keep `Correlated`. -/
structure Sound (s : Requests) : Prop where
  tables : ∀ t, (s.table t).Sound t
  sent : ∀ t id, (s.table t).pending.get? id ≠ none → (t, id) ∈ s.sent
  /-- What was cancelled or polled is final. -/
  closed : ∀ e ∈ s.log, (s.table e.about.1).Spent e.about.2
  fresh : Each (fun before e => ∀ t id r, e = .polled t id r →
    ∀ e' ∈ before, e'.about ≠ (t, id)) s.log
  own : ∀ t id r, .polled t id r ∈ s.log →
    (t, id) ∈ s.sent ∧ r.origin = some t ∧ r.req = some id

/-- What was returned is the reply to its own request. -/
private theorem Sound.correlated {s : Requests} (h : s.Sound) : s.Correlated where
  once := h.fresh.mono fun _ _ hfresh t id r he r' hr' =>
    hfresh t id r he (.polled t id r') hr' rfl
  cancelled := h.fresh.mono fun _ _ hfresh t id r he hmem =>
    hfresh t id r he (.cancelled t id) hmem rfl
  own := h.own

/-- One transport goes on, and may have sent another request. -/
theorem Sound.withTable {s : Requests} (h : s.Sound) {n : Nat} {table : RequestTable}
    {sent : List (Nat × Nat)} (htable : table.Sound n)
    (hspent : ∀ id, (s.table n).Spent id → table.Spent id)
    (hsent : ∀ id, table.pending.get? id ≠ none → (n, id) ∈ sent)
    (hsubset : ∀ p ∈ s.sent, p ∈ sent) :
    Sound { s.withTable n table with sent := sent } where
  tables t := by
    -- this transport, or another that stays as it is
    by_cases heq : t = n
    · subst heq
      show (Function.update s.table t table t).Sound t
      rw [Function.update_self]
      exact htable
    · show (Function.update s.table n table t).Sound t
      rw [Function.update_of_ne heq]
      exact h.tables t
  sent t id := by
    show (Function.update s.table n table t).pending.get? id ≠ none → (t, id) ∈ sent
    by_cases heq : t = n
    · subst heq
      rw [Function.update_self]
      exact hsent id
    · rw [Function.update_of_ne heq]
      exact fun hid => hsubset _ (h.sent t id hid)
  closed e he := by
    show (Function.update s.table n table e.about.1).Spent e.about.2
    by_cases heq : e.about.1 = n
    · rw [heq, Function.update_self]
      apply hspent
      rw [← heq]
      exact h.closed e he
    · rw [Function.update_of_ne heq]
      exact h.closed e he
  fresh := h.fresh
  own t id r hr := by
    obtain ⟨hmem, hown⟩ := h.own t id r hr
    exact ⟨hsubset _ hmem, hown⟩

/-- A call is logged that has closed its number. -/
theorem Sound.logged {s : Requests} (h : s.Sound) {e : RequestEvent}
    (hclosed : (s.table e.about.1).Spent e.about.2)
    (hfresh : ∀ t id r, e = .polled t id r → ∀ e' ∈ s.log, e'.about ≠ (t, id))
    (hown : ∀ t id r, e = .polled t id r →
      (t, id) ∈ s.sent ∧ r.origin = some t ∧ r.req = some id) :
    Sound { s with log := s.log ++ [e] } where
  tables := h.tables
  sent := h.sent
  closed e' he' := by
    rcases List.mem_append.mp he' with he' | he'
    · exact h.closed e' he'
    · rw [List.mem_singleton.mp he']
      exact hclosed
  fresh := h.fresh.concat hfresh
  own t id r hr := by
    rcases List.mem_append.mp hr with hr | hr
    · exact h.own t id r hr
    · exact hown t id r (List.mem_singleton.mp hr).symm

/-- A request that is done is taken off its table. -/
theorem Sound.finish {s : Requests} (h : s.Sound) (t id : Nat) :
    (s.withTable t ((s.table t).cancelRequest id)).Sound :=
  h.withTable ((h.tables t).cancelRequest id) (fun _ hk => hk.cancelRequest id)
    (fun k hk => h.sent t k (RequestTable.get?_cancelRequest hk ▸ hk)) (fun _ hp => hp)

/-- One that is given up too. -/
theorem Sound.cancel {s : Requests} (h : s.Sound) (t id : Nat) : (s.cancel t id).Sound := by
  unfold Requests.cancel
  split
  -- a number that was given out: from here on nothing comes under it
  · rename_i hlt
    apply (h.finish t id).logged
    · show (Function.update s.table t ((s.table t).cancelRequest id) t).Spent id
      rw [Function.update_self]
      exact RequestTable.spent_cancelRequest hlt
    · intro t' id' r he
      cases he
    · intro t' id' r he
      cases he
  · exact h

/-- A poll takes the reply if it is there. -/
theorem Sound.poll {s : Requests} (h : s.Sound) (t id : Nat) : (s.poll t id).Sound := by
  unfold Requests.poll RequestTable.polled
  cases hpoll : (s.table t).pollReply id with
  | none =>
    -- no reply yet, and nothing changes
    have hsame : s.withTable t (s.table t) = s := by
      unfold Requests.withTable
      rw [Function.update_eq_self]
    simp [hsame, h]
  | some r =>
    obtain ⟨slot, hslot, hhead⟩ := Option.bind_eq_some_iff.mp hpoll
    -- the slot has a reply, which the table says is to this request
    have hpending : (s.table t).pending.get? id ≠ none := by
      rw [hslot]
      exact Option.some_ne_none _
    apply (h.finish t id).logged
    · show (Function.update s.table t ((s.table t).cancelRequest id) t).Spent id
      rw [Function.update_self]
      exact RequestTable.spent_cancelRequest ((h.tables t).below id hpending)
    · intro t' id' r' he e' he' habout
      obtain ⟨rfl, rfl, rfl⟩ := RequestEvent.polled.inj he
      -- what the log has of this number has closed it
      have hclosed := h.closed e' he'
      rw [habout] at hclosed
      exact hpending hclosed.2
    · intro t' id' r' he
      obtain ⟨rfl, rfl, rfl⟩ := RequestEvent.polled.inj he
      exact ⟨h.sent t id hpending, (h.tables t).slots id slot hslot r (List.mem_of_head? hhead)⟩

/-- A request goes to the table of its connection. -/
theorem Sound.request {s : Requests} (h : s.Sound) (t : Nat) : (s.request t).Sound := by
  unfold Requests.request
  split
  · apply h.withTable (h.tables t).request
    · exact fun id hid => hid.request
    · intro id hid
      by_cases heq : (s.table t).nextId = id
      · rw [heq]
        exact List.mem_append_right _ (List.mem_singleton.mpr rfl)
      · apply List.mem_append_left
        apply h.sent
        have hid : ((s.table t).pending.insert (s.table t).nextId []).get? id ≠ none := hid
        rw [Dict.get?_insert_of_ne _ _ heq] at hid
        exact hid
    · exact fun p hp => List.mem_append_left _ hp
  · exact h

/-- The writer writes a reply to the addon. -/
theorem Sound.write {s : Requests} (h : s.Sound) {fails : Bool} (hclear : s.Clear (.write fails)) :
    (s.write fails).Sound := by
  unfold Requests.write
  unfold Clear at hclear
  split
  · rename_i r queue t hqueue hsink
    rw [hqueue, hsink] at hclear
    cases fails with
    -- the write fails: the frame is lost, and the sink with it
    | true => exact ⟨h.tables, h.sent, h.closed, h.fresh, h.own⟩
    | false =>
      -- the reply may come to the transport's inbox
      have hfits : (s.table t).Fits t r := hclear.resolve_left Bool.false_ne_true
      have htable : RequestTable.Sound
          { s.table t with inbox := (s.table t).inbox ++ [r] } t := by
        refine ⟨(h.tables t).below, (h.tables t).slots, (h.tables t).storing, fun r' hr' => ?_⟩
        rcases List.mem_append.mp hr' with hr' | hr'
        · exact (h.tables t).inbox r' hr'
        · rw [List.mem_singleton.mp hr']
          exact hfits
      have hwritten := h.withTable htable (fun _ hid => hid) (h.sent t) (fun _ hp => hp)
      exact ⟨hwritten.tables, hwritten.sent, hwritten.closed, hwritten.fresh, hwritten.own⟩
  · exact h

/-- Every action, with what it needs clear. -/
theorem Sound.step {s : Requests} (h : s.Sound) (act : Act) (hclear : s.Clear act) :
    (s.step act).Sound := by
  cases act with
  | attach => exact ⟨h.tables, h.sent, h.closed, h.fresh, h.own⟩
  | detach => exact ⟨h.tables, h.sent, h.closed, h.fresh, h.own⟩
  | request t => exact h.request t
  | finish t id => exact h.finish t id
  | cancel t id => exact h.cancel t id
  | poll t id => exact h.poll t id
  | answer t id pong =>
    show (s.answer t id pong).Sound
    unfold answer
    split
    · exact ⟨h.tables, h.sent, h.closed, h.fresh, h.own⟩
    · exact h
  | stray req pong => exact ⟨h.tables, h.sent, h.closed, h.fresh, h.own⟩
  | write fails => exact h.write hclear
  | read t =>
    apply h.withTable (h.tables t).read
    · exact fun id hid => ⟨(RequestTable.read_nextId _).symm ▸ hid.1, RequestTable.read_none hid.2⟩
    · exact fun id hid => h.sent t id fun hnone => hid (RequestTable.read_none hnone)
    · exact fun p hp => hp

/-- At the start nothing was asked. -/
theorem sound_start : Sound {} where
  tables _ :=
    { below := fun _ hid => absurd rfl hid
      slots := fun _ _ hslot => absurd hslot.symm (Option.some_ne_none _)
      storing := fun _ _ hreader => ReplyPhase.noConfusion hreader
      inbox := fun _ hr => absurd hr List.not_mem_nil }
  sent _ _ hid := absurd rfl hid
  closed _ he := absurd he List.not_mem_nil
  fresh := Each.nil
  own _ _ _ hr := absurd hr List.not_mem_nil

/-- As long as no reply to another's request is written to a transport under a number that is
    of use there, `poll_reply` returns what it should. -/
theorem run_correlated {acts : List Act} (h : Along step Clear {} acts) :
    (run acts).Correlated := by
  apply Sound.correlated
  exact h.invariant (I := Sound) (fun s act hs hact => hs.step act hact) sound_start

/-- A reply comes twice and late: after the first transport has polled the one and detached,
    and while the second waits for its own request. -/
theorem run_correlated_late :
    (run [.attach, .request 0, .request 0, .answer 0 1 false, .write false, .read 0, .read 0,
        .poll 0 1, .answer 0 1 false, .write false, .read 0, .poll 0 1, .detach, .attach,
        .request 1, .answer 1 1 false, .write false, .read 1, .read 1, .poll 1 1]).log =
        [.polled 0 1 ⟨false, some 1, some 0⟩, .polled 1 1 ⟨false, some 1, some 1⟩] ∧
      (run [.attach, .request 0, .request 0, .answer 0 1 false, .write false, .read 0, .read 0,
        .poll 0 1, .answer 0 1 false, .write false, .read 0, .poll 0 1, .detach, .attach,
        .request 1, .answer 1 1 false, .write false, .read 1, .read 1, .poll 1 1]).Correlated :=
  ⟨by decide, run_correlated (by decide)⟩

/-- The first transport detaches with its request 1 outstanding. The reply waits in the agent
    for the second one, which has a request 1 of its own. -/
theorem run_correlated_counterexample : ¬ ∀ acts, (run acts).Correlated := by
  intro hall
  have hown := (hall [.attach, .request 0, .detach, .answer 0 1 false, .attach, .request 1,
    .write false, .read 1, .read 1, .poll 1 1]).own 1 1 ⟨false, some 1, some 0⟩ (by decide)
  exact absurd hown.2.1 (by decide)

end Requests

end QCBridge
