import QCBridge.Spec.Flowing
import QCBridge.Spec.Bystanders

/-!
# Repairs that go on

A repair queue loses its head when the head was sent. Where nothing raises in an entry's
turn, and the transport takes everything, each tick takes as many entries off each queue
as it may, and says so of each of them.

## Key results

- `Host.drainFastResend_safe`, `Host.drainDelta_safe`: what a tick takes off the queues
-/

namespace QCBridge

variable {β V δ : Type}

/-- The note tells that `u` was re-asserted, with a snapshot or with a tombstone. -/
def Note.Reasserts (u : Uuid) : Note β V δ → Prop
  | .act (.t1 x _ _ full _) => x = u ∧ full = true
  | .act (.tomb x) => x = u
  | _ => False

/-- The note tells that the blob of `u` was sent again, that the replica holds it already,
    or that `u` is gone. -/
def Note.Resends (u : Uuid) : Note β V δ → Prop
  | .act (.cutT2 x _ _ _) | .act (.record x _ _) | .act (.tomb x) => x = u
  | _ => False

namespace Host

/-! ## What is said -/

/-- Something that `tells` was noted since the journal `j`. -/
def Said (tells : Note β V δ → Prop) (j : List (Note β V δ)) (h : Host β V δ) : Prop :=
  ∃ notes, h.journal = j ++ notes ∧ ∃ n ∈ notes, tells n

section Said

variable {tells : Note β V δ → Prop} {j : List (Note β V δ)} {h h' : Host β V δ}

theorem Said.move (hh : Said tells j h) (notes : List (Note β V δ))
    (hjournal : h'.journal = h.journal ++ notes) : Said tells j h' := by
  obtain ⟨old, heq, n, hn, htells⟩ := hh
  exact ⟨old ++ notes, by rw [hjournal, heq, List.append_assoc], n,
    List.mem_append_left _ hn, htells⟩

theorem Extends.refl (h : Host β V δ) : Extends h.journal h := ⟨[], (List.append_nil _).symm⟩

/-- What was said stays said. -/
theorem Said.later (hh : Said tells j h) (hext : Extends h.journal h') : Said tells j h' := by
  obtain ⟨notes, hjournal⟩ := hext
  exact hh.move notes hjournal

/-- A note that tells. -/
theorem Extends.said (hh : Extends j h) (n : Note β V δ)
    (hjournal : h'.journal = h.journal ++ [n]) (htells : tells n) : Said tells j h' := by
  obtain ⟨old, heq⟩ := hh
  exact ⟨old ++ [n], by rw [hjournal, heq, List.append_assoc], n,
    List.mem_append_right _ (List.mem_singleton_self n), htells⟩

theorem keeps_said (w : World β V) (tells : Note β V δ → Prop) (j : List (Note β V δ)) :
    Keeps w (Said tells j) where
  same {h h'} hh hcore := by
    apply hh.move []
    rw [journal_of_core hcore, List.append_nil]
  act _ hh := hh.move [_] rfl
  adopt _ hh := hh.move [] (List.append_nil _).symm
  requeued _ hh := hh.move [_] rfl
  tombBack _ hh := hh.move [_] rfl
  wantBoot _ hh := hh.move [_] rfl

end Said

/-! ## Loops over a queue -/

/-- A queue of the host, one of those that sending leaves alone. -/
structure Queue (β V δ ε : Type) where
  get : Host β V δ → List ε
  set : Host β V δ → List ε → Host β V δ
  set_get : ∀ h, set h (get h) = h
  set_set : ∀ h q q', set (set h q) q' = set h q'
  get_set : ∀ h q, get (set h q) = q
  get_frame : ∀ {h h'}, h'.frame = h.frame → get h' = get h
  set_frame : ∀ {h h'} q, h'.frame = h.frame → (set h' q).frame = (set h q).frame

/-- A loop that gives each of its turns to the head of a queue: as it goes where nothing
    raises, with what it returns, and in the form that may stop at what raises. -/
structure QueueLoop (β V δ ε α : Type) where
  queue : Queue β V δ ε
  run : Nat → Host β V δ → Host β V δ × α
  raising : Nat → Host β V δ → Attempt Uuid (Host β V δ) α
  raises : Host β V δ → List Uuid
  /-- What it returns when nothing was refused. -/
  left : Nat → List ε → α
  left_cons : ∀ n e rest, left (n + 1) (e :: rest) = left n rest
  run_stop : ∀ {n h}, n = 0 ∨ queue.get h = [] → run n h = (h, left n (queue.get h))
  raising_stop : ∀ {n h}, n = 0 ∨ queue.get h = [] →
    raising n h = .returned (h, left n (queue.get h))

namespace QueueLoop

variable {ε α : Type} (L : QueueLoop β V δ ε α) {tells : ε → Note β V δ → Prop}
  {bare : Host β V δ → ε → Prop}

/-- One turn, after which the loop goes on at `h'`: the head left the queue, and was told of
    unless it was bare. -/
structure Turn (tells : ε → Note β V δ → Prop) (bare : Host β V δ → ε → Prop) (e : ε)
    (rest : List ε) (h h' : Host β V δ) : Prop where
  run : ∀ n, L.run (n + 1) h = L.run n h'
  raising : ∀ n, L.raising (n + 1) h = L.raising n h'
  steady : Steady (L.queue.set h rest) h'
  later : ∀ {j}, Extends j h → Extends j h'
  said : ∀ {j}, Extends j h → Said (tells e) j h' ∨ bare h e

/-- Nothing raises in the next `n` turns. -/
def Safe (n : Nat) (h : Host β V δ) : Prop := ∀ i < n, L.raises (L.run i h).1 = []

/-- Every entry of the next `n` was told of, or was bare when its turn came. -/
def Told (tells : ε → Note β V δ → Prop) (bare : Host β V δ → ε → Prop) (n : Nat)
    (j : List (Note β V δ)) (h : Host β V δ) : Prop :=
  ∀ e ∈ (L.queue.get h).take n, Said (tells e) j (L.run n h).1 ∨
    ∃ i, (L.queue.get (L.run i h).1).head? = some e ∧ bare (L.run i h).1 e

variable {L}

/-- One turn more: the head was told of in it, the others in the turns after. -/
theorem Turn.told {e : ε} {rest : List ε} {h h' : Host β V δ} (ht : L.Turn tells bare e rest h h')
    (hqueue : L.queue.get h = e :: rest) (hqueue' : L.queue.get h' = rest) {n : Nat}
    {j : List (Note β V δ)} (hh : Extends j h)
    (hlater : ∀ {j}, Extends j h' → Extends j (L.run n h').1) (hrest : L.Told tells bare n j h') :
    L.Told tells bare (n + 1) j h := by
  intro x hx
  rw [hqueue, List.take_succ_cons] at hx
  rw [ht.run]
  rcases List.mem_cons.mp hx with rfl | hx
  · rcases ht.said hh with hsaid | hbare
    · exact .inl (hsaid.later (hlater (.refl h')))
    · -- bare in the turn at hand
      refine .inr ⟨0, ?_, ?_⟩
      · rw [L.run_stop (.inl rfl), hqueue, List.head?_cons]
      · rw [L.run_stop (.inl rfl)]
        exact hbare
  · rw [← hqueue'] at hx
    apply (hrest x hx).imp_right
    rintro ⟨i, hhead, hbare⟩
    rw [← ht.run] at hhead hbare
    exact ⟨i + 1, hhead, hbare⟩

variable (L)

/-- Where each turn takes the head off, `n` turns take the first `n` entries. -/
theorem takes (hturn : ∀ {h e rest}, h.Clear → L.queue.get h = e :: rest → L.raises h = [] →
      ∃ h', L.Turn tells bare e rest h h')
    (n : Nat) {h : Host β V δ} (hclear : h.Clear) (hsafe : L.Safe n h) :
    L.raising n h = .returned (L.run n h) ∧
      (L.run n h).2 = L.left n (L.queue.get h) ∧
      Steady (L.queue.set h ((L.queue.get h).drop n)) (L.run n h).1 ∧
      ∀ {j}, Extends j h → Extends j (L.run n h).1 ∧ L.Told tells bare n j h := by
  -- where the loop stops, nothing is taken and nothing is said
  have hstop : ∀ {n h}, h.Clear → n = 0 ∨ L.queue.get h = [] →
      L.raising n h = .returned (L.run n h) ∧
        (L.run n h).2 = L.left n (L.queue.get h) ∧
        Steady (L.queue.set h ((L.queue.get h).drop n)) (L.run n h).1 ∧
        ∀ {j}, Extends j h → Extends j (L.run n h).1 ∧ L.Told tells bare n j h := by
    intro n h hclear hend
    have hall : (L.queue.get h).take n = [] ∧ (L.queue.get h).drop n = L.queue.get h := by
      rcases hend with rfl | hnil
      · exact ⟨rfl, rfl⟩
      · rw [hnil]
        exact ⟨List.take_nil, List.drop_nil⟩
    have hrun := L.run_stop hend
    refine ⟨by rw [L.raising_stop hend, hrun], by rw [hrun], ?_, fun {j} hh => ?_⟩
    · rw [hrun, hall.2, L.queue.set_get]
      exact hclear.steady
    · refine ⟨by rw [hrun]; exact hh, fun e he => ?_⟩
      rw [hall.1] at he
      cases he
  -- the induction is on the turns that are left
  induction n generalizing h with
  | zero => exact hstop hclear (.inl rfl)
  | succ n ih =>
    cases hqueue : L.queue.get h with
    | nil =>
      rw [← hqueue]
      exact hstop hclear (.inr hqueue)
    | cons e rest =>
      -- the entry at the head has its turn
      have hhead := hsafe 0 (Nat.succ_pos n)
      rw [L.run_stop (.inl rfl)] at hhead
      obtain ⟨h', ht⟩ := hturn hclear hqueue hhead
      -- what may raise after it was safe before it
      have hsafe' : L.Safe n h' := by
        intro i hi
        rw [← ht.run]
        exact hsafe (i + 1) (by omega)
      have hqueue' : L.queue.get h' = rest := by
        rw [L.queue.get_frame ht.steady.frame, L.queue.get_set]
      obtain ⟨hraising, hleft, hsteady, hsaid⟩ := ih ht.steady.clear hsafe'
      refine ⟨?_, ?_, ⟨?_, ?_⟩, fun {j} hh => ?_⟩
      · rw [ht.raising, ht.run, hraising]
      · rw [ht.run, hleft, hqueue', L.left_cons]
      · rw [ht.run, hsteady.frame, hqueue', L.queue.set_frame _ ht.steady.frame, L.queue.set_set,
          List.drop_succ_cons]
      · rw [ht.run]
        exact hsteady.clear
      · -- what it says is later than what came before, and so is the rest
        obtain ⟨hext, htold⟩ := hsaid (ht.later hh)
        rw [ht.run]
        exact ⟨hext, ht.told hqueue hqueue' hh (fun hh => (hsaid hh).1) htold⟩

end QueueLoop

/-! ## One entry -/

/-- The re-assert of a datablock has nothing to say: no value of it can travel. -/
def Bare (w : World β V) (h : Host β V δ) (u : Uuid) : Prop :=
  match h.db w u with
  | none => False
  | some db => sendable ((h.shadow.get? u).getD db.snapshot) = []

/-- The resend of a datablock has nothing to say: it has no blob. -/
def Blobless (w : World β V) (h : Host β V δ) (u : Uuid) : Prop :=
  match h.db w u with
  | none => False
  | some db => db.blend = none

section Accepted

variable {w : World β V} (hacc : w.Accepting)
include hacc

private theorem said_sendTombstone (tells : Note β V δ → Prop) {u : Uuid}
    (htells : tells (.act (.tomb u))) {j : List (Note β V δ)} {h : Host β V δ}
    (hh : Extends j h) :
    Said tells j (h.sendTombstone w u).1 := by
  unfold Host.sendTombstone
  rw [send_accepted hacc]
  exact hh.said (.act (.tomb u)) rfl htells

section Flush

variable [BEq V] [DecidableEq δ] (H : Digests β V δ)

/-- A tier-1 message leaves. -/
private theorem sendT1_accepted {h : Host β V δ} (hclear : h.Clear) (u : Uuid)
    (changes : List (Path × V)) (old : Option (Dict Path V)) (full : Bool) :
    (h.sendT1 H w u changes old full).2 = true ∧ Steady h (h.sendT1 H w u changes old full).1 ∧
      (changes ≠ [] → ∀ {j}, Extends j h →
        Said (fun n => ∃ changes targets sd, n = .act (.t1 u changes targets full sd)) j
          (h.sendT1 H w u changes old full).1) := by
  unfold Host.sendT1
  split
  · rename_i hnil
    exact ⟨rfl, hclear.steady, fun hne => absurd hnil hne⟩
  · obtain ⟨hsteady, hsettled⟩ :=
      hclear.settleTargets hacc {} H (settersFirst changes) []
    rw [Raising.settleTargets_eq H _ h [] (Raising.eq_nil_of_quiet (F := {}) (fun _ => rfl)
      fun _ hx => World.raises_of_mem_targetRaises hx)] at hsteady hsettled
    have hsettle := fun {j} (hh : Extends j h) =>
      (keeps_extends w j).settleTargets H (settersFirst changes) [] hh
    dsimp only
    generalize Host.settleTargets H w (settersFirst changes) h [] = r at hsteady hsettled hsettle
    obtain ⟨h', _ | targets⟩ := r
    · -- no target waits in the outbox, which is empty
      exact absurd rfl hsettled
    · dsimp only
      rw [send_accepted hacc]
      refine ⟨rfl, hsteady.same rfl rfl, fun _ j hh => ?_⟩
      exact Extends.said (hsettle hh)
        (.act (.t1 u (settersFirst changes) targets full (h'.sd w u))) rfl ⟨_, _, _, rfl⟩

/-- A re-assert leaves. -/
private theorem sendT1Full_accepted {h : Host β V δ} (hclear : h.Clear) (u : Uuid) :
    (h.sendT1Full H w u).2 = true ∧ Steady h (h.sendT1Full H w u).1 ∧
      ∀ {j}, Extends j h → Said (Note.Reasserts u) j (h.sendT1Full H w u).1 ∨ Bare w h u := by
  have htells : ∀ {j : List (Note β V δ)} {h' : Host β V δ}, Said (fun n => ∃ changes targets sd,
      n = .act (.t1 u changes targets true sd)) j h' → Said (Note.Reasserts u) j h' := by
    rintro j h' ⟨notes, hjournal, n, hn, _, _, _, rfl⟩
    exact ⟨notes, hjournal, _, hn, rfl, rfl⟩
  unfold Host.sendT1Full Bare
  cases h.db w u with
  | none =>
    -- gone since: a tombstone is what there is to say
    obtain ⟨hok, hsteady⟩ := hclear.sendTombstone hacc u
    exact ⟨hok, hsteady, fun hh => .inl (said_sendTombstone hacc (Note.Reasserts u) rfl hh)⟩
  | some db =>
    dsimp only
    cases h.shadow.get? u with
    | some shadow =>
      obtain ⟨hok, hsteady, hsaid⟩ := sendT1_accepted hacc H hclear u (sendable shadow) none true
      refine ⟨hok, hsteady, fun hh => ?_⟩
      by_cases hbare : sendable shadow = []
      · exact .inr hbare
      · exact .inl (htells (hsaid hbare hh))
    | none =>
      -- without a shadow the state as it is now becomes the shadow
      have hseen := hclear.observe u db.snapshot
      obtain ⟨hok, hsteady, hsaid⟩ :=
        sendT1_accepted hacc H hseen.clear u (sendable db.snapshot) none true
      refine ⟨hok, hsteady.trans hseen, fun {j} hh => ?_⟩
      by_cases hbare : sendable db.snapshot = []
      · exact .inr hbare
      · exact .inl (htells (hsaid hbare ((keeps_extends w j).same hh rfl)))

omit [BEq V] in
/-- A resend leaves. -/
private theorem resendT2_accepted {h : Host β V δ} (hclear : h.Clear) (u : Uuid)
    (expect : Option δ) :
    (h.resendT2 H w u expect).2 = true ∧ Steady h (h.resendT2 H w u expect).1 ∧
      ∀ {j}, Extends j h →
        Said (Note.Resends u) j (h.resendT2 H w u expect).1 ∨ Blobless w h u := by
  unfold Host.resendT2 Blobless
  cases h.db w u with
  | none =>
    -- gone since
    obtain ⟨hok, hsteady⟩ := hclear.sendTombstone hacc u
    exact ⟨hok, hsteady, fun hh => .inl (said_sendTombstone hacc (Note.Resends u) rfl hh)⟩
  | some db =>
    dsimp only
    cases db.blend with
    | none => exact ⟨rfl, hclear.steady, fun _ => .inr rfl⟩
    | some data =>
      dsimp only
      split
      · -- the replica holds these bytes
        exact ⟨rfl, hclear.steady.same rfl rfl,
          fun hh => .inl (hh.said (.act (.record u data _)) rfl rfl)⟩
      · -- cut, and every chunk leaves at once
        refine ⟨rfl, hclear.cutT2 hacc u _ _ _, fun {j} hh => .inl ?_⟩
        apply (keeps_said w _ j).drainT2Outbox
        exact hh.said (.act (.cutT2 u data _ false)) rfl rfl

/-! ## The re-assert -/

variable (F : Faults)

omit [BEq V] [DecidableEq δ] hacc in
/-- The datablocks that raise in the turn of the head of the re-assert. -/
def fastRaises (F : Faults) (w : World β V) (h : Host β V δ) : List Uuid :=
  match h.fastResendQueue with
  | [] => []
  | (u, kind) :: _ => if kind = .tomb then [] else Raising.fullRaises F w h u

/-- Nothing raises in the turns of the next `n` entries of the re-assert. -/
def FastSafe (F : Faults) (H : Digests β V δ) (w : World β V) (n : Nat) (h : Host β V δ) : Prop :=
  ∀ i < n, fastRaises F w (fastResendLoop H w i h) = []

omit [BEq V] [DecidableEq δ] hacc in
/-- The re-assert queue. -/
def fastQueue : Queue β V δ (Uuid × Kind) where
  get h := h.fastResendQueue
  set h q := { h with fastResendQueue := q }
  set_get _ := rfl
  set_set _ _ _ := rfl
  get_set _ _ := rfl
  get_frame := fastResendQueue_of_frame
  set_frame q heq := by
    simp only [frame, Prod.mk.injEq] at heq
    simp only [frame, heq]

omit hacc in
/-- The loop of the re-assert. -/
def fastLoop (F : Faults) (H : Digests β V δ) (w : World β V) :
    QueueLoop β V δ (Uuid × Kind) Unit where
  queue := fastQueue
  run n h := (fastResendLoop H w n h, ())
  raising := Raising.fastResendLoop F H w
  raises := fastRaises F w
  left _ _ := ()
  left_cons _ _ _ := rfl
  run_stop {n h} hstop := by
    cases n with
    | zero => rfl
    | succ n =>
      have hnil : h.fastResendQueue = [] := hstop.resolve_left (Nat.succ_ne_zero n)
      rw [fastResendLoop, hnil]
  raising_stop {n h} hstop := by
    cases n with
    | zero => rfl
    | succ n =>
      have hnil : h.fastResendQueue = [] := hstop.resolve_left (Nat.succ_ne_zero n)
      rw [Raising.fastResendLoop, hnil]
      rfl

/-- What is sent in the turn of an entry of the re-assert leaves. -/
private theorem fastSend_accepted {h : Host β V δ} (hclear : h.Clear) (u : Uuid) (kind : Kind)
    (hsafe : kind ≠ .tomb → Raising.fullRaises F w h u = []) :
    ∃ h₁, (if kind = .tomb then h.sendTombstone w u else h.sendT1Full H w u) = (h₁, true) ∧
      (if kind = .tomb then ((h.sendTombstone w u).1, .ok (h.sendTombstone w u).2)
        else Raising.sendT1Full F H w h u) = (h₁, .ok true) ∧
      Steady h h₁ ∧ (∀ {j}, Extends j h → Extends j h₁) ∧
      ∀ {j}, Extends j h → Said (Note.Reasserts u) j h₁ ∨ kind ≠ .tomb ∧ Bare w h u := by
  -- a tombstone raises nothing and leaves
  by_cases hkind : kind = .tomb
  · obtain ⟨hok, hsteady⟩ := hclear.sendTombstone hacc u
    have hpair : h.sendTombstone w u = ((h.sendTombstone w u).1, true) := Prod.ext rfl hok
    refine ⟨(h.sendTombstone w u).1, ?_, ?_, hsteady,
      fun {j} hh => (keeps_extends w j).sendTombstone u hh,
      fun hh => .inl (said_sendTombstone hacc (Note.Reasserts u) rfl hh)⟩
    · rw [if_pos hkind]
      exact hpair
    · rw [if_pos hkind, hok]
  · -- the datablock in full, which does not raise here, leaves
    obtain ⟨hok, hsteady, hsaid⟩ := sendT1Full_accepted hacc H hclear u
    have hpair : h.sendT1Full H w u = ((h.sendT1Full H w u).1, true) := Prod.ext rfl hok
    refine ⟨(h.sendT1Full H w u).1, ?_, ?_, hsteady,
      fun {j} hh => (keeps_extends w j).sendT1Full H u hh,
      fun hh => (hsaid hh).imp_right fun hbare => ⟨hkind, hbare⟩⟩
    · rw [if_neg hkind]
      exact hpair
    · rw [if_neg hkind, Raising.sendT1Full_eq H h (hsafe hkind), hpair]
      rfl

/-- One entry of the re-assert leaves. -/
private theorem fastEntry_safe {h : Host β V δ} {e : Uuid × Kind} {rest : List (Uuid × Kind)}
    (hclear : h.Clear) (hqueue : h.fastResendQueue = e :: rest)
    (hsafe : fastRaises F w h = []) :
    ∃ h', (fastLoop F H w).Turn (fun e => Note.Reasserts e.1)
      (fun h e => e.2 ≠ .tomb ∧ Bare w h e.1) e rest h h' := by
  obtain ⟨u, kind⟩ := e
  have hfull : kind ≠ .tomb → Raising.fullRaises F w h u = [] := by
    intro hkind
    unfold fastRaises at hsafe
    rw [hqueue] at hsafe
    exact (if_neg hkind).symm.trans hsafe
  obtain ⟨h₁, htotal, hraising, hsteady, hlater, hsaid⟩ :=
    fastSend_accepted hacc H F hclear u kind hfull
  have hframe := hsteady.frame
  simp only [frame, Prod.mk.injEq] at hframe
  -- the entry leaves the queue once it was sent
  refine ⟨{ h₁ with fastResendQueue := h₁.fastResendQueue.tail }.note
    (.reasserted u (decide (kind = Kind.tomb) || (h.db w u).isNone) (w.dbs.get? u).isSome
      ((h.shadow.get? u).or ((h.db w u).map Datablock.snapshot))),
    fun n => ?_, fun n => ?_, ⟨?_, hsteady.clear⟩, fun hh => (hlater hh).move [_] rfl,
    fun hh => (hsaid hh).imp_left fun hsaid => hsaid.move [_] rfl⟩
  · show (fastResendLoop H w (n + 1) h, ()) = _
    rw [fastResendLoop, hqueue]
    dsimp only
    rw [htotal]
    rfl
  · show Raising.fastResendLoop F H w (n + 1) h = _
    rw [Raising.fastResendLoop, hqueue]
    dsimp only
    rw [hraising, Attempt.andThen_ok, if_pos rfl]
    rfl
  · simp only [fastLoop, fastQueue, frame, note, hframe, hqueue, List.tail_cons]

/-- The next `n` entries of the re-assert leave, each in its turn. -/
private theorem fastResendLoop_safe (n : Nat) {h : Host β V δ} (hclear : h.Clear)
    (hsafe : FastSafe F H w n h) :
    Raising.fastResendLoop F H w n h = (fastResendLoop H w n h, .ok ()) ∧
      Steady { h with fastResendQueue := h.fastResendQueue.drop n } (fastResendLoop H w n h) ∧
      ∀ {j}, Extends j h → Extends j (fastResendLoop H w n h) ∧
        ∀ e ∈ h.fastResendQueue.take n, Said (Note.Reasserts e.1) j (fastResendLoop H w n h) ∨
          e.2 ≠ .tomb ∧ ∃ i, (fastResendLoop H w i h).fastResendQueue.head? = some e ∧
            Bare w (fastResendLoop H w i h) e.1 := by
  obtain ⟨hraising, -, hsteady, hsaid⟩ :=
    (fastLoop F H w).takes (fastEntry_safe hacc H F) n hclear hsafe
  refine ⟨hraising, hsteady, fun hh => ⟨(hsaid hh).1, fun e he => ?_⟩⟩
  apply ((hsaid hh).2 e he).imp_right
  rintro ⟨i, hhead, hkind, hbare⟩
  exact ⟨hkind, i, hhead, hbare⟩

omit [BEq V] [DecidableEq δ] hacc in
/-- The re-assert queue when a tick is done with it. -/
def fastDone (h : Host β V δ) : Host β V δ :=
  { h with
    fastResendQueue := h.fastResendQueue.drop fastResendPerTick
    fastResendEnd := h.fastResendEnd && !(h.fastResendQueue.drop fastResendPerTick).isEmpty }

/-- The re-assert of a tick, and its end once the queue is empty. -/
theorem drainFastResend_safe {h : Host β V δ} (hclear : h.Clear)
    (hsafe : FastSafe F H w fastResendPerTick h) :
    Raising.drainFastResend F H w h = (h.drainFastResend H w, .ok ()) ∧
      Steady (fastDone h) (h.drainFastResend H w) ∧
      ∀ {j}, Extends j h → Extends j (h.drainFastResend H w) ∧
        (∀ e ∈ h.fastResendQueue.take fastResendPerTick,
          Said (Note.Reasserts e.1) j (h.drainFastResend H w) ∨
            e.2 ≠ .tomb ∧ ∃ i, (fastResendLoop H w i h).fastResendQueue.head? = some e ∧
              Bare w (fastResendLoop H w i h) e.1) ∧
        (h.fastResendEnd = true → (fastDone h).fastResendEnd = false →
          Said (· = .act .endFast) j (h.drainFastResend H w)) := by
  obtain ⟨heq, hsteady, hsaid⟩ := fastResendLoop_safe hacc H F fastResendPerTick hclear hsafe
  unfold Raising.drainFastResend Host.drainFastResend
  rw [heq, Attempt.andThen_ok]
  have hframe := hsteady.frame
  simp only [frame, Prod.mk.injEq] at hframe
  generalize fastResendLoop H w fastResendPerTick h = h₁ at hsteady hsaid hframe
  have hqueue : h₁.fastResendQueue = h.fastResendQueue.drop fastResendPerTick :=
    fastResendQueue_of_frame hsteady.frame
  have hflag : h₁.fastResendEnd = h.fastResendEnd := (fastResendEnd_of_frame hsteady.frame :)
  dsimp only
  rw [send_accepted hacc]
  dsimp only
  split
  · rename_i hend
    -- the queue is empty, and its end leaves too
    rw [hqueue, hflag] at hend
    refine ⟨rfl, ⟨?_, hsteady.clear⟩, fun {j} hh => ?_⟩
    · simp only [frame, act, fastDone, hframe, hend, List.isEmpty_nil]
      rfl
    · obtain ⟨hext, hall⟩ := hsaid hh
      refine ⟨hext.move [.act .endFast] rfl, fun e he => ?_, fun _ _ => ?_⟩
      · exact (hall e he).imp_left fun hsaid => hsaid.move [.act .endFast] rfl
      · exact hext.said (.act .endFast) rfl rfl
  · rename_i hend
    -- entries are left, or the end is not owed
    rw [hqueue, hflag] at hend
    have hkeep : (h.fastResendEnd && !(h.fastResendQueue.drop fastResendPerTick).isEmpty) =
        h.fastResendEnd := by
      cases hflag : h.fastResendEnd with
      | false => rfl
      | true =>
        rw [Bool.true_and, Bool.not_eq_true', List.isEmpty_eq_false_iff]
        exact fun hnil => hend ⟨hnil, hflag⟩
    refine ⟨rfl, ⟨?_, hsteady.clear⟩, fun {j} hh => ?_⟩
    · simp only [frame, fastDone, hframe, hkeep]
    · obtain ⟨hext, hall⟩ := hsaid hh
      refine ⟨hext, hall, fun hflag hdone => ?_⟩
      unfold fastDone at hdone
      rw [hkeep, hflag] at hdone
      cases hdone

/-! ## The delta -/

omit [BEq V] [DecidableEq δ] hacc in
/-- The datablocks that raise in the turn of the head of the delta. -/
def deltaRaises (F : Faults) (w : World β V) (h : Host β V δ) : List Uuid :=
  match h.deltaQueue with
  | [] => []
  | (u, _) :: _ => Raising.resendRaises F w h u

omit [BEq V] [DecidableEq δ] hacc in
/-- The datablocks that raise in the turn of the head of the delta's re-asserts. -/
def tailRaises (F : Faults) (w : World β V) (h : Host β V δ) : List Uuid :=
  match h.deltaTail with
  | [] => []
  | u :: _ => Raising.fullRaises F w h u

omit [BEq V] in
/-- Nothing raises in the turns of the next `n` blobs of the delta. -/
def BlobsSafe (F : Faults) (H : Digests β V δ) (w : World β V) (n : Nat) (h : Host β V δ) :
    Prop :=
  ∀ i < n, deltaRaises F w (deltaBlobs H w i h).1 = []

/-- Nothing raises in the turns of the next `n` re-asserts of the delta. -/
def TailSafe (F : Faults) (H : Digests β V δ) (w : World β V) (n : Nat) (h : Host β V δ) :
    Prop :=
  ∀ i < n, tailRaises F w (deltaReasserts H w i h).1 = []

omit [BEq V] [DecidableEq δ] hacc in
/-- The queue of the delta's blobs. -/
def blobQueue : Queue β V δ (Uuid × Option δ) where
  get h := h.deltaQueue
  set h q := { h with deltaQueue := q }
  set_get _ := rfl
  set_set _ _ _ := rfl
  get_set _ _ := rfl
  get_frame := deltaQueue_of_frame
  set_frame q heq := by
    simp only [frame, Prod.mk.injEq] at heq
    simp only [frame, heq]

omit [BEq V] hacc in
/-- The loop over the delta's blobs, which returns the budget left. -/
def blobLoop (F : Faults) (H : Digests β V δ) (w : World β V) :
    QueueLoop β V δ (Uuid × Option δ) (Option Nat) where
  queue := blobQueue
  run := deltaBlobs H w
  raising := Raising.deltaBlobs F H w
  raises := deltaRaises F w
  left n q := some (n - q.length)
  left_cons n e rest := by
    rw [List.length_cons, Nat.add_sub_add_right]
  run_stop {n h} hstop := by
    cases n with
    | zero =>
      rw [Nat.zero_sub]
      rfl
    | succ n =>
      have hnil : h.deltaQueue = [] := hstop.resolve_left (Nat.succ_ne_zero n)
      rw [deltaBlobs, hnil]
      simp only [blobQueue, hnil, List.length_nil, Nat.sub_zero]
  raising_stop {n h} hstop := by
    cases n with
    | zero =>
      rw [Nat.zero_sub]
      rfl
    | succ n =>
      have hnil : h.deltaQueue = [] := hstop.resolve_left (Nat.succ_ne_zero n)
      rw [Raising.deltaBlobs, hnil]
      simp only [blobQueue, hnil, List.length_nil, Nat.sub_zero, Attempt.returned_mk]

omit [BEq V] in
/-- One blob of the delta leaves. -/
private theorem blobEntry_safe {h : Host β V δ} {e : Uuid × Option δ}
    {rest : List (Uuid × Option δ)}
    (hclear : h.Clear) (hqueue : h.deltaQueue = e :: rest) (hsafe : deltaRaises F w h = []) :
    ∃ h', (blobLoop F H w).Turn (fun e => Note.Resends e.1) (fun h e => Blobless w h e.1)
      e rest h h' := by
  obtain ⟨u, expect⟩ := e
  unfold deltaRaises at hsafe
  rw [hqueue] at hsafe
  obtain ⟨hok, hsteady, hsaid⟩ := resendT2_accepted hacc H hclear u expect
  have hpair : h.resendT2 H w u expect = ((h.resendT2 H w u expect).1, true) := Prod.ext rfl hok
  have hlater := fun {j} (hh : Extends j h) => (keeps_extends w j).resendT2 H u expect hh
  have hraising := Raising.resendT2_eq H h expect hsafe
  rw [hpair] at hraising
  generalize (h.resendT2 H w u expect).1 = h₁ at hsteady hsaid hpair hlater hraising
  have hframe := hsteady.frame
  simp only [frame, Prod.mk.injEq] at hframe
  -- the blob leaves the queue once it was taken
  refine ⟨{ h₁ with deltaQueue := h₁.deltaQueue.tail }, fun n => ?_, fun n => ?_,
    ⟨?_, hsteady.clear⟩, fun hh => (hlater hh).move [] (List.append_nil _).symm,
    fun hh => (hsaid hh).imp_left fun hsaid => hsaid.move [] (List.append_nil _).symm⟩
  · show deltaBlobs H w (n + 1) h = _
    rw [deltaBlobs, hqueue]
    dsimp only
    rw [hpair]
    rfl
  · show Raising.deltaBlobs F H w (n + 1) h = _
    rw [Raising.deltaBlobs, hqueue]
    dsimp only
    rw [hraising, Attempt.andThen_returned, if_pos rfl]
    rfl
  · simp only [blobLoop, blobQueue, frame, hframe, hqueue, List.tail_cons]

omit [BEq V] in
/-- The next `n` blobs of the delta leave, each in its turn. -/
private theorem deltaBlobs_safe (n : Nat) {h : Host β V δ} (hclear : h.Clear)
    (hsafe : BlobsSafe F H w n h) :
    Raising.deltaBlobs F H w n h = .returned (deltaBlobs H w n h) ∧
      (deltaBlobs H w n h).2 = some (n - h.deltaQueue.length) ∧
      Steady { h with deltaQueue := h.deltaQueue.drop n } (deltaBlobs H w n h).1 ∧
      ∀ {j}, Extends j h → Extends j (deltaBlobs H w n h).1 ∧
        ∀ e ∈ h.deltaQueue.take n, Said (Note.Resends e.1) j (deltaBlobs H w n h).1 ∨
          ∃ i, (deltaBlobs H w i h).1.deltaQueue.head? = some e ∧
            Blobless w (deltaBlobs H w i h).1 e.1 :=
  (blobLoop F H w).takes (blobEntry_safe hacc H F) n hclear hsafe

omit [BEq V] [DecidableEq δ] hacc in
/-- The queue of the delta's re-asserts. -/
def tailQueue : Queue β V δ Uuid where
  get h := h.deltaTail
  set h q := { h with deltaTail := q }
  set_get _ := rfl
  set_set _ _ _ := rfl
  get_set _ _ := rfl
  get_frame := deltaTail_of_frame
  set_frame q heq := by
    simp only [frame, Prod.mk.injEq] at heq
    simp only [frame, heq]

omit hacc in
/-- The loop over the delta's re-asserts. -/
def tailLoop (F : Faults) (H : Digests β V δ) (w : World β V) : QueueLoop β V δ Uuid Bool where
  queue := tailQueue
  run := deltaReasserts H w
  raising := Raising.deltaReasserts F H w
  raises := tailRaises F w
  left _ _ := true
  left_cons _ _ _ := rfl
  run_stop {n h} hstop := by
    cases n with
    | zero => rfl
    | succ n =>
      have hnil : h.deltaTail = [] := hstop.resolve_left (Nat.succ_ne_zero n)
      rw [deltaReasserts, hnil]
  raising_stop {n h} hstop := by
    cases n with
    | zero => rfl
    | succ n =>
      have hnil : h.deltaTail = [] := hstop.resolve_left (Nat.succ_ne_zero n)
      rw [Raising.deltaReasserts, hnil]
      rfl

/-- One re-assert of the delta leaves. -/
private theorem tailEntry_safe {h : Host β V δ} {u : Uuid} {rest : List Uuid} (hclear : h.Clear)
    (hqueue : h.deltaTail = u :: rest) (hsafe : tailRaises F w h = []) :
    ∃ h', (tailLoop F H w).Turn Note.Reasserts (Bare w) u rest h h' := by
  unfold tailRaises at hsafe
  rw [hqueue] at hsafe
  obtain ⟨hok, hsteady, hsaid⟩ := sendT1Full_accepted hacc H hclear u
  have hpair : h.sendT1Full H w u = ((h.sendT1Full H w u).1, true) := Prod.ext rfl hok
  -- it is sent while nothing raises
  have hlater := fun {j} (hh : Extends j h) => (keeps_extends w j).sendT1Full H u hh
  have hraising := Raising.sendT1Full_eq H h hsafe
  rw [hpair] at hraising
  generalize (h.sendT1Full H w u).1 = h₁ at hsteady hsaid hpair hlater hraising
  have hframe := hsteady.frame
  simp only [frame, Prod.mk.injEq] at hframe
  refine ⟨{ h₁ with deltaTail := h₁.deltaTail.tail }, fun n => ?_, fun n => ?_,
    ⟨?_, hsteady.clear⟩, fun hh => (hlater hh).move [] (List.append_nil _).symm,
    fun hh => (hsaid hh).imp_left fun hsaid => hsaid.move [] (List.append_nil _).symm⟩
  · -- the turn of the quiet loop
    show deltaReasserts H w (n + 1) h = _
    rw [deltaReasserts, hqueue]
    dsimp only
    rw [hpair]
    rfl
  · -- the turn of the loop that may raise
    show Raising.deltaReasserts F H w (n + 1) h = _
    rw [Raising.deltaReasserts, hqueue]
    dsimp only
    rw [hraising, Attempt.andThen_returned, if_pos rfl]
    rfl
  · -- the rest of the queue
    simp only [tailLoop, tailQueue, frame, hframe, hqueue, List.tail_cons]

/-- The next `n` re-asserts of the delta leave, each in its turn. -/
private theorem deltaReasserts_safe (n : Nat) {h : Host β V δ} (hclear : h.Clear)
    (hsafe : TailSafe F H w n h) :
    Raising.deltaReasserts F H w n h = .returned (deltaReasserts H w n h) ∧
      (deltaReasserts H w n h).2 = true ∧
      Steady { h with deltaTail := h.deltaTail.drop n } (deltaReasserts H w n h).1 ∧
      ∀ {j}, Extends j h → Extends j (deltaReasserts H w n h).1 ∧
        ∀ u ∈ h.deltaTail.take n, Said (Note.Reasserts u) j (deltaReasserts H w n h).1 ∨
          ∃ i, (deltaReasserts H w i h).1.deltaTail.head? = some u ∧
            Bare w (deltaReasserts H w i h).1 u :=
  (tailLoop F H w).takes (tailEntry_safe hacc H F) n hclear hsafe

omit [BEq V] [DecidableEq δ] hacc in
/-- The delta's queues when a tick is done with them. -/
def deltaDone (h : Host β V δ) : Host β V δ :=
  { h with
    deltaQueue := h.deltaQueue.drop deltaPerTick
    deltaTail := h.deltaTail.drop (deltaPerTick - h.deltaQueue.length)
    deltaEndPending := h.deltaEndPending &&
      !((h.deltaQueue.drop deltaPerTick).isEmpty &&
        (h.deltaTail.drop (deltaPerTick - h.deltaQueue.length)).isEmpty) }

/-- The host when a tick comes to the delta's re-asserts. -/
def atReasserts (H : Digests β V δ) (w : World β V) (h : Host β V δ) : Host β V δ :=
  (deltaBlobs H w deltaPerTick (h.drainT2Outbox w none).1).1

/-- Nothing raises in the turns that a tick gives to the delta. -/
def DeltaSafe (F : Faults) (H : Digests β V δ) (w : World β V) (h : Host β V δ) : Prop :=
  BlobsSafe F H w deltaPerTick (h.drainT2Outbox w none).1 ∧
    TailSafe F H w (deltaPerTick - h.deltaQueue.length) (atReasserts H w h)

omit [BEq V] [DecidableEq δ] in
/-- The end of the delta leaves once its queues are empty. -/
private theorem deltaEnd_accepted {h : Host β V δ} (hclear : h.Clear) :
    Steady { h with deltaEndPending := h.deltaEndPending && !h.deltaTail.isEmpty }
        (h.deltaEnd w) ∧
      ∀ {j}, Extends j h → Extends j (h.deltaEnd w) ∧
        (h.deltaEndPending = true → h.deltaTail = [] →
          Said (· = .act .endCold) j (h.deltaEnd w)) := by
  unfold Host.deltaEnd
  rw [send_accepted hacc]
  dsimp only
  split
  · rename_i hend
    refine ⟨⟨?_, hclear⟩, fun hh => ⟨hh.move [.act .endCold] rfl, fun _ _ => ?_⟩⟩
    · simp only [frame, hend, List.isEmpty_nil]
      rfl
    · exact hh.said (.act .endCold) rfl rfl
  · rename_i hend
    have hkeep : (h.deltaEndPending && !h.deltaTail.isEmpty) = h.deltaEndPending := by
      cases hflag : h.deltaEndPending with
      | false => rfl
      | true =>
        rw [Bool.true_and, Bool.not_eq_true', List.isEmpty_eq_false_iff]
        exact fun hnil => hend ⟨hnil, hflag⟩
    refine ⟨⟨?_, hclear⟩, fun hh => ⟨hh, fun hflag hnil => absurd ⟨hnil, hflag⟩ hend⟩⟩
    simp only [frame, hkeep]

/-- The next `n` re-asserts of the delta leave, and its end once none is left. -/
private theorem deltaRest_safe (n : Nat) {h : Host β V δ} (hclear : h.Clear)
    (hsafe : TailSafe F H w n h) :
    ∃ h', deltaReasserts H w n h = (h', true) ∧
      Raising.deltaReasserts F H w n h = (h', .ok true) ∧
      Steady { h with
        deltaTail := h.deltaTail.drop n
        deltaEndPending := h.deltaEndPending && !(h.deltaTail.drop n).isEmpty } (h'.deltaEnd w) ∧
      ∀ {j}, Extends j h → Extends j (h'.deltaEnd w) ∧
        (∀ u ∈ h.deltaTail.take n, Said (Note.Reasserts u) j (h'.deltaEnd w) ∨
          ∃ i, (deltaReasserts H w i h).1.deltaTail.head? = some u ∧
            Bare w (deltaReasserts H w i h).1 u) ∧
        (h.deltaEndPending = true → h.deltaTail.drop n = [] →
          Said (· = .act .endCold) j (h'.deltaEnd w)) := by
  -- the re-asserts first
  obtain ⟨hraising, hsent, hsteady, hsaid⟩ := deltaReasserts_safe hacc H F n hclear hsafe
  have hpair : deltaReasserts H w n h = ((deltaReasserts H w n h).1, true) :=
    Prod.ext rfl hsent
  rw [hpair] at hraising
  refine ⟨(deltaReasserts H w n h).1, hpair, hraising, ?_⟩
  generalize (deltaReasserts H w n h).1 = h₁ at hsteady hsaid
  have hframe := hsteady.frame
  simp only [frame, Prod.mk.injEq] at hframe
  -- and the end of the repair behind them
  obtain ⟨hsteady', hended⟩ := deltaEnd_accepted hacc hsteady.clear
  refine ⟨⟨?_, hsteady'.clear⟩, fun {j} hh => ?_⟩
  · -- what is left of the tail, and of the end
    rw [hsteady'.frame]
    simp only [frame, hframe]
  · -- what is said of each entry, and of the end if the queue is empty
    obtain ⟨hext, hall⟩ := hsaid hh
    obtain ⟨hext', hend⟩ := hended hext
    refine ⟨hext', fun u hu => ?_, fun hflag hnil => hend ?_ ?_⟩
    · exact (hall u hu).imp_left fun hsaid => hsaid.later (hended (.refl h₁)).1
    · rw [deltaEndPending_of_frame hsteady.frame]
      exact hflag
    · rw [deltaTail_of_frame hsteady.frame]
      exact hnil

/-- The delta of a tick, and its end once both queues are empty. -/
theorem drainDelta_safe {h : Host β V δ} (hclear : h.Clear) (hsafe : DeltaSafe F H w h) :
    Raising.drainDelta F H w h = (h.drainDelta H w, .ok ()) ∧
      Steady (deltaDone h) (h.drainDelta H w) ∧
      ∀ {j}, Extends j h → Extends j (h.drainDelta H w) ∧
        (∀ e ∈ h.deltaQueue.take deltaPerTick,
          Said (Note.Resends e.1) j (h.drainDelta H w) ∨
            ∃ i, (deltaBlobs H w i (h.drainT2Outbox w none).1).1.deltaQueue.head? = some e ∧
              Blobless w (deltaBlobs H w i (h.drainT2Outbox w none).1).1 e.1) ∧
        (∀ u ∈ h.deltaTail.take (deltaPerTick - h.deltaQueue.length),
          Said (Note.Reasserts u) j (h.drainDelta H w) ∨
            ∃ i, (deltaReasserts H w i (atReasserts H w h)).1.deltaTail.head? = some u ∧
              Bare w (deltaReasserts H w i (atReasserts H w h)).1 u) ∧
        (h.deltaEndPending = true → (deltaDone h).deltaEndPending = false →
          Said (· = .act .endCold) j (h.drainDelta H w)) := by
  -- an empty outbox has no blob without chunks
  have hloaded : h.ledger.Loaded := by
    intro u o hget
    rw [hclear u] at hget
    cases hget
  obtain ⟨hok, hdrained⟩ := drainT2Outbox_accepted hacc hloaded
  have hext := fun {j} (hh : Extends j h) => (keeps_extends w j).drainT2Outbox none hh
  obtain ⟨hblobs, htail⟩ := hsafe
  unfold atReasserts at *
  unfold Raising.drainDelta Host.drainDelta
  rw [show h.drainT2Outbox w none = ((h.drainT2Outbox w none).1, true) from Prod.ext rfl hok]
  generalize (h.drainT2Outbox w none).1 = h₀ at *
  have hframe := hdrained.frame
  simp only [frame, Prod.mk.injEq] at hframe
  obtain ⟨heq, hbudget, hsteady, hsaid⟩ :=
    deltaBlobs_safe hacc H F deltaPerTick hdrained.clear hblobs
  have hqueue : (deltaBlobs H w deltaPerTick h₀).1.deltaQueue =
      h.deltaQueue.drop deltaPerTick := by
    rw [deltaQueue_of_frame hsteady.frame, deltaQueue_of_frame hdrained.frame]
  have hsteady' : Steady { h with deltaQueue := h.deltaQueue.drop deltaPerTick }
      (deltaBlobs H w deltaPerTick h₀).1 := by
    refine ⟨hsteady.frame.trans ?_, hsteady.clear⟩
    simp only [frame, hframe]
  dsimp only
  rw [heq, Attempt.andThen_returned, hbudget, deltaQueue_of_frame hdrained.frame,
    show deltaBlobs H w deltaPerTick h₀ = ((deltaBlobs H w deltaPerTick h₀).1,
      some (deltaPerTick - h.deltaQueue.length)) from
        Prod.ext rfl (by rw [hbudget, deltaQueue_of_frame hdrained.frame])]
  dsimp only
  rw [deltaQueue_of_frame hdrained.frame] at hsaid
  generalize (deltaBlobs H w deltaPerTick h₀).1 = h₁ at hqueue hsteady' hsaid htail
  have hframe₁ := hsteady'.frame
  simp only [frame, Prod.mk.injEq] at hframe₁
  -- the re-asserts come after the last blob, with what is left of the budget
  by_cases hempty : h₁.deltaQueue = []
  · obtain ⟨h₂, htotal, hraising, hsteady₂, hsaid₂⟩ :=
      deltaRest_safe hacc H F _ hsteady'.clear htail
    rw [if_pos hempty, if_pos hempty, htotal, hraising, Attempt.andThen_ok, if_pos rfl]
    dsimp only
    rw [hqueue] at hempty
    refine ⟨rfl, ⟨?_, hsteady₂.clear⟩, fun {j} hh => ?_⟩
    · rw [hsteady₂.frame]
      simp only [frame, deltaDone, hframe₁, hempty, List.isEmpty_nil, Bool.true_and]
    · obtain ⟨hext₁, hfirst⟩ := hsaid (hext hh)
      obtain ⟨hext₂, hmore, hend⟩ := hsaid₂ hext₁
      rw [deltaTail_of_frame hsteady'.frame] at hmore hend
      refine ⟨hext₂, fun e he => ?_, hmore, fun hflag hdone => ?_⟩
      · exact (hfirst e he).imp_left fun hsaid => hsaid.later (hsaid₂ (.refl h₁)).1
      · apply hend
        · rw [deltaEndPending_of_frame hsteady'.frame]
          exact hflag
        · unfold deltaDone at hdone
          simpa [hflag, hempty] using hdone
  · -- blobs are left, so the budget is spent
    rw [if_neg hempty, if_neg hempty]
    rw [hqueue] at hempty
    have hspent : deltaPerTick - h.deltaQueue.length = 0 := by
      rw [List.drop_eq_nil_iff] at hempty
      omega
    refine ⟨rfl, ⟨?_, hsteady'.clear⟩, fun {j} hh => ?_⟩
    · rw [hsteady'.frame]
      simp [frame, deltaDone, hspent, List.isEmpty_eq_false_iff.mpr hempty]
    · obtain ⟨hext₁, hfirst⟩ := hsaid (hext hh)
      refine ⟨hext₁, hfirst, fun u hu => ?_, fun hflag hdone => ?_⟩
      · rw [hspent, List.take_zero] at hu
        cases hu
      · unfold deltaDone at hdone
        rw [hflag, List.isEmpty_eq_false_iff.mpr hempty] at hdone
        cases hdone

end Flush

end Accepted

end Host

end QCBridge
