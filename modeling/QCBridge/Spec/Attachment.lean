import QCBridge.ForStd.Guarded
import QCBridge.ForStd.Each
import QCBridge.Spec.LinkWriter

/-!
# One addon at a time

The sink has no owner's name on it: the reader thread of an addon clears it when its socket
ends, whoever it belongs to by then. As long as no addon is made the sink while the thread of
an earlier one has that still ahead of it, an addon's end is its own affair. A failed write
lets the next addon in before that.
-/

namespace QCBridge

/-- Who attached last, as the callbacks tell it. -/
def lastAttached (reports : List Report) : Option Nat :=
  reports.foldl (fun last r => match r with
    | .attached c => some c
    | .detached _ => last) none

@[simp] theorem lastAttached_attached (reports : List Report) (c : Nat) :
    lastAttached (reports ++ [.attached c]) = some c := by
  simp [lastAttached]

@[simp] theorem lastAttached_detached (reports : List Report) (c : Nat) :
    lastAttached (reports ++ [.detached c]) = lastAttached reports := by
  simp [lastAttached]

/-- Each detach is reported while the addon that attached last is the one that left. -/
def OwnDetaches (reports : List Report) : Prop :=
  Each (fun before r => ∀ c, r = .detached c → lastAttached before = some c) reports

namespace Attachment

/-- The addon went away: a write to it failed, or its reader's loop returned. -/
def Gone (a : Attachment) (c : Nat) : Prop :=
  c ∈ a.failed ∨ a.reader c = .ended ∨ a.reader c = .cleared ∨ a.reader c = .done

instance (a : Attachment) (c : Nat) : Decidable (a.Gone c) :=
  inferInstanceAs (Decidable (_ ∨ _ ∨ _ ∨ _))

/-- No addon disturbs another. -/
structure Undisturbed (a : Attachment) : Prop where
  /-- Of the addons that were made the sink and did not go away, there is at most one. -/
  alone : ∀ c ∈ a.seated, ∀ d ∈ a.seated, ¬ a.Gone c → ¬ a.Gone d → c = d
  /-- The one that holds the sink was let in and no write to it failed. -/
  holder : ∀ c, a.sink = some c → c ∈ a.seated ∧ c ∉ a.failed
  /-- A reader that ended found its own addon in the sink, or none. -/
  clears : ∀ c found, (c, found) ∈ a.clears → found = none ∨ found = some c
  detaches : OwnDetaches a.reports
  keeps : ∀ c ∈ a.seated, ¬ a.Gone c → a.sink = some c ∧ a.attached = true

/-- Nothing of an earlier addon is ahead that `serve_local` would walk into: no
    `set_sink(None)` when it sets the sink, and no `on_detach` when it calls `on_attach`. -/
def Settles (a : Attachment) : Prop :=
  match a.server with
  | .seating _ => ∀ d < a.conns, a.reader d ≠ .reading ∧ a.reader d ≠ .ended
  | .greeting _ => ∀ d < a.conns, a.reader d ≠ .cleared
  | _ => True

/-- What makes the steps keep `Undisturbed`. -/
structure Sound (a : Attachment) : Prop where
  sink : ∀ c, a.sink = some c →
    a.attached = true ∧ a.seated.head? = some c ∧ c ∉ a.failed ∧ a.reader c ≠ .cleared ∧
      a.reader c ≠ .done
  keeps : ∀ c ∈ a.seated, ¬ a.Gone c → a.sink = some c
  failed : ∀ c ∈ a.failed, c ∈ a.seated
  fresh : ∀ c ∈ a.seated, c < a.conns
  started : ∀ c, a.reader c ≠ .absent → c ∈ a.seated
  /-- From the swap of `attached` on, nobody else is made the sink. -/
  seating : ∀ c, a.server = .seating c →
    a.sink = none ∧ c ∉ a.seated ∧ a.reader c = .absent ∧ c < a.conns
  seen : ∀ c, a.server = .greeting c ∨ a.server = .replying c ∨ a.server = .spawning c →
    a.seated.head? = some c ∧ a.reader c = .absent
  greeted : ∀ c, a.server = .replying c ∨ a.server = .spawning c →
    lastAttached a.reports = some c
  /-- A reader that has the sink still to clear is the last addon's. -/
  live : ∀ c, a.reader c = .reading ∨ a.reader c = .ended → a.seated.head? = some c
  told : ∀ c, a.reader c = .reading ∨ a.reader c = .ended ∨ a.reader c = .cleared →
    lastAttached a.reports = some c
  clears : ∀ c found, (c, found) ∈ a.clears → found = none ∨ found = some c
  detaches : OwnDetaches a.reports

private theorem Sound.undisturbed {a : Attachment} (h : a.Sound) : a.Undisturbed where
  alone c hc d hd hgc hgd :=
    Option.some.inj ((h.keeps c hc hgc).symm.trans (h.keeps d hd hgd))
  holder c hsink := by
    obtain ⟨-, hhead, hfailed, -⟩ := h.sink c hsink
    exact ⟨List.mem_of_head? hhead, hfailed⟩
  clears := h.clears
  detaches := h.detaches
  keeps c hc hgone := by
    have hsink := h.keeps c hc hgone
    exact ⟨hsink, (h.sink c hsink).1⟩

/-! ## What a step preserves -/

theorem Sound.admission {a : Attachment} (h : a.Sound) : a.admission.Sound := by
  -- the swap lets an addon in only where the sink is empty
  have hnone : a.attached = false → a.sink = none := by
    intro hattached
    cases hsink : a.sink with
    | none => rfl
    | some c => rw [(h.sink c hsink).1] at hattached; cases hattached
  -- a connection of its own number
  have hnew : a.conns ∉ a.seated := fun hmem => Nat.lt_irrefl _ (h.fresh _ hmem)
  have habsent : a.reader a.conns = .absent := by
    by_contra hreader
    exact hnew (h.started _ hreader)
  exact { h with
    sink := fun c hsink => ⟨rfl, (h.sink c hsink).2⟩
    fresh := fun c hc => Nat.lt_succ_of_lt (h.fresh c hc)
    seating := by
      intro c hc
      cases hattached : a.attached with
      | true => simp [Attachment.admission, hattached] at hc
      | false =>
        have hconns : a.conns = c := by simpa [Attachment.admission, hattached] using hc
        subst hconns
        exact ⟨hnone hattached, hnew, habsent, Nat.lt_succ_self _⟩
    seen := by
      intro c hc
      cases hattached : a.attached <;> simp [Attachment.admission, hattached] at hc
    greeted := by
      intro c hc
      cases hattached : a.attached <;> simp [Attachment.admission, hattached] at hc }

theorem Sound.drop {a : Attachment} (h : a.Sound) : a.drop.Sound := by
  unfold Attachment.drop
  cases hsink : a.sink with
  | none => exact h
  | some c =>
    obtain ⟨-, hhead, -⟩ := h.sink c hsink
    have hmem : c ∈ a.seated := List.mem_of_head? hhead
    exact { h with
      sink := fun d hd => by cases hd
      -- the holder went away with the write; nobody else was in the sink
      keeps := by
        intro d hd hgone
        have hsome := h.keeps d hd fun hg => hgone (hg.imp (List.mem_cons_of_mem _) id)
        rw [hsink] at hsome
        obtain rfl := Option.some.inj hsome
        exact absurd (.inl List.mem_cons_self) hgone
      failed := by
        intro d hd
        rcases List.mem_cons.mp hd with rfl | hd
        · exact hmem
        · exact h.failed d hd
      seating := fun d hd => ⟨rfl, (h.seating d hd).2⟩ }

/-- The reader thread of `c` goes on to `phase`. -/
def goOn (a : Attachment) (c : Nat) (phase : ReaderPhase) : Attachment :=
  { a with reader := Function.update a.reader c phase }

private theorem goOn_self (a : Attachment) (c : Nat) (phase : ReaderPhase) :
    (a.goOn c phase).reader c = phase := Function.update_self ..

private theorem goOn_of_ne (a : Attachment) {c d : Nat} (phase : ReaderPhase) (h : d ≠ c) :
    (a.goOn c phase).reader d = a.reader d := Function.update_of_ne h ..

/-- What it takes for a reader thread to go on. -/
theorem Sound.goOn {a : Attachment} (h : a.Sound) {c : Nat} {phase : ReaderPhase}
    (hmem : c ∈ a.seated)
    (hserver : ∀ d, a.server = .greeting d ∨ a.server = .replying d ∨ a.server = .spawning d →
      d ≠ c)
    (hlive : phase = .reading ∨ phase = .ended → a.seated.head? = some c)
    (htold : phase = .reading ∨ phase = .ended ∨ phase = .cleared →
      lastAttached a.reports = some c)
    (hgone : (a.goOn c phase).Gone c ∨ ¬ a.Gone c)
    (hsink : a.sink = some c → phase ≠ .cleared ∧ phase ≠ .done) :
    (a.goOn c phase).Sound := by
  -- case by case: this thread, or another that stays where it is
  exact { h with
    sink := by
      intro d hd
      obtain ⟨hattached, hhead, hfailed, hreader⟩ := h.sink d hd
      refine ⟨hattached, hhead, hfailed, ?_⟩
      by_cases heq : d = c
      · subst heq
        rw [goOn_self]
        exact hsink hd
      · rw [goOn_of_ne a phase heq]
        exact hreader
    keeps := by
      intro d hd hstays
      apply h.keeps d hd
      by_cases heq : d = c
      · subst heq
        exact hgone.resolve_left hstays
      · intro hd
        apply hstays
        unfold Gone at hd ⊢
        rw [goOn_of_ne a phase heq]
        exact hd
    started := by
      intro d hd
      by_cases heq : d = c
      · rw [heq]
        exact hmem
      · rw [goOn_of_ne a phase heq] at hd
        exact h.started d hd
    seating := by
      intro d hd
      obtain ⟨hnone, hnew, habsent, hlt⟩ := h.seating d hd
      have hne : d ≠ c := by
        rintro rfl
        exact hnew hmem
      exact ⟨hnone, hnew, (goOn_of_ne a phase hne).trans habsent, hlt⟩
    seen := by
      intro d hd
      obtain ⟨hhead, habsent⟩ := h.seen d hd
      exact ⟨hhead, (goOn_of_ne a phase (hserver d hd)).trans habsent⟩
    live := by
      intro d hd
      by_cases heq : d = c
      · subst heq
        rw [goOn_self] at hd
        exact hlive hd
      · rw [goOn_of_ne a phase heq] at hd
        exact h.live d hd
    told := by
      intro d hd
      by_cases heq : d = c
      · subst heq
        rw [goOn_self] at hd
        exact htold hd
      · rw [goOn_of_ne a phase heq] at hd
        exact h.told d hd }

/-- A reader that has ended clears the sink, which is its own addon's or nobody's. -/
theorem Sound.clear {a : Attachment} (h : a.Sound) {c : Nat} (hreader : a.reader c = .ended) :
    Sound { a.setSink none with clears := a.clears ++ [(c, a.sink)] } := by
  have hhead := h.live c (.inr hreader)
  -- this is the last addon, so nobody else is in the sink
  have hown : ∀ d, a.sink = some d → d = c := by
    intro d hd
    exact Option.some.inj ((h.sink d hd).2.1.symm.trans hhead)
  exact { h with
    sink := fun d hd => by cases hd
    keeps := by
      intro d hd hstays
      have hd' := hown d (h.keeps d hd hstays)
      rw [hd'] at hstays
      exact absurd (.inr (.inl hreader)) hstays
    seating := fun d hd => ⟨rfl, (h.seating d hd).2⟩
    clears := by
      intro d found hd
      rcases List.mem_append.mp hd with hd | hd
      · exact h.clears d found hd
      · obtain ⟨rfl, rfl⟩ := Prod.mk.inj (List.mem_singleton.mp hd)
        cases hsink : a.sink with
        | none => exact .inl rfl
        | some e => exact .inr (by rw [hown e hsink]) }

/-- A detach is reported while the addon that attached last is its own. -/
theorem Sound.report {a : Attachment} (h : a.Sound) {c : Nat} (hreader : a.reader c = .cleared) :
    Sound { a with reports := a.reports ++ [.detached c] } := by
  exact { h with
    greeted := fun d hd => (lastAttached_detached ..).trans (h.greeted d hd)
    told := fun d hd => (lastAttached_detached ..).trans (h.told d hd)
    detaches := by
      apply h.detaches.concat
      intro d hd
      obtain rfl := Report.detached.inj hd
      exact h.told c (.inr (.inr hreader)) }

/-- The reader thread of an addon goes on. -/
theorem Sound.read {a : Attachment} (h : a.Sound) (c : Nat) : (a.read c).Sound := by
  have hserver : a.reader c ≠ .absent → ∀ d,
      a.server = .greeting d ∨ a.server = .replying d ∨ a.server = .spawning d → d ≠ c := by
    intro hreader d hd heq
    rw [← heq] at hreader
    exact hreader (h.seen d hd).2
  unfold Attachment.read
  cases hreader : a.reader c with
  | absent => exact h
  -- the loop returns: from here the addon counts as gone
  | reading =>
    have hstarted : a.reader c ≠ .absent := by simp [hreader]
    apply h.goOn (h.started c hstarted) (hserver hstarted)
    · exact fun _ => h.live c (.inl hreader)
    · exact fun _ => h.told c (.inl hreader)
    · exact .inl (.inr (.inl (goOn_self ..)))
    · exact fun _ => by decide
  -- `set_sink(None)`
  | ended =>
    have hstarted : a.reader c ≠ .absent := by simp [hreader]
    apply (h.clear hreader).goOn (h.started c hstarted) (hserver hstarted)
    · intro hphase
      simp at hphase
    · exact fun _ => h.told c (.inr (.inl hreader))
    · exact .inl (.inr (.inr (.inl (goOn_self ..))))
    · intro hsink
      cases hsink
  -- `on_detach`
  | cleared =>
    have hstarted : a.reader c ≠ .absent := by simp [hreader]
    apply (h.report hreader).goOn (h.started c hstarted) (hserver hstarted)
    · intro hphase
      simp at hphase
    · intro hphase
      simp at hphase
    · exact .inl (.inr (.inr (.inr (goOn_self ..))))
    · intro hsink
      exact absurd hreader (h.sink c hsink).2.2.2.1
  | done => exact h

/-- `set_sink(Some)`: the addon that found the sink free is the one in it. -/
private theorem Sound.seat {a : Attachment} (h : a.Sound) {c : Nat}
    (hserver : a.server = .seating c)
    (hsettles : ∀ d < a.conns, a.reader d ≠ .reading ∧ a.reader d ≠ .ended) :
    Sound { a.setSink (some c) with server := .greeting c, seated := c :: a.seated } := by
  obtain ⟨hnone, hfresh, habsent, hlt⟩ := h.seating c hserver
  -- threads that have not started have nothing ahead of them
  have hquiet : ∀ d, a.reader d ≠ .reading ∧ a.reader d ≠ .ended := by
    intro d
    by_cases hd : d < a.conns
    · exact hsettles d hd
    · have hd' : a.reader d = .absent := by
        by_contra hreader
        exact hd (h.fresh d (h.started d hreader))
      rw [hd']
      decide
  have hfailed : c ∉ a.failed := fun hc => hfresh (h.failed c hc)
  exact { h with
    sink := by
      intro d hd
      obtain rfl : c = d := Option.some.inj hd
      refine ⟨rfl, rfl, hfailed, ?_⟩
      show a.reader c ≠ .cleared ∧ a.reader c ≠ .done
      rw [habsent]
      decide
    keeps := by
      intro d hd hgone
      rcases List.mem_cons.mp hd with rfl | hd
      · rfl
      · -- whoever was the sink before went away, or the swap had not found it free
        rw [h.keeps d hd hgone] at hnone
        cases hnone
    failed := fun d hd => List.mem_cons_of_mem _ (h.failed d hd)
    fresh := by
      intro d hd
      rcases List.mem_cons.mp hd with rfl | hd
      · exact hlt
      · exact h.fresh d hd
    started := fun d hd => List.mem_cons_of_mem _ (h.started d hd)
    seating := fun d hd => by cases hd
    seen := by
      intro d hd
      obtain rfl : c = d := by simpa using hd
      exact ⟨rfl, habsent⟩
    greeted := fun d hd => by simp at hd
    live := by
      intro d hd
      obtain ⟨hreading, hended⟩ := hquiet d
      exact absurd hd (not_or.mpr ⟨hreading, hended⟩) }

/-- `on_attach`: no thread has its detach still to report, so none reports it after this. -/
private theorem Sound.greet {a : Attachment} (h : a.Sound) {c : Nat}
    (hserver : a.server = .greeting c)
    (hsettles : ∀ d < a.conns, a.reader d ≠ .cleared) :
    Sound { a with server := .replying c, reports := a.reports ++ [.attached c] } := by
  obtain ⟨hhead, habsent⟩ := h.seen c (.inl hserver)
  have hquiet : ∀ d, ¬ (a.reader d = .reading ∨ a.reader d = .ended ∨ a.reader d = .cleared) := by
    intro d hd
    have hlt : d < a.conns := by
      apply h.fresh d
      apply h.started d
      intro hd'
      simp [hd'] at hd
    rw [← or_assoc] at hd
    rcases hd with hd | hd
    · -- a thread that runs is the last addon's, whose thread has not started
      have hsame := (h.live d hd).symm.trans hhead
      obtain rfl := Option.some.inj hsame
      simp [habsent] at hd
    · exact hsettles d hlt hd
  exact { h with
    seating := fun d hd => by cases hd
    seen := by
      intro d hd
      obtain rfl : c = d := by simpa using hd
      exact ⟨hhead, habsent⟩
    greeted := by
      intro d hd
      obtain rfl : c = d := by simpa using hd
      exact lastAttached_attached _ _
    told := fun d hd => absurd hd (hquiet d)
    detaches := h.detaches.concat fun d hd => by cases hd }

/-- The reply leaves the sink and the threads alone. -/
theorem Sound.reply {a : Attachment} (h : a.Sound) {c : Nat} (hserver : a.server = .replying c) :
    Sound { a with server := .spawning c } := by
  have hseen := h.seen c (.inr (.inl hserver))
  have hgreeted := h.greeted c (.inl hserver)
  exact { h with
    seating := fun d hd => by cases hd
    seen := by
      intro d hd
      obtain rfl : c = d := by simpa using hd
      exact hseen
    greeted := by
      intro d hd
      obtain rfl : c = d := by simpa using hd
      exact hgreeted }

/-- The addon's thread starts, where it can be spawned. -/
theorem Sound.spawn {a : Attachment} (h : a.Sound) {c : Nat} (hserver : a.server = .spawning c)
    (spawned : Bool) :
    Sound { a with
      server := .accepting
      reader := if spawned then Function.update a.reader c .reading else a.reader } := by
  obtain ⟨hhead, habsent⟩ := h.seen c (.inr (.inr hserver))
  have hgreeted := h.greeted c (.inr hserver)
  -- the server is free for the next addon
  have hidle : Sound { a with server := .accepting } :=
    { h with
      seating := fun d hd => by cases hd
      seen := fun d hd => by simp at hd
      greeted := fun d hd => by simp at hd }
  -- no thread: the addon is seen and never read
  cases spawned with
  | false => exact hidle
  | true =>
    -- it is gone for good if its thread failed before
    have hgone : (a.goOn c .reading).Gone c ∨ ¬ a.Gone c := by
      by_cases hfailed : c ∈ a.failed
      · exact .inl (.inl hfailed)
      · right
        simp [Gone, hfailed, habsent]
    apply hidle.goOn (List.mem_of_head? hhead)
    · intro d hd
      simp at hd
    · exact fun _ => hhead
    · exact fun _ => hgreeted
    · exact hgone
    · exact fun _ => by decide

/-- The next call of an addon that is being let in. -/
theorem Sound.serve {a : Attachment} (h : a.Sound) (hsettles : a.Settles) (spawned : Bool) :
    (a.serve spawned).Sound := by
  unfold Attachment.serve
  unfold Settles at hsettles
  cases hserver : a.server with
  | accepting => exact h
  | seating c =>
    rw [hserver] at hsettles
    exact h.seat hserver hsettles
  | greeting c =>
    rw [hserver] at hsettles
    exact h.greet hserver hsettles
  | replying c => exact h.reply hserver
  | spawning c => exact h.spawn hserver spawned

instance (a : Attachment) : Decidable a.Settles := by
  unfold Settles
  split <;> infer_instance

theorem sound_start : Sound {} where
  sink := fun _ h => by cases h
  keeps := fun _ h => by cases h
  failed := fun _ h => by cases h
  fresh := fun _ h => by cases h
  started := fun _ h => absurd rfl h
  seating := fun _ h => by cases h
  seen := fun _ h => by simp at h
  greeted := fun _ h => by simp at h
  live := fun _ h => by simp at h
  told := fun _ h => by simp at h
  clears := fun _ _ h => by cases h
  detaches := Each.nil

end Attachment

namespace Link

/-- `Attachment.Settles`, whenever `serve_local` goes on with an addon. -/
def Settles (s : Link) : Act → Prop
  | .serve .. => s.addons.Settles
  | _ => True

instance (s : Link) : (act : Act) → Decidable (s.Settles act)
  | .serve .. => inferInstanceAs (Decidable s.addons.Settles)
  | .frame _ | .eventTry _ | .wake | .putHot .. | .markHot | .connect .. | .reader _
  | .auxRemove _ | .write .. => .isTrue trivial

theorem sound_step {secret : String} {s : Link} (h : s.addons.Sound) (act : Act)
    (hsettles : s.Settles act) : (s.step secret act).addons.Sound := by
  have hstep := addons_step secret s act
  generalize (s.step secret act).addons = a at hstep ⊢
  cases hstep with
  | stays => exact h
  | admits => exact h.admission
  | serves reply fails spawned => exact h.serve hsettles spawned
  | reads c => exact h.read c
  | drops => exact h.drop

/-- As long as no addon is made the sink while an earlier one has it still to clear, or
    greeted while an earlier one's detach is still to be reported, no addon disturbs another. -/
theorem run_undisturbed {secret : String} {acts : List Act}
    (h : Along (step secret) Settles {} acts) : (run secret acts).addons.Undisturbed := by
  apply Attachment.Sound.undisturbed
  exact h.invariant (I := fun s => s.addons.Sound)
    (fun s act hs hact => sound_step hs act hact) Attachment.sound_start

/-- An addon attaches. -/
def attachActs (secret : String) : List Act :=
  .connect ⟨true, FrameKind.cmd.byte, 64, some "attach", some secret, none⟩ true true ::
    List.replicate 4 (.serve [] false true)

/-- A frame that the writer cannot write: the addon went away. -/
def failActs : List Act :=
  [.frame ⟨.control, []⟩, .wake, .write false [] 0, .write false [] 0, .write true [] 0]

/-- The first addon goes, its reader thread ends, and a second one attaches. -/
theorem run_undisturbed_second :
    (run "s" (attachActs "s" ++ failActs ++ List.replicate 3 (.reader 0) ++
        attachActs "s")).addons.sink = some 1 ∧
      (run "s" (attachActs "s" ++ failActs ++ List.replicate 3 (.reader 0) ++
        attachActs "s")).addons.Undisturbed :=
  ⟨by decide, run_undisturbed (by decide)⟩

/-- The second one attaches before the reader thread of the first one ends: that thread takes
    it out of the sink. -/
theorem run_undisturbed_counterexample :
    ¬ ∀ secret acts, (run secret acts).addons.Undisturbed := by
  intro hall
  have hkeeps := (hall "s" (attachActs "s" ++ failActs ++ attachActs "s" ++
    List.replicate 2 (.reader 0))).keeps 1 (by decide) (by decide)
  have hnone : (run "s" (attachActs "s" ++ failActs ++ attachActs "s" ++
    List.replicate 2 (.reader 0))).addons.sink = none := by decide
  rw [hnone] at hkeeps
  cases hkeeps.1

end Link

end QCBridge
