import QCBridge.ForStd.Eventually
import QCBridge.Spec.Attachment
import QCBridge.Spec.LinkTraffic

/-!
# Hot values without an addon

A hot value stays in its map, marked, until the writer comes for it. The writer takes the mark
and empties the map before it looks whether an addon is attached, and what it has in hand then
is gone if there is none. Where it comes to hot values only while an addon is attached, the
latest value of each key is there for the next one, and the `Wake` that came with it is too.
-/

namespace QCBridge

/-- A body is in the writer's hands, among the hot values that it drained. -/
def WriterPhase.HasHot (body : List UInt8) : WriterPhase → Prop
  | sendingHot bodies => body ∈ bodies
  | writing f (.hot rest) => f = ⟨.hot, body⟩ ∨ body ∈ rest
  | telling _ (.hot rest) => body ∈ rest
  | _ => False

/-- The writer is awake, and will look at the mark of the hot values. -/
def WriterPhase.WillCheck : WriterPhase → Prop
  | draining _ => True
  | writing _ (.drain _) => True
  | telling _ (.drain _) => True
  | writing _ .check => True
  | telling _ .check => True
  | checking => True
  | _ => False

namespace Link

/-- The writer comes to hot values only while an addon is attached. -/
def MindsHot (s : Link) : Act → Prop
  | .write .. =>
    s.addons.attached = true ∨
      match s.writer with
      | .checking => s.hotDirty = false ∨ s.hot.entries = []
      | .collecting => s.hot.entries = []
      | .sendingHot bodies => bodies = []
      | _ => True
  | _ => True

instance (s : Link) : (act : Act) → Decidable (s.MindsHot act)
  | .write .. => by
    unfold MindsHot
    cases s.writer <;> infer_instance
  | .frame _ | .eventTry _ | .wake | .putHot .. | .markHot | .connect .. | .serve .. | .reader _
  | .auxRemove _ => .isTrue trivial

/-- A value of `key` comes. -/
def Act.Puts (key : List UInt8) : Act → Prop
  | putHot key' _ => key' = key
  | _ => False

instance (key : List UInt8) : (act : Act) → Decidable (act.Puts key)
  | .putHot key' _ => inferInstanceAs (Decidable (key' = key))
  | .frame _ | .eventTry _ | .wake | .markHot | .connect .. | .serve .. | .reader _
  | .auxRemove _ | .write .. => .isFalse id

/-- A value is in the map, and the map is marked, or its thread is about to mark it. -/
def Held (s : Link) (key body : List UInt8) : Prop :=
  s.hot.get? key = some body ∧ (s.hotDirty = true ∨ 0 < s.marking)

instance (s : Link) (key body : List UInt8) : Decidable (s.Held key body) :=
  inferInstanceAs (Decidable (_ ∧ _))

/-- A value is on its way to an addon. The less `n`, the nearer it is: the writer has it or
    will come for it (0), or is about to be woken (1), or the map is about to be marked (2). -/
def Pending (n : Nat) (key body : List UInt8) (s : Link) : Prop :=
  s.writer.HasHot body ∨
    s.hot.get? key = some body ∧
      (s.writer = .collecting ∨ s.hotDirty = true ∧ (s.cold ≠ [] ∨ s.writer.WillCheck) ∨
        1 ≤ n ∧ s.hotDirty = true ∧ 0 < s.waking ∨ 2 ≤ n ∧ 0 < s.marking)

/-! ## What the writer does to a value -/

section

variable {s s' : Link} {fails : Bool} {lost : List Nat} {n : Nat} {key body : List UInt8}

/-- A value in the writer's hands stays there until it is written. -/
theorem HasHot.write (h : s.writer.HasHot body) (hstep : WriterStep s fails lost s')
    (hminds : s.addons.attached = true ∨ ∀ bodies, s.writer = .sendingHot bodies → bodies = [])
    (hsink : s.addons.sink = none ∨ s'.addons.sink = s.addons.sink) :
    s'.writer.HasHot body ∨ ∃ c, s.addons.sink = some c ∧
      s'.written = s.written ++ [(c, ⟨.hot, body⟩)] := by
  cases hstep with
  | asleep hw hcold => exact .inl h
  | wakes item cold hw hcold => simp [hw, WriterPhase.HasHot] at h
  | takes item f prio hw hprio => simp [hw, WriterPhase.HasHot] at h
  | turns f hw hprio => simp [hw, WriterPhase.HasHot] at h
  | woken hw hprio => simp [hw, WriterPhase.HasHot] at h
  | event f after hw hevent =>
    rw [hw] at h
    cases after with
    | hot rest =>
      rcases h with rfl | hmem
      · cases hevent
      · exact .inl hmem
    | _ => exact h.elim
  | waits f after hw hevent hnone => exact .inl h
  | writes f after c hw hevent hsome =>
    rw [hw] at h
    cases after with
    | hot rest =>
      rcases h with rfl | hmem
      · -- the sink stays, so the write went well
        right
        refine ⟨c, hsome, ?_⟩
        cases fails with
        | false => simp [writeSink, hsome]
        | true =>
          have hnone : (s.writeSink ⟨.hot, body⟩ true).addons.sink = none := by
            rw [writeSink_addons]
            simp [Attachment.drop, hsome, Attachment.setSink]
          rw [hsome] at hsink
          rcases hsink with hsink | hsink
          · cases hsink
          · exact absurd (hnone.symm.trans hsink) (by simp)
      · exact .inl hmem
    | _ => exact h.elim
  | tells body' after hw =>
    rw [hw] at h
    cases after with
    | hot rest => exact .inl h
    | _ => exact h.elim
  | checks hw => simp [hw, WriterPhase.HasHot] at h
  | collects hw => simp [hw, WriterPhase.HasHot] at h
  | picks bodies rest body' hw hperm hattached =>
    rw [hw] at h
    rcases List.mem_cons.mp (hperm.mem_iff.mp h) with rfl | hmem
    · exact .inl (.inl rfl)
    · exact .inl (.inr hmem)
  | breaks bodies hw hne hattached =>
    rcases hminds with hthere | hnil
    · rw [hthere] at hattached
      cases hattached
    · exact absurd (hnil bodies hw) hne
  | ends hw => simp [hw, WriterPhase.HasHot] at h
  | flushes hw => simp [hw, WriterPhase.HasHot] at h

/-- A turn of the writer that leaves the hot values alone, and its wake-up ahead. -/
private theorem Pending.of_turn (hget : s.hot.get? key = some body)
    (hrest : s.hotDirty = true ∧ (s.cold ≠ [] ∨ s.writer.WillCheck) ∨
      1 ≤ n ∧ s.hotDirty = true ∧ 0 < s.waking ∨ 2 ≤ n ∧ 0 < s.marking)
    (hhot : s'.hot = s.hot) (hdirty : s.hotDirty = true → s'.hotDirty = true)
    (hahead : s.cold ≠ [] ∨ s.writer.WillCheck → s'.cold ≠ [] ∨ s'.writer.WillCheck)
    (hwaking : s'.waking = s.waking) (hmarking : s'.marking = s.marking) :
    s'.Pending n key body := by
  refine .inr ⟨hhot ▸ hget, .inr ?_⟩
  rw [hwaking, hmarking]
  rcases hrest with ⟨hd, ha⟩ | ⟨hn, hd, hw⟩ | hm
  · exact .inl ⟨hdirty hd, hahead ha⟩
  · exact .inr (.inl ⟨hn, hdirty hd, hw⟩)
  · exact .inr (.inr hm)

/-- A turn of the writer: a value on its way stays so until it is written. -/
theorem Pending.write (h : s.Pending n key body) (hstep : WriterStep s fails lost s')
    (hminds : s.addons.attached = true ∨ ∀ bodies, s.writer = .sendingHot bodies → bodies = [])
    (hsink : s.addons.sink = none ∨ s'.addons.sink = s.addons.sink) :
    s'.Pending n key body ∨ ∃ c, s.addons.sink = some c ∧
      s'.written = s.written ++ [(c, ⟨.hot, body⟩)] := by
  rcases h with h | ⟨hget, hrest⟩
  · exact (HasHot.write h hstep hminds hsink).imp_left .inl
  cases hstep with
  | collects hw =>
    -- the map is emptied into the writer's hands
    refine .inl (.inl ?_)
    exact List.mem_map.mpr ⟨(key, body), (s.hot.mem_entries_iff key body).mpr hget, rfl⟩
  | checks hw =>
    left
    cases hdirty : s.hotDirty with
    | true => exact .inr ⟨hget, .inl (by simp)⟩
    | false =>
      have hmarking : 2 ≤ n ∧ 0 < s.marking := by simpa [hw, hdirty] using hrest
      exact .inr ⟨hget, .inr (.inr (.inr hmarking))⟩
  | asleep hw hcold => exact .inl (.inr ⟨hget, hrest⟩)
  | wakes item cold hw hcold =>
    have hrest' := hrest.resolve_left (by simp [hw])
    exact .inl (Pending.of_turn hget hrest' rfl id (fun _ => .inr trivial) rfl rfl)
  | takes item f prio hw hprio =>
    have hrest' := hrest.resolve_left (by simp [hw])
    exact .inl (Pending.of_turn hget hrest' rfl id (fun _ => .inr trivial) rfl rfl)
  | turns f hw hprio =>
    have hrest' := hrest.resolve_left (by simp [hw])
    exact .inl (Pending.of_turn hget hrest' rfl id (fun _ => .inr trivial) rfl rfl)
  | woken hw hprio =>
    have hrest' := hrest.resolve_left (by simp [hw])
    exact .inl (Pending.of_turn hget hrest' rfl id (fun _ => .inr trivial) rfl rfl)
  | event f after hw hevent =>
    have hrest' := hrest.resolve_left (by simp [hw])
    refine .inl (Pending.of_turn hget hrest' (by simp) (by simp) (fun ha => ?_) (by simp) (by simp))
    rw [hw] at ha
    refine ha.imp (by simp) fun hwill => ?_
    cases after with
    | hot rest => exact hwill
    | _ => trivial
  | waits f after hw hevent hnone => exact .inl (.inr ⟨hget, hrest⟩)
  | writes f after c hw hevent hsome =>
    have hrest' := hrest.resolve_left (by simp [hw])
    refine .inl (Pending.of_turn hget hrest' (by simp) (by simp) (fun ha => ?_) (by simp) (by simp))
    rw [hw] at ha
    refine ha.imp (by simp) fun hwill => ?_
    cases after with
    | hot rest => exact hwill
    | _ => trivial
  | tells body' after hw =>
    have hrest' := hrest.resolve_left (by simp [hw])
    refine .inl (Pending.of_turn hget hrest' rfl id (fun ha => ?_) rfl rfl)
    rw [hw] at ha
    refine ha.imp_right fun hwill => ?_
    cases after with
    | hot rest => exact hwill
    | _ => trivial
  | picks bodies rest body' hw hperm hattached =>
    have hrest' := hrest.resolve_left (by simp [hw])
    exact .inl (Pending.of_turn hget hrest' rfl id (fun ha => .inl (ha.resolve_right (by
      simp [hw, WriterPhase.WillCheck]))) rfl rfl)
  | breaks bodies hw hne hattached =>
    have hrest' := hrest.resolve_left (by simp [hw])
    exact .inl (Pending.of_turn hget hrest' rfl (fun _ => rfl) (fun ha => .inl (ha.resolve_right
      (by simp [hw, WriterPhase.WillCheck]))) rfl rfl)
  | ends hw =>
    have hrest' := hrest.resolve_left (by simp [hw])
    exact .inl (Pending.of_turn hget hrest' rfl id (fun ha => .inl (ha.resolve_right (by
      simp [hw, WriterPhase.WillCheck]))) rfl rfl)
  | flushes hw =>
    have hrest' := hrest.resolve_left (by simp [hw])
    exact .inl (Pending.of_turn hget hrest' rfl id (fun ha => .inl (ha.resolve_right (by
      simp [hw, WriterPhase.WillCheck]))) rfl rfl)

/-! ## What the other threads do to a value -/

/-- A step that takes nothing from a value, and leaves the writer where it is. -/
private theorem Pending.of_grown (h : s.Pending n key body) (hwriter : s'.writer = s.writer)
    (hget : s'.hot.get? key = s.hot.get? key) (hdirty : s'.hotDirty = s.hotDirty)
    (hcold : s.cold ≠ [] → s'.cold ≠ []) (hwaking : s.waking ≤ s'.waking)
    (hmarking : s.marking ≤ s'.marking) : s'.Pending n key body := by
  unfold Pending at h ⊢
  rw [hwriter, hget, hdirty]
  refine h.imp_right (And.imp_right (Or.imp_right ?_))
  rintro (⟨hd, ha⟩ | ⟨hn, hd, hw⟩ | ⟨hn, hm⟩)
  · exact .inl ⟨hd, ha.imp_left hcold⟩
  · exact .inr (.inl ⟨hn, hd, Nat.lt_of_lt_of_le hw hwaking⟩)
  · exact .inr (.inr ⟨hn, Nat.lt_of_lt_of_le hm hmarking⟩)

/-- `hot_dirty.store(true)`, of whichever thread: the mark is set after it. -/
theorem Pending.markHot (h : s.Pending n key body) (k : Nat) (hpos : 1 ≤ n → 1 ≤ k) :
    s.markHot.Pending k key body := by
  unfold Link.markHot
  split
  · rename_i hzero
    refine h.imp_right (And.imp_right (Or.imp_right ?_))
    rintro (ha | ⟨hn, hw⟩ | ⟨-, hm⟩)
    · exact .inl ha
    · exact .inr (.inl ⟨hpos hn, hw⟩)
    · omega
  · refine h.imp_right (And.imp_right (Or.imp_right ?_))
    rintro (⟨-, ha⟩ | ⟨hn, -⟩ | ⟨hn, -⟩)
    · exact .inl ⟨rfl, ha⟩
    · exact .inr (.inl ⟨hpos hn, rfl, Nat.succ_pos _⟩)
    · exact .inr (.inl ⟨hpos (Nat.le_of_succ_le hn), rfl, Nat.succ_pos _⟩)

/-- A `Wake`, of whichever thread: there is something to wake the writer after it. -/
theorem Pending.wake (h : s.Pending n key body) (k : Nat) (hmarks : 2 ≤ n → 2 ≤ k) :
    s.wake.Pending k key body := by
  unfold Link.wake
  split
  · rename_i hzero
    refine h.imp_right (And.imp_right (Or.imp_right ?_))
    rintro (ha | ⟨-, -, hw⟩ | ⟨hn, hm⟩)
    · exact .inl ha
    · omega
    · exact .inr (.inr ⟨hmarks hn, hm⟩)
  · -- a channel without room for the `Wake` is not empty
    have hne : (if s.cold.length < outRoom then s.cold ++ [.wake] else s.cold) ≠ [] := by
      split
      · simp
      · rename_i hfull
        intro hnil
        simp [hnil, outRoom] at hfull
    refine h.imp_right (And.imp_right (Or.imp_right ?_))
    rintro (⟨hd, -⟩ | ⟨-, hd, -⟩ | ⟨hn, hm⟩)
    · exact .inl ⟨hd, .inl hne⟩
    · exact .inl ⟨hd, .inl hne⟩
    · exact .inr (.inr ⟨hmarks hn, hm⟩)

private theorem frame_grown (s : Link) (f : OutFrame) :
    (s.frame f).writer = s.writer ∧ (s.frame f).hot = s.hot ∧ (s.frame f).hotDirty = s.hotDirty ∧
      (s.cold ≠ [] → (s.frame f).cold ≠ []) ∧ s.waking ≤ (s.frame f).waking ∧
      (s.frame f).marking = s.marking := by
  unfold Link.frame Link.pushPrio
  split <;> split <;> simp

private theorem eventTry_grown (s : Link) (b : List UInt8) :
    (s.eventTry b).writer = s.writer ∧ (s.eventTry b).hot = s.hot ∧
      (s.eventTry b).hotDirty = s.hotDirty ∧ (s.eventTry b).cold = s.cold ∧
      s.waking ≤ (s.eventTry b).waking ∧ (s.eventTry b).marking = s.marking := by
  unfold Link.eventTry Link.pushPrio
  split <;> simp

private theorem connect_grown (secret : String) (s : Link) (first : AttachFrame)
    (cloned wrote : Bool) :
    ∃ addons aux seq, s.connect secret first cloned wrote =
      { s with addons := addons, aux := aux, auxSeq := seq } := by
  unfold Link.connect Link.auxAdd
  split
  · exact ⟨_, _, _, rfl⟩
  · split
    · exact ⟨_, _, _, rfl⟩
    · exact ⟨_, _, _, rfl⟩
    · split <;> exact ⟨_, _, _, rfl⟩
    · exact ⟨_, _, _, rfl⟩

/-- A value on its way stays so until it is written, or a newer one of its key comes. -/
theorem Pending.step (h : s.Pending n key body) (secret : String) {act : Act}
    (hnewer : ¬ act.Puts key) (hminds : s.MindsHot act)
    (hsink : s.addons.sink = none ∨ (s.step secret act).addons.sink = s.addons.sink) :
    (s.step secret act).Pending n key body ∨ ∃ c, s.addons.sink = some c ∧
      (s.step secret act).written = s.written ++ [(c, ⟨.hot, body⟩)] := by
  cases act with
  -- what may grow beside it leaves the value pending
  | frame f =>
    obtain ⟨hwriter, hhot, hdirty, hcold, hwaking, hmarking⟩ := s.frame_grown f
    exact .inl (h.of_grown hwriter (congrArg (·.get? key) hhot) hdirty hcold hwaking hmarking.ge)
  | eventTry b =>
    obtain ⟨hwriter, hhot, hdirty, hcold, hwaking, hmarking⟩ := s.eventTry_grown b
    exact .inl (h.of_grown hwriter (congrArg (·.get? key) hhot) hdirty (fun hne => hcold ▸ hne)
      hwaking hmarking.ge)
  | wake => exact .inl (h.wake n id)
  -- a value of another key
  | putHot key' b =>
    have hget : (s.hot.insert key' b).get? key = s.hot.get? key := Dict.get?_insert_of_ne _ _ hnewer
    exact .inl (h.of_grown rfl hget rfl id (Nat.le_refl _) (Nat.le_succ _))
  | markHot => exact .inl (h.markHot n id)
  -- connections and replies do not touch the hot map
  | connect first cloned wrote =>
    obtain ⟨addons, aux, seq, heq⟩ := s.connect_grown secret first cloned wrote
    left
    show (s.connect secret first cloned wrote).Pending n key body
    rw [heq]
    exact h
  | serve reply fails spawned =>
    obtain ⟨written, heq⟩ := s.serve_eq reply fails spawned
    left
    show (s.serve reply fails spawned).Pending n key body
    rw [heq]
    exact h
  | reader c => exact .inl h
  | auxRemove id => exact .inl h
  -- only the writer can take it, and then it is written or still in its hand
  | write fails lost pick =>
    refine h.write (s.write_step fails lost pick) (hminds.imp_right fun hhot bodies hw => ?_) hsink
    rw [hw] at hhot
    exact hhot

/-- While no addon is attached, a value stays in the map, and the map marked. -/
theorem Held.step (h : s.Held key body) (secret : String) {act : Act} (hnewer : ¬ act.Puts key)
    (hminds : s.MindsHot act) (hnobody : s.addons.attached = false) :
    (s.step secret act).Held key body := by
  obtain ⟨hget, hmark⟩ := h
  have hentries : s.hot.entries ≠ [] := by
    intro hnil
    have hmem := (s.hot.mem_entries_iff key body).mpr hget
    rw [hnil] at hmem
    cases hmem
  cases act with
  | frame f =>
    obtain ⟨-, hhot, hdirty, -, -, hmarking⟩ := s.frame_grown f
    refine ⟨(congrArg (·.get? key) hhot).trans hget, ?_⟩
    show (s.frame f).hotDirty = true ∨ 0 < (s.frame f).marking
    rw [hdirty, hmarking]
    exact hmark
  | eventTry b =>
    obtain ⟨-, hhot, hdirty, -, -, hmarking⟩ := s.eventTry_grown b
    refine ⟨(congrArg (·.get? key) hhot).trans hget, ?_⟩
    show (s.eventTry b).hotDirty = true ∨ 0 < (s.eventTry b).marking
    rw [hdirty, hmarking]
    exact hmark
  | wake =>
    show s.wake.Held key body
    unfold Link.wake
    split <;> exact ⟨hget, hmark⟩
  | putHot key' b =>
    exact ⟨(Dict.get?_insert_of_ne _ _ hnewer).trans hget, hmark.imp_right Nat.lt_succ_of_lt⟩
  | markHot =>
    show s.markHot.Held key body
    unfold Link.markHot
    split
    · exact ⟨hget, hmark⟩
    · exact ⟨hget, .inl rfl⟩
  | connect first cloned wrote =>
    obtain ⟨addons, aux, seq, heq⟩ := s.connect_grown secret first cloned wrote
    show (s.connect secret first cloned wrote).Held key body
    rw [heq]
    exact ⟨hget, hmark⟩
  | serve reply fails spawned =>
    obtain ⟨written, heq⟩ := s.serve_eq reply fails spawned
    show (s.serve reply fails spawned).Held key body
    rw [heq]
    exact ⟨hget, hmark⟩
  | reader c => exact ⟨hget, hmark⟩
  | auxRemove id => exact ⟨hget, hmark⟩
  | write fails lost pick =>
    have hhot := hminds.resolve_left (by simp [hnobody])
    show (s.write fails lost pick).Held key body
    have hstep := s.write_step fails lost pick
    generalize s.write fails lost pick = s' at hstep ⊢
    cases hstep with
    | checks hw =>
      -- the mark is not set yet, so there is none to take
      rw [hw] at hhot
      have hclean : s.hotDirty = false := hhot.resolve_right hentries
      exact ⟨hget, .inr (hmark.resolve_left (by simp [hclean]))⟩
    | collects hw =>
      rw [hw] at hhot
      exact absurd hhot hentries
    | event f after hw hevent => exact ⟨by simpa using hget, by simpa using hmark⟩
    | writes f after c hw hevent hsome => exact ⟨by simpa using hget, by simpa using hmark⟩
    | breaks bodies hw hne hattached => exact ⟨hget, .inl rfl⟩
    | _ => exact ⟨hget, hmark⟩

end

/-! ## As time goes on -/

/-- The link, after so many of the actions that happen. -/
def trace (secret : String) (acts : Nat → Act) : Nat → Link
  | 0 => {}
  | n + 1 => (trace secret acts n).step secret (acts n)

/-- Every thread goes on: the writer has its turns and comes through its priority queue, and
    the marks and the `Wake`s that are ahead come. -/
structure Fair (secret : String) (acts : Nat → Act) : Prop where
  writes : ∀ n, ∃ m, n ≤ m ∧ ∃ fails lost pick, acts m = .write fails lost pick
  drains : ∀ n, ∃ m, n ≤ m ∧ ¬ (trace secret acts m).writer.Drains
  marks : ∀ n, ∃ m, n ≤ m ∧ acts m = .markHot
  wakes : ∀ n, ∃ m, n ≤ m ∧ acts m = .wake

/-- A hot value that comes while no addon is attached survives that, unless a newer one of its
    key comes: as long as no addon is attached it is in the map, marked, and the next addon
    gets it if it stays. -/
def KeepsHot (secret : String) (acts : Nat → Act) : Prop :=
  ∀ m key body, acts m = .putHot key body → (trace secret acts m).addons.attached = false →
    (∀ n, m < n → (∀ i, m < i → i < n → ¬ (acts i).Puts key) →
      (∀ i, m ≤ i → i ≤ n → (trace secret acts i).addons.attached = false) →
      (trace secret acts n).Held key body) ∧
    ∀ q c, m < q → (∀ i, m ≤ i → i < q → (trace secret acts i).addons.sink = none) →
      (∀ i, q ≤ i → (trace secret acts i).addons.sink = some c) → Fair secret acts →
      ∃ n, m < n ∧ ((acts n).Puts key ∨
        (trace secret acts (n + 1)).written =
          (trace secret acts n).written ++ [(c, ⟨.hot, body⟩)])

/-- Only the writer's turns move it. -/
private theorem step_writer (secret : String) (s : Link) {act : Act}
    (h : ¬ ∃ fails lost pick, act = .write fails lost pick) :
    (s.step secret act).writer = s.writer := by
  cases act with
  | frame f => exact (s.frame_grown f).1
  | eventTry b => exact (s.eventTry_grown b).1
  | wake =>
    -- a wake-up and a mark leave the writer where it is
    show s.wake.writer = s.writer
    unfold Link.wake
    split <;> rfl
  | putHot key body => rfl
  | markHot =>
    show s.markHot.writer = s.writer
    unfold Link.markHot
    split <;> rfl
  | connect first cloned wrote =>
    -- so do a connection and a reply
    obtain ⟨addons, aux, seq, heq⟩ := s.connect_grown secret first cloned wrote
    show (s.connect secret first cloned wrote).writer = s.writer
    rw [heq]
  | serve reply fails spawned =>
    obtain ⟨written, heq⟩ := s.serve_eq reply fails spawned
    show (s.serve reply fails spawned).writer = s.writer
    rw [heq]
  | reader c => rfl
  | auxRemove id => rfl
  | write fails lost pick => exact absurd ⟨fails, lost, pick, rfl⟩ h

/-- A turn of the writer outside its priority queue. -/
def Turn (secret : String) (acts : Nat → Act) (n : Nat) : Prop :=
  (∃ fails lost pick, acts n = .write fails lost pick) ∧ ¬ (trace secret acts n).writer.Drains

/-- There is always another turn. -/
private theorem Fair.exists_turn {secret : String} {acts : Nat → Act} (h : Fair secret acts)
    (n : Nat) :
    ∃ m, n ≤ m ∧ Turn secret acts m := by
  obtain ⟨i, hi, hdrains⟩ := h.drains n
  obtain ⟨N, hN, hwrite⟩ := h.writes i
  -- until its next turn the writer is where it is
  obtain ⟨m, hm, hturn⟩ := exists_of_ends (Q := Turn secret acts)
    (P := fun m => ¬ (trace secret acts m).writer.Drains) hdrains (fun m _ hP => by
      by_cases hact : ∃ fails lost pick, acts m = .write fails lost pick
      · exact .inl ⟨hact, hP⟩
      · right
        rw [trace, step_writer secret _ hact]
        exact hP) hN fun hP => ⟨hwrite, hP⟩
  exact ⟨m, Nat.le_trans hi hm, hturn⟩

/-- How far a value in the writer's hands is from being written. -/
def inHandRank : WriterPhase → Nat
  | .sendingHot bodies => 3 * bodies.length
  | .writing _ (.hot rest) => 3 * rest.length + 2
  | .telling _ (.hot rest) => 3 * rest.length + 1
  | _ => 0

/-- How far the writer is from the hot values. -/
def toHotRank : WriterPhase → Nat
  | .collecting => 0
  | .checking => 1
  | .telling _ .check => 2
  | .writing _ .check => 3
  | .draining _ => 4
  | .writing _ (.drain _) => 4
  | .telling _ (.drain _) => 4
  | .waiting => 5
  | .flushing => 6
  | .sendingHot bodies => 3 * bodies.length + 7
  | .telling _ (.hot rest) => 3 * rest.length + 8
  | .writing _ (.hot rest) => 3 * rest.length + 9

section

variable {s s' : Link} {fails : Bool} {lost : List Nat} {key body : List UInt8} {c : Nat}

private theorem inHandRank_write (h : s.writer.HasHot body) (hstep : WriterStep s fails lost s')
    (hsink : s.addons.sink = some c) (hattached : s.addons.attached = true) :
    inHandRank s'.writer < inHandRank s.writer := by
  cases hstep with
  -- the frame in hand is written to the auxiliary clients, to the sink, and told
  | event f after hw hevent =>
    rw [hw] at h ⊢
    cases after with
    | hot rest => simp [inHandRank]
    | _ => exact h.elim
  | writes f after d hw hevent hsome =>
    rw [hw] at h ⊢
    cases after with
    | hot rest => simp [inHandRank, AfterWrite.phase]
    | _ => exact h.elim
  | tells b after hw =>
    rw [hw] at h ⊢
    cases after with
    | hot rest => simp [inHandRank, AfterWrite.phase]
    | _ => exact h.elim
  -- the next of the bodies: one less is left
  | picks bodies rest b hw hperm hthere =>
    have hlen : bodies.length = rest.length + 1 := by simpa using hperm.length_eq
    simp only [hw, inHandRank]
    omega
  -- it waits or breaks only with no sink attached
  | waits f after hw hevent hnone => simp [hsink] at hnone
  | breaks bodies hw hne hgone => simp [hattached] at hgone
  -- in every other phase the value is not in hand
  | asleep hw hcold => simp [hw, WriterPhase.HasHot] at h
  | ends hw => simp [hw, WriterPhase.HasHot] at h
  | _ => simp [*, WriterPhase.HasHot] at h

private theorem toHotRank_write (hstep : WriterStep s fails lost s')
    (hsink : s.addons.sink = some c)
    (hattached : s.addons.attached = true) (hahead : s.cold ≠ [] ∨ s.writer.WillCheck)
    (hdirty : s.hotDirty = true) (hnot : s.writer ≠ .collecting) :
    toHotRank s'.writer ≤ toHotRank s.writer ∧
      (¬ s.writer.Drains → toHotRank s'.writer < toHotRank s.writer) := by
  cases hstep with
  -- asleep with nothing queued, or with no sink: the value would not be on its way
  | asleep hw hcold => simp [hw, hcold, WriterPhase.WillCheck] at hahead
  | wakes item cold hw hcold => simp [hw, toHotRank]
  | takes item f prio hw hprio => simp [hw, toHotRank, WriterPhase.Drains]
  | turns f hw hprio => simp [hw, toHotRank]
  | woken hw hprio => simp [hw, toHotRank]
  | event f after hw hevent => cases after <;> simp [hw, toHotRank, WriterPhase.Drains]
  | waits f after hw hevent hnone => simp [hsink] at hnone
  | writes f after d hw hevent hsome =>
    -- what is picked makes the rest shorter; the frame after it is counted at its pick
    cases after <;> simp [hw, toHotRank, AfterWrite.phase, WriterPhase.Drains]
  | tells b after hw =>
    cases after <;> simp [hw, toHotRank, AfterWrite.phase, WriterPhase.Drains]
  | checks hw => simp [hw, hdirty, toHotRank]
  | collects hw => exact absurd hw hnot
  | picks bodies rest b hw hperm hthere =>
    have hlen : bodies.length = rest.length + 1 := by simpa using hperm.length_eq
    simp only [hw, toHotRank]
    omega
  | breaks bodies hw hne hgone => simp [hattached] at hgone
  | ends hw => simp [hw, toHotRank]
  | flushes hw => simp [hw, toHotRank]

end

/-! ## Whoever is the sink is attached -/

private theorem attached_of_sink_step {secret : String} {s : Link}
    (h : s.addons.sink ≠ none → s.addons.attached = true) (act : Act) :
    (s.step secret act).addons.sink ≠ none → (s.step secret act).addons.attached = true := by
  have hset : ∀ (a : Attachment) stream, (a.setSink stream).sink ≠ none →
      (a.setSink stream).attached = true := fun a stream hne =>
    Option.isSome_iff_ne_none.mpr hne
  have hstep := addons_step secret s act
  generalize (s.step secret act).addons = a at hstep ⊢
  cases hstep with
  | stays => exact h
  | admits => exact fun _ => rfl
  | serves reply fails spawned =>
    -- only the greeting of the server seats an addon
    unfold Attachment.serve
    split
    · exact h
    · exact hset s.addons _
    · exact h
    · exact h
    · exact h
  | reads c =>
    -- only the addon that reads seats itself anew
    unfold Attachment.read
    split
    · exact h
    · exact h
    · exact hset s.addons _
    · exact h
    · exact h
  | drops =>
    unfold Attachment.drop
    cases hsink : s.addons.sink with
    | none => exact fun hne => absurd hsink hne
    | some c => exact fun hne => absurd rfl hne

private theorem attached_of_sink (secret : String) (acts : Nat → Act) (n : Nat) :
    (trace secret acts n).addons.sink ≠ none → (trace secret acts n).addons.attached = true := by
  induction n with
  | zero => exact fun h => absurd rfl h
  | succ n ih => exact attached_of_sink_step ih _

/-! ## The value is written -/

section

variable {secret : String} {acts : Nat → Act} {key body : List UInt8} {q c k : Nat}

/-- The value is written at this moment, or a newer one comes. -/
def Leaves (secret : String) (acts : Nat → Act) (key body : List UInt8) (c n : Nat) : Prop :=
  (acts n).Puts key ∨ (trace secret acts (n + 1)).written =
    (trace secret acts n).written ++ [(c, ⟨.hot, body⟩)]

private theorem pending_next (hminds : ∀ n, (trace secret acts n).MindsHot (acts n)) {m : Nat}
    (hsink : (trace secret acts m).addons.sink = none ∨
      (trace secret acts m).addons.sink = some c ∧ (trace secret acts (m + 1)).addons.sink = some c)
    (h : (trace secret acts m).Pending k key body) :
    Leaves secret acts key body c m ∨ (trace secret acts (m + 1)).Pending k key body := by
  by_cases hput : (acts m).Puts key
  · exact .inl (.inl hput)
  · have hstays : (trace secret acts m).addons.sink = none ∨
        ((trace secret acts m).step secret (acts m)).addons.sink =
          (trace secret acts m).addons.sink :=
      hsink.imp_right fun hs => hs.2.trans hs.1.symm
    rcases h.step secret hput (hminds m) hstays with hpending | ⟨d, hd, hwritten⟩
    · exact .inr hpending
    · left
      right
      rcases hsink with hnone | ⟨hsome, -⟩
      · rw [hnone] at hd
        cases hd
      · rw [hsome] at hd
        obtain rfl := Option.some.inj hd
        exact hwritten

variable (hminds : ∀ n, (trace secret acts n).MindsHot (acts n))
  (hsink : ∀ i, q ≤ i → (trace secret acts i).addons.sink = some c) (hfair : Fair secret acts)

include hminds hsink hfair

omit hminds in
-- the value falls from phase to phase, by induction on its rank in the hand
private theorem leaves_of_hasHot {n : Nat} (hn : q ≤ n)
    (h : (trace secret acts n).writer.HasHot body) :
    ∃ m, n ≤ m ∧ Leaves secret acts key body c m := by
  refine exists_of_falls (P := fun m => (trace secret acts m).writer.HasHot body)
    (f := fun m => inHandRank (trace secret acts m).writer) hfair.exists_turn h fun m hm hhot => ?_
  have hq := Nat.le_trans hn hm
  have hthere := hsink m hq
  -- the writer's turn: the value is written, or still in its hand with less before it
  by_cases hact : ∃ fails lost pick, acts m = .write fails lost pick
  · obtain ⟨fails, lost, pick, heq⟩ := hact
    have hstep := (trace secret acts m).write_step fails lost pick
    have hnext : trace secret acts (m + 1) = (trace secret acts m).write fails lost pick := by
      rw [trace, heq]
      rfl
    have hattached := attached_of_sink secret acts m (by simp [hthere])
    have hstays : (trace secret acts (m + 1)).addons.sink = (trace secret acts m).addons.sink :=
      (hsink (m + 1) (Nat.le_succ_of_le hq)).trans hthere.symm
    rw [← hnext] at hstep
    rcases HasHot.write hhot hstep (.inl hattached) (.inr hstays) with hstill | ⟨d, hd, hwritten⟩
    · have hfall := inHandRank_write hhot hstep hthere hattached
      exact .inr ⟨hstill, Nat.le_of_lt hfall, fun _ => hfall⟩
    · rw [hthere] at hd
      obtain rfl := Option.some.inj hd
      exact .inl (.inr hwritten)
  · -- any other action leaves the writer alone
    have hwriter : (trace secret acts (m + 1)).writer = (trace secret acts m).writer :=
      step_writer secret _ hact
    exact .inr ⟨hwriter ▸ hhot, by rw [hwriter], fun hturn => absurd hturn.1 hact⟩

private theorem leaves_of_collecting {n : Nat} (hn : q ≤ n)
    (h : (trace secret acts n).Pending 0 key body)
    (hw : (trace secret acts n).writer = .collecting) :
    ∃ m, n ≤ m ∧ Leaves secret acts key body c m := by
  obtain ⟨m, hm, hleaves | hhot⟩ := exists_of_falls
    (P := fun m => (trace secret acts m).Pending 0 key body ∧
      (trace secret acts m).writer = .collecting)
    (Q := fun m => Leaves secret acts key body c m ∨ (trace secret acts (m + 1)).writer.HasHot body)
    (f := fun _ => 0) hfair.exists_turn ⟨h, hw⟩ fun m hm ⟨hpending, hw⟩ => by
      have hq := Nat.le_trans hn hm
      by_cases hact : ∃ fails lost pick, acts m = .write fails lost pick
      · -- the writer empties the map
        obtain ⟨fails, lost, pick, heq⟩ := hact
        refine .inl (.inr ?_)
        have hget : (trace secret acts m).hot.get? key = some body := by
          rcases hpending with hhot | ⟨hget, -⟩
          · rw [hw] at hhot
            exact hhot.elim
          · exact hget
        rw [trace, heq]
        simp only [step, write, hw, WriterPhase.HasHot]
        exact List.mem_map.mpr ⟨(key, body), (Dict.mem_entries_iff _ key body).mpr hget, rfl⟩
      · rcases pending_next hminds (.inr ⟨hsink m hq, hsink (m + 1) (Nat.le_succ_of_le hq)⟩)
          hpending with hleaves | hnext
        · exact .inl (.inl hleaves)
        · exact .inr ⟨⟨hnext, (step_writer secret _ hact).trans hw⟩, Nat.le_refl _,
            fun hturn => absurd hturn.1 hact⟩
  · exact ⟨m, hm, hleaves⟩
  · obtain ⟨m', hm', hleaves⟩ := leaves_of_hasHot hsink hfair
      (Nat.le_trans hn (Nat.le_succ_of_le hm)) hhot
    exact ⟨m', Nat.le_trans (Nat.le_succ_of_le hm) hm', hleaves⟩

/-- The writer is awake, or has something to wake it. -/
private theorem leaves_of_ahead {n : Nat} (hn : q ≤ n)
    (h : (trace secret acts n).Pending 0 key body) :
    ∃ m, n ≤ m ∧ Leaves secret acts key body c m := by
  -- the writer comes nearer to the map, or has the value already
  obtain ⟨m, hm, hleaves | ⟨hpending, hhot | hw⟩⟩ := exists_of_falls
    (P := fun m => (trace secret acts m).Pending 0 key body)
    (Q := fun m => Leaves secret acts key body c m ∨ (trace secret acts m).Pending 0 key body ∧
      ((trace secret acts m).writer.HasHot body ∨ (trace secret acts m).writer = .collecting))
    (f := fun m => toHotRank (trace secret acts m).writer) hfair.exists_turn h
    fun m hm hpending => by
      have hq := Nat.le_trans hn hm
      have hthere := hsink m hq
      by_cases hnear : (trace secret acts m).writer.HasHot body ∨
          (trace secret acts m).writer = .collecting
      · exact .inl (.inr ⟨hpending, hnear⟩)
      obtain ⟨hhot, hnot⟩ := not_or.mp hnear
      rcases pending_next hminds (.inr ⟨hthere, hsink (m + 1) (Nat.le_succ_of_le hq)⟩) hpending
        with hleaves | hnext
      · exact .inl (.inl hleaves)
      right
      by_cases hact : ∃ fails lost pick, acts m = .write fails lost pick
      · obtain ⟨fails, lost, pick, heq⟩ := hact
        have hstep := (trace secret acts m).write_step fails lost pick
        have hwrite : trace secret acts (m + 1) = (trace secret acts m).write fails lost pick := by
          rw [trace, heq]
          rfl
        rw [← hwrite] at hstep
        obtain ⟨hdirty, hahead⟩ : (trace secret acts m).hotDirty = true ∧
            ((trace secret acts m).cold ≠ [] ∨ (trace secret acts m).writer.WillCheck) := by
          rcases (hpending.resolve_left hhot).2.resolve_left hnot with ha | ⟨hle, -⟩ | ⟨hle, -⟩
          · exact ha
          · omega
          · omega
        have hrank := toHotRank_write hstep hthere
          (attached_of_sink secret acts m (by simp [hthere])) hahead hdirty hnot
        exact ⟨hnext, hrank.1, fun hturn => hrank.2 hturn.2⟩
      · have hwriter : (trace secret acts (m + 1)).writer = (trace secret acts m).writer :=
          step_writer secret _ hact
        exact ⟨hnext, by rw [hwriter], fun hturn => absurd hturn.1 hact⟩
  · exact ⟨m, hm, hleaves⟩
  · obtain ⟨m', hm', hleaves⟩ := leaves_of_hasHot hsink hfair (Nat.le_trans hn hm) hhot
    exact ⟨m', Nat.le_trans hm hm', hleaves⟩
  · obtain ⟨m', hm', hleaves⟩ := leaves_of_collecting hminds hsink hfair (Nat.le_trans hn hm)
      hpending hw
    exact ⟨m', Nat.le_trans hm hm', hleaves⟩

/-- Every value on its way is written in the end. -/
private theorem leaves_of_pending {n : Nat} (hn : q ≤ n)
    (h : (trace secret acts n).Pending 2 key body) :
    ∃ m, n ≤ m ∧ Leaves secret acts key body c m := by
  have hnext : ∀ k m, n ≤ m → (trace secret acts m).Pending k key body →
      Leaves secret acts key body c m ∨ (trace secret acts (m + 1)).Pending k key body :=
    fun k m hm hpending => pending_next hminds
      (.inr ⟨hsink m (Nat.le_trans hn hm), hsink (m + 1) (Nat.le_trans hn (Nat.le_succ_of_le hm))⟩)
      hpending
  rcases exists_or_stays h (hnext 2) with hleaves | hstays
  · exact hleaves
  -- first the mark, then the `Wake`
  obtain ⟨i, hi, hmark⟩ := hfair.marks n
  have hmarked : (trace secret acts (i + 1)).Pending 1 key body := by
    rw [trace, hmark]
    exact (hstays i hi).2.markHot 1 (fun _ => Nat.le_refl 1)
  have hi' := Nat.le_succ_of_le hi
  rcases exists_or_stays hmarked (fun m hm => hnext 1 m (Nat.le_trans hi' hm)) with
    hleaves | hstays'
  · obtain ⟨m, hm, hleaves⟩ := hleaves
    exact ⟨m, Nat.le_trans hi' hm, hleaves⟩
  obtain ⟨j, hj, hwake⟩ := hfair.wakes (i + 1)
  have hwoken : (trace secret acts (j + 1)).Pending 0 key body := by
    rw [trace, hwake]
    exact (hstays' j hj).2.wake 0 (fun hle => by omega)
  have hj' := Nat.le_trans hi' (Nat.le_succ_of_le hj)
  obtain ⟨m, hm, hleaves⟩ := leaves_of_ahead hminds hsink hfair (Nat.le_trans hn hj') hwoken
  exact ⟨m, Nat.le_trans hj' hm, hleaves⟩

end

/-- A value that came while no addon was attached is held until one attaches. -/
private theorem held_trace {secret : String} {acts : Nat → Act}
    (hminds : ∀ n, (trace secret acts n).MindsHot (acts n)) {m : Nat} {key body : List UInt8}
    (hput : acts m = .putHot key body) {n : Nat} (hmn : m < n)
    (hlatest : ∀ i, m < i → i < n → ¬ (acts i).Puts key)
    (hnobody : ∀ i, m ≤ i → i ≤ n → (trace secret acts i).addons.attached = false) :
    (trace secret acts n).Held key body := by
  induction n, hmn using Nat.le_induction with
  | base =>
    rw [trace, hput]
    exact ⟨Dict.get?_insert_self .., .inr (Nat.succ_pos _)⟩
  | succ n hn ih =>
    have hheld := ih (fun i hi hin => hlatest i hi (Nat.lt_succ_of_lt hin))
      fun i hi hin => hnobody i hi (Nat.le_succ_of_le hin)
    exact hheld.step secret (hlatest n hn (Nat.lt_succ_self n)) (hminds n)
      (hnobody n (Nat.le_of_succ_le hn) (Nat.le_succ n))

/-- Where the writer comes to hot values only while an addon is attached, hot values survive
    having no addon. -/
theorem hot_values_survive {secret : String} {acts : Nat → Act}
    (h : ∀ n, (trace secret acts n).MindsHot (acts n)) : KeepsHot secret acts := by
  intro m key body hput hnobody
  refine ⟨fun n hmn hlatest hgone => held_trace h hput hmn hlatest hgone, ?_⟩
  intro q c hmq hnone hsink hfair
  have hpending : (trace secret acts (m + 1)).Pending 2 key body := by
    rw [trace, hput]
    exact .inr ⟨Dict.get?_insert_self .., .inr (.inr (.inr ⟨Nat.le_refl 2, Nat.succ_pos _⟩))⟩
  -- until the addon is in the sink nothing is written
  have huntil : ∀ n, m + 1 ≤ n → n ≤ q →
      (∃ i, m < i ∧ Leaves secret acts key body c i) ∨
        (trace secret acts n).Pending 2 key body := by
    intro n hmn
    induction n, hmn using Nat.le_induction with
    | base => exact fun _ => .inr hpending
    | succ n hn ih =>
      intro hnq
      rcases ih (Nat.le_of_succ_le hnq) with hleaves | hstill
      · exact .inl hleaves
      · exact (pending_next h (.inl (hnone n (Nat.le_of_succ_le hn) hnq)) hstill).imp_left
          fun hleaves => ⟨n, hn, hleaves⟩
  rcases huntil q hmq (Nat.le_refl q) with hleaves | hstill
  · exact hleaves
  · obtain ⟨n, hn, hleaves⟩ := leaves_of_pending h hsink hfair (Nat.le_refl q) hstill
    exact ⟨n, Nat.lt_of_lt_of_le hmq hn, hleaves⟩

/-- The turns of a link with nothing to do, over and over. -/
def idleTurn (n : Nat) : Act :=
  match n % 3 with
  | 0 => .wake
  | 1 => .markHot
  | _ => .write false [] 0

/-- What happens, and then nothing but those turns. -/
def schedule (l : List Act) (n : Nat) : Act := (l[n]?).getD (idleTurn n)

/-- A hot value comes, and its thread goes through. -/
def hotActs : List Act := [.putHot [1] [7], .markHot, .wake]

/-- The addon is there before the writer wakes up. -/
def attachedActs : List Act := hotActs ++ attachActs "s" ++ List.replicate 8 (.write false [] 0)

/-- Turns that find nothing to do change nothing. -/
private theorem step_idle {secret : String} {s : Link} (hwriter : s.writer = .waiting)
    (hcold : s.cold = []) (hmarking : s.marking = 0) (hwaking : s.waking = 0) (n : Nat) :
    s.step secret (idleTurn n) = s := by
  unfold idleTurn
  split
  · show s.wake = s
    rw [Link.wake, if_pos hwaking]
  · show s.markHot = s
    rw [Link.markHot, if_pos hmarking]
  · -- the writer waits for an item of the cold queue
    show s.write false [] 0 = s
    simp only [Link.write, hwriter, hcold]

private theorem schedule_attached {n : Nat} (h : 16 ≤ n) :
    schedule attachedActs n = idleTurn n := by
  have hend : attachedActs[n]? = none := List.getElem?_eq_none h
  unfold schedule
  rw [hend]
  rfl

/-- Once the value is written, the link stays as it is. -/
private theorem trace_attached {n : Nat} (h : 16 ≤ n) :
    trace "s" (schedule attachedActs) n = trace "s" (schedule attachedActs) 16 := by
  induction n, h using Nat.le_induction with
  | base => rfl
  | succ n hn ih =>
    rw [trace, ih, schedule_attached hn]
    exact step_idle (by decide) (by decide) (by decide) (by decide) n

private theorem fair_attached : Fair "s" (schedule attachedActs) := by
  -- behind the list each of the three comes at every third time
  have hturn : ∀ n k, 16 ≤ n → n % 3 = k → schedule attachedActs n = idleTurn k := by
    rintro n k hn rfl
    rw [schedule_attached hn, idleTurn, idleTurn, Nat.mod_mod]
  constructor
  · exact fun n => ⟨3 * (n + 6) + 2, by omega, false, [], 0, hturn _ 2 (by omega) (by omega)⟩
  · refine fun n => ⟨n + 16, by omega, ?_⟩
    have hwaiting : (trace "s" (schedule attachedActs) 16).writer = .waiting := by decide
    rw [trace_attached (Nat.le_add_left 16 n), hwaiting]
    exact id
  · exact fun n => ⟨3 * (n + 6) + 1, by omega, hturn _ 1 (by omega) (by omega)⟩
  · exact fun n => ⟨3 * (n + 6), by omega, hturn _ 0 (by omega) (by omega)⟩

/-- The value came before the addon, every thread goes on, and the addon gets the value. -/
theorem hot_values_survive_attached :
    Fair "s" (schedule attachedActs) ∧ KeepsHot "s" (schedule attachedActs) ∧
      (trace "s" (schedule attachedActs) 16).written = [(0, ⟨.event, []⟩), (0, ⟨.hot, [7]⟩)] := by
  refine ⟨fair_attached, hot_values_survive fun n => ?_, by decide⟩
  by_cases hn : n < 16
  · have hall : ∀ n < 16, (trace "s" (schedule attachedActs) n).MindsHot
        (schedule attachedActs n) := by decide
    exact hall n hn
  · -- an addon is attached from there on
    have hstate := trace_attached (Nat.le_of_not_lt hn)
    have hattached : (trace "s" (schedule attachedActs) n).addons.attached = true := by
      rw [hstate]
      decide
    cases hact : schedule attachedActs n with
    | write => exact .inl hattached
    | _ => trivial

/-- The writer is woken while no addon is attached: it drains the value and drops it. -/
theorem hot_values_survive_counterexample : ¬ ∀ secret acts, KeepsHot secret acts := by
  intro hall
  let acts := schedule (hotActs ++ List.replicate 5 (.write false [] 0))
  have hlatest : ∀ i < 8, 0 < i → ¬ (acts i).Puts [1] := by decide
  have hnobody : ∀ i < 9, (trace "s" acts i).addons.attached = false := by decide
  have hheld := (hall "s" acts 0 [1] [7] rfl rfl).1 8 (by decide)
    (fun i hi hlt => hlatest i hlt hi) (fun i _ hle => hnobody i (Nat.lt_succ_of_le hle))
  have hgone : ¬ (trace "s" acts 8).Held [1] [7] := by decide
  exact hgone hheld

end Link

end QCBridge
