import QCBridge.Spec.BlenderFollows
import QCBridge.Spec.Unattended

/-!
# A close is for one Blender

`close_blender` starts a thread that kills, ten seconds later, whatever Blender is stored by then,
and queues an event that goes to whatever addon is attached when the writer comes to it. Neither
has a name on it.

## Key results

- `Tracked`: a quit event on its way has an aim
- `Aimed`: nothing that is ahead goes to another Blender
- `closes_own_iff`: which runs keep it so
-/

namespace QCBridge

/-! ## Quit events on the link -/

namespace Link

/-- How many quit events are queued or in the writer's hand. -/
def quits (s : Link) : Nat := s.held.count quitFrame

/-- They are counted where they can be: in the writer's hand, behind it, and in the two queues. -/
private theorem quits_eq (s : Link) :
    s.quits = s.writer.inHand.count quitFrame + s.writer.behind.count quitFrame +
      s.prio.count quitFrame + (s.cold.flatMap Out.frames).count quitFrame := by
  unfold quits held behind
  simp only [List.count_append]
  omega

/-- The count depends on the writer and the queues alone. -/
private theorem quits_congr {s s' : Link} (hwriter : s'.writer = s.writer)
    (hprio : s'.prio = s.prio)
    (hcold : s'.cold = s.cold) : s'.quits = s.quits := by
  rw [quits_eq, quits_eq, hwriter, hprio, hcold]

/-- A frame that is pushed to the front lane counts if it is a quit event. -/
private theorem quits_pushPrio (s : Link) (f : OutFrame) :
    (s.pushPrio f).quits = s.quits + if f = quitFrame then 1 else 0 := by
  rw [quits_eq, quits_eq]
  show _ + _ + (s.prio ++ [f]).count quitFrame + _ = _
  rw [List.count_append, List.count_singleton]
  simp only [beq_iff_eq, pushPrio]
  omega

/-- What is queued behind counts with the quit events among its frames. -/
private theorem quits_cold (s : Link) (item : Out) :
    quits { s with cold := s.cold ++ [item] } = s.quits + item.frames.count quitFrame := by
  rw [quits_eq, quits_eq, List.flatMap_append, List.count_append]
  simp only [List.flatMap_cons, List.flatMap_nil, List.append_nil]
  omega

/-- A failed write drops the sink and no queued frame. -/
private theorem quits_writeSink (s : Link) (f : OutFrame) (fails : Bool) (w : WriterPhase) :
    quits { s.writeSink f fails with writer := w } = quits { s with writer := w } := by
  obtain ⟨hprio, hcold⟩ : (s.writeSink f fails).prio = s.prio ∧
      (s.writeSink f fails).cold = s.cold := by
    unfold writeSink
    split
    · exact ⟨rfl, rfl⟩
    · split <;> exact ⟨rfl, rfl⟩
  exact quits_congr rfl hprio hcold

/-- A quit event is an event. -/
private theorem ne_quitFrame {f : OutFrame} (h : f.kind ≠ .event) : f ≠ quitFrame := by
  rintro rfl
  exact h rfl

/-- A turn of the writer ends with the quit event in its hand, if there is one, and leaves the
    others. -/
private theorem quits_write {s s' : Link} {fails : Bool} {lost : List Nat}
    (h : WriterStep s fails lost s') :
    s'.quits + s.writer.inHand.count quitFrame = s.quits := by
  cases h with
  -- `cold.recv`: an item moves from the cold queue into the writer's hand
  | asleep hw hcold => simp [hw, WriterPhase.inHand]
  | wakes item cold hw hcold =>
    rw [quits_eq, quits_eq, hw, hcold, List.flatMap_cons, List.count_append]
    simp only [WriterPhase.inHand, WriterPhase.behind, List.count_nil]
    omega
  -- the priority queue is drained, frame by frame
  | takes item f prio hw hprio =>
    rw [quits_eq, quits_eq, hw, hprio]
    simp only [WriterPhase.inHand, WriterPhase.behind, AfterWrite.frames, List.count_nil,
      List.count_cons]
    omega
  | turns f hw hprio =>
    rw [quits_eq, quits_eq, hw]
    simp only [WriterPhase.inHand, WriterPhase.behind, Out.frames, AfterWrite.frames,
      List.count_nil]
    omega
  | woken hw hprio =>
    rw [quits_eq, quits_eq, hw]
    simp only [WriterPhase.inHand, WriterPhase.behind, Out.frames, List.count_nil]
    omega
  -- `write_sink`: an event goes to the auxiliary clients as well
  | event f after hw hevent =>
    rw [quits_writeSink, quits_eq, quits_eq, hw]
    simp only [WriterPhase.inHand, WriterPhase.behind, List.count_nil]
    omega
  -- a frame that goes to the sink only is no quit event
  | waits f after hw hevent hsink => simp [hw, WriterPhase.inHand, ne_quitFrame hevent]
  | writes f after c hw hevent hsink =>
    rw [quits_writeSink, quits_eq, quits_eq, hw]
    simp only [AfterWrite.phase_inHand, AfterWrite.phase_behind, WriterPhase.inHand_writing,
      WriterPhase.behind_writing, List.count_nil]
    omega
  | tells body after hw =>
    rw [quits_eq, quits_eq, hw]
    simp only [AfterWrite.phase_inHand, AfterWrite.phase_behind, WriterPhase.inHand_telling,
      WriterPhase.behind_telling, auxEvent, List.count_nil]
    omega
  -- the hot lane: its frames are of another kind
  | checks hw =>
    rw [quits_eq, quits_eq, hw]
    cases s.hotDirty <;> simp [WriterPhase.inHand, WriterPhase.behind]
  | collects hw =>
    rw [quits_eq, quits_eq, hw]
    simp [WriterPhase.inHand, WriterPhase.behind]
  | picks bodies rest body hw hperm hattached =>
    have hne : (⟨.hot, body⟩ : OutFrame) ≠ quitFrame :=
      ne_quitFrame FrameKind.noConfusion
    rw [quits_eq, quits_eq, hw]
    simp [WriterPhase.inHand, WriterPhase.behind, AfterWrite.frames, hne]
  | breaks bodies hw hne hattached =>
    rw [quits_eq, quits_eq, hw]
    simp [WriterPhase.inHand, WriterPhase.behind]
  | ends hw =>
    rw [quits_eq, quits_eq, hw]
    simp [WriterPhase.inHand, WriterPhase.behind]
  | flushes hw =>
    rw [quits_eq, quits_eq, hw]
    simp [WriterPhase.inHand, WriterPhase.behind]

/-- `event_try` queues a quit event only where there is room for it. -/
private theorem quits_eventTry (s : Link) (body : List UInt8) :
    (s.eventTry body).quits =
      s.quits + if s.prio.length < prioRoom ∧ body = quitBody then 1 else 0 := by
  have hqueue : (s.eventTry body).quits =
      (if s.prio.length < prioRoom then s.pushPrio ⟨.event, body⟩ else s).quits :=
    quits_congr rfl rfl rfl
  rw [hqueue]
  by_cases hroom : s.prio.length < prioRoom
  · rw [if_pos hroom, quits_pushPrio]
    simp [hroom, quitFrame]
  · rw [if_neg hroom, if_neg fun h => hroom h.1]
    rfl

/-- The actions of others leave the quit events. -/
private theorem quits_step (secret : String) (s : Link) {act : Act}
    (hact : Lifecycle.foreign act = true)
    (hwrite : ∀ fails lost pick, act ≠ .write fails lost pick) :
    (s.step secret act).quits = s.quits := by
  cases act with
  -- a frame of a replica is a quit event only if it is one by its bytes
  | frame f =>
    have hne : f ≠ quitFrame := by simpa [Lifecycle.foreign] using hact
    show (s.frame f).quits = s.quits
    unfold frame
    split
    · split
      · refine (quits_congr rfl rfl rfl).trans ((quits_pushPrio s f).trans ?_)
        rw [if_neg hne]
        rfl
      · rfl
    · split
      · rw [quits_cold]
        simp [Out.frames, hne]
      · rfl
  -- so is a body that is offered as an event
  | eventTry body =>
    have hne : body ≠ quitBody := by simpa [Lifecycle.foreign] using hact
    show (s.eventTry body).quits = s.quits
    rw [quits_eventTry, if_neg fun h => hne h.2]
    rfl
  -- marking and waking put nothing into a queue but the wake-up itself
  | wake =>
    show s.wake.quits = s.quits
    unfold wake
    split
    · rfl
    · split
      · exact (quits_congr rfl rfl rfl).trans (quits_cold s .wake)
      · exact quits_congr rfl rfl rfl
  | putHot key body => exact quits_congr rfl rfl rfl
  | markHot =>
    show s.markHot.quits = s.quits
    unfold markHot
    split
    · rfl
    · exact quits_congr rfl rfl rfl
  -- connections and replies leave the queues alone
  | connect first cloned wrote => cases hact
  | serve reply fails spawned =>
    obtain ⟨written, heq⟩ := s.serve_eq reply fails spawned
    show (s.serve reply fails spawned).quits = s.quits
    rw [heq]
    exact quits_congr rfl rfl rfl
  | reader c => exact quits_congr rfl rfl rfl
  | auxRemove id => exact quits_congr rfl rfl rfl
  | write fails lost pick => exact absurd rfl (hwrite fails lost pick)

/-- A client that connects brings its first frame, which is read and not queued. -/
private theorem quits_connect (secret : String) (s : Link) (first : AttachFrame)
    (cloned wrote : Bool) :
    (s.connect secret first cloned wrote).quits = s.quits := by
  unfold connect
  split
  · rfl
  · split
    · rfl
    · rfl
    · split
      · exact quits_congr rfl rfl rfl
      · rfl
    · exact quits_congr rfl rfl rfl

end Link

/-! ## Connections are numbered as they come -/

namespace Attachment

/-- The addons that are or become the sink have come. -/
structure Came (a : Attachment) : Prop where
  sink : ∀ c, a.sink = some c → c < a.conns
  seating : ∀ c, a.server = .seating c → c < a.conns

/-- The next addon takes the next number, so that all that have come are below it. -/
theorem Came.admission {a : Attachment} (h : a.Came) : a.admission.Came where
  sink c hc := Nat.lt_succ_of_lt (h.sink c hc)
  seating c hc := by
    cases hattached : a.attached with
    | true => simp [Attachment.admission, hattached] at hc
    | false =>
      have hconns : a.conns = c := by simpa [Attachment.admission, hattached] using hc
      exact hconns ▸ Nat.lt_succ_self a.conns

/-- The addon that is served had come. -/
theorem Came.serve {a : Attachment} (h : a.Came) (spawned : Bool) : (a.serve spawned).Came := by
  unfold Attachment.serve
  split
  · exact h
  · rename_i c hserver
    exact ⟨fun d hd => Option.some.inj hd ▸ h.seating c hserver, fun d hd => by cases hd⟩
  · exact ⟨h.sink, fun d hd => by cases hd⟩
  · exact ⟨h.sink, fun d hd => by cases hd⟩
  · exact ⟨h.sink, fun d hd => by cases hd⟩

/-- A reader only detaches. -/
theorem Came.read {a : Attachment} (h : a.Came) (c : Nat) : (a.read c).Came := by
  unfold Attachment.read
  split
  · exact h
  · exact ⟨h.sink, h.seating⟩
  · exact ⟨fun d hd => (by cases hd), h.seating⟩
  · exact ⟨h.sink, h.seating⟩
  · exact h

/-- So does a failed write. -/
theorem Came.drop {a : Attachment} (h : a.Came) : a.drop.Came := by
  unfold Attachment.drop
  cases a.sink with
  | none => exact h
  | some c => exact ⟨fun d hd => (by cases hd), h.seating⟩

end Attachment

/-- No action of the link makes up an addon. -/
private theorem Link.came_step {s : Link} (h : s.addons.Came) (secret : String) (act : Link.Act) :
    (s.step secret act).addons.Came := by
  have hstep := Link.addons_step secret s act
  generalize (s.step secret act).addons = a at hstep ⊢
  cases hstep with
  | stays => exact h
  | admits => exact h.admission
  | serves reply fails spawned => exact h.serve spawned
  | reads c => exact h.read c
  | drops => exact h.drop

/-! ## Closes and their aims -/

namespace Lifecycle

variable {secret : String} {s s' : Lifecycle}

/-- What holds in any run. -/
structure Tracked (s : Lifecycle) : Prop where
  child : ∀ k, s.child = some k → k < s.launched
  kills : ∀ t ∈ s.kills, t.aim < s.launched
  came : s.link.addons.Came
  /-- Every quit event on its way has an aim. -/
  aims : s.aims.length = s.link.quits

/-- Nothing that a close has set going reached another Blender than the one that it was called
    for, and nothing of it that is ahead goes to another. -/
structure Aimed (s : Lifecycle) : Prop where
  reached : ∀ hit ∈ s.reached, hit.2 = some hit.1
  kills : ∀ t ∈ s.kills, ∀ k, s.child = some k → k = t.aim
  quits : ∀ k ∈ s.aims, ∀ c, s.link.addons.sink = some c → s.owner c = some k

/-- The two states differ in nothing that a close has to do with. -/
structure Beside (s s' : Lifecycle) : Prop where
  link : s'.link = s.link
  child : s'.child = s.child
  launched : s'.launched = s.launched
  kills : s'.kills = s.kills
  owner : s'.owner = s.owner
  aims : s'.aims = s.aims
  reached : s'.reached = s.reached

/-- What holds in any run depends on none of the rest. -/
theorem Beside.tracked (h : Beside s s') (hs : s.Tracked) : s'.Tracked := by
  obtain ⟨hlink, hchild, hlaunched, hkills, -, haims, -⟩ := h
  obtain ⟨h₁, h₂, h₃, h₄⟩ := hs
  constructor
  · rwa [hchild, hlaunched]
  · rwa [hkills, hlaunched]
  · rwa [hlink]
  · rwa [haims, hlink]

/-- Nor does where the closes are aimed. -/
private theorem Beside.aimed_iff (h : Beside s s') : s'.Aimed ↔ s.Aimed := by
  obtain ⟨hlink, hchild, -, hkills, howner, haims, hreached⟩ := h
  constructor
  · rintro ⟨h₁, h₂, h₃⟩
    rw [hreached] at h₁
    rw [hkills, hchild] at h₂
    rw [haims, hlink, howner] at h₃
    exact ⟨h₁, h₂, h₃⟩
  · rintro ⟨h₁, h₂, h₃⟩
    constructor
    · rwa [hreached]
    · rwa [hkills, hchild]
    · rwa [haims, hlink, howner]

/-- An observer sets its flags and the event that it is to send. -/
private theorem beside_observe (s : Lifecycle) (call : Call) : Beside s (s.observe call) := by
  unfold observe
  split
  · cases call <;> exact ⟨rfl, rfl, rfl, rfl, rfl, rfl, rfl⟩
  · exact ⟨rfl, rfl, rfl, rfl, rfl, rfl, rfl⟩

/-- It sends it. -/
private theorem beside_send (s : Lifecycle) : Beside s s.send := by
  unfold send
  split <;> exact ⟨rfl, rfl, rfl, rfl, rfl, rfl, rfl⟩

/-- A thread reports that its Blender has exited. -/
private theorem beside_report (s : Lifecycle) : Beside s s.report := by
  unfold report
  split <;> exact ⟨rfl, rfl, rfl, rfl, rfl, rfl, rfl⟩

/-- The end of a session sets a deadline and closes nothing yet. -/
private theorem beside_endSession (s : Lifecycle) (grace : Nat) :
    Beside s (s.endSession grace) := by
  rw [endSession_eq]
  exact ⟨rfl, rfl, rfl, rfl, rfl, rfl, rfl⟩

/-! ### Launching -/

/-- A launch has a Blender to start. -/
def Starts (s : Lifecycle) (l : Launch) : Prop :=
  s.child = none ∧ Agent.trim l.path.toList ≠ [] ∧ l.spawns = true

instance (s : Lifecycle) (l : Launch) : Decidable (s.Starts l) :=
  inferInstanceAs (Decidable (_ ∧ _ ∧ _))

/-- The Blender that is started is a new one, and it is stored. -/
private theorem spawnBlender_of_starts {l : Launch} (h : s.Starts l) :
    s.spawnBlender l =
      { s with
        child := some s.launched
        waiters := s.waiters + 1
        launched := s.launched + 1
        alive := s.launched :: s.alive } := by
  obtain ⟨hchild, hpath, hspawns⟩ := h
  have hrunning : ¬ s.blenderRunning = true := by
    unfold blenderRunning
    rw [hchild]
    decide
  unfold spawnBlender
  rw [if_neg hrunning, if_neg hpath, if_pos hspawns]

/-- Where one is stored, or there is none to start, nothing happens. -/
private theorem spawnBlender_of_not_starts {l : Launch} (h : ¬ s.Starts l) :
    s.spawnBlender l = s := by
  unfold spawnBlender
  split
  · rfl
  · rename_i hrunning
    split
    · rfl
    · rename_i hpath
      split
      · rename_i hspawns
        exact absurd ⟨Option.not_isSome_iff_eq_none.mp hrunning, hpath, hspawns⟩ h
      · rfl

/-- A launch counts its Blender before anything can be aimed at it. -/
theorem Tracked.spawn (h : s.Tracked) (l : Launch) : (s.spawnBlender l).Tracked := by
  by_cases hstarts : s.Starts l
  · rw [spawnBlender_of_starts hstarts]
    refine ⟨fun k hk => ?_, fun t ht => Nat.lt_succ_of_lt (h.kills t ht), h.came, h.aims⟩
    exact Option.some.inj hk ▸ Nat.lt_succ_self s.launched
  · rw [spawnBlender_of_not_starts hstarts]
    exact h

/-- A launch is in the way of every kill that is ahead. -/
private theorem aimed_spawn_iff (ht : s.Tracked) (h : s.Aimed) (l : Launch) :
    (s.spawnBlender l).Aimed ↔ (s.Starts l → s.kills = []) := by
  by_cases hstarts : s.Starts l
  · rw [spawnBlender_of_starts hstarts, imp_iff_right hstarts]
    constructor
    · intro haimed
      refine List.eq_nil_iff_forall_not_mem.mpr fun t hmem => ?_
      -- its aim was launched before
      exact Nat.ne_of_gt (ht.kills t hmem) (haimed.kills t hmem s.launched rfl)
    · intro hnil
      refine ⟨h.reached, fun t hmem => ?_, h.quits⟩
      have hmem' : t ∈ s.kills := hmem
      rw [hnil] at hmem'
      cases hmem'
  · rw [spawnBlender_of_not_starts hstarts]
    exact iff_of_true h fun h => absurd h hstarts

/-! ### Closing -/

/-- The addon that is attached is part of the Blender that is stored. -/
def OwnAddon (s : Lifecycle) : Prop :=
  s.link.prio.length < prioRoom → ∀ k, s.child = some k →
    ∀ c, s.link.addons.sink = some c → s.owner c = some k

/-- A close queues a quit event if there is room, starts a thread that kills, and aims both at the
    Blender that is stored. -/
private theorem closeBlender_of_some {k : Nat} (h : s.child = some k) :
    Beside s { s.closeBlender with
      link := s.link, kills := s.kills, aims := s.aims } ∧
    s.closeBlender.link = s.link.eventTry quitBody ∧
    s.closeBlender.kills = s.kills ++ [⟨s.now + 10000, k⟩] ∧
    s.closeBlender.aims = if s.link.prio.length < prioRoom then s.aims ++ [k] else s.aims := by
  unfold closeBlender
  split
  · rename_i hnone
    rw [hnone] at h
    cases h
  · rename_i k' hsome
    obtain rfl : k' = k := Option.some.inj (hsome.symm.trans h)
    exact ⟨⟨rfl, rfl, rfl, rfl, rfl, rfl, rfl⟩, rfl, rfl, rfl⟩

/-- With no Blender stored a close does nothing. -/
private theorem closeBlender_of_none (h : s.child = none) : s.closeBlender = s := by
  unfold closeBlender
  rw [h]

/-- A queued event lets no addon in. -/
private theorem eventTry_addons (link : Link) (body : List UInt8) :
    (link.eventTry body).addons = link.addons := by
  unfold Link.eventTry
  split <;> rfl

/-- The aim is noted exactly where the quit event is queued. -/
theorem Tracked.close (h : s.Tracked) : s.closeBlender.Tracked := by
  cases hchild : s.child with
  -- no Blender: nothing is aimed
  | none =>
    rw [closeBlender_of_none hchild]
    exact h
  | some k =>
    obtain ⟨hbeside, hlink, hkills, haims⟩ := closeBlender_of_some hchild
    have hlaunched : s.closeBlender.launched = s.launched := hbeside.launched
    refine ⟨?_, ?_, ?_, ?_⟩
    · have hsame : s.closeBlender.child = s.child := hbeside.child
      rw [hsame, hlaunched]
      exact h.child
    · -- the new kill thread is at the child, which was launched
      intro t ht
      rw [hlaunched]
      rw [hkills] at ht
      rcases List.mem_append.mp ht with ht | ht
      · exact h.kills t ht
      · rw [List.mem_singleton.mp ht]
        exact h.child k hchild
    · -- the link's side is that of one event that was offered
      rw [hlink, eventTry_addons]
      exact h.came
    · -- the aim is noted where there was room for the event
      rw [haims, hlink, Link.quits_eventTry, ← h.aims]
      by_cases hroom : s.link.prio.length < prioRoom <;> simp [hroom]

/-- A close is for the Blender that is stored, so that its kill is aimed. Its quit event goes to the
    addon that is attached. -/
private theorem aimed_close_iff (h : s.Aimed) : s.closeBlender.Aimed ↔ s.OwnAddon := by
  cases hchild : s.child with
  -- no Blender: nothing is aimed
  | none =>
    rw [closeBlender_of_none hchild]
    refine iff_of_true h fun _ k hk => ?_
    rw [hchild] at hk
    cases hk
  -- a Blender: the kill is at it, and the quit event too if there was room for it
  | some k =>
    obtain ⟨hbeside, hlink, hkills, haims⟩ := closeBlender_of_some hchild
    have hsame : s.closeBlender.child = s.child := hbeside.child
    have howner : s.closeBlender.owner = s.owner := hbeside.owner
    have hreached : s.closeBlender.reached = s.reached := hbeside.reached
    unfold OwnAddon
    constructor
    · -- the quit event was aimed at it, so the sink is its own addon
      intro haimed hroom k' hk' c hc
      obtain rfl : k = k' := Option.some.inj (hchild.symm.trans hk')
      have hquit := haimed.quits k (by rw [haims, if_pos hroom]; simp) c
        (by rw [hlink, eventTry_addons]; exact hc)
      rwa [howner] at hquit
    · intro hown
      -- the kill threads of before are at it, and the new one is at it
      refine ⟨by rw [hreached]; exact h.reached, fun t ht k' hk' => ?_, fun k' hk' c hc => ?_⟩
      · rw [hsame] at hk'
        rw [hkills] at ht
        rcases List.mem_append.mp ht with ht | ht
        · exact h.kills t ht k' hk'
        · rw [List.mem_singleton.mp ht]
          exact Option.some.inj (hk'.symm.trans hchild)
      · -- the quit events of before are aimed well, and the new one is if the sink is its own
        rw [hlink, eventTry_addons] at hc
        rw [howner]
        rw [haims] at hk'
        split at hk'
        · rename_i hroom
          rcases List.mem_append.mp hk' with hk' | hk'
          · exact h.quits k' hk' c hc
          · rw [List.mem_singleton.mp hk']
            exact hown hroom k hchild c hc
        · exact h.quits k' hk' c hc

/-! ### The threads -/

/-- A kill, when it comes, finds the Blender that it is for, or none. -/
private theorem kill_kept (h : s.Aimed) (i : Nat) : (s.kill i).Aimed := by
  unfold kill
  split
  · exact h
  · rename_i t hget
    have hmem : t ∈ s.kills := List.mem_of_getElem? hget
    -- the child is running still: it is killed
    split
    · dsimp only
      have hrest : ∀ t' ∈ s.kills.eraseIdx i, ∀ k, s.child = some k → k = t'.aim :=
        fun t' ht' => h.kills t' (List.mem_of_mem_eraseIdx ht')
      split
      · exact ⟨h.reached, hrest, h.quits⟩
      · rename_i k hchild
        refine ⟨fun hit hhit => ?_, hrest, h.quits⟩
        rcases List.mem_append.mp hhit with hhit | hhit
        · exact h.reached hit hhit
        · rw [List.mem_singleton.mp hhit, h.kills t hmem k hchild]
    · -- the exit was seen in time
      exact h

/-- A kill that is over leaves the list. -/
theorem Tracked.kill (h : s.Tracked) (i : Nat) : (s.kill i).Tracked := by
  unfold Lifecycle.kill
  split
  · exact h
  · have hrest : ∀ t ∈ s.kills.eraseIdx i, t.aim < s.launched :=
      fun t ht => h.kills t (List.mem_of_mem_eraseIdx ht)
    split
    · dsimp only
      split <;> exact ⟨h.child, hrest, h.came, h.aims⟩
    · exact h

/-- A thread that finds its Blender gone takes it out of the store. -/
theorem Tracked.look (h : s.Tracked) (fails : Bool) : (s.look fails).Tracked := by
  unfold Lifecycle.look
  split
  · exact h
  · split
    · exact ⟨h.child, h.kills, h.came, h.aims⟩
    · split
      · exact ⟨fun k hk => (by cases hk), h.kills, h.came, h.aims⟩
      · exact h

/-- With no Blender stored no kill can find another one. -/
private theorem look_kept (h : s.Aimed) (fails : Bool) : (s.look fails).Aimed := by
  unfold look
  split
  · exact h
  · split
    · exact ⟨h.reached, h.kills, h.quits⟩
    · split
      · exact ⟨h.reached, fun t _ k hk => (by cases hk), h.quits⟩
      · exact h

/-! ### The link -/

/-- Only `serve_local` makes an addon the sink. -/
private theorem sink_of_step (secret : String) {link : Link} (act : Link.Act)
    (hact : ∀ reply fails spawned, act ≠ .serve reply fails spawned) {c : Nat}
    (h : (link.step secret act).addons.sink = some c) : link.addons.sink = some c := by
  have hstep := Link.addons_step secret link act
  generalize (link.step secret act).addons = a at hstep h
  cases hstep with
  | stays => exact h
  | admits => exact h
  | serves reply fails spawned => exact absurd rfl (hact reply fails spawned)
  -- a reader that ends clears the sink
  | reads d =>
    unfold Attachment.read at h
    split at h
    · exact h
    · exact h
    · cases h
    · exact h
    · exact h
  -- a write that fails does, too
  | drops =>
    unfold Attachment.drop at h
    split at h
    · exact h
    · cases h

/-- A client that connects may be a new addon. -/
theorem Tracked.connect (h : s.Tracked) (blender : Option Nat) (first : AttachFrame)
    (cloned wrote : Bool) : (s.connect secret blender first cloned wrote).Tracked := by
  unfold Lifecycle.connect
  split
  · refine ⟨h.child, h.kills, Link.came_step h.came secret (.connect first cloned wrote), ?_⟩
    rw [Link.quits_connect]
    exact h.aims
  · exact h

/-- A connection has a number of its own. -/
private theorem connect_kept (ht : s.Tracked) (h : s.Aimed) (blender : Option Nat)
    (first : AttachFrame)
    (cloned wrote : Bool) : (s.connect secret blender first cloned wrote).Aimed := by
  unfold connect
  split
  · refine ⟨h.reached, h.kills, fun k hk c hc => ?_⟩
    have hc' : s.link.addons.sink = some c :=
      sink_of_step secret (.connect first cloned wrote) (by simp) hc
    show Function.update s.owner s.link.addons.conns blender c = some k
    rw [Function.update_of_ne (Nat.ne_of_lt (ht.came.sink c hc'))]
    exact h.quits k hk c hc'
  · exact h

/-- The aim of a quit event goes with it: the first aim is for the first quit event, which is the
    one in the writer's hand. -/
theorem Tracked.write (h : s.Tracked) (fails : Bool) (lost : List Nat) (pick : Nat) :
    (s.write fails lost pick).Tracked := by
  have hcame := Link.came_step h.came "" (.write fails lost pick)
  have hquits := Link.quits_write (s.link.write_step fails lost pick)
  unfold Lifecycle.write
  dsimp only
  split
  · -- a frame is in hand
    rename_i f after hw
    rw [hw, WriterPhase.inHand_writing, List.count_singleton] at hquits
    -- it is the quit event: the first of those on their way is reached
    split
    · rename_i hf
      refine ⟨h.child, h.kills, hcame, ?_⟩
      rw [hf, beq_self_eq_true, if_pos rfl, ← h.aims] at hquits
      rw [List.length_tail, ← hquits]
      rfl
    · -- it is another one: none is
      rename_i hf
      refine ⟨h.child, h.kills, hcame, h.aims.trans ?_⟩
      rw [if_neg (by simpa using hf)] at hquits
      exact hquits.symm
  · -- nothing is in hand
    rename_i hw
    refine ⟨h.child, h.kills, hcame, h.aims.trans ?_⟩
    have hhand : s.link.writer.inHand = [] := by
      unfold WriterPhase.inHand
      split
      · exact absurd ‹_› (hw _ _)
      · rfl
    rw [hhand, List.count_nil] at hquits
    exact hquits.symm

/-- A quit event, when it is written, goes to its own Blender's addon or to none. -/
private theorem write_kept (h : s.Aimed) (fails : Bool) (lost : List Nat) (pick : Nat) :
    (s.write fails lost pick).Aimed := by
  -- no write makes an addon the sink
  have hquits : ∀ k ∈ s.aims, ∀ c, (s.link.write fails lost pick).addons.sink = some c →
      s.owner c = some k := fun k hk c hc =>
    h.quits k hk c (sink_of_step "" (.write fails lost pick) (by simp) hc)
  unfold write
  dsimp only
  split
  · split
    · -- the quit event reaches the sink, which is its own addon if there is one
      refine ⟨fun hit hhit => ?_, h.kills, fun k hk => hquits k (List.mem_of_mem_tail hk)⟩
      rcases List.mem_append.mp hhit with hhit | hhit
      · exact h.reached hit hhit
      · split at hhit
        · rename_i k c hk hc
          rw [List.mem_singleton.mp hhit]
          exact h.quits k (List.mem_of_head? hk) c hc
        · cases hhit
    · exact ⟨h.reached, h.kills, hquits⟩
  · exact ⟨h.reached, h.kills, hquits⟩

/-- The actions of others queue no quit event and take none. -/
theorem Tracked.linkStep (h : s.Tracked) {act : Link.Act} (hact : foreign act = true) :
    (s.linkStep secret act).Tracked := by
  unfold Lifecycle.linkStep
  split
  · exact h.write _ _ _
  · rename_i hwrite
    refine ⟨h.child, h.kills, Link.came_step h.came secret act, h.aims.trans ?_⟩
    exact (Link.quits_step secret s.link hact fun fails lost pick heq =>
      hwrite fails lost pick heq).symm

/-- An addon that is made the sink is part of the Blender that each quit event on its way is
    for. -/
def Seats (s : Lifecycle) : Link.Act → Prop
  | .serve .. => ∀ k ∈ s.aims, ∀ c, s.link.addons.server = .seating c → s.owner c = some k
  | _ => True

/-- An addon that becomes the sink gets the quit events that are on their way. -/
private theorem aimed_serve_iff (h : s.Aimed) (reply : List UInt8) (fails spawned : Bool) :
    (s.linkStep secret (.serve reply fails spawned)).Aimed ↔
      s.Seats (.serve reply fails spawned) := by
  obtain ⟨written, heq⟩ := s.link.serve_eq reply fails spawned
  have hlink : s.linkStep secret (.serve reply fails spawned) =
      { s with link := { s.link with addons := s.link.addons.serve spawned, written } } :=
    congrArg (fun link => ({ s with link } : Lifecycle)) heq
  rw [hlink, Seats]
  -- the sink of after is the one that the quit events reach
  constructor
  · intro haimed k hk c hc
    refine haimed.quits k hk c ?_
    show (s.link.addons.serve spawned).sink = some c
    unfold Attachment.serve
    rw [hc]
    rfl
  · -- a sink of before is aimed at already, a new one is the server that is seated
    intro hseats
    refine ⟨h.reached, h.kills, fun k hk c hc => ?_⟩
    have hsink : (s.link.addons.serve spawned).sink = some c := hc
    unfold Attachment.serve at hsink
    split at hsink
    · exact h.quits k hk c hsink
    · rename_i d hserver
      obtain rfl := Option.some.inj hsink
      exact hseats k hk d hserver
    · exact h.quits k hk c hsink
    · exact h.quits k hk c hsink
    · exact h.quits k hk c hsink

/-- No other action of the link changes where they go. -/
private theorem aimed_link_iff (h : s.Aimed) (act : Link.Act) :
    (s.linkStep secret act).Aimed ↔ s.Seats act := by
  by_cases hserve : ∃ reply fails spawned, act = .serve reply fails spawned
  · obtain ⟨reply, fails, spawned, rfl⟩ := hserve
    exact aimed_serve_iff h reply fails spawned
  · have hne : ∀ reply fails spawned, act ≠ .serve reply fails spawned :=
      fun reply fails spawned heq => hserve ⟨reply, fails, spawned, heq⟩
    refine iff_of_true ?_ ?_
    · -- the writer may write a quit event, which is as good as its aim
      unfold linkStep
      split
      · exact write_kept h _ _ _
      · exact ⟨h.reached, h.kills, fun k hk c hc => h.quits k hk c (sink_of_step secret act hne hc)⟩
    · unfold Seats
      split
      · exact absurd rfl (hne _ _ _)
      · trivial

/-! ## Which runs keep the closes to their own -/

/-- No Blender is launched while a kill is ahead; and a quit event is queued, or an addon let in
    while one is on its way, only where the addon is part of the Blender that is closed. -/
def Spares (s : Lifecycle) : Act → Prop
  | .next _ l => s.phase = .waiting → ∀ e, s.queue.head? = some e →
    (e.opens = true → s.Starts l → s.kills = []) ∧
      (e = .manualStop ∨ e = .shutdown → s.OwnAddon)
  | .timeout => s.phase = .waiting → ∀ t, s.closeDeadline = some t → t ≤ s.now →
    s.sessionOn = false → s.OwnAddon
  | .relaunch l => ∀ t, s.phase = .relaunching t → t ≤ s.now → s.Starts l → s.kills = []
  | .link act => s.Seats act.val
  | _ => True

/-- Taking an event off the queue. -/
private theorem beside_take (s : Lifecycle) (queue : List LifecycleEvent) :
    Beside s { s with queue } :=
  ⟨rfl, rfl, rfl, rfl, rfl, rfl, rfl⟩

/-- What `run` does with an event. -/
theorem Tracked.handle (h : s.Tracked) (grace : Nat) (l : Launch) (e : LifecycleEvent) :
    (s.handle grace l e).Tracked := by
  cases e with
  | peerUp => exact h
  -- the end of a session only arms the deadline
  | peerDown => exact (beside_endSession s grace).tracked h
  | goodbye => exact (beside_endSession s grace).tracked h
  -- a launch
  | sessionOn =>
    exact Tracked.spawn (s := { s with closeDeadline := none, wanted := true })
      ⟨h.child, h.kills, h.came, h.aims⟩ l
  | sessionOff => exact (beside_endSession s grace).tracked h
  | addonDetached => exact h
  -- a relaunch is waited for, or the deadline goes
  | childExited =>
    unfold Lifecycle.handle
    dsimp only
    split <;> exact ⟨h.child, h.kills, h.came, h.aims⟩
  | manualStart =>
    exact Tracked.spawn (s := { s with wanted := true }) ⟨h.child, h.kills, h.came, h.aims⟩ l
  -- a close
  | manualStop =>
    exact Tracked.close (s := { s with wanted := false, closeDeadline := none })
      ⟨h.child, h.kills, h.came, h.aims⟩
  | shutdown => exact ⟨h.close.child, h.close.kills, h.close.came, h.close.aims⟩

/-- Two events launch a Blender and two close one; the others do neither. -/
private theorem aimed_handle_iff (ht : s.Tracked) (h : s.Aimed) (grace : Nat) (l : Launch)
    (e : LifecycleEvent) :
    (s.handle grace l e).Aimed ↔
      (e.opens = true → s.Starts l → s.kills = []) ∧
        (e = .manualStop ∨ e = .shutdown → s.OwnAddon) := by
  -- the end of a session only arms the deadline
  have hend : (s.endSession grace).Aimed := (beside_endSession s grace).aimed_iff.mpr h
  cases e with
  -- these neither launch nor close
  | peerUp => exact iff_of_true h ⟨fun he => (by cases he), fun he => by simp at he⟩
  | peerDown => exact iff_of_true hend ⟨fun he => (by cases he), fun he => by simp at he⟩
  | goodbye => exact iff_of_true hend ⟨fun he => (by cases he), fun he => by simp at he⟩
  | sessionOff => exact iff_of_true hend ⟨fun he => (by cases he), fun he => by simp at he⟩
  | addonDetached => exact iff_of_true h ⟨fun he => (by cases he), fun he => by simp at he⟩
  | childExited =>
    refine iff_of_true ?_ ⟨fun he => (by cases he), fun he => by simp at he⟩
    unfold handle
    dsimp only
    split <;> exact ⟨h.reached, h.kills, h.quits⟩
  -- a launch is aimed well if no kill thread is under way
  | sessionOn =>
    refine (aimed_spawn_iff (s := { s with closeDeadline := none, wanted := true })
      ⟨ht.child, ht.kills, ht.came, ht.aims⟩ ⟨h.reached, h.kills, h.quits⟩ l).trans ?_
    exact ⟨fun hl => ⟨fun _ => hl, fun he => by simp at he⟩, fun hl => hl.1 rfl⟩
  | manualStart =>
    refine (aimed_spawn_iff (s := { s with wanted := true })
      ⟨ht.child, ht.kills, ht.came, ht.aims⟩ ⟨h.reached, h.kills, h.quits⟩ l).trans ?_
    exact ⟨fun hl => ⟨fun _ => hl, fun he => by simp at he⟩, fun hl => hl.1 rfl⟩
  -- a close is aimed well if the sink is Blender's own addon
  | manualStop =>
    refine (aimed_close_iff (s := { s with wanted := false, closeDeadline := none })
      ⟨h.reached, h.kills, h.quits⟩).trans ?_
    exact ⟨fun ho => ⟨fun he => (by cases he), fun _ => ho⟩, fun ho => ho.2 (.inl rfl)⟩
  -- so is the one at the end
  | shutdown =>
    have hclose : (s.handle grace l .shutdown).Aimed ↔ s.closeBlender.Aimed :=
      Beside.aimed_iff ⟨rfl, rfl, rfl, rfl, rfl, rfl, rfl⟩
    refine hclose.trans ((aimed_close_iff h).trans ?_)
    exact ⟨fun ho => ⟨fun he => (by cases he), fun _ => ho⟩, fun ho => ho.2 (.inr rfl)⟩

/-- Every step of the lifecycle, of the threads and of the link. -/
theorem Tracked.step (h : s.Tracked) (act : Act) : (s.step secret act).Tracked := by
  cases act with
  -- the supervisor's events and calls
  | observe call => exact (beside_observe s call).tracked h
  | send => exact (beside_send s).tracked h
  | post r => exact ⟨h.child, h.kills, h.came, h.aims⟩
  | next grace l =>
    unfold Lifecycle.step Lifecycle.next
    dsimp only
    split
    · split
      · exact h
      · rename_i e queue _
        exact ((beside_take s queue).tracked h).handle grace l e
    · exact h
  -- the grace is over: a close
  | timeout =>
    unfold Lifecycle.step Lifecycle.timeout
    dsimp only
    split
    · split
      · split
        · exact ⟨h.child, h.kills, h.came, h.aims⟩
        · exact Tracked.close (s := { s with closeDeadline := none, wanted := false })
            ⟨h.child, h.kills, h.came, h.aims⟩
      · exact h
    · exact h
  -- the wait is over: a launch
  | relaunch l =>
    unfold Lifecycle.step Lifecycle.relaunch
    dsimp only
    split
    · split
      · exact Tracked.spawn (s := { s with phase := .waiting })
          ⟨h.child, h.kills, h.came, h.aims⟩ l
      · exact h
    · exact h
  -- the threads, Blender and the clock
  | kill i => exact h.kill i
  | exits k => exact ⟨h.child, h.kills, h.came, h.aims⟩
  | look fails => exact h.look fails
  | report => exact (beside_report s).tracked h
  | connect blender first cloned wrote => exact h.connect blender first cloned wrote
  | link act => exact h.linkStep act.property
  | tick ms => exact ⟨h.child, h.kills, h.came, h.aims⟩

/-- `run` takes the event at the head of its queue. -/
private theorem aimed_next_iff (ht : s.Tracked) (h : s.Aimed) (grace : Nat) (l : Launch) :
    (s.next grace l).Aimed ↔ s.Spares (.next grace l) := by
  unfold next
  by_cases hphase : s.phase = .waiting
  · rw [if_pos hphase]
    cases hqueue : s.queue with
    -- an empty queue
    | nil =>
      refine iff_of_true h fun _ e he => ?_
      rw [hqueue] at he
      cases he
    -- the event is handled as if nothing else had happened
    | cons e queue =>
      have hbeside := beside_take s queue
      refine (aimed_handle_iff (hbeside.tracked ht) (hbeside.aimed_iff.mpr h) grace l e).trans ?_
      constructor
      · intro hcond _ e' he'
        rw [hqueue] at he'
        exact Option.some.inj he' ▸ hcond
      · exact fun hcond => hcond hphase e (by rw [hqueue]; rfl)
  · rw [if_neg hphase]
    exact iff_of_true h fun hw => absurd hw hphase

/-- A deadline that has come closes the Blender only with the session off. -/
private theorem aimed_timeout_iff (h : s.Aimed) : s.timeout.Aimed ↔ s.Spares .timeout := by
  unfold timeout Spares
  split
  · rename_i t hphase hdeadline
    rw [imp_iff_right hphase]
    -- the deadline has come
    by_cases hdue : t ≤ s.now
    · rw [if_pos hdue]
      -- a new session is on: it is dropped
      by_cases hon : s.sessionOn = true
      · rw [if_pos hon]
        refine iff_of_true ⟨h.reached, h.kills, h.quits⟩ fun _ _ _ hoff => ?_
        rw [hon] at hoff
        cases hoff
      · -- none is: the Blender is closed
        rw [if_neg hon]
        refine (aimed_close_iff (s := { s with closeDeadline := none, wanted := false })
          ⟨h.reached, h.kills, h.quits⟩).trans ?_
        exact ⟨fun hown _ _ _ _ => hown,
          fun hown => hown t hdeadline hdue (Bool.eq_false_iff.mpr hon)⟩
    · -- it has not come yet
      rw [if_neg hdue]
      refine iff_of_true h fun t' ht' hle => ?_
      obtain rfl := Option.some.inj (hdeadline.symm.trans ht')
      exact absurd hle hdue
  · rename_i hno
    exact iff_of_true h fun hphase t ht => absurd ht (hno t hphase)

/-- A relaunch is a launch. -/
private theorem aimed_relaunch_iff (ht : s.Tracked) (h : s.Aimed) (l : Launch) :
    (s.relaunch l).Aimed ↔ s.Spares (.relaunch l) := by
  unfold relaunch Spares
  split
  · rename_i t hphase
    -- the pause is over, or not yet
    by_cases hdue : t ≤ s.now
    · rw [if_pos hdue]
      refine (aimed_spawn_iff (s := { s with phase := .waiting })
        ⟨ht.child, ht.kills, ht.came, ht.aims⟩ ⟨h.reached, h.kills, h.quits⟩ l).trans ?_
      exact ⟨fun hl _ _ _ => hl, fun hl => hl t hphase hdue⟩
    · rw [if_neg hdue]
      refine iff_of_true h fun t' ht' hle => ?_
      obtain rfl := LifecyclePhase.relaunching.inj (hphase.symm.trans ht')
      exact absurd hle hdue
  · rename_i hno
    exact iff_of_true h fun t ht => absurd ht (hno t)

/-- A step keeps the closes to their own exactly where it is such a step. -/
private theorem aimed_step_iff (ht : s.Tracked) (h : s.Aimed) (act : Act) :
    (s.step secret act).Aimed ↔ s.Spares act := by
  cases act with
  | observe call => exact iff_of_true ((beside_observe s call).aimed_iff.mpr h) trivial
  | send => exact iff_of_true ((beside_send s).aimed_iff.mpr h) trivial
  | post r => exact iff_of_true ⟨h.reached, h.kills, h.quits⟩ trivial
  | next grace l => exact aimed_next_iff ht h grace l
  | timeout => exact aimed_timeout_iff h
  | relaunch l => exact aimed_relaunch_iff ht h l
  | kill i => exact iff_of_true (kill_kept h i) trivial
  | exits k => exact iff_of_true ⟨h.reached, h.kills, h.quits⟩ trivial
  | look fails => exact iff_of_true (look_kept h fails) trivial
  | report => exact iff_of_true ((beside_report s).aimed_iff.mpr h) trivial
  | connect blender first cloned wrote =>
    exact iff_of_true (connect_kept ht h blender first cloned wrote) trivial
  | link act => exact aimed_link_iff h act.val
  | tick ms => exact iff_of_true ⟨h.reached, h.kills, h.quits⟩ trivial

/-- At the start nothing is on its way. -/
private theorem tracked_start : Tracked {} where
  child _ hk := by cases hk
  kills _ ht := by cases ht
  came := ⟨fun _ hc => (by cases hc), fun _ hc => (by cases hc)⟩
  aims := rfl

/-- So nothing is aimed amiss. -/
private theorem aimed_start : Aimed {} where
  reached _ hhit := by cases hhit
  kills _ ht := by cases ht
  quits _ hk := by cases hk

/-- Every run of the lifecycle: what a close has set going never is on its way to another Blender
    than its own, and never reaches one, exactly if every step of the run meets the condition. -/
theorem closes_own_iff (secret : String) (acts : List Act) :
    Along (step secret) Spares {} acts ↔
      ∀ done rest, acts = done ++ rest → (run secret done).Aimed :=
  along_iff_throughout (I := Tracked) (fun _ act ht => ht.step act)
    (fun _ act ht h => aimed_step_iff ht h act) tracked_start aimed_start acts

/-- None of the quit events on their way is without an aim. -/
theorem aims_length (secret : String) (acts : List Act) :
    (run secret acts).aims.length = (run secret acts).link.quits :=
  (foldl_invariant (I := Tracked) (fun _ act ht => ht.step act) acts tracked_start).aims

/-- A Blender is launched by hand. -/
private def startActs : List Act := [.post .manualStart, .next 60 ⟨"blender", true⟩]

/-- It is closed, exits, and is launched again, all within ten seconds. -/
private def restartActs : List Act :=
  [.post .manualStop, .next 60 ⟨"blender", true⟩, .tick 1000, .exits 0, .look false, .report,
    .next 60 ⟨"blender", true⟩] ++ startActs

/-- The addon of the second Blender attaches, and the writer writes what has waited for it. -/
private def attachSecond : List Act :=
  .connect (some 1) ⟨true, FrameKind.cmd.byte, 64, some "attach", some "s", none⟩ true true ::
    .link ⟨.serve [] false true, rfl⟩ :: List.replicate 3 (.link ⟨.write false [] 0, rfl⟩)

/-- The kill finds the second Blender. And the quit event, which has waited behind a frame for an
    addon to come, goes to the addon of the second. -/
theorem closes_own_counterexample :
    ¬ (∀ hit ∈ (run "s" (startActs ++ restartActs ++ [.tick 9000, .kill 0])).reached,
      hit.2 = some hit.1) ∧
    ¬ (∀ hit ∈ (run "s" (startActs ++ [.link ⟨.frame ⟨.control, []⟩, by decide⟩, .link ⟨.wake, rfl⟩,
        .link ⟨.write false [] 0, rfl⟩, .link ⟨.write false [] 0, rfl⟩] ++ restartActs ++
        attachSecond)).reached, hit.2 = some hit.1) := by
  decide

end Lifecycle

end QCBridge
