import QCBridge.Agent.EncodeLoop
import QCBridge.ForStd.Eventually

/-!
# Every wish for a keyframe is met

A wish is in `force_key`, with the ring thread, or with a frame in the channel, until the encode
thread has it. At most three frames are under way, so the ring thread never waits for room in the
channel. That the wish is met in the end takes an encoder that stops asking for input when it holds
three frames: one that asks for a fourth keeps the encode thread waiting in `recv` for a frame that
the ring thread does not send.

## Key results

- `EncodeLoop.Sound.step`: what is under way, and that the first frame is a key
- `EncodeLoop.run_bounded`, `EncodeLoop.key_kept`: in every run
- `EncodeLoop.key_answered`: with an encoder that holds up to three frames
- `EncodeLoop.stalls`: with another
-/

namespace QCBridge.Agent

namespace EncodeLoop

variable {depth : Nat} {s : EncodeLoop}

/-- The ring thread has a wish for a key in hand. -/
def holdsKey (s : EncodeLoop) : Bool :=
  match s.ring with
  | .looking | .checking _ => false
  | .restoring => true
  | .weighing _ wantKey | .counting _ wantKey => wantKey
  | .sending frame => frame.key

/-- A wish for a key has not reached the encode thread. -/
def Owed (s : EncodeLoop) : Prop :=
  s.forceKey = true ∨ s.holdsKey = true ∨ ∃ frame ∈ s.channel, frame.key = true

/-- A frame that is counted and not yet sent. -/
def ringCount (s : EncodeLoop) : Nat :=
  match s.ring with
  | .sending _ => 1
  | _ => 0

/-- A frame with the encode thread. -/
def encodeCount (s : EncodeLoop) : Nat :=
  match s.encode with
  | .holding _ | .leaving => 1
  | _ => 0

/-- The ring thread has a texture in hand. -/
def hasTex (s : EncodeLoop) : Bool :=
  match s.ring with
  | .looking | .checking none | .restoring => false
  | _ => true

/-- The next frame is a key, as far as the ring thread is concerned. -/
def nextKey (s : EncodeLoop) : Bool :=
  match s.ring with
  | .looking | .checking _ => s.forceKey
  | _ => s.holdsKey

/-- What holds of the threads. -/
structure Sound (depth : Nat) (s : EncodeLoop) : Prop where
  /-- There is a texture only with an encoder. -/
  session : s.session = none → s.lastTex = none ∧ s.hasTex = false
  counted : s.inFlight = s.channel.length + s.inside.length + s.encodeCount + s.ringCount
  bounded : s.inFlight ≤ maxInFlight
  room : ∀ tex wantKey, s.ring = .counting tex wantKey → s.inFlight < maxInFlight
  asked : s.inside.length ≤ depth ∧ (s.encode = .taking → s.inside.length < depth) ∧
    ∀ frame, s.encode = .holding frame → s.inside.length < depth
  first : ∀ frame, (s.taken ++ s.channel).head? = some frame → frame.key = true
  unsent : s.taken ++ s.channel = [] → s.nextKey = true

/-- A process that has just started has no encoder, and owes a key. -/
theorem sound_start (depth : Nat) : Sound depth {} :=
  ⟨fun _ => ⟨rfl, rfl⟩, rfl, by decide, by simp, by simp, by simp, fun _ => rfl⟩

/-! ## Steps -/

/-- The end of the process leaves what is under way. -/
theorem Sound.exit (h : s.Sound depth) (code : Nat) : (s.exit code).Sound depth :=
  ⟨h.session, h.counted, h.bounded, h.room, h.asked, h.first, h.unsent⟩

/-- A line of stdin touches the wish and the end, and no frame. -/
theorem Sound.line (h : s.Sound depth) (l : StdinLine) : (s.line l).Sound depth := by
  cases l with
  | key =>
    refine ⟨h.session, h.counted, h.bounded, h.room, h.asked, h.first, fun hnil => ?_⟩
    have := h.unsent hnil
    simp only [nextKey, holdsKey, EncodeLoop.line] at this ⊢
    split <;> simp_all
  | quit => exact h.exit 0
  | other => exact h

/-- The ring thread has looked, and nothing of it is under way. -/
private theorem Sound.looked (h : s.Sound depth) (hring : s.ring = .looking) {fresh : Option Nat}
    (hfresh : fresh = none ∨ s.session.isSome) :
    Sound depth { s with ring := .checking fresh } where
  session hnone := by
    refine ⟨(h.session hnone).1, ?_⟩
    rw [show s.session = none from hnone] at hfresh
    obtain rfl := hfresh.resolve_right (by simp)
    rfl
  counted := by
    have := h.counted
    simp only [ringCount, hring] at this
    exact this
  bounded := h.bounded
  room := by simp
  asked := h.asked
  first := h.first
  unsent hnil := by
    have := h.unsent hnil
    simp only [nextKey, hring] at this
    exact this

/-- A frame that was found is converted into a texture, overwritten, or fails. -/
theorem Sound.convert (h : s.Sound depth) (hring : s.ring = .looking)
    (hsession : s.session.isSome) (c : Conversion) : (s.convert c).Sound depth := by
  cases c with
  | done tex => exact h.looked hring (.inr hsession)
  | overwritten => exact h
  | failed => exact h.looked hring (.inl rfl)

/-- The ring thread looks: at an encoder it starts, at a frame, or at nothing. -/
theorem Sound.look (h : s.Sound depth) (hring : s.ring = .looking) (l : RingLook) :
    (s.look l).Sound depth := by
  cases l with
  | again => exact h
  | nothing => exact h.looked hring (.inl rfl)
  | retired => exact h.exit 7
  | producerGone => exact h.exit 0
  | frame size made conversion =>
    simp only [EncodeLoop.look]
    -- no encoder yet: it is made for the size of the frame
    split
    · split
      · have hnew : Sound depth
            { s with session := some size, forceKey := true, lastTex := none } :=
          ⟨by simp, h.counted, h.bounded, h.room, h.asked, h.first, fun _ => by
            simp [nextKey, hring]⟩
        exact hnew.convert hring rfl conversion
      · exact h.exit 6
    · -- an encoder: the frame is of its size, or the program ends
      rename_i size' hsession
      split
      · exact h.convert hring (by simp [hsession]) conversion
      · exact h.exit 8

/-- The ring thread counts a frame before it sends it, so that the frame counts with it in between.
    -/
theorem Sound.ringStep (h : s.Sound depth) (idle young : Bool) (pts : Int) :
    (s.ringStep idle young pts).Sound depth := by
  have hcounted := h.counted
  have hnone := h.unsent
  have hsession := h.session
  simp only [EncodeLoop.ringStep]
  cases hring : s.ring with
  | looking => exact h
  | checking fresh =>
    simp only [ringCount, hring] at hcounted
    simp only [nextKey, hring] at hnone
    simp only
    split
    · -- a texture in hand, from this look or the last one, was made with an encoder
      rename_i tex htex
      have hsome : s.session.isSome = true := by
        by_contra hno
        obtain ⟨hlast, hfresh⟩ := hsession (by simpa using hno)
        simp only [hasTex, hring] at hfresh
        cases fresh with
        | none => simp [hlast] at htex
        | some tex' => simp at hfresh
      rw [if_neg (by simp [Option.isSome_iff_ne_none.mp hsome])]
      refine ⟨fun hno => ?_, hcounted, h.bounded, by simp, h.asked, h.first, fun hnil => ?_⟩
      · -- so the branch without an encoder is not taken
        rw [show s.session = none from hno] at hsome
        cases hsome
      · -- the wish is in hand now
        simp [nextKey, holdsKey, hnone hnil]
    · -- nothing to send: the wish, if there is one, is put back
      refine ⟨fun hno => ⟨(hsession hno).1, ?_⟩, ?_, h.bounded, ?_, h.asked, h.first,
        fun hnil => ?_⟩
      · split <;> rfl
      · simp only [ringCount]
        split <;> exact hcounted
      · split <;> simp
      · simp [nextKey, holdsKey, hnone hnil]
  | restoring =>
    simp only [ringCount, hring] at hcounted
    exact ⟨fun hno => ⟨(hsession hno).1, rfl⟩, hcounted, h.bounded, by simp, h.asked, h.first,
      fun _ => rfl⟩
  | weighing tex wantKey =>
    simp only [ringCount, hring] at hcounted
    simp only [nextKey, holdsKey, hring] at hnone
    have hsome : s.session ≠ none := fun hno => by
      have := (hsession hno).2
      simp [hasTex, hring] at this
    simp only
    split
    · -- three are under way: the frame is let go, the wish is not
      refine ⟨fun hno => absurd hno hsome, ?_, h.bounded, ?_, h.asked, h.first, fun hnil => ?_⟩
      · simp only [ringCount]
        split <;> exact hcounted
      · split <;> simp
      · simp [nextKey, holdsKey, hnone hnil]
    · -- there is room for one more
      exact ⟨fun hno => absurd hno hsome, hcounted, h.bounded, fun _ _ _ => by
        simpa using ‹¬ maxInFlight ≤ s.inFlight›, h.asked, h.first, hnone⟩
  | counting tex wantKey =>
    simp only [ringCount, hring] at hcounted
    simp only [nextKey, holdsKey, hring] at hnone
    have hsome : s.session ≠ none := fun hno => by
      have := (hsession hno).2
      simp [hasTex, hring] at this
    -- the room that was seen is still there, as only this thread adds frames
    have hroom := h.room tex wantKey hring
    refine ⟨fun hno => absurd hno hsome, ?_, ?_, by simp, h.asked, h.first, hnone⟩
    · -- the frame counts before it is sent
      simp only [ringCount, hcounted, encodeCount]
      omega
    · simp only
      omega
  | sending frame =>
    simp only [ringCount, hring] at hcounted
    simp only [nextKey, holdsKey, hring] at hnone
    have hsome : s.session ≠ none := fun hno => by
      have := (hsession hno).2
      simp [hasTex, hring] at this
    simp only
    split
    · -- the frame moves from the ring thread to the channel
      refine ⟨fun hno => absurd hno hsome, ?_, h.bounded, by simp, h.asked, fun first hfirst => ?_,
        fun hnil => by simp at hnil⟩
      · simp only [ringCount, List.length_append, List.length_singleton, encodeCount] at hcounted ⊢
        omega
      · -- if it is the first of all, it is the key that was owed
        rw [← List.append_assoc] at hfirst
        cases hall : s.taken ++ s.channel with
        | nil =>
          rw [hall] at hfirst
          obtain rfl := Option.some.inj hfirst
          exact hnone hall
        | cons f fs =>
          rw [hall] at hfirst
          exact h.first first (by rw [hall]; exact hfirst)
    · exact h

/-- The encoder asks for a frame only while it holds fewer than `depth`, and puts out one that it
    holds. -/
theorem Sound.event (h : s.Sound depth) (e : EncoderEvent) : (s.event depth e).Sound depth := by
  have hcounted := h.counted
  simp only [EncodeLoop.event]
  split
  · -- the encoder asks for a frame
    rename_i hencode
    split
    · simp only [encodeCount, hencode] at hcounted
      exact ⟨h.session, hcounted, h.bounded, h.room,
        ⟨h.asked.1, fun _ => ‹_›, by simp⟩, h.first, h.unsent⟩
    · exact h
  · -- the encoder gives one back: one less is inside
    rename_i hencode
    split
    · exact h
    · rename_i f inside hinside
      simp only [encodeCount, hencode, hinside, List.length_cons] at hcounted
      have hle := h.asked.1
      rw [hinside, List.length_cons] at hle
      refine ⟨h.session, ?_, h.bounded, h.room, ⟨?_, by simp, by simp⟩, h.first, h.unsent⟩
      · simp only [encodeCount, ringCount] at hcounted ⊢
        omega
      · simp only
        omega
  · exact h.exit 3
  · exact h

/-- The encode thread moves a frame from the channel to the encoder, or takes off the count what
    came out. -/
theorem Sound.encodeStep (h : s.Sound depth) (accepted : Bool) :
    (s.encodeStep accepted).Sound depth := by
  have hcounted := h.counted
  obtain ⟨hinside, htaking, hholding⟩ := h.asked
  simp only [EncodeLoop.encodeStep]
  cases hencode : s.encode with
  | waiting => exact h
  | taking =>
    simp only
    split
    · exact h
    · rename_i frame channel hchannel
      -- the frame moves from the channel to the encode thread
      have hall : s.taken ++ [frame] ++ channel = s.taken ++ s.channel := by simp [hchannel]
      refine ⟨h.session, ?_, h.bounded, h.room,
        ⟨hinside, by simp, fun _ _ => htaking hencode⟩, ?_, ?_⟩
      · simp only [encodeCount, ringCount, hencode, hchannel, List.length_cons] at hcounted ⊢
        omega
      · simp only [hall]
        exact h.first
      · simp only [hall]
        exact h.unsent
  | holding frame =>
    simp only [encodeCount, hencode] at hcounted
    have hlt := hholding frame hencode
    simp only
    split
    · -- the encoder has taken it
      refine ⟨h.session, ?_, h.bounded, h.room, ⟨?_, by simp, by simp⟩, h.first, h.unsent⟩
      · simp only [encodeCount, ringCount, List.length_append, List.length_singleton] at hcounted ⊢
        omega
      · simp only [List.length_append, List.length_singleton]
        omega
    · -- the encoder refused it, and it leaves the count next
      exact ⟨h.session, hcounted, h.bounded, h.room, ⟨hinside, by simp, by simp⟩, h.first, h.unsent⟩
  | leaving =>
    simp only [encodeCount, hencode] at hcounted
    have hbounded := h.bounded
    refine ⟨h.session, ?_, ?_, fun tex wantKey hring => ?_, ⟨hinside, by simp, by simp⟩, h.first,
      h.unsent⟩
    · -- it is not counted any more
      simp only [encodeCount, ringCount] at hcounted ⊢
      omega
    · simp only
      omega
    · -- with fewer under way there is still room
      have := h.room tex wantKey hring
      simp only
      omega

/-- One action. -/
theorem Sound.step (h : s.Sound depth) (act : Act) : (s.step depth act).Sound depth := by
  simp only [EncodeLoop.step]
  split
  · exact h
  · cases act with
    | look l =>
      simp only
      split
      · exact h.look ‹_› l
      · exact h
    | ring idle young pts => exact h.ringStep idle young pts
    | event e => exact h.event e
    | encode accepted => exact h.encodeStep accepted
    | line l => exact h.line l

/-- Every order of actions. -/
theorem sound_run (depth : Nat) (acts : List Act) : (run depth acts).Sound depth := by
  induction acts using List.reverseRecOn with
  | nil => exact sound_start depth
  | append_singleton acts act ih =>
    rw [run, List.foldl_append]
    exact ih.step act

/-- In every run, whatever the encoder and the ring do: at most three frames are under way, which
    are those that are counted; when the ring thread sends there is room in the channel; and the
    first frame that the encode thread gets is to be a key. -/
theorem run_bounded (depth : Nat) (acts : List Act) :
    let s := run depth acts
    s.inFlight = s.channel.length + s.inside.length + s.encodeCount + s.ringCount ∧
      s.inFlight ≤ maxInFlight ∧
      (∀ frame, s.ring = .sending frame → s.channel.length < channelRoom) ∧
      ∀ frame, s.taken.head? = some frame → frame.key = true := by
  intro s
  have h : s.Sound depth := sound_run depth acts
  refine ⟨h.counted, h.bounded, fun frame hring => ?_, fun frame hfirst => ?_⟩
  · -- the channel has room while a frame is about to be sent
    have hcounted := h.counted
    have hbounded := h.bounded
    simp only [ringCount, hring, maxInFlight] at hcounted hbounded
    simp only [channelRoom]
    omega
  · -- the first frame that was taken is a key
    cases htaken : s.taken with
    | nil => rw [htaken] at hfirst; cases hfirst
    | cons f fs =>
      refine h.first frame ?_
      rw [htaken] at hfirst ⊢
      exact hfirst

/-! ## A wish is kept -/

/-- The ring thread loses no wish. -/
theorem Owed.ringStep (howed : s.Owed) (h : s.Sound depth) (idle young : Bool) (pts : Int) :
    (s.ringStep idle young pts).Owed := by
  -- where the channel stays, the wish has to stay with the flag or the ring thread
  have hkept : ∀ s' : EncodeLoop, s'.channel = s.channel →
      (s.forceKey = true ∨ s.holdsKey = true → s'.forceKey = true ∨ s'.holdsKey = true) →
      s'.Owed := by
    intro s' hchannel hwish
    rcases howed with hforce | hholds | hframe
    · exact (hwish (.inl hforce)).imp_right .inl
    · exact (hwish (.inr hholds)).imp_right .inl
    · exact .inr (.inr (hchannel ▸ hframe))
  simp only [EncodeLoop.ringStep]
  cases hring : s.ring with
  | looking => exact howed
  | checking fresh =>
    simp only
    split
    · rename_i tex htex
      -- a texture in hand was made with an encoder, so the wish is not dropped with it
      have hsome : s.session ≠ none := fun hno => by
        obtain ⟨hlast, hfresh⟩ := h.session hno
        simp only [hasTex, hring] at hfresh
        cases fresh with
        | none => simp [hlast] at htex
        | some tex' => simp at hfresh
      rw [if_neg (by simp [hsome])]
      refine hkept _ rfl fun hwish => .inr ?_
      simp only [holdsKey, hring, Bool.false_eq_true, or_false] at hwish ⊢
      simp [hwish]
    · refine hkept _ rfl fun hwish => .inr ?_
      simp only [holdsKey, hring, Bool.false_eq_true, or_false] at hwish ⊢
      simp [hwish]
  | restoring => exact .inl rfl
  | weighing tex wantKey =>
    simp only
    split
    · -- it is restored when the frame is let go
      refine hkept _ rfl fun hwish => hwish.imp_right fun hholds => ?_
      simp only [holdsKey, hring] at hholds ⊢
      simp [hholds]
    · refine hkept _ rfl fun hwish => ?_
      simpa only [holdsKey, hring] using hwish
  | counting tex wantKey =>
    refine hkept _ rfl fun hwish => ?_
    simpa only [holdsKey, hring] using hwish
  | sending frame =>
    simp only
    split
    · -- the wish goes into the channel with the frame
      rcases howed with hforce | hholds | ⟨f, hf, hkey⟩
      · exact .inl hforce
      · simp only [holdsKey, hring] at hholds
        exact .inr (.inr ⟨frame, by simp, hholds⟩)
      · exact .inr (.inr ⟨f, by simp [hf], hkey⟩)
    · exact howed

/-- A look leaves the wish where it is, or makes one with a new encoder. -/
theorem Owed.look (howed : s.Owed) (hring : s.ring = .looking) (l : RingLook) :
    (s.look l).Owed := by
  have hwish : s.forceKey = true ∨ ∃ frame ∈ s.channel, frame.key = true := by
    simpa [Owed, holdsKey, hring] using howed
  -- a conversion keeps the wish where it is
  have hconvert : ∀ (s' : EncodeLoop) c,
      s'.forceKey = true ∨ (∃ frame ∈ s'.channel, frame.key = true) → (s'.convert c).Owed := by
    intro s' c hwish
    cases c <;> exact hwish.imp_right .inr
  cases l with
  -- a new encoder makes a wish of its own
  | frame size made conversion =>
    simp only [EncodeLoop.look]
    split
    · split
      · exact hconvert _ _ (.inl rfl)
      · exact howed
    · split
      · exact hconvert _ _ hwish
      · exact howed
  | nothing => exact hwish.imp_right .inr
  | _ => exact howed

/-- After an action a wish is where it was or further on, or the encode thread has it. -/
theorem Owed.step (howed : s.Owed) (h : s.Sound depth) (act : Act) :
    (s.step depth act).Owed ∨
      ∃ frame, (s.step depth act).taken = s.taken ++ [frame] ∧ frame.key = true := by
  simp only [EncodeLoop.step]
  split
  · exact .inl howed
  · cases act with
    | look l =>
      simp only
      split
      · exact .inl (howed.look ‹_› l)
      · exact .inl howed
    | ring idle young pts => exact .inl (howed.ringStep h idle young pts)
    | event e =>
      refine .inl ?_
      simp only [EncodeLoop.event]
      repeat' split
      all_goals exact howed
    | line l =>
      refine .inl ?_
      cases l with
      | key => exact .inl rfl
      | _ => exact howed
    | encode accepted =>
      simp only [EncodeLoop.encodeStep]
      split
      · exact .inl howed
      · split
        · exact .inl howed
        · -- the frame that is taken is the key, or the key is behind it
          rename_i frame channel hchannel
          cases hkey : frame.key with
          | true => exact .inr ⟨frame, rfl, hkey⟩
          | false =>
            refine .inl (howed.imp_right fun hrest => hrest.imp_right ?_)
            rintro ⟨f, hf, hfkey⟩
            rw [hchannel] at hf
            rcases List.mem_cons.mp hf with rfl | hf
            · rw [hkey] at hfkey
              cases hfkey
            · exact ⟨f, hf, hfkey⟩
      · split <;> exact .inl howed
      · exact .inl howed

/-- The encode thread only gets more. -/
private theorem taken_step (depth : Nat) (s : EncodeLoop) (act : Act) :
    s.taken <+: (s.step depth act).taken := by
  simp only [EncodeLoop.step]
  split
  · exact List.prefix_rfl
  · -- only the encode thread's own step takes a frame
    cases act with
    | look l =>
      simp only [EncodeLoop.look, convert]
      repeat' split
      all_goals exact List.prefix_rfl
    | ring idle young pts =>
      simp only [EncodeLoop.ringStep]
      repeat' split
      all_goals exact List.prefix_rfl
    | event e =>
      simp only [EncodeLoop.event]
      repeat' split
      all_goals exact List.prefix_rfl
    | line l => cases l <;> exact List.prefix_rfl
    | encode accepted =>
      simp only [EncodeLoop.encodeStep]
      repeat' split
      all_goals first | exact List.prefix_rfl | exact List.prefix_append ..

/-- The encode thread has got a frame that is to be a key, beyond the first `n`. -/
def Answered (n : Nat) (s : EncodeLoop) : Prop := ∃ frame ∈ s.taken.drop n, frame.key = true

/-- A key that the encode thread has got is not taken back. -/
theorem Answered.step {n : Nat} (h : s.Answered n) (depth : Nat) (act : Act) :
    (s.step depth act).Answered n := by
  obtain ⟨frame, hframe, hkey⟩ := h
  obtain ⟨new, hnew⟩ := taken_step depth s act
  refine ⟨frame, ?_, hkey⟩
  rw [← hnew, List.drop_append]
  exact List.mem_append_left _ hframe

/-- What is kept of a wish. -/
theorem Owed.step_or {n : Nat} (h : s.Sound depth) (hn : n ≤ s.taken.length)
    (howed : s.Owed ∨ s.Answered n) (act : Act) :
    (s.step depth act).Owed ∨ (s.step depth act).Answered n := by
  rcases howed with howed | hanswered
  · refine (howed.step h act).imp_right ?_
    rintro ⟨frame, htaken, hkey⟩
    refine ⟨frame, ?_, hkey⟩
    rw [htaken, List.drop_append_of_le_length hn]
    exact List.mem_append_right _ (List.mem_singleton_self _)
  · exact .inr (hanswered.step depth act)

/-- A wish for a key is never lost, whatever the ring, the encoder and the other threads do: it is
    with the ring thread or in the channel until the encode thread gets a frame that is to be a
    key. -/
theorem key_kept (depth : Nat) (before after : List Act)
    (hlives : (run depth before).exited = none) :
    let s := run depth (before ++ .line .key :: after)
    s.Owed ∨ s.Answered (run depth before).taken.length := by
  have hkey : (run depth before).step depth (.line .key) = (run depth before).line .key :=
    if_neg (by simp [hlives])
  -- from the request on, by induction on the actions
  suffices h : ∀ s : EncodeLoop, s.Sound depth → (run depth before).taken.length ≤ s.taken.length →
      s.Owed ∨ s.Answered (run depth before).taken.length →
      (after.foldl (step depth) s).Owed ∨
        (after.foldl (step depth) s).Answered (run depth before).taken.length by
    intro s
    simp only [s, run, List.foldl_append, List.foldl_cons]
    refine h _ ((sound_run depth before).step _) ?_ (.inl ?_)
    · exact (taken_step depth (run depth before) (.line .key)).length_le
    · rw [← run, hkey]
      exact .inl rfl
  induction after with
  | nil => exact fun _ _ _ h => h
  | cons act after ih =>
    intro s hs hn howed
    exact ih _ (hs.step act) (hn.trans (taken_step depth s act).length_le)
      (Owed.step_or hs hn howed act)

/-- Frames of 16 by 16 pixels. -/
def sixteen : FrameSize := ⟨(16, 16), by decide⟩

/-- A frame is found, converted, and sent. -/
def sendOne (tex : Nat) : List Act :=
  [.look (.frame sixteen true (.done tex)), .ring false false 0, .ring false false 0,
    .ring false false 0, .ring false false 0]

/-- A wish between two frames is met with the second. -/
theorem key_kept_between :
    let s := run 2 (sendOne 0 ++ .line .key :: sendOne 1)
    s.Owed ∨ s.Answered (run 2 (sendOne 0)).taken.length :=
  key_kept 2 (sendOne 0) (sendOne 1) rfl

/-! ## A wish is met -/

/-- What the ring thread does next for a wish for a key, if it does something. -/
inductive RingView where
  /-- The key is in the channel. -/
  | sent
  /-- Three frames are under way. -/
  | full
  | passing (phase : RingPhase)
deriving DecidableEq

/-- The ring thread sends nothing before it has looked how many frames are under way, and then a
    key. -/
def looksFirst (s : EncodeLoop) : Bool :=
  match s.ring with
  | .looking | .checking _ | .restoring => true
  | .weighing _ wantKey => wantKey
  | .counting .. | .sending _ => false

def ringView (s : EncodeLoop) : RingView :=
  if s.channel.any (·.key) then .sent
  else if maxInFlight ≤ s.inFlight ∧ s.looksFirst = true then .full
  else .passing s.ring

/-- How many frames the encode thread takes until it has a key, or all. -/
def ahead : List Submission → Nat
  | [] => 0
  | frame :: frames => if frame.key then 1 else ahead frames + 1

/-- A frame behind a key does not make the wait for the key longer. -/
private theorem ahead_append (frames : List Submission) (frame : Submission) :
    ahead (frames ++ [frame]) =
      if frames.any (·.key) then ahead frames else ahead frames + 1 := by
  induction frames with
  | nil => simp [ahead]
  | cons f frames ih =>
    cases hkey : f.key with
    | true => simp [ahead, hkey]
    | false =>
      simp only [List.cons_append, ahead, hkey, Bool.false_eq_true, if_false, ih, List.any_cons,
        Bool.false_or]
      split <;> rfl

/-- What there is to see of a wish. -/
def view (s : EncodeLoop) : RingView × EncodePhase × Nat × Nat :=
  (s.ringView, s.encode, ahead s.channel, s.inside.length)

def ringLoad : RingView → Nat
  | .sent => 0
  | .full => 1008
  | .passing .restoring => 1007
  | .passing .looking => 1006
  | .passing (.checking _) => 1005
  | .passing (.weighing _ wantKey) => if wantKey then 1004 else 2003
  | .passing (.counting _ wantKey) => if wantKey then 1003 else 2002
  | .passing (.sending frame) => if frame.key then 1002 else 2001

def encodeLoad : EncodePhase → Nat
  | .waiting => 1
  | .taking => 0
  | .holding _ => 7
  | .leaving => 2

/-- How far the wish is from being met. A frame in the channel is taken, held and put out. -/
def load (v : RingView × EncodePhase × Nat × Nat) : Nat :=
  ringLoad v.1 + 10 * (encodeLoad v.2.1 + 8 * v.2.2.1 + 4 * v.2.2.2)

/-- A session in which a wish for a key is under way. -/
structure Wishing (depth : Nat) (size : FrameSize) (n : Nat) (s : EncodeLoop) : Prop where
  sound : s.Sound depth
  session : s.session = some size
  lives : s.exited = none
  tex : s.lastTex.isSome
  count : n ≤ s.taken.length
  owed : s.Owed ∨ s.Answered n

/-- A step of the ring thread adds a frame to the channel at most, and touches nothing of the encode
    thread's. -/
private theorem ringStep_rest (s : EncodeLoop) (idle young : Bool) (pts : Int) :
    (s.ringStep idle young pts).encode = s.encode ∧ (s.ringStep idle young pts).inside = s.inside ∧
      ((s.ringStep idle young pts).channel = s.channel ∨
        ∃ frame, (s.ringStep idle young pts).channel = s.channel ++ [frame]) := by
  simp only [EncodeLoop.ringStep]
  repeat' split
  all_goals first
    | exact ⟨rfl, rfl, .inl rfl⟩
    | exact ⟨rfl, rfl, .inr ⟨_, rfl⟩⟩

/-- With a key in the channel the ring thread's part is done. -/
private theorem ringView_of_sent (h : s.channel.any (·.key) = true) : s.ringView = .sent := if_pos h

/-- With three frames under way it waits for the encoder. -/
private theorem ringView_of_full (h : s.channel.any (·.key) = false)
    (hfull : maxInFlight ≤ s.inFlight)
    (hlooks : s.looksFirst = true) : s.ringView = .full := by
  rw [ringView, if_neg (by simp [h]), if_pos ⟨hfull, hlooks⟩]

/-- Else it goes on from where it is. -/
private theorem ringView_of_at (h : s.channel.any (·.key) = false)
    (hat : s.inFlight < maxInFlight ∨ s.looksFirst = false) : s.ringView = .passing s.ring := by
  rw [ringView, if_neg (by simp [h]), if_neg]
  rintro ⟨hfull, hlooks⟩
  rcases hat with hlt | hno
  · omega
  · rw [hno] at hlooks
    cases hlooks

/-- What the ring thread does by itself shows with the ring thread only. -/
private theorem load_of_ringView {s' : EncodeLoop} (hchannel : s'.channel = s.channel)
    (hencode : s'.encode = s.encode) (hinside : s'.inside = s.inside)
    (h : ringLoad s'.ringView < ringLoad s.ringView) : load s'.view < load s.view := by
  simp only [load, view, hchannel, hencode, hinside]
  omega

/-- A step of a pass that has still to look how many frames are under way. -/
private theorem view_looksFirst {s' : EncodeLoop} (hsent : s.channel.any (·.key) = false)
    (hchannel : s'.channel = s.channel) (hencode : s'.encode = s.encode)
    (hinside : s'.inside = s.inside) (hinFlight : s'.inFlight = s.inFlight)
    (hlooks : s.looksFirst = true) (hlooks' : s'.looksFirst = true)
    (hless : ringLoad (.passing s'.ring) < ringLoad (.passing s.ring)) :
    s'.view = s.view ∧ s.ringView = .full ∨ load s'.view < load s.view := by
  have hsent' : s'.channel.any (·.key) = false := hchannel ▸ hsent
  by_cases hfull : maxInFlight ≤ s.inFlight
  · have hview := ringView_of_full hsent hfull hlooks
    refine .inl ⟨?_, hview⟩
    rw [view, ringView_of_full hsent' (hinFlight ▸ hfull) hlooks', hchannel, hencode, hinside, view,
      hview]
  · have hlt : s.inFlight < maxInFlight := by omega
    refine .inr (load_of_ringView hchannel hencode hinside ?_)
    rwa [ringView_of_at hsent (.inl hlt), ringView_of_at hsent' (.inl (hinFlight ▸ hlt))]

/-- The ring thread goes on: it waits for the encoder or for the ring, or is nearer to the key. -/
private theorem view_ringStep {size : FrameSize} {n : Nat} (h : s.Wishing depth size n)
    (hnot : ¬ s.Answered n) (idle young : Bool) (pts : Int) :
    (s.ringStep idle young pts).view = s.view ∧
        (s.ringView = .sent ∨ s.ringView = .full ∨ s.ring = .looking) ∨
      load (s.ringStep idle young pts).view < load s.view := by
  have howed := h.owed.resolve_right hnot
  cases hsent : s.channel.any (·.key) with
  | true =>
    obtain ⟨hencode, hinside, hchannel⟩ := s.ringStep_rest idle young pts
    refine .inl ⟨?_, .inl (ringView_of_sent hsent)⟩
    rcases hchannel with hsame | ⟨frame, hmore⟩
    · simp only [view, hencode, hinside, hsame, ringView_of_sent hsent,
        ringView_of_sent (hsame ▸ hsent)]
    · have hsent' : (s.ringStep idle young pts).channel.any (·.key) = true := by
        rw [hmore, List.any_append, hsent, Bool.true_or]
      simp only [view, hencode, hinside, hmore, ahead_append, hsent, if_true,
        ringView_of_sent hsent, ringView_of_sent hsent']
  | false =>
    have hwish : s.forceKey = true ∨ s.holdsKey = true := by
      refine howed.imp_right fun hrest => hrest.resolve_right ?_
      rintro ⟨frame, hframe, hkey⟩
      have := List.any_eq_false.mp hsent frame hframe
      exact this hkey
    obtain ⟨hencode, hinside, -⟩ := s.ringStep_rest idle young pts
    have hor (h : (s.ringStep idle young pts).view = s.view ∧ s.ringView = .full ∨
        load (s.ringStep idle young pts).view < load s.view) :
        (s.ringStep idle young pts).view = s.view ∧
            (s.ringView = .sent ∨ s.ringView = .full ∨ s.ring = .looking) ∨
          load (s.ringStep idle young pts).view < load s.view :=
      h.imp_left (And.imp_right fun hfull => .inr (.inl hfull))
    cases hring : s.ring with
    | looking =>
      have hstep : s.ringStep idle young pts = s := by simp only [EncodeLoop.ringStep, hring]
      exact .inl ⟨by rw [hstep], .inr (.inr rfl)⟩
    | checking fresh =>
      simp only [holdsKey, hring, Bool.false_eq_true, or_false] at hwish
      obtain ⟨last, hlast⟩ := Option.isSome_iff_exists.mp h.tex
      obtain ⟨tex, htex⟩ : ∃ tex, (fresh <|> some last) = some tex := by cases fresh <;> simp
      have hstep : s.ringStep idle young pts =
          { s with forceKey := false, ring := .weighing tex true } := by
        simp [EncodeLoop.ringStep, hring, hwish, hlast, htex, h.session]
      refine hring ▸ hor (view_looksFirst hsent (by rw [hstep]) hencode hinside (by rw [hstep])
        (by simp only [looksFirst, hring]) (by rw [hstep]; rfl) ?_)
      rw [hstep, hring]
      simp [ringLoad]
    | restoring =>
      have hstep : s.ringStep idle young pts = { s with forceKey := true, ring := .looking } := by
        simp only [EncodeLoop.ringStep, hring]
      refine hring ▸ hor (view_looksFirst hsent (by rw [hstep]) hencode hinside (by rw [hstep])
        (by simp only [looksFirst, hring]) (by rw [hstep]; rfl) ?_)
      rw [hstep, hring]
      simp [ringLoad]
    | weighing tex wantKey =>
      by_cases hfull : maxInFlight ≤ s.inFlight
      · have hstep : s.ringStep idle young pts =
            { s with
              lastTex := some tex
              ring := if wantKey then .restoring else .looking } := by
          simp only [EncodeLoop.ringStep, hring, if_pos hfull]
        have hview : (s.ringStep idle young pts).ringView = .full := by
          rw [hstep]
          exact ringView_of_full hsent hfull (by cases wantKey <;> rfl)
        cases wantKey with
        | true =>
          have hview' := ringView_of_full hsent hfull (by simp only [looksFirst, hring])
          refine .inl ⟨?_, .inr (.inl hview')⟩
          rw [view, view, hview, hview', hencode, hinside, hstep]
        | false =>
          refine .inr (load_of_ringView (by rw [hstep]) hencode hinside ?_)
          rw [hview, ringView_of_at hsent (.inr (by simp only [looksFirst, hring])), hring]
          simp [ringLoad]
      · have hstep : s.ringStep idle young pts = { s with ring := .counting tex wantKey } := by
          simp only [EncodeLoop.ringStep, hring, if_neg hfull]
        refine .inr (load_of_ringView (by rw [hstep]) hencode hinside ?_)
        have hview : (s.ringStep idle young pts).ringView = .passing (.counting tex wantKey) := by
          rw [hstep]
          exact ringView_of_at hsent (.inr rfl)
        rw [ringView_of_at hsent (.inl (by omega)), hring, hview]
        cases wantKey <;> simp [ringLoad]
    | counting tex wantKey =>
      have hstep : s.ringStep idle young pts =
          { s with inFlight := s.inFlight + 1, ring := .sending ⟨tex, pts, wantKey⟩ } := by
        simp only [EncodeLoop.ringStep, hring]
      refine .inr (load_of_ringView (by rw [hstep]) hencode hinside ?_)
      have hview : (s.ringStep idle young pts).ringView =
          .passing (.sending ⟨tex, pts, wantKey⟩) := by
        rw [hstep]
        exact ringView_of_at hsent (.inr rfl)
      rw [ringView_of_at hsent (.inr (by simp only [looksFirst, hring])), hring, hview]
      cases wantKey <;> simp [ringLoad]
    | sending frame =>
      have hroom : s.channel.length < channelRoom := by
        have hcounted := h.sound.counted
        have hbounded := h.sound.bounded
        simp only [ringCount, hring, maxInFlight] at hcounted hbounded
        simp only [channelRoom]
        omega
      have hstep : s.ringStep idle young pts =
          { s with
            channel := s.channel ++ [frame]
            lastTex := some frame.tex
            ring := .looking } := by
        simp only [EncodeLoop.ringStep, hring, if_pos hroom]
      have hview : s.ringView = .passing (.sending frame) := by
        rw [ringView_of_at hsent (.inr (by simp only [looksFirst, hring])), hring]
      -- one frame more to take, and a stage less to go
      have hahead : ahead (s.ringStep idle young pts).channel = ahead s.channel + 1 := by
        simp only [hstep, ahead_append, hsent, Bool.false_eq_true, if_false]
      have hless : ringLoad (s.ringStep idle young pts).ringView + 80 < ringLoad s.ringView := by
        rw [hview]
        cases hkey : frame.key with
        | true =>
          rw [ringView_of_sent (by rw [hstep]; simp [hkey])]
          simp [ringLoad, hkey]
        | false =>
          have hno : (s.ringStep idle young pts).channel.any (·.key) = false := by
            rw [hstep]
            simp [hsent, hkey]
          have hlooks : (s.ringStep idle young pts).looksFirst = true := by rw [hstep]; rfl
          by_cases hfull : maxInFlight ≤ (s.ringStep idle young pts).inFlight
          · rw [ringView_of_full hno hfull hlooks]
            simp [ringLoad, hkey]
          · rw [ringView_of_at hno (.inl (by omega)), hstep]
            simp [ringLoad, hkey]
      refine .inr ?_
      simp only [load, view, hencode, hinside, hahead]
      omega

/-- A frame less under way does not take the ring thread back. -/
private theorem ringLoad_le {s' : EncodeLoop} (hchannel : s'.channel = s.channel)
    (hring : s'.ring = s.ring)
    (hle : s'.inFlight ≤ s.inFlight) : ringLoad s'.ringView ≤ ringLoad s.ringView := by
  have hlooks : s'.looksFirst = s.looksFirst := by simp only [looksFirst, hring]
  cases hsent : s.channel.any (·.key) with
  | true =>
    rw [ringView_of_sent hsent, ringView_of_sent (hchannel ▸ hsent)]
  | false =>
    have hsent' : s'.channel.any (·.key) = false := hchannel ▸ hsent
    -- it waited for the encoder: if it still does, nothing changes
    by_cases hfull : maxInFlight ≤ s.inFlight ∧ s.looksFirst = true
    · rw [ringView_of_full hsent hfull.1 hfull.2]
      by_cases hfull' : maxInFlight ≤ s'.inFlight
      · rw [ringView_of_full hsent' hfull' (hlooks.trans hfull.2)]
      · -- it goes on again, from before the count, which weighs less
        rw [ringView_of_at hsent' (.inl (by omega)), hring]
        have hlooks := hfull.2
        cases hphase : s.ring with
        | weighing tex wantKey =>
          simp only [looksFirst, hphase] at hlooks
          simp [ringLoad, hlooks]
        | counting tex wantKey => simp [looksFirst, hphase] at hlooks
        | sending frame => simp [looksFirst, hphase] at hlooks
        | _ => simp [ringLoad]
    · -- it goes on from where it is, with fewer under way too
      have hat : s.inFlight < maxInFlight ∨ s.looksFirst = false := by
        by_contra hno
        simp only [not_or, Int.not_lt, Bool.not_eq_false] at hno
        exact hfull hno
      rw [ringView_of_at hsent hat,
        ringView_of_at hsent' (hat.imp (fun hlt => by omega) fun hno => hlooks.trans hno), hring]

/-- What the encoder does shows with the encode thread only. -/
private theorem load_of_encode {s' : EncodeLoop} (hchannel : s'.channel = s.channel)
    (hring : s'.ring = s.ring) (hinFlight : s'.inFlight ≤ s.inFlight)
    (h : encodeLoad s'.encode + 4 * s'.inside.length <
      encodeLoad s.encode + 4 * s.inside.length) : load s'.view < load s.view := by
  have hle := ringLoad_le hchannel hring hinFlight
  simp only [load, view, hchannel]
  omega

/-- The encode thread goes on: it waits, has the key, or is nearer to it. -/
private theorem view_encodeStep {n : Nat} (hn : n ≤ s.taken.length) (accepted : Bool) :
    (s.encodeStep accepted).Answered n ∨
      (s.encodeStep accepted).view = s.view ∧
        (s.encode = .waiting ∨ s.encode = .taking ∧ s.channel = []) ∨
      load (s.encodeStep accepted).view < load s.view := by
  cases hencode : s.encode with
  | waiting =>
    have hstep : s.encodeStep accepted = s := by simp only [EncodeLoop.encodeStep, hencode]
    exact .inr (.inl ⟨by rw [hstep], .inl rfl⟩)
  | taking =>
    cases hchannel : s.channel with
    | nil =>
      have hstep : s.encodeStep accepted = s := by
        simp only [EncodeLoop.encodeStep, hencode, hchannel]
      exact .inr (.inl ⟨by rw [hstep], .inr ⟨rfl, rfl⟩⟩)
    | cons frame channel =>
      have hstep : s.encodeStep accepted =
          { s with
            channel := channel
            taken := s.taken ++ [frame]
            encode := .holding frame } := by
        simp only [EncodeLoop.encodeStep, hencode, hchannel]
      -- the key is taken, which answers the wish
      cases hkey : frame.key with
      | true =>
        refine .inl ⟨frame, ?_, hkey⟩
        rw [hstep]
        simp only [List.drop_append_of_le_length hn]
        exact List.mem_append_right _ (List.mem_singleton_self _)
      -- another frame is taken, and the key has one less ahead of it
      | false =>
        have hview : (s.encodeStep accepted).ringView = s.ringView := by
          rw [hstep]
          simp only [ringView, looksFirst, hchannel, List.any_cons, hkey, Bool.false_or]
          rfl
        refine .inr (.inr ?_)
        simp only [load, view, hview]
        simp only [hencode, hchannel, ahead, hkey, hstep, encodeLoad, Bool.false_eq_true, if_false]
        omega
  | holding frame =>
    refine .inr (.inr ?_)
    cases accepted with
    | true =>
      -- the frame is inside the encoder
      have hstep : s.encodeStep true =
          { s with inside := s.inside ++ [frame], encode := .waiting } := by
        simp only [EncodeLoop.encodeStep, hencode, if_true]
      refine load_of_encode (by rw [hstep]) (by rw [hstep]) (by rw [hstep]) ?_
      simp only [hstep, hencode, encodeLoad, List.length_append, List.length_singleton]
      omega
    | false =>
      -- it was refused
      have hstep : s.encodeStep false = { s with encode := .leaving } := by
        simp only [EncodeLoop.encodeStep, hencode, Bool.false_eq_true, if_false]
      refine load_of_encode (by rw [hstep]) (by rw [hstep]) (by rw [hstep]) ?_
      simp only [hstep, hencode, encodeLoad]
      omega
  | leaving =>
    have hstep : s.encodeStep accepted =
        { s with inFlight := s.inFlight - 1, encode := .waiting } := by
      simp only [EncodeLoop.encodeStep, hencode]
    refine .inr (.inr (load_of_encode (by rw [hstep]) (by rw [hstep]) ?_ ?_))
    · simp only [hstep]
      omega
    · simp only [hstep, hencode, encodeLoad]
      omega

/-- An event of the encoder comes at the wrong time, or brings the key nearer. -/
private theorem view_event {size : FrameSize} (hsession : s.session = some size) {e : EncoderEvent}
    (he : e ≠ .error) :
    (s.event depth e).view = s.view ∨ load (s.event depth e).view < load s.view := by
  simp only [EncodeLoop.event, hsession]
  split
  · rename_i hencode
    split
    · exact .inr (load_of_encode rfl rfl (Int.le_refl _) (by simp [encodeLoad, hencode]))
    · exact .inl rfl
  · rename_i hencode
    -- a frame comes out: the encoder holds one less
    split
    · exact .inl rfl
    · rename_i hinside
      refine .inr (load_of_encode rfl rfl (Int.le_refl _) ?_)
      simp only [encodeLoad, hencode, hinside, List.length_cons]
      omega
  · exact absurd rfl he
  · exact .inl rfl

/-- The encode thread waits for an event, and it comes. -/
private theorem load_event {size : FrameSize} (hsession : s.session = some size)
    (hencode : s.encode = .waiting) :
    (s.inside.length < depth → load (s.event depth .needInput).view < load s.view) ∧
      (s.inside ≠ [] → load (s.event depth .haveOutput).view < load s.view) := by
  simp only [EncodeLoop.event, hsession, hencode]
  refine ⟨fun hroom => ?_, fun hinside => ?_⟩
  · rw [if_pos hroom]
    exact load_of_encode rfl rfl (Int.le_refl _) (by simp [encodeLoad, hencode])
  · obtain ⟨frame, inside, hcons⟩ := List.exists_cons_of_ne_nil hinside
    simp only [hcons]
    refine load_of_encode rfl rfl (Int.le_refl _) ?_
    simp only [encodeLoad, hencode, hcons, List.length_cons]
    omega

/-- A look that lets the ring thread go on. -/
def Passes : RingLook → Prop
  | .nothing => True
  | .frame _ _ conversion => conversion ≠ .overwritten
  | _ => False

/-- Nothing ends the process, and the frames keep their size. -/
def Calm (size : FrameSize) : Act → Prop
  | .look (.frame size' _ _) => size' = size
  | .look .retired | .look .producerGone | .event .error | .line .quit => False
  | _ => True

/-- The ring thread has looked. -/
private theorem view_looked (hring : s.ring = .looking) (fresh : Option Nat) :
    ({ s with ring := .checking fresh } : EncodeLoop).view = s.view ∧
        s.ringView ≠ .passing .looking ∨
      load ({ s with ring := .checking fresh } : EncodeLoop).view < load s.view := by
  -- the key is on its way already, or the ring thread is before it
  cases hsent : s.channel.any (·.key) with
  | true =>
    have hview := ringView_of_sent hsent
    refine .inl ⟨?_, by simp [hview]⟩
    simp only [view, hview, Prod.mk.injEq, and_true]
    exact ringView_of_sent hsent
  | false =>
    have hor : ({ s with ring := .checking fresh } : EncodeLoop).view = s.view ∧
          s.ringView = .full ∨
        load ({ s with ring := .checking fresh } : EncodeLoop).view < load s.view :=
      view_looksFirst hsent rfl rfl rfl rfl (by simp only [looksFirst, hring]) rfl
        (by simp [ringLoad, hring])
    exact hor.imp_left (And.imp_right fun hfull => by simp [hfull])

/-- The ring thread looks at the ring: it looks again, or is nearer to the key. -/
private theorem view_look {size : FrameSize} (hsession : s.session = some size)
    (hring : s.ring = .looking)
    {l : RingLook} (hcalm : Calm size (.look l)) :
    (s.look l).view = s.view ∧ (Passes l → s.ringView ≠ .passing .looking) ∨
      load (s.look l).view < load s.view := by
  cases l with
  | again => exact .inl ⟨rfl, fun h => h.elim⟩
  | nothing => exact (view_looked hring none).imp_left (And.imp_right fun h _ => h)
  | frame size' made conversion =>
    obtain rfl : size' = size := hcalm
    have hlook : s.look (.frame size' made conversion) = s.convert conversion := by
      simp only [EncodeLoop.look, hsession, if_true]
    rw [hlook]
    cases conversion with
    | done tex => exact (view_looked hring (some tex)).imp_left (And.imp_right fun h _ => h)
    | overwritten => exact .inl ⟨rfl, fun h => absurd rfl h⟩
    | failed => exact (view_looked hring none).imp_left (And.imp_right fun h _ => h)
  | retired => exact hcalm.elim
  | producerGone => exact hcalm.elim

/-- A session with a wish under way stays one, or the wish is met. -/
theorem Wishing.step {size : FrameSize} {n : Nat} (h : s.Wishing depth size n) {act : Act}
    (hcalm : Calm size act) : (s.step depth act).Wishing depth size n := by
  have hsound := h.sound.step act
  have hcount := h.count.trans (taken_step depth s act).length_le
  have howed := Owed.step_or h.sound h.count h.owed act
  -- what is left is that the session goes on with its texture
  suffices hrest : (s.step depth act).session = some size ∧ (s.step depth act).exited = none ∧
      (s.step depth act).lastTex.isSome from
    ⟨hsound, hrest.1, hrest.2.1, hrest.2.2, hcount, howed⟩
  have hkept : s.session = some size ∧ s.exited = none ∧ s.lastTex.isSome :=
    ⟨h.session, h.lives, h.tex⟩
  simp only [EncodeLoop.step, h.lives, Option.isSome_none, Bool.false_eq_true, if_false]
  cases act with
  | look l =>
    simp only
    split
    · cases l with
      | frame size' made conversion =>
        obtain rfl : size' = size := hcalm
        simp only [EncodeLoop.look, h.session, if_true]
        cases conversion <;> exact hkept
      | retired => exact hcalm.elim
      | producerGone => exact hcalm.elim
      | _ => exact hkept
    · exact hkept
  | ring idle young pts =>
    simp only [EncodeLoop.ringStep]
    repeat' split
    all_goals exact ⟨h.session, h.lives, by first | exact h.tex | rfl⟩
  | event e =>
    have he : e ≠ .error := by
      rintro rfl
      exact hcalm
    simp only [EncodeLoop.event]
    repeat' split
    all_goals first | exact hkept | exact absurd rfl he
  | encode accepted =>
    simp only [EncodeLoop.encodeStep]
    repeat' split
    all_goals exact hkept
  | line l =>
    cases l with
    | quit => exact hcalm.elim
    | _ => exact hkept

instance (n : Nat) (s : EncodeLoop) : Decidable (s.Answered n) :=
  inferInstanceAs (Decidable (∃ frame ∈ s.taken.drop n, frame.key = true))

/-- What there is to see of a wish until it is met. -/
def seen (n : Nat) (s : EncodeLoop) : Option (RingView × EncodePhase × Nat × Nat) :=
  if s.Answered n then none else some s.view

def seenLoad : Option (RingView × EncodePhase × Nat × Nat) → Nat
  | none => 0
  | some v => load v + 1

/-- A wish that is met, or is nearer to that, weighs less. -/
private theorem seenLoad_lt {n : Nat} {s' : EncodeLoop} (hnot : ¬ s.Answered n)
    (h : s'.Answered n ∨ load s'.view < load s.view) :
    seenLoad (s'.seen n) < seenLoad (s.seen n) := by
  rw [seen, seen, if_neg hnot]
  rcases h with hanswered | hlt
  · rw [if_pos hanswered]
    exact Nat.succ_pos _
  · split
    · exact Nat.succ_pos _
    · exact Nat.succ_lt_succ hlt

/-- Whatever happens, the wish is where it was or nearer to being met. -/
theorem Wishing.seen_step {size : FrameSize} {n : Nat} (h : s.Wishing depth size n) {act : Act}
    (hcalm : Calm size act) : (s.step depth act).seen n = s.seen n ∨
      seenLoad ((s.step depth act).seen n) < seenLoad (s.seen n) := by
  -- a wish that is met stays met
  by_cases hanswered : s.Answered n
  · exact .inl (by rw [seen, seen, if_pos hanswered, if_pos (hanswered.step depth act)])
  -- else the view tells how far it is
  suffices hor : (s.step depth act).Answered n ∨ (s.step depth act).view = s.view ∨
      load (s.step depth act).view < load s.view by
    by_cases hanswered' : (s.step depth act).Answered n
    · exact .inr (seenLoad_lt hanswered (.inl hanswered'))
    · rcases hor.resolve_left hanswered' with hsame | hlt
      · exact .inl (by rw [seen, seen, if_neg hanswered, if_neg hanswered', hsame])
      · exact .inr (seenLoad_lt hanswered (.inr hlt))
  simp only [EncodeLoop.step, h.lives, Option.isSome_none, Bool.false_eq_true, if_false]
  cases act with
  | look l =>
    simp only
    split
    · exact .inr ((view_look h.session ‹_› hcalm).imp_left And.left)
    · exact .inr (.inl rfl)
  | ring idle young pts =>
    exact .inr ((view_ringStep h hanswered idle young pts).imp_left And.left)
  | event e =>
    refine .inr (view_event h.session ?_)
    -- the encoder brings no error
    rintro rfl
    exact hcalm
  | encode accepted =>
    exact (view_encodeStep h.count accepted).imp_right (Or.imp_left And.left)
  | line l =>
    cases l with
    | quit => exact hcalm.elim
    | _ => exact .inr (.inl rfl)

/-- Who brings a wish on. -/
inductive Mover where
  | look
  | ring
  | needInput
  | haveOutput
  | encode
deriving DecidableEq

def Moves : Mover → Act → Prop
  | .look, act => ∃ l, act = .look l ∧ Passes l
  | .ring, act => ∃ idle young pts, act = .ring idle young pts
  | .needInput, act => act = .event .needInput
  | .haveOutput, act => act = .event .haveOutput
  | .encode, act => ∃ accepted, act = .encode accepted

section Lives

variable (hlives : s.exited = none)

include hlives

/-- A look, in a process that has not ended. -/
private theorem step_look (hring : s.ring = .looking) (l : RingLook) :
    s.step depth (.look l) = s.look l := by
  rw [EncodeLoop.step, if_neg (by simp [hlives])]
  exact if_pos hring

/-- A step of the ring thread. -/
private theorem step_ring (idle young : Bool) (pts : Int) :
    s.step depth (.ring idle young pts) = s.ringStep idle young pts := if_neg (by simp [hlives])

/-- An event of the encoder. -/
private theorem step_event (e : EncoderEvent) : s.step depth (.event e) = s.event depth e :=
  if_neg (by simp [hlives])

/-- A step of the encode thread. -/
private theorem step_encode (accepted : Bool) :
    s.step depth (.encode accepted) = s.encodeStep accepted :=
  if_neg (by simp [hlives])

end Lives

/-- A ring thread that goes on is where its view says. -/
private theorem eq_of_ringView_at {phase : RingPhase} (h : s.ringView = .passing phase) :
    s.ring = phase := by
  simp only [ringView] at h
  split at h
  · cases h
  · split at h
    · cases h
    · exact RingView.passing.inj h

/-- With an encoder that holds up to three frames the encode thread does not wait in vain. -/
private theorem Wishing.channel_ne_nil {size : FrameSize} {n : Nat} (h : s.Wishing depth size n)
    (hdepth : depth ≤ 3) (hview : s.ringView = .sent ∨ s.ringView = .full)
    (hencode : s.encode = .taking) : s.channel ≠ [] := by
  intro hnil
  -- with an empty channel only those inside are under way, and the encoder has room for one
  have hsent : s.channel.any (·.key) = false := by simp [hnil]
  have hcounted := h.sound.counted
  have hroom := h.sound.asked.2.1 hencode
  simp only [ringView, hsent, Bool.false_eq_true, if_false] at hview
  split at hview
  · rename_i hfull
    obtain ⟨hfull, hlooks⟩ := hfull
    have hring : s.ringCount = 0 := by
      simp only [looksFirst] at hlooks
      simp only [ringCount]
      split <;> simp_all
    simp only [hring, encodeCount, hencode, hnil, List.length_nil, maxInFlight] at hcounted hfull
    omega
  · rcases hview with h | h <;> cases h

/-- As long as a wish is not met, one of the threads or the encoder can bring it on. -/
theorem exists_mover (size : FrameSize) {n : Nat} (hpos : 0 < depth) (hdepth : depth ≤ 3)
    (hnot : ¬ s.Answered n) :
    ∃ mover, ∀ s' : EncodeLoop, s'.Wishing depth size n → s'.seen n = s.seen n →
      ∀ act, Moves mover act ∧ Calm size act →
        seenLoad ((s'.step depth act).seen n) < seenLoad (s'.seen n) := by
  -- what is seen of another state
  have hsame : ∀ s' : EncodeLoop, s'.seen n = s.seen n → ¬ s'.Answered n ∧ s'.view = s.view := by
    intro s' hseen
    rw [seen, seen, if_neg hnot] at hseen
    split at hseen
    · cases hseen
    · exact ⟨‹_›, Option.some.inj hseen⟩
  suffices hfalls : ∃ mover, ∀ s' : EncodeLoop, s'.Wishing depth size n → ¬ s'.Answered n →
      s'.view = s.view → ∀ act, Moves mover act → Calm size act →
        (s'.step depth act).Answered n ∨ load (s'.step depth act).view < load s'.view by
    obtain ⟨mover, hmover⟩ := hfalls
    refine ⟨mover, fun s' h' hseen act hact => ?_⟩
    obtain ⟨hnot', hview⟩ := hsame s' hseen
    exact seenLoad_lt hnot' (hmover s' h' hnot' hview act hact.1 hact.2)
  have hencoder (hview : s.ringView = .sent ∨ s.ringView = .full) :
      ∃ mover, ∀ s' : EncodeLoop, s'.Wishing depth size n → ¬ s'.Answered n →
        s'.view = s.view → ∀ act, Moves mover act → Calm size act →
          (s'.step depth act).Answered n ∨ load (s'.step depth act).view < load s'.view := by
    by_cases hwaits : s.encode = .waiting
    · -- it asks for a frame, or puts one out
      by_cases hroom : s.inside.length < depth
      · refine ⟨.needInput, fun s' h' hnot' hview' act hact _ => .inr ?_⟩
        obtain rfl : act = .event .needInput := hact
        simp only [view, Prod.mk.injEq] at hview'
        rw [step_event h'.lives]
        exact (load_event h'.session (hview'.2.1.trans hwaits)).1 (hview'.2.2.2 ▸ hroom)
      · refine ⟨.haveOutput, fun s' h' hnot' hview' act hact _ => .inr ?_⟩
        obtain rfl : act = .event .haveOutput := hact
        simp only [view, Prod.mk.injEq] at hview'
        rw [step_event h'.lives]
        have houtput : s'.inside ≠ [] → load (s'.event depth .haveOutput).view < load s'.view :=
          (load_event h'.session (hview'.2.1.trans hwaits)).2
        refine houtput fun hnil => ?_
        have := hview'.2.2.2
        rw [hnil, List.length_nil] at this
        omega
    · refine ⟨.encode, fun s' h' hnot' hview' act hact _ => ?_⟩
      obtain ⟨accepted, rfl⟩ := hact
      simp only [view, Prod.mk.injEq] at hview'
      obtain ⟨hring, hencode, -, -⟩ := hview'
      rw [step_encode h'.lives]
      refine (view_encodeStep h'.count accepted).imp_right fun hor => hor.resolve_left ?_
      rintro ⟨-, hwait | ⟨htaking, hnil⟩⟩
      · exact hwaits (hencode ▸ hwait)
      · exact h'.channel_ne_nil hdepth (hring ▸ hview) htaking hnil
  cases hview : s.ringView with
  | sent => exact hencoder (.inl hview)
  | full => exact hencoder (.inr hview)
  | passing phase =>
    by_cases hlooking : phase = .looking
    · refine ⟨.look, fun s' h' hnot' hview' act hact hcalm => .inr ?_⟩
      obtain ⟨l, rfl, hpasses⟩ := hact
      have hring' : s'.ringView = .passing .looking :=
        (congrArg Prod.fst hview').trans (hview.trans (by rw [hlooking]))
      have hring := eq_of_ringView_at hring'
      rw [step_look h'.lives hring]
      refine (view_look h'.session hring hcalm).resolve_left ?_
      rintro ⟨-, hne⟩
      exact hne hpasses hring'
    · refine ⟨.ring, fun s' h' hnot' hview' act hact _ => .inr ?_⟩
      obtain ⟨idle, young, pts, rfl⟩ := hact
      have hring' : s'.ringView = .passing phase := (congrArg Prod.fst hview').trans hview
      rw [step_ring h'.lives]
      refine (view_ringStep h' hnot' idle young pts).resolve_left ?_
      rintro ⟨-, h | h | h⟩
      · rw [hring'] at h
        cases h
      · rw [hring'] at h
        cases h
      · exact hlooking ((eq_of_ringView_at hring').symm.trans h)

/-- A wish is met in every order of actions that leaves nothing out. -/
private theorem Wishing.exists_answered {size : FrameSize} {n : Nat} (h : s.Wishing depth size n)
    (hpos : 0 < depth) (hdepth : depth ≤ 3) {next : Nat → Act} (hcalm : ∀ k, Calm size (next k))
    (hagain : ∀ mover k, ∃ m, k ≤ m ∧ Moves mover (next m)) :
    ∃ k, (scheduled (EncodeLoop.step depth) s next k).Answered n := by
  -- the wish stays a wish until it is met
  have hwishing : ∀ k, (scheduled (EncodeLoop.step depth) s next k).Wishing depth size n :=
    scheduled_invariant (fun _ _ h hact => h.step hact) h hcalm
  have hagain' : ∀ mover k, ∃ m, k ≤ m ∧ (Moves mover (next m) ∧ Calm size (next m)) :=
    fun mover k => (hagain mover k).imp fun m hm => ⟨hm.1, hm.2, hcalm m⟩
  -- and its rank falls with every mover that is needed
  obtain ⟨k, -, hdone⟩ := exists_viewed_done (EncodeLoop.step depth) s (seen n) (f := seenLoad)
    (D := fun v => v = none) (K := fun mover act => Moves mover act ∧ Calm size act) hagain'
    (fun k => (hwishing k).seen_step (hcalm k))
    (fun k hnot => by
      have hno : ¬ (scheduled (EncodeLoop.step depth) s next k).Answered n :=
        fun hanswered => hnot (if_pos hanswered)
      obtain ⟨mover, hfalls⟩ := exists_mover size hpos hdepth hno
      exact ⟨mover, fun m hseen act hact => hfalls _ (hwishing m) hseen act hact⟩) 0
  refine ⟨k, ?_⟩
  by_contra hno
  simp only [seen, if_neg hno] at hdone
  cases hdone

/-- With an encoder that holds up to three frames, a wish for a key in a running session is met in
    every order of what the threads, the ring and the encoder do that leaves nothing out, also when
    no other frame comes. -/
theorem key_answered (depth : Nat) (hpos : 0 < depth) (hdepth : depth ≤ 3) (before : List Act)
    (size : FrameSize) (hsession : (run depth before).session = some size)
    (hlives : (run depth before).exited = none) (htex : (run depth before).lastTex.isSome)
    (next : Nat → Act) (hcalm : ∀ k, Calm size (next k))
    (hagain : ∀ mover k, ∃ m, k ≤ m ∧ Moves mover (next m)) :
    ∃ k, (scheduled (step depth) (run depth (before ++ [.line .key])) next k).Answered
      (run depth before).taken.length := by
  -- the request makes the wish
  have hkey : run depth (before ++ [.line .key]) = { run depth before with forceKey := true } := by
    simp only [run, List.foldl_append, List.foldl_cons, List.foldl_nil]
    exact if_neg (by rw [← run, hlives]; simp)
  have hstart : (run depth (before ++ [.line .key])).Wishing depth size
      (run depth before).taken.length := by
    refine ⟨sound_run depth _, ?_, ?_, ?_, ?_, .inl ?_⟩
    all_goals rw [hkey]
    · exact hsession
    · exact hlives
    · exact htex
    · exact .inl rfl
  exact hstart.exists_answered hpos hdepth hcalm hagain

/-- The threads and the encoder take turns, and the ring has no other frame. -/
def inTurns (k : Nat) : Act :=
  match k % 5 with
  | 0 => .look .nothing
  | 1 => .ring false false 0
  | 2 => .event .needInput
  | 3 => .event .haveOutput
  | _ => .encode true

/-- With no other frame in the ring a wish is met with the last one, which is sent again. -/
theorem key_answered_still :
    ∃ k, (scheduled (step 1) (run 1 (sendOne 0 ++ [.line .key])) inTurns k).Answered
      (run 1 (sendOne 0)).taken.length := by
  refine key_answered 1 (by decide) (by decide) (sendOne 0) sixteen rfl rfl rfl inTurns
    (fun k => ?_) fun mover k => ?_
  · simp only [inTurns]
    split <;> trivial
  · -- five actions in turn leave none out
    have hmod : ∀ i < 5, (5 * k + i) % 5 = i := by omega
    cases mover with
    | look =>
      exact ⟨5 * k + 0, by omega, .nothing, by simp only [inTurns, hmod 0 (by decide)], trivial⟩
    | ring =>
      exact ⟨5 * k + 1, by omega, false, false, 0, by simp only [inTurns, hmod 1 (by decide)]⟩
    | needInput => exact ⟨5 * k + 2, by omega, by simp only [Moves, inTurns, hmod 2 (by decide)]⟩
    | haveOutput => exact ⟨5 * k + 3, by omega, by simp only [Moves, inTurns, hmod 3 (by decide)]⟩
    | encode => exact ⟨5 * k + 4, by omega, true, by simp only [inTurns, hmod 4 (by decide)]⟩

/-! ## The encoder that asks for a fourth frame -/

/-- The ring thread is about to send. -/
def sends (s : EncodeLoop) : Bool :=
  match s.ring with
  | .counting .. | .sending _ => true
  | _ => false

/-- The encode thread waits for a frame, three are under way, and the ring thread sends none. -/
structure Stalled (s : EncodeLoop) : Prop where
  encode : s.encode = .taking
  channel : s.channel = []
  full : maxInFlight ≤ s.inFlight
  sends : s.sends = false

/-- The ring thread finds three frames under way in every pass and sends none. -/
theorem Stalled.ringStep (h : s.Stalled) (idle young : Bool) (pts : Int) :
    (s.ringStep idle young pts).Stalled ∧ (s.ringStep idle young pts).taken = s.taken := by
  obtain ⟨hencode, hchannel, hfull, hsends⟩ := h
  simp only [EncodeLoop.ringStep]
  cases hring : s.ring with
  | looking => exact ⟨⟨hencode, hchannel, hfull, hsends⟩, rfl⟩
  | checking fresh =>
    simp only
    split
    · split <;> exact ⟨⟨hencode, hchannel, hfull, rfl⟩, rfl⟩
    · refine ⟨⟨hencode, hchannel, hfull, ?_⟩, rfl⟩
      cases s.forceKey || (idle && young) <;> rfl
  | restoring => exact ⟨⟨hencode, hchannel, hfull, rfl⟩, rfl⟩
  | weighing tex wantKey =>
    simp only [if_pos hfull]
    refine ⟨⟨hencode, hchannel, hfull, ?_⟩, trivial⟩
    cases wantKey <;> rfl
  | counting tex wantKey =>
    simp only [EncodeLoop.sends, hring] at hsends
    cases hsends
  | sending frame =>
    simp only [EncodeLoop.sends, hring] at hsends
    cases hsends

/-- A look may find a frame; the pass that follows does not send it. -/
theorem Stalled.look (h : s.Stalled) (l : RingLook) :
    (s.look l).Stalled ∧ (s.look l).taken = s.taken := by
  obtain ⟨hencode, hchannel, hfull, hsends⟩ := h
  -- a conversion leaves what is under way as it is
  have hconvert : ∀ (s' : EncodeLoop) c, s'.Stalled →
      (s'.convert c).Stalled ∧ (s'.convert c).taken = s'.taken := by
    intro s' c h'
    cases c with
    | overwritten => exact ⟨h', rfl⟩
    | _ => exact ⟨⟨h'.encode, h'.channel, h'.full, rfl⟩, rfl⟩
  cases l with
  | frame size made conversion =>
    simp only [EncodeLoop.look]
    split
    · split
      · exact hconvert { s with session := some size, forceKey := true, lastTex := none } conversion
          ⟨hencode, hchannel, hfull, hsends⟩
      · exact ⟨⟨hencode, hchannel, hfull, hsends⟩, rfl⟩
    · split
      · exact hconvert s conversion ⟨hencode, hchannel, hfull, hsends⟩
      · exact ⟨⟨hencode, hchannel, hfull, hsends⟩, rfl⟩
  | nothing => exact ⟨⟨hencode, hchannel, hfull, rfl⟩, rfl⟩
  | _ => exact ⟨⟨hencode, hchannel, hfull, hsends⟩, rfl⟩

/-- Every action leaves the encode thread waiting in `recv`. -/
theorem Stalled.step (h : s.Stalled) (depth : Nat) (act : Act) :
    (s.step depth act).Stalled ∧ (s.step depth act).taken = s.taken := by
  simp only [EncodeLoop.step]
  split
  · exact ⟨h, rfl⟩
  · cases act with
    | look l =>
      simp only
      split
      · exact h.look l
      · exact ⟨h, rfl⟩
    | ring idle young pts => exact h.ringStep idle young pts
    | event e =>
      -- the encode thread is in `recv` and looks at no event
      have hnone : s.event depth e = s := by
        have := h.encode
        simp only [EncodeLoop.event]
        split <;> simp_all
      simp only [hnone]
      exact ⟨h, trivial⟩
    | line l => cases l <;> exact ⟨⟨h.encode, h.channel, h.full, h.sends⟩, rfl⟩
    | encode accepted =>
      -- the channel is empty
      have hnone : s.encodeStep accepted = s := by
        simp only [EncodeLoop.encodeStep, h.encode, h.channel]
      simp only [hnone]
      exact ⟨h, trivial⟩

/-- The encoder asks for a frame and takes it. -/
def takeOne : List Act := [.event .needInput, .encode true, .encode true]

/-- The encoder asks for a fourth frame before it puts out the first. -/
def askForFourth : List Act :=
  sendOne 0 ++ takeOne ++ sendOne 1 ++ takeOne ++ sendOne 2 ++ takeOne ++ [.event .needInput]

/-- Three frames with the encoder and the encode thread in `recv` for a fourth, the ring thread at
    its look. -/
private theorem run_askForFourth (hdepth : 3 < depth) :
    run depth askForFourth =
      { forceKey := false
        inFlight := 3
        session := some sixteen
        lastTex := some 2
        encode := .taking
        inside := [⟨0, 0, true⟩, ⟨1, 0, false⟩, ⟨2, 0, false⟩]
        taken := [⟨0, 0, true⟩, ⟨1, 0, false⟩, ⟨2, 0, false⟩] } := by
  have h0 : 0 < depth := by omega
  have h1 : 1 < depth := by omega
  have h2 : 2 < depth := by omega
  simp [askForFourth, sendOne, takeOne, run, EncodeLoop.step, EncodeLoop.look, convert,
    EncodeLoop.ringStep, EncodeLoop.event, EncodeLoop.encodeStep, maxInFlight, channelRoom, h0, h1,
    h2, hdepth]

/-- Nothing ends it, and no frame is taken meanwhile. -/
theorem Stalled.foldl (h : s.Stalled) (depth : Nat) (after : List Act) :
    (after.foldl (EncodeLoop.step depth) s).Stalled ∧
      (after.foldl (EncodeLoop.step depth) s).taken = s.taken := by
  induction after generalizing s with
  | nil => exact ⟨h, rfl⟩
  | cons act after ih =>
    obtain ⟨hstep, htaken⟩ := h.step depth act
    obtain ⟨hafter, htaken'⟩ := ih hstep
    exact ⟨hafter, htaken'.trans htaken⟩

/-- An encoder that holds more than three frames can stall the helper for good: whatever happens
    then, also further wishes for a key, the encode thread waits, the ring thread sends nothing, and
    no frame is taken any more. -/
theorem stalls (depth : Nat) (hdepth : 3 < depth) :
    ∃ acts, (run depth acts).exited = none ∧
      ∀ after, (run depth (acts ++ after)).Stalled ∧
        (run depth (acts ++ after)).taken = (run depth acts).taken := by
  have hstalled : (run depth askForFourth).Stalled := by
    rw [run_askForFourth hdepth]
    exact ⟨rfl, rfl, by decide, rfl⟩
  refine ⟨askForFourth, by rw [run_askForFourth hdepth], fun after => ?_⟩
  rw [run, List.foldl_append]
  exact hstalled.foldl depth after

/-- An encoder that holds four frames stalls it. -/
theorem stalls_four :
    ∃ acts, (run 4 acts).exited = none ∧
      ∀ after, (run 4 (acts ++ after)).Stalled ∧
        (run 4 (acts ++ after)).taken = (run 4 acts).taken :=
  stalls 4 (by decide)

end EncodeLoop

end QCBridge.Agent
