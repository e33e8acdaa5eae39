import QCBridge.Agent.ColdLane
import QCBridge.ForStd.Eventually
import QCBridge.ForStd.Guarded
import QCBridge.ForStd.Weigh
import QCBridge.Spec.Pipeline
import Mathlib.Tactic.DeriveEncodable

/-!
# Compressed side by side, delivered in order

Whatever jobs finish first and wherever the session ends, the replica's addon gets the beginning of
what the host's addon sent, in order and unchanged. A session that is not lost, and whose messages
fit a lane frame, delivers all of it.

## Key results

- `ColdLane.InOrder`: where the bodies are
- `ColdLane.run_in_order`, `ColdLane.delivers_all`
-/

namespace QCBridge.Agent

open Wire

namespace ColdLane

variable {Z : Zstd} {bodies : List Wire.Bytes} {s : ColdLane}

/-- Where the bodies are: delivered, on the wire and in the replica's codec, or with the host. -/
structure InOrder (Z : Zstd) (bodies : List Wire.Bytes) (s : ColdLane) : Prop where
  split : ∃ delivered underWay, bodies = delivered ++ (underWay ++ s.host.rest) ∧
    s.frames = delivered.map (fun body => Wire.laneBody 0 (body.drop 1)) ∧
    s.replica.rest = underWay.map (wireOf Z)
  /-- What the host's task has begun it credits, once. -/
  acked : s.acked + s.owed.getD 0 + weigh List.length s.host.waiting = weigh List.length bodies
  hostFits : s.host.Fits codecPipeline
  replicaFits : s.replica.Fits codecPipeline

private theorem inOrder_start (Z : Zstd) (bodies : List Wire.Bytes) :
    (start bodies).InOrder Z bodies where
  split := ⟨[], [], by simp [start, JobLine.rest, JobLine.jobs], rfl, rfl⟩
  acked := by simp [start]
  hostFits := Nat.zero_le _
  replicaFits := Nat.zero_le _

private theorem waiting_step (room : Nat) (l : JobLine Wire.Bytes) {a : JobLine.Act}
    (ha : a ≠ .begin) :
    (l.step room a).waiting = l.waiting := by
  cases a with
  | begin => exact absurd rfl ha
  | hand =>
    simp only [JobLine.step, JobLine.hand]
    split
    · split <;> rfl
    · rfl
  | finish p => cases p <;> rfl
  | await =>
    simp only [JobLine.step, JobLine.await]
    split <;> rfl

/-- A task or a job of the host goes on. -/
theorem InOrder.host (h : s.InOrder Z bodies) {a : JobLine.Act} (ha : a ≠ .begin) :
    InOrder Z bodies { s with host := s.host.step codecPipeline a } where
  split := by
    simp only [JobLine.rest_step]
    exact h.split
  acked := by
    simp only [waiting_step _ _ ha]
    exact h.acked
  hostFits := h.hostFits.step a
  replicaFits := h.replicaFits

theorem InOrder.hostStep (h : s.InOrder Z bodies) (a : JobLine.Act) :
    (s.hostStep a).InOrder Z bodies := by
  cases a with
  | begin =>
    simp only [ColdLane.hostStep]
    split
    · rename_i body waiting hbegun hwaiting howed
      refine ⟨?_, ?_, h.hostFits.step .begin, h.replicaFits⟩
      · have hrest := s.host.rest_step codecPipeline .begin
        simp only [JobLine.step] at hrest
        simp only [hrest]
        exact h.split
      · have hacked := h.acked
        rw [howed, hwaiting, weigh_cons] at hacked
        simp only [JobLine.begin, hbegun, hwaiting, Option.getD_some, Option.getD_none] at hacked ⊢
        omega
    · exact h
  | hand =>
    simp only [ColdLane.hostStep]
    split
    · exact h
    · exact h.host (a := .hand) (by simp)
  | finish p => exact h.host (by simp)
  | await => exact h.host (by simp)

/-- A task or a job of the replica goes on. -/
theorem InOrder.replica (h : s.InOrder Z bodies) (a : JobLine.Act) :
    InOrder Z bodies { s with replica := s.replica.step codecPipeline a } where
  split := by
    simp only [JobLine.rest_step]
    exact h.split
  acked := h.acked
  hostFits := h.hostFits
  replicaFits := h.replicaFits.step a

/-- The session ends. -/
theorem InOrder.ends (h : s.InOrder Z bodies) : InOrder Z bodies { s with ended := true } :=
  ⟨h.split, h.acked, h.hostFits, h.replicaFits⟩

theorem InOrder.replicaStep (h : s.InOrder Z bodies) (a : JobLine.Act) :
    (s.replicaStep a).InOrder Z bodies := by
  cases a with
  | begin =>
    simp only [ColdLane.replicaStep]
    split
    · split
      · exact h.ends
      · exact h.replica .begin
    · exact h
  | _ => exact h.replica _

/-- A message that is compressed is sent. -/
theorem InOrder.send (h : s.InOrder Z bodies) {body : Wire.Bytes}
    (hready : s.host.ready = some body) :
    InOrder Z bodies { s with
      host := s.host.deliver
      replica := { s.replica with waiting := s.replica.waiting ++ [wireOf Z body] } } where
  split := by
    obtain ⟨delivered, underWay, hbodies, hframes, hrest⟩ := h.split
    refine ⟨delivered, underWay ++ [body], ?_, hframes, ?_⟩
    · rw [hbodies, JobLine.rest_deliver hready]
      simp
    · rw [JobLine.rest_append, hrest]
      simp
  acked := h.acked
  hostFits := h.hostFits
  replicaFits := h.replicaFits

/-- What the replica's codec turns out is the body that was sent. -/
private theorem InOrder.decodes (h : s.InOrder Z bodies)
    (hzstd : ∀ raw z, Z.compress raw = some z → Z.decompress z raw.length = some raw)
    (hbodies : ∀ body ∈ bodies, body.length < Wire.maxFrame) {wire : Wire.Bytes}
    (hready : s.replica.ready = some wire) :
    ∃ raw, coldWireDecode Z wire = some raw ∧ InOrder Z bodies { s with
      replica := s.replica.deliver
      frames := s.frames ++ [Wire.laneBody 0 raw] } := by
  obtain ⟨delivered, underWay, hall, hframes, hrest⟩ := h.split
  rw [JobLine.rest_deliver hready] at hrest
  cases underWay with
  | nil => simp at hrest
  | cons body underWay =>
    rw [List.map_cons, List.cons.injEq] at hrest
    obtain ⟨rfl, hrest⟩ := hrest
    have hlen : (body.drop 1).length < UInt32.size := by
      have := hbodies body (by rw [hall]; simp)
      have := maxFrame_lt
      rw [List.length_drop]
      omega
    refine ⟨body.drop 1, coldWireDecode_encode Z hzstd hlen, ?_, h.acked, h.hostFits,
      h.replicaFits⟩
    exact ⟨delivered ++ [body], underWay, by simp [hall], by simp [hframes], hrest⟩

/-- One action. -/
theorem InOrder.step (h : s.InOrder Z bodies)
    (hzstd : ∀ raw z, Z.compress raw = some z → Z.decompress z raw.length = some raw)
    (hbodies : ∀ body ∈ bodies, body.length < Wire.maxFrame) (act : Act) :
    (s.step Z act).InOrder Z bodies := by
  simp only [ColdLane.step]
  split
  · exact h
  · cases act with
    -- the host's jobs, the ack, and what it sends
    | host a => exact h.hostStep a
    | ack =>
      simp only
      split
      · rename_i len howed
        have hacked := h.acked
        rw [howed, Option.getD_some] at hacked
        exact ⟨h.split, by simpa using hacked, h.hostFits, h.replicaFits⟩
      · exact h
    | send =>
      simp only
      split
      · exact h.send ‹_›
      · exact h
    -- the replica's jobs, and what it delivers
    | replica a => exact h.replicaStep a
    | deliver =>
      simp only
      split
      · rename_i wire hready
        obtain ⟨raw, hraw, hdelivered⟩ := h.decodes hzstd hbodies hready
        rw [hraw]
        exact hdelivered
      · exact h
    | lose => exact h.ends

/-- In whatever order the jobs finish and wherever the session ends, the replica's addon gets the
    beginning of what the host's addon sent. Each codec holds no more than two jobs beside its
    channel, and what the host's task has taken is credited once. -/
theorem run_in_order (Z : Zstd)
    (hzstd : ∀ raw z, Z.compress raw = some z → Z.decompress z raw.length = some raw)
    (bodies : List Wire.Bytes) (hbodies : ∀ body ∈ bodies, body.length < Wire.maxFrame)
    (acts : List Act) :
    let s := run Z bodies acts
    s.frames <+: bodies.map (fun body => Wire.laneBody 0 (body.drop 1)) ∧
      s.host.jobs.length ≤ codecPipeline + 2 ∧ s.replica.jobs.length ≤ codecPipeline + 2 ∧
      s.acked + s.owed.getD 0 + weigh List.length s.host.waiting = weigh List.length bodies := by
  intro s
  have h : s.InOrder Z bodies := foldl_invariant (f := step Z) (I := InOrder Z bodies)
    (fun _ act h => h.step hzstd hbodies act) acts (inOrder_start Z bodies)
  obtain ⟨delivered, underWay, hall, hframes, -⟩ := h.split
  refine ⟨⟨(underWay ++ s.host.rest).map fun body => Wire.laneBody 0 (body.drop 1), ?_⟩,
    h.hostFits.length_jobs, h.replicaFits.length_jobs, h.acked⟩
  simp only [hframes, hall, List.map_append]

/-- A body that compresses and one that does not. -/
def twoBodies : List Wire.Bytes := [0 :: List.replicate 5000 0, [0, 1]]

/-- The second job of each side is done first. -/
def crossed : List Act :=
  [.host .begin, .ack, .host .hand, .host .begin, .host (.finish .begun), .host .await, .send,
    .host (.finish .awaited), .send, .ack, .host .hand, .host .await, .send, .replica .begin,
    .replica .hand, .replica .begin, .replica (.finish .begun), .replica .hand, .replica .await,
    .replica (.finish .awaited), .deliver, .replica .await, .deliver]

private theorem twoBodies_fit : ∀ body ∈ twoBodies, body.length ≤ 5001 := by
  intro body hbody
  rcases List.mem_pair.mp hbody with rfl | rfl
  · rw [List.length_cons, List.length_replicate]
  · decide

private theorem trailing_decompress (raw z : Wire.Bytes) (h : Zstd.trailing.compress raw = some z) :
    Zstd.trailing.decompress z raw.length = some raw := by
  obtain rfl := Option.some.inj h
  exact congrArg some (Zstd.trailing_exact raw)

theorem run_in_order_crossed :
    let s := run Zstd.trailing twoBodies crossed
    s.frames <+: twoBodies.map (fun body => Wire.laneBody 0 (body.drop 1)) ∧
      s.host.jobs.length ≤ codecPipeline + 2 ∧ s.replica.jobs.length ≤ codecPipeline + 2 ∧
      s.acked + s.owed.getD 0 + weigh List.length s.host.waiting = weigh List.length twoBodies :=
  run_in_order Zstd.trailing trailing_decompress twoBodies
    (fun body hbody => Nat.lt_of_le_of_lt (twoBodies_fit body hbody) (by decide)) crossed

/-! ## A session that is not lost -/

/-- How much is left to do. -/
def load (s : ColdLane) : Nat := s.host.load 6 + s.replica.load 0 + if s.owed.isSome then 1 else 0

private theorem load_host (s : ColdLane) {a : JobLine.Act} (ha : a ≠ .begin) :
    { s with host := s.host.step codecPipeline a } = s ∨
      load { s with host := s.host.step codecPipeline a } < s.load := by
  rcases s.host.step_or codecPipeline 6 a with heq | hlt
  · exact .inl (by rw [heq])
  · refine .inr ?_
    rw [if_neg ha] at hlt
    simp only [load]
    omega

private theorem load_replica (s : ColdLane) (a : JobLine.Act) :
    { s with replica := s.replica.step codecPipeline a } = s ∨
      load { s with replica := s.replica.step codecPipeline a } < s.load := by
  rcases s.replica.step_or codecPipeline 0 a with heq | hlt
  · exact .inl (by rw [heq])
  · refine .inr ?_
    simp only [load]
    omega

/-- A task or a job of the host does nothing, or leaves less to do. -/
theorem hostStep_or (s : ColdLane) (a : JobLine.Act) :
    s.hostStep a = s ∨ (s.hostStep a).load < s.load := by
  cases a with
  | begin =>
    simp only [ColdLane.hostStep]
    split
    · rename_i body waiting hbegun hwaiting howed
      rcases s.host.step_or codecPipeline 6 .begin with heq | hlt
      · have := congrArg JobLine.begun heq
        simp [JobLine.step, JobLine.begin, hbegun, hwaiting] at this
      · refine .inr ?_
        simp only [JobLine.step, if_true] at hlt
        simp only [load, howed, Option.isSome_some, Option.isSome_none, Bool.false_eq_true,
          if_true, if_false]
        omega
    · exact .inl rfl
  | hand =>
    simp only [ColdLane.hostStep]
    split
    · exact .inl rfl
    · exact s.load_host (a := .hand) (by simp)
  | finish p => exact s.load_host (by simp)
  | await => exact s.load_host (by simp)

/-- A session in which every message fits and that was not lost. -/
structure Sound (Z : Zstd) (bodies : List Wire.Bytes) (s : ColdLane) : Prop where
  inOrder : s.InOrder Z bodies
  running : s.ended = false

/-- What is on the wire fits a lane frame. -/
theorem Sound.fits (h : s.Sound Z bodies)
    (hfit : ∀ body ∈ bodies, (body.drop 1).length + codecHeader ≤ maxLaneFrame) {wire : Wire.Bytes}
    (hwire : wire ∈ s.replica.waiting) : wire.length ≤ maxLaneFrame := by
  obtain ⟨delivered, underWay, hall, -, hrest⟩ := h.inOrder.split
  have hmem : wire ∈ underWay.map (wireOf Z) := by
    rw [← hrest]
    exact List.mem_append_right _ hwire
  obtain ⟨body, hbody, rfl⟩ := List.mem_map.mp hmem
  have := hfit body (by rw [hall]; simp [hbody])
  exact Nat.le_trans (length_coldWireEncode Z _) this

/-- Every action but the loss of the session keeps it going, and does nothing or leaves less to
    do. -/
theorem Sound.step (h : s.Sound Z bodies)
    (hzstd : ∀ raw z, Z.compress raw = some z → Z.decompress z raw.length = some raw)
    (hbodies : ∀ body ∈ bodies, body.length < Wire.maxFrame)
    (hfit : ∀ body ∈ bodies, (body.drop 1).length + codecHeader ≤ maxLaneFrame) {act : Act}
    (hact : act ≠ .lose) :
    (s.step Z act).Sound Z bodies ∧ (s.step Z act = s ∨ (s.step Z act).load < s.load) := by
  have hrunning := h.running
  have hinOrder := h.inOrder.step hzstd hbodies act
  have hstep : (s.step Z act).ended = false ∧
      (s.step Z act = s ∨ (s.step Z act).load < s.load) := by
    simp only [ColdLane.step, hrunning, Bool.false_eq_true, if_false]
    cases act with
    -- the host's jobs: none of them ends the lane
    | host a =>
      refine ⟨?_, s.hostStep_or a⟩
      cases a with
      | begin =>
        simp only [ColdLane.hostStep]
        split <;> exact hrunning
      | hand =>
        simp only [ColdLane.hostStep]
        split <;> exact hrunning
      | _ => exact hrunning
    -- an ack is owed no more, a body is sent: less is left
    | ack =>
      simp only
      split
      · rename_i len howed
        refine ⟨rfl, .inr ?_⟩
        simp only [load, howed, Option.isSome_some, Option.isSome_none, Bool.false_eq_true,
          if_true, if_false]
        omega
      · exact ⟨hrunning, .inl rfl⟩
    | send =>
      simp only
      split
      · rename_i body hready
        refine ⟨rfl, .inr ?_⟩
        have := JobLine.load_deliver 6 hready
        simp only [load, JobLine.load_append]
        omega
      · exact ⟨hrunning, .inl rfl⟩
    -- the replica's jobs: a frame that it takes fits, so the lane goes on
    | replica a =>
      cases a with
      | begin =>
        simp only [ColdLane.replicaStep]
        split
        · rename_i wire waiting hbegun hwaiting
          have hlen := h.fits hfit (show wire ∈ s.replica.waiting by simp [hwaiting])
          rw [if_neg (by omega)]
          exact ⟨hrunning, s.load_replica .begin⟩
        · exact ⟨hrunning, .inl rfl⟩
      | _ => exact ⟨hrunning, s.load_replica _⟩
    -- a wire that is ready decodes, so the lane goes on
    | deliver =>
      simp only
      split
      · rename_i wire hready
        obtain ⟨raw, hraw, -⟩ := h.inOrder.decodes hzstd hbodies hready
        rw [hraw]
        refine ⟨rfl, .inr ?_⟩
        have := JobLine.load_deliver 0 hready
        simp only [load]
        omega
      · exact ⟨hrunning, .inl rfl⟩
    | lose => exact absurd rfl hact
  exact ⟨⟨hinOrder, hstep.1⟩, hstep.2⟩

/-- Nothing is left to do. -/
def Done (s : ColdLane) : Prop := s.host.rest = [] ∧ s.replica.rest = [] ∧ s.owed = none

theorem Done.load_eq_zero (h : s.Done) : s.load = 0 := by
  obtain ⟨hhost, hreplica, howed⟩ := h
  simp [load, JobLine.load_eq_zero _ hhost, JobLine.load_eq_zero _ hreplica, howed]

/-- A schedule that loses no session and comes back to every action of the tasks and jobs. -/
structure Fair (acts : Nat → Act) : Prop where
  kept : ∀ k, acts k ≠ .lose
  again : ∀ act : Act, act ≠ .lose → ∀ k, ∃ m, k ≤ m ∧ acts m = act

/-- Where something is left to do, some action changes something. -/
theorem Sound.exists_act (h : s.Sound Z bodies)
    (hzstd : ∀ raw z, Z.compress raw = some z → Z.decompress z raw.length = some raw)
    (hbodies : ∀ body ∈ bodies, body.length < Wire.maxFrame)
    (hfit : ∀ body ∈ bodies, (body.drop 1).length + codecHeader ≤ maxLaneFrame)
    (hnot : ¬ s.Done) : ∃ act : Act, act ≠ .lose ∧ s.step Z act ≠ s := by
  have hrunning := h.running
  -- an ack is owed: it can be sent
  cases howed : s.owed with
  | some len =>
    refine ⟨.ack, by simp, fun heq => ?_⟩
    have := congrArg ColdLane.owed heq
    simp [ColdLane.step, hrunning, howed] at this
  | none =>
    -- the host has nothing left, so the replica has something
    by_cases hhost : s.host.rest = []
    · have hreplica : s.replica.rest ≠ [] := fun hrest => hnot ⟨hhost, hrest, howed⟩
      rcases JobLine.exists_act (show 0 < codecPipeline by decide) hreplica with hready | ⟨a, ha⟩
      · -- a wire that is ready can be delivered
        obtain ⟨wire, hready⟩ := Option.isSome_iff_exists.mp hready
        obtain ⟨raw, hraw, -⟩ := h.inOrder.decodes hzstd hbodies hready
        refine ⟨.deliver, by simp, fun heq => ?_⟩
        have := congrArg (fun s : ColdLane => s.frames.length) heq
        simp [ColdLane.step, hrunning, hready, hraw] at this
      · -- a job of the replica can go on: what it takes fits
        refine ⟨.replica a, by simp, fun heq => ha ?_⟩
        have hsame := congrArg ColdLane.replica heq
        simp only [ColdLane.step, hrunning, Bool.false_eq_true, if_false] at hsame
        cases a with
        | begin =>
          simp only [ColdLane.replicaStep] at hsame
          split at hsame
          · rename_i wire waiting hbegun hwaiting
            have hlen := h.fits hfit (show wire ∈ s.replica.waiting by simp [hwaiting])
            rwa [if_neg (by omega)] at hsame
          · simp only [JobLine.step, JobLine.begin]
        | _ => exact hsame
    · -- the host has something left: a body can be sent, or a job can go on
      rcases JobLine.exists_act (show 0 < codecPipeline by decide) hhost with hready | ⟨a, ha⟩
      · obtain ⟨body, hready⟩ := Option.isSome_iff_exists.mp hready
        refine ⟨.send, by simp, fun heq => ?_⟩
        have := congrArg (fun s : ColdLane => s.replica.waiting.length) heq
        simp [ColdLane.step, hrunning, hready] at this
      · refine ⟨.host a, by simp, fun heq => ha ?_⟩
        have hsame := congrArg ColdLane.host heq
        simp only [ColdLane.step, hrunning, Bool.false_eq_true, if_false] at hsame
        cases a with
        | begin =>
          simp only [ColdLane.hostStep, howed] at hsame
          split at hsame
          · exact hsame
          · rename_i hnone
            simp only [JobLine.step, JobLine.begin]
            split
            · rename_i body waiting hbegun hwaiting
              exact absurd rfl (hnone body waiting hbegun hwaiting)
            · rfl
        | hand => simpa [ColdLane.hostStep, howed, JobLine.step] using hsame
        | _ => exact hsame

/-- A session that is not lost, and whose messages fit a lane frame, delivers in the end all that
    the host's addon sent, and credits all of it. -/
theorem delivers_all (Z : Zstd)
    (hzstd : ∀ raw z, Z.compress raw = some z → Z.decompress z raw.length = some raw)
    (bodies : List Wire.Bytes) (hbodies : ∀ body ∈ bodies, body.length < Wire.maxFrame)
    (hfit : ∀ body ∈ bodies, (body.drop 1).length + codecHeader ≤ maxLaneFrame)
    (acts : Nat → Act) (hfair : Fair acts) :
    ∃ N, ∀ k, N ≤ k →
      let s := scheduled (step Z) (start bodies) acts k
      s.frames = bodies.map (fun body => Wire.laneBody 0 (body.drop 1)) ∧
        s.acked = weigh List.length bodies := by
  have hsound : ∀ k, (scheduled (step Z) (start bodies) acts k).Sound Z bodies :=
    scheduled_invariant (I := Sound Z bodies) (P := fun act => act ≠ .lose)
      (fun s act h hact => (h.step hzstd hbodies hfit hact).1) ⟨inOrder_start Z bodies, rfl⟩
      hfair.kept
  have hagain : ∀ act k, ∃ m, k ≤ m ∧ (act ≠ .lose → acts m = act) := fun act k => by
    by_cases hact : act = .lose
    · exact ⟨k, Nat.le_refl _, fun hne => absurd hact hne⟩
    · obtain ⟨m, hm, heq⟩ := hfair.again act hact k
      exact ⟨m, hm, fun _ => heq⟩
  obtain ⟨N, -, hdone⟩ := exists_scheduled_done (step Z) (start bodies) (f := load) (D := Done)
    (K := fun act act' => act ≠ .lose → act' = act) hagain
    (fun k => ((hsound k).step hzstd hbodies hfit (hfair.kept k)).2)
    (fun k hnot => by
      obtain ⟨act, hact, hne⟩ := (hsound k).exists_act hzstd hbodies hfit hnot
      refine ⟨act, fun act' hof => ?_⟩
      rw [hof hact]
      exact ((hsound k).step hzstd hbodies hfit hact).2.resolve_left hne) 0
  -- nothing happens any more
  have hstays : ∀ k, N ≤ k → (scheduled (step Z) (start bodies) acts k).Done := by
    intro k hk
    induction k, hk using Nat.le_induction with
    | base => exact hdone
    | succ k hk ih =>
      rcases ((hsound k).step hzstd hbodies hfit (hfair.kept k)).2 with heq | hlt
      · rw [scheduled, heq]
        exact ih
      · rw [ih.load_eq_zero] at hlt
        exact absurd hlt (Nat.not_lt_zero _)
  refine ⟨N, fun k hk => ?_⟩
  obtain ⟨hhost, hreplica, howed⟩ := hstays k hk
  have hinOrder := (hsound k).inOrder
  obtain ⟨delivered, underWay, hall, hframes, hrest⟩ := hinOrder.split
  rw [hreplica] at hrest
  rw [hhost, List.map_eq_nil_iff.mp hrest.symm, List.append_nil, List.append_nil] at hall
  refine ⟨hall ▸ hframes, ?_⟩
  have hacked := hinOrder.acked
  rw [howed, (List.append_eq_nil_iff.mp hhost).2] at hacked
  simpa using hacked

deriving instance Encodable for JobLine.Place, JobLine.Act, ColdLane.Act

/-- Every action in turn, but for the loss of the session. -/
def inTurn (k : Nat) : Act := if everyAct Act.ack k = .lose then .ack else everyAct Act.ack k

private theorem fair_inTurn : Fair inTurn where
  kept k := by
    simp only [inTurn]
    split
    · simp
    · assumption
  again act hact k := by
    obtain ⟨m, hm, heq⟩ := exists_everyAct Act.ack act k
    exact ⟨m, hm, by rw [inTurn, heq, if_neg hact]⟩

theorem delivers_all_inTurn :
    ∃ N, ∀ k, N ≤ k →
      let s := scheduled (step Zstd.trailing) (start twoBodies) inTurn k
      s.frames = twoBodies.map (fun body => Wire.laneBody 0 (body.drop 1)) ∧
        s.acked = weigh List.length twoBodies :=
  delivers_all Zstd.trailing trailing_decompress twoBodies
    (fun body hbody => Nat.lt_of_le_of_lt (twoBodies_fit body hbody) (by decide))
    (fun body hbody => by
      have := twoBodies_fit body hbody
      simp only [List.length_drop, codecHeader, maxLaneFrame]
      omega) inTurn fair_inTurn

end ColdLane

end QCBridge.Agent
