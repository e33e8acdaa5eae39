import QCBridge.Agent.Handshake
import QCBridge.ForStd.Eventually
import QCBridge.ForStd.Guarded
import QCBridge.ForStd.Weigh

/-!
# No lane without the token

Whoever writes on the streams of a connection, the replica takes no other lane and reports no peer
before the first frame of the control lane was its own token. Between the two programs, both ends
come to the same verdict: where either reports a peer, their tokens were the same, and each lane of
the replica is the stream that the host opened for it, in whatever order they arrived. If nothing
breaks the connection, they come to that verdict.

## Key results

- `tokensMatch_iff`: the comparison is equality
- `Handshake.Gated`, `Handshake.Agrees`, `Handshake.Calm`: the invariants, and what one end's next
  access does to them
- `Handshake.run_gated`, `Handshake.run_agrees`, `Handshake.comes_to_verdict`
-/

namespace QCBridge.Agent

open Wire (maxLaneFrame)

/-! ## The comparison -/

/-- Differences that are gathered with "or" come to nothing only if there are none. -/
private theorem foldl_differences (l : List (UInt8 × UInt8)) (acc : UInt8) :
    l.foldl (fun acc p => acc ||| (p.1 ^^^ p.2)) acc = 0 ↔ acc = 0 ∧ ∀ p ∈ l, p.1 = p.2 := by
  induction l generalizing acc with
  | nil => simp
  | cons p l ih =>
    rw [List.foldl_cons, ih, UInt8.or_eq_zero_iff, UInt8.xor_eq_zero_iff, List.forall_mem_cons,
      and_assoc]

/-- `tokens_match` is equality. -/
theorem tokensMatch_iff (a b : Wire.Bytes) : tokensMatch a b = true ↔ a = b := by
  simp only [tokensMatch, Bool.and_eq_true, decide_eq_true_eq, foldl_differences, true_and]
  constructor
  · rintro ⟨hlen, hall⟩
    refine List.ext_getElem hlen fun i hi hi' => ?_
    exact hall (a[i], b[i]) (List.mem_iff_getElem.mpr ⟨i, by simpa using ⟨hi, hi'⟩, by simp⟩)
  · rintro rfl
    refine ⟨rfl, fun p hp => ?_⟩
    obtain ⟨i, hi, rfl⟩ := List.mem_iff_getElem.mp hp
    simp

/-! ## The gate -/

namespace Handshake

/-- The replica has compared, and what it read from the control lane by then was the tag and its own
    token. -/
def Admitted (s : Handshake) : Prop :=
  ∃ token, s.compared = some token ∧ token.val.length ≤ maxLaneFrame ∧
    s.control.taken = laneControl :: Wire.sendMsg token.val

/-- The replica has answered, taken a lane or reported a peer. -/
def Passed (s : Handshake) : Prop :=
  s.reply.written ≠ [] ∨ s.claimed ≠ [] ∨ s.replicaCalls ≠ []

/-- What the replica has read, wherever it is. -/
def Gated (s : Handshake) : Prop :=
  match s.replica with
  | .accepting | .tagging => s.control.taken = [] ∧ ¬ s.Passed
  | .reading => s.control.taken = [laneControl] ∧ ¬ s.Passed
  | .taking _ _ | .naming _ _ _ | .up _ => s.Admitted ∧ s.reply.written ≠ []
  | .down => s.Passed → s.Admitted

/-- Nothing that the replica looks at changes. -/
theorem Gated.of_eq {s s' : Handshake} (h : s.Gated) (hreplica : s'.replica = s.replica)
    (htaken : s'.control.taken = s.control.taken) (hcompared : s'.compared = s.compared)
    (hreply : s'.reply.written = s.reply.written) (hclaimed : s'.claimed = s.claimed)
    (hcalls : s'.replicaCalls = s.replicaCalls) : s'.Gated := by
  have hpassed : s'.Passed ↔ s.Passed := by rw [Passed, Passed, hreply, hclaimed, hcalls]
  have hadmitted : s'.Admitted ↔ s.Admitted := by rw [Admitted, Admitted, hcompared, htaken]
  simp only [Gated, hreplica, htaken, hpassed, hadmitted, hreply]
  exact h

/-- Whatever the replica is at, it has passed only with its own token read. -/
private theorem Gated.passed {s : Handshake} (h : s.Gated) (hpassed : s.Passed) : s.Admitted := by
  simp only [Gated] at h
  split at h
  · exact absurd hpassed h.2
  · exact absurd hpassed h.2
  · exact absurd hpassed h.2
  · exact h.1
  · exact h.1
  · exact h.1
  · exact h hpassed

/-- `serve_one` ends before `peer_up`. -/
private theorem passed_ends {s : Handshake} (hphase : ∀ lanes, s.replica ≠ .up lanes) :
    s.replicaEnds.Passed ↔ s.Passed := by
  have hcalls : s.replicaEnds.replicaCalls = s.replicaCalls := by
    simp only [replicaEnds]
    exact List.append_nil _
  rw [Passed, hcalls]
  exact Iff.rfl

/-- `serve_one` ends. -/
theorem Gated.ends {s : Handshake} (h : s.Gated) : s.replicaEnds.Gated := by
  intro hpassed
  have hadmitted : s.replicaEnds.Admitted ↔ s.Admitted := Iff.rfl
  rw [hadmitted]
  by_cases hup : ∃ lanes, s.replica = .up lanes
  · obtain ⟨lanes, hup⟩ := hup
    rw [Gated, hup] at h
    exact h.1
  · exact h.passed ((passed_ends fun lanes heq => hup ⟨lanes, heq⟩).mp hpassed)

/-- It waits for the network, or finds that the connection was closed. -/
theorem Gated.waits {s : Handshake} (h : s.Gated) : s.replicaWaits.Gated := by
  rw [replicaWaits]
  split
  · exact h.ends
  · exact h

/-- The replica turns down what it has read. -/
private theorem gated_refused {s : Handshake} (hphase : ∀ lanes, s.replica ≠ .up lanes)
    (hnot : ¬ s.Passed) : s.replicaEnds.Gated := fun hpassed =>
  absurd ((passed_ends hphase).mp hpassed) hnot

/-- The replica's next access. -/
theorem Gated.replicaStep {s : Handshake} (h : s.Gated) (pick : Nat) :
    (s.replicaStep pick).Gated := by
  have hg := h
  simp only [Handshake.replicaStep]
  cases hphase : s.replica with
  | accepting =>
    simp only
    split
    · rw [Gated, hphase] at h
      exact h
    · exact hg.waits
  | tagging =>
    rw [Gated, hphase] at h
    obtain ⟨htaken, hnot⟩ := h
    simp only
    split
    · rename_i tag control hread
      obtain ⟨-, htaken', -, -⟩ := ByteStream.readByte_eq hread
      split
      · -- the tag of the control lane: it is all that was read
        rename_i htag
        refine ⟨?_, hnot⟩
        simp only [htaken', htaken, htag, List.nil_append]
      · -- any other lane is turned down before its token is read
        exact gated_refused (by simp) hnot
    · exact hg.waits
  | reading =>
    rw [Gated, hphase] at h
    obtain ⟨htaken, hnot⟩ := h
    simp only
    split
    · rename_i token control hread
      obtain ⟨-, htaken', -, -⟩ := ByteStream.readFramed_eq hread
      split
      · -- the token is the replica's own, so what was read is the tag and that token
        rename_i hmatch
        have hadmitted : ∃ token, some s.replicaToken = some token ∧
            token.val.length ≤ maxLaneFrame ∧
            control.taken = laneControl :: Wire.sendMsg token.val := by
          refine ⟨_, rfl, ?_, ?_⟩
          · rw [← (tokensMatch_iff _ _).mp hmatch]
            exact ByteStream.length_of_readFramed hread
          · rw [htaken', htaken, (tokensMatch_iff _ _).mp hmatch]
            rfl
        split
        · -- the reply fails: the comparison is on record all the same
          exact fun _ => hadmitted
        · -- the reply goes out, which is the first thing that passes
          exact ⟨hadmitted, by simp [Wire.sendMsg, okReply, be32]⟩
      · -- another token
        exact gated_refused (by simp) hnot
    · exact hg.ends
    · exact hg.waits
  | taking lanes left =>
    rw [Gated, hphase] at h
    simp only
    split
    · split
      · exact h
      · exact fun _ => h.1
    · split
      · exact h
      · exact hg.waits
  | naming lanes left stream =>
    rw [Gated, hphase] at h
    simp only
    split
    · split
      · exact h
      · exact fun _ => h.1
    · exact hg.waits
  | up lanes => exact hg.waits
  | down => exact hg

/-- One action, whoever takes it. -/
theorem Gated.step {s : Handshake} (h : s.Gated) (act : Act) : (s.step act).Gated := by
  cases act with
  | replica pick => exact h.replicaStep pick
  | host =>
    -- the host writes on the control lane and reads its reply; what the replica has read stays
    simp only [Handshake.step, hostStep, hostWrites, hostEnds]
    repeat' split
    all_goals first
      | exact h
      | exact h.of_eq rfl (by simp) rfl rfl rfl rfl
      | refine h.of_eq rfl rfl rfl ?_ rfl rfl
        -- the reply is the replica's, and reading it writes nothing
        rename_i hread _
        exact (ByteStream.readFramed_eq hread).1
  | arriveControl k =>
    simp only [Handshake.step]
    split
    · exact h
    · exact h.of_eq rfl rfl rfl rfl rfl rfl
  | arriveReply k =>
    simp only [Handshake.step]
    split
    · exact h
    · exact h.of_eq rfl rfl rfl (by simp) rfl rfl
  | arriveUni stream k =>
    simp only [Handshake.step]
    split
    · exact h
    · exact h.of_eq rfl rfl rfl rfl rfl rfl
  | hostGivesUp =>
    simp only [Handshake.step]
    split
    · exact h
    · exact h.of_eq rfl rfl rfl rfl rfl rfl
  | replicaGivesUp =>
    simp only [Handshake.step]
    split
    · exact h
    · exact h.ends
  | _ => exact h.of_eq rfl rfl rfl rfl rfl rfl

/-- At the start it has read nothing. -/
private theorem gated_start (hostToken replicaToken : Token) :
    Gated { hostToken := hostToken, replicaToken := replicaToken } :=
  ⟨rfl, by simp [Passed, ByteStream.written]⟩

/-- So it is in every run, whoever writes. -/
private theorem gated_run (hostToken replicaToken : Token) (acts : List Act) :
    (run hostToken replicaToken acts).Gated :=
  foldl_invariant (f := step) (I := Gated) (fun _ act h => h.step act) acts
    (gated_start hostToken replicaToken)

/-- What passes a replica that nothing had passed is its own token. -/
theorem Gated.admits {s : Handshake} (h : s.Gated) (hnot : ¬ s.Passed) {act : Act}
    (hpassed : (s.step act).Passed) :
    ∃ pick, act = .replica pick ∧
      laneControl :: Wire.sendMsg s.replicaToken.val <+: s.control.written := by
  have hsame : ∀ s' : Handshake, s'.reply.written = s.reply.written → s'.claimed = s.claimed →
      s'.replicaCalls = s.replicaCalls → ¬ s'.Passed := by
    intro s' hreply hclaimed hcalls
    rwa [Passed, hreply, hclaimed, hcalls]
  have hends : ∀ s' : Handshake, (∀ lanes, s'.replica ≠ .up lanes) →
      s'.reply.written = s.reply.written → s'.claimed = s.claimed →
      s'.replicaCalls = s.replicaCalls → ¬ s'.replicaEnds.Passed :=
    fun s' hphase hreply hclaimed hcalls hp =>
      hsame s' hreply hclaimed hcalls ((passed_ends hphase).mp hp)
  cases act with
  | replica pick =>
    refine ⟨pick, rfl, ?_⟩
    simp only [Handshake.step, Handshake.replicaStep] at hpassed
    cases hphase : s.replica with
    | accepting =>
      simp only [hphase, replicaWaits] at hpassed
      split at hpassed
      · exact absurd hpassed hnot
      · split at hpassed
        · exact absurd hpassed (hends s (by simp [hphase]) rfl rfl rfl)
        · exact absurd hpassed hnot
    | tagging =>
      simp only [hphase, replicaWaits] at hpassed
      split at hpassed
      · split at hpassed
        · exact absurd hpassed hnot
        · exact absurd hpassed (hends _ (by simp) rfl rfl rfl)
      · split at hpassed
        · exact absurd hpassed (hends s (by simp [hphase]) rfl rfl rfl)
        · exact absurd hpassed hnot
    | reading =>
      rw [Gated, hphase] at h
      simp only [hphase, replicaWaits] at hpassed
      split at hpassed
      · rename_i token control hread
        obtain ⟨hwritten, htaken, -, -⟩ := ByteStream.readFramed_eq hread
        split at hpassed
        · -- the token is on the stream, and it is the replica's
          rename_i hmatch
          rw [← hwritten, ← (tokensMatch_iff _ _).mp hmatch]
          have hpre := control.taken_prefix
          rw [htaken, h.1] at hpre
          exact hpre
        · exact absurd hpassed (hends _ (by simp) rfl rfl rfl)
      · exact absurd hpassed (hends s (by simp [hphase]) rfl rfl rfl)
      · split at hpassed
        · exact absurd hpassed (hends s (by simp [hphase]) rfl rfl rfl)
        · exact absurd hpassed hnot
    | taking lanes left =>
      rw [Gated, hphase] at h
      exact absurd (.inl h.2) hnot
    | naming lanes left stream =>
      rw [Gated, hphase] at h
      exact absurd (.inl h.2) hnot
    | up lanes =>
      rw [Gated, hphase] at h
      exact absurd (.inl h.2) hnot
    | down =>
      simp only [hphase] at hpassed
      exact absurd hpassed hnot
  | host =>
    refine absurd hpassed ?_
    simp only [Handshake.step, hostStep, hostWrites, hostEnds]
    repeat' split
    all_goals first
      | exact hnot
      | refine hsame _ ?_ rfl rfl
        rename_i hread _
        exact (ByteStream.readFramed_eq hread).1
  | arriveReply k =>
    refine absurd hpassed ?_
    simp only [Handshake.step]
    split
    · exact hnot
    · exact hsame _ (by simp) rfl rfl
  | replicaGivesUp =>
    refine absurd hpassed ?_
    simp only [Handshake.step]
    split
    · exact hnot
    · refine hends s (fun lanes heq => ?_) rfl rfl rfl
      rw [Gated, heq] at h
      exact hnot (.inl h.2)
  | arriveControl k =>
    refine absurd hpassed ?_
    simp only [Handshake.step]
    split <;> exact hnot
  | arriveUni stream k =>
    refine absurd hpassed ?_
    simp only [Handshake.step]
    split <;> exact hnot
  | hostGivesUp =>
    refine absurd hpassed ?_
    simp only [Handshake.step]
    split <;> exact hnot
  | _ => exact absurd hpassed hnot

/-- Whoever writes on the streams of the connection, and in whatever order things happen: before the
    replica answers, takes a lane or reports a peer, the control lane began with the tag and the
    token that the replica had when it compared. -/
theorem run_gated (hostToken replicaToken : Token) (acts : List Act)
    (hpassed : (run hostToken replicaToken acts).Passed) :
    ∃ before pick after, acts = before ++ Act.replica pick :: after ∧
      laneControl :: Wire.sendMsg (run hostToken replicaToken before).replicaToken.val <+:
        (run hostToken replicaToken before).control.written := by
  induction acts using List.reverseRecOn with
  | nil => exact absurd hpassed (gated_start hostToken replicaToken).2
  | append_singleton acts act ih =>
    by_cases hnot : (run hostToken replicaToken acts).Passed
    · obtain ⟨before, pick, after, hacts, hpre⟩ := ih hnot
      exact ⟨before, pick, after ++ [act], by simp [hacts], hpre⟩
    · rw [run, List.foldl_append] at hpassed
      obtain ⟨pick, rfl, hpre⟩ := (gated_run hostToken replicaToken acts).admits hnot hpassed
      exact ⟨acts, pick, [], rfl, hpre⟩

/-- Somebody else than the host has its token. -/
def stolen : List Act :=
  [.writeControl (laneControl :: Wire.sendMsg [0x71]), .arriveControl 6, .replica 0, .replica 0,
    .replica 0]

/-- The token alone is what counts: the replica answers whoever has it. -/
theorem run_gated_stolen :
    ∃ before pick after, stolen = before ++ Act.replica pick :: after ∧
      let s := run ⟨[], by decide⟩ ⟨[0x71], by decide⟩ before
      laneControl :: Wire.sendMsg s.replicaToken.val <+: s.control.written :=
  run_gated ⟨[], by decide⟩ ⟨[0x71], by decide⟩ stolen (.inl (by decide))

/-! ## The two programs -/

/-- Only the two programs, the network and the two configurations act. -/
def Act.Honest : Act → Prop
  | .writeControl _ | .writeUni _ _ | .openUni => False
  | _ => True

/-- What the host has written on the control lane, and what it has heard. -/
def HostWrote (s : Handshake) : Prop :=
  match s.host with
  | .opening => s.sent = none ∧ s.control.written = [] ∧ s.unis.length = 0 ∧
      s.reply.taken = [] ∧ s.hostCalls = []
  | .tagged => s.sent = none ∧ s.control.written = [laneControl] ∧ s.unis.length = 0 ∧
      s.reply.taken = [] ∧ s.hostCalls = []
  | .waiting => ∃ token, s.sent = some token ∧
      s.control.written = laneControl :: Wire.sendMsg token.val ∧ s.unis.length = 0 ∧
      s.reply.taken = [] ∧ s.hostCalls = []
  | .accepted opened => ∃ token, s.sent = some token ∧
      s.control.written = laneControl :: Wire.sendMsg token.val ∧ s.unis.length = opened ∧
      opened ≤ 3 ∧ s.reply.taken = Wire.sendMsg okReply ∧ s.hostCalls = []
  | .up => ∃ token, s.sent = some token ∧
      s.control.written = laneControl :: Wire.sendMsg token.val ∧ s.unis.length = 3 ∧
      s.reply.taken = Wire.sendMsg okReply ∧ s.hostCalls = [.peerUp]
  | .down => s.unis.length ≤ 3 ∧ s.closed.isSome ∧
      ((s.sent = none ∧ s.control.written <+: [laneControl]) ∨
        ∃ token, s.sent = some token ∧
          s.control.written = laneControl :: Wire.sendMsg token.val) ∧
      (s.hostCalls = [.peerDown] ∨
        s.hostCalls = [.peerUp, .peerDown] ∧ s.reply.taken = Wire.sendMsg okReply)

/-- The lanes among the streams that the replica has taken. -/
def lanesOf (claimed : List Nat) : TakenLanes where
  hotRecv := if 0 ∈ claimed then some 0 else none
  coldRecv := if 1 ∈ claimed then some 1 else none
  fastRecv := if 2 ∈ claimed then some 2 else none

/-- Which streams the replica has taken, and as which lanes. -/
def ReplicaTook (s : Handshake) : Prop :=
  match s.replica with
  | .accepting | .tagging | .reading => s.claimed = [] ∧ s.reply.written = [] ∧ s.replicaCalls = []
  | .taking lanes left => lanes = lanesOf s.claimed ∧ s.claimed.length + left = 3 ∧
      s.reply.written = Wire.sendMsg okReply ∧ s.replicaCalls = []
  | .naming lanes left stream => ∃ earlier, s.claimed = earlier ++ [stream] ∧
      lanes = lanesOf earlier ∧ s.claimed.length + left = 3 ∧
      s.reply.written = Wire.sendMsg okReply ∧ s.replicaCalls = [] ∧
      ∀ uni, s.unis[stream]? = some uni → uni.taken = []
  | .up lanes => lanes = ⟨some 0, some 1, some 2⟩ ∧ s.claimed.length = 3 ∧
      s.reply.written = Wire.sendMsg okReply ∧ s.replicaCalls = [.peerUp]
  | .down => s.closed.isSome ∧
      (s.replicaCalls = [] ∧ (s.reply.written = [] ∨ s.reply.written = Wire.sendMsg okReply) ∨
        s.replicaCalls = [.peerUp, .peerDown] ∧ s.reply.written = Wire.sendMsg okReply)

/-- The streams that carry the lanes, and those of them that the replica has taken. -/
structure Opened (s : Handshake) : Prop where
  /-- Each stream carries the tag of the lane it was opened for. -/
  unis : ∀ i uni, s.unis[i]? = some uni → uni.written = [laneTag i]
  /-- The replica has read nothing from a stream that it has not taken. -/
  fresh : ∀ i uni, s.unis[i]? = some uni → i ∉ s.claimed → uni.taken = []
  claimed : s.claimed.Nodup ∧ ∀ i ∈ s.claimed, i < s.unis.length
  count : s.unis.length ≤ 3

/-- What holds between the two programs. -/
structure Agrees (s : Handshake) : Prop where
  gated : s.Gated
  host : s.HostWrote
  replica : s.ReplicaTook
  opened : s.Opened

/-! ### The host -/

section Host

variable {s s' : Handshake}

/-- Nothing that the host has done changes; the connection may be closed. -/
theorem HostWrote.of_eq (h : s.HostWrote) (hhost : s'.host = s.host) (hsent : s'.sent = s.sent)
    (hcontrol : s'.control.written = s.control.written) (hunis : s'.unis.length = s.unis.length)
    (hreply : s'.reply.taken = s.reply.taken) (hcalls : s'.hostCalls = s.hostCalls)
    (hclosed : s.closed.isSome → s'.closed.isSome) : s'.HostWrote := by
  simp only [HostWrote, hhost, hsent, hcontrol, hunis, hreply, hcalls] at h ⊢
  split at h
  all_goals first
    | exact h
    | exact ⟨h.1, hclosed h.2.1, h.2.2⟩

/-- `connect_one` ends. -/
theorem HostWrote.ends (h : s.HostWrote) (hup : s.host ≠ .down) : s.hostEnds.HostWrote := by
  simp only [HostWrote] at h
  simp only [hostEnds, HostWrote, Option.isSome_some, true_and]
  -- whatever was written stays, and a call is ended if it was begun
  split at h
  · obtain ⟨hsent, hcontrol, hunis, -, hcalls⟩ := h
    exact ⟨by omega, .inl ⟨hsent, by simp [hcontrol]⟩, .inl (by simp [hcalls])⟩
  · obtain ⟨hsent, hcontrol, hunis, -, hcalls⟩ := h
    exact ⟨by omega, .inl ⟨hsent, by simp [hcontrol]⟩, .inl (by simp [hcalls])⟩
  · obtain ⟨token, hsent, hcontrol, hunis, -, hcalls⟩ := h
    exact ⟨by omega, .inr ⟨token, hsent, hcontrol⟩, .inl (by simp [hcalls])⟩
  · obtain ⟨token, hsent, hcontrol, hunis, hle, -, hcalls⟩ := h
    exact ⟨by omega, .inr ⟨token, hsent, hcontrol⟩, .inl (by simp [hcalls])⟩
  · obtain ⟨token, hsent, hcontrol, hunis, hreply, hcalls⟩ := h
    exact ⟨by omega, .inr ⟨token, hsent, hcontrol⟩, .inr ⟨by simp [hcalls], hreply⟩⟩
  · rename_i hdown
    exact absurd hdown hup

/-- The host's next access. -/
theorem HostWrote.hostStep (h : s.HostWrote) : s.hostStep.HostWrote := by
  have hh := h
  simp only [Handshake.hostStep]
  cases hphase : s.host with
  | opening =>
    have hends := h.ends (by simp [hphase])
    simp only [HostWrote, hphase] at h
    obtain ⟨hsent, hcontrol, hunis, hreply, hcalls⟩ := h
    simp only [hostWrites]
    split
    · exact hends
    · exact ⟨hsent, by simp [hcontrol], hunis, hreply, hcalls⟩
  | tagged =>
    have hends := h.ends (by simp [hphase])
    simp only [HostWrote, hphase] at h
    obtain ⟨hsent, hcontrol, hunis, hreply, hcalls⟩ := h
    simp only [hostWrites]
    split
    · exact hends
    · exact ⟨s.hostToken, rfl, by simp [hcontrol], hunis, hreply, hcalls⟩
  | waiting =>
    have hends := h.ends (by simp [hphase])
    simp only [HostWrote, hphase] at h
    obtain ⟨token, hsent, hcontrol, hunis, hreply, hcalls⟩ := h
    simp only
    split
    · -- a reply: only "ok" is an acceptance
      rename_i payload reply hread
      obtain ⟨-, htaken, -, -⟩ := ByteStream.readFramed_eq hread
      split
      · rename_i hok
        refine ⟨token, hsent, hcontrol, hunis, by omega, ?_, hcalls⟩
        simp only [htaken, hreply, List.nil_append, hok]
        rfl
      · -- anything else ends the attempt before a peer is reported
        refine ⟨by simp only [hostEnds]; omega, rfl, .inr ⟨token, hsent, hcontrol⟩, .inl ?_⟩
        simp [hostEnds, hcalls]
    · exact hends
    · split
      · exact hends
      · exact hh
  | accepted opened =>
    have hends := h.ends (by simp [hphase])
    simp only [HostWrote, hphase] at h
    obtain ⟨token, hsent, hcontrol, hunis, hle, hreply, hcalls⟩ := h
    simp only [hostWrites]
    split
    · split
      · exact hends
      · -- the next lane is opened
        exact ⟨token, hsent, hcontrol, by simp [hunis], by omega, hreply, hcalls⟩
    · -- all three are
      exact ⟨token, hsent, hcontrol, by simp only; omega, hreply, by simp [hcalls]⟩
  | up =>
    simp only
    split
    · exact h.ends (by simp [hphase])
    · exact hh
  | down => exact hh

/-- The streams and what was taken of them. -/
theorem Opened.of_eq (h : s.Opened) (hunis : s'.unis = s.unis) (hclaimed : s'.claimed = s.claimed) :
    s'.Opened :=
  ⟨by rw [hunis]; exact h.unis, by rw [hunis, hclaimed]; exact h.fresh,
    by rw [hunis, hclaimed]; exact h.claimed, by rw [hunis]; exact h.count⟩

/-- What the host opens carries the tag of its lane. -/
theorem Opened.hostStep (h : s.Opened) (hw : s.HostWrote) : s.hostStep.Opened := by
  simp only [Handshake.hostStep]
  cases hphase : s.host with
  | accepted opened =>
    simp only [HostWrote, hphase] at hw
    obtain ⟨-, -, -, hunis, -, -, -⟩ := hw
    simp only [hostWrites]
    split
    · split
      · exact h.of_eq rfl rfl
      · refine ⟨fun i uni hi => ?_, fun i uni hi hfresh => ?_, ⟨h.claimed.1, fun i hi => ?_⟩, ?_⟩
        · -- the streams of before, the new one, and none beyond
          rcases Nat.lt_trichotomy i s.unis.length with hlt | rfl | hgt
          · exact h.unis i uni (by rwa [List.getElem?_append_left hlt] at hi)
          · rw [List.getElem?_append_right (Nat.le_refl _), Nat.sub_self] at hi
            cases hi
            rw [hunis]
            -- it carries the tag of its number
            rfl
          · rw [List.getElem?_append_right (by omega), List.getElem?_eq_none (by simp; omega)] at hi
            cases hi
        · -- the replica has read nothing of a stream that is new
          rcases Nat.lt_or_ge i s.unis.length with hlt | hge
          · exact h.fresh i uni (by rwa [List.getElem?_append_left hlt] at hi) hfresh
          · rw [List.getElem?_append_right hge] at hi
            obtain rfl := List.mem_singleton.mp (List.mem_of_getElem? hi)
            rfl
        · -- what the replica has taken was there before
          have := h.claimed.2 i hi
          simp only [List.length_append]
          omega
        · simp only [List.length_append, List.length_singleton]
          omega
    · exact h.of_eq rfl rfl
  | opening =>
    simp only [hostWrites]
    split <;> exact h.of_eq rfl rfl
  | tagged =>
    simp only [hostWrites]
    split <;> exact h.of_eq rfl rfl
  | waiting =>
    simp only
    repeat' split
    all_goals exact h.of_eq rfl rfl
  | up =>
    simp only
    split <;> exact h.of_eq rfl rfl
  | down => exact h

/-- Nothing that the replica has done changes; the connection may be closed. -/
theorem ReplicaTook.of_eq (h : s.ReplicaTook) (hreplica : s'.replica = s.replica)
    (hclaimed : s'.claimed = s.claimed) (hreply : s'.reply.written = s.reply.written)
    (hcalls : s'.replicaCalls = s.replicaCalls)
    (hunis : ∀ i ∈ s.claimed,
      (s'.unis[i]?).map ByteStream.taken = (s.unis[i]?).map ByteStream.taken)
    (hclosed : s.closed.isSome → s'.closed.isSome) : s'.ReplicaTook := by
  -- in every phase but the last there is nothing to carry over
  simp only [ReplicaTook, hreplica, hclaimed, hreply, hcalls] at h ⊢
  split at h
  all_goals first
    | exact h
    | exact ⟨hclosed h.1, h.2⟩
    | skip
  rename_i lanes left stream _
  -- the last: what is left of a stream that is read
  obtain ⟨earlier, heq, hlanes, hcount, hwritten, hnone, hfresh⟩ := h
  refine ⟨earlier, heq, hlanes, hcount, hwritten, hnone, fun uni huni => ?_⟩
  have hsame := hunis stream (by rw [heq]; simp)
  rw [huni, Option.map_some] at hsame
  obtain ⟨uni', huni', htaken⟩ := Option.map_eq_some_iff.mp hsame.symm
  rw [← htaken]
  exact hfresh uni' huni'

/-- The host's next access does not disturb the replica. -/
theorem ReplicaTook.hostStep (h : s.ReplicaTook) (ho : s.Opened) : s.hostStep.ReplicaTook := by
  have hends : s.hostEnds.ReplicaTook :=
    h.of_eq rfl rfl rfl rfl (fun _ _ => rfl) fun _ => rfl
  simp only [Handshake.hostStep]
  cases hphase : s.host with
  | opening =>
    simp only [hostWrites]
    split
    · exact hends
    · exact h.of_eq rfl rfl rfl rfl (fun _ _ => rfl) id
  | tagged =>
    simp only [hostWrites]
    split
    · exact hends
    · exact h.of_eq rfl rfl rfl rfl (fun _ _ => rfl) id
  | waiting =>
    simp only
    split
    · rename_i payload reply hread
      obtain ⟨hwritten, -, -, -⟩ := ByteStream.readFramed_eq hread
      split
      · -- reading the reply does not touch what the replica has written
        exact h.of_eq rfl rfl hwritten rfl (fun _ _ => rfl) id
      · exact h.of_eq rfl rfl hwritten rfl (fun _ _ => rfl) fun _ => rfl
    · exact hends
    · split
      · exact hends
      · exact h
  | accepted opened =>
    simp only [hostWrites]
    split
    · split
      · exact hends
      · refine h.of_eq rfl rfl rfl rfl (fun i hi => ?_) id
        -- the streams that the replica has taken are the same ones
        rw [List.getElem?_append_left (ho.claimed.2 i hi)]
    · exact h.of_eq rfl rfl rfl rfl (fun _ _ => rfl) id
  | up =>
    simp only
    split
    · exact hends
    · exact h
  | down => exact h

end Host

/-! ### The replica -/

section Replica

variable {s : Handshake}

/-- `serve_one` ends. -/
theorem ReplicaTook.ends (h : s.ReplicaTook) (hup : s.replica ≠ .down) :
    s.replicaEnds.ReplicaTook := by
  simp only [ReplicaTook] at h
  simp only [replicaEnds, ReplicaTook, Option.isSome_some, true_and]
  split at h
  · exact .inl ⟨by simp [h.2.2, *], .inl h.2.1⟩
  · exact .inl ⟨by simp [h.2.2, *], .inl h.2.1⟩
  · exact .inl ⟨by simp [h.2.2, *], .inl h.2.1⟩
  · exact .inl ⟨by simp [h.2.2.2, *], .inr h.2.2.1⟩
  · obtain ⟨earlier, -, -, -, hwritten, hcalls, -⟩ := h
    exact .inl ⟨by simp [*], .inr hwritten⟩
  · exact .inr ⟨by simp [h.2.2.2, *], h.2.2.1⟩
  · rename_i hdown
    exact absurd hdown hup

/-- While it waits, it takes no stream. -/
theorem ReplicaTook.waits (h : s.ReplicaTook) (hup : s.replica ≠ .down) :
    s.replicaWaits.ReplicaTook := by
  rw [replicaWaits]
  split
  · exact h.ends hup
  · exact h

/-- Three different streams of three are all of them. -/
private theorem Opened.all_claimed (h : s.Opened) (hcount : s.claimed.length = 3) :
    lanesOf s.claimed = ⟨some 0, some 1, some 2⟩ := by
  have hsub : s.claimed.Subperm (List.range 3) := h.claimed.1.subperm fun i hi => by
    have := h.claimed.2 i hi
    have := h.count
    rw [List.mem_range]
    omega
  have hperm : s.claimed.Perm (List.range 3) := hsub.perm_of_length_le (by simp [hcount])
  have hmem : ∀ i < 3, i ∈ s.claimed := fun i hi => hperm.mem_iff.mpr (List.mem_range.mpr hi)
  simp [lanesOf, hmem]

/-- A stream that was opened for a lane and is named by its tag is taken for that lane. -/
private theorem set_lanesOf {stream : Nat} (hlt : stream < 3) (earlier : List Nat) :
    (lanesOf earlier).set (laneTag stream) stream = some (lanesOf (earlier ++ [stream])) := by
  have hcases : stream = 0 ∨ stream = 1 ∨ stream = 2 := by omega
  rcases hcases with rfl | rfl | rfl <;>
    simp [lanesOf, TakenLanes.set, laneTag, laneHot, laneCold, laneFast]

/-- The tag that the replica reads is the one the stream was opened with. -/
private theorem Opened.tag_eq (h : s.Opened) {stream : Nat} {uni uni' : ByteStream} {tag : UInt8}
    (huni : s.unis[stream]? = some uni) (hfresh : uni.taken = [])
    (hread : uni.readByte = some (tag, uni')) : tag = laneTag stream := by
  obtain ⟨hwritten, htaken, -, -⟩ := ByteStream.readByte_eq hread
  have hpre := uni'.taken_prefix
  rw [hwritten, h.unis stream uni huni, htaken, hfresh, List.nil_append] at hpre
  exact (List.cons_prefix_cons.mp hpre).1

/-- The replica's next access. -/
theorem ReplicaTook.replicaStep (h : s.ReplicaTook) (ho : s.Opened) (pick : Nat) :
    (s.replicaStep pick).ReplicaTook := by
  have hh := h
  simp only [Handshake.replicaStep]
  cases hphase : s.replica with
  | accepting =>
    have hwaits := h.waits (by simp [hphase])
    simp only [ReplicaTook, hphase] at h
    simp only
    split
    · -- another tag: nothing is taken
      exact h
    · exact hwaits
  | tagging =>
    have hwaits := h.waits (by simp [hphase])
    simp only [ReplicaTook, hphase] at h
    simp only
    split
    · split
      · exact h
      · exact ReplicaTook.ends (by simpa only [ReplicaTook] using h) (by simp)
    · exact hwaits
  | reading =>
    have hwaits := h.waits (by simp [hphase])
    have hends := h.ends (by simp [hphase])
    simp only [ReplicaTook, hphase] at h
    simp only
    split
    · split
      · split
        · exact ReplicaTook.ends (by simpa only [ReplicaTook] using h) (by simp)
        · -- the token matches: from here on three lanes are to be taken
          exact ⟨by simp [lanesOf, h.1], by simp [h.1], by simp [h.2.1], h.2.2⟩
      · exact ReplicaTook.ends (by simpa only [ReplicaTook] using h) (by simp)
    · exact hends
    · exact hwaits
  | taking lanes left =>
    have hwaits := h.waits (by simp [hphase])
    simp only [ReplicaTook, hphase] at h
    obtain ⟨hlanes, hcount, hwritten, hcalls⟩ := h
    simp only
    split
    · -- three were taken, which are all there are
      rename_i hleft
      have hall := ho.all_claimed (by omega)
      have hup : ReplicaTook { s with
          replica := .up lanes, replicaCalls := s.replicaCalls ++ [.peerUp] } :=
        ⟨hlanes.trans hall, by simp only; omega, hwritten, by simp [hcalls]⟩
      split
      · exact hup
      · exact hup.ends (by simp)
    · split
      · -- a stream is taken: nothing of it was read before
        rename_i hmay
        refine ⟨s.claimed, rfl, hlanes, by simp; omega, hwritten, hcalls, fun uni huni => ?_⟩
        simp only [mayTake, Bool.and_eq_true, decide_eq_true_eq] at hmay
        exact ho.fresh pick uni huni hmay.2
      · exact hwaits
  | naming lanes left stream =>
    have hwaits := h.waits (by simp [hphase])
    simp only [ReplicaTook, hphase] at h
    obtain ⟨earlier, hclaimed, hlanes, hcount, hwritten, hcalls, hfresh⟩ := h
    simp only
    split
    · -- the tag names the lane, which is the one that the stream was opened for
      rename_i tag uni' hread
      obtain ⟨uni, huni, hread⟩ := Option.bind_eq_some_iff.mp hread
      have hlt : stream < 3 := by
        have := ho.claimed.2 stream (by rw [hclaimed]; simp)
        have := ho.count
        omega
      rw [ho.tag_eq huni (hfresh uni huni) hread, hlanes, set_lanesOf hlt, ← hclaimed]
      exact ⟨rfl, hcount, hwritten, hcalls⟩
    · exact hwaits
  | up lanes => exact hh.waits (by simp [hphase])
  | down => exact hh

/-- The streams after the replica's next access. -/
theorem Opened.replicaStep (h : s.Opened) (hr : s.ReplicaTook) (pick : Nat) :
    (s.replicaStep pick).Opened := by
  simp only [Handshake.replicaStep, replicaWaits]
  cases hphase : s.replica with
  | taking lanes left =>
    simp only
    split
    · split <;> exact h.of_eq rfl rfl
    · split
      · -- a stream is taken that was not, so none is taken twice
        rename_i hmay
        simp only [mayTake, Bool.and_eq_true, decide_eq_true_eq] at hmay
        obtain ⟨hknown, hnot⟩ := hmay
        have hlt : pick < s.unis.length := by
          by_contra hge
          rw [List.getElem?_eq_none (by omega)] at hknown
          cases hknown
        refine ⟨h.unis, fun i uni hi hfresh => ?_, ⟨?_, fun i hi => ?_⟩, h.count⟩
        · exact h.fresh i uni hi fun hi => hfresh (by simp [hi])
        · rw [List.nodup_append]
          exact ⟨h.claimed.1, by simp, fun a ha b hb => by
            rintro rfl
            exact hnot (List.mem_singleton.mp hb ▸ ha)⟩
        · rcases List.mem_append.mp hi with hi | hi
          · exact h.claimed.2 i hi
          · rwa [List.mem_singleton.mp hi]
      · split <;> exact h.of_eq rfl rfl
  | naming lanes left stream =>
    simp only [ReplicaTook, hphase] at hr
    obtain ⟨earlier, hclaimed, -⟩ := hr
    simp only
    split
    · -- its tag is read: the streams carry what they carried
      rename_i tag uni' hread
      obtain ⟨uni, huni, hread⟩ := Option.bind_eq_some_iff.mp hread
      obtain ⟨hwritten, -, -, -⟩ := ByteStream.readByte_eq hread
      have hopened : Opened { s with unis := s.unis.set stream uni' } := by
        refine ⟨fun i u hi => ?_, fun i u hi hfresh => ?_, ?_, by simpa using h.count⟩
        · rw [List.getElem?_set] at hi
          split at hi
          · rename_i heq
            subst heq
            split at hi
            · cases hi
              rw [hwritten]
              exact h.unis _ uni huni
            · cases hi
          · exact h.unis i u hi
        · -- a stream that was not taken is another one
          have hne : stream ≠ i := by
            rintro rfl
            exact hfresh (by rw [hclaimed]; simp)
          rw [List.getElem?_set_ne hne] at hi
          exact h.fresh i u hi hfresh
        · exact ⟨h.claimed.1, by simpa using h.claimed.2⟩
      split <;> exact hopened.of_eq rfl rfl
    · split <;> exact h.of_eq rfl rfl
  | accepting =>
    simp only
    repeat' split
    all_goals exact h.of_eq rfl rfl
  | tagging =>
    simp only
    repeat' split
    all_goals exact h.of_eq rfl rfl
  | reading =>
    simp only
    repeat' split
    all_goals exact h.of_eq rfl rfl
  | up lanes =>
    simp only
    split <;> exact h.of_eq rfl rfl
  | down => exact h

/-- The replica's next access does not disturb the host. -/
theorem HostWrote.replicaStep (h : s.HostWrote) (pick : Nat) : (s.replicaStep pick).HostWrote := by
  -- when the replica ends, the host's own state is as it was
  have hends : s.replicaEnds.HostWrote := h.of_eq rfl rfl rfl rfl rfl rfl fun _ => rfl
  have hwaits : s.replicaWaits.HostWrote := by
    rw [replicaWaits]
    split
    · exact hends
    · exact h
  simp only [Handshake.replicaStep]
  cases hphase : s.replica with
  | accepting =>
    simp only
    split
    · exact h.of_eq rfl rfl rfl rfl rfl rfl id
    · exact hwaits
  | tagging =>
    simp only
    split
    · rename_i tag control hread
      obtain ⟨hwritten, -, -, -⟩ := ByteStream.readByte_eq hread
      split
      · exact h.of_eq rfl rfl hwritten rfl rfl rfl id
      · exact h.of_eq rfl rfl hwritten rfl rfl rfl fun _ => rfl
    · exact hwaits
  | reading =>
    simp only
    split
    · rename_i token control hread
      obtain ⟨hwritten, -, -, -⟩ := ByteStream.readFramed_eq hread
      split
      · split
        · exact h.of_eq rfl rfl hwritten rfl rfl rfl fun _ => rfl
        · exact h.of_eq rfl rfl hwritten rfl (by simp) rfl id
      · exact h.of_eq rfl rfl hwritten rfl rfl rfl fun _ => rfl
    · exact hends
    · exact hwaits
  | taking lanes left =>
    simp only
    split
    · split
      · exact h.of_eq rfl rfl rfl rfl rfl rfl id
      · exact h.of_eq rfl rfl rfl rfl rfl rfl fun _ => rfl
    · split
      · exact h.of_eq rfl rfl rfl rfl rfl rfl id
      · exact hwaits
  | naming lanes left stream =>
    simp only
    split
    · split
      · exact h.of_eq rfl rfl rfl (by simp) rfl rfl id
      · exact h.of_eq rfl rfl rfl (by simp [replicaEnds]) rfl rfl fun _ => rfl
    · exact hwaits
  | up lanes => exact hwaits
  | down => exact h

end Replica

/-! ### Every run -/

/-- One action of the two programs, the network or a configuration. -/
theorem Agrees.step {s : Handshake} (h : s.Agrees) {act : Act} (hact : act.Honest) :
    (s.step act).Agrees := by
  have hgated := h.gated.step act
  have hends : s.replicaEnds.HostWrote := h.host.of_eq rfl rfl rfl rfl rfl rfl fun _ => rfl
  have hends' : s.hostEnds.ReplicaTook :=
    h.replica.of_eq rfl rfl rfl rfl (fun _ _ => rfl) fun _ => rfl
  cases act with
  | host =>
    exact ⟨hgated, h.host.hostStep, h.replica.hostStep h.opened, h.opened.hostStep h.host⟩
  | replica pick =>
    exact ⟨hgated, h.host.replicaStep pick, h.replica.replicaStep h.opened pick,
      h.opened.replicaStep h.replica pick⟩
  | arriveControl k =>
    simp only [Handshake.step] at hgated ⊢
    split
    · exact h
    · rename_i hopen
      rw [if_neg hopen] at hgated
      exact ⟨hgated, h.host.of_eq rfl rfl (by simp) rfl rfl rfl id,
        h.replica.of_eq rfl rfl rfl rfl (fun _ _ => rfl) id, h.opened.of_eq rfl rfl⟩
  | arriveReply k =>
    simp only [Handshake.step] at hgated ⊢
    split
    · exact h
    · rename_i hopen
      rw [if_neg hopen] at hgated
      exact ⟨hgated, h.host.of_eq rfl rfl rfl rfl (by simp) rfl id,
        h.replica.of_eq rfl rfl (by simp) rfl (fun _ _ => rfl) id, h.opened.of_eq rfl rfl⟩
  | arriveUni stream k =>
    simp only [Handshake.step] at hgated ⊢
    split
    · exact h
    · rename_i hopen
      rw [if_neg hopen] at hgated
      -- one stream has its bytes on; all carry what they carried
      have hget : ∀ i, (s.onUni stream (·.arrive k)).unis[i]? =
          if stream = i then (s.unis[i]?).map (·.arrive k) else s.unis[i]? := by
        intro i
        rw [onUni, List.getElem?_modify]
        split <;> simp
      refine ⟨hgated, h.host.of_eq rfl rfl rfl (by simp [onUni]) rfl rfl id,
        h.replica.of_eq rfl rfl rfl rfl (fun i _ => ?_) id, ?_⟩
      · -- what the replica has read of it does not change
        rw [hget]
        split
        · cases s.unis[i]? <;> rfl
        · rfl
      · refine ⟨fun i uni hi => ?_, fun i uni hi hfresh => ?_, ⟨h.opened.claimed.1, ?_⟩, ?_⟩
        · -- nor does what is written on it
          rw [hget] at hi
          split at hi
          · obtain ⟨uni', huni, rfl⟩ := Option.map_eq_some_iff.mp hi
            rw [ByteStream.written_arrive]
            exact h.opened.unis i uni' huni
          · exact h.opened.unis i uni hi
        · -- nor that a stream is fresh
          rw [hget] at hi
          split at hi
          · obtain ⟨uni', huni, rfl⟩ := Option.map_eq_some_iff.mp hi
            exact h.opened.fresh i uni' huni hfresh
          · exact h.opened.fresh i uni hi hfresh
        · simpa [onUni] using h.opened.claimed.2
        · simpa [onUni] using h.opened.count
  | lose =>
    exact ⟨hgated, h.host.of_eq rfl rfl rfl rfl rfl rfl fun _ => rfl,
      h.replica.of_eq rfl rfl rfl rfl (fun _ _ => rfl) fun _ => rfl, h.opened.of_eq rfl rfl⟩
  | hostGivesUp =>
    simp only [Handshake.step] at hgated ⊢
    split
    · exact h
    · rename_i hup
      rw [if_neg hup] at hgated
      exact ⟨hgated, h.host.ends hup, hends', h.opened.of_eq rfl rfl⟩
  | replicaGivesUp =>
    simp only [Handshake.step] at hgated ⊢
    split
    · exact h
    · rename_i hup
      rw [if_neg hup] at hgated
      exact ⟨hgated, hends, h.replica.ends hup, h.opened.of_eq rfl rfl⟩
  | setHostToken token =>
    exact ⟨hgated, h.host.of_eq rfl rfl rfl rfl rfl rfl id,
      h.replica.of_eq rfl rfl rfl rfl (fun _ _ => rfl) id, h.opened.of_eq rfl rfl⟩
  | setReplicaToken token =>
    exact ⟨hgated, h.host.of_eq rfl rfl rfl rfl rfl rfl id,
      h.replica.of_eq rfl rfl rfl rfl (fun _ _ => rfl) id, h.opened.of_eq rfl rfl⟩
  | writeControl | writeUni | openUni => exact hact.elim

/-- At the start neither end has done anything. -/
private theorem agrees_start (hostToken replicaToken : Token) :
    Agrees { hostToken := hostToken, replicaToken := replicaToken } where
  gated := gated_start hostToken replicaToken
  host := ⟨rfl, rfl, rfl, rfl, rfl⟩
  replica := ⟨rfl, rfl, rfl⟩
  opened := ⟨by simp, by simp, by simp, by simp⟩

/-- So it is in every run of the two programs. -/
private theorem agrees_run {hostToken replicaToken : Token} {acts : List Act}
    (hacts : ∀ act ∈ acts, act.Honest) : (run hostToken replicaToken acts).Agrees := by
  induction acts using List.reverseRecOn with
  | nil => exact agrees_start hostToken replicaToken
  | append_singleton acts act ih =>
    rw [run, List.foldl_append]
    exact (ih fun a ha => hacts a (by simp [ha])).step (hacts act (by simp))

/-- Once the replica has answered, what it compared is what the host sent. -/
private theorem Agrees.same_token {s : Handshake} (h : s.Agrees) (hpassed : s.Passed) :
    ∃ token, s.sent = some token ∧ s.compared = some token ∧ token.val.length ≤ maxLaneFrame := by
  obtain ⟨token, hcompared, hsize, htaken⟩ := h.gated.passed hpassed
  have hpre := s.control.taken_prefix
  rw [htaken] at hpre
  -- what the replica read is all that the host wrote
  have hwrote : ∀ sent : Token, s.sent = some sent →
      s.control.written = laneControl :: Wire.sendMsg sent.val → sent = token := by
    intro sent _ hwritten
    rw [hwritten, List.cons_prefix_cons] at hpre
    obtain ⟨rest, hrest⟩ := hpre.2
    exact Subtype.ext (ByteStream.framed_inj token.property sent.property hrest).1.symm
  have hlong : ¬ s.control.written <+: [laneControl] := by
    intro hshort
    have := (hpre.trans hshort).length_le
    simp [Wire.sendMsg] at this
  have hhost := h.host
  have hfrom : ∀ sent : Token, s.sent = some sent →
      s.control.written = laneControl :: Wire.sendMsg sent.val →
      ∃ token, s.sent = some token ∧ s.compared = some token ∧ token.val.length ≤ maxLaneFrame :=
    fun sent hsent hwritten =>
      ⟨token, hsent.trans (congrArg some (hwrote sent hsent hwritten)), hcompared, hsize⟩
  simp only [HostWrote] at hhost
  split at hhost
  · exact absurd (by rw [hhost.2.1]; simp) hlong
  · exact absurd (by rw [hhost.2.1]) hlong
  · obtain ⟨sent, hsent, hwritten, -⟩ := hhost
    exact hfrom sent hsent hwritten
  · obtain ⟨sent, hsent, hwritten, -⟩ := hhost
    exact hfrom sent hsent hwritten
  · obtain ⟨sent, hsent, hwritten, -⟩ := hhost
    exact hfrom sent hsent hwritten
  · obtain ⟨-, -, ⟨-, hshort⟩ | ⟨sent, hsent, hwritten⟩, -⟩ := hhost
    · exact absurd hshort hlong
    · exact hfrom sent hsent hwritten

/-- The host hears "ok" only from a replica that has answered. -/
private theorem Agrees.passed_of_up {s : Handshake} (h : s.Agrees) (hup : .peerUp ∈ s.hostCalls) :
    s.Passed := by
  -- only an answer that was read makes the host call
  have htaken : s.reply.taken = Wire.sendMsg okReply := by
    have hhost := h.host
    simp only [HostWrote] at hhost
    split at hhost
    · simp [hhost.2.2.2.2] at hup
    · simp [hhost.2.2.2.2] at hup
    · obtain ⟨-, -, -, -, -, hcalls⟩ := hhost
      simp [hcalls] at hup
    · obtain ⟨-, -, -, -, -, -, hcalls⟩ := hhost
      simp [hcalls] at hup
    · obtain ⟨-, -, -, -, hreply, -⟩ := hhost
      exact hreply
    · obtain ⟨-, -, -, hcalls | ⟨-, hreply⟩⟩ := hhost
      · simp [hcalls] at hup
      · exact hreply
  -- so the answer was written
  refine .inl fun hnil => ?_
  have hpre := s.reply.taken_prefix
  rw [hnil, htaken] at hpre
  simp [Wire.sendMsg, okReply, be32] at hpre

/-- Both ends report at most one session, and its end after it. -/
theorem Agrees.calls {s : Handshake} (h : s.Agrees) :
    s.hostCalls ∈ [[], [.peerUp], [.peerDown], [.peerUp, .peerDown]] ∧
      s.replicaCalls ∈ [[], [.peerUp], [.peerUp, .peerDown]] := by
  constructor
  · -- the host, by where it is
    have hhost := h.host
    simp only [HostWrote] at hhost
    split at hhost
    · simp [hhost.2.2.2.2]
    · simp [hhost.2.2.2.2]
    · obtain ⟨-, -, -, -, -, hcalls⟩ := hhost
      simp [hcalls]
    · obtain ⟨-, -, -, -, -, -, hcalls⟩ := hhost
      simp [hcalls]
    · obtain ⟨-, -, -, -, -, hcalls⟩ := hhost
      simp [hcalls]
    · obtain ⟨-, -, -, hcalls | ⟨hcalls, -⟩⟩ := hhost <;> simp [hcalls]
  · -- the replica, by where it is
    have hreplica := h.replica
    simp only [ReplicaTook] at hreplica
    split at hreplica
    · simp [hreplica.2.2]
    · simp [hreplica.2.2]
    · simp [hreplica.2.2]
    · simp [hreplica.2.2.2]
    · obtain ⟨-, -, -, -, -, hcalls, -⟩ := hreplica
      simp [hcalls]
    · simp [hreplica.2.2.2]
    · obtain ⟨-, ⟨hcalls, -⟩ | ⟨hcalls, -⟩⟩ := hreplica <;> simp [hcalls]

/-- Between the two programs, whatever is lost or given up and whenever a token is changed: where
    either end reports a peer, the token that the host sent is the one the replica compared it with;
    the replica's lanes are the streams that the host opened for them, in whatever order they came;
    and each end reports a peer at most once, and its end after it. -/
theorem run_agrees (hostToken replicaToken : Token) (acts : List Act)
    (hacts : ∀ act ∈ acts, act.Honest) :
    let s := run hostToken replicaToken acts
    (.peerUp ∈ s.hostCalls ∨ .peerUp ∈ s.replicaCalls →
      ∃ token, s.sent = some token ∧ s.compared = some token) ∧
    (∀ lanes, s.replica = .up lanes → lanes = ⟨some 0, some 1, some 2⟩) ∧
    (∀ i uni, s.unis[i]? = some uni → uni.written = [laneTag i]) ∧
    s.hostCalls ∈ [[], [.peerUp], [.peerDown], [.peerUp, .peerDown]] ∧
    s.replicaCalls ∈ [[], [.peerUp], [.peerUp, .peerDown]] := by
  intro s
  have h : s.Agrees := agrees_run hacts
  refine ⟨fun hup => ?_, fun lanes hlanes => ?_, h.opened.unis, h.calls⟩
  · -- a report of a peer: the hello was compared
    have hpassed : s.Passed := by
      rcases hup with hup | hup
      · exact h.passed_of_up hup
      · exact .inr (.inr (List.ne_nil_of_mem hup))
    obtain ⟨token, hsent, hcompared, -⟩ := h.same_token hpassed
    exact ⟨token, hsent, hcompared⟩
  · -- the lanes are the three, in their order
    have hreplica := h.replica
    rw [ReplicaTook, hlanes] at hreplica
    exact hreplica.1

/-- A session in which the token is changed when the host has sent it, and the lanes arrive out of
    order. -/
def changed : List Act :=
  [.host, .host, .arriveControl 6, .setHostToken ⟨[0x72], by decide⟩, .replica 0, .replica 0,
    .replica 0, .arriveReply 6, .host, .host, .host, .host, .host, .arriveUni 2 1, .replica 2,
    .replica 0, .arriveUni 0 1, .arriveUni 1 1, .replica 0, .replica 0, .replica 1, .replica 0,
    .replica 0]

/-- Both ends report a peer, with the token that was sent before it was changed. -/
theorem run_agrees_changed :
    let s := run ⟨[0x71], by decide⟩ ⟨[0x71], by decide⟩ changed
    (∃ token, s.sent = some token ∧ s.compared = some token) ∧
    ∀ lanes, s.replica = .up lanes → lanes = ⟨some 0, some 1, some 2⟩ := by
  have h := run_agrees ⟨[0x71], by decide⟩ ⟨[0x71], by decide⟩ changed
    (by simp [changed, Act.Honest])
  exact ⟨h.1 (.inr (by decide)), h.2.1⟩

/-! ## The verdict -/

/-- Nothing but the two programs and the network, which loses nothing. -/
def Act.Calm : Act → Prop
  | .host | .replica _ | .arriveControl _ | .arriveReply _ | .arriveUni _ _ => True
  | _ => False

/-- What the programs and the network do, nobody else does. -/
private theorem Act.Calm.honest {act : Act} (h : act.Calm) : act.Honest := by
  cases act with
  | writeControl | writeUni | openUni => exact h
  | _ => trivial

/-- The tokens are the same, and no longer than a frame. -/
def Matching (s : Handshake) : Prop :=
  s.hostToken = s.replicaToken ∧ s.hostToken.val.length ≤ maxLaneFrame

/-- Nothing was closed but for a token that does not match, and each end speaks of its own token. -/
structure Calm (s : Handshake) : Prop where
  closed : s.closed.isSome → ¬ s.Matching
  host : s.host = .down → s.closed.isSome
  replica : s.replica = .down → s.closed.isSome
  sent : ∀ token, s.sent = some token → token = s.hostToken
  compared : ∀ token, s.compared = some token → token = s.replicaToken

/-- Who has passed has a token that matches. -/
private theorem Agrees.matching {s : Handshake} (h : s.Agrees) (hcalm : s.Calm)
    (hpassed : s.Passed) :
    s.Matching := by
  obtain ⟨token, hsent, hcompared, hsize⟩ := h.same_token hpassed
  have hhost := hcalm.sent token hsent
  have hreplica := hcalm.compared token hcompared
  exact ⟨hhost.symm.trans hreplica, hhost ▸ hsize⟩

/-- How much is under way on a stream, and the word of it. -/
def streamLoad (s : ByteStream) : Nat := s.flight.length + if s.known then 0 else 1

/-- What is left for the host to do, with what it has still to write. -/
def hostLoad (s : Handshake) : Nat :=
  match s.host with
  | .opening => s.hostToken.val.length + 19
  | .tagged => s.hostToken.val.length + 17
  | .waiting => 12
  | .accepted opened => 2 + 3 * (3 - opened)
  | .up => 1
  | .down => 0

/-- What is left for the replica to do, with what it has still to write. -/
def replicaLoad (s : Handshake) : Nat :=
  match s.replica with
  | .accepting => 17
  | .tagging => 16
  | .reading => 15
  | .taking _ left => 2 + 2 * left
  | .naming _ left _ => 3 + 2 * left
  | .up _ => 1
  | .down => 0

def load (s : Handshake) : Nat :=
  s.hostLoad + s.replicaLoad + streamLoad s.control + streamLoad s.reply +
    (s.unis.map streamLoad).sum

/-- What is written is under way. -/
private theorem streamLoad_write (bytes : Wire.Bytes) (s : ByteStream) :
    streamLoad (s.write bytes) = streamLoad s + bytes.length := by
  simp only [streamLoad, ByteStream.write, List.length_append]
  exact Nat.add_right_comm ..

/-- Bytes that arrive are under way no more. -/
private theorem arrive_or (k : Nat) (s : ByteStream) :
    s.arrive k = s ∨ streamLoad (s.arrive k) < streamLoad s := by
  by_cases hknown : s.known
  · -- known already: something of it arrives, or nothing
    rcases Nat.eq_zero_or_pos (min k s.flight.length) with hzero | hpos
    · refine .inl ?_
      obtain ⟨known, flight, buffer, taken⟩ := s
      have htake : flight.take k = [] := by
        rw [← List.length_eq_zero_iff, List.length_take]
        exact hzero
      have hdrop : flight.drop k = flight := by
        have := List.take_append_drop k flight
        rwa [htake, List.nil_append] at this
      simp only at hknown
      simp [ByteStream.arrive, htake, hdrop, hknown]
    · refine .inr ?_
      simp only [streamLoad, ByteStream.arrive, hknown, List.length_drop, if_true]
      omega
  · -- not known before: now it is
    refine .inr ?_
    have hfirst : s.known = false := by simpa using hknown
    simp only [streamLoad, ByteStream.arrive, List.length_drop, hfirst, if_true,
      Bool.false_eq_true, if_false]
    omega

/-- What is read had arrived: nothing that is under way changes. -/
private theorem streamLoad_readByte {s s' : ByteStream} {b : UInt8}
    (h : s.readByte = some (b, s')) :
    streamLoad s' = streamLoad s := by
  obtain ⟨-, -, hflight, hknown⟩ := ByteStream.readByte_eq h
  rw [streamLoad, streamLoad, hflight, hknown]

/-- So it is with a frame. -/
private theorem streamLoad_readFramed {limit : Nat} {s s' : ByteStream} {payload : Wire.Bytes}
    (h : s.readFramed limit = .frame payload s') : streamLoad s' = streamLoad s := by
  obtain ⟨-, -, hflight, hknown⟩ := ByteStream.readFramed_eq h
  rw [streamLoad, streamLoad, hflight, hknown]

/-- An end that gives up has less to do. -/
private theorem load_hostEnds {s : Handshake} (hup : s.host ≠ .down) :
    s.hostEnds.load < s.load := by
  have hpos : 0 < s.hostLoad := by
    simp only [hostLoad]
    split
    all_goals first
      | omega
      | exact absurd ‹_› hup
  simp only [load, hostEnds, replicaLoad]
  simp only [hostLoad] at hpos ⊢
  omega

/-- The other one too. -/
private theorem load_replicaEnds {s : Handshake} (hup : s.replica ≠ .down) :
    s.replicaEnds.load < s.load := by
  have hpos : 0 < s.replicaLoad := by
    simp only [replicaLoad]
    split
    all_goals first
      | omega
      | exact absurd ‹_› hup
  simp only [load, replicaEnds, hostLoad]
  simp only [replicaLoad] at hpos ⊢
  omega

/-- A replica that waits changes nothing, or finds the connection closed and ends. -/
private theorem waits_or {s : Handshake} (hup : s.replica ≠ .down) :
    s.replicaWaits = s ∨ s.replicaWaits.load < s.load := by
  rw [replicaWaits]
  split
  · exact .inr (load_replicaEnds hup)
  · exact .inl rfl

/-- The host's next access, if there is one, leaves less to do. -/
theorem hostStep_or (s : Handshake) : s.hostStep = s ∨ s.hostStep.load < s.load := by
  simp only [Handshake.hostStep]
  cases hphase : s.host with
  | opening =>
    simp only [hostWrites]
    split
    · exact .inr (load_hostEnds (by simp [hphase]))
    · -- a byte less to write, which is under way now
      refine .inr ?_
      simp only [load, hostLoad, replicaLoad, hphase, streamLoad_write, List.length_singleton]
      omega
  | tagged =>
    simp only [hostWrites]
    split
    · exact .inr (load_hostEnds (by simp [hphase]))
    · -- the token and its length are under way now
      refine .inr ?_
      simp only [load, hostLoad, replicaLoad, hphase, streamLoad_write, Wire.sendMsg,
        List.length_append, length_be32]
      omega
  | waiting =>
    simp only
    split
    · rename_i payload reply hread
      have hreply := streamLoad_readFramed hread
      split
      · -- the reply is read: the lanes are left to do
        refine .inr ?_
        simp only [load, hostLoad, replicaLoad, hphase, hreply]
        omega
      · -- it ends, with nothing left to do
        refine .inr ?_
        have := load_hostEnds (s := { s with reply := reply }) (by simp [hphase])
        simp only [hphase] at this
        simp only [load, hostLoad, replicaLoad, hphase, hreply] at this ⊢
        exact this
    · exact .inr (load_hostEnds (by simp [hphase]))
    · split
      · exact .inr (load_hostEnds (by simp [hphase]))
      · exact .inl rfl
  | accepted opened =>
    simp only [hostWrites]
    split
    · split
      · exact .inr (load_hostEnds (by simp [hphase]))
      · refine .inr ?_
        -- a lane less to open; its tag is under way
        have hnew : streamLoad (ByteStream.write [laneTag opened] {}) = 2 := rfl
        simp only [load, hostLoad, replicaLoad, hphase, List.map_append, List.sum_append,
          List.map_cons, List.map_nil, List.sum_cons, List.sum_nil, hnew]
        omega
    · refine .inr ?_
      simp only [load, hostLoad, replicaLoad, hphase]
      omega
  | up =>
    simp only
    split
    · exact .inr (load_hostEnds (by simp [hphase]))
    · exact .inl rfl
  | down => exact .inl rfl

/-- The replica's next access, if there is one, leaves less to do. -/
private theorem replicaStep_or (s : Handshake) (pick : Nat) :
    s.replicaStep pick = s ∨ (s.replicaStep pick).load < s.load := by
  simp only [Handshake.replicaStep]
  cases hphase : s.replica with
  | accepting =>
    simp only
    split
    · -- a stream to take is one thing less
      refine .inr ?_
      simp only [load, hostLoad, replicaLoad, hphase]
      omega
    · exact waits_or (by simp [hphase])
  | tagging =>
    simp only
    split
    · rename_i tag control hread
      have hcontrol := streamLoad_readByte hread
      split
      · -- the tag is read, and the token is next
        refine .inr ?_
        simp only [load, hostLoad, replicaLoad, hphase, hcontrol]
        omega
      · refine .inr ?_
        simp only [load, hostLoad, replicaLoad, replicaEnds, hphase, hcontrol]
        omega
    · exact waits_or (by simp [hphase])
  | reading =>
    simp only
    split
    · rename_i token control hread
      have hcontrol := streamLoad_readFramed hread
      -- the reply is one frame of two bytes
      have hok : (Wire.sendMsg okReply).length = 6 := rfl
      refine .inr ?_
      split
      · split
        · simp only [load, hostLoad, replicaLoad, replicaEnds, hphase, hcontrol]
          omega
        · simp only [load, hostLoad, replicaLoad, hphase, hcontrol, streamLoad_write, hok]
          omega
      · simp only [load, hostLoad, replicaLoad, replicaEnds, hphase, hcontrol]
        omega
    · exact .inr (load_replicaEnds (by simp [hphase]))
    · exact waits_or (by simp [hphase])
  | taking lanes left =>
    simp only
    split
    · refine .inr ?_
      split
      all_goals
        simp only [load, hostLoad, replicaLoad, replicaEnds, hphase]
        omega
    · split
      · refine .inr ?_
        simp only [load, hostLoad, replicaLoad, hphase]
        omega
      · exact waits_or (by simp [hphase])
  | naming lanes left stream =>
    simp only
    split
    · rename_i tag uni' hread
      obtain ⟨uni, huni, hread⟩ := Option.bind_eq_some_iff.mp hread
      -- reading a tag leaves what is under way on the streams
      have hunis : ((s.unis.set stream uni').map streamLoad).sum = (s.unis.map streamLoad).sum := by
        obtain ⟨hlt, hget⟩ := List.getElem?_eq_some_iff.mp huni
        rw [List.map_set, streamLoad_readByte hread, ← hget]
        congr 1
        exact List.ext_getElem (by simp) fun i hi _ => by
          rw [List.getElem_set]
          split
          · rename_i heq
            subst heq
            simp
          · rfl
      refine .inr ?_
      split
      all_goals
        simp only [load, hostLoad, replicaLoad, replicaEnds, hphase, hunis]
        omega
    · exact waits_or (by simp [hphase])
  | up lanes => exact waits_or (by simp [hphase])
  | down => exact .inl rfl

/-- A calm action does nothing, or leaves less to do. -/
theorem step_or (s : Handshake) {act : Act} (hact : act.Calm) :
    s.step act = s ∨ (s.step act).load < s.load := by
  cases act with
  | host => exact s.hostStep_or
  | replica pick => exact s.replicaStep_or pick
  | arriveControl k =>
    simp only [Handshake.step]
    split
    · exact .inl rfl
    · refine (arrive_or k s.control).imp (fun heq => by rw [heq]) fun hlt => ?_
      simp only [load, hostLoad, replicaLoad]
      omega
  | arriveReply k =>
    simp only [Handshake.step]
    split
    · exact .inl rfl
    · refine (arrive_or k s.reply).imp (fun heq => by rw [heq]) fun hlt => ?_
      simp only [load, hostLoad, replicaLoad]
      omega
  | arriveUni stream k =>
    simp only [Handshake.step, onUni]
    split
    · exact .inl rfl
    · -- on one of the streams
      have hall : s.unis.modify stream (·.arrive k) = s.unis ∨
          weigh streamLoad (s.unis.modify stream (·.arrive k)) < weigh streamLoad s.unis :=
        modify_or_weigh (arrive_or k) s.unis stream
      refine hall.imp (fun heq => by rw [heq]) fun hlt => ?_
      simp only [load, hostLoad, replicaLoad, weigh] at hlt ⊢
      omega
  | _ => exact hact.elim

/-! ### Who ends a calm session -/

section Ends

variable {s : Handshake}

/-- What the host has written on the control lane, whatever it does now. -/
theorem HostWrote.control (h : s.HostWrote) :
    s.control.written <+: [laneControl] ∨ ∃ token, s.sent = some token ∧
      s.control.written = laneControl :: Wire.sendMsg token.val := by
  simp only [HostWrote] at h
  -- before the token was written
  split at h
  · exact .inl (by simp [h.2.1])
  · exact .inl (by simp [h.2.1])
  · -- after it
    obtain ⟨token, hsent, hwritten, -⟩ := h
    exact .inr ⟨token, hsent, hwritten⟩
  · obtain ⟨token, hsent, hwritten, -⟩ := h
    exact .inr ⟨token, hsent, hwritten⟩
  · obtain ⟨token, hsent, hwritten, -⟩ := h
    exact .inr ⟨token, hsent, hwritten⟩
  · -- at the end, whichever it was
    obtain ⟨-, -, ⟨-, hshort⟩ | hlong, -⟩ := h
    · exact .inl hshort
    · exact .inr hlong

/-- What the replica has written, whatever it does now. -/
theorem ReplicaTook.reply (h : s.ReplicaTook) :
    s.reply.written = [] ∨ s.reply.written = Wire.sendMsg okReply := by
  simp only [ReplicaTook] at h
  split at h
  · exact .inl h.2.1
  · exact .inl h.2.1
  · exact .inl h.2.1
  · exact .inr h.2.2.1
  · obtain ⟨-, -, -, -, hwritten, -⟩ := h
    exact .inr hwritten
  · exact .inr h.2.2.1
  · obtain ⟨-, ⟨-, hwritten⟩ | ⟨-, hwritten⟩⟩ := h
    · exact hwritten
    · exact .inr hwritten

/-- The host that waits reads "ok". -/
private theorem Agrees.reads_ok (h : s.Agrees) (hphase : s.host = .waiting) :
    s.reply.readFramed maxLaneFrame ≠ .tooLong ∧
      ∀ payload reply, s.reply.readFramed maxLaneFrame = .frame payload reply →
        payload = okReply := by
  have hhost := h.host
  rw [HostWrote, hphase] at hhost
  obtain ⟨-, -, -, -, htaken, -⟩ := hhost
  -- nothing of the reply was taken yet
  have hsplit : s.reply.buffer ++ s.reply.flight = s.reply.written := by
    rw [ByteStream.written, htaken, List.nil_append]
  have hreply := h.replica.reply
  constructor
  · intro hlong
    -- nothing was written, so no length can have been read
    rcases hreply with hnil | hok
    · rw [hnil, List.append_eq_nil_iff] at hsplit
      simp [ByteStream.readFramed, hsplit.1, readBe32] at hlong
    · -- "ok" is no long frame
      have := ByteStream.lt_of_readFramed_tooLong hlong (hsplit.trans hok) (by decide)
      simp [okReply, maxLaneFrame] at this
  · intro payload reply hread
    obtain ⟨hwritten, htaken', -, -⟩ := ByteStream.readFramed_eq hread
    have hpre := reply.taken_prefix
    rw [hwritten, htaken', htaken, List.nil_append] at hpre
    rcases hreply with hnil | hok
    · -- a frame is not read out of nothing
      rw [hnil] at hpre
      have := hpre.length_le
      simp [framed] at this
    · -- what was written is one frame, so what was read is that frame
      rw [hok] at hpre
      obtain ⟨rest, hrest⟩ := hpre
      have hlen := ByteStream.length_of_readFramed hread
      refine (ByteStream.framed_inj ?_ (by decide) hrest).1
      have : maxLaneFrame < UInt32.size := by decide
      omega

/-- The replica reads the tag of the control lane. -/
private theorem Agrees.reads_tag (h : s.Agrees) (hphase : s.replica = .tagging) {tag : UInt8}
    {control : ByteStream} (hread : s.control.readByte = some (tag, control)) :
    tag = laneControl := by
  have hgated := h.gated
  rw [Gated, hphase] at hgated
  obtain ⟨hwritten, htaken, -, -⟩ := ByteStream.readByte_eq hread
  have hpre := control.taken_prefix
  rw [hwritten, htaken, hgated.1, List.nil_append] at hpre
  rcases h.host.control with hshort | ⟨token, -, hlong⟩
  · exact (List.cons_prefix_cons.mp (hpre.trans hshort)).1
  · rw [hlong] at hpre
    exact (List.cons_prefix_cons.mp hpre).1

/-- The replica reads the token that the host sent, or no frame at all. -/
private theorem Agrees.reads_token (h : s.Agrees) (hphase : s.replica = .reading) :
    (s.control.readFramed maxLaneFrame = .tooLong →
      ∃ sent, s.sent = some sent ∧ maxLaneFrame < sent.val.length) ∧
    ∀ token control, s.control.readFramed maxLaneFrame = .frame token control →
      ∃ sent, s.sent = some sent ∧ token = sent.val := by
  have hgated := h.gated
  rw [Gated, hphase] at hgated
  obtain ⟨htaken, -⟩ := hgated
  -- only the tag was taken
  have hsplit : laneControl :: (s.control.buffer ++ s.control.flight) = s.control.written := by
    rw [ByteStream.written, htaken]
    rfl
  constructor
  · intro hlong
    -- the tag alone has been written, or the token behind it
    rcases h.host.control with hshort | ⟨sent, hsent, hwritten⟩
    · rw [← hsplit, List.cons_prefix_cons] at hshort
      have hnil := List.append_eq_nil_iff.mp (List.prefix_nil.mp hshort.2)
      simp [ByteStream.readFramed, hnil.1, readBe32] at hlong
    · rw [← hsplit, List.cons.injEq] at hwritten
      exact ⟨sent, hsent, ByteStream.lt_of_readFramed_tooLong hlong hwritten.2 sent.property⟩
  · intro token control hread
    obtain ⟨hwritten, htaken', -, -⟩ := ByteStream.readFramed_eq hread
    have hpre := control.taken_prefix
    rw [hwritten, htaken', htaken] at hpre
    -- a frame is not read out of the tag alone
    rcases h.host.control with hshort | ⟨sent, hsent, hlong⟩
    · have := (hpre.trans hshort).length_le
      simp [framed] at this
    · -- what was written is one frame, and so it is the one that was read
      rw [hlong] at hpre
      obtain ⟨rest, hrest⟩ := (List.cons_prefix_cons.mp hpre).2
      have hlen := ByteStream.length_of_readFramed hread
      have hsize : maxLaneFrame < UInt32.size := by decide
      exact ⟨sent, hsent, (ByteStream.framed_inj (by omega) sent.property hrest).1⟩

/-- The host closes nothing that was open. -/
theorem Calm.hostStep (h : s.Calm) (ha : s.Agrees) : s.hostStep.Calm := by
  have hends : s.closed.isSome → s.hostEnds.Calm := fun hclosed =>
    ⟨fun _ => h.closed hclosed, fun _ => rfl, fun _ => rfl, h.sent, h.compared⟩
  -- a write on an open connection succeeds
  have hwrites : ∀ s' : Handshake, (s.closed.isNone → s'.Calm) → (s.hostWrites s').Calm := by
    intro s' hopen
    rw [hostWrites]
    split
    · exact hends ‹_›
    · exact hopen (by simpa using ‹¬ s.closed.isSome›)
  simp only [Handshake.hostStep]
  cases hphase : s.host with
  | opening => exact hwrites _ fun _ => ⟨h.closed, by simp, h.replica, h.sent, h.compared⟩
  | tagged =>
    refine hwrites _ fun _ => ⟨h.closed, by simp, h.replica, ?_, h.compared⟩
    -- what is sent is the host's own token
    rintro token ⟨⟩
    rfl
  | waiting =>
    obtain ⟨hshort, hok⟩ := ha.reads_ok hphase
    simp only
    split
    · -- the host reads "ok" and goes on
      rename_i payload reply hread
      rw [if_pos (hok payload reply hread)]
      exact ⟨h.closed, by simp, h.replica, h.sent, h.compared⟩
    · rename_i hread
      exact absurd hread hshort
    · split
      · exact hends ‹_›
      · exact h
  | accepted opened =>
    simp only
    split
    · exact hwrites _ fun _ => ⟨h.closed, by simp, h.replica, h.sent, h.compared⟩
    · exact ⟨h.closed, by simp, h.replica, h.sent, h.compared⟩
  | up =>
    simp only
    split
    · exact hends ‹_›
    · exact h
  | down => exact h

/-- The replica closes what was open only on a token that does not match. -/
theorem Calm.replicaStep (h : s.Calm) (ha : s.Agrees) (pick : Nat) : (s.replicaStep pick).Calm := by
  have hends : (s.closed.isSome ∨ ¬ s.Matching) → s.replicaEnds.Calm := fun hclosed =>
    ⟨fun _ => hclosed.elim h.closed id, fun _ => rfl, fun _ => rfl, h.sent, h.compared⟩
  have hwaits : s.replicaWaits.Calm := by
    rw [replicaWaits]
    split
    · exact hends (.inl ‹_›)
    · exact h
  simp only [Handshake.replicaStep]
  cases hphase : s.replica with
  | accepting =>
    simp only
    split
    · exact ⟨h.closed, h.host, by simp, h.sent, h.compared⟩
    · exact hwaits
  | tagging =>
    simp only
    split
    · rename_i tag control hread
      rw [if_pos (ha.reads_tag hphase hread)]
      exact ⟨h.closed, h.host, by simp, h.sent, h.compared⟩
    · exact hwaits
  | reading =>
    obtain ⟨hlong, htoken⟩ := ha.reads_token hphase
    have hcompared : ∀ token, some s.replicaToken = some token → token = s.replicaToken := by
      rintro token ⟨⟩
      rfl
    simp only
    split
    · rename_i token control hread
      split
      · split
        · rename_i hclosed
          exact ⟨fun _ => h.closed hclosed, fun _ => rfl, fun _ => rfl, h.sent, hcompared⟩
        · exact ⟨h.closed, h.host, by simp, h.sent, hcompared⟩
      · -- the token that was read is the host's, and it is not the replica's
        rename_i hdiffer
        obtain ⟨sent, hsent, rfl⟩ := htoken token control hread
        have hnot : ¬ s.Matching := fun hmatch =>
          hdiffer ((tokensMatch_iff _ _).mpr (by rw [h.sent sent hsent, hmatch.1]))
        exact ⟨fun _ => hnot, fun _ => rfl, fun _ => rfl, h.sent, hcompared⟩
    · rename_i hread
      obtain ⟨sent, hsent, hlt⟩ := hlong hread
      refine hends (.inr fun hmatch => ?_)
      have := hmatch.2
      rw [← h.sent sent hsent] at this
      omega
    · exact hwaits
  | taking lanes left =>
    have hreplica := ha.replica
    rw [ReplicaTook, hphase] at hreplica
    simp only
    split
    · have hall := ha.opened.all_claimed (by omega)
      have hcomplete : TakenLanes.complete ⟨some 0, some 1, some 2⟩ = true := rfl
      rw [hreplica.1, hall, if_pos hcomplete]
      exact ⟨h.closed, h.host, by simp, h.sent, h.compared⟩
    · split
      · exact ⟨h.closed, h.host, by simp, h.sent, h.compared⟩
      · exact hwaits
  | naming lanes left stream =>
    have hreplica := ha.replica
    rw [ReplicaTook, hphase] at hreplica
    obtain ⟨earlier, hclaimed, hlanes, -, -, -, hfresh⟩ := hreplica
    simp only
    split
    · rename_i tag uni' hread
      obtain ⟨uni, huni, hread⟩ := Option.bind_eq_some_iff.mp hread
      have hlt : stream < 3 := by
        have := ha.opened.claimed.2 stream (by rw [hclaimed]; simp)
        have := ha.opened.count
        omega
      rw [ha.opened.tag_eq huni (hfresh uni huni) hread, hlanes, set_lanesOf hlt]
      exact ⟨h.closed, h.host, by simp, h.sent, h.compared⟩
    · exact hwaits
  | up lanes => exact hwaits
  | down => exact h

/-- One calm action. -/
theorem Calm.step (h : s.Calm) (ha : s.Agrees) {act : Act} (hact : act.Calm) :
    (s.step act).Calm := by
  cases act with
  | host => exact h.hostStep ha
  | replica pick => exact h.replicaStep ha pick
  -- bytes that arrive change neither end
  | arriveControl k =>
    simp only [Handshake.step]
    split
    · exact h
    · exact ⟨h.closed, h.host, h.replica, h.sent, h.compared⟩
  | arriveReply k =>
    simp only [Handshake.step]
    split
    · exact h
    · exact ⟨h.closed, h.host, h.replica, h.sent, h.compared⟩
  | arriveUni stream k =>
    simp only [Handshake.step]
    split
    · exact h
    · exact ⟨h.closed, h.host, h.replica, h.sent, h.compared⟩
  | _ => exact hact.elim

end Ends

/-! ### Coming to it -/

/-- A kind of action that a schedule comes back to. -/
inductive Kind where
  | host
  | replica (pick : Nat)
  | control
  | reply
  | uni (stream : Nat)

/-- The actions of a kind. What arrives is at least a byte, if there is one under way. -/
def Kind.Of : Kind → Act → Prop
  | .host, .host => True
  | .replica pick, .replica pick' => pick = pick'
  | .control, .arriveControl k => 0 < k
  | .reply, .arriveReply k => 0 < k
  | .uni stream, .arriveUni stream' k => stream = stream' ∧ 0 < k
  | _, _ => False

/-- A schedule of calm actions that comes back to every kind. -/
structure Fair (acts : Nat → Act) : Prop where
  calm : ∀ k, (acts k).Calm
  again : ∀ (kind : Kind) (k : Nat), ∃ m, k ≤ m ∧ kind.Of (acts m)

/-- Both ends are in their lanes, or both have returned. -/
def Done (s : Handshake) : Prop :=
  s.host = .up ∧ (∃ lanes, s.replica = .up lanes) ∨ s.host = .down ∧ s.replica = .down

section Moves

variable {s : Handshake}

/-- Where the host can go on, its next access brings the verdict nearer. -/
private theorem host_falls (h : s.hostStep.host ≠ s.host) {act : Act} (hact : Kind.host.Of act) :
    (s.step act).load < s.load := by
  cases act with
  | host => exact s.hostStep_or.resolve_left fun heq => h (congrArg Handshake.host heq)
  | _ => exact hact.elim

/-- Where the replica can, so does its next access. -/
private theorem replica_falls {pick : Nat} (h : (s.replicaStep pick).replica ≠ s.replica)
    {act : Act}
    (hact : (Kind.replica pick).Of act) : (s.step act).load < s.load := by
  cases act with
  | replica pick' =>
    obtain rfl : pick = pick' := hact
    exact (s.replicaStep_or pick).resolve_left fun heq => h (congrArg Handshake.replica heq)
  | _ => exact hact.elim

/-- What waits on a stream arrives. -/
private theorem arrive_ne {s : ByteStream} (h : s.flight ≠ [] ∨ s.known = false) {k : Nat}
    (hk : 0 < k) :
    s.arrive k ≠ s := by
  intro heq
  rcases h with hflight | hknown
  · have hlen := congrArg (fun s : ByteStream => s.flight.length) heq
    have := List.length_pos_iff.mpr hflight
    simp only [ByteStream.arrive, List.length_drop] at hlen
    omega
  · have := congrArg ByteStream.known heq
    simp [ByteStream.arrive, hknown] at this

/-- Bytes of the control lane that are under way arrive, or the first word of it does. -/
private theorem control_falls (hopen : s.closed = none) (hwritten : s.control.written ≠ [])
    (h : s.control.flight ≠ [] ∨ s.control.known = false) {act : Act}
    (hact : Kind.control.Of act) : (s.step act).load < s.load := by
  cases act with
  | arriveControl k =>
    refine (s.step_or (show (Act.arriveControl k).Calm from trivial)).resolve_left fun heq => ?_
    have := congrArg Handshake.control heq
    rw [Handshake.step, if_neg (by simp [hopen, hwritten])] at this
    exact arrive_ne h hact this
  | _ => exact hact.elim

/-- So it is with the reply. -/
private theorem reply_falls (hopen : s.closed = none)
    (h : s.reply.flight ≠ [] ∨ s.reply.known = false)
    {act : Act} (hact : Kind.reply.Of act) : (s.step act).load < s.load := by
  cases act with
  | arriveReply k =>
    refine (s.step_or (show (Act.arriveReply k).Calm from trivial)).resolve_left fun heq => ?_
    have := congrArg Handshake.reply heq
    rw [Handshake.step, if_neg (by simp [hopen])] at this
    exact arrive_ne h hact this
  | _ => exact hact.elim

/-- And with each lane. -/
private theorem uni_falls (hopen : s.closed = none) {stream : Nat} {uni : ByteStream}
    (huni : s.unis[stream]? = some uni) (h : uni.flight ≠ [] ∨ uni.known = false) {act : Act}
    (hact : (Kind.uni stream).Of act) : (s.step act).load < s.load := by
  cases act with
  | arriveUni stream' k =>
    obtain ⟨rfl, hk⟩ : stream = stream' ∧ 0 < k := hact
    refine (s.step_or (show (Act.arriveUni stream k).Calm from trivial)).resolve_left fun heq => ?_
    have := congrArg (fun s : Handshake => s.unis[stream]?) heq
    simp only [Handshake.step, hopen, Option.isSome_none, Bool.false_eq_true, if_false, onUni,
      List.getElem?_modify, if_true, huni] at this
    exact arrive_ne h hk (Option.some.inj this)
  | _ => exact hact.elim

/-- On a closed connection the host does not stay where it is. -/
private theorem host_leaves (hclosed : s.closed.isSome) (hup : s.host ≠ .down) :
    s.hostStep.host ≠ s.host := by
  simp only [Handshake.hostStep]
  cases hphase : s.host with
  | opening => simp [hostWrites, hclosed, hostEnds]
  | tagged => simp [hostWrites, hclosed, hostEnds]
  | waiting =>
    simp only [hclosed, if_true]
    repeat' split
    all_goals simp [hostEnds]
  | accepted opened =>
    simp only [hostWrites, hclosed, if_true]
    split <;> simp [hostEnds]
  | up => simp [hclosed, hostEnds]
  | down => exact absurd hphase hup

/-- On a closed connection the replica does not stay where it is. -/
private theorem replica_leaves (hclosed : s.closed.isSome) (hup : s.replica ≠ .down) (pick : Nat) :
    (s.replicaStep pick).replica ≠ s.replica := by
  -- a wait on a closed connection ends
  have hwaits : s.replicaWaits.replica = .down := by
    rw [replicaWaits, if_pos hclosed]
    rfl
  simp only [Handshake.replicaStep]
  cases hphase : s.replica with
  | accepting =>
    simp only
    split
    · simp
    · rw [hwaits]; simp
  | tagging =>
    simp only
    repeat' split
    all_goals simp [replicaEnds, hwaits]
  | reading =>
    simp only
    repeat' split
    all_goals simp [replicaEnds, hwaits]
  | taking lanes left =>
    simp only
    repeat' split
    all_goals simp [replicaEnds, hwaits]
  | naming lanes left stream =>
    simp only
    repeat' split
    all_goals simp [replicaEnds, hwaits]
  | up lanes =>
    simp only
    rw [hwaits]
    simp
  | down => exact absurd hphase hup

/-- A host in its lanes: the replica takes the next lane, or it is still under way. -/
private theorem Agrees.exists_kind_up (h : s.Agrees) (hopen : s.closed = none)
    (hphase : s.host = .up)
    (hup : s.replica ≠ .down) (hdone : ¬ s.Done) :
    ∃ kind : Kind, ∀ act, kind.Of act → (s.step act).load < s.load := by
  have hhost := h.host
  rw [HostWrote, hphase] at hhost
  obtain ⟨-, -, -, hcount, htaken, -⟩ := hhost
  have hanswered : s.reply.written ≠ [] := by
    intro hnil
    have hpre := s.reply.taken_prefix
    rw [hnil, htaken] at hpre
    simp [Wire.sendMsg, okReply, be32] at hpre
  have hreplica := h.replica
  cases hserve : s.replica with
  | accepting =>
    rw [ReplicaTook, hserve] at hreplica
    exact absurd hreplica.2.1 hanswered
  | tagging =>
    rw [ReplicaTook, hserve] at hreplica
    exact absurd hreplica.2.1 hanswered
  | reading =>
    rw [ReplicaTook, hserve] at hreplica
    exact absurd hreplica.2.1 hanswered
  | taking lanes left =>
    rw [ReplicaTook, hserve] at hreplica
    rcases Nat.eq_zero_or_pos left with hzero | hpos
    · refine ⟨.replica 0, fun act => replica_falls ?_⟩
      simp only [Handshake.replicaStep, hserve, hzero, if_true]
      split <;> simp [replicaEnds]
    · -- fewer than three are taken, so one of the three is not
      obtain ⟨i, hi, hnot⟩ : ∃ i < 3, i ∉ s.claimed := by
        by_contra hall
        push Not at hall
        have hsub : (List.range 3).Subperm s.claimed :=
          List.nodup_range.subperm fun i hi => hall i (List.mem_range.mp hi)
        have := hsub.length_le
        rw [List.length_range] at this
        omega
      obtain ⟨uni, huni⟩ : ∃ uni, s.unis[i]? = some uni :=
        ⟨s.unis[i], List.getElem?_eq_getElem (by omega)⟩
      by_cases hknown : uni.known
      · refine ⟨.replica i, fun act => replica_falls ?_⟩
        have hmay : s.mayTake i = true := by simp [mayTake, huni, hknown, hnot]
        simp only [Handshake.replicaStep, hserve]
        rw [if_neg (by omega), if_pos hmay]
        simp
      · exact ⟨.uni i, fun act => uni_falls hopen huni (.inr (by simpa using hknown))⟩
  | naming lanes left stream =>
    rw [ReplicaTook, hserve] at hreplica
    obtain ⟨earlier, hclaimed, -, -, -, -, hfresh⟩ := hreplica
    have hlt := h.opened.claimed.2 stream (by rw [hclaimed]; simp)
    obtain ⟨uni, huni⟩ : ∃ uni, s.unis[stream]? = some uni :=
      ⟨s.unis[stream], List.getElem?_eq_getElem hlt⟩
    by_cases hflight : uni.flight = []
    · refine ⟨.replica 0, fun act => replica_falls ?_⟩
      have hbuf : uni.buffer = [laneTag stream] := by
        rw [← h.opened.unis stream uni huni, ByteStream.written, hfresh uni huni, hflight]
        simp
      simp only [Handshake.replicaStep, hserve, huni, Option.bind_some, ByteStream.readByte, hbuf]
      split <;> simp [replicaEnds]
    · exact ⟨.uni stream, fun act => uni_falls hopen huni (.inl hflight)⟩
  | up lanes => exact absurd (.inl ⟨hphase, lanes, hserve⟩) hdone
  | down => exact absurd hserve hup

/-- A host that waits: its token or the answer is under way, or one of the two ends reads it. -/
private theorem Agrees.exists_kind_waiting (h : s.Agrees) (hopen : s.closed = none)
    (hphase : s.host = .waiting) (hup : s.replica ≠ .down) :
    ∃ kind : Kind, ∀ act, kind.Of act → (s.step act).load < s.load := by
  have hhost := h.host
  rw [HostWrote, hphase] at hhost
  obtain ⟨token, -, hwritten, -, htaken, -⟩ := hhost
  -- the reply is on its way, or all that was written of it has arrived
  by_cases hflight : s.reply.flight = []
  · have hbuf : s.reply.buffer = s.reply.written := by
      rw [ByteStream.written, htaken, hflight]
      simp
    rcases h.replica.reply with hnil | hok
    · -- nothing is written of the reply: the replica is still before it
      have hreplica := h.replica
      have hcontrol : s.control.written ≠ [] := by simp [hwritten]
      have hnot : s.reply.written ≠ Wire.sendMsg okReply := by
        rw [hnil]
        simp [Wire.sendMsg, okReply, be32]
      cases hserve : s.replica with
      | accepting =>
        by_cases hknown : s.control.known
        · refine ⟨.replica 0, fun act => replica_falls ?_⟩
          simp [Handshake.replicaStep, hserve, hknown]
        · exact ⟨.control, fun act => control_falls hopen hcontrol (.inr (by simpa using hknown))⟩
      | tagging =>
        have hgated := h.gated
        rw [Gated, hserve] at hgated
        by_cases hunder : s.control.flight = []
        · refine ⟨.replica 0, fun act => replica_falls ?_⟩
          have hbuf : s.control.buffer = laneControl :: Wire.sendMsg token.val := by
            rw [← hwritten, ByteStream.written, hgated.1, hunder]
            simp
          simp only [Handshake.replicaStep, hserve, ByteStream.readByte, hbuf]
          split <;> simp [replicaEnds]
        · exact ⟨.control, fun act => control_falls hopen hcontrol (.inl hunder)⟩
      | reading =>
        have hgated := h.gated
        rw [Gated, hserve] at hgated
        by_cases hunder : s.control.flight = []
        · refine ⟨.replica 0, fun act => replica_falls ?_⟩
          have hbuf : s.control.buffer = framed token.val ++ [] := by
            have hall : laneControl :: s.control.buffer = s.control.written := by
              rw [ByteStream.written, hgated.1, hunder]
              simp
            rw [hwritten, List.cons.injEq] at hall
            rw [hall.2, List.append_nil]
            rfl
          simp only [Handshake.replicaStep, hserve]
          rcases Nat.lt_or_ge maxLaneFrame token.val.length with hlong | hfits
          · rw [ByteStream.readFramed_long hbuf hlong token.property]
            simp [replicaEnds]
          · rw [ByteStream.readFramed_framed hbuf hfits token.property]
            simp only
            repeat' split
            all_goals simp [replicaEnds]
        · exact ⟨.control, fun act => control_falls hopen hcontrol (.inl hunder)⟩
      | taking lanes left =>
        rw [ReplicaTook, hserve] at hreplica
        exact absurd hreplica.2.2.1 hnot
      | naming lanes left stream =>
        rw [ReplicaTook, hserve] at hreplica
        obtain ⟨-, -, -, -, hok, -⟩ := hreplica
        exact absurd hok hnot
      | up lanes =>
        rw [ReplicaTook, hserve] at hreplica
        exact absurd hreplica.2.2.1 hnot
      | down => exact absurd hserve hup
    · -- it is written and has arrived, so the host reads it
      refine ⟨.host, fun act => host_falls ?_⟩
      have hall : s.reply.buffer = framed okReply ++ [] := by
        rw [hbuf, hok, List.append_nil]
        rfl
      have hfits : okReply.length ≤ maxLaneFrame := by decide
      simp only [Handshake.hostStep, hphase, ByteStream.readFramed_framed hall hfits (by decide),
        if_true]
      simp
  · exact ⟨.reply, fun act => reply_falls hopen (.inl hflight)⟩

/-- Where a session is not done, some kind of action brings it on. -/
private theorem Agrees.exists_kind (h : s.Agrees) (hcalm : s.Calm) (hdone : ¬ s.Done) :
    ∃ kind : Kind, ∀ act, kind.Of act → (s.step act).load < s.load := by
  by_cases hclosed : s.closed.isSome
  · -- after a close both ends only leave
    by_cases hhost : s.host = .down
    · have hup : s.replica ≠ .down := fun hreplica => hdone (.inr ⟨hhost, hreplica⟩)
      exact ⟨.replica 0, fun act => replica_falls (replica_leaves hclosed hup 0)⟩
    · exact ⟨.host, fun act => host_falls (host_leaves hclosed hhost)⟩
  · have hopen : s.closed = none := by simpa using hclosed
    have hup : s.replica ≠ .down := fun hreplica => hclosed (hcalm.replica hreplica)
    cases hphase : s.host with
    | opening =>
      exact ⟨.host, fun act => host_falls (by simp [Handshake.hostStep, hphase, hostWrites, hopen])⟩
    | tagged =>
      exact ⟨.host, fun act => host_falls (by simp [Handshake.hostStep, hphase, hostWrites, hopen])⟩
    | waiting => exact h.exists_kind_waiting hopen hphase hup
    | accepted opened =>
      refine ⟨.host, fun act => host_falls ?_⟩
      simp only [Handshake.hostStep, hphase, hostWrites, hopen]
      split <;> simp
    | up => exact h.exists_kind_up hopen hphase hup hdone
    | down => exact absurd (hcalm.host hphase) hclosed

end Moves

/-- A connection after `k` of its actions. -/
def after (hostToken replicaToken : Token) (acts : Nat → Act) : Nat → Handshake :=
  scheduled step { hostToken := hostToken, replicaToken := replicaToken } acts

/-- The tokens stay as they are while nobody configures. -/
private theorem tokens_step (s : Handshake) {act : Act} (hact : act.Calm) :
    (s.step act).hostToken = s.hostToken ∧ (s.step act).replicaToken = s.replicaToken := by
  cases act with
  | host =>
    simp only [Handshake.step, hostStep, hostWrites, hostEnds]
    repeat' split
    all_goals exact ⟨rfl, rfl⟩
  | replica pick =>
    simp only [Handshake.step, replicaStep, replicaWaits, replicaEnds]
    repeat' split
    all_goals exact ⟨rfl, rfl⟩
  | arriveControl | arriveReply | arriveUni =>
    simp only [Handshake.step]
    split <;> exact ⟨rfl, rfl⟩
  | _ => exact hact.elim

/-- What holds at every moment of a calm session. -/
private theorem calm_after (hostToken replicaToken : Token) {acts : Nat → Act}
    (hcalm : ∀ k, (acts k).Calm) (k : Nat) :
    let s := after hostToken replicaToken acts k
    s.Agrees ∧ s.Calm ∧ s.hostToken = hostToken ∧ s.replicaToken = replicaToken := by
  refine scheduled_invariant (I := fun s : Handshake =>
    s.Agrees ∧ s.Calm ∧ s.hostToken = hostToken ∧ s.replicaToken = replicaToken)
    (P := Act.Calm) ?_ ?_ hcalm k
  · rintro s act ⟨hagrees, hc, hhost, hreplica⟩ hact
    obtain ⟨hhost', hreplica'⟩ := s.tokens_step hact
    exact ⟨hagrees.step hact.honest, hc.step hagrees hact, hhost'.trans hhost,
      hreplica'.trans hreplica⟩
  · exact ⟨agrees_start hostToken replicaToken, ⟨by simp, by simp, by simp, by simp, by simp⟩,
      rfl, rfl⟩

/-- Both ends are in their lanes and have reported their peer. -/
def Accepted (s : Handshake) : Prop :=
  s.host = .up ∧ s.replica = .up ⟨some 0, some 1, some 2⟩ ∧ s.hostCalls = [.peerUp] ∧
    s.replicaCalls = [.peerUp]

/-- Both ends have returned; the host has reported no peer but the failure, the replica nothing. -/
def Refused (s : Handshake) : Prop :=
  s.host = .down ∧ s.replica = .down ∧ s.hostCalls = [.peerDown] ∧ s.replicaCalls = []

/-- A session that is done stays done. -/
theorem Done.step {s : Handshake} (h : s.Done) (ha : s.Agrees) (hcalm : s.Calm) {act : Act}
    (hact : act.Calm) : (s.step act).Done := by
  have hsame : (s.step act).host = s.host ∧ (s.step act).replica = s.replica := by
    rcases h with ⟨hup, lanes, hserve⟩ | ⟨hdown, hserve⟩
    · -- the host has its lanes, so the tokens match and nothing was closed
      have hhost := ha.host
      rw [HostWrote, hup] at hhost
      obtain ⟨-, -, -, -, -, hcalls⟩ := hhost
      have hmatch := ha.matching hcalm (ha.passed_of_up (by simp [hcalls]))
      have hopen : s.closed = none := by
        by_contra hclosed
        exact hcalm.closed (Option.isSome_iff_ne_none.mpr hclosed) hmatch
      cases act with
      | host => simp [Handshake.step, Handshake.hostStep, hup, hopen]
      | replica pick => simp [Handshake.step, Handshake.replicaStep, replicaWaits, hserve, hopen]
      | arriveControl | arriveReply | arriveUni =>
        simp only [Handshake.step]
        split <;> exact ⟨rfl, rfl⟩
      | _ => exact hact.elim
    · cases act with
      | host => simp [Handshake.step, Handshake.hostStep, hdown]
      | replica pick => simp [Handshake.step, Handshake.replicaStep, hserve]
      | arriveControl | arriveReply | arriveUni =>
        simp only [Handshake.step]
        split <;> exact ⟨rfl, rfl⟩
      | _ => exact hact.elim
  rw [Done, hsame.1, hsame.2]
  exact h

/-- What a session is that is done. -/
theorem Agrees.verdict {s : Handshake} (h : s.Agrees) (hcalm : s.Calm) (hdone : s.Done) :
    (s.Matching → s.Accepted) ∧ (¬ s.Matching → s.Refused) := by
  have hhost := h.host
  have hreplica := h.replica
  rcases hdone with ⟨hup, lanes, hserve⟩ | ⟨hdown, hserve⟩
  · -- both ends are up: the replica has compared the two tokens
    rw [HostWrote, hup] at hhost
    rw [ReplicaTook, hserve] at hreplica
    obtain ⟨-, -, -, -, -, hcalls⟩ := hhost
    refine ⟨fun _ => ⟨hup, hreplica.1 ▸ hserve, hcalls, hreplica.2.2.2⟩, fun hnot => ?_⟩
    exact absurd (h.matching hcalm (h.passed_of_up (by simp [hcalls]))) hnot
  · -- one of them is down, so they are not the same
    have hclosed := hcalm.host hdown
    refine ⟨fun hmatch => absurd hmatch (hcalm.closed hclosed), fun hnot => ?_⟩
    have hpassed : ¬ s.Passed := fun hp => hnot (h.matching hcalm hp)
    rw [HostWrote, hdown] at hhost
    refine ⟨hdown, hserve, ?_, ?_⟩
    · obtain ⟨-, -, -, hcalls | ⟨hcalls, -⟩⟩ := hhost
      · exact hcalls
      · exact absurd (h.passed_of_up (by simp [hcalls])) hpassed
    · by_contra hcalls
      exact hpassed (.inr (.inr hcalls))

/-- Where nothing breaks the connection or gives it up, and every stream, both ends and the network
    have their turns again and again, the session comes to its verdict and stays there: both ends
    accept if the tokens are the same and fit a frame, and otherwise no end ever reports a peer. -/
theorem comes_to_verdict (hostToken replicaToken : Token) (acts : Nat → Act) (hfair : Fair acts) :
    ∃ N, ∀ k, N ≤ k →
      if hostToken = replicaToken ∧ hostToken.val.length ≤ maxLaneFrame then
        (after hostToken replicaToken acts k).Accepted
      else (after hostToken replicaToken acts k).Refused := by
  -- the schedule is fair: every kind of action comes again
  have hinv := calm_after hostToken replicaToken hfair.calm
  obtain ⟨N, -, hdone⟩ := exists_scheduled_done step _ (f := load) (D := Done) hfair.again
    (fun k => step_or (after hostToken replicaToken acts k) (hfair.calm k))
    (fun k hnot => (hinv k).1.exists_kind (hinv k).2.1 hnot) 0
  refine ⟨N, fun k hk => ?_⟩
  -- done once, done for good
  have hstays : (after hostToken replicaToken acts k).Done := by
    induction k, hk using Nat.le_induction with
    | base => exact hdone
    | succ k hk ih => exact Done.step ih (hinv k).1 (hinv k).2.1 (hfair.calm k)
  obtain ⟨hagrees, hcalm, hhost, hreplica⟩ := hinv k
  obtain ⟨haccept, hrefuse⟩ := hagrees.verdict hcalm hstays
  rw [Matching, hhost, hreplica] at haccept hrefuse
  split
  · exact haccept ‹_›
  · exact hrefuse ‹_›

/-- A schedule that comes back to every kind of action. -/
def everyKind (k : Nat) : Act :=
  match k.unpair.1 with
  | 0 => .host
  | 1 => .arriveControl 1
  | 2 => .arriveReply 1
  | n + 3 => if n % 2 = 0 then .replica (n / 2) else .arriveUni (n / 2) 1

/-- Every kind of action in turn leaves none out. -/
private theorem fair_everyKind : Fair everyKind where
  calm k := by
    simp only [everyKind]
    split
    · trivial
    · trivial
    · trivial
    · split <;> trivial
  again kind k := by
    -- the pairing of numbers meets every number again and again
    have hpair : ∀ n : Nat, k ≤ n.pair k := fun n => Nat.right_le_pair n k
    cases kind with
    | host => exact ⟨_, hpair 0, by simp [everyKind, Kind.Of]⟩
    | control => exact ⟨_, hpair 1, by simp [everyKind, Kind.Of]⟩
    | reply => exact ⟨_, hpair 2, by simp [everyKind, Kind.Of]⟩
    | replica pick => exact ⟨_, hpair (2 * pick + 3), by simp [everyKind, Kind.Of]⟩
    | uni stream =>
      refine ⟨_, hpair (2 * stream + 1 + 3), ?_⟩
      have hodd : (2 * stream + 1) % 2 = 1 := by omega
      have hhalf : (2 * stream + 1) / 2 = stream := by omega
      simp [everyKind, hodd, hhalf, Kind.Of]

/-- With the same token on both ends they come to accept each other. -/
theorem comes_to_verdict_everyKind :
    ∃ N, ∀ k, N ≤ k → (after ⟨[0x71], by decide⟩ ⟨[0x71], by decide⟩ everyKind k).Accepted := by
  have h := comes_to_verdict ⟨[0x71], by decide⟩ ⟨[0x71], by decide⟩ everyKind fair_everyKind
  simpa [maxLaneFrame] using h

end Handshake

end QCBridge.Agent
