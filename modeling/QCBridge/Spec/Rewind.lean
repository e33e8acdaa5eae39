import QCBridge.Spec.Carriers
import QCBridge.Spec.Completed

/-!
# Blobs and the edits sent after them

A blob shows its datablocks as they were when it was serialized. An edit of one
of them that is sent later must be handled later, or the blob takes the datablock
back. The replica applies a blob before every fast message that names the blob's
seq or a later one; what a message names is its own datablock's last blob, and
nobody asks for the blobs in which the datablock rode along.

## Key results

- `NeverRewound`: the order in which a datablock's messages and blobs have landed
- `never_rewound`: it is the host's when each message follows the blobs that show it
-/

namespace QCBridge

variable {V δ : Type}

/-! ## What is there -/

/-- After any run the datablocks are those that the log says are there. -/
private theorem live_run (scene : Scene V) (c0 f0 : Nat) (cold fast : List (Msg (Entry V) V δ))
    (acts : List Node.Act) (u : Uuid) :
    let r := (Node.run (.keyed V δ) (Node.start scene c0 f0 cold fast) acts).replica
    (Received.ofLog scene r.log).live u = r.data.scene.live u := by
  have hrun := foldl_invariant (f := Node.step (.keyed V δ))
    (I := fun n => ∃ replaced, n.replica.AtShown scene replaced) (fun n a h => ?_)
    (s := Node.start scene c0 f0 cold fast) acts
    ⟨[], fun _ => rfl, fun u p _ => rfl, fun u p v hv => (by cases hv),
      fun u c p v _ _ hv => by cases hv⟩
  · -- what the invariant says of the end
    obtain ⟨replaced, h⟩ := hrun
    exact h.live u
  · -- a step keeps it
    obtain ⟨replaced, h⟩ := h
    cases a with
    -- a turn: the message that it takes is handled
    | turn kf kc =>
      simp only [Node.step]
      cases htake : n.take kf kc with
      | mk n' out =>
        cases out with
        | none => exact ⟨replaced, Node.take_none htake ▸ h⟩
        | some m =>
          obtain ⟨-, hdata, hlog, -, -⟩ := Node.take_some htake
          have h' : n'.replica.AtShown scene replaced := by
            rw [Replica.AtShown, hdata, hlog]
            exact h
          exact ⟨replaced, (Replica.atShown_carries scene replaced).handle h' m⟩
    -- a batch: what it loads is put back where it replaced
    | batch budget =>
      obtain ⟨hloop, -, -⟩ := h.batchLoop budget n.replica.pending 0 [] []
      have hback := (AtAgrees.foldl_reapplyAtState hloop
        (Replica.batchLoop (.keyed V δ) budget n.replica.pending 0 n.replica [] []).2.1).1
      generalize List.filter _ _ = left at hback
      simp only [Node.step, Replica.applyPendingBatch]
      refine ⟨left, (Replica.atShown_carries scene left).release
        (J := fun d log => AtAgrees left d _) ?_ _⟩
      exact AtAgrees.of_eq hback rfl rfl

/-- What is there stays there until a tombstone or a bootstrap takes it. -/
private theorem Received.live_foldl {s : Received V} {u : Uuid} (h : s.live u = true)
    {log : List (Ev (Entry V) V δ)} (hboot : ∀ e, Ev.applied e ∈ log → e.isBoot = false)
    (htomb : ∀ m, Ev.dispatched m ∈ log → m.header.kind = .tomb → m.header.uuid ≠ u) :
    (log.foldl Received.step s).live u = true := by
  -- the induction is on the log
  induction log generalizing s with
  | nil => exact h
  | cons ev log ih =>
    refine ih ?_ (fun e he => hboot e (by simp [he])) fun m hm => htomb m (by simp [hm])
    cases ev with
    | dispatched m =>
      cases hk : m.header.kind
      -- a message writes values, and takes no datablock
      case t1 =>
        simp only [Received.step, hk]
        split
        · have hfold : ∀ (cs : List (Path × V)) (s : Received V),
              (cs.foldl (fun s c => s.write m.header.uuid c) s).live = s.live := by
            intro cs
            induction cs with
            | nil => exact fun _ => rfl
            | cons c cs ih => exact fun s => ih (s.write m.header.uuid c)
          rw [hfold]
          exact h
        · exact h
      -- a tombstone is of another datablock
      case tomb =>
        have hne := htomb m (by simp) hk
        simp [Received.step, hk, h, Ne.symm hne]
      all_goals simpa [Received.step, hk] using h
    -- a blob is no bootstrap
    | applied e => simp [Received.step, hboot e (by simp), h]
    | _ => exact h

/-! ## Runs -/

/-- The blob that was applied is one that was last cut before `m` was sent. -/
def Pending.CutBefore (e : Pending (Entry V) δ) (l : Ledger (Entry V) V δ)
    (m : Msg (Entry V) V δ) : Prop :=
  ∃ id, e.header.blob.map Chunk.id = some id ∧ QCBridge.CutBefore l.log id e.blob m

/-- Messages and blobs of `u` have landed in the order in which the host had it: after a
    message no blob is applied that shows `u` as it was before, and until a later blob
    or a bootstrap brings `u` the message stands. A datablock that a blob brought is there
    until a tombstone or a bootstrap takes it. -/
structure NeverRewound (u : Uuid) (l : Ledger (Entry V) V δ)
    (n : Node (Entry V) V δ (Scene V)) : Prop where
  order : ∀ before m after, n.replica.log = before ++ Ev.dispatched m :: after →
    m.names u = true → ∀ e, Ev.applied e ∈ n.replica.log → e.isBoot = false →
      e.brings u = true → e.CutBefore l m → Ev.applied e ∈ before ∧ Ev.applied e ∉ after
  written : ∀ before m after, n.replica.log = before ++ Ev.dispatched m :: after →
    m.header.kind = .t1 → m.header.uuid = u →
    (∀ e, Ev.applied e ∈ after → e.brings u = true → e.isBoot = false ∧ e.CutBefore l m) →
    ∀ p v, lastSent p (m :: namedIn u (fastDone after)) = some v →
      ∀ c, n.replica.data.scene u = some c → c p = some v
  gone : ∀ before m after, n.replica.log = before ++ Ev.dispatched m :: after →
    m.header.kind = .tomb → m.header.uuid = u →
    (∀ e, Ev.applied e ∈ after → e.brings u = true → e.isBoot = false ∧ e.CutBefore l m) →
    n.replica.data.scene u = none
  held : ∀ before e after, n.replica.log = before ++ Ev.applied e :: after →
    e.isBoot = false → u ∈ Scene.carried e.blob →
    (∀ e', Ev.applied e' ∈ after → e'.isBoot = false) →
    (∀ m, Ev.dispatched m ∈ after → m.header.kind = .tomb → m.header.uuid ≠ u) →
    (n.replica.data.scene u).isSome = true

/-- A blob that was cut before a message and shows its datablock is not applied after
    the message. -/
private theorem not_rewound {c0 f0 : Nat} {u : Uuid} {l : Ledger (Entry V) V δ} (hl : l.Serial u)
    (hs : l.Streams c0 f0) {p : Pump (Entry V) V δ} (hp : p.Faithful l.coldLane)
    {before after : List (Ev (Entry V) V δ)} {e : Pending (Entry V) δ} {m : Msg (Entry V) V δ}
    (hdone : p.done = before ++ Ev.applied e :: after) (hmem : Ev.dispatched m ∈ before)
    (hm : m.names u = true) (hboot : e.isBoot = false) (hbrings : e.brings u = true) :
    ¬ e.CutBefore l m := by
  rintro ⟨id, hid, hcut⟩
  obtain ⟨taken, c, rest, hcold, hlast, hseq, hkind, huuid, hblob, hbytes⟩ :=
    hp.applied e (hdone ▸ by simp)
  have hk : c.header.kind = .t2 := by
    simp only [Pending.isBoot, decide_eq_false_iff_not, hkind] at hboot
    simp only [Msg.isLastChunk, Msg.isBlobChunk, Bool.and_eq_true, Bool.or_eq_true,
      decide_eq_true_eq] at hlast
    exact hlast.1.resolve_right hboot
  obtain ⟨b, mine, hchunk, hprog, hend, hleft⟩ := hl.ends taken c rest hcold hk hlast
  rw [← hbytes b mine hchunk hprog hend] at hleft
  obtain rfl : b.id = id := Option.some.inj (hchunk.blobId_eq.symm.trans (hblob.symm.trans hid))
  have hcarried : carriedBy u b.id e.blob = true := by
    simp only [Pending.brings, hboot, Bool.false_or, huuid, hchunk.uuid_eq] at hbrings
    have := hchunk.kind_eq
    cases hb : b.id <;> simp_all [carriedBy, BlobId.kind, BlobId.uuid]
  have hlane : m.header.lane = .fast := by
    obtain ⟨pre, between, post, hlog, -⟩ := hcut
    exact hs.lane_fast m (List.mem_filterMap.mpr ⟨.fast m, by simp [hlog], rfl⟩)
  -- the message names the blob's last chunk or a later one, but went ahead of the blob
  have hsent := hs.stream.seq_of_split hcold
  have hle := (hl.behind b.id e.blob m hcut hm hcarried).2 c (by simp [hcold]) hlast
    hchunk.blobId_eq hleft
  have hlt := hp.turns before _ after hdone m hmem hlane _ (hseq.trans hsent)
  rw [hsent, Option.getD_some] at hle
  omega

/-- What a message and a blob after it leave of a log. -/
private theorem effects_dispatched_applied (before middle last : List (Ev (Entry V) V δ))
    (m : Msg (Entry V) V δ)
    (e : Pending (Entry V) δ) :
    effects (before ++ Ev.dispatched m :: (middle ++ Ev.applied e :: last)) =
      (effects before ++ Ev.dispatched m :: effects middle) ++ Ev.applied e :: effects last := by
  rw [effects_append, List.append_assoc]
  refine congrArg (effects before ++ ·) ?_
  rw [← List.singleton_append, effects_append, effects_append, effects_dispatched,
    ← List.singleton_append (l := last), effects_append, effects_applied]
  simp

/-- In every run in which each message of a datablock follows all the blobs that show it,
    and no blob is overtaken on the replica, no blob takes a datablock back. -/
theorem never_rewound [BEq V] [DecidableEq δ] (H : Digests (Entry V) V δ)
    (w : World (Entry V) V) (c0 f0 : Nat)
    (calls : List (World (Entry V) V × Host.Call (Entry V) δ))
    (h : Along Ledger.step Ledger.FollowsCarriers (Ledger.start c0 f0)
      ((Host.start w c0 f0).run H calls).trace)
    (scene : Scene V) (acts : List Node.Act)
    (hacts : Along (Node.step (.keyed V δ)) Node.NoBlobOvertaken
      (Node.start scene c0 f0 ((Host.start w c0 f0).run H calls).ledger.coldLane
        ((Host.start w c0 f0).run H calls).ledger.fastLane) acts) (u : Uuid) :
    let l := ((Host.start w c0 f0).run H calls).ledger
    NeverRewound u l
      (Node.run (.keyed V δ) (Node.start scene c0 f0 l.coldLane l.fastLane) acts) := by
  intro l
  have hs : l.Streams c0 f0 := Host.run_streams H w c0 f0 calls
  have hl : l.Serial u := by
    obtain ⟨hledger, hvalid⟩ := Host.run_ledger H w c0 f0 calls
    have := Ledger.Serial.run u c0 f0 hvalid h
    rwa [← hledger] at this
  have hordered := ordered_run (.keyed V δ) scene c0 f0 hs.stream hs.lane_fast hacts
  have hfaithful := faithful_run (.keyed V δ) scene c0 f0 hs.stream hs.lane_fast hacts
  have hstands := standing_run scene c0 f0 l.coldLane l.fastLane acts
  have hlive := live_run scene c0 f0 l.coldLane l.fastLane acts u
  generalize hn : Node.run (.keyed V δ) (Node.start scene c0 f0 l.coldLane l.fastLane) acts = n
  simp only [l, hn] at hordered hfaithful hstands hlive
  have hdone : n.order.pump.done = effects n.replica.log := rfl
  -- nothing that the cold lane carries is a message of a datablock
  have hlane : ∀ m, Ev.dispatched m ∈ n.replica.log → m.names u = true →
      m.header.lane = .fast := by
    intro m hm hnames
    cases hl : m.header.lane with
    | fast => rfl
    | cold =>
      have hmem : m ∈ coldTaken n.order.pump.done :=
        List.mem_filterMap.mpr ⟨.dispatched m, List.mem_filter.mpr ⟨hm, rfl⟩, by simp [hl]⟩
      obtain ⟨ht1, htomb⟩ := hs.kinds m (by
        rw [hordered.pump.taken]
        exact List.mem_append_left _ hmem)
      simp [Msg.names, ht1, htomb] at hnames
  have hafter : ∀ before m after, n.replica.log = before ++ Ev.dispatched m :: after →
      m.names u = true → ∀ e, Ev.applied e ∈ after → e.isBoot = false → e.brings u = true →
        ¬ e.CutBefore l m := by
    intro before m after hlog hm e he hboot hbrings
    obtain ⟨middle, last, rfl⟩ := List.append_of_mem he
    have hsplit : n.order.pump.done =
        (effects before ++ Ev.dispatched m :: effects middle) ++ Ev.applied e :: effects last := by
      rw [hdone, hlog, effects_dispatched_applied]
    exact not_rewound hl hs hfaithful hsplit (by simp) hm hboot hbrings
  have hnone : ∀ before m after, n.replica.log = before ++ Ev.dispatched m :: after →
      m.names u = true →
      (∀ e, Ev.applied e ∈ after → e.brings u = true → e.isBoot = false ∧ e.CutBefore l m) →
      ∀ e, Ev.applied e ∈ after → e.brings u = false := by
    intro before m after hlog hm hall e he
    by_contra hbrings
    obtain ⟨hboot, hcut⟩ := hall e he (by simpa using hbrings)
    exact hafter before m after hlog hm e he hboot (by simpa using hbrings) hcut
  refine ⟨?_, ?_, ?_, ?_⟩
  · intro before m after hlog hm e he hboot hbrings hcut
    have hnot : Ev.applied e ∉ after := fun he' =>
      hafter before m after hlog hm e he' hboot hbrings hcut
    rw [hlog] at he
    rcases List.mem_append.mp he with he | he
    · exact ⟨he, hnot⟩
    · rcases List.mem_cons.mp he with he | he
      · cases he
      · exact absurd he hnot
  · intro before m after hlog hkind hu hall p v hv c hc
    have hm : m.names u = true := by simp [Msg.names, hkind, hu]
    have hbrings := hnone before m after hlog hm hall
    have hholds := (hstands u).1
    rw [hlog, Trail.ofLog_append] at hholds
    have hlane' : ∀ m', Ev.dispatched m' ∈ Ev.dispatched m :: after → m'.names u = true →
        m'.header.lane = .fast :=
      fun m' hm' => hlane m' (by rw [hlog]; exact List.mem_append_right _ hm')
    have hstep := Trail.foldl_step u (Trail.ofLog u before) hlane'
      (fun e he => hbrings e (by simpa using he))
    have hcons : namedIn u (fastDone (Ev.dispatched m :: after)) =
        m :: namedIn u (fastDone after) := by
      have := hlane m (by simp [hlog]) hm
      simp [fastDone, namedIn, this, hm]
    rw [hcons] at hstep
    rcases hstep with hgone | ⟨f, -, hshown⟩
    · rw [hgone] at hholds
      exact absurd (hc.symm.trans hholds) (by simp)
    · rw [hshown] at hholds
      exact hholds c hc p v (Content.writes_of_some f _ hv)
  · intro before m after hlog hkind hu hall
    have hm : m.names u = true := by simp [Msg.names, hkind, hu]
    have hholds := (hstands u).1
    rw [hlog, Trail.ofLog_append, List.foldl_cons] at hholds
    have hstep : Trail.step u (Trail.ofLog u before) (.dispatched m) = none := by
      simp [Trail.step, Trail.message, hkind, hu]
    rw [hstep] at hholds
    rcases Trail.foldl_step u none
      (fun m' hm' => hlane m' (by rw [hlog]; exact List.mem_append_right _ (by simp [hm'])))
      (hnone before m after hlog hm hall) with hgone | ⟨f, hf, -⟩
    · rw [hgone] at hholds
      exact hholds
    · cases hf
  · intro before e after hlog hboot hcarried hnoBoot hnoTomb
    refine hlive.symm.trans ?_
    rw [hlog, Received.ofLog_append, List.foldl_cons]
    refine Received.live_foldl ?_ hnoBoot hnoTomb
    simp [Received.step, hboot, hcarried]

/-! ## A datablock that is taken back -/

namespace Passenger

/-- A digest that says it all. -/
abbrev Digest := List (Entry String) × Option String

/-- Digests of blobs; there is no scene here. -/
def digests : Digests (Entry String) String Digest where
  blob data pcache := (data, pcache)
  scene _ := ([], none)

/-- What an object shows. -/
def object (shape color : String) : Dict Path String :=
  .ofList [(.rna "shape", shape), (.rna "color", color)]

/-- Objects `"p"` and `"d"`; the blob of `"p"` brings `"d"` along. -/
def file (shape color : String) (now : Int) : World (Entry String) String where
  dbs := ⟨[("p", { snapshot := Dict.empty, blend := some [("p", .ofList [(.rna "shape", shape)]),
      ("d", object "cube" color)] }),
    ("d", { snapshot := .ofList [(.rna "color", color)],
            blend := some [("d", object shape color)] })], by simp⟩
  stamps := by simp [Dict.keys, mainfileUuid]
  mainfile := [("p", .ofList [(.rna "shape", shape)]), ("d", object "cube" color)]
  now := now

/-- The bootstrap leaves, then a blob of `u`, then an edit of `"d"`. -/
def calls (u : Uuid) : List (World (Entry String) String × Host.Call (Entry String) Digest) :=
  [(file "cube" "red" 0, .bootstrap), (file "cube" "red" 0, .tick),
   (file "ball" "red" 0, .depsgraph [{ uuid := u, baked := true }]),
   (file "ball" "red" 80, .tick),
   (file "ball" "blue" 80, .depsgraph [{ uuid := "d" }]), (file "ball" "blue" 160, .tick)]

/-- The host's lanes after that. -/
def ledger (u : Uuid) : Ledger (Entry String) String Digest :=
  ((Host.start (file "cube" "red" 0) 0 0).run digests (calls u)).ledger

/-- The bootstrap is applied; the edit is there before the blob. -/
def acts : List Node.Act := [.turn 0 8, .batch 16, .turn 64 0, .turn 0 8, .batch 16]

/-- The replica after that. -/
def node (u : Uuid) : Node (Entry String) String Digest (Scene String) :=
  Node.run (.keyed String Digest)
    (Node.start (fun _ => none) 0 0 (ledger u).coldLane (ledger u).fastLane) acts

/-- The edit of `"d"`. -/
def edit : Msg (Entry String) String Digest :=
  (Ledger.t1Msg "d" [(.rna "color", "blue")] 1 false none).withSeq 1

/-- The datablocks of the blob of `"p"`. -/
def entries : List (Entry String) :=
  [("p", .ofList [(.rna "shape", "ball")]), ("d", object "cube" "red")]

/-- The blob of `"p"`, on its way and complete. -/
def chunk : Msg (Entry String) String Digest :=
  have hp : ("p" : Uuid) ≠ mainfileUuid := by decide
  ((Blob.ofT2 hp 2 entries (entries, none) false).chunk 0).withSeq 2

end Passenger

open Passenger in
/-- The edit of `"d"` waits for the bootstrap only: it goes ahead of the blob in which
    `"d"` rides along, and the blob takes `"d"` back. -/
theorem never_rewound_counterexample :
    ((node "p").replica.data.scene "d").map (· (.rna "color")) = some (some "red") ∧
      ¬ NeverRewound "d" (ledger "p") (node "p") := by
  refine ⟨by decide +kernel, fun h => ?_⟩
  have hlog : (node "p").replica.log =
      ((node "p").replica.log.take 4 ++ [.seen edit]) ++ Ev.dispatched edit ::
        [.seen chunk, .dispatched chunk, .applied ⟨chunk.header, entries, some 2⟩] := by
    decide +kernel
  have hcut : Pending.CutBefore ⟨chunk.header, entries, some 2⟩ (ledger "p") edit :=
    ⟨.t2 "p" 2, rfl, (ledger "p").log.take 5, [.cold chunk, .left (.t2 "p" 2) entries], [],
      by decide +kernel, by simp⟩
  have horder := h.order _ _ _ hlog rfl ⟨chunk.header, entries, some 2⟩ (by rw [hlog]; simp) rfl
    (by decide) hcut
  exact horder.2 (by simp)

open Passenger in
/-- A blob of `"d"` itself is one that the edit follows. -/
theorem never_rewound_own_blob :
    NeverRewound "d" (ledger "d") (node "d") ∧
      ((node "d").replica.data.scene "d").map (· (.rna "color")) = some (some "blue") :=
  ⟨never_rewound digests (file "cube" "red" 0) 0 0 (calls "d") (by decide +kernel) (fun _ => none)
    acts (by decide +kernel) "d", by decide +kernel⟩

end QCBridge
