import QCBridge.ForStd.Guarded
import QCBridge.Ring0.Libraries
import QCBridge.Spec.HostStream
import QCBridge.Spec.LibsServed

/-!
# Libraries that are asked for

A library that the replica asks for is answered once in a session of the host. As long as the
answer is on its way, in the outbox or on the lane, it is not asked for in vain. If it is lost,
or the replica forgets that it came, the library stays missing.

## Key results

- `LibSystem.UnderWay`: an answer is on its way
- `Host.Serves`: what `serve_lib_requests` adds
- `LibSystem.Sound`: a library in the list that was answered has its answer on its way
- `LibSystem.need_libs_answered`: when the requests are answered
-/

namespace QCBridge

variable {β V δ : Type}

/-- The frame is an answer for the library, or a part of one. -/
def Msg.Answers (m : Msg β V δ) (path : String) : Prop :=
  (m.header.kind = .libfile ∨ m.header.kind = .libMissing) ∧ m.header.lib = path

instance (m : Msg β V δ) (path : String) : Decidable (m.Answers path) :=
  inferInstanceAs (Decidable (_ ∧ _))

/-- Some frame of a list is. -/
def Answering (ms : List (Msg β V δ)) (path : String) : Prop := ∃ m ∈ ms, m.Answers path

instance (ms : List (Msg β V δ)) (path : String) : Decidable (Answering ms path) :=
  inferInstanceAs (Decidable (∃ m ∈ ms, m.Answers path))

/-- An answer is in the one list or in the other. -/
private theorem answering_append {ms ms' : List (Msg β V δ)} {path : String} :
    Answering (ms ++ ms') path ↔ Answering ms path ∨ Answering ms' path := by
  unfold Answering
  simp only [List.mem_append, or_and_right, exists_or]

/-! ## The ledger -/

namespace Ledger

/-- The chunks of library files that wait. -/
def libWaiting (l : Ledger β V δ) : List (Msg β V δ) := l.libOutbox.flatMap Outgoing.chunks

/-- What waits is still there or has left. -/
def Carries (l l' : Ledger β V δ) : Prop :=
  ∃ sent, l'.coldLane = l.coldLane ++ sent ∧
    ∀ path, Answering l.libWaiting path → Answering (sent ++ l'.libWaiting) path

variable {l l' l'' : Ledger β V δ}

/-- Other frames left. -/
private theorem Carries.of_waiting (sent : List (Msg β V δ))
    (hlane : l'.coldLane = l.coldLane ++ sent)
    (hwaiting : ∀ m ∈ l.libWaiting, m ∈ l'.libWaiting) : Carries l l' := by
  refine ⟨sent, hlane, fun path ⟨m, hm, hanswers⟩ => ?_⟩
  exact ⟨m, List.mem_append_right _ (hwaiting m hm), hanswers⟩

/-- Nothing left. -/
theorem Carries.refl (l : Ledger β V δ) : Carries l l :=
  .of_waiting [] (List.append_nil _).symm fun _ hm => hm

/-- Two stretches. -/
theorem Carries.trans (h : Carries l l') (h' : Carries l' l'') : Carries l l'' := by
  obtain ⟨sent, hlane, hanswers⟩ := h
  obtain ⟨sent', hlane', hanswers'⟩ := h'
  refine ⟨sent ++ sent', by rw [hlane', hlane, List.append_assoc], fun path hpath => ?_⟩
  rw [List.append_assoc, answering_append]
  rcases answering_append.mp (hanswers path hpath) with hsent | hwaiting
  · exact Or.inl hsent
  · exact Or.inr (hanswers' path hwaiting)

/-- The next chunk of a library file goes from the outbox to the lane. -/
private theorem carries_sendLib (l : Ledger β V δ) : Carries l l.sendLib := by
  unfold sendLib
  split
  -- the last chunk of a file takes the file out of the outbox
  next id data m others hbox =>
    refine ⟨[m.withSeq (l.seq + 1)], by simp [coldLane, pushCold, finish], ?_⟩
    rintro path ⟨x, hx, hanswers⟩
    rw [libWaiting, hbox, List.flatMap_cons] at hx
    rcases List.mem_append.mp hx with hx | hx
    · obtain rfl := List.mem_singleton.mp hx
      exact ⟨_, List.mem_append_left _ (List.mem_singleton_self _), hanswers⟩
    · exact ⟨x, List.mem_append_right _ hx, hanswers⟩
  -- another chunk leaves the rest of the file in it
  next id data m rest others hne hbox =>
    refine ⟨[m.withSeq (l.seq + 1)], by simp [coldLane, pushCold], ?_⟩
    rintro path ⟨x, hx, hanswers⟩
    rw [libWaiting, hbox, List.flatMap_cons] at hx
    rcases List.mem_append.mp hx with hx | hx
    · rcases List.mem_cons.mp hx with rfl | hx
      · exact ⟨_, List.mem_append_left _ (List.mem_singleton_self _), hanswers⟩
      · refine ⟨x, List.mem_append_right _ ?_, hanswers⟩
        rw [libWaiting, List.flatMap_cons]
        exact List.mem_append_left _ hx
    · refine ⟨x, List.mem_append_right _ ?_, hanswers⟩
      rw [libWaiting, List.flatMap_cons]
      exact List.mem_append_right _ hx
  -- an empty outbox
  next => exact .refl l

/-- A chunk of the bootstrap leaves the library files where they are. -/
private theorem carries_sendBoot (l : Ledger β V δ) : Carries l l.sendBoot := by
  unfold sendBoot
  split
  next m _ =>
    exact .of_waiting [m.withSeq (l.seq + 1)] (by simp [coldLane, pushCold, finish])
      fun _ hm => hm
  next m _ _ _ =>
    exact .of_waiting [m.withSeq (l.seq + 1)] (by simp [coldLane, pushCold])
      fun _ hm => hm
  next => exact .refl l

/-- So does a chunk of a datablock's blob. -/
private theorem carries_sendT2 (l : Ledger β V δ) (uuid : Uuid) : Carries l (l.sendT2 uuid) := by
  unfold sendT2
  split
  next m _ =>
    exact .of_waiting [m.withSeq (l.seq + 1)] (by simp [coldLane, pushCold, finish])
      fun _ hm => hm
  next m _ _ _ =>
    exact .of_waiting [m.withSeq (l.seq + 1)] (by simp [coldLane, pushCold])
      fun _ hm => hm
  next => exact .refl l

/-- Every step of the ledger does, or sends a chunk of theirs. -/
private theorem carries_step (l : Ledger β V δ) (a : LedgerAct β V δ) : Carries l (l.step a) := by
  cases a with
  | cutBoot data sceneDigest =>
    exact .of_waiting [] (by simp [step, coldLane]) fun _ hm => hm
  | cutT2 uuid data digest more =>
    exact .of_waiting [] (by simp [step, coldLane]) fun _ hm => hm
  | cutLib lib data =>
    refine .of_waiting [] (by simp [step, coldLane]) fun m hm => ?_
    simp only [step, libWaiting, List.flatMap_append]
    exact List.mem_append_left _ hm
  | sendBoot => exact carries_sendBoot l
  | sendT2 uuid => exact carries_sendT2 l uuid
  | sendLib => exact carries_sendLib l
  | sendCold kind lib =>
    exact .of_waiting [_] (coldLane_pushCold l _) fun _ hm => hm
  | endCold => exact .of_waiting [_] (coldLane_pushCold l _) fun _ hm => hm
  | t1 uuid changes targets full sd =>
    exact .of_waiting [] (by simp [step]) fun _ hm => hm
  | tomb uuid => exact .of_waiting [] (by simp [step]) fun _ hm => hm
  | endFast => exact .of_waiting [] (by simp [step]) fun _ hm => hm
  | record uuid data digest =>
    exact .of_waiting [] (by simp [step, coldLane]) fun _ hm => hm
  | skip uuid data digest => exact .refl l

/-- So it is in every run of the ledger. -/
private theorem carries_run (l : Ledger β V δ) (acts : List (LedgerAct β V δ)) :
    Carries l (l.run acts) :=
  foldl_invariant (f := step) (I := Carries l) (fun l' a h => h.trans (carries_step l' a)) acts
    (.refl l)

end Ledger

/-! ## What the host answers -/

namespace Host

variable {h h' h'' : Host β V δ} {w : World β V} {path : String}

/-- What `serve_lib_requests` adds: answers for the libraries that it remembers from now on, and
    for no other. -/
def Serves (h h' : Host β V δ) : Prop :=
  ∃ sent, h'.ledger.coldLane = h.ledger.coldLane ++ sent ∧
    (∀ path ∈ h.libsServed, path ∈ h'.libsServed) ∧
    ∀ path, Answering (sent ++ h'.ledger.libWaiting) path ↔
      Answering h.ledger.libWaiting path ∨ path ∈ h'.libsServed ∧ path ∉ h.libsServed

/-- Nobody was served. -/
theorem Serves.refl (h : Host β V δ) : Serves h h := by
  refine ⟨[], (List.append_nil _).symm, fun _ hpath => hpath, fun path => ?_⟩
  rw [List.nil_append]
  exact ⟨Or.inl, fun hany => hany.resolve_right fun hnew => hnew.2 hnew.1⟩

/-- Some were, and then others. -/
theorem Serves.trans (hh : Serves h h') (hh' : Serves h' h'') : Serves h h'' := by
  obtain ⟨sent, hlane, hkeeps, hanswers⟩ := hh
  obtain ⟨sent', hlane', hkeeps', hanswers'⟩ := hh'
  refine ⟨sent ++ sent', by rw [hlane', hlane, List.append_assoc],
    fun path hpath => hkeeps' path (hkeeps path hpath), fun path => ?_⟩
  have hfirst := hanswers path
  rw [answering_append] at hfirst
  rw [List.append_assoc, answering_append, hanswers' path]
  have hk := hkeeps path
  have hk' := hkeeps' path
  tauto

/-- A library file is put into the outbox. -/
private theorem serves_cutLib (h : Host β V δ) {path : String} (data : List β)
    (hnew : path ∉ h.libsServed) :
    Serves h { h.act (.cutLib path data) with libsServed := path :: h.libsServed } := by
  refine ⟨[], by simp [act, Ledger.step, Ledger.coldLane], fun _ h => List.mem_cons_of_mem _ h,
    fun path' => ?_⟩
  -- the new chunks wait behind the others
  have hwaiting : (h.ledger.step (.cutLib path data)).libWaiting = h.ledger.libWaiting ++
      chunkBlob .libfile (.lib h.ledger.libsShipped (h.ledger.seq + 1)) data
        (Ledger.libInfo path) defaultChunkSize := by
    simp [Ledger.step, Ledger.libWaiting]
  -- they answer for their own library, and there is one at least
  have hchunks : Answering (chunkBlob (V := V) .libfile
      (.lib h.ledger.libsShipped (h.ledger.seq + 1)) data (Ledger.libInfo (δ := δ) path)
      defaultChunkSize) path' ↔ path' = path := by
    constructor
    · rintro ⟨m, hm, -, hlib⟩
      obtain ⟨i, -, rfl⟩ := List.mem_map.mp hm
      exact hlib.symm
    · rintro rfl
      refine ⟨chunkAt .libfile _ data _ defaultChunkSize 0,
        List.mem_map_of_mem (List.mem_range.mpr (chunkCount_pos _ _)), Or.inl rfl, rfl⟩
  show Answering ([] ++ (h.ledger.step (.cutLib path data)).libWaiting) path' ↔ _
  rw [List.nil_append, hwaiting, answering_append, hchunks]
  simp only [List.mem_cons]
  -- a path answered now was answered before, or it is the new one
  constructor
  · rintro (hwait | rfl)
    · exact Or.inl hwait
    · exact Or.inr ⟨Or.inl rfl, hnew⟩
  · rintro (hwait | ⟨rfl | hold, hno⟩)
    · exact Or.inl hwait
    · exact Or.inr rfl
    · exact absurd hold hno

/-- The host says that it has no such library. -/
private theorem serves_libMissing {path : String}
    (hsend : h.send w (.sendCold .libMissing path) = (h', true)) (hnew : path ∉ h.libsServed) :
    Serves h { h' with libsServed := path :: h'.libsServed } := by
  have hserved := of_send_libsServed hsend
  have hledger : h'.ledger = h.ledger.step (.sendCold .libMissing path) := by
    unfold send at hsend
    dsimp only at hsend
    split at hsend
    · cases hsend
      rfl
    · cases hsend
  refine ⟨[({ header := { kind := .libMissing, lib := path } } : Msg β V δ).withSeq
    (h.ledger.seq + 1)], ?_, ?_, fun path' => ?_⟩
  · -- what goes on the lane
    show h'.ledger.coldLane = _
    rw [hledger]
    exact Ledger.coldLane_pushCold ..
  · -- what was served stays served
    intro path' hpath'
    show path' ∈ path :: h'.libsServed
    rw [hserved]
    exact List.mem_cons_of_mem _ hpath'
  · -- the message answers for its own library
    have hmsg : Answering [({ header := { kind := .libMissing, lib := path } } :
        Msg β V δ).withSeq (h.ledger.seq + 1)] path' ↔ path' = path := by
      unfold Answering
      simp [Msg.Answers, Msg.withSeq, eq_comm]
    have hwaiting : h'.ledger.libWaiting = h.ledger.libWaiting := by
      rw [hledger]
      rfl
    show Answering (_ ++ h'.ledger.libWaiting) path' ↔ _ ∨ path' ∈ path :: h'.libsServed ∧ _
    rw [answering_append, hmsg, hwaiting, hserved, List.mem_cons]
    constructor
    · rintro (rfl | hwait)
      · exact Or.inr ⟨Or.inl rfl, hnew⟩
      · exact Or.inl hwait
    · rintro (hwait | ⟨rfl | hold, hno⟩)
      · exact Or.inr hwait
      · exact Or.inl rfl
      · exact absurd hold hno

/-- A refused send leaves no trace. -/
private theorem serves_refused {a : LedgerAct β V δ} (hsend : h.send w a = (h', false)) :
    Serves h h' := by
  unfold send at hsend
  dsimp only at hsend
  split at hsend
  · cases hsend
  · cases hsend
    exact .refl h

/-- `serve_lib_requests` answers each library that it has not answered before, and no other. -/
private theorem serves_serveLibRequests (w : World β V) (reqs : List (String × Option (List β)))
    (h : Host β V δ) : Serves h (serveLibRequests w reqs h) := by
  induction reqs generalizing h with
  | nil => exact .refl h
  | cons req reqs ih =>
    obtain ⟨path, file⟩ := req
    unfold serveLibRequests
    split
    · exact ih h
    next hnew =>
      rw [not_or] at hnew
      split
      next data => exact (serves_cutLib h data hnew.2).trans (ih _)
      next =>
        split
        next heq => exact (serves_libMissing heq hnew.2).trans (ih _)
        next heq => exact (serves_refused heq).trans (ih _)

/-- Every answer leaves: the transport takes what it is given, or it is given nothing, because
    all files can be read. -/
def Taken (w : World β V) (reqs : List (String × Option (List β))) : Prop :=
  (∀ n, w.accepts n = true) ∨ ∀ req ∈ reqs, req.2.isSome

/-- What is asked for is remembered then. -/
private theorem mem_serveLibRequests {reqs : List (String × Option (List β))}
    (htaken : Taken w reqs)
    (hpath : path ∈ reqs.map Prod.fst) (hne : path ≠ "") (h : Host β V δ) :
    path ∈ (serveLibRequests w reqs h).libsServed := by
  induction reqs generalizing h with
  | nil => cases hpath
  | cons req reqs ih =>
    obtain ⟨path', file⟩ := req
    have hrest : Taken w reqs :=
      htaken.imp id fun hfiles req hreq => hfiles req (List.mem_cons_of_mem _ hreq)
    by_cases hlater : path ∈ reqs.map Prod.fst
    · unfold serveLibRequests
      split
      · exact ih hrest hlater h
      · split
        · exact ih hrest hlater _
        · split
          · exact ih hrest hlater _
          · exact ih hrest hlater _
    · -- it is the first of the list, and the rest forgets nothing
      obtain rfl : path = path' := (List.mem_cons.mp hpath).resolve_right hlater
      have hkeeps : ∀ h' : Host β V δ, path ∈ h'.libsServed →
          path ∈ (serveLibRequests w reqs h').libsServed := fun h' hserved => by
        obtain ⟨-, -, hkeeps, -⟩ := serves_serveLibRequests w reqs h'
        exact hkeeps path hserved
      unfold serveLibRequests
      split
      next hold => exact hkeeps h (hold.resolve_left hne)
      next =>
        split
        next => exact hkeeps _ (List.mem_cons_self ..)
        next =>
          split
          next => exact hkeeps _ (List.mem_cons_self ..)
          next heq =>
            rcases htaken with haccepts | hfiles
            · unfold send at heq
              simp [haccepts] at heq
            · exact absurd (hfiles _ (List.mem_cons_self ..)) (by simp)

end Host

/-! ## The replica's list -/

namespace LibReplica

variable {r : LibReplica β δ} {path : String}

/-- A request puts one library into the list at most, and never the empty path. -/
private theorem mem_requestLib {hostPath : String} (h : path ∈ (r.requestLib hostPath).needLibs) :
    path ∈ r.needLibs ∨ path = hostPath ∧ hostPath ≠ "" := by
  unfold requestLib at h
  split at h
  · exact Or.inl h
  next hno =>
    split at h
    · exact Or.inl h
    · rcases List.mem_append.mp h with hold | hnew
      · exact Or.inl hold
      · exact Or.inr ⟨List.mem_singleton.mp hnew, (not_or.mp hno).1⟩

/-- A bootstrap puts in those that it could not place. -/
private theorem mem_bootApplied {unplaced : List String}
    (h : path ∈ (r.bootApplied unplaced).needLibs) :
    path ∈ r.needLibs ∨ path ∈ unplaced ∧ path ≠ "" := by
  unfold bootApplied at h
  induction unplaced generalizing r with
  | nil => exact Or.inl h
  | cons hostPath unplaced ih =>
    rcases ih h with hold | ⟨hmem, hne⟩
    · rcases mem_requestLib hold with hold | ⟨rfl, hne⟩
      · exact Or.inl hold
      · exact Or.inr ⟨List.mem_cons_self .., hne⟩
    · exact Or.inr ⟨List.mem_cons_of_mem _ hmem, hne⟩

/-- A library is in the list once. -/
private theorem nodup_requestLib (h : r.needLibs.Nodup) (hostPath : String) :
    (r.requestLib hostPath).needLibs.Nodup := by
  unfold requestLib
  split
  · exact h
  next hno =>
    split
    · exact h
    · exact h.append (List.nodup_singleton _)
        (List.disjoint_singleton.mpr (not_or.mp hno).2)

/-- No path is in the list twice. -/
private theorem nodup_dispatch [Inhabited β] (h : r.needLibs.Nodup) (found stored : Bool)
    (m : Msg β V δ) : (r.dispatch found stored m).needLibs.Nodup := by
  unfold dispatch
  split
  · split
    · exact h
    · exact nodup_requestLib h _
  · exact h.erase _
  · split
    · exact h
    · dsimp only
      split
      · unfold applyLibfile
        split
        · exact h.erase _
        · exact h
      · exact h
  · exact h

/-- Also after a bootstrap. -/
private theorem nodup_bootApplied (h : r.needLibs.Nodup) (unplaced : List String) :
    (r.bootApplied unplaced).needLibs.Nodup :=
  foldl_invariant (f := requestLib) (I := fun r => r.needLibs.Nodup)
    (fun _ hostPath h => nodup_requestLib h hostPath) unplaced h

/-- A frame adds at most the library of a link. -/
private theorem mem_dispatch [Inhabited β] {found stored : Bool} {m : Msg β V δ}
    (h : path ∈ (r.dispatch found stored m).needLibs) :
    path ∈ r.needLibs ∨
      path = m.header.lib ∧ path ≠ "" ∧ m.header.kind = .link ∧ found = false := by
  unfold dispatch at h
  -- a link: its library is asked for unless it was found
  split at h
  next hkind =>
    split at h
    · exact Or.inl h
    next hfound =>
      rcases mem_requestLib h with hold | ⟨rfl, hne⟩
      · exact Or.inl hold
      · exact Or.inr ⟨rfl, hne, hkind, by simpa using hfound⟩
  -- a refusal takes its library off the list
  next => exact Or.inl (List.mem_of_mem_erase h)
  -- a library file that is complete does, and so does it only if it is stored
  next =>
    split at h
    · exact Or.inl h
    · dsimp only at h
      split at h
      · unfold applyLibfile at h
        split at h
        · exact Or.inl (List.mem_of_mem_erase h)
        · exact Or.inl h
      · exact Or.inl h
  next => exact Or.inl h

end LibReplica

/-! ## Runs -/

namespace LibSystem

variable {s : LibSystem β V δ} {path : String}

/-- An answer for the library waits in the outbox or is on the lane. -/
def UnderWay (s : LibSystem β V δ) (path : String) : Prop :=
  Answering (s.flight ++ s.host.ledger.libWaiting) path

instance (s : LibSystem β V δ) (path : String) : Decidable (s.UnderWay path) :=
  inferInstanceAs (Decidable (Answering _ path))

/-- What a library in the list may rely on: it has a path, and if the host remembers it, its
    answer is on its way. -/
structure Sound (s : LibSystem β V δ) : Prop where
  nodup : s.replica.needLibs.Nodup
  ne : ∀ path ∈ s.replica.needLibs, path ≠ ""
  underWay : ∀ path ∈ s.replica.needLibs, path ∈ s.host.libsServed → s.UnderWay path

variable [BEq V] [DecidableEq δ] [Inhabited β]

/-- A `serve_lib_requests` call answers every library that it names and the replica still asks
    for, if no answer is on its way. -/
def Answered (H : Digests β V δ) (s : LibSystem β V δ) : LibEvent β V δ → Prop
  | .host w (.libraries reqs) => ∀ path ∈ reqs.map Prod.fst, path ∈ s.replica.needLibs →
      ¬ s.UnderWay path → (s.step H (.host w (.libraries reqs))).UnderWay path
  | _ => True

/-- No answer is lost: the transport takes the answers; a frame that is lost is no answer that
    the replica waits for; when the last chunk of a file comes in, the
    file is whole and is stored; and the replica asks for no library that was answered
    before. -/
def Untroubled (s : LibSystem β V δ) : LibEvent β V δ → Prop
  | .host w (.libraries reqs) => Host.Taken w reqs
  | .arrive found stored => ∀ m ∈ s.flight.head?,
      (m.header.kind = .link → found = false → m.header.lib ∉ s.host.libsServed) ∧
      (m.header.kind = .libfile → m.header.lib ∈ s.replica.needLibs →
        Answering (s.flight.tail ++ s.host.ledger.libWaiting) m.header.lib ∨
        stored = true ∧ m.header.blob.isSome ∧
          (s.replica.reassembler.feed m.header m.data).2.any (·.1.lib = m.header.lib))
  | .lose k => ∀ m ∈ s.flight[k]?, ∀ path ∈ s.replica.needLibs, ¬ m.Answers path
  | .bootApplied unplaced => ∀ path ∈ unplaced, path ∉ s.host.libsServed
  | _ => True

/-! ## What one event preserves -/

section Steps

variable {H : Digests β V δ} {w : World β V} {c : Host.Call β δ}

/-- The answers on their way after a call. -/
private theorem underWay_host {sent : List (Msg β V δ)}
    (hlane : (s.host.call H (w, c)).ledger.coldLane = s.host.ledger.coldLane ++ sent) :
    (s.step H (.host w c)).UnderWay path ↔ Answering s.flight path ∨
      Answering (sent ++ (s.host.call H (w, c)).ledger.libWaiting) path := by
  unfold UnderWay step
  dsimp only
  rw [hlane, List.drop_left, List.append_assoc, answering_append]

/-- A call keeps what is on its way. -/
private theorem underWay_call (h : s.UnderWay path) : (s.step H (.host w c)).UnderWay path := by
  obtain ⟨acts, -, hledger, -⟩ := (Host.keepsCall_follows H w s.host).call c (.refl s.host)
  obtain ⟨sent, hlane, hwaiting⟩ := Ledger.carries_run s.host.ledger acts
  rw [← hledger] at hlane hwaiting
  rw [underWay_host hlane]
  exact (answering_append.mp h).imp id (hwaiting path)

/-- The answers on their way after `serve_lib_requests`. -/
private theorem underWay_libraries (reqs : List (String × Option (List β))) :
    (s.step H (.host w (.libraries reqs))).UnderWay path ↔ s.UnderWay path ∨
      path ∈ (Host.serveLibRequests w reqs s.host).libsServed ∧ path ∉ s.host.libsServed := by
  obtain ⟨sent, hlane, -, hanswers⟩ := Host.serves_serveLibRequests w reqs s.host
  have hcall : (s.step H (.host w (.libraries reqs))).UnderWay path ↔
      Answering s.flight path ∨ Answering
        (sent ++ (s.host.call H (w, .libraries reqs)).ledger.libWaiting) path :=
    underWay_host hlane
  rw [hcall, show s.host.call H (w, .libraries reqs) =
    Host.serveLibRequests w reqs s.host from rfl, hanswers path, UnderWay, answering_append,
    or_assoc]

/-- A call of the host forgets no answer that is on its way. -/
theorem Sound.host (h : s.Sound) : (s.step H (.host w c)).Sound where
  nodup := h.nodup
  ne := h.ne
  underWay path hneed hserved := by
    by_cases hreqs : ∃ reqs, c = .libraries reqs
    · obtain ⟨reqs, rfl⟩ := hreqs
      by_cases hold : path ∈ s.host.libsServed
      · exact underWay_call (h.underWay path hneed hold)
      · exact (underWay_libraries reqs).mpr (Or.inr ⟨hserved, hold⟩)
    · rw [not_exists] at hreqs
      have hsame := Host.call_libsServed H w s.host hreqs
      have hold : path ∈ s.host.libsServed := by
        rw [← hsame]
        exact hserved
      exact underWay_call (h.underWay path hneed hold)

omit [BEq V] [DecidableEq δ] in
/-- A whole answer takes the library off the list. -/
private theorem not_mem_dispatch {r : LibReplica β δ} (hnodup : r.needLibs.Nodup)
    {found stored : Bool}
    {m : Msg β V δ} (hanswers : m.Answers path)
    (hwhole : m.header.kind = .libfile → stored = true ∧ m.header.blob.isSome ∧
      (r.reassembler.feed m.header m.data).2.any (·.1.lib = m.header.lib)) :
    path ∉ (r.dispatch found stored m).needLibs := by
  obtain ⟨hkind | hkind, rfl⟩ := hanswers
  · obtain ⟨rfl, hblob, hany⟩ := hwhole hkind
    obtain ⟨b, hb⟩ := Option.isSome_iff_exists.mp hblob
    unfold LibReplica.dispatch
    simp only [hkind, hb]
    cases hfed : (r.reassembler.feed m.header m.data).2 with
    | none => simp [hfed] at hany
    | some done =>
      rw [hfed] at hany
      have hlib : done.1.lib = m.header.lib := by simpa using hany
      simp only [LibReplica.applyLibfile, if_true, hlib]
      exact hnodup.not_mem_erase
  · unfold LibReplica.dispatch
    simp only [hkind, LibReplica.libMissingOnHost]
    exact hnodup.not_mem_erase

/-- The next frame comes in. -/
theorem Sound.arrive (h : s.Sound) {found stored : Bool}
    (hok : s.Untroubled (.arrive found stored)) : (s.step H (.arrive found stored)).Sound := by
  cases hflight : s.flight with
  | nil =>
    simp only [LibSystem.step, hflight]
    exact h
  | cons m rest =>
    obtain ⟨hlink, hfile⟩ := hok m (by rw [hflight]; rfl)
    rw [hflight, List.tail_cons] at hfile
    simp only [LibSystem.step, hflight]
    refine ⟨LibReplica.nodup_dispatch h.nodup found stored m, ?_, ?_⟩
    · intro path hneed
      rcases LibReplica.mem_dispatch hneed with hold | ⟨-, hne, -⟩
      · exact h.ne path hold
      · exact hne
    · intro path hneed hserved
      rcases LibReplica.mem_dispatch hneed with hold | ⟨rfl, -, hkind, hfound⟩
      · obtain ⟨x, hx, hanswers⟩ := h.underWay path hold hserved
        rw [hflight, List.cons_append] at hx
        rcases List.mem_cons.mp hx with rfl | hx
        · -- this frame answers the library
          by_contra hnot
          refine not_mem_dispatch h.nodup hanswers (fun hkind => ?_) hneed
          obtain ⟨-, rfl⟩ := hanswers
          exact (hfile hkind hold).resolve_left hnot
        · exact ⟨x, hx, hanswers⟩
      · exact absurd hserved (hlink hkind hfound)

/-- A frame that is lost is no answer that is waited for. -/
theorem Sound.lose (h : s.Sound) {k : Nat} (hok : s.Untroubled (.lose k)) :
    (s.step H (.lose k)).Sound where
  nodup := h.nodup
  ne := h.ne
  underWay path hneed hserved := by
    obtain ⟨m, hm, hanswers⟩ := h.underWay path hneed hserved
    refine ⟨m, ?_, hanswers⟩
    rcases List.mem_append.mp hm with hflight | hwaiting
    · obtain ⟨i, hi⟩ := List.mem_iff_getElem?.mp hflight
      have hik : i ≠ k := by
        rintro rfl
        exact hok m hi path hneed hanswers
      exact List.mem_append_left _ (List.mem_eraseIdx_iff_getElem?.mpr ⟨i, hik, hi⟩)
    · exact List.mem_append_right _ hwaiting

/-- The libraries of a file were not answered before. -/
theorem Sound.bootApplied (h : s.Sound) {unplaced : List String}
    (hok : s.Untroubled (.bootApplied unplaced)) :
    (s.step H (.bootApplied unplaced)).Sound where
  nodup := LibReplica.nodup_bootApplied h.nodup unplaced
  ne path hneed := by
    rcases LibReplica.mem_bootApplied hneed with hold | ⟨-, hne⟩
    · exact h.ne path hold
    · exact hne
  underWay path hneed hserved := by
    rcases LibReplica.mem_bootApplied hneed with hold | ⟨hnew, -⟩
    · exact h.underWay path hold hserved
    · exact absurd hserved (hok path hnew)

/-- Every event without a loss that matters. -/
theorem Sound.step (h : s.Sound) {e : LibEvent β V δ} (hok : s.Untroubled e) :
    (s.step H e).Sound := by
  cases e with
  | host w c => exact h.host
  | arrive found stored => exact h.arrive hok
  | lose k => exact h.lose hok
  | bootApplied unplaced => exact h.bootApplied hok
  | newSession => exact ⟨h.nodup, h.ne, h.underWay⟩
  | restart =>
    exact ⟨List.nodup_nil, fun _ hno => absurd hno List.not_mem_nil,
      fun _ hno => absurd hno List.not_mem_nil⟩

/-- The replica asks for no library without a path. -/
private theorem needLibs_ne (H : Digests β V δ) (w : World β V) (c0 f0 : Nat)
    (events : List (LibEvent β V δ)) :
    ∀ path ∈ ((start w c0 f0).run H events).replica.needLibs, path ≠ "" := by
  refine foldl_invariant (f := LibSystem.step H)
    (I := fun s => ∀ path ∈ s.replica.needLibs, path ≠ "") (fun s e hne => ?_) events
    (fun _ hno => absurd hno List.not_mem_nil)
  cases e with
  | host w c => exact hne
  | arrive found stored =>
    simp only [LibSystem.step]
    split
    · exact hne
    · intro path hneed
      rcases LibReplica.mem_dispatch hneed with hold | ⟨-, hne', -⟩
      · exact hne path hold
      · exact hne'
  | lose k => exact hne
  | bootApplied unplaced =>
    intro path hneed
    rcases LibReplica.mem_bootApplied hneed with hold | ⟨-, hne'⟩
    · exact hne path hold
    · exact hne'
  | newSession => exact hne
  | restart => exact fun _ hno => absurd hno List.not_mem_nil

/-- A call answers what it names, unless it was answered before. -/
private theorem answered_iff (hne : ∀ path ∈ s.replica.needLibs, path ≠ "")
    {reqs : List (String × Option (List β))} (htaken : Host.Taken w reqs) :
    s.Answered H (.host w (.libraries reqs)) ↔ ∀ path ∈ reqs.map Prod.fst,
      path ∈ s.replica.needLibs → ¬ s.UnderWay path → path ∉ s.host.libsServed := by
  constructor
  · intro hanswered path hpath hneed hnot hold
    rcases (underWay_libraries reqs).mp (hanswered path hpath hneed hnot) with hway | ⟨-, hnew⟩
    · exact hnot hway
    · exact hnew hold
  · intro hfresh path hpath hneed hnot
    exact (underWay_libraries reqs).mpr (Or.inr
      ⟨Host.mem_serveLibRequests htaken hpath (hne path hneed) s.host,
        hfresh path hpath hneed hnot⟩)

/-- What is asked for and not on its way was not answered before, and so is answered now. -/
theorem Sound.answered (h : s.Sound) {e : LibEvent β V δ} (hok : s.Untroubled e) :
    s.Answered H e := by
  by_cases hreqs : ∃ w reqs, e = .host w (.libraries reqs)
  · obtain ⟨w, reqs, rfl⟩ := hreqs
    exact (answered_iff h.ne hok).mpr fun path _ hneed hnot hold =>
      hnot (h.underWay path hneed hold)
  · unfold Answered
    split
    next w reqs => exact absurd ⟨w, reqs, rfl⟩ hreqs
    next => trivial

end Steps

/-- In a run in which no answer is lost, every request is answered. In any run, a call answers
    what it names if and only if the host does not remember it, if the answers leave. -/
theorem need_libs_answered (H : Digests β V δ) (w₀ : World β V) (c0 f0 : Nat)
    (events : List (LibEvent β V δ)) :
    (Along (step H) Untroubled (start w₀ c0 f0) events →
        Along (step H) (Answered H) (start w₀ c0 f0) events) ∧
      ∀ (w : World β V) (reqs : List (String × Option (List β))),
        Host.Taken w reqs →
        (((start w₀ c0 f0).run H events).Answered H (.host w (.libraries reqs)) ↔
          ∀ path ∈ reqs.map Prod.fst,
            path ∈ ((start w₀ c0 f0).run H events).replica.needLibs →
            ¬ ((start w₀ c0 f0).run H events).UnderWay path →
            path ∉ ((start w₀ c0 f0).run H events).host.libsServed) := by
  have hstart : (start w₀ c0 f0 : LibSystem β V δ).Sound :=
    ⟨List.nodup_nil, fun _ hno => absurd hno List.not_mem_nil,
      fun _ hno => absurd hno List.not_mem_nil⟩
  refine ⟨fun hrun => Along.of_split fun done e rest hsplit => ?_,
    fun w reqs htaken => answered_iff (needLibs_ne H w₀ c0 f0 events) htaken⟩
  rw [hsplit, Along.append_iff] at hrun
  have hsound : (done.foldl (step H) (start w₀ c0 f0)).Sound :=
    Along.invariant (I := Sound) (fun _ _ hs hok => hs.step hok) hstart hrun.1
  exact hsound.answered hrun.2.1

end LibSystem

/-! ## A replica that starts anew -/

namespace LibSystem

/-- A world without datablocks, whose transport takes everything. -/
def quiet : World Unit Unit where
  dbs := Dict.empty
  stamps u hu := nomatch hu

/-- The digests do not matter. -/
def blank : Digests Unit Unit Unit where
  blob _ _ := ()
  scene _ := ()

/-- The file is opened, and the replica asks for a library of it and gets it. -/
def opened : List (LibEvent Unit Unit Unit) :=
  [.host quiet .bootstrap, .host quiet .tick, .arrive true true,
    .bootApplied ["/lib/rocks.blend"],
    .host quiet (.libraries [("/lib/rocks.blend", some [()])]), .host quiet .tick,
    .arrive true true]

/-- It starts anew, and the file comes once more. -/
def reopened : List (LibEvent Unit Unit Unit) :=
  opened ++ [.restart, .newSession, .host quiet .bootstrap, .host quiet .tick,
    .arrive true true, .bootApplied ["/lib/rocks.blend"]]

/-- Both sides, at the file that is opened. -/
theorem need_libs_answered_opened :
    Along (step blank) (Answered blank) (start quiet 0 0) opened ∧
      (run blank (start quiet 0 0) (opened.take 4)).Answered blank
        (.host quiet (.libraries [("/lib/rocks.blend", some [()])])) := by
  refine ⟨(need_libs_answered blank quiet 0 0 opened).1 ?_,
    ((need_libs_answered blank quiet 0 0 (opened.take 4)).2 quiet _ (Or.inl fun _ => rfl)).mpr ?_⟩
  · refine ⟨trivial, trivial, ?_, ?_, Or.inl fun _ => rfl, trivial, ?_, trivial⟩
    · unfold Untroubled
      decide
    · unfold Untroubled
      decide
    · unfold Untroubled
      decide
  · intro path hpath
    obtain rfl := List.mem_singleton.mp hpath
    decide

/-- The replica starts anew, the file comes once more, and the library that is missing again is
    asked for in vain. -/
theorem need_libs_answered_counterexample :
    ¬ ∀ (H : Digests Unit Unit Unit) (w₀ : World Unit Unit) (c0 f0 : Nat)
      (events : List (LibEvent Unit Unit Unit)),
        Along (step H) (Answered H) (start w₀ c0 f0) events := by
  intro hall
  have hrun := hall blank quiet 0 0
    (reopened ++ [.host quiet (.libraries [("/lib/rocks.blend", some [()])])])
  have hlast := ((Along.append_iff ..).mp hrun).2.1
  have hway := hlast "/lib/rocks.blend" (List.mem_singleton_self _) (by decide) (by decide)
  revert hway
  decide

end LibSystem

end QCBridge
