import QCBridge.Spec.FastOrder
import QCBridge.ForStd.History

/-!
# The bootstrap that a structural change asks for

A type without tier 2 that changed asks for a bootstrap. The request waits for its
deadline, and is dropped when a bootstrap was queued less than ten seconds before:
right when that bootstrap was serialized after the change, wrong when it was
serialized before it.

## Key results

- `owesBoot`: whether a change is still without a bootstrap
- `boot_follows`: no request is lost that was not dropped while one was owed
-/

namespace QCBridge

variable {β V δ : Type}

/-! ## What is owed -/

/-- What a note does to the question whether a bootstrap is owed. -/
def Note.owes (owed : Bool) : Note β V δ → Bool
  | .unsupported _ => true
  | .act (.cutBoot _ _) => false
  | _ => owed

/-- A type without tier 2 changed, and no bootstrap was serialized since. -/
def owesBoot (journal : List (Note β V δ)) : Bool := journal.foldl Note.owes false

private theorem owesBoot_snoc (journal : List (Note β V δ)) (n : Note β V δ) :
    owesBoot (journal ++ [n]) = n.owes (owesBoot journal) := by
  simp [owesBoot]

/-- Notes that concern no bootstrap. -/
private theorem foldl_owes {l : List (Note β V δ)} (h : ∀ n ∈ l, ∀ owed, n.owes owed = owed)
    (owed : Bool) : l.foldl Note.owes owed = owed := by
  induction l with
  | nil => rfl
  | cons n l ih =>
    rw [List.foldl_cons, h n (by simp)]
    exact ih fun n' hn' => h n' (by simp [hn'])

/-- A change that no bootstrap follows is owed one. -/
private theorem owesBoot_of_split {journal before after : List (Note β V δ)} {u : Uuid}
    (h : journal = before ++ .unsupported u :: after)
    (hnone : ∀ data sceneDigest, Note.act (.cutBoot data sceneDigest) ∉ after) :
    owesBoot journal = true := by
  have hkeep : ∀ n ∈ after, n.owes true = true := by
    intro n hn
    unfold Note.owes
    split
    · rfl
    · rename_i data sceneDigest
      exact absurd hn (hnone data sceneDigest)
    · rfl
  have hrest : ∀ l : List (Note β V δ), (∀ n ∈ l, n.owes true = true) →
      l.foldl Note.owes true = true := by
    intro l
    induction l with
    | nil => exact fun _ => rfl
    | cons n l ih =>
      intro hl
      rw [List.foldl_cons, hl n (by simp)]
      exact ih fun n' hn' => hl n' (by simp [hn'])
  unfold owesBoot
  rw [h, List.foldl_append, List.foldl_cons]
  exact hrest after hkeep

/-- The request is dropped only when no bootstrap is owed. -/
def SkipsAnswered (before : List (Note β V δ)) : Note β V δ → Prop
  | .autoSkipped => owesBoot before = false
  | _ => True

/-- Each change is followed by a bootstrap, or one is pending. -/
def Host.BootFollows (h : Host β V δ) : Prop :=
  ∀ before u after, h.journal = before ++ .unsupported u :: after →
    (∃ data sceneDigest, Note.act (.cutBoot data sceneDigest) ∈ after) ∨
      h.autoBootAt.isSome = true

/-! ## The invariant -/

namespace Host

/-- A bootstrap that is owed is pending, while no request was dropped that was owed. -/
def OwedPending (h : Host β V δ) : Prop :=
  History SkipsAnswered h.journal → owesBoot h.journal = true → h.autoBootAt.isSome = true

namespace OwedPending

variable {h h' : Host β V δ}

/-- A note that changes nothing, and a deadline that stays. -/
theorem note (hh : h.OwedPending) {n : Note β V δ} (hn : ∀ owed, n.owes owed = owed)
    (hjournal : h'.journal = h.journal ++ [n]) (hat : h'.autoBootAt = h.autoBootAt) :
    h'.OwedPending := by
  unfold OwedPending
  rw [hjournal, owesBoot_snoc, hn, hat]
  exact fun hpast howed => hh hpast.of_append howed

/-- A bootstrap is serialized: nothing is owed. -/
theorem boot {data : List β} {sceneDigest : Option δ}
    (hjournal : h'.journal = h.journal ++ [.act (.cutBoot data sceneDigest)]) :
    h'.OwedPending := by
  intro _ howed
  rw [hjournal, owesBoot_snoc] at howed
  cases howed

theorem of_eq (hh : h.OwedPending) (hjournal : h'.journal = h.journal)
    (hat : h'.autoBootAt = h.autoBootAt) : h'.OwedPending := by
  unfold OwedPending
  rw [hjournal, hat]
  exact hh

end OwedPending

private theorem keepsSweep_owedPending (w : World β V) : KeepsSweep (δ := δ) w OwedPending where
  same hh hcore := by
    exact hh.of_eq (journal_of_core hcore) (autoBootAt_of_core hcore)
  act {h a} _ hh := by
    cases a with
    | cutBoot data sceneDigest => exact .boot rfl
    | _ => exact hh.note (fun _ => rfl) rfl rfl
  adopt u hh := hh.of_eq rfl rfl
  requeued u hh := hh.note (n := .givenBack _ _) (fun _ => rfl) rfl rfl
  tombBack u hh := hh.note (n := .tombBack _ _) (fun _ => rfl) rfl rfl
  wantBoot u hh := fun _ _ => rfl
  mark u t now _ hh := hh.of_eq rfl rfl
  readopt u db _ _ hh := hh.note (n := .readopted _) (fun _ => rfl) rfl rfl
  forget u _ hh := hh.note (n := .forgotten _) (fun _ => rfl) rfl rfl

variable [BEq V] [DecidableEq δ] (H : Digests β V δ)

private theorem keepsCall_owedPending (w : World β V) : KeepsCall H w OwedPending where
  toKeepsSweep := keepsSweep_owedPending w
  autoSkip {h} hh := by
    intro hpast howed
    have hjournal : ({ h with autoBootAt := none }.note .autoSkipped).journal =
        h.journal ++ [.autoSkipped] := rfl
    -- what is dropped was not owed
    rw [hjournal] at hpast howed
    rw [owesBoot_snoc] at howed
    have hnot : owesBoot h.journal = false := hpast.last
    rw [show Note.autoSkipped.owes (owesBoot h.journal) = owesBoot h.journal from rfl, hnot]
      at howed
    cases howed
  autoBoot data sceneDigest _ := .boot rfl
  flush hh := (keepsSweep_owedPending w).flushDirty H
    (fun {h} hh => by
      unfold drained
      rw [foldl_note]
      intro hpast howed
      apply hh hpast.of_append
      have hkeep := foldl_owes (l := h.dirty.drain.2.1.map fun u =>
        (Note.drained u (w.dbs.get? u).isSome : Note β V δ)) (fun n hn owed => by
          obtain ⟨u, -, rfl⟩ := List.mem_map.mp hn
          rfl) (owesBoot h.journal)
      unfold owesBoot at howed
      rw [List.foldl_append] at howed
      exact hkeep.symm.trans howed)
    (fun _ _ hh => hh.of_eq rfl rfl) (fun _ hh => hh.of_eq rfl rfl) hh
  resend hh := (keepsSweep_owedPending w).drainFastResend H
    (fun _ _ _ hh => hh.note (n := .reasserted _ _ _ _) (fun _ => rfl) rfl rfl)
    (fun _ hh => hh.note (n := .act .endFast) (fun _ => rfl) rfl rfl) hh
  window gapAt hh := hh.note (n := .windowed gapAt) (fun _ => rfl) rfl rfl
  newFile {h} _ := by
    obtain ⟨data, sceneDigest, hjournal⟩ := resetForNewFile_journal H w h
    exact .boot hjournal

/-! ## Sessions -/

/-- In every session in which a request is dropped only when no bootstrap is owed, each
    change of a type without tier 2 is followed by a bootstrap, or one is pending. -/
theorem boot_follows (w : World β V) (c0 f0 : Nat) (calls : List (World β V × Call β δ))
    (h : History SkipsAnswered ((start w c0 f0).run H calls).journal) :
    ((start w c0 f0).run H calls).BootFollows := by
  have hstart : (start w c0 f0 : Host β V δ).OwedPending := by
    have hscan := initialScan_scanned w ({ ledger := Ledger.start c0 f0 } : Host β V δ)
    simp only [scanned, Prod.mk.injEq] at hscan
    intro _ howed
    rw [show (start w c0 f0 : Host β V δ).journal = [] from hscan.2.2.1] at howed
    cases howed
  have hrun : ((start w c0 f0).run H calls).OwedPending :=
    Keeps.foldl (f := call H) (I := OwedPending)
      (fun _ c hh => (keepsCall_owedPending H c.1).call c.2 hh) calls hstart
  intro before u after hjournal
  by_cases hnone : ∀ data sceneDigest, Note.act (.cutBoot data sceneDigest) ∉ after
  · exact .inr (hrun h (owesBoot_of_split hjournal hnone))
  · push Not at hnone
    exact .inl hnone

end Host

/-! ## A request that is dropped -/

namespace Struct

open Camera (Digest digests)

/-- A scene whose structure is `struct`. -/
def scene (struct : String) : Datablock (Entry String) String where
  kind := .scene
  snapshot := .ofList [(.signature "scene_struct", struct)]
  blend := none

/-- A file that has only the scene. -/
def file (struct : String) (now : Int) : World (Entry String) String where
  dbs := ⟨[("s", scene struct)], by simp⟩
  stamps := by simp [Dict.keys, mainfileUuid]
  mainfile := [("s", (scene struct).snapshot)]
  now := now

/-- The file is serialized, its structure changes a tenth of a second later, and the
    request is looked at when the clock shows `last`. -/
def calls (last : Int) : List (World (Entry String) String × Host.Call (Entry String) Digest) :=
  [(file "1" 0, .bootstrap), (file "1" 0, .tick), (file "2" 100, .depsgraph [{ uuid := "s" }]),
   (file "2" 200, .tick), (file "2" last, .tick)]

/-- The host after that. -/
def host (last : Int) : Host (Entry String) String Digest :=
  (Host.start (file "1" 0) 0 0).run digests (calls last)

/-- The bootstraps of a journal. -/
def boots (journal : List (Note (Entry String) String Digest)) : List (List (Entry String)) :=
  journal.filterMap fun
    | .act (.cutBoot data _) => some data
    | _ => none

end Struct

open Struct in
/-- The request is due a second after the change, less than ten seconds after the
    bootstrap that does not have the change: it is dropped, and nothing is pending. -/
theorem boot_follows_counterexample :
    Note.unsupported "s" ∈ (host 1200).journal ∧
      boots (host 1200).journal = [(file "1" 0).mainfile] ∧
      (host 1200).autoBootAt = none ∧ ¬ (host 1200).BootFollows := by
  refine ⟨by decide +kernel, by decide +kernel, by decide +kernel, fun h => ?_⟩
  have hsplit : (host 1200).journal = (host 1200).journal.take 2 ++
      .unsupported "s" :: [.autoSkipped] := by decide +kernel
  have hnone : (host 1200).autoBootAt.isSome = false := by decide +kernel
  rcases h _ _ _ hsplit with ⟨data, sceneDigest, hmem⟩ | hpending
  · simp at hmem
  · rw [hnone] at hpending
    cases hpending

open Camera Struct in
/-- Ten seconds after the bootstrap the request is granted. -/
theorem boot_follows_granted :
    (host 10000).BootFollows ∧
      boots (host 10000).journal = [(file "1" 0).mainfile, (file "2" 0).mainfile] :=
  ⟨Host.boot_follows digests (Struct.file "1" 0) 0 0 (Struct.calls 10000) (by
    apply History.of_forall
    have hnone : (((Host.start (Struct.file "1" 0) 0 0).run digests
        (Struct.calls 10000)).journal.all fun n => decide (n ≠ .autoSkipped)) = true := by
      decide +kernel
    intro n hn before
    have hne := List.all_eq_true.mp hnone n hn
    unfold SkipsAnswered
    split
    · simp at hne
    · trivial), by decide +kernel⟩

end QCBridge
