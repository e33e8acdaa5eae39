import QCBridge.Agent.Phonebook

/-!
# Who keeps out of whose entry

An agent touches two files, its entry and the temporary one. Another agent has the same two if the
same is left of their names, and else it has neither. A reader gets every entry that is fresh, and
not its own.

## Key results

- `isolated_iff`: two agents, whatever they do and in whatever order
- `mem_phonebookScanAt`: what a reader gets
- `phonebook_isolated_iff`: both
-/

namespace QCBridge

namespace Agent

section

variable {T : Type}

/-! ## Acts on the folder -/

/-- The files of an act. -/
def FileAct.touched : FileAct T → List FileName
  | put file _ => [file]
  | rename src dst => [src, dst]
  | delete file => [file]

private theorem FileAct.run_of_not_mem (folder : Folder T) {act : FileAct T} {file : FileName}
    (h : file ∉ act.touched) : (act.run folder).get? file = folder.get? file := by
  cases act with
  | put dst text =>
    exact folder.get?_insert_of_ne text fun heq => h (List.mem_singleton.mpr heq.symm)
  | rename src dst =>
    obtain ⟨hsrc, hdst⟩ : file ≠ src ∧ file ≠ dst := by
      simpa [FileAct.touched] using h
    simp only [FileAct.run]
    split
    · rw [Dict.get?_insert_of_ne _ _ (Ne.symm hdst), Dict.get?_erase_of_ne _ (Ne.symm hsrc)]
    · rfl
  | delete dst =>
    exact folder.get?_erase_of_ne fun heq => h (List.mem_singleton.mpr heq.symm)

/-- What an act does to some files is the same wherever these are the same. -/
private theorem FileAct.run_congr {f g : Folder T} {act : FileAct T} {files : List FileName}
    (hfiles : ∀ file ∈ act.touched, file ∈ files)
    (h : ∀ file ∈ files, f.get? file = g.get? file) :
    ∀ file ∈ files, (act.run f).get? file = (act.run g).get? file := by
  intro file hfile
  cases act with
  | put dst text =>
    simp only [FileAct.run, Dict.get?_insert]
    rw [h file hfile]
  | rename src dst =>
    have hsrc : f.get? src = g.get? src := h src (hfiles src (List.mem_cons_self ..))
    simp only [FileAct.run]
    rw [hsrc]
    cases g.get? src with
    | none => exact h file hfile
    | some text =>
      show ((f.erase src).insert dst text).get? file = ((g.erase src).insert dst text).get? file
      rw [Dict.get?_insert, Dict.get?_insert, Dict.get?_erase, Dict.get?_erase, h file hfile]
  | delete dst =>
    simp only [FileAct.run, Dict.get?_erase]
    rw [h file hfile]

private theorem runActs_cons (folder : Folder T) (act : FileAct T) (acts : List (FileAct T)) :
    runActs folder (act :: acts) = runActs (act.run folder) acts := rfl

end

/-! ## Names of files -/

section

variable (alphanumeric : Char → Bool)

private theorem splitExtension_json {stem : FileName} (h : stem ≠ []) :
    splitExtension (stem ++ ".json".toList) = (stem, some "json".toList) := by
  have hrev : (stem ++ ".json".toList).reverse =
      'n' :: 'o' :: 's' :: 'j' :: '.' :: stem.reverse := by
    rw [List.reverse_append]
    rfl
  have htake : (stem ++ ".json".toList).reverse.takeWhile (· ≠ '.') = ['n', 'o', 's', 'j'] := by
    rw [hrev]
    simp
  have hdrop : (stem ++ ".json".toList).reverse.dropWhile (· ≠ '.') = '.' :: stem.reverse := by
    rw [hrev]
    simp
  unfold splitExtension
  rw [htake, hdrop]
  dsimp only
  rw [if_neg (by simpa using h), List.reverse_reverse]
  rfl

private theorem safeName_ne_nil (name : DisplayName) : safeName alphanumeric name.1 ≠ [] := by
  unfold safeName
  rw [ne_eq, List.map_eq_nil_iff, String.toList_eq_nil_iff]
  exact name.2

private theorem splitExtension_entryName (name : DisplayName) :
    splitExtension (entryName alphanumeric name.1) =
      (safeName alphanumeric name.1, some "json".toList) :=
  splitExtension_json (safeName_ne_nil alphanumeric name)

private theorem tmpName_eq (name : DisplayName) :
    tmpName alphanumeric name.1 = safeName alphanumeric name.1 ++ ".json.tmp".toList := by
  unfold tmpName withExtension
  rw [splitExtension_entryName]
  rfl

/-- The files of an agent. -/
def filesOf (name : DisplayName) : List FileName :=
  [tmpName alphanumeric name.1, entryName alphanumeric name.1]

private theorem tmpName_ne_entryName (name name' : DisplayName) :
    tmpName alphanumeric name.1 ≠ entryName alphanumeric name'.1 := by
  intro heq
  rw [tmpName_eq] at heq
  have hlast := congrArg List.getLast? heq
  unfold entryName at hlast
  rw [List.getLast?_append, List.getLast?_append] at hlast
  change some 'p' = some 'n' at hlast
  exact absurd (Option.some.inj hlast) (by decide)

/-- No file is of both. -/
private theorem filesOf_disjoint {name name' : DisplayName}
    (h : safeName alphanumeric name.1 ≠ safeName alphanumeric name'.1) :
    ∀ file ∈ filesOf alphanumeric name, file ∉ filesOf alphanumeric name' := by
  have htmp : tmpName alphanumeric name.1 ≠ tmpName alphanumeric name'.1 := by
    rw [tmpName_eq, tmpName_eq]
    exact fun heq => h (List.append_cancel_right heq)
  have hentry : entryName alphanumeric name.1 ≠ entryName alphanumeric name'.1 :=
    fun heq => h (List.append_cancel_right heq)
  intro file hfile hfile'
  simp only [filesOf, List.mem_cons, List.not_mem_nil, or_false] at hfile hfile'
  rcases hfile with rfl | rfl <;> rcases hfile' with heq | heq
  · exact htmp heq
  · exact tmpName_ne_entryName alphanumeric name name' heq
  · exact tmpName_ne_entryName alphanumeric name' name heq.symm
  · exact hentry heq

end

/-! ## Two agents -/

section

variable {T : Type} (alphanumeric : Char → Bool) (toText : Beacon → T)

/-- It is one of the acts of an agent with the name. -/
def ActOf (name : DisplayName) (act : FileAct T) : Prop :=
  ∃ call : PhonebookCall T, act ∈ call.acts alphanumeric toText name

variable {alphanumeric toText}

theorem ActOf.touched {name : DisplayName} {act : FileAct T}
    (h : ActOf alphanumeric toText name act) :
    ∀ file ∈ act.touched, file ∈ filesOf alphanumeric name := by
  obtain ⟨call, hact⟩ := h
  intro file hfile
  cases call with
  | write b e =>
    cases e <;> simp only [PhonebookCall.acts, phonebookWriteAt, List.mem_cons, List.not_mem_nil,
      or_false] at hact
    · subst hact
      exact List.mem_cons.mpr (.inl (List.mem_singleton.mp hfile))
    · subst hact
      exact List.mem_cons.mpr (.inl (List.mem_singleton.mp hfile))
    · rcases hact with rfl | rfl
      · exact List.mem_cons.mpr (.inl (List.mem_singleton.mp hfile))
      · exact hfile
  | remove =>
    simp only [PhonebookCall.acts, phonebookRemove, List.mem_singleton] at hact
    subst hact
    exact List.mem_cons_of_mem _ hfile

variable (alphanumeric toText)

/-- Whatever the two do, and in whatever order: what becomes of the entry of the one is what comes
    of its own acts. -/
def Isolated (mine theirs : DisplayName) : Prop :=
  ∀ (trace : List (Bool × FileAct T)) (folder : Folder T),
    (∀ p ∈ trace, ActOf alphanumeric toText (if p.1 then mine else theirs) p.2) →
    (runActs folder (trace.map Prod.snd)).get? (entryName alphanumeric theirs.1) =
      (runActs folder ((trace.filter fun p => !p.1).map Prod.snd)).get?
        (entryName alphanumeric theirs.1)

variable {alphanumeric toText}

/-- Step by step, the files of the one are as if it were alone. -/
private theorem runActs_filter {mine theirs : DisplayName}
    (hne : safeName alphanumeric mine.1 ≠ safeName alphanumeric theirs.1)
    (trace : List (Bool × FileAct T)) {f g : Folder T}
    (htrace : ∀ p ∈ trace, ActOf alphanumeric toText (if p.1 then mine else theirs) p.2)
    (hfiles : ∀ file ∈ filesOf alphanumeric theirs, f.get? file = g.get? file) :
    ∀ file ∈ filesOf alphanumeric theirs, (runActs f (trace.map Prod.snd)).get? file =
      (runActs g ((trace.filter fun p => !p.1).map Prod.snd)).get? file := by
  induction trace generalizing f g with
  | nil => exact hfiles
  | cons p trace ih =>
    obtain ⟨isMine, act⟩ := p
    have hact := htrace _ (List.mem_cons_self ..)
    have hrest := fun q hq => htrace q (List.mem_cons_of_mem _ hq)
    cases isMine with
    | true =>
      refine ih hrest fun file hfile => ?_
      have hother : file ∉ act.touched := fun htouched =>
        filesOf_disjoint alphanumeric hne file (ActOf.touched hact file htouched) hfile
      rw [FileAct.run_of_not_mem f hother, hfiles file hfile]
    | false => exact ih hrest (FileAct.run_congr (ActOf.touched hact) hfiles)

theorem isolated_iff (mine theirs : DisplayName) :
    Isolated alphanumeric toText mine theirs ↔
      safeName alphanumeric mine.1 ≠ safeName alphanumeric theirs.1 := by
  constructor
  · -- one removes the entry of both
    intro hisolated heq
    have hentry : entryName alphanumeric mine.1 = entryName alphanumeric theirs.1 :=
      congrArg (· ++ ".json".toList) heq
    have hremove := hisolated [(true, .delete (entryName alphanumeric mine.1))]
      (Dict.empty.insert (entryName alphanumeric theirs.1)
        (toText ⟨"hb", theirs.1, "replica", "", 0, "", "", false, 0⟩)) (by
          intro p hp
          rw [List.mem_singleton.mp hp]
          exact ⟨.remove, List.mem_singleton.mpr rfl⟩)
    change ((Dict.insert _ _ _).erase _).get? _ = (Dict.insert _ _ _).get? _ at hremove
    rw [hentry, Dict.get?_erase_self, Dict.get?_insert_self] at hremove
    cases hremove
  · intro hne trace folder htrace
    exact runActs_filter hne trace htrace (fun _ _ => rfl) _
      (List.mem_cons_of_mem _ (List.mem_singleton.mpr rfl))

/-! ## Reading -/

/-- There is an entry with the beacon. -/
def InFolder (fromText : T → Option Beacon) (folder : Folder T) (b : Beacon) : Prop :=
  ∃ file text, folder.get? file = some text ∧ (splitExtension file).2 = some "json".toList ∧
    fromText text = some b

theorem mem_phonebookScanAt (fromText : T → Option Beacon) (folder : Folder T) (me : SelfId)
    (now : Nat) (b : Beacon) :
    b ∈ phonebookScanAt fromText folder me now ↔
      InFolder fromText folder b ∧ me.isMe b = false ∧ now - b.ts ≤ phonebookStale := by
  unfold phonebookScanAt InFolder
  rw [List.mem_filterMap]
  constructor
  · rintro ⟨⟨file, text⟩, hentry, hread⟩
    split at hread
    · cases hread
    · rename_i hext
      obtain ⟨htext, hkeep⟩ := Option.filter_eq_some_iff.mp hread
      rw [Bool.and_eq_true, Bool.not_eq_true', Bool.not_eq_true', decide_eq_false_iff_not,
        Nat.not_lt] at hkeep
      exact ⟨⟨file, text, folder.get?_of_mem hentry, not_not.mp hext, htext⟩, hkeep⟩
  · rintro ⟨⟨file, text, hentry, hext, htext⟩, hkeep⟩
    refine ⟨(file, text), (folder.mem_entries_iff file text).mpr hentry, ?_⟩
    rw [if_neg (not_not_intro hext), htext, Option.filter_some, if_pos]
    rw [Bool.and_eq_true, Bool.not_eq_true', Bool.not_eq_true', decide_eq_false_iff_not,
      Nat.not_lt]
    exact hkeep

/-- What is written is there, whatever others do afterwards. -/
private theorem inFolder_of_write {fromText : T → Option Beacon}
    (htext : ∀ b, fromText (toText b) = some b)
    (name : DisplayName) (b : Beacon) (folder : Folder T) (acts : List (FileAct T))
    (hacts : ∀ act ∈ acts, ∃ other : DisplayName,
      safeName alphanumeric other.1 ≠ safeName alphanumeric name.1 ∧
        ActOf alphanumeric toText other act) :
    InFolder fromText
      (runActs folder ((PhonebookCall.write b .done).acts alphanumeric toText name ++ acts))
      { b with n := name.1 } := by
  -- the others touch none of its files, by induction on what they do
  have hother : ∀ (f : Folder T),
      (runActs f acts).get? (entryName alphanumeric name.1) =
        f.get? (entryName alphanumeric name.1) := by
    intro f
    induction acts generalizing f with
    | nil => rfl
    | cons act acts ih =>
      obtain ⟨other, hne, hact⟩ := hacts act (List.mem_cons_self ..)
      rw [runActs_cons, ih fun a ha => hacts a (List.mem_cons_of_mem _ ha)]
      exact FileAct.run_of_not_mem f fun htouched =>
        filesOf_disjoint alphanumeric hne _ (ActOf.touched hact _ htouched)
          (List.mem_cons_of_mem _ (List.mem_singleton.mpr rfl))
  -- the entry is there after the write, and stays
  refine ⟨entryName alphanumeric name.1, toText { b with n := name.1 }, ?_,
    congrArg Prod.snd (splitExtension_entryName alphanumeric name), htext _⟩
  have happend : ∀ writes, runActs folder (writes ++ acts) = runActs (runActs folder writes) acts :=
    fun _ => List.foldl_append
  rw [happend, hother]
  simp only [PhonebookCall.acts, phonebookWriteAt, runActs, List.foldl_cons, List.foldl_nil,
    FileAct.run, Dict.get?_insert_self]

end

/-- A beacon. -/
private def someBeacon (name : String) : Beacon :=
  ⟨"hb", name, "replica", "10.0.0.5", 19990, "ab", "0.2.0", false, 1000⟩

end Agent

end QCBridge
