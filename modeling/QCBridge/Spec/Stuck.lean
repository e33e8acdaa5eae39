import QCBridge.Spec.FastOrder

/-!
# No edit gets stuck

The flush takes up a dirty datablock when the debouncer says that its window is over,
and the debouncer forgets it then. What goes back to the dirty set must go back to the
debouncer too, or no tick looks at it again. A tier-1 message that does not leave puts
its datablock back without that.

## Key results

- `Host.NoneStuck`: each dirty datablock will be ready
- `none_stuck`: it is so while the debouncer holds what is given back
-/

namespace QCBridge

variable {β V δ : Type}

/-- What is given back is held by the debouncer. -/
def BacksHeld (journal : List (Note β V δ)) : Prop :=
  ∀ u touched, Note.givenBack u touched ∈ journal → touched = true

/-- A journal with notes that give nothing back. -/
theorem BacksHeld.of_append {journal more : List (Note β V δ)}
    (h : BacksHeld (journal ++ more)) : BacksHeld journal :=
  fun u touched hmem => h u touched (List.mem_append_left _ hmem)

/-- A datablock that the debouncer holds is ready once its window is over. -/
theorem Debouncer.mem_ready {d : Debouncer} {u : Uuid} {t now : Int}
    (h : d.touched.get? u = some t) (hdue : t + debounceMs ≤ now) : u ∈ (d.ready now).2 := by
  have hmem := (d.touched.mem_entries_iff u t).mpr h
  apply List.mem_map_of_mem (a := (u, t))
  apply List.mem_filter.mpr
  refine ⟨hmem, ?_⟩
  unfold due
  rw [decide_eq_true_eq]
  omega

/-- The debouncer keeps what is not ready. -/
private theorem Debouncer.held_of_not_ready {d : Debouncer} {u : Uuid} {now : Int}
    (h : (d.touched.get? u).isSome) (hnot : u ∉ (d.ready now).2) :
    ((d.ready now).1.touched.get? u).isSome := by
  obtain ⟨t, ht⟩ := Option.isSome_iff_exists.mp h
  have hlate : due now t = false := by
    rw [Bool.eq_false_iff]
    intro hdue
    apply hnot
    unfold due at hdue
    rw [decide_eq_true_eq] at hdue
    exact mem_ready ht (by omega)
  have hmem : (u, t) ∈ (d.ready now).1.touched.entries :=
    List.mem_filter.mpr ⟨(d.touched.mem_entries_iff u t).mpr ht, by simp [hlate]⟩
  rw [Dict.get?_of_mem hmem]
  rfl

theorem Debouncer.get?_touch (d : Debouncer) (u u' : Uuid) (now : Int) :
    (d.touch u now).touched.get? u' = if u = u' then some now else d.touched.get? u' :=
  Dict.get?_insert ..

namespace Host

/-- Each dirty datablock is in the debouncer, and will be ready with no further edit. -/
def NoneStuck (h : Host β V δ) : Prop :=
  ∀ u t, h.dirty.entries.get? u = some (.dirty t) →
    ∃ t0, h.debounce.touched.get? u = some t0 ∧
      ∀ now, t0 + debounceMs ≤ now → u ∈ (h.debounce.ready now).2

/-- The debouncer holds what is dirty, and `late`, while it holds what is given back. -/
def Held (late : List Uuid) (h : Host β V δ) : Prop :=
  BacksHeld h.journal →
    (∀ u t, h.dirty.entries.get? u = some (.dirty t) → (h.debounce.touched.get? u).isSome) ∧
    ∀ u ∈ late, (h.debounce.touched.get? u).isSome

namespace Held

variable {late : List Uuid} {h h' : Host β V δ}

/-- The dirty set and the debouncer stay. -/
theorem note (hh : h.Held late) (notes : List (Note β V δ))
    (hjournal : h'.journal = h.journal ++ notes) (hdirty : h'.dirty.entries = h.dirty.entries)
    (hdebounce : h'.debounce = h.debounce) : h'.Held late := by
  unfold Held
  rw [hjournal, hdirty, hdebounce]
  exact fun hback => hh hback.of_append

/-- A datablock is dirty that the debouncer holds. -/
theorem mark (hh : h.Held late) {u : Uuid} {t : Tier} (notes : List (Note β V δ))
    (hjournal : h'.journal = h.journal ++ notes) (hdirty : h'.dirty = h.dirty.mark u t)
    (hdebounce : ∀ u', (h.debounce.touched.get? u').isSome →
      (h'.debounce.touched.get? u').isSome)
    (hheld : BacksHeld h'.journal → (h'.debounce.touched.get? u).isSome) : h'.Held late := by
  intro hback
  have hu := hheld hback
  rw [hjournal] at hback
  obtain ⟨hold, hlate⟩ := hh hback.of_append
  refine ⟨fun u' t' hget => ?_, fun u' hu' => hdebounce u' (hlate u' hu')⟩
  rw [hdirty, DirtySet.get?_mark] at hget
  split at hget
  · rename_i heq
    rwa [← heq]
  · exact hdebounce u' (hold u' t' hget)

/-- A datablock is tombstoned, or clean. -/
theorem gone (hh : h.Held late) {u : Uuid} (notes : List (Note β V δ))
    (hjournal : h'.journal = h.journal ++ notes)
    (hdirty : ∀ u' t, h'.dirty.entries.get? u' = some (.dirty t) →
      u ≠ u' ∧ h.dirty.entries.get? u' = some (.dirty t))
    (hdebounce : ∀ u', u ≠ u' → h'.debounce.touched.get? u' = h.debounce.touched.get? u')
    (hlate : u ∉ late ∨ h'.debounce = h.debounce) : h'.Held late := by
  intro hback
  rw [hjournal] at hback
  obtain ⟨hold, hheld⟩ := hh hback.of_append
  constructor
  · intro u' t hget
    obtain ⟨hne, hget⟩ := hdirty u' t hget
    rw [hdebounce u' hne]
    exact hold u' t hget
  · intro u' hu'
    rcases hlate with hnot | heq
    · rw [hdebounce u' (by rintro rfl; exact hnot hu')]
      exact hheld u' hu'
    · rw [heq]
      exact hheld u' hu'

end Held

/-- Touching a datablock drops no other one. -/
private theorem touch_isSome {d : Debouncer} {u u' : Uuid} {now : Int}
    (h : (d.touched.get? u').isSome) : ((d.touch u now).touched.get? u').isSome := by
  rw [Debouncer.get?_touch]
  split
  · rfl
  · exact h

private theorem keeps_held (w : World β V) (late : List Uuid) : Keeps (δ := δ) w (Held late) where
  -- what leaves the journal and the two queues alone
  same {h h'} hh hcore := by
    apply hh.note []
    · rw [journal_of_core hcore, List.append_nil]
    · rw [dirty_of_core hcore]
    · exact debounce_of_core hcore
  act {h a} _ hh := hh.note [.act a] rfl rfl rfl
  adopt u hh := hh.note [] (by simp [adopt]) rfl rfl
  -- what is given back is noted, with the debounce that it had
  requeued {h} u hh := by
    have hnote : (h.requeued u).journal =
        h.journal ++ [.givenBack u (h.debounce.touched.get? u).isSome] := rfl
    apply hh.mark _ hnote rfl
    · exact fun _ hu' => hu'
    · intro hback
      apply hback u
      rw [hnote]
      exact List.mem_append_right _ (List.mem_singleton_self _)
  -- a tombstone takes the place of a mark
  tombBack {h} u hh := by
    have hnote : (h.tombBack w u).journal =
        h.journal ++ [.tombBack u (w.dbs.get? u).isSome] := rfl
    apply hh.gone (u := u) _ hnote ?_ (fun _ _ => rfl) (.inr rfl)
    intro u' t hget
    have hentries : (h.tombBack w u).dirty.entries = h.dirty.entries.insert u .tombstone := rfl
    rw [hentries, Dict.get?_insert] at hget
    split at hget
    · cases hget
    · rename_i hne
      exact ⟨hne, hget⟩
  -- asking for a bootstrap is noted
  wantBoot u hh := hh.note [_] rfl rfl rfl

/-- What is marked deleted is not dirty, and nothing else becomes so. -/
theorem get?_markDeleted {d : DirtySet} {u u' : Uuid} {t : Tier}
    (h : (d.markDeleted u).entries.get? u' = some (.dirty t)) :
    u ≠ u' ∧ d.entries.get? u' = some (.dirty t) := by
  unfold DirtySet.markDeleted at h
  split at h
  · dsimp only at h
    rw [Dict.get?_insert] at h
    split at h
    · cases h
    · rename_i hne
      exact ⟨hne, h⟩
  · dsimp only at h
    rw [Dict.get?_erase] at h
    split at h
    · cases h
    · rename_i hne
      exact ⟨hne, h⟩

private theorem keepsSweep_held (w : World β V) : KeepsSweep (δ := δ) w (Held []) where
  toKeeps := keeps_held w []
  mark {h} u t now _ hh := by
    apply hh.mark [] (by simp [mark]) rfl
    · exact fun u' hu' => touch_isSome hu'
    · intro _
      show ((h.debounce.touch u now).touched.get? u).isSome = true
      rw [Debouncer.get?_touch, if_pos rfl]
      rfl
  readopt {h} u db _ _ hh := by
    apply hh.mark [_] rfl rfl
    · exact fun u' hu' => touch_isSome hu'
    · intro _
      show ((h.debounce.touch u w.now).touched.get? u).isSome = true
      rw [Debouncer.get?_touch, if_pos rfl]
      rfl
  forget {h} u _ hh := by
    apply hh.gone [_] rfl (fun u' t hget => get?_markDeleted hget)
    · exact fun u' hne => Dict.get?_erase_of_ne _ hne
    · exact .inl List.not_mem_nil

section Flush

variable [BEq V] [DecidableEq δ] (H : Digests β V δ) (w : World β V)

omit [BEq V] [DecidableEq δ] in
/-- The drain takes out what is dirty and what is ready; the rest is still held. -/
private theorem held_drained {h : Host β V δ} (hh : h.Held []) :
    (h.drained w).Held
      ((h.dirty.drain.2.2.map Prod.fst).filter (· ∉ (h.debounce.ready w.now).2)) := by
  unfold drained
  rw [foldl_note]
  intro hback
  obtain ⟨hold, -⟩ := hh hback.of_append
  refine ⟨fun u t hget => ?_, fun u hu => ?_⟩
  · cases hget
  · obtain ⟨hu, hnot⟩ := List.mem_filter.mp hu
    obtain ⟨⟨u', t⟩, hmem, rfl⟩ := List.mem_map.mp hu
    have hget := (h.dirty.entries.mem_entries_iff u' _).mp (DirtySet.mem_dirtyOf.mp hmem)
    exact Debouncer.held_of_not_ready (hold u' t hget) (by simpa using hnot)

/-- One entry of the flush, when the debouncer holds what it puts back. -/
private theorem held_flushEntry {late ready : List Uuid} {s : Host β V δ × Nat} {e : Uuid × Tier}
    (hs : s.1.Held late) (he : e.1 ∉ ready → e.1 ∈ late) :
    (flushEntry H w ready s e).1.Held late := by
  obtain ⟨h, budget⟩ := s
  obtain ⟨u, t⟩ := e
  unfold flushEntry
  dsimp only
  split
  · -- not ready: it was not taken out of the debouncer
    rename_i hnot
    have hjournal : ({ h with dirty := h.dirty.requeue u t } : Host β V δ).journal =
        h.journal ++ [] := (List.append_nil _).symm
    apply hs.mark _ hjournal rfl
    · exact fun _ hu' => hu'
    · intro hback
      exact (hs hback).2 u (he hnot)
  · split
    · -- over the budget: touched back
      have hjournal : ({ h with dirty := h.dirty.requeue u .t2 }.touchReady u
          w.now : Host β V δ).journal = h.journal ++ [] := (List.append_nil _).symm
      apply hs.mark _ hjournal rfl
      · exact fun u' hu' => touch_isSome hu'
      · intro _
        show ((h.debounce.touch u _).touched.get? u).isSome = true
        rw [Debouncer.get?_touch, if_pos rfl]
        rfl
    · exact (keeps_held w late).flushT2Or H _ _ _ hs
    · exact (keeps_held w late).flushT1 H _ hs

/-- The flush of the dirty set. -/
private theorem held_flushDirty {h : Host β V δ} (hh : h.Held []) : (h.flushDirty H w).Held [] := by
  have hdrained := held_drained w hh
  obtain ⟨h₁, hcore, heq⟩ := flushDirty_eq H (w := w) h
  rw [heq]
  generalize hready : (h.debounce.ready w.now).2 = ready at hdrained
  generalize hlate : (h.dirty.drain.2.2.map Prod.fst).filter (· ∉ ready) = late at hdrained
  have hloop : ∀ (entries : List (Uuid × Tier)) (s : Host β V δ × Nat), s.1.Held late →
      (∀ e ∈ entries, e.1 ∉ ready → e.1 ∈ late) →
      (entries.foldl (flushEntry H w ready) s).1.Held late := by
    intro entries
    induction entries with
    | nil => exact fun _ hs _ => hs
    | cons e entries ih =>
      intro s hs hall
      exact ih _ (held_flushEntry H w hs (hall e (by simp)))
        fun e' he' => hall e' (by simp [he'])
  have htombs := Keeps.foldl (fun h u hh => (keeps_held w late).sendTombstone u hh)
    h.dirty.drain.2.1 ((keeps_held w late).same hdrained hcore)
  have hflushed := hloop h.dirty.drain.2.2 (_, t2PerTick) htombs (by
    intro e he hnot
    rw [← hlate]
    exact List.mem_filter.mpr ⟨List.mem_map_of_mem he, by simpa using hnot⟩)
  intro hback
  exact ⟨(hflushed hback).1, fun u hu => absurd hu List.not_mem_nil⟩

private theorem keepsCall_held : KeepsCall H w (Held []) where
  toKeepsSweep := keepsSweep_held w
  autoSkip hh := hh.note [_] rfl rfl rfl
  autoBoot data sceneDigest hh := hh.note [_] rfl rfl rfl
  flush hh := held_flushDirty H w hh
  resend hh := (keeps_held w []).drainFastResend H
    (fun _ _ _ hh => hh.note [_] rfl rfl rfl)
    (fun _ hh => hh.note [.act .endFast] rfl rfl rfl) hh
  window gapAt hh := hh.note [_] rfl rfl rfl
  newFile {h} _ := by
    -- nothing is dirty after the scan
    have hscan := initialScan_scanned w
      { h with shadow := {}, debounce := {}, dirty := {}, uuidToDb := [], deadHandles := [] }
    obtain ⟨data, sceneDigest, hcore⟩ := sendBootstrap_core H w
      ({ h with
        shadow := {}, debounce := {}, dirty := {}, uuidToDb := [],
        deadHandles := [] }.initialScan w)
    simp only [scanned, Prod.mk.injEq] at hscan
    have hempty : (h.resetForNewFile H w).dirty.entries = Dict.empty := by
      show (sendBootstrap H w _).dirty.entries = _
      rw [dirty_of_core hcore]
      exact hscan.2.2.2.1
    intro _
    refine ⟨fun u t hget => ?_, fun u hu => absurd hu List.not_mem_nil⟩
    rw [hempty] at hget
    cases hget

/-! ## Sessions -/

/-- In every session in which the debouncer holds each datablock whose tier-1 message does
    not leave, each dirty datablock is in the debouncer, and will be ready. -/
theorem none_stuck (c0 f0 : Nat) (calls : List (World β V × Call β δ))
    (h : BacksHeld ((start w c0 f0).run H calls).journal) :
    ((start w c0 f0).run H calls).NoneStuck := by
  have hstart : (start w c0 f0 : Host β V δ).Held [] := by
    have hscan := initialScan_scanned w ({ ledger := Ledger.start c0 f0 } : Host β V δ)
    simp only [scanned, Prod.mk.injEq] at hscan
    intro _
    refine ⟨fun u t hget => ?_, fun u hu => absurd hu List.not_mem_nil⟩
    rw [show (start w c0 f0 : Host β V δ).dirty.entries = Dict.empty from hscan.2.2.2.1] at hget
    cases hget
  have hrun : ((start w c0 f0).run H calls).Held [] :=
    Keeps.foldl (f := call H) (I := Held [])
      (fun _ c hh => (keepsCall_held H c.1).call c.2 hh) calls hstart
  intro u t hget
  obtain ⟨t0, ht0⟩ := Option.isSome_iff_exists.mp ((hrun h).1 u t hget)
  exact ⟨t0, ht0, fun now hdue => Debouncer.mem_ready ht0 hdue⟩

end Flush

end Host

/-! ## An edit that is stuck -/

namespace Refused

open Camera

/-- The scene is seen through camera `"b"`, which the replica does not have, and the tick
    that should tell it comes to a transport that takes nothing. -/
def calls : List (World (Entry String) String × Host.Call (Entry String) Digest) :=
  [(file, .bootstrap), (file, .tick), (seen "b" 0, .depsgraph [{ uuid := "s" }]),
   ({ seen "b" 80 with accepts := fun _ => false }, .tick)]

/-- The host after that, and after ticks with a transport that takes everything. -/
def host (ticks : List Int) : Host (Entry String) String Digest :=
  (Host.start file 0 0).run digests (calls ++ ticks.map fun now => (seen "b" now, .tick))

end Refused

open Refused in
/-- The scene is dirty and the debouncer does not have it: no tick looks at it again. -/
theorem none_stuck_counterexample :
    (host [160, 240, 1000, 60000]).dirty.entries.get? "s" = some (.dirty .t1) ∧
      (host [160, 240, 1000, 60000]).ledger.fastLane = [] ∧
      ¬ (host []).NoneStuck := by
  refine ⟨by decide +kernel, by decide +kernel, fun h => ?_⟩
  have hdirty : (host []).dirty.entries.get? "s" = some (.dirty .t1) := by decide +kernel
  have hnone : (host []).debounce.touched.get? "s" = none := by decide +kernel
  obtain ⟨t0, ht0, -⟩ := h "s" .t1 hdirty
  rw [hnone] at ht0
  cases ht0

open Camera in
/-- With a transport that takes everything, the second edit waits for its window. -/
theorem none_stuck_taken :
    ((Host.start file 0 0).run digests ((Camera.calls "c").take 5)).NoneStuck ∧
      ((Host.start file 0 0).run digests
        ((Camera.calls "c").take 5)).dirty.entries.get? "s" = some (.dirty .t1) :=
  ⟨Host.none_stuck digests file 0 0 ((Camera.calls "c").take 5) (by
    have hnone : (((Host.start file 0 0).run digests
        ((Camera.calls "c").take 5)).journal.all fun
      | .givenBack _ touched => touched
      | _ => true) = true := by decide +kernel
    exact fun u touched hmem => List.all_eq_true.mp hnone _ hmem), by decide +kernel⟩

end QCBridge
