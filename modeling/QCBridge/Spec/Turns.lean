import QCBridge.Spec.Repairing
import QCBridge.Spec.Stuck

/-!
# Whose turn it is

The drain takes the dirty datablocks in the order of their marks. Two blobs leave, and the
other entries go back in that order, so whoever waits for a blob has two fewer before it in
the next drain.

## Key results

- `DirtySet.ahead`: how many entries come before a datablock's
- `Host.flushDirty_turn`: what a drain does for an entry
-/

namespace QCBridge

variable {β V δ : Type}

/-! ## The order of the dirty set -/

namespace DirtySet

/-- How many entries come before that of `u`. -/
def ahead (d : DirtySet) (u : Uuid) : Nat := d.entries.keys.idxOf u

/-- A mark puts a new datablock at the end, and moves none. -/
private theorem keys_mark (d : DirtySet) (u : Uuid) (t : Tier) :
    (d.mark u t).entries.keys =
      if u ∈ d.entries.keys then d.entries.keys else d.entries.keys ++ [u] := by
  unfold mark
  split
  · rename_i hget
    rw [if_pos ((Dict.mem_keys_iff ..).mpr ⟨_, hget⟩)]
  · exact Dict.keys_insert ..
  · exact Dict.keys_insert ..

/-- A mark goes behind those that are there. -/
theorem ahead_mark {d : DirtySet} {u : Uuid} (hu : u ∈ d.entries.keys) (u' : Uuid) (t : Tier) :
    (d.mark u' t).ahead u = d.ahead u := by
  unfold ahead
  rw [keys_mark]
  split
  · rfl
  · exact List.idxOf_append_of_mem hu

/-- As many are ahead of it as there were. -/
private theorem ahead_mark_new {d : DirtySet} {u : Uuid} (hu : u ∉ d.entries.keys) (t : Tier) :
    (d.mark u t).ahead u = d.entries.keys.length := by
  unfold ahead
  rw [keys_mark, if_neg hu, List.idxOf_append_of_notMem hu, List.idxOf_cons_self, Nat.add_zero]

/-- A mark adds one entry at most. -/
private theorem length_keys_mark (d : DirtySet) (u : Uuid) (t : Tier) :
    (d.mark u t).entries.keys.length ≤ d.entries.keys.length + 1 := by
  rw [keys_mark]
  split
  · omega
  · simp

/-- Taking an entry away brings nobody back. -/
private theorem idxOf_filter_le (p : Uuid → Bool) {u : Uuid} (hu : p u = true) (l : List Uuid) :
    (l.filter p).idxOf u ≤ l.idxOf u := by
  induction l with
  | nil => simp
  | cons x l ih =>
    by_cases hx : x = u
    · rw [hx, List.filter_cons_of_pos hu, List.idxOf_cons_self, List.idxOf_cons_self]
    · rw [List.idxOf_cons_ne l hx]
      by_cases hp : p x = true
      · rw [List.filter_cons_of_pos hp, List.idxOf_cons_ne _ hx]
        omega
      · rw [List.filter_cons_of_neg hp]
        omega

/-- A deletion of another brings nothing ahead of the datablock. -/
theorem ahead_markDeleted {d : DirtySet} {u u' : Uuid} (hne : u ≠ u')
    (hu : u ∈ d.entries.keys) : (d.markDeleted u').ahead u ≤ d.ahead u := by
  unfold markDeleted ahead
  split
  · dsimp only
    rw [Dict.keys_insert]
    split
    · exact Nat.le_refl _
    · rw [List.idxOf_append_of_mem hu]
  · dsimp only
    rw [Dict.keys_erase]
    exact idxOf_filter_le _ (by simpa using hne) _

/-- The entries that the drain hands out before that of `u` are no more than those before
    it. -/
private theorem exists_dirtyOf {es : List (Uuid × Mark)} {u : Uuid} {t : Tier}
    (hnodup : (es.map Prod.fst).Nodup) (hu : (u, Mark.dirty t) ∈ es) :
    ∃ before after, dirtyOf es = before ++ (u, t) :: after ∧
      before.length ≤ (es.map Prod.fst).idxOf u ∧ (∀ e ∈ before, e.1 ≠ u) ∧
        ∀ e ∈ after, e.1 ≠ u := by
  induction es with
  | nil => cases hu
  | cons e es ih =>
    obtain ⟨hnot, hnodup'⟩ := List.nodup_cons.mp hnodup
    -- the datablock itself: there is none of it behind, since the keys differ
    rcases List.mem_cons.mp hu with rfl | hmem
    · refine ⟨[], dirtyOf es, rfl, by simp, by simp, fun e he heq => hnot ?_⟩
      obtain ⟨u', t'⟩ := e
      exact List.mem_map.mpr ⟨(u', .dirty t'), mem_dirtyOf.mp he, heq⟩
    · -- another entry: it comes before the datablock's own
      obtain ⟨before, after, hsplit, hlength, hbefore, hafter⟩ := ih hnodup' hmem
      have hne : e.1 ≠ u := by
        rintro heq
        rw [heq] at hnot
        exact hnot (List.mem_map_of_mem (f := Prod.fst) hmem)
      rw [List.map_cons, List.idxOf_cons_ne _ hne]
      -- a dirty entry is one more ahead, a deleted one is none
      obtain ⟨u', _ | _⟩ := e
      · refine ⟨(u', _) :: before, after, by rw [dirtyOf, hsplit]; rfl, by simpa using hlength,
          ?_, hafter⟩
        intro e he
        rcases List.mem_cons.mp he with rfl | he
        · exact hne
        · exact hbefore e he
      · exact ⟨before, after, hsplit, by omega, hbefore, hafter⟩

end DirtySet

namespace Host

/-! ## Turns -/

section Accepted

variable {w : World β V} (hacc : w.Accepting) [BEq V] [DecidableEq δ] (F : Faults)
  (H : Digests β V δ)
include hacc

/-- An entry goes back because its window is not over, or because two blobs have left, or
    it is taken up. -/
theorem flushEntry_turn (ready : List Uuid) {s : Host β V δ × Nat} (hclear : s.1.Clear)
    (e : Uuid × Tier) :
    (e.1 ∉ ready ∧ (Raising.flushEntry F H w ready s e).1 =
        ({ s.1 with dirty := s.1.dirty.mark e.1 e.2 }, s.2)) ∨
      (e.1 ∈ ready ∧ s.2 = 0 ∧ (Raising.flushEntry F H w ready s e).1 =
        ({ s.1 with dirty := s.1.dirty.mark e.1 e.2 }.touchReady e.1 w.now, 0)) ∨
      (e.1 ∈ ready ∧ (e.2 = .t1 ∨ 0 < s.2) ∧
        Steady s.1 (Raising.flushEntry F H w ready s e).1.1 ∧
        (Raising.flushEntry F H w ready s e).1.2 ≤ s.2 ∧
        s.2 ≤ (Raising.flushEntry F H w ready s e).1.2 + 1) := by
  obtain ⟨h, budget⟩ := s
  obtain ⟨u, t⟩ := e
  unfold Raising.flushEntry
  dsimp only
  -- not ready: the entry is marked again
  by_cases hready : u ∉ ready
  · rw [if_pos hready]
    exact .inl ⟨hready, rfl⟩
  · -- ready: tier 1 is taken up, tier 2 while there is budget
    rw [if_neg hready]
    rw [not_not] at hready
    right
    cases t with
    | t1 => exact .inr ⟨hready, .inl rfl, hclear.flushT1 hacc F H u, by simp, by simp⟩
    | t2 =>
      cases budget with
      | zero => exact .inl ⟨hready, rfl, rfl⟩
      | succ budget =>
        exact .inr ⟨hready, .inr (by simp), hclear.flushT2Or hacc F H u none [], by simp, by simp⟩

/-- The loop before the turn of `u`: each entry that was taken up leaves a place, unless
    there is still a blob to give. -/
structure Before (u : Uuid) (d : Debouncer) (k : Nat) (s : Host β V δ × Nat) : Prop where
  clear : s.1.Clear
  clean : u ∉ s.1.dirty.entries.keys
  touched : s.1.debounce.touched.get? u = d.touched.get? u
  budget : s.2 ≤ t2PerTick
  places : s.1.dirty.entries.keys.length + t2PerTick ≤ k + s.2

/-- The entry of `u` is back, behind `a` others. -/
structure Back (u : Uuid) (touched : Option Int) (a : Nat) (h : Host β V δ) : Prop where
  clear : h.Clear
  marked : ∃ t, h.dirty.entries.get? u = some (.dirty t)
  touched : h.debounce.touched.get? u = touched
  ahead : h.dirty.ahead u ≤ a

/-- The turn of another entry leaves the datablock before its own. -/
theorem Before.step (ready : List Uuid) {u : Uuid} {d : Debouncer} {k : Nat}
    {s : Host β V δ × Nat} (hs : Before u d k s) {e : Uuid × Tier} (hne : e.1 ≠ u) :
    Before u d (k + 1) (Raising.flushEntry F H w ready s e).1 := by
  obtain ⟨hclear, hclean, htouched, hbudget, hplaces⟩ := hs
  have hlength := s.1.dirty.length_keys_mark e.1 e.2
  -- a mark of another datablock leaves this one unmarked
  have hclean' : u ∉ (s.1.dirty.mark e.1 e.2).entries.keys := by
    rw [DirtySet.keys_mark]
    split
    · exact hclean
    · simp [hclean, hne.symm]
  -- the entry is put off, put off for want of budget, or taken up
  rcases flushEntry_turn hacc F H ready hclear e with
    ⟨-, heq⟩ | ⟨-, hspent, heq⟩ | ⟨-, -, hsteady, hle, hge⟩
  · -- one more is ahead of the datablock
    rw [heq]
    refine ⟨hclear, hclean', htouched, hbudget, ?_⟩
    dsimp only
    omega
  · -- one more is ahead, and its debounce is touched, not this datablock's
    rw [heq]
    refine ⟨hclear, hclean', ?_, by simp, ?_⟩
    · show (s.1.debounce.touch e.1 _).touched.get? u = _
      rw [Debouncer.get?_touch, if_neg hne]
      exact htouched
    · show (s.1.dirty.mark e.1 e.2).entries.keys.length + t2PerTick ≤ k + 1 + 0
      omega
  · -- taken up: what it does leaves the queues alone
    refine ⟨hsteady.clear, ?_, ?_, by omega, ?_⟩
    · rwa [dirty_of_frame hsteady.frame]
    · rwa [debounce_of_frame hsteady.frame]
    · rw [dirty_of_frame hsteady.frame]
      omega

/-- The turn of another entry leaves what was put back. -/
theorem Back.step (ready : List Uuid) {u : Uuid} {touched : Option Int} {a : Nat}
    {s : Host β V δ × Nat} (hs : Back u touched a s.1) {e : Uuid × Tier} (hne : e.1 ≠ u) :
    Back u touched a (Raising.flushEntry F H w ready s e).1.1 := by
  obtain ⟨hclear, ⟨t, hmarked⟩, htouched, hahead⟩ := hs
  have hmem : u ∈ s.1.dirty.entries.keys := (Dict.mem_keys_iff ..).mpr ⟨_, hmarked⟩
  have hmarked' : ∃ t, (s.1.dirty.mark e.1 e.2).entries.get? u = some (.dirty t) := by
    rw [DirtySet.get?_mark, if_neg hne]
    exact ⟨t, hmarked⟩
  have hahead' : (s.1.dirty.mark e.1 e.2).ahead u ≤ a := by
    rwa [DirtySet.ahead_mark hmem]
  rcases flushEntry_turn hacc F H ready hclear e with
    ⟨-, heq⟩ | ⟨-, -, heq⟩ | ⟨-, -, hsteady, -, -⟩
  · rw [heq]
    exact ⟨hclear, hmarked', htouched, hahead'⟩
  · rw [heq]
    refine ⟨hclear, hmarked', ?_, hahead'⟩
    show (s.1.debounce.touch e.1 _).touched.get? u = _
    rw [Debouncer.get?_touch, if_neg hne]
    exact htouched
  · refine ⟨hsteady.clear, ?_, ?_, ?_⟩
    · rw [dirty_of_frame hsteady.frame]
      exact ⟨t, hmarked⟩
    · rwa [debounce_of_frame hsteady.frame]
    · rwa [dirty_of_frame hsteady.frame]

/-- The entry of `u` in its turn, when it does not raise. -/
theorem Before.turn {ready : List Uuid} {u : Uuid} {d : Debouncer} {k : Nat}
    {s : Host β V δ × Nat} (hs : Before u d k s) (t : Tier)
    (hsafe : Raising.turnRaises F w ready s (u, t) = [])
    (hworks : TakenUp ready s (u, t) → s.1.Works w u) {j : List (Note β V δ)}
    (hj : Extends j s.1) :
    (u ∉ ready ∧ Back u (d.touched.get? u) k (flushEntry H w ready s (u, t)).1) ∨
      (∃ a, a + t2PerTick ≤ k ∧
        Back u (some (w.now - debounceMs)) a (flushEntry H w ready s (u, t)).1) ∨
      Said (Note.Speaks w u) j (flushEntry H w ready s (u, t)).1 ∨ Silent w s.1 u t := by
  obtain ⟨hclear, hclean, htouched, hbudget, hplaces⟩ := hs
  have hmarked : ∃ t', (s.1.dirty.mark u t).entries.get? u = some (.dirty t') := by
    rw [DirtySet.get?_mark, if_pos rfl, (Dict.get?_eq_none_iff ..).mpr hclean]
    exact ⟨t, rfl⟩
  have hahead := DirtySet.ahead_mark_new hclean t
  have hentry := Raising.flushEntry_eq H ready s (u, t) hsafe
  have hturn := flushEntry_turn hacc F H ready hclear (u, t)
  rw [hentry] at hturn
  dsimp only at hturn
  rcases hturn with ⟨hready, heq⟩ | ⟨-, hspent, heq⟩ | ⟨hready, htaken, hsteady, -, -⟩
  · left
    rw [heq]
    refine ⟨hready, hclear, hmarked, htouched, ?_⟩
    show (s.1.dirty.mark u t).ahead u ≤ k
    omega
  · right; left
    refine ⟨s.1.dirty.entries.keys.length, by omega, ?_⟩
    rw [heq]
    refine ⟨hclear, hmarked, ?_, Nat.le_of_eq hahead⟩
    show (s.1.debounce.touch u _).touched.get? u = _
    rw [Debouncer.get?_touch, if_pos rfl]
  · right; right
    apply (served_flushEntry H ready s t hj hworks).imp_left
    rintro (hdirty | hsaid)
    · -- what is taken up goes out, and is not put back
      rw [dirty_of_frame hsteady.frame, (Dict.get?_eq_none_iff ..).mpr hclean] at hdirty
      cases hdirty
    · exact hsaid

/-! ## The drain -/

omit [BEq V] [DecidableEq δ] in
/-- The tombstones of a drain leave, and the dirty set is empty then. -/
theorem drained_accepted {h : Host β V δ} (hclear : h.Clear) :
    Steady { h with debounce := (h.debounce.ready w.now).1, dirty := h.dirty.drain.1 }
      (Raising.drained w h) := by
  have hloop : ∀ (tombs : List Uuid) {h₀ h : Host β V δ}, Steady h₀ h →
      Steady h₀ (tombs.foldl (fun h u => (h.sendTombstone w u).1) h) := by
    intro tombs
    induction tombs with
    | nil => exact fun hsteady => hsteady
    | cons x tombs ih =>
      intro h₀ h hsteady
      obtain ⟨-, hsent⟩ := Clear.sendTombstone hacc hsteady.clear x
      exact ih (hsent.trans hsteady)
  unfold Raising.drained
  dsimp only
  rw [foldl_note]
  exact hloop h.dirty.drain.2.1 ⟨rfl, hclear⟩

/-- And so do the turns of all entries ahead. -/
theorem Before.foldl (ready : List Uuid) {u : Uuid} {d : Debouncer}
    {before : List (Uuid × Tier)} (hbefore : ∀ e ∈ before, e.1 ≠ u) {k : Nat}
    {s : Host β V δ × Nat} (hs : Before u d k s) :
    Before u d (k + before.length) (before.foldl (flushEntry H w ready) s) := by
  induction before generalizing k s with
  | nil => exact hs
  | cons e before ih =>
    have hstep := hs.step hacc {} H ready (hbefore e List.mem_cons_self)
    rw [Raising.flushEntry_eq H ready s e (Raising.eq_nil_of_quiet (F := {}) (fun _ => rfl)
      fun _ hx => Raising.raises_of_mem_turnRaises hx)] at hstep
    rw [List.foldl_cons, List.length_cons, Nat.add_comm before.length, ← Nat.add_assoc]
    exact ih (fun e he => hbefore e (List.mem_cons_of_mem _ he)) hstep

omit hacc in
/-- These take no note back. -/
private theorem extends_foldl {ready : List Uuid} {j : List (Note β V δ)}
    (before : List (Uuid × Tier)) {s : Host β V δ × Nat} (hs : Extends j s.1) :
    Extends j (before.foldl (flushEntry H w ready) s).1 := by
  induction before generalizing s with
  | nil => exact hs
  | cons e before ih =>
    have hstep := Raising.keeps_flushEntry {} H (keeps_extends w j) (fun _ _ hh => hh)
      (fun _ hh => hh) ready s e hs
    rw [Raising.flushEntry_eq H ready s e (Raising.eq_nil_of_quiet (F := {}) (fun _ => rfl)
      fun _ hx => Raising.raises_of_mem_turnRaises hx)] at hstep
    exact ih hstep

/-- What was put back stays, wherever the rest of the loop stops. -/
theorem Back.forEach {ready : List Uuid} {u : Uuid} {touched : Option Int} {a : Nat}
    {after : List (Uuid × Tier)} (hafter : ∀ e ∈ after, e.1 ≠ u) {s : Host β V δ × Nat}
    (hs : Back u touched a s.1) :
    Back u touched a (Attempt.forEach (Raising.flushEntry F H w ready) after s).1.1 := by
  induction after generalizing s with
  | nil => exact hs
  | cons e after ih =>
    have hstep := hs.step hacc F H ready (hafter e List.mem_cons_self)
    rw [Attempt.forEach_cons]
    exact Attempt.andThen_invariant (I := fun s : Host β V δ × Nat => Back u touched a s.1) hstep
      fun s' _ _ hs' => ih (fun e he => hafter e (List.mem_cons_of_mem _ he)) hs'

/-- What a drain does for the entry of `u`: it waits for its window, it waits for a blob, or
    it is taken up. -/
theorem flushDirty_turn {h : Host β V δ} (hclear : h.Clear)
    (hsafe : TurnsSafe F H w (h.debounce.ready w.now).2 (Raising.drained w h, t2PerTick)
      h.dirty.drain.2.2)
    {u : Uuid} (hquiet : F.raises u = false) {t : Tier}
    (hmarked : h.dirty.entries.get? u = some (.dirty t)) :
    (u ∉ (h.debounce.ready w.now).2 ∧
        Back u ((h.debounce.ready w.now).1.touched.get? u) (h.dirty.ahead u)
          (Raising.flushDirty F H w h).1) ∨
      (∃ a, a + t2PerTick ≤ h.dirty.ahead u ∧
        Back u (some (w.now - debounceMs)) a (Raising.flushDirty F H w h).1) ∨
      Said (Note.Speaks w u) h.journal (Raising.flushDirty F H w h).1 ∨
      ∃ before after, h.dirty.drain.2.2 = before ++ (u, t) :: after ∧
        Silent w (before.foldl (flushEntry H w (h.debounce.ready w.now).2)
          (Raising.drained w h, t2PerTick)).1 u t := by
  -- where the datablock's entry stands in the drain
  obtain ⟨before, after, hsplit, hlength, hbefore, hafter⟩ :=
    DirtySet.exists_dirtyOf h.dirty.entries.nodup ((Dict.mem_entries_iff ..).mpr hmarked)
  have hentries : h.dirty.drain.2.2 = before ++ (u, t) :: after := hsplit
  rw [hentries] at hsafe
  obtain ⟨hskip, hturns⟩ := hsafe.before
  have hdrained := drained_accepted hacc hclear
  -- the entries before it, none of which is its own
  have hstart : Before u (h.debounce.ready w.now).1 0 (Raising.drained w h, t2PerTick) := by
    refine ⟨hdrained.clear, ?_, ?_, Nat.le_refl _, ?_⟩
    · rw [dirty_of_frame hdrained.frame]
      exact List.not_mem_nil
    · rw [debounce_of_frame hdrained.frame]
    · rw [dirty_of_frame hdrained.frame]
      exact Nat.le_refl _
  have hcome := hstart.foldl hacc H (h.debounce.ready w.now).2 hbefore
  rw [Nat.zero_add] at hcome
  have hext : Extends h.journal (before.foldl (flushEntry H w (h.debounce.ready w.now).2)
      (Raising.drained w h, t2PerTick)).1 := extends_foldl H before extends_drained
  unfold Raising.flushDirty
  rw [hentries, Attempt.forEach_append, hskip, Attempt.andThen_ok]
  generalize hfold : before.foldl (flushEntry H w (h.debounce.ready w.now).2)
    (Raising.drained w h, t2PerTick) = s at hcome hturns hext
  -- its own turn, which raises nothing
  have hnone : Raising.turnRaises F w (h.debounce.ready w.now).2 s (u, t) = [] := by
    rw [List.eq_nil_iff_forall_not_mem]
    intro x hx
    obtain ⟨rfl, -⟩ := hturns.1 x hx
    rw [Raising.raises_of_mem_turnRaises hx] at hquiet
    cases hquiet
  rw [Attempt.forEach_cons, Raising.flushEntry_eq H _ s (u, t) hnone, Attempt.andThen_ok]
  dsimp only
  rcases hcome.turn hacc F H t hnone hturns.2.1 hext with
    ⟨hready, hback⟩ | ⟨a, ha, hback⟩ | hsaid | hsilent
  · -- not ready: it is marked again and the entries behind it leave it so
    left
    obtain ⟨hclear', hmarked', htouched', hahead'⟩ := hback.forEach hacc F H hafter
    exact ⟨hready, hclear', hmarked', htouched', hahead'.trans hlength⟩
  · -- no budget: it is marked again with fewer ahead
    right; left
    exact ⟨a, ha.trans hlength, hback.forEach hacc F H hafter⟩
  · -- it speaks, and the entries behind it leave that said
    right; right; left
    apply Attempt.forEach_invariant (I := fun s : Host β V δ × Nat =>
      Said (Note.Speaks w u) h.journal s.1) _ after hsaid
    exact fun s e hs => Raising.keeps_flushEntry F H (keeps_said w _ _)
      (fun _ _ hh => hh.move [] (List.append_nil _).symm)
      (fun _ hh => hh.move [] (List.append_nil _).symm) _ s e hs
  · -- it has nothing to say
    right; right; right
    refine ⟨before, after, rfl, ?_⟩
    rw [hfold]
    exact hsilent

end Accepted

end Host

end QCBridge
