import QCBridge.ForStd.Since
import QCBridge.Ring1.DirtySet
import Mathlib.Data.List.Induction

/-!
# What a drain returns

The dirty set keeps one entry for each datablock; here the entry is read off the calls that
were made. A datablock comes out as a tombstone if it was deleted since the last drain, at a
time the peer might know it, or put back as a tombstone. Otherwise it comes out with the
highest tier it was marked with since the last drain, or since it was deleted unknown to the
peer: that takes back the marks before it.

## Key results

- `DirtySet.MayKnow`, `DirtySet.Dead`, `DirtySet.MarkedSince`: the specification, on calls
- `DirtySet.Refines`: the entry and the peer-may-know set say the same, for one datablock
- `DirtySet.drain_refines`: what a drain returns, after any calls
- `DirtySet.drain_refines_counterexample`: a mark that a deletion took back
-/

namespace QCBridge

/-- The calls of a `DirtySet`, `peer_forgot_everything` apart. -/
inductive DirtyCall where
  | mark (uuid : Uuid) (tier : Tier)
  | markDeleted (uuid : Uuid)
  | requeue (uuid : Uuid) (tier : Tier)
  | requeueTombstone (uuid : Uuid)
  | assumeKnown (uuid : Uuid)
  | drain
deriving DecidableEq

/-- The highest tier with a property. -/
def Highest (P : Tier → Prop) (t : Tier) : Prop := P t ∧ ∀ t', P t' → t.max t' = t

namespace DirtySet

/-- One call. -/
def call (d : DirtySet) : DirtyCall → DirtySet
  | .mark u t => d.mark u t
  | .markDeleted u => d.markDeleted u
  | .requeue u t => d.requeue u t
  | .requeueTombstone u => d.requeueTombstone u
  | .assumeKnown u => d.assumeKnown u
  | .drain => d.drain.1

/-- Calls on a new dirty set. -/
def run (calls : List DirtyCall) : DirtySet := calls.foldl call {}

/-- The tombstones that a drain returns after the calls. -/
def tombstones (calls : List DirtyCall) : List Uuid := (run calls).drain.2.1

/-- The dirty datablocks that a drain returns after the calls. -/
def dirty (calls : List DirtyCall) : List (Uuid × Tier) := (run calls).drain.2.2

/-! ## The specification -/

/-- The peer may know the datablock from now on: it is drained dirty, assumed known, or put
    back as a tombstone. -/
def Told (u : Uuid) (before : List DirtyCall) (c : DirtyCall) : Prop :=
  c = .assumeKnown u ∨ c = .requeueTombstone u ∨
    c = .drain ∧ u ∈ (dirty before).map Prod.fst

/-- The datablock is drained as a tombstone. -/
def Tombstoned (u : Uuid) (before : List DirtyCall) (c : DirtyCall) : Prop :=
  c = .drain ∧ u ∈ tombstones before

/-- The peer might know the datablock. -/
def MayKnow (u : Uuid) (calls : List DirtyCall) : Prop := Since (Told u) (Tombstoned u) calls

/-- The datablock is deleted while the peer might know it, or put back as a tombstone. -/
def Deleted (u : Uuid) (before : List DirtyCall) (c : DirtyCall) : Prop :=
  c = .requeueTombstone u ∨ c = .markDeleted u ∧ MayKnow u before

/-- A drain. -/
def Drained (_ : List DirtyCall) (c : DirtyCall) : Prop := c = .drain

/-- The datablock was deleted since the last drain. -/
def Dead (u : Uuid) (calls : List DirtyCall) : Prop := Since (Deleted u) Drained calls

/-- The datablock is marked with a tier. -/
def Marked (u : Uuid) (t : Tier) (_ : List DirtyCall) (c : DirtyCall) : Prop :=
  c = .mark u t ∨ c = .requeue u t

/-- A drain, or a deletion of the datablock while the peer could not know it. -/
def Collapsed (u : Uuid) (before : List DirtyCall) (c : DirtyCall) : Prop :=
  c = .drain ∨ c = .markDeleted u ∧ ¬ MayKnow u before

/-- The datablock was marked with the tier, and neither drained nor collapsed since. -/
def MarkedSince (u : Uuid) (calls : List DirtyCall) (t : Tier) : Prop :=
  Since (Marked u t) (Collapsed u) calls

end DirtySet

/-! ## Tiers -/

/-- There is at most one highest tier. -/
theorem Highest.unique {P : Tier → Prop} {s t : Tier} (hs : Highest P s) (ht : Highest P t) :
    s = t := by
  have hst := hs.2 t ht.1
  have hts := ht.2 s hs.1
  cases s <;> cases t <;> simp_all [Tier.max]

/-- There is one if there is a tier at all. -/
private theorem exists_highest {P : Tier → Prop} {t : Tier} (h : P t) : ∃ s, Highest P s := by
  -- two tiers: the upper one, if it has the property
  by_cases h2 : P .t2
  · exact ⟨.t2, h2, fun t' _ => by cases t' <;> rfl⟩
  · cases t with
    | t2 => exact absurd h h2
    | t1 =>
      refine ⟨.t1, h, fun t' h' => ?_⟩
      cases t' with
      | t1 => rfl
      | t2 => exact absurd h' h2

/-- One more tier, above the highest or not. -/
theorem Highest.or {P : Tier → Prop} {s : Tier} (h : Highest P s) (t : Tier) :
    Highest (fun x => x = t ∨ P x) (s.max t) := by
  constructor
  · cases s <;> cases t <;> first | exact .inl rfl | exact .inr h.1
  · rintro t' (rfl | ht')
    · cases s <;> cases t' <;> rfl
    · have := h.2 t' ht'
      cases s <;> cases t <;> cases t' <;> first | rfl | cases this

/-- The only one is the highest. -/
private theorem highest_only {P : Tier → Prop} (h : ∀ x, ¬ P x) (t : Tier) :
    Highest (fun x => x = t ∨ P x) t := by
  refine ⟨.inl rfl, ?_⟩
  rintro t' (rfl | ht')
  · cases t' <;> rfl
  · exact absurd ht' (h t')

namespace DirtySet

variable {u u' : Uuid} {t : Tier} {calls : List DirtyCall} {c : DirtyCall}

/-! ## One call more -/

/-- One call more. -/
private theorem run_concat : run (calls ++ [c]) = (run calls).call c := by
  unfold run
  rw [List.foldl_append]
  rfl

/-- The peer might know it from now on, or might before and it is not drained as a tombstone now. -/
private theorem mayKnow_concat : MayKnow u (calls ++ [c]) ↔
    Told u calls c ∨ MayKnow u calls ∧ ¬ Tombstoned u calls c := Since.concat

/-- It is deleted now, or was and is not drained now. -/
private theorem dead_concat : Dead u (calls ++ [c]) ↔
    Deleted u calls c ∨ Dead u calls ∧ ¬ Drained calls c := Since.concat

/-- It is marked now, or was and is neither drained nor collapsed now. -/
private theorem markedSince_concat : MarkedSince u (calls ++ [c]) t ↔
    Marked u t calls c ∨ MarkedSince u calls t ∧ ¬ Collapsed u calls c := Since.concat

/-- A drain returns the tombstones that there are. -/
private theorem mem_tombstones :
    u ∈ tombstones calls ↔ (run calls).entries.get? u = some .tombstone := by
  unfold tombstones drain
  rw [mem_tombstonesOf, Dict.mem_entries_iff]

/-- And the dirty ones with their tiers. -/
private theorem mem_dirty :
    (u, t) ∈ dirty calls ↔ (run calls).entries.get? u = some (.dirty t) := by
  unfold dirty drain
  rw [mem_dirtyOf, Dict.mem_entries_iff]

/-- After it the peer may know what was dirty, and knows no more what was a tombstone. -/
private theorem mem_sent_drain (d : DirtySet) :
    u ∈ d.drain.1.sent ↔ (∃ t, d.entries.get? u = some (.dirty t)) ∨
      u ∈ d.sent ∧ d.entries.get? u ≠ some .tombstone := by
  unfold drain
  rw [List.mem_union_iff, List.mem_filter, List.mem_map]
  simp only [decide_eq_true_eq, mem_tombstonesOf, Dict.mem_entries_iff, Prod.exists,
    mem_dirtyOf, exists_and_right, exists_eq_right]
  exact Or.comm

/-- A mark tells the peer nothing. -/
@[simp] theorem sent_mark (d : DirtySet) (u : Uuid) (t : Tier) : (d.mark u t).sent = d.sent := by
  unfold mark
  split
  · rfl
  · rfl
  · rfl

/-- Nor does a deletion. -/
@[simp] theorem sent_markDeleted (d : DirtySet) (u : Uuid) : (d.markDeleted u).sent = d.sent := by
  unfold markDeleted
  split
  · rfl
  · rfl

/-- A deletion leaves a tombstone only where the peer may know the datablock. -/
theorem get?_markDeleted (d : DirtySet) (u u' : Uuid) :
    (d.markDeleted u).entries.get? u' =
      if u = u' then (if u ∈ d.sent then some .tombstone else none) else d.entries.get? u' := by
  unfold markDeleted
  split
  · rw [Dict.get?_insert]
  · rw [Dict.get?_erase]

/-- The entry of one datablock, and whether the peer may know it, are what the calls say. -/
structure Refines (u : Uuid) (calls : List DirtyCall) : Prop where
  known : u ∈ (run calls).sent ↔ MayKnow u calls
  dead : (run calls).entries.get? u = some .tombstone ↔ Dead u calls
  dirty : ∀ t, (run calls).entries.get? u = some (.dirty t) ↔
    ¬ Dead u calls ∧ Highest (MarkedSince u calls) t
  pending : (run calls).entries.get? u = some .tombstone → u ∈ (run calls).sent

namespace Refines

/-- At the start there is no entry. -/
theorem nil : Refines u [] := by
  constructor
  · simp [run, MayKnow]
  · simp [run, Dead]
  · simp [run, Dead, MarkedSince, Highest]
  · simp [run]

/-- No entry: neither deleted nor marked. -/
private theorem unmarked (h : Refines u calls) (hnone : (run calls).entries.get? u = none)
    (t : Tier) :
    ¬ MarkedSince u calls t := by
  intro hmarked
  have halive : ¬ Dead u calls := by
    rw [← h.dead, hnone]
    simp
  obtain ⟨s, hs⟩ := exists_highest hmarked
  have := (h.dirty s).mpr ⟨halive, hs⟩
  rw [hnone] at this
  cases this

/-- A call about another datablock, or none of the entry's. -/
theorem frame (h : Refines u calls)
    (hsent : u ∈ (run (calls ++ [c])).sent ↔ u ∈ (run calls).sent ∨ Told u calls c)
    (hentry : (run (calls ++ [c])).entries.get? u = (run calls).entries.get? u)
    (hdrain : c ≠ .drain) (hdeleted : ¬ Deleted u calls c) (hmarked : ∀ t, ¬ Marked u t calls c)
    (hcollapsed : ¬ Collapsed u calls c) : Refines u (calls ++ [c]) := by
  -- the two histories go on as they were
  have hdead : Dead u (calls ++ [c]) ↔ Dead u calls := by
    rw [dead_concat]
    simp [hdeleted, Drained, hdrain]
  -- and no mark is taken back
  have hsince : MarkedSince u (calls ++ [c]) = MarkedSince u calls := by
    funext t
    rw [markedSince_concat]
    simp [hmarked, hcollapsed]
  constructor
  · rw [hsent, h.known, mayKnow_concat]
    simp [Tombstoned, hdrain, or_comm]
  · rw [hentry, h.dead, hdead]
  · intro t
    rw [hentry, h.dirty, hdead, hsince]
  · rw [hentry, hsent]
    exact fun hpending => .inl (h.pending hpending)

/-- A dirty entry that says the highest tier. -/
private theorem of_highest (hknown : u ∈ (run calls).sent ↔ MayKnow u calls)
    (hentry : (run calls).entries.get? u = some (.dirty t)) (halive : ¬ Dead u calls)
    (hhighest : Highest (MarkedSince u calls) t) : Refines u calls := by
  constructor
  · exact hknown
  · simp [hentry, halive]
  · intro s
    rw [hentry, Option.some.injEq, Mark.dirty.injEq]
    constructor
    · rintro rfl
      exact ⟨halive, hhighest⟩
    · exact fun hs => hhighest.unique hs.2
  · simp [hentry]

/-- A tombstone stands for a deletion. -/
private theorem of_tombstone (hknown : u ∈ (run calls).sent ↔ MayKnow u calls)
    (hentry : (run calls).entries.get? u = some .tombstone) (hdead : Dead u calls)
    (hsent : u ∈ (run calls).sent) : Refines u calls := by
  constructor
  · exact hknown
  · simp [hentry, hdead]
  · simp [hentry, hdead]
  · exact fun _ => hsent

/-- No entry stands for none, and for no mark. -/
private theorem of_no_entry (hknown : u ∈ (run calls).sent ↔ MayKnow u calls)
    (hentry : (run calls).entries.get? u = none) (halive : ¬ Dead u calls)
    (hunmarked : ∀ t, ¬ MarkedSince u calls t) : Refines u calls := by
  constructor
  · exact hknown
  · simp [hentry, halive]
  · simp [hentry, hunmarked, Highest]
  · simp [hentry]

/-- `mark` and `requeue`: the tier goes up, a tombstone stays. -/
theorem mark (h : Refines u calls) (hc : Marked u t calls c) : Refines u (calls ++ [c]) := by
  have hcall : run (calls ++ [c]) = (run calls).mark u t := by
    rw [run_concat]
    obtain rfl | rfl := hc
    · rfl
    · rfl
  have hknown : u ∈ (run (calls ++ [c])).sent ↔ MayKnow u (calls ++ [c]) := by
    rw [hcall, sent_mark, h.known, mayKnow_concat]
    obtain rfl | rfl := hc
    · simp [Told, Tombstoned]
    · simp [Told, Tombstoned]
  have hdead : Dead u (calls ++ [c]) ↔ Dead u calls := by
    rw [dead_concat]
    obtain rfl | rfl := hc
    · simp [Deleted, Drained]
    · simp [Deleted, Drained]
  have hmarked : MarkedSince u (calls ++ [c]) = fun s => s = t ∨ MarkedSince u calls s := by
    funext s
    rw [markedSince_concat, eq_comm (a := s)]
    obtain rfl | rfl := hc
    · simp [Marked, Collapsed]
    · simp [Marked, Collapsed]
  have hentry : (run (calls ++ [c])).entries.get? u = _ :=
    (congrArg (·.entries.get? u) hcall).trans (get?_mark ..)
  rw [if_pos rfl] at hentry
  cases hget : (run calls).entries.get? u with
  | none =>
    rw [hget] at hentry
    refine of_highest hknown hentry ?_ ?_
    · rw [hdead, ← h.dead, hget]
      simp
    · rw [hmarked]
      exact highest_only (h.unmarked hget) t
  | some m =>
    rw [hget] at hentry
    cases m with
    | dirty s =>
      obtain ⟨halive, hhighest⟩ := (h.dirty s).mp hget
      refine of_highest hknown hentry ?_ ?_
      · rwa [hdead]
      · rw [hmarked]
        exact hhighest.or t
    | tombstone =>
      -- deleted stays deleted
      refine of_tombstone hknown hentry (hdead.mpr (h.dead.mp hget)) ?_
      rw [hcall, sent_mark]
      exact h.pending hget

/-- `mark_deleted`: a tombstone for a datablock that the peer may know, and otherwise no entry. -/
theorem markDeleted (h : Refines u calls) : Refines u (calls ++ [.markDeleted u]) := by
  have hcall : run (calls ++ [.markDeleted u]) = (run calls).markDeleted u := run_concat
  have hknown : u ∈ (run (calls ++ [.markDeleted u])).sent ↔
      MayKnow u (calls ++ [.markDeleted u]) := by
    rw [hcall, sent_markDeleted, h.known, mayKnow_concat]
    simp [Told, Tombstoned]
  have hentry : (run (calls ++ [.markDeleted u])).entries.get? u = _ :=
    (congrArg (·.entries.get? u) hcall).trans (get?_markDeleted ..)
  rw [if_pos rfl] at hentry
  by_cases hmay : u ∈ (run calls).sent
  · rw [if_pos hmay] at hentry
    refine of_tombstone hknown hentry (dead_concat.mpr (.inl (.inr ⟨rfl, h.known.mp hmay⟩))) ?_
    rwa [hcall, sent_markDeleted]
  · rw [if_neg hmay] at hentry
    have hmay' : ¬ MayKnow u calls := fun hm => hmay (h.known.mpr hm)
    refine of_no_entry hknown hentry ?_ fun t => ?_
    · -- a tombstone would be known to the peer
      have halive : ¬ Dead u calls := fun hdead => hmay (h.pending (h.dead.mpr hdead))
      rw [dead_concat]
      simp [Deleted, hmay', halive]
    · rw [markedSince_concat]
      simp [Marked, Collapsed, hmay']

/-- `requeue_tombstone`: a tombstone, and the peer may know the datablock. -/
theorem requeueTombstone : Refines u (calls ++ [.requeueTombstone u]) := by
  have hcall : run (calls ++ [.requeueTombstone u]) = (run calls).requeueTombstone u := run_concat
  have hsent : u ∈ (run (calls ++ [.requeueTombstone u])).sent := by
    rw [hcall]
    exact List.mem_insert_self
  have hmay : MayKnow u (calls ++ [.requeueTombstone u]) :=
    mayKnow_concat.mpr (.inl (.inr (.inl rfl)))
  refine of_tombstone (iff_of_true hsent hmay) ?_ (dead_concat.mpr (.inl (.inl rfl))) hsent
  rw [hcall]
  exact Dict.get?_insert_self ..

/-- `drain`: no entry is left, and the peer may know what was dirty. -/
theorem drain (h : Refines u calls) : Refines u (calls ++ [.drain]) := by
  have hcall : run (calls ++ [.drain]) = (run calls).drain.1 := run_concat
  refine of_no_entry ?_ ?_ ?_ fun t => ?_
  · rw [hcall, mem_sent_drain, mayKnow_concat, h.known]
    simp [Told, Tombstoned, mem_tombstones, mem_dirty]
  · rw [hcall]
    rfl
  · rw [dead_concat]
    simp [Deleted, Drained]
  · rw [markedSince_concat]
    simp [Marked, Collapsed]

/-- Any call. -/
theorem concat (h : Refines u calls) (c : DirtyCall) : Refines u (calls ++ [c]) := by
  cases c with
  | drain => exact h.drain
  | mark u' t =>
    by_cases hu : u' = u
    · subst hu
      exact h.mark (.inl rfl)
    · apply h.frame
      · simp [run_concat, call, Told]
      · simp [run_concat, call, get?_mark, hu]
      · simp
      · simp [Deleted]
      · simp [Marked, hu]
      · simp [Collapsed]
  | requeue u' t =>
    by_cases hu : u' = u
    · subst hu
      exact h.mark (.inr rfl)
    · apply h.frame
      · simp [run_concat, call, requeue, Told]
      · simp [run_concat, call, requeue, get?_mark, hu]
      · simp
      · simp [Deleted]
      · simp [Marked, hu]
      · simp [Collapsed]
  | markDeleted u' =>
    by_cases hu : u' = u
    · subst hu
      exact h.markDeleted
    · apply h.frame
      · simp [run_concat, call, Told]
      · simp [run_concat, call, get?_markDeleted, hu]
      · simp
      · simp [Deleted, hu]
      · simp [Marked]
      · simp [Collapsed, hu]
  | requeueTombstone u' =>
    by_cases hu : u' = u
    · subst hu
      exact requeueTombstone
    · apply h.frame
      · simp [run_concat, call, DirtySet.requeueTombstone, Told, hu, Ne.symm hu]
      · simp [run_concat, call, DirtySet.requeueTombstone, Dict.get?_insert, hu]
      · simp
      · simp [Deleted, hu]
      · simp [Marked]
      · simp [Collapsed]
  | assumeKnown u' =>
    -- no entry changes
    apply h.frame
    · simp [run_concat, call, assumeKnown, Told, eq_comm, or_comm]
    · simp [run_concat, call, assumeKnown]
    · simp
    · simp [Deleted]
    · simp [Marked]
    · simp [Collapsed]

end Refines

/-- After any calls on a new dirty set. -/
theorem refines (u : Uuid) (calls : List DirtyCall) : Refines u calls := by
  induction calls using List.reverseRecOn with
  | nil => exact Refines.nil
  | append_singleton calls c ih => exact ih.concat c

/-! ## A drain -/

/-- A tombstone is returned once. -/
private theorem nodup_tombstonesOf {es : List (Uuid × Mark)} (h : (es.map Prod.fst).Nodup) :
    (tombstonesOf es).Nodup := by
  induction es with
  | nil => exact List.nodup_nil
  | cons x es ih =>
    obtain ⟨u, m⟩ := x
    rw [List.map_cons, List.nodup_cons] at h
    cases m with
    | dirty t => exact ih h.2
    | tombstone =>
      refine List.nodup_cons.mpr ⟨fun hmem => h.1 ?_, ih h.2⟩
      exact List.mem_map_of_mem (mem_tombstonesOf.mp hmem)

/-- And so is a dirty datablock. -/
theorem nodup_dirtyOf {es : List (Uuid × Mark)} (h : (es.map Prod.fst).Nodup) :
    ((dirtyOf es).map Prod.fst).Nodup := by
  induction es with
  | nil => exact List.nodup_nil
  | cons x es ih =>
    obtain ⟨u, m⟩ := x
    rw [List.map_cons, List.nodup_cons] at h
    cases m with
    | tombstone => exact ih h.2
    | dirty t =>
      refine List.nodup_cons.mpr ⟨fun hmem => h.1 ?_, ih h.2⟩
      obtain ⟨⟨u', t'⟩, hmem', heq⟩ := List.mem_map.mp hmem
      rw [← heq]
      exact List.mem_map_of_mem (mem_dirtyOf.mp hmem')

/-- After any calls, a drain returns each datablock at most once: as a tombstone, if it was
    deleted since the last drain while the peer might know it or was put back as a tombstone;
    otherwise, if it was marked since it was last drained or collapsed, with the highest of
    these tiers. A datablock with a pending tombstone may be known to the peer. -/
theorem drain_refines (calls : List DirtyCall) :
    (tombstones calls).Nodup ∧ ((dirty calls).map Prod.fst).Nodup ∧
      (∀ u ∈ tombstones calls, u ∉ (dirty calls).map Prod.fst) ∧
      (∀ u t, (u, t) ∈ dirty calls ↔ ¬ Dead u calls ∧ Highest (MarkedSince u calls) t) ∧
      (∀ u, u ∈ tombstones calls ↔ Dead u calls) ∧
      (∀ u, u ∈ (run calls).sent ↔ MayKnow u calls) ∧
      ∀ u, (run calls).entries.get? u = some .tombstone → u ∈ (run calls).sent := by
  refine ⟨nodup_tombstonesOf (run calls).entries.nodup, nodup_dirtyOf (run calls).entries.nodup,
    fun u htomb hdirty => ?_, fun u t => ?_, fun u => ?_, fun u => ?_, fun u => ?_⟩
  · obtain ⟨⟨u', t⟩, hdirty', heq⟩ := List.mem_map.mp hdirty
    rw [mem_tombstones, ← heq, mem_dirty.mp hdirty'] at htomb
    cases htomb
  · rw [mem_dirty]
    exact (refines u calls).dirty t
  · rw [mem_tombstones]
    exact (refines u calls).dead
  · exact (refines u calls).known
  · exact (refines u calls).pending

/-- A datablock marked for a resend, deleted before the peer knew it, and marked again: it
    comes out with the lower tier. -/
theorem drain_refines_counterexample :
    ¬ ∀ (calls : List DirtyCall) (u : Uuid) (t : Tier), (u, t) ∈ dirty calls →
      Highest (fun t' => Since (Marked u t') Drained calls) t := by
  intro h
  have hlow := h [.mark "a" .t2, .markDeleted "a", .mark "a" .t1] "a" .t1 (by decide)
  -- the first mark is not drained
  have hfirst : Since (Marked "a" .t2) Drained
      [.mark "a" .t2, .markDeleted "a", .mark "a" .t1] := by
    refine ⟨[], .mark "a" .t2, [.markDeleted "a", .mark "a" .t1], rfl, .inl rfl,
      fun b c after hsplit => ?_⟩
    rintro rfl
    have hmem : DirtyCall.drain ∈ [DirtyCall.markDeleted "a", .mark "a" .t1] := by
      rw [hsplit]
      exact List.mem_append_right _ List.mem_cons_self
    simp at hmem
  exact absurd (hlow.2 .t2 hfirst) (by decide)

end DirtySet

end QCBridge
