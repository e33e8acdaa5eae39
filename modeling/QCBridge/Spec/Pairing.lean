import QCBridge.Ring0.Tier2

/-!
# What a blob replaces

Pairing follows stamps first. Where an arrival's stamp leads nowhere it falls
back to the name, and takes whatever datablock of the collection has that name,
stamped or not.

## Key results

- `Tier2.removesOnlyReplaced_iff`: exactly when `apply_blob` removes only what it
  replaces
-/

namespace QCBridge.Tier2

variable (m : Main) (uuidMap : Option (Dict Uuid Nat)) (loaded : Loaded m)

/-- The datablock is still there, and still itself. -/
def Kept (db : Datablock) (data : List Datablock) : Prop :=
  ∃ d ∈ data, d.ptr = db.ptr ∧ d.name = db.name ∧ d.stamp = db.stamp

/-- `apply_blob` removes only what it replaces. -/
structure RemovesOnlyReplaced : Prop where
  /-- A replaced datablock has the stamp of its arrival, or none. -/
  matched : ∀ p ∈ pairs m uuidMap loaded, ∀ old, p.old = some old →
    old.stamp = p.new.stamp ∨ old.stamp = ""
  /-- No two arrivals replace the same datablock that was there before them. -/
  once : (pairs m uuidMap loaded).Pairwise fun p q =>
    ∀ old, p.old = some old → q.old = some old → old.ptr ∈ loaded.ptrs
  /-- A datablock with a stamp that is not in the blob stays. -/
  bystanders : ∀ db ∈ m.data, db.stamp ≠ "" → (∀ a ∈ loaded.arrivals, a.1.stamp ≠ db.stamp) →
    db.ptr ∉ stale (pairs m uuidMap loaded) ∧
      ∀ env out, applyBlob env m loaded uuidMap = some out → Kept db out.data

/-- The datablock that a stamp leads to, arrivals included. -/
def found (uuid : Uuid) : Option Datablock :=
  (mapped m uuidMap uuid).or (m.scan.find? (·.stamp = uuid))

/-- The condition: the name fallback only meets unstamped datablocks, two arrivals
    with one stamp meet no third datablock that has it, and two arrivals that fall
    back to one name of one collection meet none. -/
structure PairsSafely : Prop where
  byName : ∀ a ∈ loaded.arrivals, predecessor m uuidMap a.1 = none →
    ∀ c, sameNamed m loaded.ptrs a.1 a.2 = some c → c.stamp = ""
  byStamp : loaded.arrivals.Pairwise fun a b =>
    a.1.stamp = b.1.stamp → a.1.stamp ≠ "" →
      ∀ c, found m uuidMap a.1.stamp = some c → c.ptr ∈ loaded.ptrs
  oneName : loaded.arrivals.Pairwise fun a b =>
    a.1.coll = b.1.coll → a.2 = b.2 → predecessor m uuidMap a.1 = none →
      predecessor m uuidMap b.1 = none → sameNamed m loaded.ptrs a.1 a.2 = none

variable {m uuidMap loaded}

/-! ## What the searches find -/

private theorem mapped_stamp {uuid : Uuid} {c : Datablock} (h : mapped m uuidMap uuid = some c) :
    c.stamp = uuid := by
  cases uuidMap with
  | none => cases h
  | some map =>
    have := Option.filter_eq_some_iff.mp h
    simpa using this.2

/-- A predecessor by stamp has the arrival's stamp and is not the arrival. -/
private theorem predecessor_spec {new old : Datablock} (h : predecessor m uuidMap new = some old) :
    old.stamp = new.stamp ∧ new.stamp ≠ "" ∧ old.ptr ≠ new.ptr := by
  simp only [predecessor] at h
  split at h
  · cases h
  · rename_i hne
    rcases Option.or_eq_some_iff.mp h with hmap | ⟨-, hscan⟩
    · obtain ⟨hmap, hptr⟩ := Option.filter_eq_some_iff.mp hmap
      exact ⟨mapped_stamp hmap, hne, by simpa using hptr⟩
    · have := List.find?_some hscan
      simp only [decide_eq_true_eq] at this
      exact ⟨this.2, hne, this.1⟩

/-- What the stamp leads to is the predecessor, unless it is the arrival itself. -/
private theorem predecessor_of_found {new f : Datablock} (hne : new.stamp ≠ "")
    (hf : found m uuidMap new.stamp = some f) (hptr : f.ptr ≠ new.ptr) :
    predecessor m uuidMap new = some f := by
  rw [predecessor, if_neg hne]
  rcases Option.or_eq_some_iff.mp hf with hmap | ⟨hmap, hscan⟩
  · rw [hmap, Option.filter_some, if_pos (by simpa using hptr), Option.some_or]
  · rw [hmap, Option.filter_none, Option.none_or, findByUuid]
    obtain ⟨hstamp, before, after, hsplit, hbefore⟩ := List.find?_eq_some_iff_append.mp hscan
    refine List.find?_eq_some_iff_append.mpr ⟨?_, before, after, hsplit, fun x hx => ?_⟩
    · simpa [hptr] using hstamp
    · have := hbefore x hx
      simp only [Bool.not_eq_true', decide_eq_false_iff_not] at this ⊢
      exact fun h => this h.2

/-- Where there is a predecessor by stamp, the stamp leads somewhere. -/
private theorem found_of_predecessor {new old : Datablock}
    (h : predecessor m uuidMap new = some old) :
    ∃ f, found m uuidMap new.stamp = some f := by
  obtain ⟨hstamp, hne, -⟩ := predecessor_spec h
  rw [predecessor, if_neg hne] at h
  rw [found]
  cases hmap : mapped m uuidMap new.stamp with
  | some f => exact ⟨f, rfl⟩
  | none =>
    rw [hmap, Option.filter_none, Option.none_or] at h
    rw [Option.none_or, ← Option.isSome_iff_exists, List.find?_isSome]
    exact ⟨old, List.mem_of_find?_eq_some h, by simpa using hstamp⟩

/-- The name fallback finds a datablock of the collection that has the name and
    was there before the blob. -/
private theorem sameNamed_spec {ptrs : List Nat} {new c : Datablock} {intended : String}
    (h : sameNamed m ptrs new intended = some c) :
    c ∈ m.data ∧ c.coll = new.coll ∧ c.name = intended ∧ c.ptr ∉ ptrs := by
  have hprop := List.find?_some h
  have hmem := List.mem_of_find?_eq_some h
  simp only [Main.collection, List.mem_filter, decide_eq_true_eq] at hprop hmem
  exact ⟨hmem.1, hmem.2, hprop⟩

/-- What shares an arrival's stamp in its collection is a predecessor by stamp. -/
private theorem stamp_ne_of_unpreceded {new c : Datablock}
    (hnone : predecessor m uuidMap new = none)
    (hc : c ∈ m.data) (hcoll : c.coll = new.coll) (hlisted : new.coll ∈ collections)
    (hptr : c.ptr ≠ new.ptr) (hne : new.stamp ≠ "") : c.stamp ≠ new.stamp := by
  intro hstamp
  rw [predecessor, if_neg hne, Option.or_eq_none_iff] at hnone
  have hscan : c ∈ m.scan :=
    List.mem_flatMap.mpr ⟨new.coll, hlisted, List.mem_filter.mpr ⟨hc, by simpa using hcoll⟩⟩
  have := List.find?_eq_none.mp hnone.2 c hscan
  simp [hptr, hstamp] at this

/-- The datablock an arrival replaces. -/
def replaces (m : Main) (uuidMap : Option (Dict Uuid Nat)) (loaded : Loaded m)
    (a : Datablock × String) : Option Datablock :=
  (predecessor m uuidMap a.1).or (sameNamed m loaded.ptrs a.1 a.2)

private theorem pairs_eq : pairs m uuidMap loaded =
    loaded.arrivals.map fun a => ⟨a.1, replaces m uuidMap loaded a, a.2⟩ := rfl

private theorem replaces_of_predecessor {a : Datablock × String} {old : Datablock}
    (h : predecessor m uuidMap a.1 = some old) : replaces m uuidMap loaded a = some old := by
  rw [replaces, h, Option.some_or]

private theorem replaces_of_unpreceded {a : Datablock × String}
    (h : predecessor m uuidMap a.1 = none) :
    replaces m uuidMap loaded a = sameNamed m loaded.ptrs a.1 a.2 := by
  rw [replaces, h, Option.none_or]

private theorem mem_of_mem_scan {c : Datablock} (h : c ∈ m.scan) : c ∈ m.data := by
  obtain ⟨coll, -, hc⟩ := List.mem_flatMap.mp h
  exact List.mem_of_mem_filter hc

/-- What an arrival replaces is in `bpy.data`. -/
private theorem replaces_mem {a : Datablock × String} {old : Datablock}
    (h : replaces m uuidMap loaded a = some old) : old ∈ m.data := by
  rcases Option.or_eq_some_iff.mp h with hpred | ⟨-, hname⟩
  · simp only [predecessor] at hpred
    split at hpred
    · cases hpred
    · rcases Option.or_eq_some_iff.mp hpred with hmap | ⟨-, hscan⟩
      · have hmap := (Option.filter_eq_some_iff.mp hmap).1
        cases uuidMap with
        | none => cases hmap
        | some map =>
          have hlive := (Option.filter_eq_some_iff.mp hmap).1
          obtain ⟨ptr, -, hfind⟩ := Option.bind_eq_some_iff.mp hlive
          exact List.mem_of_find?_eq_some hfind
      · exact mem_of_mem_scan (List.mem_of_find?_eq_some hscan)
  · exact (sameNamed_spec hname).1

/-- A pointer names one datablock. -/
private theorem eq_of_ptr_eq {c d : Datablock} (hc : c ∈ m.data) (hd : d ∈ m.data)
    (h : c.ptr = d.ptr) :
    c = d :=
  List.inj_on_of_nodup_map m.nodup hc hd h

/-! ## What stays -/

variable (env : Env)

theorem Kept.userRemap {db : Datablock} {data : List Datablock} (h : Kept db data) (old new : Nat) :
    Kept db (userRemap data old new) := by
  obtain ⟨d, hd, hsame⟩ := h
  exact ⟨_, List.mem_map_of_mem hd, hsame⟩

/-- Pass 2 changes references only. -/
private theorem Kept.remapPairs {db : Datablock} {ps : List Pair} {a : Applied}
    (h : Kept db a.data) :
    Kept db (ps.foldl (remapPair env) a).data := by
  induction ps generalizing a with
  | nil => exact h
  | cons p ps ih =>
    refine ih ?_
    simp only [remapPair]
    split
    · exact h
    · split
      · exact h.userRemap _ _
      · exact h

/-- Pass 3 removes the stale datablocks only. -/
theorem Kept.removeStale {db : Datablock} {ps : List Pair} {a : Applied} (h : Kept db a.data)
    (hdb : db.ptr ∉ stale ps) : Kept db (removeStale env a ps).data := by
  simp only [Tier2.removeStale]
  split
  · exact h
  · split
    · obtain ⟨d, hd, hsame⟩ := h
      exact ⟨d, List.mem_filter.mpr ⟨hd, by simpa [hsame.1] using hdb⟩, hsame⟩
    · exact h

/-- Restoring names renames arrivals only. -/
theorem Kept.restoreName {db : Datablock} {p : Pair} {a out : Applied} (h : Kept db a.data)
    (hp : p.new.ptr ≠ db.ptr) (hout : restoreName env a p = some out) : Kept db out.data := by
  simp only [Tier2.restoreName] at hout
  split at hout
  · cases hout
  · rename_i d hfind
    have hd : d.ptr = p.new.ptr := by simpa using List.find?_some hfind
    cases hout
    simp only
    split
    · exact h
    · split
      · obtain ⟨d', hd', hsame⟩ := h
        refine ⟨_, List.mem_map_of_mem hd', ?_⟩
        rw [if_neg (by rw [hsame.1, hd]; exact hp.symm)]
        exact hsame
      · exact h

private theorem Kept.restoreNames {db : Datablock} {ps : List Pair} {a out : Applied}
    (h : Kept db a.data)
    (hps : ∀ p ∈ ps, p.new.ptr ≠ db.ptr) (hout : ps.foldlM (Tier2.restoreName env) a = some out) :
    Kept db out.data := by
  induction ps generalizing a with
  | nil => cases hout; exact h
  | cons p ps ih =>
    rw [List.foldlM_cons, Option.bind_eq_bind, Option.bind_eq_some_iff] at hout
    obtain ⟨a', ha', hout⟩ := hout
    exact ih (h.restoreName env (hps p (by simp)) ha') (fun q hq => hps q (by simp [hq])) hout

/-- A datablock that no arrival replaces and that is no arrival stays. -/
private theorem kept_of_not_stale {db : Datablock} (hdb : db ∈ m.data)
    (hnew : ∀ a ∈ loaded.arrivals, a.1.ptr ≠ db.ptr)
    (hstale : db.ptr ∉ stale (pairs m uuidMap loaded)) {out : Applied}
    (hout : applyBlob env m loaded uuidMap = some out) : Kept db out.data := by
  have hstart : Kept db m.data := ⟨db, hdb, rfl, rfl, rfl⟩
  refine Kept.restoreNames env ((Kept.remapPairs env hstart).removeStale env hstale) ?_ hout
  intro p hp
  obtain ⟨a, ha, rfl⟩ := List.mem_map.mp hp
  exact hnew a ha

/-! ## The condition -/

/-- Under the condition, what an arrival replaces has its stamp or none. -/
private theorem PairsSafely.matched (h : PairsSafely m uuidMap loaded) {a : Datablock × String}
    (ha : a ∈ loaded.arrivals) {old : Datablock} (hold : replaces m uuidMap loaded a = some old) :
    old.stamp = a.1.stamp ∨ old.stamp = "" := by
  cases hpred : predecessor m uuidMap a.1 with
  | some o =>
    rw [replaces_of_predecessor hpred, Option.some.injEq] at hold
    exact .inl (hold ▸ (predecessor_spec hpred).1)
  | none =>
    rw [replaces_of_unpreceded hpred] at hold
    exact .inr (h.byName a ha hpred old hold)

/-- Under the condition, two arrivals share only what came with the blob. -/
theorem PairsSafely.once (h : PairsSafely m uuidMap loaded) :
    loaded.arrivals.Pairwise fun a b => ∀ old, replaces m uuidMap loaded a = some old →
      replaces m uuidMap loaded b = some old → old.ptr ∈ loaded.ptrs := by
  have hdistinct := List.pairwise_map.mp loaded.nodup
  refine List.Pairwise.imp_of_mem ?_ (h.byStamp.and (h.oneName.and hdistinct))
  rintro a b ha hb ⟨hstamp, hname, hne⟩ old holda holdb
  cases hpa : predecessor m uuidMap a.1 with
  | some o =>
    obtain ⟨hoa, hane, -⟩ := predecessor_spec hpa
    rw [replaces_of_predecessor hpa, Option.some.injEq] at holda
    subst holda
    cases hpb : predecessor m uuidMap b.1 with
    | some o' =>
      rw [replaces_of_predecessor hpb, Option.some.injEq] at holdb
      subst holdb
      have hab : a.1.stamp = b.1.stamp := hoa.symm.trans (predecessor_spec hpb).1
      obtain ⟨f, hf⟩ := found_of_predecessor hpa
      have hfound := hstamp hab hane f hf
      -- `f` is one of the two arrivals at most, so it is what the other one found
      by_cases hfa : f.ptr = a.1.ptr
      · have hfb : found m uuidMap b.1.stamp = some f := hab ▸ hf
        have hb' := predecessor_of_found (hab ▸ hane) hfb (by rw [hfa]; exact hne)
        rw [hpb, Option.some.injEq] at hb'
        exact hb' ▸ hfound
      · have ha' := predecessor_of_found hane hf hfa
        rw [hpa, Option.some.injEq] at ha'
        exact ha' ▸ hfound
    | none =>
      rw [replaces_of_unpreceded hpb] at holdb
      exact absurd (hoa ▸ h.byName b hb hpb o holdb) hane
  | none =>
    rw [replaces_of_unpreceded hpa] at holda
    cases hpb : predecessor m uuidMap b.1 with
    | some o' =>
      obtain ⟨hob, hbne, -⟩ := predecessor_spec hpb
      rw [replaces_of_predecessor hpb, Option.some.injEq] at holdb
      subst holdb
      exact absurd (hob ▸ h.byName a ha hpa o' holda) hbne
    | none =>
      rw [replaces_of_unpreceded hpb] at holdb
      obtain ⟨-, hca, hna, -⟩ := sameNamed_spec holda
      obtain ⟨-, hcb, hnb, -⟩ := sameNamed_spec holdb
      rw [hname (hca.symm.trans hcb) (hna.symm.trans hnb) hpa hpb] at holda
      cases holda

/-- Exactly when the condition holds does `apply_blob` remove only what it replaces. -/
theorem removesOnlyReplaced_iff (m : Main) (uuidMap : Option (Dict Uuid Nat)) (loaded : Loaded m) :
    RemovesOnlyReplaced m uuidMap loaded ↔ PairsSafely m uuidMap loaded := by
  -- what is removed decides: each part of the condition from a pair that would be wrong
  constructor
  · intro h
    have honce : loaded.arrivals.Pairwise fun a b => ∀ old,
        replaces m uuidMap loaded a = some old → replaces m uuidMap loaded b = some old →
        old.ptr ∈ loaded.ptrs := List.pairwise_map.mp (pairs_eq ▸ h.once)
    have hdistinct := List.pairwise_map.mp loaded.nodup
    refine ⟨fun a ha hpred c hc => ?_, ?_, ?_⟩
    · obtain ⟨hmem, hcoll, -, hnew⟩ := sameNamed_spec hc
      have hptr : c.ptr ≠ a.1.ptr := fun heq => hnew (heq ▸ List.mem_map_of_mem ha)
      have hpair := h.matched _ (List.mem_map_of_mem ha) c
        ((replaces_of_unpreceded hpred).trans hc)
      by_cases hne : a.1.stamp = ""
      · rcases hpair with heq | heq
        · exact heq.trans hne
        · exact heq
      · exact hpair.resolve_left
          (stamp_ne_of_unpreceded hpred hmem hcoll (loaded.listed a ha) hptr hne)
    · -- two arrivals with one stamp would both replace what is found
      refine List.Pairwise.imp_of_mem ?_ (honce.and hdistinct)
      rintro a b ha hb ⟨hshare, -⟩ hstamp hne f hf
      by_contra hnew
      have hptr : ∀ x ∈ loaded.arrivals, f.ptr ≠ x.1.ptr :=
        fun x hx heq => hnew (heq ▸ List.mem_map_of_mem hx)
      have hpa := predecessor_of_found hne hf (hptr a ha)
      have hpb := predecessor_of_found (hstamp ▸ hne) (hstamp ▸ hf) (hptr b hb)
      exact hnew (hshare f (replaces_of_predecessor hpa) (replaces_of_predecessor hpb))
    · -- two of one name would both replace what has that name
      refine List.Pairwise.imp ?_ honce
      intro a b hshare hcoll hname hpa hpb
      by_contra hsome
      obtain ⟨c, hc⟩ := Option.ne_none_iff_exists'.mp hsome
      have hcb : sameNamed m loaded.ptrs b.1 b.2 = some c := by
        rw [← hc, sameNamed, sameNamed, hcoll, hname]
      have := hshare c ((replaces_of_unpreceded hpa).trans hc)
        ((replaces_of_unpreceded hpb).trans hcb)
      exact (sameNamed_spec hc).2.2.2 this
  · -- the other way round every pair is of one stamp, or of none
    intro h
    have hmatched : ∀ p ∈ pairs m uuidMap loaded, ∀ old, p.old = some old →
        old.stamp = p.new.stamp ∨ old.stamp = "" := by
      intro p hp old hold
      obtain ⟨a, ha, rfl⟩ := List.mem_map.mp hp
      exact h.matched ha hold
    refine ⟨hmatched, pairs_eq ▸ List.pairwise_map.mpr h.once, fun db hdb hne hforeign => ?_⟩
    -- what is not replaced is not stale
    have hstale : db.ptr ∉ stale (pairs m uuidMap loaded) := by
      intro hmem
      obtain ⟨old, hold, hptr⟩ := List.mem_map.mp hmem
      obtain ⟨p, hp, hpold⟩ := List.mem_filterMap.mp hold
      obtain ⟨a, ha, rfl⟩ := List.mem_map.mp hp
      obtain rfl : old = db := eq_of_ptr_eq (replaces_mem hpold) hdb hptr
      rcases hmatched _ hp old hpold with heq | heq
      · exact hforeign a ha heq.symm
      · exact hne heq
    -- and it is no arrival
    have hnew : ∀ a ∈ loaded.arrivals, a.1.ptr ≠ db.ptr := by
      intro a ha hptr
      have heq : a.1 = db := eq_of_ptr_eq (loaded.mem a ha) hdb hptr
      exact hforeign a ha (heq ▸ rfl)
    exact ⟨hstale, fun env out hout => kept_of_not_stale env hdb hnew hstale hout⟩

/-! ## A name that was taken over -/

namespace Renamed

/-- On the replica, `"Cube"` is still the name of the object stamped `"b"`; the
    blob brings the object stamped `"a"`, which was given that name on the host. -/
def main : Main where
  data := [⟨1, "objects", "Cube", "b", []⟩, ⟨2, "objects", "Cube.001", "a", []⟩]
  nodup := by decide

/-- The blob's only datablock. -/
def blob : Loaded main where
  arrivals := [(⟨2, "objects", "Cube.001", "a", []⟩, "Cube")]
  mem := by decide
  listed := by decide
  nodup := by decide

end Renamed

/-- The blob deletes an object that it has nothing to do with. -/
theorem removesOnlyReplaced_counterexample :
    1 ∈ stale (pairs Renamed.main none Renamed.blob) ∧
      ¬ RemovesOnlyReplaced Renamed.main none Renamed.blob := by
  refine ⟨by decide, fun h => ?_⟩
  have hpair : (⟨⟨2, "objects", "Cube.001", "a", []⟩, some ⟨1, "objects", "Cube", "b", []⟩,
      "Cube"⟩ : Pair) ∈ pairs Renamed.main none Renamed.blob := by decide
  rcases h.matched _ hpair _ rfl with heq | heq <;> simp at heq

end QCBridge.Tier2
