import QCBridge.Ring1.Resync

/-!
# A delta brings the inventories together

The plan of a delta sorts every datablock into one class: a tombstone, a resend, a check, or
nothing. Carrying the plan out, as `send_delta` and `_resend_t2` do, leaves the replica with
what the host has: each resent or checked datablock is hashed anew, and its blob travels
unless the replica already holds that digest.

## Key results

- `mem_plan_tombs`, `mem_plan_resend`, `mem_plan_verify`: which datablock is in which list
- `get?_repaired`: the two inventories after the repair
- `plan_converges`: the lists are apart, miss only what agrees, and the inventories end equal
-/

namespace QCBridge.DeltaPlan

variable {δ : Type} [DecidableEq δ] {hostAlive atStateAll : List Uuid}
  {hostHash replicaHeld : Dict Uuid δ} {hostScene replicaScene : Option δ} {gapLane : GapLane}
  {out : DeltaPlan}

/-! ## The lists of a plan -/

private theorem nodup_sorted (l : List Uuid) : (sorted l).Nodup :=
  (List.mergeSort_perm l.dedup _).nodup_iff.mpr l.nodup_dedup

/-- The Scene's structure is known and the same: there is a plan. -/
private theorem plan_of_same_scene (scene : δ) :
    ∃ out, plan hostAlive hostHash replicaHeld (some scene) (some scene) gapLane atStateAll =
      some out := by
  unfold plan
  exact ⟨_, if_neg (not_not_intro rfl)⟩

variable (hplan : plan hostAlive hostHash replicaHeld hostScene replicaScene gapLane atStateAll =
  some out)
include hplan

/-- What a plan consists of. -/
private theorem plan_eq :
    out.tombs = sorted (replicaHeld.keys.filter (· ∉ hostAlive)) ∧
      out.resend = (sorted hostAlive).filter
        (fun u => mustResend (hostHash.get? u) (replicaHeld.get? u)) ∧
      out.verify = (sorted hostAlive).filter
        (fun u => mustVerify (hostHash.get? u) (replicaHeld.get? u)) ∧
      out.atState = if gapLane = .cold then sorted (out.resend ++ out.verify)
        else sorted atStateAll := by
  unfold plan at hplan
  split at hplan
  · split at hplan
    · cases hplan
    · cases hplan
      exact ⟨rfl, rfl, rfl, rfl⟩
  · cases hplan

/-- A tombstone goes out for what only the replica has. -/
theorem mem_plan_tombs (u : Uuid) :
    u ∈ out.tombs ↔ u ∉ hostAlive ∧ ∃ d, replicaHeld.get? u = some d := by
  rw [(plan_eq hplan).1, mem_sorted, List.mem_filter, Dict.mem_keys_iff, and_comm]
  simp

/-- A check is made of what the replica has and the host has not hashed yet. -/
theorem mem_plan_verify (u : Uuid) :
    u ∈ out.verify ↔ u ∈ hostAlive ∧ hostHash.get? u = none ∧
      ∃ d, replicaHeld.get? u = some d := by
  rw [(plan_eq hplan).2.2.1, List.mem_filter, mem_sorted, mustVerify]
  simp [Option.isSome_iff_exists, and_comm]

omit hplan in
/-- The three-valued comparison: no list takes what is known to agree. -/
private theorem agree_iff (ours theirs : Option δ) :
    (∃ d, ours = some d ∧ theirs = some d) ↔
      mustResend ours theirs = false ∧ mustVerify ours theirs = false := by
  cases theirs with
  | none => simp [mustResend]
  | some d =>
    cases ours with
    | none => simp [mustResend, mustVerify]
    | some o =>
      constructor
      · rintro ⟨d', ⟨rfl⟩, ⟨rfl⟩⟩
        exact ⟨decide_eq_false (not_not_intro rfl), rfl⟩
      · rintro ⟨hsame, -⟩
        have hsame := not_not.mp (of_decide_eq_false hsame)
        exact ⟨d, by rw [hsame], rfl⟩

omit hplan in
/-- Nothing is both resent and checked. -/
private theorem resend_or_verify (ours theirs : Option δ) (h : mustResend ours theirs = true) :
    mustVerify ours theirs = false := by
  cases theirs with
  | none => rfl
  | some d =>
    cases ours with
    | none => cases h
    | some o => rfl

/-- The lists have no duplicates and share no member. -/
private theorem plan_apart : out.tombs.Nodup ∧ out.resend.Nodup ∧ out.verify.Nodup ∧
    out.tombs.Disjoint out.resend ∧ out.tombs.Disjoint out.verify ∧
      out.resend.Disjoint out.verify := by
  obtain ⟨htombs, hresend, hverify, -⟩ := plan_eq hplan
  refine ⟨?_, ?_, ?_, fun u ht hr => ?_, fun u ht hv => ?_, fun u hr hv => ?_⟩
  · rw [htombs]
    exact nodup_sorted _
  · rw [hresend]
    exact (nodup_sorted hostAlive).filter _
  · rw [hverify]
    exact (nodup_sorted hostAlive).filter _
  · exact ((mem_plan_tombs hplan u).mp ht).1 ((mem_plan_resend hplan u).mp hr).1
  · exact ((mem_plan_tombs hplan u).mp ht).1 ((mem_plan_verify hplan u).mp hv).1
  · have hno := resend_or_verify _ _ ((mem_plan_resend hplan u).mp hr).2
    rw [hverify, List.mem_filter, hno] at hv
    cases hv.2

/-- What is alive and in no list is what both sides know to be the same. -/
private theorem not_mem_plan {u : Uuid} (hu : u ∈ hostAlive) :
    (u ∉ out.tombs ∧ u ∉ out.resend ∧ u ∉ out.verify) ↔
      ∃ d, hostHash.get? u = some d ∧ replicaHeld.get? u = some d := by
  rw [agree_iff, mem_plan_tombs hplan, mem_plan_resend hplan, (plan_eq hplan).2.2.1,
    List.mem_filter, mem_sorted]
  simp [hu]

omit hplan

/-! ## Carrying a plan out -/

/-- `_resend_t2`, as far as the inventories go: the host hashes the datablock anew, and the
    replica gets the blob unless it holds that digest. -/
def resendOne (fresh : Uuid → δ) (inventories : Dict Uuid δ × Dict Uuid δ) (u : Uuid) :
    Dict Uuid δ × Dict Uuid δ :=
  (inventories.1.insert u (fresh u),
    if inventories.2.get? u = some (fresh u) then inventories.2
    else inventories.2.insert u (fresh u))

/-- `send_delta`: the inventories of the host and of the replica when a plan is carried
    out, given the digest of every datablock as it is now. -/
def repaired (out : DeltaPlan) (fresh : Uuid → δ) (hostHash replicaHeld : Dict Uuid δ) :
    Dict Uuid δ × Dict Uuid δ :=
  (out.resend ++ out.verify).foldl (resendOne fresh)
    (hostHash, out.tombs.foldl Dict.erase replicaHeld)

omit [DecidableEq δ] in
private theorem get?_foldl_erase (us : List Uuid) (d : Dict Uuid δ) (x : Uuid) :
    (us.foldl Dict.erase d).get? x = if x ∈ us then none else d.get? x := by
  induction us generalizing d with
  | nil => simp
  | cons u us ih =>
    rw [List.foldl_cons, ih, Dict.get?_erase]
    by_cases hx : x ∈ us
    · simp [hx]
    · by_cases hux : u = x
      · simp [hux]
      · simp [hx, hux, Ne.symm hux]

private theorem get?_foldl_resendOne (fresh : Uuid → δ) (us : List Uuid)
    (inventories : Dict Uuid δ × Dict Uuid δ) (x : Uuid) :
    (us.foldl (resendOne fresh) inventories).1.get? x =
        (if x ∈ us then some (fresh x) else inventories.1.get? x) ∧
      (us.foldl (resendOne fresh) inventories).2.get? x =
        (if x ∈ us then some (fresh x) else inventories.2.get? x) := by
  -- the induction is on the datablocks that are sent again
  induction us generalizing inventories with
  | nil => simp
  | cons u us ih =>
    rw [List.foldl_cons]
    obtain ⟨hhost, hreplica⟩ := ih (resendOne fresh inventories u)
    rw [hhost, hreplica]
    -- sent again later: that is what counts
    by_cases hx : x ∈ us
    · simp [hx]
    · -- sent again now, or not at all
      by_cases hux : u = x
      · subst hux
        simp only [hx, if_false, List.mem_cons, true_or, if_true, resendOne, Dict.get?_insert_self]
        split
        · rename_i hsame
          exact ⟨trivial, hsame⟩
        · exact ⟨trivial, Dict.get?_insert_self _ _ _⟩
      · simp only [hx, if_false, List.mem_cons, Ne.symm hux, or_self, resendOne]
        rw [Dict.get?_insert_of_ne _ _ hux]
        split
        · exact ⟨rfl, rfl⟩
        · rw [Dict.get?_insert_of_ne _ _ hux]
          exact ⟨rfl, rfl⟩

include hplan in
/-- After the repair the host knows, and the replica has, the same digest of every
    datablock that is alive, and the replica has nothing else. -/
theorem get?_repaired (fresh : Uuid → δ) (u : Uuid) :
    if u ∈ hostAlive then
      ∃ d, (out.repaired fresh hostHash replicaHeld).1.get? u = some d ∧
        (out.repaired fresh hostHash replicaHeld).2.get? u = some d
    else (out.repaired fresh hostHash replicaHeld).2.get? u = none := by
  unfold repaired
  obtain ⟨hhost, hreplica⟩ := get?_foldl_resendOne fresh (out.resend ++ out.verify)
    (hostHash, out.tombs.foldl Dict.erase replicaHeld) u
  rw [hhost, hreplica]
  dsimp only
  rw [get?_foldl_erase]
  split
  · -- alive: sent again, or the same on both sides
    rename_i hu
    by_cases hlisted : u ∈ out.resend ++ out.verify
    · exact ⟨fresh u, by rw [if_pos hlisted], by rw [if_pos hlisted]⟩
    · have htombs : u ∉ out.tombs := fun ht => ((mem_plan_tombs hplan u).mp ht).1 hu
      rw [if_neg hlisted, if_neg htombs, if_neg hlisted]
      rw [List.mem_append, not_or] at hlisted
      exact (not_mem_plan hplan hu).mp ⟨htombs, hlisted⟩
  · -- not alive: it is not sent again, so the tombs decide
    rename_i hu
    have hlisted : u ∉ out.resend ++ out.verify := by
      rw [List.mem_append, mem_plan_resend hplan, mem_plan_verify hplan]
      simp [hu]
    rw [if_neg hlisted]
    by_cases htombs : u ∈ out.tombs
    · rw [if_pos htombs]
    · rw [if_neg htombs]
      rw [mem_plan_tombs hplan, not_and, not_exists] at htombs
      exact Option.eq_none_iff_forall_ne_some.mpr (htombs hu)

/-- A delta of two sides with the same Scene structure: the three lists have no duplicates
    and are apart; of what is alive they leave out exactly what both know to be the same;
    carried out, whatever the datablocks hash to by then, it leaves the replica with the
    host's digests and with nothing that is not alive; and after a hole on the cold lane
    alone, the "@" paths re-sent are those of what is resent or checked. -/
theorem plan_converges (hostAlive atStateAll : List Uuid) (hostHash replicaHeld : Dict Uuid δ)
    (scene : δ) (gapLane : GapLane) :
    ∃ out, plan hostAlive hostHash replicaHeld (some scene) (some scene) gapLane atStateAll =
        some out ∧
      (out.tombs.Nodup ∧ out.resend.Nodup ∧ out.verify.Nodup ∧
        out.tombs.Disjoint out.resend ∧ out.tombs.Disjoint out.verify ∧
        out.resend.Disjoint out.verify) ∧
      (∀ u ∈ hostAlive, (u ∉ out.tombs ∧ u ∉ out.resend ∧ u ∉ out.verify) ↔
        ∃ d, hostHash.get? u = some d ∧ replicaHeld.get? u = some d) ∧
      (∀ (fresh : Uuid → δ) (u : Uuid), if u ∈ hostAlive then
          ∃ d, (out.repaired fresh hostHash replicaHeld).1.get? u = some d ∧
            (out.repaired fresh hostHash replicaHeld).2.get? u = some d
        else (out.repaired fresh hostHash replicaHeld).2.get? u = none) ∧
      (gapLane = .cold → out.atState.Nodup ∧
        ∀ u, u ∈ out.atState ↔ u ∈ out.resend ∨ u ∈ out.verify) := by
  obtain ⟨out, hplan⟩ : ∃ out, plan hostAlive hostHash replicaHeld (some scene) (some scene)
      gapLane atStateAll = some out := plan_of_same_scene scene
  refine ⟨out, hplan, plan_apart hplan, fun u hu => not_mem_plan hplan hu,
    get?_repaired hplan, fun hcold => ?_⟩
  rw [(plan_eq hplan).2.2.2, if_pos hcold]
  refine ⟨nodup_sorted _, fun u => ?_⟩
  rw [mem_sorted, List.mem_append]

end QCBridge.DeltaPlan
