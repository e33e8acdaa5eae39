import QCBridge.ForStd.JsonText
import QCBridge.Ring1.Resync

/-!
# What a viewport shows

`ring1/visview.py`: which objects are in Local View, whether collections are hidden for this
viewport alone, and which. The host samples the signature of its largest viewport and sends it;
the replica plans the steps that take its own viewport there.
-/

namespace QCBridge

private theorem sorted_pairwise (l : List Uuid) : (DeltaPlan.sorted l).Pairwise (· < ·) := by
  have hle : (DeltaPlan.sorted l).Pairwise fun a b : Uuid => decide (a ≤ b) = true := by
    apply List.pairwise_mergeSort
    · intro a b c hab hbc
      simp only [decide_eq_true_eq] at hab hbc ⊢
      exact le_trans hab hbc
    · intro a b
      simpa using le_total a b
  have hnodup : (DeltaPlan.sorted l).Nodup :=
    (List.mergeSort_perm _ _).nodup_iff.mpr (List.nodup_dedup l)
  -- in order, and each once
  refine (hle.and hnodup).imp fun h => ?_
  exact lt_of_le_of_ne (by simpa using h.1) h.2

/-- A list in order is determined by its members. -/
private theorem eq_of_pairwise_of_mem {l l' : List Uuid} (h : l.Pairwise (· < ·))
    (h' : l'.Pairwise (· < ·)) (hmem : ∀ u, u ∈ l ↔ u ∈ l') : l = l' := by
  have hnodup : l.Nodup := h.imp fun hlt => ne_of_lt hlt
  have hnodup' : l'.Nodup := h'.imp fun hlt => ne_of_lt hlt
  have hperm := (List.perm_ext_iff_of_nodup hnodup hnodup').mpr hmem
  exact hperm.eq_of_pairwise (fun a b _ _ hab hba => absurd hab (lt_asymm hba)) h h'

private theorem sorted_of_pairwise {l : List Uuid} (h : l.Pairwise (· < ·)) :
    DeltaPlan.sorted l = l :=
  eq_of_pairwise_of_mem (sorted_pairwise l) h fun _ => DeltaPlan.mem_sorted

/-- `VisSig`. What is in Local View, which is empty outside of it; `use_local_collections`; and
    the collections that are hidden in this viewport only. -/
structure VisSig where
  localUuids : List Uuid
  localColls : Bool
  hiddenLc : List Uuid
  local_sorted : localUuids.Pairwise (· < ·)
  hidden_sorted : hiddenLc.Pairwise (· < ·)
deriving DecidableEq

namespace VisSig

/-- `VisSig.make`. -/
def make (localUuids : List Uuid) (localColls : Bool) (hiddenLc : List Uuid) : VisSig where
  localUuids := DeltaPlan.sorted localUuids
  localColls := localColls
  hiddenLc := DeltaPlan.sorted hiddenLc
  local_sorted := sorted_pairwise localUuids
  hidden_sorted := sorted_pairwise hiddenLc

theorem make_self (sig : VisSig) : make sig.localUuids sig.localColls sig.hiddenLc = sig := by
  unfold make
  congr 1
  · exact sorted_of_pairwise sig.local_sorted
  · exact sorted_of_pairwise sig.hidden_sorted

/-- Signatures that say the same are one. -/
theorem ext_mem {sig sig' : VisSig} (hlocal : ∀ u, u ∈ sig.localUuids ↔ u ∈ sig'.localUuids)
    (hcolls : sig.localColls = sig'.localColls)
    (hhidden : ∀ u, u ∈ sig.hiddenLc ↔ u ∈ sig'.hiddenLc) : sig = sig' := by
  obtain ⟨l, c, h, hl, hh⟩ := sig
  obtain ⟨l', c', h', hl', hh'⟩ := sig'
  obtain rfl := eq_of_pairwise_of_mem hl hl' hlocal
  obtain rfl := eq_of_pairwise_of_mem hh hh' hhidden
  obtain rfl : c = c' := hcolls
  rfl

end VisSig

/-! ## On the wire -/

namespace VisSig

/-- The texts of a list, as a JSON value. -/
def namesValue (names : List Uuid) : JsonValue := .arr (names.map fun u => .str u.toList)

/-- The object that `encode` writes. -/
def value (sig : VisSig) : JsonValue :=
  .obj [(['l'], namesValue sig.localUuids), (['c'], .bool sig.localColls),
    (['h'], namesValue sig.hiddenLc)]

/-- `encode`. -/
def encode (sig : VisSig) : ByteArray := (String.ofList sig.value.dumps).toUTF8

/-- The texts of a list; a list with anything else is no list of names. -/
def itemNames : List JsonValue → Option (List Uuid)
  | [] => some []
  | .str s :: vs => (itemNames vs).map (String.ofList s :: ·)
  | _ :: _ => none

/-- A number is zero if its digits before the exponent are. -/
def isZero (lexeme : List Char) : Bool :=
  (lexeme.takeWhile fun c => c != 'e' && c != 'E').all fun c => c == '-' || c == '.' || c == '0'

/-- `bool` of a value. -/
def truthy : JsonValue → Bool
  | .null => false
  | .bool b => b
  | .num lexeme => !isZero lexeme
  | .str s => !s.isEmpty
  | .arr items => !items.isEmpty
  | .obj fields => !fields.isEmpty

/-- What `make` iterates over: a list, the characters of a text, or the keys of an object. What
    is false is as good as missing. -/
def names : Option JsonValue → Option (List Uuid)
  | none => some []
  | some v =>
    if truthy v then
      match v with
      | .arr items => itemNames items
      | .str s => some (s.map fun c => String.ofList [c])
      | .obj fields => some (fields.map fun f => String.ofList f.1)
      | _ => none
    else some []

/-- `decode`. -/
def decode : Option ByteArray → Option VisSig
  | none => none
  | some data =>
    if data.isEmpty then none
    else
      match String.fromUTF8? data with
      | none => none
      | some text =>
        match JsonValue.loads text.toList with
        | some (.obj fields) =>
          match names (JsonValue.field fields ['l']), names (JsonValue.field fields ['h']) with
          | some localUuids, some hiddenLc =>
            some (.make localUuids ((JsonValue.field fields ['c']).any truthy) hiddenLc)
          | _, _ => none
        -- only an object has `get`
        | _ => none

end VisSig

/-! ## The plan -/

/-- `VisPlan`. -/
structure VisPlan where
  exit : Bool := false
  enterWith : List Uuid := []
  add : List Uuid := []
  remove : List Uuid := []
  setLocalColls : Option Bool := none
  lcHide : List Uuid := []
  lcShow : List Uuid := []
deriving DecidableEq

/-- `VisPlan.empty`. -/
def VisPlan.empty (p : VisPlan) : Bool :=
  !(p.exit || !p.enterWith.isEmpty || !p.add.isEmpty || !p.remove.isEmpty ||
    p.setLocalColls.isSome || !p.lcHide.isEmpty || !p.lcShow.isEmpty)

/-- `sorted(set(a) - set(b))`. -/
def sortedDiff (a b : List Uuid) : List Uuid := DeltaPlan.sorted (a.filter (· ∉ b))

/-- `plan`. -/
def visPlan (haveSig want : VisSig) : VisPlan where
  exit := !haveSig.localUuids.isEmpty && want.localUuids.isEmpty
  enterWith :=
    if !want.localUuids.isEmpty && haveSig.localUuids.isEmpty then want.localUuids else []
  add :=
    -- Local View on both sides: what was added and removed
    if !want.localUuids.isEmpty && !haveSig.localUuids.isEmpty then
      sortedDiff want.localUuids haveSig.localUuids
    else []
  remove :=
    if !want.localUuids.isEmpty && !haveSig.localUuids.isEmpty then
      sortedDiff haveSig.localUuids want.localUuids
    else []
  setLocalColls := if haveSig.localColls = want.localColls then none else some want.localColls
  lcHide := if want.localColls then sortedDiff want.hiddenLc haveSig.hiddenLc else []
  -- leaving the local collections shows what they hid
  lcShow :=
    if want.localColls then sortedDiff haveSig.hiddenLc want.hiddenLc
    else if haveSig.localColls then DeltaPlan.sorted haveSig.hiddenLc
    else []

theorem mem_sortedDiff {a b : List Uuid} {u : Uuid} : u ∈ sortedDiff a b ↔ u ∈ a ∧ u ∉ b := by
  unfold sortedDiff
  rw [DeltaPlan.mem_sorted, List.mem_filter, decide_eq_true_eq]

end QCBridge
