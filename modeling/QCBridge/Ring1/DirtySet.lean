import QCBridge.Ring1.Protocol

/-!
# What the host still has to say

`ring1/dirtyset.py` and `ring1/classifier.py`: the dirty set keeps one entry for
each datablock that changed, a tier that only goes up or a tombstone, and the
debouncer keeps when each of them was last touched. The clock counts
milliseconds.
-/

namespace QCBridge

/-- `Tier`: property deltas, or the whole datablock. -/
inductive Tier where
  | t1
  | t2
deriving DecidableEq, Repr

/-- `max` of two tiers. -/
def Tier.max : Tier → Tier → Tier
  | .t1, .t1 => .t1
  | _, _ => .t2

/-- An entry of the dirty set. -/
inductive Mark where
  | dirty (tier : Tier)
  | tombstone
deriving DecidableEq, Repr

/-- `DirtySet`. -/
structure DirtySet where
  entries : Dict Uuid Mark := Dict.empty
  sent : List Uuid := []
deriving DecidableEq

namespace DirtySet

/-- `mark`: deleted stays deleted, and a tier never goes down. -/
def mark (d : DirtySet) (uuid : Uuid) (tier : Tier) : DirtySet :=
  match d.entries.get? uuid with
  -- a datablock made anew has another uuid
  | some .tombstone => d
  | some (.dirty t) => { d with entries := d.entries.insert uuid (.dirty (t.max tier)) }
  | none => { d with entries := d.entries.insert uuid (.dirty tier) }

/-- `mark_deleted`: a datablock the peer never heard of just goes. -/
def markDeleted (d : DirtySet) (uuid : Uuid) : DirtySet :=
  -- otherwise there is nothing on the other side to delete
  if uuid ∈ d.sent then { d with entries := d.entries.insert uuid .tombstone }
  else { d with entries := d.entries.erase uuid }

/-- The tombstones of a list of entries. -/
def tombstonesOf : List (Uuid × Mark) → List Uuid
  | [] => []
  | (u, .tombstone) :: es => u :: tombstonesOf es
  | (_, .dirty _) :: es => tombstonesOf es

/-- The dirty datablocks of a list of entries. -/
def dirtyOf : List (Uuid × Mark) → List (Uuid × Tier)
  | [] => []
  | (_, .tombstone) :: es => dirtyOf es
  | (u, .dirty t) :: es => (u, t) :: dirtyOf es

/-- `drain`: everything, the tombstones apart. Drained datablocks are known to the
    peer from then on, tombstoned ones no more. -/
def drain (d : DirtySet) : DirtySet × List Uuid × List (Uuid × Tier) :=
  let tombs := tombstonesOf d.entries.entries
  let dirty := dirtyOf d.entries.entries
  -- the tombstones go first, before anything that arrives with their names
  ({ entries := Dict.empty
     sent := d.sent.filter (· ∉ tombs) ∪ dirty.map Prod.fst }, tombs, dirty)

/-- `requeue`. -/
def requeue (d : DirtySet) (uuid : Uuid) (tier : Tier) : DirtySet := d.mark uuid tier

/-- `requeue_tombstone`. -/
def requeueTombstone (d : DirtySet) (uuid : Uuid) : DirtySet :=
  { entries := d.entries.insert uuid .tombstone, sent := d.sent.insert uuid }

/-- `assume_known`. -/
def assumeKnown (d : DirtySet) (uuid : Uuid) : DirtySet := { d with sent := d.sent.insert uuid }

/-- `len(dirty) == 0`. -/
def isEmpty (d : DirtySet) : Bool := d.entries.entries.isEmpty

end DirtySet

/-- `DEBOUNCE_S`. -/
def debounceMs : Int := 80

/-- `Debouncer`. -/
structure Debouncer where
  touched : Dict Uuid Int := Dict.empty
deriving DecidableEq

namespace Debouncer

/-- `touch`. -/
def touch (d : Debouncer) (uuid : Uuid) (now : Int) : Debouncer := ⟨d.touched.insert uuid now⟩

/-- Whether the window of a datablock touched at `t` is over. -/
def due (now t : Int) : Bool := debounceMs ≤ now - t

/-- `ready`: the datablocks whose window is over, which are taken out. -/
def ready (d : Debouncer) (now : Int) : Debouncer × List Uuid :=
  (⟨d.touched.filter fun _ t => !due now t⟩,
    (d.touched.filter fun _ t => due now t).keys)

/-- `drop`. -/
def drop (d : Debouncer) (uuid : Uuid) : Debouncer := ⟨d.touched.erase uuid⟩

end Debouncer

/-! ## Entries -/

namespace DirtySet

theorem get?_mark (d : DirtySet) (u u' : Uuid) (t : Tier) :
    (d.mark u t).entries.get? u' =
      if u = u' then
        some (match d.entries.get? u with
          | some .tombstone => .tombstone
          | some (.dirty t') => .dirty (t'.max t)
          | none => .dirty t)
      else d.entries.get? u' := by
  simp only [mark]
  cases hget : d.entries.get? u with
  | none => simp [Dict.get?_insert]
  | some m =>
    cases m with
    | dirty t' => simp [Dict.get?_insert]
    | tombstone =>
      by_cases hu : u = u'
      · simp [hu, ← hget]
      · simp [hu]

/-- A mark is never lost to another one. -/
theorem get?_mark_isSome (d : DirtySet) (u u' : Uuid) (t : Tier)
    (h : (d.entries.get? u').isSome) : ((d.mark u t).entries.get? u').isSome := by
  rw [get?_mark]
  split
  · rfl
  · exact h

theorem mem_tombstonesOf {es : List (Uuid × Mark)} {u : Uuid} :
    u ∈ tombstonesOf es ↔ (u, Mark.tombstone) ∈ es := by
  induction es with
  | nil => simp [tombstonesOf]
  | cons e es ih =>
    obtain ⟨u', m⟩ := e
    cases m <;> simp [tombstonesOf, ih]

theorem mem_dirtyOf {es : List (Uuid × Mark)} {u : Uuid} {t : Tier} :
    (u, t) ∈ dirtyOf es ↔ (u, Mark.dirty t) ∈ es := by
  induction es with
  | nil => simp [dirtyOf]
  | cons e es ih =>
    obtain ⟨u', m⟩ := e
    cases m <;> simp [dirtyOf, ih]

end DirtySet

end QCBridge
