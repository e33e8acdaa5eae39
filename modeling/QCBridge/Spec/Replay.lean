import QCBridge.Spec.Pump

/-!
# What the replica holds, message by message

A property of what the replica holds and of its log is carried through the apply
loop when each thing that changes either of them carries it: a delta, a tombstone,
a link, a library file. Everything else that a message can bring about (parking,
reassembly, the counters, releasing what was parked) is bookkeeping.

## Key results

- `Replica.Carries`: what there is to show of a property
- `Replica.Carries.handle`, `Replica.Carries.release`: what follows
-/

namespace QCBridge

namespace Replica

variable {β V δ S : Type} {B : Blender β V δ S}

/-- The property `J` survives everything a message does by itself. -/
structure Carries (B : Blender β V δ S) (J : ReplicaData V δ S → List (Ev β V δ) → Prop) :
    Prop where
  /-- Only the scene and the kept `"@"` values matter. -/
  of_eq : ∀ {d d' log}, J d log → d'.scene = d.scene → d'.atState = d.atState → J d' log
  /-- An event that is no effect. -/
  quiet : ∀ {d log ev}, ev.isEffect = false → J d log → J d (log ++ [ev])
  t1 : ∀ {d log g m}, m.header.kind = .t1 → J d log →
    J (applyT1 B g d m) (log ++ [.dispatched m])
  tomb : ∀ {d log m}, m.header.kind = .tomb → J d log →
    J (applyTombstone B d m.header.uuid) (log ++ [.dispatched m])
  other : ∀ {d log m}, m.header.kind ≠ .t1 → m.header.kind ≠ .tomb → J d log →
    J d (log ++ [.dispatched m])
  link : ∀ {d log h}, J d log → J { d with scene := B.applyLink d.scene h } log
  libfile : ∀ {d log h blob}, J d log → J { d with scene := B.applyLibfile d.scene h blob } log

namespace Carries

variable {J : ReplicaData V δ S → List (Ev β V δ) → Prop} {r : Replica β V δ S}

/-- `_end_resync`. -/
theorem endResync (hJ : Carries B J) (h : J r.data r.log) (m : Msg β V δ) :
    J (r.endResync m).data (r.endResync m).log :=
  hJ.quiet rfl (hJ.of_eq h rfl rfl)

/-- A dispatched fast message. -/
theorem dispatchFast (hJ : Carries B J) (h : J r.data r.log) (m : Msg β V δ) :
    J (dispatchFast B r m).data (dispatchFast B r m).log := by
  simp only [Replica.dispatchFast]
  cases hk : m.header.kind
  case t1 => exact hJ.of_eq (hJ.t1 hk h) rfl rfl
  case tomb => exact hJ.of_eq (hJ.tomb hk h) rfl rfl
  case resyncEnd =>
    have hlog := hJ.other (m := m) (by simp [hk]) (by simp [hk]) h
    have hend := hJ.endResync (r := { r with log := r.log ++ [Ev.dispatched m] }) hlog m
    exact hJ.of_eq hend rfl rfl
  all_goals exact hJ.of_eq (hJ.other (by simp [hk]) (by simp [hk]) h) rfl rfl

/-- `_release`. -/
theorem release (hJ : Carries B J) (h : J r.data r.log) (items : List (Msg β V δ)) :
    J (release B items r).data (release B items r).log := by
  have hfold : J (items.foldl (Replica.dispatchFast B) r).data
      (items.foldl (Replica.dispatchFast B) r).log := by
    induction items generalizing r with
    | nil => exact h
    | cons m items ih => exact ih (hJ.dispatchFast h m)
  exact hJ.of_eq hfold rfl rfl

/-- `_release(_merger.cold_done(seq))`. -/
theorem coldDone (hJ : Carries B J) (h : J r.data r.log) (seq : Option Nat) :
    J (coldDone B r seq).data (coldDone B r seq).log :=
  hJ.release (r := { r with merger := r.merger.coldDone seq }) h _

variable [Inhabited β]

/-- A chunk of a blob changes nothing yet. -/
theorem dispatchChunk (hJ : Carries B J) (h : J r.data r.log) (m : Msg β V δ) (b : Chunk) :
    J (dispatchChunk B r m b).data (dispatchChunk B r m b).log := by
  simp only [Replica.dispatchChunk]
  split
  · exact h
  · refine hJ.coldDone ?_ _
    exact h

/-- A dispatched cold message. -/
theorem dispatchCold (hJ : Carries B J) (h : J r.data r.log) (m : Msg β V δ) :
    J (dispatchCold B r m).data (dispatchCold B r m).log := by
  -- what carries no values and takes nothing away only adds its entry
  have hother : m.header.kind ≠ .t1 → m.header.kind ≠ .tomb →
      J r.data (r.log ++ [Ev.dispatched m]) := fun h1 h2 => hJ.other h1 h2 h
  simp only [Replica.dispatchCold]
  cases hk : m.header.kind
  -- values and tombstones
  case t1 => exact hJ.coldDone (r := { r with data := _, log := _ }) (hJ.t1 hk h) _
  case tomb => exact hJ.coldDone (r := { r with data := _, log := _ }) (hJ.tomb hk h) _
  -- an end
  case resyncEnd =>
    have hlog := hother (by simp [hk]) (by simp [hk])
    exact hJ.coldDone (hJ.endResync (r := { r with log := _ }) hlog m) _
  -- what carries data is assembled first
  case libfile =>
    have hlog := hother (by simp [hk]) (by simp [hk])
    cases m.header.blob with
    | none => exact hlog
    | some b =>
      dsimp only
      split
      · exact hJ.coldDone (r := { r with data := _, log := _, reassembler := _ })
          (hJ.libfile hlog) _
      · exact hlog
  case t2 =>
    have hlog := hother (by simp [hk]) (by simp [hk])
    cases m.header.blob with
    | none => exact hlog
    | some b => exact hJ.dispatchChunk (r := { r with log := _ }) hlog m b
  case boot =>
    have hlog := hother (by simp [hk]) (by simp [hk])
    cases m.header.blob with
    | none => exact hlog
    | some b => exact hJ.dispatchChunk (r := { r with log := _ }) hlog m b
  case libMissing =>
    exact hJ.coldDone (r := { r with log := _ }) (hother (by simp [hk]) (by simp [hk])) _
  -- a link
  all_goals
    exact hJ.coldDone (r := { r with data := _, log := _ })
      (hJ.link (hother (by simp [hk]) (by simp [hk]))) _

/-- One message. -/
theorem handle (hJ : Carries B J) (h : J r.data r.log) (m : Msg β V δ) :
    J (handle B r m).data (handle B r m).log := by
  have hseen : J (r.observed m).data (r.observed m).log :=
    hJ.of_eq (hJ.quiet rfl h) (observed_scene r m) (observed_atState r m)
  simp only [Replica.handle, Replica.dispatch]
  split
  · split
    · exact hJ.dispatchFast hseen m
    · exact hJ.dispatchCold hseen m
  · exact hJ.of_eq hseen rfl rfl

end Carries

end Replica

end QCBridge
