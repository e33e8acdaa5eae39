import QCBridge.Ring1.Wire
import QCBridge.ForStd.Attempt
import Mathlib.Data.List.DropRight
import Mathlib.Data.List.Induction

/-!
# A cold message arrives as it was sent

Each layer of the way is undone by its counterpart on the other side, and a message whose
packed body and codec header fit in a lane frame fits everywhere else: the frame on the
local socket is two bytes longer than the packed body, the lane frame at most five.

## Key results

- `readFrame_writeFrame`, `readLinkFrame_writeFrame`: the local socket, at both ends
- `recvMsg_sendMsg`: the lane
- `coldWireDecode_encode`: the codec, whichever messages compress
- `cold_pipeline`: the whole way, among frames of every other kind
-/

namespace QCBridge.Wire

variable {η : Type}

/-! ## Each layer -/

theorem maxFrame_lt : maxFrame < UInt32.size := by
  decide

private theorem maxLaneFrame_lt : maxLaneFrame < UInt32.size := maxFrame_lt

/-- `linkFrame` writes what `writeFrame` writes, as long as the length packs. -/
private theorem linkFrame_eq (kind : UInt8) (parts : List Bytes)
    (hlen : parts.flatten.length + 1 < UInt32.size) :
    linkFrame kind parts = some (writeFrame kind parts.flatten) := by
  unfold linkFrame packU32 writeFrame
  rw [← List.length_flatten, if_pos hlen]
  rfl

/-- The agent reads a frame of the local socket. -/
theorem readFrame_writeFrame (kind : UInt8) {body : Bytes} (hlen : body.length + 1 ≤ maxFrame)
    (rest : Bytes) : readFrame (writeFrame kind body ++ rest) = some ((kind, body), rest) := by
  have hbe : body.length + 1 < UInt32.size := Nat.lt_of_le_of_lt hlen maxFrame_lt
  unfold readFrame writeFrame
  rw [List.append_assoc, List.append_assoc, readBe32_be32 hbe]
  dsimp only [List.singleton_append]
  rw [if_neg (by omega), Nat.add_sub_cancel, takeBytes_append]
  rfl

/-- The addon reads a frame of the local socket. -/
theorem readLinkFrame_writeFrame (kind : UInt8) {body : Bytes}
    (hlen : body.length + 1 < UInt32.size) (rest : Bytes) :
    readLinkFrame (writeFrame kind body ++ rest) = some ((kind, body), rest) := by
  unfold readLinkFrame writeFrame
  rw [List.append_assoc, List.append_assoc, readBe32_be32 hlen]
  dsimp only [List.singleton_append]
  split
  · rw [Nat.add_sub_cancel, takeBytes_append]
    rfl
  · -- a frame without a body
    rename_i hempty
    obtain rfl := List.length_eq_zero_iff.mp (by omega : body.length = 0)
    rfl

/-- The replica's agent reads a message of the lane. -/
theorem recvMsg_sendMsg {payload : Bytes} (hlen : payload.length ≤ maxLaneFrame) (rest : Bytes) :
    recvMsg (sendMsg payload ++ rest) = some (payload, rest) := by
  unfold recvMsg sendMsg
  rw [List.append_assoc, readBe32_be32 (Nat.lt_of_le_of_lt hlen maxLaneFrame_lt)]
  dsimp only
  rw [if_neg (Nat.not_lt.mpr hlen), takeBytes_append]

/-- Compressed or not, a body on the lane is at most the codec header longer. -/
theorem length_coldWireEncode (Z : Zstd) (raw : Bytes) :
    (coldWireEncode Z raw).length ≤ raw.length + codecHeader := by
  have hplain : ([codecRaw] ++ be32 raw.length ++ raw).length = raw.length + codecHeader := by
    simp only [List.length_append, List.length_singleton, length_be32, codecHeader]
    omega
  unfold coldWireEncode
  dsimp only
  split
  · split
    · split
      · simp only [List.length_append, List.length_singleton, length_be32, codecHeader]
        omega
      · exact Nat.le_of_eq hplain
    · exact Nat.le_of_eq hplain
  · exact Nat.le_of_eq hplain

private theorem coldWireDecode_plain (Z : Zstd) {raw : Bytes} (hraw : raw.length < UInt32.size) :
    coldWireDecode Z ([codecRaw] ++ be32 raw.length ++ raw) = some raw := by
  rw [List.append_assoc, List.singleton_append]
  unfold coldWireDecode
  dsimp only
  rw [readBe32_be32 hraw]
  rfl

/-- Decoding undoes encoding, whichever messages compress. -/
theorem coldWireDecode_encode (Z : Zstd)
    (hzstd : ∀ raw z, Z.compress raw = some z → Z.decompress z raw.length = some raw)
    {raw : Bytes} (hraw : raw.length < UInt32.size) :
    coldWireDecode Z (coldWireEncode Z raw) = some raw := by
  unfold coldWireEncode
  dsimp only
  split
  · split
    · rename_i z hz
      split
      · rw [List.append_assoc, List.singleton_append]
        unfold coldWireDecode
        dsimp only
        rw [readBe32_be32 hraw]
        exact hzstd raw z hz
      · exact coldWireDecode_plain Z hraw
    · exact coldWireDecode_plain Z hraw
  · exact coldWireDecode_plain Z hraw

/-- Unpacking undoes packing. -/
private theorem unpackCold_packCold (J : Json η) (hjson : ∀ h, J.loads (J.dumps h) = some h)
    (header : η)
    (payload : Bytes) (hlen : (J.dumps header).length < UInt32.size) :
    unpackCold J (packCold J header payload) = some (header, payload) := by
  unfold unpackCold packCold
  rw [List.append_assoc, readBe32_be32 hlen]
  dsimp only
  rw [if_neg (by simp only [List.length_append, length_be32]; omega), List.take_left',
    List.drop_left', hjson]
  · rfl
  · rfl
  · rfl

/-! ## Sequences -/

private theorem coldBodies_map {α γ : Type} (f : α → γ) (frames : List (UInt8 × α)) :
    coldBodies (frames.map fun e => (e.1, f e.2)) = (coldBodies frames).map f := by
  unfold coldBodies
  rw [List.filter_map, List.map_map, List.map_map]
  rfl

private theorem mem_coldBodies {α : Type} {frames : List (UInt8 × α)} {body : α} :
    body ∈ coldBodies frames ↔ (tCold, body) ∈ frames := by
  unfold coldBodies
  simp

private theorem untilError_map_some {α γ : Type} {f : α → Option γ} {g : α → γ} {l : List α}
    (h : ∀ a ∈ l, f a = some (g a)) : untilError (l.map f) = l.map g := by
  induction l with
  | nil => rfl
  | cons a l ih =>
    rw [List.map_cons, h a (List.mem_cons_self ..), List.map_cons, untilError,
      ih fun b hb => h b (List.mem_cons_of_mem _ hb)]

/-- A list whose members all come back as they were. -/
private theorem filterMap_some {α : Type} {f : α → Option α} {l : List α}
    (h : ∀ a ∈ l, f a = some a) : l.filterMap f = l := by
  induction l with
  | nil => rfl
  | cons a l ih =>
    rw [List.filterMap_cons_some (h a (List.mem_cons_self ..)),
      ih fun b hb => h b (List.mem_cons_of_mem _ hb)]

/-- What the host's agent reads is what its addon wrote. -/
private theorem coldBodies_toHostAgent {up : List (UInt8 × List Bytes)}
    (hlen : ∀ f ∈ up, f.2.flatten.length + 1 ≤ maxFrame) :
    ∃ stream, toHostAgent up = some stream ∧
      coldBodies (readAll readFrame stream) = (coldBodies up).map List.flatten := by
  have hpack : ∀ f ∈ up, linkFrame f.1 f.2 = some (writeFrame f.1 f.2.flatten) := fun f hf =>
    linkFrame_eq f.1 f.2 (Nat.lt_of_le_of_lt (hlen f hf) maxFrame_lt)
  refine ⟨_, by rw [toHostAgent, mapM_some hpack, Option.map_some], ?_⟩
  have hwrite : (up.map fun f => writeFrame f.1 f.2.flatten).flatten =
      (up.map fun f => (f.1, f.2.flatten)).flatMap fun f => writeFrame f.1 f.2 := by
    rw [List.flatMap_map]
    rfl
  rw [hwrite, readAll_flatMap rfl, coldBodies_map]
  intro f hf rest
  obtain ⟨e, he, rfl⟩ := List.mem_map.mp hf
  exact readFrame_writeFrame e.1 (hlen e he) rest

/-- What comes off the cold lane is what went on it. -/
private theorem fromColdLane_sendMsg (Z : Zstd)
    (hzstd : ∀ raw z, Z.compress raw = some z → Z.decompress z raw.length = some raw)
    {raws : List Bytes} (hlen : ∀ raw ∈ raws, raw.length + codecHeader ≤ maxLaneFrame) :
    fromColdLane Z (raws.flatMap fun raw => sendMsg (coldWireEncode Z raw)) =
      raws.map (laneBody 0) := by
  have hwrite : (raws.flatMap fun raw => sendMsg (coldWireEncode Z raw)) =
      (raws.map (coldWireEncode Z)).flatMap sendMsg := by
    rw [List.flatMap_map]
  unfold fromColdLane
  rw [hwrite, readAll_flatMap rfl, List.map_map, untilError_map_some (g := fun raw => raw),
    List.map_id']
  · intro raw hraw
    have hfit := hlen raw hraw
    have hmax := maxLaneFrame_lt
    exact coldWireDecode_encode Z hzstd (by omega)
  · intro wire hwire rest
    obtain ⟨raw, hraw, rfl⟩ := List.mem_map.mp hwire
    exact recvMsg_sendMsg (Nat.le_trans (length_coldWireEncode Z raw) (hlen raw hraw)) rest

/-- What the replica's addon reads is what its agent wrote. -/
private theorem coldBodies_toReplicaAddon {down : List (UInt8 × Bytes)}
    (hlen : ∀ f ∈ down, f.2.length + 1 < UInt32.size) :
    coldBodies (readAll readLinkFrame (toReplicaAddon down)) = coldBodies down := by
  unfold toReplicaAddon
  rw [readAll_flatMap rfl]
  exact fun f hf rest => readLinkFrame_writeFrame f.1 (hlen f hf) rest

/-- The buffers of a cold message. -/
def buffers (J : Json η) (m : η × Bytes) : List Bytes :=
  [[peer], be32 (J.dumps m.1).length, J.dumps m.1, m.2]

private theorem flatten_buffers (J : Json η) (m : η × Bytes) :
    (buffers J m).flatten = peer :: packCold J m.1 m.2 := by
  simp [buffers, packCold]

private theorem coldParts_eq (J : Json η) {m : η × Bytes}
    (hlen : (J.dumps m.1).length < UInt32.size) :
    coldParts J m.1 m.2 = some (buffers J m) := by
  rw [coldParts, packU32, if_pos hlen, Option.map_some]
  rfl

/-- The cold messages that fit in a lane frame, whatever other frames of the local sockets
    they are sent and delivered among, arrive as they were sent: nothing on the way refuses
    one, and each layer is undone by its counterpart. -/
theorem cold_pipeline (J : Json η) (Z : Zstd) (hjson : ∀ h, J.loads (J.dumps h) = some h)
    (hzstd : ∀ raw z, Z.compress raw = some z → Z.decompress z raw.length = some raw)
    (msgs : List (η × Bytes))
    (hfit : ∀ m ∈ msgs, (packCold J m.1 m.2).length + codecHeader ≤ maxLaneFrame) :
    ∃ bodies, msgs.mapM (fun m => coldParts J m.1 m.2) = some bodies ∧
      ∀ up : List (UInt8 × List Bytes), coldBodies up = bodies →
        (∀ f ∈ up, f.1 ≠ tCold → f.2.flatten.length + 1 ≤ maxFrame) →
        ∃ stream, toHostAgent up = some stream ∧
          ∀ down : List (UInt8 × Bytes),
            coldBodies down = fromColdLane Z (toColdLane Z stream) →
            (∀ f ∈ down, f.1 ≠ tCold → f.2.length + 1 < UInt32.size) →
            coldMessages J (toReplicaAddon down) = msgs := by
  have hmax := maxFrame_lt
  have hsame : maxLaneFrame = maxFrame := rfl
  have hhead : ∀ m ∈ msgs, (J.dumps m.1).length < UInt32.size := by
    intro m hm
    have := hfit m hm
    simp only [packCold, List.length_append, codecHeader] at this
    omega
  refine ⟨msgs.map (buffers J), mapM_some fun m hm => coldParts_eq J (hhead m hm), ?_⟩
  intro up hup hothers
  have hlen : ∀ f ∈ up, f.2.flatten.length + 1 ≤ maxFrame := by
    rintro ⟨kind, parts⟩ hf
    by_cases hkind : kind = tCold
    · subst hkind
      have hparts := mem_coldBodies.mpr hf
      rw [hup] at hparts
      obtain ⟨m, hm, rfl⟩ := List.mem_map.mp hparts
      dsimp only
      rw [flatten_buffers, List.length_cons]
      have := hfit m hm
      simp only [codecHeader] at this
      omega
    · exact hothers _ hf hkind
  obtain ⟨stream, hstream, hbodies⟩ := coldBodies_toHostAgent hlen
  refine ⟨stream, hstream, ?_⟩
  -- what the host's agent puts on the lane
  have hlane : toColdLane Z stream = (msgs.map fun m => packCold J m.1 m.2).flatMap fun raw =>
      sendMsg (coldWireEncode Z raw) := by
    rw [toColdLane, hbodies, hup, List.flatMap_map, List.flatMap_map, List.flatMap_map]
    simp only [flatten_buffers, List.drop_succ_cons, List.drop_zero]
  rw [hlane, fromColdLane_sendMsg Z hzstd]
  · intro down hdown hothers'
    have hlen' : ∀ f ∈ down, f.2.length + 1 < UInt32.size := by
      rintro ⟨kind, body⟩ hf
      by_cases hkind : kind = tCold
      · subst hkind
        have hbody := mem_coldBodies.mpr hf
        rw [hdown, List.map_map] at hbody
        obtain ⟨m, hm, rfl⟩ := List.mem_map.mp hbody
        have := hfit m hm
        simp only [codecHeader] at this
        have hlane : (laneBody 0 (packCold J m.1 m.2)).length = (packCold J m.1 m.2).length + 1 :=
          List.length_cons
        dsimp only [Function.comp_apply]
        omega
      · exact hothers' _ hf hkind
    rw [coldMessages, coldBodies_toReplicaAddon hlen', hdown, List.map_map, List.filterMap_map]
    simp only [Function.comp_def, laneBody, List.drop_succ_cons, List.drop_zero]
    exact filterMap_some fun m hm => unpackCold_packCold J hjson m.1 m.2 (hhead m hm)
  · intro raw hraw
    obtain ⟨m, hm, rfl⟩ := List.mem_map.mp hraw
    exact hfit m hm

/-! ## Two messages -/

/-- A header that is its own JSON. -/
def Json.plain : Json Bytes where
  dumps header := header
  loads := some

/-- A compressor that leaves the zeros at the end of its input out. -/
def Zstd.trailing : Zstd where
  compress raw := some (raw.rdropWhile (· = 0))
  decompress z n := some (z ++ List.replicate (n - z.length) 0)

theorem Zstd.trailing_exact (raw : Bytes) : raw.rdropWhile (· = 0) ++
    List.replicate (raw.length - (raw.rdropWhile (· = 0)).length) 0 = raw := by
  induction raw using List.reverseRecOn with
  | nil => rfl
  | append_singleton raw x ih =>
    by_cases hx : x = 0
    · subst hx
      have hle : (raw.rdropWhile (· = 0)).length ≤ raw.length :=
        (List.rdropWhile_prefix _ raw).length_le
      rw [List.rdropWhile_concat_pos _ _ _ (by decide), List.length_append,
        List.length_singleton, Nat.succ_sub hle, List.replicate_succ', ← List.append_assoc, ih]
    · rw [List.rdropWhile_concat_neg _ _ _ (by simpa using hx)]
      simp

/-- An empty message, and one that compresses. -/
def twoMessages : List (Bytes × Bytes) :=
  [([0x7b, 0x7d], []), ([0x7b, 0x7d], List.replicate 5000 0)]

theorem cold_pipeline_two : ∃ bodies stream,
    twoMessages.mapM (fun m => coldParts Json.plain m.1 m.2) = some bodies ∧
      toHostAgent (bodies.map fun parts => (tCold, parts)) = some stream ∧
        coldMessages Json.plain (toReplicaAddon ((fromColdLane Zstd.trailing
          (toColdLane Zstd.trailing stream)).map fun body => (tCold, body))) = twoMessages := by
  -- only cold messages are on the way
  have hcold : ∀ {α : Type} (l : List α), coldBodies (l.map fun a => (tCold, a)) = l := by
    intro α l
    simp [coldBodies, List.filter_map, Function.comp_def]
  have hkind : ∀ {α : Type} (l : List α), ∀ f ∈ l.map fun a => (tCold, a), ¬ f.1 ≠ tCold := by
    intro α l f hf
    obtain ⟨a, -, rfl⟩ := List.mem_map.mp hf
    exact not_not_intro rfl
  -- the frames of the two messages fit
  obtain ⟨bodies, hbodies, hup⟩ := cold_pipeline Json.plain Zstd.trailing (fun _ => rfl)
    (fun raw z hz => by
      obtain rfl := Option.some.inj hz
      exact congrArg some (Zstd.trailing_exact raw))
    twoMessages (by
      intro m hm
      have hbody : m.1.length = 2 ∧ m.2.length ≤ 5000 := by
        rcases List.mem_pair.mp hm with rfl | rfl
        · exact ⟨rfl, Nat.zero_le _⟩
        · exact ⟨rfl, Nat.le_of_eq List.length_replicate⟩
      simp only [packCold, Json.plain, List.length_append, length_be32, codecHeader, maxLaneFrame]
      omega)
  -- they are taken up, and down again
  obtain ⟨stream, hstream, hdown⟩ := hup _ (hcold bodies)
    fun f hf hne => absurd hne (hkind bodies f hf)
  exact ⟨bodies, stream, hbodies, hstream,
    hdown _ (hcold _) fun f hf hne => absurd hne (hkind _ f hf)⟩

end QCBridge.Wire
