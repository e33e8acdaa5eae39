import QCBridge.Ring1.Protocol

/-!
# Who carries which uuid

`ring1/registry.py` and `ring0/identity.py`: the host stamps a uuid on each datablock as a
custom property, and the registry remembers which datablock carries it. Blender's `session_uid`
tells two datablocks apart, when one is a copy of the other and its stamp was copied too.
-/

namespace QCBridge

/-- `session_uid`: Blender's number for a datablock, for the life of the process. -/
abbrev SessionUid := Nat

/-- `IdentityRegistry`. -/
structure IdentityRegistry where
  uuidToSuid : Dict Uuid SessionUid := Dict.empty
  suidToUuid : Dict SessionUid Uuid := Dict.empty
deriving DecidableEq

/-- What `claim` returns. -/
inductive Claim where
  | ok
  | collision
deriving DecidableEq, Repr

namespace IdentityRegistry

/-- `_register`: a datablock that had another uuid loses it. -/
def register (r : IdentityRegistry) (uuid : Uuid) (sessionUid : SessionUid) : IdentityRegistry where
  uuidToSuid :=
    match r.suidToUuid.get? sessionUid with
    | some oldUuid =>
      if oldUuid ≠ uuid then (r.uuidToSuid.erase oldUuid).insert uuid sessionUid
      else r.uuidToSuid.insert uuid sessionUid
    | none => r.uuidToSuid.insert uuid sessionUid
  suidToUuid := r.suidToUuid.insert sessionUid uuid

/-- `claim`. -/
def claim (r : IdentityRegistry) (uuid : Uuid) (sessionUid : SessionUid) :
    IdentityRegistry × Claim :=
  match r.uuidToSuid.get? uuid with
  | none => (r.register uuid sessionUid, .ok)
  | some holder => if holder = sessionUid then (r, .ok) else (r, .collision)

/-- `forget_uuid`. -/
def forgetUuid (r : IdentityRegistry) (uuid : Uuid) : IdentityRegistry where
  uuidToSuid := r.uuidToSuid.erase uuid
  suidToUuid :=
    match r.uuidToSuid.get? uuid with
    | some suid => r.suidToUuid.erase suid
    | none => r.suidToUuid

/-- `uuid_for`. -/
def uuidFor (r : IdentityRegistry) (sessionUid : SessionUid) : Option Uuid :=
  r.suidToUuid.get? sessionUid

/-- `session_uid_for`. -/
def sessionUidFor (r : IdentityRegistry) (uuid : Uuid) : Option SessionUid :=
  r.uuidToSuid.get? uuid

end IdentityRegistry

/-- What `ensure_uuid` reads of a datablock. The stamp is empty when there is none. -/
structure StampedDatablock where
  sessionUid : SessionUid
  stamp : Uuid
deriving DecidableEq

/-- What `ensure_uuid` leaves behind, and the uuid it returns. -/
structure Ensured where
  registry : IdentityRegistry
  datablock : StampedDatablock
  uuid : Uuid
deriving DecidableEq

/-- The end of `ensure_uuid`: a first contact, or a copy with the stamp of another datablock. -/
def stampFresh (r : IdentityRegistry) (d : StampedDatablock) (fresh : Uuid) : Ensured where
  registry := (r.claim fresh d.sessionUid).1
  datablock := { d with stamp := fresh }
  uuid := fresh

/-- `ensure_uuid`, where `uuid4().hex` would be `fresh`. -/
def ensureUuid (r : IdentityRegistry) (d : StampedDatablock) (fresh : Uuid) : Ensured :=
  if d.stamp ≠ "" then
    let (registry, answer) := r.claim d.stamp d.sessionUid
    if answer = .ok then ⟨registry, d, d.stamp⟩ else stampFresh registry d fresh
  else
    match r.uuidFor d.sessionUid with
    | some existing =>
      -- undo took the stamp and left the datablock
      if existing ≠ "" then ⟨r, { d with stamp := existing }, existing⟩ else stampFresh r d fresh
    | none => stampFresh r d fresh

end QCBridge
