import QCBridge.Ring1.Protocol

/-!
# Applying a tier-2 blob

`ring0/tier2_io.py`, `apply_blob` from the moment `libraries.load` has appended
the blob's datablocks: pair each arrival with the datablock it replaces, remap
every use of that one, remove it, and give the arrival its name.

A datablock is told apart by `ptr`, which no other datablock ever has. A missing
stamp and an empty one are the same to the code, and both are `""` here.
-/

namespace QCBridge

namespace Tier2

/-- A datablock of `bpy.data`. `uses` are the datablocks it refers to. -/
structure Datablock where
  ptr : Nat
  coll : String
  name : String
  stamp : Uuid := ""
  uses : List Nat := []
deriving DecidableEq, Repr

/-- The collections of `_COLLECTIONS`, in its order. -/
def collections : List String :=
  ["objects", "meshes", "curves", "lights", "cameras", "materials", "worlds", "images",
    "node_groups", "collections", "actions", "lattices", "armatures", "metaballs", "volumes",
    "hair_curves", "pointclouds", "lightprobes", "grease_pencils", "textures", "particles",
    "cache_files"]

/-- `bpy.data`. -/
structure Main where
  data : List Datablock
  nodup : (data.map Datablock.ptr).Nodup

namespace Main

/-- `getattr(bpy.data, coll)`. -/
def collection (m : Main) (coll : String) : List Datablock := m.data.filter (·.coll = coll)

/-- The collections of `_COLLECTIONS` one after the other. -/
def scan (m : Main) : List Datablock := collections.flatMap m.collection

/-- The datablock a reference leads to, `none` once it was removed. -/
def live (m : Main) (ptr : Nat) : Option Datablock := m.data.find? (·.ptr = ptr)

end Main

/-- What `libraries.load` appended: the arrivals, with the names they had in the
    blob. -/
structure Loaded (m : Main) where
  arrivals : List (Datablock × String)
  mem : ∀ a ∈ arrivals, a.1 ∈ m.data
  listed : ∀ a ∈ arrivals, a.1.coll ∈ collections
  nodup : (arrivals.map fun a => a.1.ptr).Nodup

/-- `{db.as_pointer() for db, _ in loaded}`. -/
def Loaded.ptrs {m : Main} (loaded : Loaded m) : List Nat := loaded.arrivals.map fun a => a.1.ptr

/-- An entry of `pairs`. -/
structure Pair where
  new : Datablock
  old : Option Datablock
  intended : String
deriving DecidableEq, Repr

section Pairing

variable (m : Main) (uuidMap : Option (Dict Uuid Nat))

/-- The entry of `uuid_map`, unless it is dead or stamped otherwise by now. -/
def mapped (uuid : Uuid) : Option Datablock :=
  match uuidMap with
  | none => none
  | some map => ((map.get? uuid).bind m.live).filter (·.stamp = uuid)

/-- `_find_by_uuid`. -/
def findByUuid (uuid : Uuid) (exclude : Datablock) : Option Datablock :=
  m.scan.find? fun db => db.ptr ≠ exclude.ptr ∧ db.stamp = uuid

/-- The predecessor that the arrival's stamp leads to. -/
def predecessor (new : Datablock) : Option Datablock :=
  if new.stamp = "" then none
  else ((mapped m uuidMap new.stamp).filter (·.ptr ≠ new.ptr)).or (findByUuid m new.stamp new)

/-- The first datablock of the arrival's collection that has its name and did not
    come with the blob. -/
def sameNamed (arrivals : List Nat) (new : Datablock) (intended : String) : Option Datablock :=
  (m.collection new.coll).find? fun c => c.name = intended ∧ c.ptr ∉ arrivals

/-- Pass 1: by stamp first, by name where the stamp leads nowhere. -/
def pairs (loaded : Loaded m) : List Pair :=
  loaded.arrivals.map fun a =>
    ⟨a.1, (predecessor m uuidMap a.1).or (sameNamed m loaded.ptrs a.1 a.2), a.2⟩

end Pairing

/-- What Blender makes of the three operations: may the remap raise, may the
    removal, and which name does an arrival end up with. -/
structure Env where
  remaps : Nat → Nat → Bool
  removes : List Nat → Bool
  rename : Nat → String → Option String

/-- The state passes 2 and 3 work on. -/
structure Applied where
  data : List Datablock
  uuidMap : Option (Dict Uuid Nat)
  errors : Nat := 0

variable (env : Env)

/-- `old_db.user_remap(new_db)`. -/
def userRemap (data : List Datablock) (old new : Nat) : List Datablock :=
  data.map fun db => { db with uses := db.uses.map fun p => if p = old then new else p }

/-- Pass 2. -/
def remapPair (a : Applied) (p : Pair) : Applied :=
  match p.old with
  | none => a
  | some old =>
    if env.remaps old.ptr p.new.ptr then { a with data := userRemap a.data old.ptr p.new.ptr }
    -- an old datablock that could not be remapped is removed all the same
    else { a with errors := a.errors + 1 }

/-- The datablocks that pass 3 removes. -/
def stale (ps : List Pair) : List Nat := (ps.filterMap Pair.old).map Datablock.ptr

/-- `bpy.data.batch_remove(stale)`. -/
def removeStale (a : Applied) (ps : List Pair) : Applied :=
  if stale ps = [] then a
  else if env.removes (stale ps) then { a with data := a.data.filter (·.ptr ∉ stale ps) }
  else { a with errors := a.errors + 1 }

/-- The end of pass 3 for one pair: the arrival takes its name and its place in
    the map. `none` is the ReferenceError of an arrival that is gone. -/
def restoreName (a : Applied) (p : Pair) : Option Applied :=
  match a.data.find? (·.ptr = p.new.ptr) with
  | none => none
  | some db =>
    let a :=
      -- the name is the one that the arrival would have had
      if db.name = p.intended then a
      else match env.rename db.ptr p.intended with
        | some name => { a with
            data := a.data.map fun d => if d.ptr = db.ptr then { d with name := name } else d }
        | none => { a with errors := a.errors + 1 }
    some { a with
      -- an arrival without a stamp is not in the map
      uuidMap := if p.new.stamp = "" then a.uuidMap
        else a.uuidMap.map (·.insert p.new.stamp p.new.ptr) }

/-- Passes 1 to 3 of `apply_blob`. -/
def applyBlob (m : Main) (loaded : Loaded m) (uuidMap : Option (Dict Uuid Nat)) :
    Option Applied :=
  let ps := pairs m uuidMap loaded
  let remapped := ps.foldl (remapPair env) ⟨m.data, uuidMap, 0⟩
  ps.foldlM (restoreName env) (removeStale env remapped ps)

end Tier2

end QCBridge
