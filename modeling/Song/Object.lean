import Song.Wire
import Song.Lib.Map

/-!
# Objects and their registry (`object.hpp`, `object.cpp`)

An object is what the registry keeps of it (identity, reference count, whether
a subscription registry is set) and the data of its implementation.
-/

namespace Song

structure Obj (ω : Type) where
  objectId : Int32
  typeId : UInt32
  refCount : Int32
  /-- `sub_registry_` is set. -/
  subRegistry : Bool
  data : ω

structure ObjectRegistry (ω : Type) where
  objects : Map Int32 (Obj ω)
  nextId : Int32

namespace ObjectRegistry

variable {ω : Type}

def empty : ObjectRegistry ω := ⟨∅, -1⟩

/-- The end of `create_object`: number the new object and register it. -/
def add (r : ObjectRegistry ω) (typeId : UInt32) (data : ω) : Int32 × ObjectRegistry ω :=
  let id := r.nextId
  (id, { objects := r.objects.insert id ⟨id, typeId, 1, false, data⟩, nextId := r.nextId - 1 })

def get (r : ObjectRegistry ω) (id : Int32) : Option (Obj ω) := r.objects.lookup id

/-- Store an object back after one of its methods ran. -/
def put (r : ObjectRegistry ω) (id : Int32) (obj : Obj ω) : ObjectRegistry ω :=
  { r with objects := r.objects.insert id obj }

/-- The answer says whether the object was found. -/
def addRef (r : ObjectRegistry ω) (id : Int32) : Bool × ObjectRegistry ω :=
  match r.get id with
  | none => (false, r)
  | some obj => (true, r.put id { obj with refCount := obj.refCount + 1 })

def release (r : ObjectRegistry ω) (id : Int32) : ObjectRegistry ω :=
  match r.get id with
  | none => r
  | some obj =>
    if obj.refCount = 1 then { r with objects := r.objects.erase id }
    else r.put id { obj with refCount := obj.refCount - 1 }

end ObjectRegistry

/-- A set of object ids (`std::unordered_set<i32>`): a list without duplicates. -/
structure IdSet where
  ids : List Int32
  nodup : ids.Nodup

namespace IdSet

def empty : IdSet := ⟨[], List.nodup_nil⟩

def insert (s : IdSet) (id : Int32) : IdSet := ⟨s.ids.insert id, s.nodup.insert⟩

def erase (s : IdSet) (id : Int32) : IdSet := ⟨s.ids.erase id, s.nodup.erase id⟩

end IdSet

end Song
