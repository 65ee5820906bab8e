import ShapeCodec.Routine
import ShapeCodec.Shape.Map
/-! The cache of an emitter: which routines the shapes have. -/
namespace ShapeCodec

/-- The routines of one shape. -/
structure CacheEntry where
  write : Option RoutineId
  read : Option RoutineId
  deriving DecidableEq

namespace CacheEntry

def get (e : CacheEntry) : Direction → Option RoutineId
  | .serialize => e.write
  | .deserialize => e.read

def set (e : CacheEntry) (id : RoutineId) : Direction → CacheEntry
  | .serialize => { e with write := some id }
  | .deserialize => { e with read := some id }

theorem get_set (e : CacheEntry) (id : RoutineId) (direction other : Direction) :
    (e.set id direction).get other = if direction = other then some id else e.get other := by
  cases direction <;> cases other <;> rfl

end CacheEntry

structure RoutineCache where
  entries : ShapeMap CacheEntry

namespace RoutineCache

def empty : RoutineCache :=
  ⟨[]⟩

def get? (cache : RoutineCache) (shape : Shape) (direction : Direction) : Option RoutineId :=
  (cache.entries.get? shape).bind (·.get direction)

def insert (cache : RoutineCache) (shape : Shape) (direction : Direction) (id : RoutineId) :
    RoutineCache :=
  ⟨cache.entries.update shape ⟨none, none⟩ (·.set id direction)⟩

/-- Whether the object `name`, nullable or not, has a routine. -/
def coversObject (cache : RoutineCache) (name : String) : Bool :=
  cache.entries.any fun entry =>
    match entry.1 with
    | .object other _ => other = name
    | _ => false

theorem get?_insert (cache : RoutineCache) (shape other : Shape) (direction turn : Direction)
    (id : RoutineId) : (cache.insert shape direction id).get? other turn =
      if shape = other ∧ direction = turn then some id else cache.get? other turn := by
  simp only [get?, insert, ShapeMap.get?_update]
  by_cases hshape : shape = other
  · subst hshape
    simp only [if_true, Option.bind_some, CacheEntry.get_set, true_and]
    by_cases hturn : direction = turn
    · simp [hturn]
    · cases cache.entries.get? shape with
      | none => cases turn <;> simp [hturn, CacheEntry.get]
      | some entry => simp [hturn]
  · simp [hshape]

end RoutineCache

end ShapeCodec
