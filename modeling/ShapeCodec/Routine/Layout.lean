import ShapeCodec.Routine.Tree
import ShapeCodec.Schema.Default
/-! Layouts: one level of a shape, in which every composite child is a reference to a routine. Both
directions start from the layout. References come from a `resolve` function that may add routines to
its state as it hands them out, so one routine serves each distinct shape. -/
namespace ShapeCodec

inductive Layout where
  | scalar (operand : Operand)
  | object (type : String) (nullable : Bool) (members : List (String × Operand))
  | list (nullable : Bool) (element : Operand)
  deriving DecidableEq

namespace Layout

section Build

variable {σ : Type} (s : Schema) (resolve : Shape → StateM σ RoutineId)

/-- A child is handled in place or called; what has no routine is an error. -/
def operand : Shape → EStateM ShapeError σ Operand
  | .int => pure .int
  | .string => pure .str
  | .unsupported text => throw (.unsupported text)
  | shape =>
    match s.checkReferences shape with
    | .error e => throw e
    | .ok () => fun state =>
      let (id, state) := resolve shape state
      .ok (.call id) state

/-- The children of an object in declaration order, up to the first that has no routine. -/
def members : List Property → EStateM ShapeError σ (List (String × Operand))
  | [] => pure []
  | p :: rest => do
    let child ← operand s resolve p.effectiveShape
    let children ← members rest
    pure ((p.name, child) :: children)

def build : Shape → EStateM ShapeError σ Layout
  | .object name nullable =>
    match s.type? name with
    | none => throw (.undeclared name)
    | some decl => object name nullable <$> members s resolve decl.properties
  | .list element nullable => list nullable <$> operand s resolve element
  | shape => scalar <$> operand s resolve shape

end Build

def childTree (source : ValueSource) : Operand → WriteTree
  | .int => .int source
  | .str => .str source
  | .call id => .call id source

/-- How to write a value that is found at `source`. -/
def writeTree (source : ValueSource) : Layout → WriteTree
  | scalar operand => childTree source operand
  | object _ nullable members =>
    .object source nullable
      (members.mapIdx fun slot member => (member.1, childTree (.field slot) member.2))
  | list nullable element => .list source nullable (childTree .element element)

/-- How to read a value. An object starts from the defaults of its properties, so it can be read
only if these exist. -/
def readPlan (s : Schema) : Layout → Except ShapeError ReadPlan
  | scalar operand => .ok (.scalar operand)
  | list nullable element => .ok (.list nullable element)
  | object type nullable members => do
    let fields := members.mapIdx fun slot member => ⟨member.1, slot, member.2⟩
    match ← s.defaultValue (.object type false) with
    | .record _ defaults => .ok (.object type nullable fields defaults)
    | _ => .error (.undeclared type)

end Layout

end ShapeCodec
