import ShapeCodec.Decimal
import ShapeCodec.Schema.Error
import ShapeCodec.Value
/-! Routines: the generated code for one shape in one direction. Routines are plain data that refer
to each other by their position in one table. -/
namespace ShapeCodec

/-- The position of a routine in its table. -/
structure RoutineId where
  index : Nat
  deriving DecidableEq

def RoutineId.text (id : RoutineId) : String :=
  "r" ++ Decimal.text id.index

/-- Where a write instruction finds its value. Composite children have routines of their own, so it
is never more than one step away. -/
inductive ValueSource where
  /-- The routine's argument. -/
  | arg
  /-- A field of the argument. -/
  | field (slot : Nat)
  /-- The current element of the enclosing loop. -/
  | element
  deriving DecidableEq

def ValueSource.text : ValueSource → String
  | arg => "value"
  | field slot => "value." ++ Decimal.text slot
  | element => "item"

/-- Write instructions, in order of execution. -/
inductive WriteStep where
  | literal (text : String)
  /-- Writes `null` and leaves the routine when the value is null. -/
  | nullGuard (source : ValueSource)
  | int (source : ValueSource)
  | str (source : ValueSource)
  | call (id : RoutineId) (source : ValueSource)
  /-- Runs the body for each item. The separator follows every item but the last, which the
  terminator follows. -/
  | each (list : ValueSource) (body : List WriteStep) (separator terminator : String)
  deriving Inhabited

/-- Reads one value: in place, or through another routine. -/
inductive Operand where
  | int
  | str
  | call (id : RoutineId)
  deriving DecidableEq

structure FieldPlan where
  name : String
  slot : Nat
  operand : Operand
  deriving DecidableEq

inductive ReadPlan where
  | scalar (operand : Operand)
  /-- Each slot starts from its default; the first field of a name wins. -/
  | object (type : String) (nullable : Bool) (fields : List FieldPlan) (defaults : List Value)
  | list (nullable : Bool) (element : Operand)
  deriving DecidableEq

inductive StubCause where
  /-- The shape has no routine. -/
  | unbuildable (error : ShapeError)
  /-- Declared, but never asked for. -/
  | unused
  /-- Reserved, and still being built. -/
  | pending
  deriving DecidableEq

inductive RoutineCode where
  | write (code : List WriteStep)
  | read (plan : ReadPlan)
  /-- Writes nothing, and reads any value as null. -/
  | stub (cause : StubCause)

structure Routine where
  id : RoutineId
  shape : Shape
  direction : Direction
  /-- The number of declared properties, if the shape is a declared object. -/
  fieldCount : Option Nat
  body : RoutineCode

def Routine.isStub (r : Routine) : Bool :=
  match r.body with
  | .stub _ => true
  | _ => false

/-- The machine that runs the routines of a table, in which calls are positions. -/
structure Machine where
  routines : List Routine

def Machine.routine? (m : Machine) (id : RoutineId) : Option Routine :=
  m.routines[id.index]?

end ShapeCodec
