import ShapeCodec.Routine.Cache
import ShapeCodec.Routine.Layout
import ShapeCodec.Routine.Literals
/-! The emitter: a growing table with at most one routine for each shape and direction, found through
a cache. A routine's position is taken before its body is built, so a shape that meets itself again
calls its own routine instead of being expanded without end. -/
namespace ShapeCodec

inductive Severity where
  /-- A call site has no entry. -/
  | error
  /-- A routine became a stub. -/
  | warning
  deriving DecidableEq

def Severity.text : Severity → String
  | error => "error"
  | warning => "warning"

/-- What was being generated. -/
inductive Subject where
  | callSite (direction : Direction) (shape : Shape)
  | routine (direction : Direction) (shape : Shape)
  | other (text : String)
  deriving DecidableEq

def Subject.text : Subject → String
  | callSite direction shape => direction.text ++ " call site for `" ++ shape.text ++ "`"
  | routine direction shape => direction.text ++ " routine for `" ++ shape.text ++ "`"
  | other text => text

structure Diagnostic where
  severity : Severity
  subject : Subject
  error : ShapeError
  deriving DecidableEq

/-- The text behind the severity. -/
def Diagnostic.detail (d : Diagnostic) : String :=
  d.subject.text ++ ": " ++ d.error.message

def Diagnostic.message (d : Diagnostic) : String :=
  d.severity.text ++ ": " ++ d.detail

structure Emitter where
  schema : Schema
  cache : RoutineCache
  routines : List Routine
  diagnostics : List Diagnostic

namespace Emitter

def ofSchema (s : Schema) : Emitter :=
  ⟨s, .empty, [], []⟩

/-- The routine emitted or reserved for a shape and direction. -/
def find? (e : Emitter) (shape : Shape) (direction : Direction) : Option RoutineId :=
  e.cache.get? shape direction

/-- Whether some routine is for the object `name`, nullable or not. -/
def hasObject (e : Emitter) (name : String) : Bool :=
  e.cache.coversObject name

/-- The distinct shapes that have routines. -/
def shapes (e : Emitter) : List Shape :=
  e.cache.entries.shapes

def report (e : Emitter) (d : Diagnostic) : Emitter :=
  { e with diagnostics := e.diagnostics ++ [d] }

def fieldCount? (s : Schema) : Shape → Option Nat
  | .object name _ => (s.type? name).map (·.properties.length)
  | _ => none

/-- The position that the next routine takes. -/
def nextId (e : Emitter) : RoutineId :=
  ⟨e.routines.length⟩

/-- Adds a stub at the next position. -/
def reserve (e : Emitter) (shape : Shape) (direction : Direction) (cause : StubCause) : Emitter :=
  { e with
    cache := e.cache.insert shape direction e.nextId
    routines := e.routines ++
      [⟨e.nextId, shape, direction, fieldCount? e.schema shape, .stub cause⟩] }

/-- Gives the routine at a position its body. -/
def define (e : Emitter) (id : RoutineId) (body : RoutineCode) : Emitter :=
  { e with routines := e.routines.modify id.index fun r => { r with body := body } }

/-- Gives the routine at a position its body, or makes it a stub with a warning. -/
def settle (e : Emitter) (id : RoutineId) (shape : Shape) (direction : Direction) :
    Except ShapeError RoutineCode → Emitter
  | .ok body => e.define id body
  | .error error =>
    (e.report ⟨.warning, .routine direction shape, error⟩).define id (.stub (.unbuildable error))

def bodyOf (s : Schema) (layout : Layout) : Direction → Except ShapeError RoutineCode
  | .serialize => .ok (.write (WriteStep.mergeLiterals (layout.writeTree .arg).flatten))
  | .deserialize => (layout.readPlan s).map .read

/-- Emits the routine for a shape together with those it calls. Each level of nesting reserves one
more shape of the closure, so as many levels as the closure has shapes suffice. -/
def emitWithin : Nat → Shape → Direction → StateM Emitter RoutineId
  | levels, shape, direction => fun e =>
    match e.find? shape direction with
    | some id => (id, e)
    | none =>
      let id := e.nextId
      let reserved := e.reserve shape direction .pending
      match levels with
      | 0 => (id, reserved)
      | levels + 1 =>
        match Layout.build e.schema (fun child => emitWithin levels child direction) shape
          reserved with
        | .ok layout e => (id, e.settle id shape direction (bodyOf e.schema layout direction))
        | .error error e => (id, e.settle id shape direction (.error error))

/-- The routine for a shape, which is built on the first request. A shape that cannot be built gets
a stub and a warning. -/
def emit (shape : Shape) (direction : Direction) : StateM Emitter RoutineId :=
  fun e => emitWithin (e.schema.closure shape).length shape direction e

/-- The routine for a shape, which is an inert one if the shape has none yet. -/
def stub (shape : Shape) (direction : Direction) (cause : StubCause) :
    StateM Emitter RoutineId :=
  fun e =>
    match e.find? shape direction with
    | some id => (id, e)
    | none => (e.nextId, e.reserve shape direction cause)

/-- The layout of a shape whose children get their routines from this emitter. -/
def layout (shape : Shape) (direction : Direction) : EStateM ShapeError Emitter Layout :=
  fun e => Layout.build e.schema (fun child => emit child direction) shape e

end Emitter

end ShapeCodec
