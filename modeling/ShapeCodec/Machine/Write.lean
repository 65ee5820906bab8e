import ShapeCodec.Codec.Error
import ShapeCodec.Routine
/-! Running write routines. The text written so far is the state, and is kept also when writing
fails. -/
namespace ShapeCodec

namespace Wire

def int (n : Int64) : String :=
  Decimal.text n.toInt

/-- A string stands verbatim between quotes. It is not escaped, so a quote inside it ends it early
for every reader. -/
def str : Option String → String
  | none => "null"
  | some text => "\"" ++ text ++ "\""

end Wire

abbrev Writing := EStateM CodecError String

instance : MonadLift (Except CodecError) Writing where
  monadLift result := fun text =>
    match result with
    | .ok a => .ok a text
    | .error e => .error e text

/-- Whether a block goes on, or a null guard has left the routine. -/
inductive Flow where
  | next
  | leave
  deriving DecidableEq

/-- The value at a source, given the argument and the element of the enclosing loop. -/
def ValueSource.find (argument : Value) (item : Option Value) :
    ValueSource → Except CodecError Value
  | arg => .ok argument
  | element =>
    match item with
    | some value => .ok value
    | none => .error (.unexpected .element argument)
  | field slot =>
    match argument with
    | .record type fields =>
      match fields[slot]? with
      | some value => .ok value
      | none => .error (.mismatch (.field slot type) .endOfRecord)
    | other => .error (.unexpected .object other)

/-- Whether a routine accepts its argument. Nested values are checked when they are reached. -/
def Routine.accept (r : Routine) (value : Value) : Except CodecError Unit :=
  match r.shape, value with
  | shape, .null =>
    if shape.isNullable then .ok () else .error (.unexpected (.shape shape) .null)
  | .object name nullable, .record type fields =>
    if type ≠ name then .error (.mismatch (.shape (.object name nullable)) .otherType)
    else match r.fieldCount with
      | some count =>
        if fields.length = count then .ok ()
        else .error (.mismatch (.fieldCount count name) .otherFieldCount)
      | none => .ok ()
  | .object name nullable, other => .error (.unexpected (.shape (.object name nullable)) other)
  | .list _ _, .list _ => .ok ()
  | .list element nullable, other => .error (.unexpected (.shape (.list element nullable)) other)
  | _, _ => .ok ()

namespace Machine

def put (text : String) : Writing Unit :=
  modify (· ++ text)

/-- Runs the body of a loop for each item. -/
def writeItems (body : Value → Writing Flow) (separator terminator : String) :
    List Value → Writing Flow
  | [] => pure .next
  | item :: rest => do
    match ← body item with
    | .leave => pure .leave
    | .next =>
      put (if rest.isEmpty then terminator else separator)
      writeItems body separator terminator rest

section Block

variable (call : RoutineId → Value → Writing Unit) (argument : Value)

mutual

def writeBlock : List WriteStep → Option Value → Writing Flow
  | [], _ => pure .next
  | instr :: rest, item => do
    match ← writeStep instr item with
    | .leave => pure .leave
    | .next => writeBlock rest item

def writeStep : WriteStep → Option Value → Writing Flow
  | .literal text, _ => do
    put text
    pure .next
  | .nullGuard source, item => do
    if (← source.find argument item).isNull then
      put (Wire.str none)
      pure .leave
    else pure .next
  | .int source, item => do
    match ← source.find argument item with
    | .int n =>
      put (Wire.int n)
      pure .next
    | other => throw (.unexpected .int other)
  | .str source, item => do
    match ← source.find argument item with
    | .str text =>
      put (Wire.str (some text))
      pure .next
    | .null =>
      put (Wire.str none)
      pure .next
    | other => throw (.unexpected .string other)
  | .call id source, item => do
    call id (← source.find argument item)
    pure .next
  | .each list body separator terminator, item => do
    match ← list.find argument item with
    | .list items =>
      writeItems (fun element => writeBlock body (some element)) separator terminator items
    | other => throw (.unexpected .list other)

end

end Block

/-- Runs a routine with `levels` nested calls to go, itself included. A stub writes nothing. -/
def writeWithin (m : Machine) : Nat → RoutineId → Value → Writing Unit
  | levels, id, value =>
    match m.routine? id with
    | none => pure ()
    | some r =>
      match r.body with
      | .stub _ => pure ()
      | .read _ => throw (.noEntry r.shape .serialize)
      | .write code =>
        match levels with
        | 0 => throw (.depthLimit maxDepth)
        | levels + 1 => do
          r.accept value
          discard (writeBlock (m.writeWithin levels) value code none)

/-- Appends the text of a value. -/
def write (m : Machine) (id : RoutineId) (value : Value) : Writing Unit :=
  m.writeWithin maxDepth id value

end Machine

end ShapeCodec
