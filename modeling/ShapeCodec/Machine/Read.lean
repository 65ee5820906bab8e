import ShapeCodec.Codec.Error
import ShapeCodec.Routine
/-! Running read routines. All of them move one cursor, which is kept also when reading fails. -/
namespace ShapeCodec

abbrev Reading := EStateM CodecError Cursor

instance : MonadLift Scan Reading where
  monadLift step := fun c =>
    match step c with
    | .ok a c => .ok a c
    | .error e c => .error (.parse e) c

namespace Machine

section Plan

variable (call : RoutineId → Reading Value)

/-- Reads one value where null stands for zero or a missing string, or calls a routine. -/
def readOperand (operand : Operand) : Reading Value := do
  Scan.skipWhitespace
  match operand with
  | .int => if ← Scan.tryNull then pure (.int 0) else .int <$> Scan.readInt
  | .str => if ← Scan.tryNull then pure .null else .str <$> Scan.readString
  | .call id => call id

/-- One member of an object; unknown members are skipped. -/
def readMember (fields : List FieldPlan) (slots : List Value) : Reading (List Value) := do
  let name ← Scan.readString
  Scan.skipWhitespace
  Scan.expect ':'
  match fields.find? fun f => f.name = name with
  | some f => slots.set f.slot <$> readOperand call f.operand
  | none =>
    Scan.skipValue
    pure slots

/-- The members up to the closing brace, with optional commas between them. Each member takes up
input, so `bound` need not exceed its length: at zero the input is exhausted. -/
def readMembers (fields : List FieldPlan) : Nat → List Value → Reading (List Value)
  | 0, _ => Scan.fail (.contentOr '\x7d')
  | bound + 1, slots => do
    Scan.skipWhitespace
    if (← get).isExhausted then Scan.fail (.contentOr '\x7d')
    else if ← Scan.tryChar '\x7d' then pure slots
    else
      let slots ← readMember call fields slots
      Scan.skipWhitespace
      discard (Scan.tryChar ',')
      readMembers fields bound slots

/-- The items up to the closing bracket, with optional commas between them; `bound` is as for
members. -/
def readItems (element : Operand) : Nat → Reading (List Value)
  | 0 => Scan.fail (.contentOr ']')
  | bound + 1 => do
    Scan.skipWhitespace
    if (← get).isExhausted then Scan.fail (.contentOr ']')
    else if ← Scan.tryChar ']' then pure []
    else
      let item ← readOperand call element
      Scan.skipWhitespace
      discard (Scan.tryChar ',')
      (item :: ·) <$> readItems element bound

def runPlan (plan : ReadPlan) : Reading Value := do
  Scan.skipWhitespace
  match plan with
  | .scalar operand => readOperand call operand
  | .object type nullable fields defaults =>
    if ← Scan.tryNull then pure (if nullable then .null else .record type defaults)
    else
      Scan.expect '\x7b'
      let start ← get
      .record type <$> readMembers call fields start.rest.length defaults
  | .list nullable element =>
    if ← Scan.tryNull then pure (if nullable then .null else .list [])
    else
      Scan.expect '['
      let start ← get
      .list <$> readItems call element start.rest.length

end Plan

/-- Skips a value and answers null. -/
def readInert : Reading Value := do
  Scan.skipValue
  pure .null

/-- Runs a routine with `levels` nested calls to go, itself included. A stub skips its value. -/
def readWithin (m : Machine) : Nat → RoutineId → Reading Value
  | levels, id =>
    match m.routine? id with
    | none => readInert
    | some r =>
      match r.body with
      | .stub _ => readInert
      | .write _ => throw (.noEntry r.shape .deserialize)
      | .read plan =>
        match levels with
        | 0 => do
          Scan.skipWhitespace
          Scan.fail .depthLimit
        | levels + 1 => runPlan (m.readWithin levels) plan

/-- Reads one value at the cursor. -/
def read (m : Machine) (id : RoutineId) : Reading Value :=
  m.readWithin maxDepth id

end Machine

end ShapeCodec
