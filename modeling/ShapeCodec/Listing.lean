import ShapeCodec.Codec
import ShapeCodec.Text.Quoted
/-! The listing of a codec: its entry points, then every routine with its code. -/
namespace ShapeCodec

namespace Listing

/-- One line, indented by two blanks a level. -/
def line (level : Nat) (text : String) : String :=
  String.ofList (List.replicate (2 * level) ' ') ++ text ++ "\n"

def idOrDash : Option RoutineId → String
  | some id => id.text
  | none => "-"

def operand : Operand → String
  | .int => "int"
  | .str => "str"
  | .call id => "call " ++ id.text

def nullableMark (nullable : Bool) : String :=
  if nullable then " (nullable)" else ""

mutual

def code (level : Nat) : List WriteStep → String
  | [] => ""
  | instr :: rest => instruction level instr ++ code level rest

def instruction (level : Nat) : WriteStep → String
  | .literal text => line level ("literal " ++ Text.quote text)
  | .nullGuard source => line level ("null-guard " ++ source.text)
  | .int source => line level ("int " ++ source.text)
  | .str source => line level ("str " ++ source.text)
  | .call id source => line level ("call " ++ id.text ++ " " ++ source.text)
  | .each list body separator terminator =>
    line level ("each " ++ list.text ++ " sep " ++ Text.quote separator ++ " end " ++
        Text.quote terminator) ++
      code (level + 1) body

end

def field (f : FieldPlan) : String :=
  line 3 (Text.quote f.name ++ " -> slot " ++ Decimal.text f.slot ++ ": " ++ operand f.operand)

def plan : ReadPlan → String
  | .scalar op => line 2 (operand op)
  | .list nullable element =>
    line 2 ("list" ++ nullableMark nullable ++ " of " ++ operand element)
  | .object type nullable fields _ =>
    line 2 ("object " ++ type ++ nullableMark nullable) ++ String.join (fields.map field)

def cause : StubCause → String
  | .unbuildable error => error.message
  | .unused => "unused"
  | .pending => "pending"

def routine (r : Routine) : String :=
  let head := r.id.text ++ " " ++ r.direction.text ++ " " ++ r.shape.text
  match r.body with
  | .stub why => line 1 (head ++ " [stub: " ++ cause why ++ "]")
  | .write instrs => line 1 head ++ code 2 instrs
  | .read p => line 1 head ++ plan p

def entry (shape : Shape) (e : Entry) : String :=
  line 1 (shape.text ++ ": write " ++ idOrDash e.write ++ ", read " ++ idOrDash e.read)

end Listing

def Codec.listing (c : Codec) : String :=
  "entries:\n" ++ String.join (c.entries.map fun e => Listing.entry e.1 e.2) ++
    "routines:\n" ++ String.join (c.routines.map Listing.routine)

end ShapeCodec
