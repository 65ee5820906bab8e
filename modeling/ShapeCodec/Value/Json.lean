import ShapeCodec.Codec.Error
import ShapeCodec.Json
/-! Values as plain JSON, in which records name their fields. -/
namespace ShapeCodec.Value

/-- The mismatch with a JSON value that does not fit a shape. -/
def unfit (shape : Shape) (json : Json) : CodecError :=
  .mismatch (.shape shape) (.kind json.kind)

/-- A member that is missing counts as null. -/
def ofMissing (shape : Shape) : Except CodecError Value :=
  if shape.isNullable then .ok .null else .error (unfit shape .null)

def ofNumber (shape : Shape) (n : Json.Number) : Except CodecError Value :=
  match n with
  | .integer k =>
    if Scan.inRange k then .ok (.int (Int64.ofInt k)) else .error (unfit shape (.number n))
  | .float _ => .error (unfit shape (.number n))

mutual

/-- The value of a shape that a JSON value stands for. Members are matched with declared properties
by name, and the others are left out. -/
def ofJson (s : Schema) (json : Json) (shape : Shape) : Except CodecError Value :=
  match json, shape with
  | .null, shape => ofMissing shape
  | .number n, .int => ofNumber .int n
  | .string text, .string => .ok (.str text)
  | .array items, .list element _ => (ofItems s items element).map .list
  | .object members, .object name nullable =>
    match s.type? name with
    | none => .error (unfit (.object name nullable) (.object members))
    | some decl =>
      let given := ofMembers s members
      (decl.properties.mapM fun p =>
        (given.lookup p.name).getD ofMissing p.effectiveShape).map (.record name)
  | json, shape => .error (unfit shape json)

def ofItems (s : Schema) : List Json → Shape → Except CodecError (List Value)
  | [], _ => .ok []
  | item :: rest, element => do
    let value ← ofJson s item element
    let values ← ofItems s rest element
    .ok (value :: values)

/-- Each member as a reader that waits for the shape its property has. -/
def ofMembers (s : Schema) :
    List (String × Json) → List (String × (Shape → Except CodecError Value))
  | [] => []
  | (key, json) :: rest => (key, fun shape => ofJson s json shape) :: ofMembers s rest

end

/-- The name of a field: that of the declared property in its place, or else its number. -/
def fieldName (s : Schema) (type : String) (slot : Nat) : String :=
  match (s.type? type).bind fun decl => decl.properties[slot]? with
  | some p => p.name
  | none => "field" ++ Decimal.text slot

mutual

def toJson (s : Schema) : Value → Json
  | null => .null
  | int n => .number (.integer n.toInt)
  | str text => .string text
  | list items => .array (toJsonItems s items)
  | record type fields => .object (toJsonMembers s type 0 [] fields)

def toJsonItems (s : Schema) : List Value → List Json
  | [] => []
  | item :: rest => toJson s item :: toJsonItems s rest

/-- The members for the fields from `slot` on, added to those before them. -/
def toJsonMembers (s : Schema) (type : String) (slot : Nat) (before : List (String × Json)) :
    List Value → List (String × Json)
  | [] => before
  | field :: rest =>
    toJsonMembers s type (slot + 1)
      (Json.insertMember (fieldName s type slot) (toJson s field) before) rest

end

end ShapeCodec.Value
