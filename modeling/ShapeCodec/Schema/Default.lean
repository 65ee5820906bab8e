import ShapeCodec.Schema.Error
import ShapeCodec.Value
/-! Default values: what a shape reads as when the input is empty, says `null` or leaves the value
out. -/
namespace ShapeCodec.Schema

/-- The default below the types in `visiting`. Each level adds one declared type to them, so as many
levels as there are declarations suffice: when they are used up, every declared type is being
visited. -/
def defaultWithin (s : Schema) : Nat → List String → Shape → Except ShapeError Value
  | levels, visiting, shape =>
    if shape.isNullable then .ok .null
    else match shape with
      | .int => .ok (.int 0)
      | .list .. => .ok (.list [])
      | .object name _ =>
        match s.type? name with
        | none => .error (.undeclared name)
        | some decl =>
          if name ∈ visiting then .error (.unboundedDefault name)
          else match levels with
            | 0 => .error (.unboundedDefault name)
            | levels + 1 =>
              (decl.properties.mapM fun p =>
                s.defaultWithin levels (name :: visiting) p.effectiveShape).map (.record name)
      | .string => .ok .null
      | .unsupported _ => .ok .null

/-- Null for anything nullable, zero, an empty list, or a record of the properties' defaults. -/
def defaultValue (s : Schema) (shape : Shape) : Except ShapeError Value :=
  s.defaultWithin s.types.length [] shape

end ShapeCodec.Schema
