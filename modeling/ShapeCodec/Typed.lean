import ShapeCodec.Codec
/-! Types with a fixed shape: how their elements become values and come back. -/
namespace ShapeCodec

class HasShape (α : Type) where
  shape : Shape
  toValue : α → Value
  ofValue : Value → Except CodecError α

namespace HasShape

instance : HasShape Int64 where
  shape := .int
  toValue := .int
  ofValue
    | .int n => .ok n
    | other => .error (.unexpected .int other)

/-- A null string fits only an optional one. -/
instance : HasShape String where
  shape := .string
  toValue := .str
  ofValue
    | .str text => .ok text
    | other => .error (.unexpected .string other)

instance {α : Type} [HasShape α] : HasShape (List α) where
  shape := .list (shape α) false
  toValue items := .list (items.map toValue)
  ofValue
    | .list items => items.mapM ofValue
    | other => .error (.unexpected (.shape (.list (shape α) false)) other)

/-- Nothing is null. Integers stay non-null, so an absent one cannot be written. -/
instance {α : Type} [HasShape α] : HasShape (Option α) where
  shape := (shape α).withNullable true
  toValue
    | some a => toValue a
    | none => .null
  ofValue
    | .null => .ok none
    | value => some <$> ofValue value

end HasShape

/-- The fields of a record that are still to be taken. -/
structure RecordReader where
  type : String
  rest : List Value

namespace RecordReader

/-- Starts on a record of the given type. -/
def start (type : String) : Value → Except CodecError RecordReader
  | .record name fields =>
    if name = type then .ok ⟨name, fields⟩
    else .error (.unexpected (.record type) (.record name fields))
  | other => .error (.unexpected (.record type) other)

/-- Takes the next field. A field of the wrong kind is passed all the same. -/
def next {α : Type} [HasShape α] : EStateM CodecError RecordReader α :=
  fun reader =>
    match reader.rest with
    | [] => .error (.mismatch (.nextField reader.type) .endOfRecord) reader
    | value :: rest =>
      match HasShape.ofValue value with
      | .ok a => .ok a ⟨reader.type, rest⟩
      | .error e => .error e ⟨reader.type, rest⟩

/-- Reads a record with a reader of its fields; fields that are left over are ignored. -/
def read {α : Type} (type : String) (fields : EStateM CodecError RecordReader α) (value : Value) :
    Except CodecError α := do
  match fields (← start type value) with
  | .ok a _ => .ok a
  | .error e _ => .error e

end RecordReader

namespace Codec

def serializeAs {α : Type} [HasShape α] (c : Codec) (a : α) : Except CodecError String :=
  c.serialize (HasShape.shape α) (HasShape.toValue a)

def deserializeAs (α : Type) [HasShape α] (c : Codec) (text : String) : Except CodecError α := do
  HasShape.ofValue (← c.deserialize (HasShape.shape α) text)

end Codec

end ShapeCodec
