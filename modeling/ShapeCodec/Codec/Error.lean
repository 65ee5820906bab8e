import ShapeCodec.Cursor
import ShapeCodec.Schema
import ShapeCodec.Value
/-! Failures of a generated codec at call time, with their texts. -/
namespace ShapeCodec

/-- What a value should have been. -/
inductive Wanted where
  | int
  | string
  | list
  | object
  | shape (shape : Shape)
  | record (type : String)
  /-- The current element of a loop. -/
  | element
  | field (slot : Nat) (type : String)
  | fieldCount (count : Nat) (type : String)
  | nextField (type : String)
  deriving DecidableEq

def Wanted.text : Wanted → String
  | int => "int"
  | string => "string"
  | list => "list"
  | object => "object"
  | shape s => s.text
  | record type => type
  | element => "a list element"
  | field slot type => "field " ++ Decimal.text slot ++ " of `" ++ type ++ "`"
  | fieldCount count type => Decimal.text count ++ " fields of `" ++ type ++ "`"
  | nextField type => "another `" ++ type ++ "` field"

/-- What was there instead. -/
inductive Found where
  | kind (name : String)
  | endOfRecord
  | otherType
  | otherFieldCount
  deriving DecidableEq

def Found.text : Found → String
  | kind name => name
  | endOfRecord => "end of record"
  | otherType => "object of another type"
  | otherFieldCount => "record with a different field count"

inductive CodecError where
  | parse (error : ParseError)
  | mismatch (expected : Wanted) (found : Found)
  | noEntry (shape : Shape) (direction : Direction)
  | depthLimit (limit : Nat)
  deriving DecidableEq

namespace CodecError

def message : CodecError → String
  | parse error => error.message
  | mismatch expected found =>
    "value mismatch: expected " ++ expected.text ++ ", found " ++ found.text
  | noEntry shape direction =>
    "no " ++ direction.text ++ " entry point for `" ++ shape.text ++ "`"
  | depthLimit limit => "value nested deeper than " ++ Decimal.text limit ++ " levels"

/-- The mismatch with a value of the wrong kind. -/
def unexpected (expected : Wanted) (value : Value) : CodecError :=
  mismatch expected (.kind value.kind)

end CodecError

end ShapeCodec
