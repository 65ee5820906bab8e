import ShapeCodec.Decimal.Shortest
import ShapeCodec.Files
import ShapeCodec.Json.Parser
import ShapeCodec.Schema.Error
import ShapeCodec.Text.Quoted
/-! What can be wrong with a schema document, and where, with the texts shown to the user. -/
namespace ShapeCodec.Document

inductive Segment where
  | key (name : String)
  | index (n : Nat)
  /-- A member whose key could not be read. -/
  | unknown
  deriving DecidableEq

inductive Cause where
  | missingField (name : String)
  | duplicateField (name : String)
  | unknownField (name : String) (known : List String)
  | unknownVariant (name : String) (known : List String)
  | invalidType (found expected : String)
  | invalidLength (count : Nat) (expected : String)
  /-- The text is no JSON. -/
  | malformed (error : Json.SyntaxError)
  deriving DecidableEq

/-- A cause and the place of the value that it concerns, from the root on. -/
structure Fault where
  path : List Segment
  cause : Cause
  deriving DecidableEq

/-- Alternatives as a list in words. -/
def alternatives (names : List String) : String :=
  let quoted := names.map fun name => "`" ++ name ++ "`"
  match quoted with
  | [a, b] => a ++ " or " ++ b
  | [a] => a
  | quoted => "one of " ++ ", ".intercalate quoted

def Cause.message : Cause → String
  | missingField name => "missing field `" ++ name ++ "`"
  | duplicateField name => "duplicate field `" ++ name ++ "`"
  | unknownField name known => "unknown field `" ++ name ++ "`, expected " ++ alternatives known
  | unknownVariant name known =>
    "unknown variant `" ++ name ++ "`, expected " ++ alternatives known
  | invalidType found expected => "invalid type: " ++ found ++ ", expected " ++ expected
  | invalidLength count expected =>
    "invalid length " ++ Decimal.text count ++ ", expected " ++ expected
  | malformed error => error.message

/-- A segment behind others; keys are set off by points. -/
def Segment.text : Segment → String
  | key name => "." ++ name
  | index n => "[" ++ Decimal.text n ++ "]"
  | unknown => ".?"

def pathText : List Segment → String
  | [] => "."
  | .key name :: rest => name ++ String.join (rest.map Segment.text)
  | .unknown :: rest => "?" ++ String.join (rest.map Segment.text)
  | path => String.join (path.map Segment.text)

example : pathText [.key "types", .index 0, .unknown] = "types[0].?" ∧ pathText [.unknown] = "?" ∧
    pathText [.index 0, .key "name"] = "[0].name" := by
  decide +kernel

/-- The words for a JSON value of the wrong type. -/
def describe : Json.Head → String
  | .null => "null"
  | .bool b => "boolean `" ++ (if b then "true" else "false") ++ "`"
  | .number (.integer n) => "integer `" ++ Decimal.text n ++ "`"
  | .number (.float x) => "floating point `" ++ Decimal.Shortest.text x ++ "`"
  | .string text => "string " ++ Text.quote text
  | .array => "sequence"
  | .object => "map"

end Document

/-- Why a schema could not be loaded. -/
inductive LoadError where
  | io (path : String) (error : Files.OsError)
  | document (origin : String) (fault : Document.Fault)
  | declare (error : DeclareError)
  deriving DecidableEq

namespace LoadError

def message : LoadError → String
  | io path error => "failed to read " ++ path ++ ": " ++ error.message
  | document origin fault =>
    "invalid schema document (" ++ origin ++ "): at JSON path " ++ Document.pathText fault.path ++
      " → " ++ fault.cause.message
  | declare error => error.message

end LoadError

end ShapeCodec
