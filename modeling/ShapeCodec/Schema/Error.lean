import ShapeCodec.Schema
/-! Faults of shapes and of schema declarations, with their texts. -/
namespace ShapeCodec

/-- Why no routine or default exists for a shape. The fault belongs to one routine or call site;
everything else is generated regardless. -/
inductive ShapeError where
  | unsupported (expression : String)
  | undeclared (name : String)
  | unboundedDefault (name : String)
  deriving DecidableEq

def ShapeError.message : ShapeError → String
  | unsupported expression =>
    "type expression `" ++ expression ++
      "` is not a supported shape (int, string, list<T> or a declared type)"
  | undeclared name => "type `" ++ name ++ "` is not found or not declared serializable"
  | unboundedDefault name =>
    "type `" ++ name ++
      "` contains itself through non-nullable properties and has no finite default value"

def DeclareError.message : DeclareError → String
  | invalidIdentifier name => "`" ++ name ++ "` is not a valid identifier"
  | duplicateType name => "type `" ++ name ++ "` is declared more than once"
  | duplicateProperty type property =>
    "type `" ++ type ++ "` declares property `" ++ property ++ "` more than once"

namespace Schema

/-- Whether a shape can have a routine at all: nothing in it is unsupported, and the object at the
bottom of its list chain is declared. -/
def checkReferences (s : Schema) (shape : Shape) : Except ShapeError Unit :=
  match shape.unsupportedText?, shape.rootName? with
  | some expression, _ => .error (.unsupported expression)
  | none, some name => if s.isDeclared name then .ok () else .error (.undeclared name)
  | none, none => .ok ()

end Schema

end ShapeCodec
