/-! Shapes of serializable values, their nullability and their text. Identity of shapes includes
nullability, because the null check belongs to the routine generated for a shape. -/
namespace ShapeCodec

inductive Shape where
  | int
  | string
  | object (name : String) (nullable : Bool)
  | list (element : Shape) (nullable : Bool)
  /-- Anything outside the supported set, kept verbatim for diagnostics. -/
  | unsupported (text : String)
  deriving DecidableEq, Inhabited

namespace Shape

/-- Only objects and lists carry the flag; the others are returned as they are. -/
def withNullable (nullable : Bool) : Shape → Shape
  | object name _ => object name nullable
  | list element _ => list element nullable
  | shape => shape

/-- Integers are never nullable; strings and unsupported shapes always are. -/
def isNullable : Shape → Bool
  | int => false
  | string => true
  | object _ nullable => nullable
  | list _ nullable => nullable
  | unsupported _ => true

/-- Composite shapes get routines of their own; the others are handled in place. -/
def isComposite : Shape → Bool
  | object .. => true
  | list .. => true
  | _ => false

/-- The object at the bottom of a (possibly empty) chain of lists. -/
def rootName? : Shape → Option String
  | object name _ => some name
  | list element _ => element.rootName?
  | _ => none

/-- The unsupported expression at the bottom of a (possibly empty) chain of lists. -/
def unsupportedText? : Shape → Option String
  | unsupported text => some text
  | list element _ => element.unsupportedText?
  | _ => none

/-- The shape itself, its element shape, the element shape of that one, and so on. -/
def parts : Shape → List Shape
  | list element nullable => list element nullable :: element.parts
  | shape => [shape]

private def nonNullMark (nullable : Bool) : String :=
  if nullable then "" else "!"

/-- The type expression of a shape: nullable is the unmarked case. -/
def text : Shape → String
  | int => "int"
  | string => "string"
  | object name nullable => name ++ nonNullMark nullable
  | list element nullable => "list<" ++ element.text ++ ">" ++ nonNullMark nullable
  | unsupported text => text

theorem self_mem_parts (shape : Shape) : shape ∈ shape.parts := by
  cases shape <;> simp [parts]

@[simp] theorem rootName?_withNullable (shape : Shape) (nullable : Bool) :
    (shape.withNullable nullable).rootName? = shape.rootName? := by
  cases shape <;> rfl

end Shape

end ShapeCodec
