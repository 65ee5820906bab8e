import ShapeCodec.Routine
/-! Write trees, and their wire format as a sequence of instructions: objects and lists open and
close on lines of their own, with one property or item on each line between. -/
namespace ShapeCodec

inductive WriteTree where
  | literal (text : String)
  | call (id : RoutineId) (source : ValueSource)
  | int (source : ValueSource)
  | str (source : ValueSource)
  | object (source : ValueSource) (nullable : Bool) (members : List (String × WriteTree))
  | list (source : ValueSource) (nullable : Bool) (element : WriteTree)
  deriving Inhabited

namespace WriteTree

/-- The guard that a nullable object or list begins with. -/
def guard (source : ValueSource) (nullable : Bool) : List WriteStep :=
  if nullable then [.nullGuard source] else []

/-- The text before a property's value. -/
def label (name : String) : String :=
  "\"" ++ name ++ "\": "

mutual

def flatten : WriteTree → List WriteStep
  | literal text => [.literal text]
  | call id source => [.call id source]
  | int source => [.int source]
  | str source => [.str source]
  | object source nullable members =>
    guard source nullable ++ .literal "\x7b\n" :: flattenMembers members ++ [.literal "\x7d"]
  | list source nullable element =>
    guard source nullable ++
      [.literal "[\n", .each source element.flatten ",\n" "\n", .literal "]"]

def flattenMembers : List (String × WriteTree) → List WriteStep
  | [] => []
  | (name, tree) :: rest =>
    .literal (label name) :: tree.flatten ++
      .literal (if rest.isEmpty then "\n" else ",\n") :: flattenMembers rest

end

end WriteTree

end ShapeCodec
