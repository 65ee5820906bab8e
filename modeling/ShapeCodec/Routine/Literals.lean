import ShapeCodec.Routine
/-! Literal runs: neighbouring literals of a block become one, and empty ones vanish. Other
instructions keep their order, and the body of a loop is treated on its own. -/
namespace ShapeCodec.WriteStep

/-- Puts text before a block whose literals are merged already. -/
def prependLiteral (text : String) (code : List WriteStep) : List WriteStep :=
  if text.isEmpty then code
  else match code with
    | literal next :: rest => literal (text ++ next) :: rest
    | code => literal text :: code

mutual

def mergeInside : WriteStep → WriteStep
  | each list body separator terminator => each list (mergeLiterals body) separator terminator
  | instr => instr

def mergeLiterals : List WriteStep → List WriteStep
  | [] => []
  | literal text :: rest => prependLiteral text (mergeLiterals rest)
  | instr :: rest => instr.mergeInside :: mergeLiterals rest

end

mutual

/-- The number of literals, loop bodies included. -/
def literalCount : List WriteStep → Nat
  | [] => 0
  | instr :: rest => instr.literalsInside + literalCount rest

def literalsInside : WriteStep → Nat
  | literal _ => 1
  | each _ body _ _ => literalCount body
  | _ => 0

end

end ShapeCodec.WriteStep
