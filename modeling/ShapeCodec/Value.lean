/-! Values that generated routines write and read. Records are positional: field `i` belongs to the
`i`-th declared property. -/
namespace ShapeCodec

inductive Value where
  | null
  | int (n : Int64)
  | str (text : String)
  | record (type : String) (fields : List Value)
  | list (items : List Value)
  deriving Inhabited

namespace Value

mutual

def decideEq : (a b : Value) → Decidable (a = b)
  | null, null => isTrue rfl
  | int m, int n => decidable_of_iff (m = n) (by simp)
  | str s, str t => decidable_of_iff (s = t) (by simp)
  | record s fs, record t gs =>
    have := decideEqList fs gs
    decidable_of_iff (s = t ∧ fs = gs) (by simp)
  | list xs, list ys =>
    have := decideEqList xs ys
    decidable_of_iff (xs = ys) (by simp)
  | null, int _ | null, str _ | null, record .. | null, list _ => isFalse (by simp)
  | int _, null | int _, str _ | int _, record .. | int _, list _ => isFalse (by simp)
  | str _, null | str _, int _ | str _, record .. | str _, list _ => isFalse (by simp)
  | record .., null | record .., int _ | record .., str _ | record .., list _ => isFalse (by simp)
  | list _, null | list _, int _ | list _, str _ | list _, record .. => isFalse (by simp)

def decideEqList : (as bs : List Value) → Decidable (as = bs)
  | [], [] => isTrue rfl
  | a :: as, b :: bs =>
    have := decideEq a b
    have := decideEqList as bs
    decidable_of_iff (a = b ∧ as = bs) (by simp)
  | [], _ :: _ => isFalse (by simp)
  | _ :: _, [] => isFalse (by simp)

end

instance : DecidableEq Value := decideEq

def isNull : Value → Bool
  | null => true
  | _ => false

/-- The word for a value in a mismatch. -/
def kind : Value → String
  | null => "null"
  | int _ => "int"
  | str _ => "string"
  | record .. => "object"
  | list _ => "list"

end Value

end ShapeCodec
