/-! JSON values. The members of an object are kept in order. -/
namespace ShapeCodec

/-- Numbers written without fraction and exponent are integers as long as 64 bits hold them. -/
inductive Json.Number where
  | integer (n : Int)
  | float (x : Float)
  deriving DecidableEq

inductive Json where
  | null
  | bool (b : Bool)
  | number (n : Json.Number)
  | string (text : String)
  | array (items : List Json)
  | object (members : List (String × Json))
  deriving Inhabited

namespace Json

mutual

def decideEq : (a b : Json) → Decidable (a = b)
  | null, null => isTrue rfl
  | bool a, bool b => decidable_of_iff (a = b) (by simp)
  | number m, number n => decidable_of_iff (m = n) (by simp)
  | string s, string t => decidable_of_iff (s = t) (by simp)
  | array as, array bs =>
    have := decideEqItems as bs
    decidable_of_iff (as = bs) (by simp)
  | object as, object bs =>
    have := decideEqMembers as bs
    decidable_of_iff (as = bs) (by simp)
  | null, bool _ | null, number _ | null, string _ | null, array _ | null, object _ =>
    isFalse (by simp)
  | bool _, null | bool _, number _ | bool _, string _ | bool _, array _ | bool _, object _ =>
    isFalse (by simp)
  | number _, null | number _, bool _ | number _, string _ | number _, array _
  | number _, object _ => isFalse (by simp)
  | string _, null | string _, bool _ | string _, number _ | string _, array _
  | string _, object _ => isFalse (by simp)
  | array _, null | array _, bool _ | array _, number _ | array _, string _ | array _, object _ =>
    isFalse (by simp)
  | object _, null | object _, bool _ | object _, number _ | object _, string _
  | object _, array _ => isFalse (by simp)

def decideEqItems : (as bs : List Json) → Decidable (as = bs)
  | [], [] => isTrue rfl
  | a :: as, b :: bs =>
    have := decideEq a b
    have := decideEqItems as bs
    decidable_of_iff (a = b ∧ as = bs) (by simp)
  | [], _ :: _ => isFalse (by simp)
  | _ :: _, [] => isFalse (by simp)

def decideEqMembers : (as bs : List (String × Json)) → Decidable (as = bs)
  | [], [] => isTrue rfl
  | (key, a) :: as, (key', b) :: bs =>
    have := decideEq a b
    have := decideEqMembers as bs
    decidable_of_iff (key = key' ∧ a = b ∧ as = bs) (by simp [and_assoc])
  | [], _ :: _ => isFalse (by simp)
  | _ :: _, [] => isFalse (by simp)

end

instance : DecidableEq Json := decideEq

/-- The word for a value in a mismatch. -/
def kind : Json → String
  | null => "null"
  | bool _ => "bool"
  | number _ => "number"
  | string _ => "string"
  | array _ => "array"
  | object _ => "object"

/-- Puts a member into an object: a key that is there keeps its place and changes its value. -/
def insertMember (key : String) (value : Json) : List (String × Json) → List (String × Json)
  | [] => [(key, value)]
  | (other, old) :: rest =>
    if other = key then (key, value) :: rest else (other, old) :: insertMember key value rest

/-- The value of a key, in an object whose keys are distinct. -/
def member? (members : List (String × Json)) (key : String) : Option Json :=
  members.lookup key

mutual

/-- Makes the keys of every object distinct: of a repeated key, the first place and the last value
remain. -/
def distinct : Json → Json
  | array items => array (distinctItems items)
  | object members => object (distinctMembers [] members)
  | json => json

def distinctItems : List Json → List Json
  | [] => []
  | item :: rest => item.distinct :: distinctItems rest

def distinctMembers (before : List (String × Json)) :
    List (String × Json) → List (String × Json)
  | [] => before
  | (key, value) :: rest => distinctMembers (insertMember key value.distinct before) rest

end

end Json

end ShapeCodec
