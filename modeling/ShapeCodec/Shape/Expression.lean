import ShapeCodec.Shape
import ShapeCodec.Text
/-! Type expressions: `int`, `string`, `list<T>` and names, each with an optional mark, `?` for
nullable (the default) or `!` for non-null. Every text denotes a shape; what is not understood
denotes an unsupported one. -/
namespace ShapeCodec

def isNameStart (c : Char) : Bool :=
  c.isAlpha || c == '_'

def isNameRest (c : Char) : Bool :=
  c.isAlphanum || c == '_'

def isName : List Char → Bool
  | [] => false
  | c :: rest => isNameStart c && rest.all isNameRest

/-- An identifier: an ASCII letter or underscore, then ASCII letters, digits and underscores. -/
def isIdentifier (text : String) : Bool :=
  isName text.toList

theorem isNameRest_of_isIdentifier {text : String} (h : isIdentifier text = true) :
    ∀ c ∈ text.toList, isNameRest c = true := by
  unfold isIdentifier isName at h
  split at h
  · cases h
  · next c rest htext =>
    rw [Bool.and_eq_true, List.all_eq_true] at h
    rw [htext]
    refine List.forall_mem_cons.2 ⟨?_, h.2⟩
    simp only [isNameStart, isNameRest, Char.isAlphanum, Bool.or_eq_true] at h ⊢
    exact h.1.imp .inl id

namespace Shape

/-- Scalar names that look like types but have no codec. -/
def reservedNames : List String :=
  ["bool", "boolean", "byte", "char", "date", "decimal", "double", "float", "long", "map",
    "object", "short", "uint"]

/-- The shape of a name with its nullability; integers and strings ignore the latter. -/
def ofName? (name : String) (nullable : Bool) : Option Shape :=
  if !isIdentifier name then none
  else if name = "int" then some int
  else if name = "string" then some string
  else if name = "list" ∨ name ∈ reservedNames then none
  else some (object name nullable)

/-- Takes the mark off the end of an expression, with the blanks before it. -/
def splitMark (text : List Char) : List Char × Bool :=
  match text.getLast? with
  | some '?' => (Text.trimEnd text.dropLast, true)
  | some '!' => (Text.trimEnd text.dropLast, false)
  | _ => (text, true)

/-- What stands before the first opening bracket, and what follows it. -/
def splitBracket? : List Char → Option (List Char × List Char)
  | [] => none
  | c :: rest =>
    if c = '<' then some ([], rest)
    else (splitBracket? rest).map fun (head, inner) => (c :: head, inner)

theorem length_splitMark_le (text : List Char) : (splitMark text).1.length ≤ text.length := by
  have drop : (Text.trimEnd text.dropLast).length ≤ text.length :=
    Nat.le_trans (Text.length_trimEnd_le _) (by simp)
  unfold splitMark
  split <;> simp [drop]

theorem append_of_splitBracket? {body head inner : List Char}
    (h : splitBracket? body = some (head, inner)) : body = head ++ '<' :: inner := by
  induction body generalizing head with
  | nil => simp [splitBracket?] at h
  | cons c rest ih =>
    rw [splitBracket?] at h
    split at h
    · simp_all
    · obtain ⟨⟨head', inner'⟩, hsplit, heq⟩ := Option.map_eq_some_iff.1 h
      simp only [Prod.mk.injEq] at heq
      obtain ⟨rfl, rfl⟩ := heq
      simp [ih hsplit]

/-- Reads a trimmed expression. The first opening bracket of a list pairs with the closing bracket
at the very end. -/
def ofChars? (text : List Char) : Option Shape :=
  match _split : splitBracket? (splitMark text).1 with
  | none => ofName? (String.ofList (splitMark text).1) (splitMark text).2
  | some (head, inner) =>
    if inner.getLast? = some '>' ∧ Text.trim head = ['l', 'i', 's', 't'] then
      (ofChars? (Text.trim inner.dropLast)).map (list · (splitMark text).2)
    else none
termination_by text.length
decreasing_by
  have bracket := congrArg List.length (append_of_splitBracket? _split)
  have mark := length_splitMark_le text
  have blank := Text.length_trim_le inner.dropLast
  simp only [List.length_append, List.length_cons, List.length_dropLast] at bracket blank
  omega

/-- The shape that a text denotes: what is not understood is unsupported as a whole. -/
def ofText (text : String) : Shape :=
  let trimmed := Text.trim text.toList
  (ofChars? trimmed).getD (unsupported (String.ofList trimmed))

example : ofText " list< list<Person!> >! " = list (list (object "Person" false) true) false := by
  decide +kernel

example : ofText "list<float>" = unsupported "list<float>" := by
  decide +kernel

end Shape

end ShapeCodec
