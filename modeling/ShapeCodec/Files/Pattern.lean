import ShapeCodec.Decimal
/-! Patterns for paths: `?` stands for any character, `*` for any text, `[ab-d]` and `[!ab-d]` for a
character inside and outside a set, and `**` as a whole segment for any directories. -/
namespace ShapeCodec.Files

/-- Characters from the first to the last. -/
structure CharRange where
  first : Char
  last : Char
  deriving DecidableEq

inductive PatternToken where
  | char (c : Char)
  | anyChar
  | anyText
  | inside (ranges : List CharRange)
  | outside (ranges : List CharRange)
  | anyDirectories
  deriving DecidableEq

inductive PatternFault where
  | wildcards
  | recursion
  | range
  deriving DecidableEq

/-- A fault and the number of characters before it. -/
structure PatternError where
  position : Nat
  fault : PatternFault
  deriving DecidableEq

def PatternFault.message : PatternFault → String
  | wildcards => "wildcards are either regular `*` or recursive `**`"
  | recursion => "recursive wildcards must form a single path component"
  | range => "invalid range pattern"

def PatternError.message (e : PatternError) : String :=
  "Pattern syntax error near position " ++ Decimal.text e.position ++ ": " ++ e.fault.message

namespace Pattern

/-- The ranges of a set; a hyphen between two characters joins them. -/
def ranges : List Char → List CharRange
  | a :: '-' :: b :: rest => ⟨a, b⟩ :: ranges rest
  | a :: rest => ⟨a, a⟩ :: ranges rest
  | [] => []

/-- The set behind an opening bracket, with what follows it. The first character of a set is taken
as it is, even if it is a closing bracket. -/
def set? (text : List Char) : Option (PatternToken × List Char) :=
  let (isOutside, members) :=
    match text with
    | '!' :: rest => (true, rest)
    | _ => (false, text)
  match members with
  | [] => none
  | first :: rest =>
    match rest.dropWhile (· ≠ ']') with
    | [] => none
    | _ :: after =>
      let found := ranges (first :: rest.takeWhile (· ≠ ']'))
      some (if isOutside then .outside found else .inside found, after)

/-- The tokens of a text from a position on, given the character before it. Each token takes up at
least one character, which bounds their number. -/
def tokens : Nat → Nat → Option Char → List Char → Except PatternError (List PatternToken)
  | _, _, _, [] => .ok []
  | 0, _, _, _ :: _ => .ok []
  | bound + 1, position, before, c :: rest =>
    match c with
    | '?' => (tokens bound (position + 1) (some c) rest).map (.anyChar :: ·)
    | '*' =>
      let count := 1 + (rest.takeWhile (· = '*')).length
      let after := rest.dropWhile (· = '*')
      if count = 1 then (tokens bound (position + 1) (some c) rest).map (.anyText :: ·)
      else if 2 < count then .error ⟨position + 2, .wildcards⟩
      else if before ≠ none ∧ before ≠ some '/' then .error ⟨position - 1, .recursion⟩
      else match after with
        | [] => .ok [.anyDirectories]
        | d :: after =>
          if d = '/' then
            (tokens bound (position + 3) (some d) after).map (.anyDirectories :: ·)
          else .error ⟨position + 2, .recursion⟩
    | '[' =>
      match set? rest with
      | some (token, after) =>
        (tokens bound (position + (1 + rest.length - after.length)) (some ']') after).map
          (token :: ·)
      | none => .error ⟨position, .range⟩
    | c => (tokens bound (position + 1) (some c) rest).map (.char c :: ·)

def parse (text : String) : Except PatternError (List PatternToken) :=
  tokens text.toList.length 0 none text.toList

def inRanges (c : Char) (found : List CharRange) : Bool :=
  found.any fun r => r.first ≤ c && c ≤ r.last

/-- The ends of a text, the longest first. -/
def ends : List Char → List (List Char)
  | [] => [[]]
  | c :: rest => (c :: rest) :: ends rest

/-- The ends without their first character, of those where it satisfies `p`. -/
def afterChar (p : Char → Bool) (left : List (List Char)) : List (List Char) :=
  left.filterMap fun
    | [] => none
    | c :: rest => if p c then some rest else none

/-- What can be left of a name behind a token, if `left` are the ends of it, the longest first, that
can be left before the token. -/
def behind (left : List (List Char)) : PatternToken → List (List Char)
  | .char c => afterChar (· = c) left
  | .anyChar => afterChar (fun _ => true) left
  | .inside found => afterChar (inRanges · found) left
  | .outside found => afterChar (!inRanges · found) left
  | .anyText => left.head?.elim [] ends
  | .anyDirectories => []

/-- Whether the tokens of a segment stand for a name. -/
def matchesName (tokens : List PatternToken) (name : List Char) : Bool :=
  (tokens.foldl behind [name]).any List.isEmpty

/-- The text of tokens that stand for themselves. -/
def literal? : List PatternToken → Option (List Char)
  | [] => some []
  | .char c :: rest => (literal? rest).map (c :: ·)
  | _ => none

example : (parse "[a-c]?*.json").toOption.map (matchesName · "bx-1.json".toList) = some true ∧
    (parse "*a*b").toOption.map (matchesName · "aaaa".toList) = some false := by
  decide +kernel

end Pattern

end ShapeCodec.Files
