import ShapeCodec.Filter
import ShapeCodec.Filter.Path
import ShapeCodec.Json.Printer
import ShapeCodec.Shape.Expression
/-! Path filters as a language: paths such as `.a[0]."b"[]?`, groups in parentheses, `f | g`,
`f , g` and `empty`. The pipe binds less tightly than the comma. A question mark concerns the step
or group right before it. -/
namespace ShapeCodec.PathFilter

/-- Why a text is no path filter. -/
inductive TextFault where
  | malformed
  | undefined (name : String)

inductive Token where
  | dot
  /-- A name right behind a dot. -/
  | field (name : String)
  | word (name : String)
  | text (content : String)
  | number (n : Nat)
  | mark (c : Char)
  deriving DecidableEq

/-- A numeric escape behind its letter, for a character by itself. -/
def codePoint? (text : List Char) : Option (Char × List Char) :=
  match text with
  | a :: b :: c :: d :: rest =>
    match Json.hexNumber? 0 [a, b, c, d] with
    | some code => if code.isValidChar then some (Char.ofNat code, rest) else none
    | none => none
  | _ => none

def escape? : List Char → Option (Char × List Char)
  | 'u' :: rest => codePoint? rest
  | text => (Json.escape text).toOption

/-- The content of a text up to its closing quote. Every other character may stand for itself. -/
def content? : Nat → List Char → Option (List Char × List Char)
  | 0, _ | _, [] => none
  | bound + 1, c :: rest =>
    if c = '"' then some ([], rest)
    else do
      let (d, rest) ← if c = '\\' then escape? rest else some (c, rest)
      let (content, rest) ← content? bound rest
      return (d :: content, rest)

/-- The tokens of a text. Each takes up at least one character, which bounds their number. -/
def tokens? : Nat → List Char → Option (List Token)
  | _, [] => some []
  | 0, _ :: _ => none
  | bound + 1, c :: rest =>
    if Text.isBlank c then tokens? bound rest
    else if c = '.' then
      match rest with
      | [] => some [.dot]
      | d :: _ =>
        if d = '.' then none
        else if isNameStart d then
          (tokens? bound (rest.dropWhile isNameRest)).map
            (.field (String.ofList (rest.takeWhile isNameRest)) :: ·)
        else (tokens? bound rest).map (.dot :: ·)
    else if c = '"' then
      match content? rest.length rest with
      | some (content, rest) => (tokens? bound rest).map (.text (String.ofList content) :: ·)
      | none => none
    else if c.isDigit then
      let digits := c :: rest.takeWhile Char.isDigit
      (tokens? bound (rest.dropWhile Char.isDigit)).map (.number (Decimal.value 0 digits) :: ·)
    else if isNameStart c then
      (tokens? bound (rest.dropWhile isNameRest)).map
        (.word (String.ofList (c :: rest.takeWhile isNameRest)) :: ·)
    else if c ∈ ['[', ']', '(', ')', '|', ',', '?', '-'] then
      (tokens? bound rest).map (.mark c :: ·)
    else none

/-- A path step in brackets, behind the opening one. -/
def bracket? : List Token → Option (PathFilter × List Token)
  | .mark ']' :: rest => some (iterate, rest)
  | .text name :: .mark ']' :: rest => some (member name, rest)
  | .number n :: .mark ']' :: rest => some (index n, rest)
  | .mark '-' :: .number n :: .mark ']' :: rest => some (index (-n), rest)
  | _ => none

/-- The path step that comes next, if any. -/
def step? : List Token → Option (PathFilter × List Token)
  | .field name :: rest | .dot :: .text name :: rest => some (member name, rest)
  | .mark '[' :: rest => bracket? rest
  | _ => none

/-- A filter with the question marks behind it. -/
def guarded (f : PathFilter) : List Token → PathFilter × List Token
  | .mark '?' :: rest => guarded (attempt f) rest
  | tokens => (f, tokens)

/-- A filter with the steps that follow it. Each takes up a token, which bounds their number. -/
def steps : Nat → PathFilter → List Token → PathFilter × List Token
  | 0, f, tokens => (f, tokens)
  | bound + 1, f, tokens =>
    match step? tokens with
    | some (step, rest) =>
      let (step, rest) := guarded step rest
      steps bound (pipe f step) rest
    | none => (f, tokens)

mutual

/-- Filters with pipes between them. Between two tokens taken there are at most three calls, which
bounds the calls. -/
def pipeline : Nat → List Token → Except TextFault (PathFilter × List Token)
  | 0, _ => .error .malformed
  | calls + 1, tokens =>
    match alternatives calls tokens with
    | .ok (f, .mark '|' :: rest) => (pipeline calls rest).map fun (g, rest) => (pipe f g, rest)
    | other => other

/-- Filters with commas between them. -/
def alternatives : Nat → List Token → Except TextFault (PathFilter × List Token)
  | 0, _ => .error .malformed
  | calls + 1, tokens =>
    match term calls tokens with
    | .ok (f, .mark ',' :: rest) =>
      (alternatives calls rest).map fun (g, rest) => (both f g, rest)
    | other => other

/-- One filter with the steps that follow it. -/
def term : Nat → List Token → Except TextFault (PathFilter × List Token)
  | 0, _ => .error .malformed
  | calls + 1, tokens =>
    let start : Except TextFault (PathFilter × List Token) :=
      match tokens with
      | .field name :: rest | .dot :: .text name :: rest => .ok (member name, rest)
      | .dot :: rest => .ok (identity, rest)
      | .word name :: rest =>
        if name = "empty" then .ok (empty, rest) else .error (.undefined name)
      | .mark '(' :: rest =>
        match pipeline calls rest with
        | .ok (f, .mark ')' :: rest) => .ok (f, rest)
        | .ok _ => .error .malformed
        | .error e => .error e
      | _ => .error .malformed
    match start with
    | .error e => .error e
    | .ok (f, rest) =>
      let (f, rest) := guarded f rest
      .ok (steps rest.length f rest)

end

/-- The filter that a text stands for. -/
def parse (text : String) : Except TextFault PathFilter :=
  match tokens? text.toList.length text.toList with
  | none => .error .malformed
  | some tokens =>
    match pipeline (3 * tokens.length + 3) tokens with
    | .ok (f, []) => .ok f
    | .ok _ => .error .malformed
    | .error e => .error e

example : (parse ".items[-1] , .a.b[]? | (.)").toOption =
    some (pipe (both (pipe (member "items") (index (-1)))
      (pipe (pipe (member "a") (member "b")) (attempt iterate))) identity) := by
  decide +kernel

/-- What is wrong with a text, as a language tells it. -/
def TextFault.flaw (text : String) : TextFault → Filter.Flaw
  | malformed => .malformed text "no path filter"
  | undefined name => .undefined text name "Filter"

/-- The outputs of a filter, each as text. -/
def outputs (f : PathFilter) (json : Json) : List (Except String String) :=
  let (found, fault) := f.run json
  found.map (fun output => .ok output.compact) ++
    (fault.map fun e => Except.error e.message).toList

/-- The language of path filters. -/
def language : Filter.Language := fun text =>
  match parse text with
  | .ok f => .ok f.outputs
  | .error e => .error [e.flaw text]

end ShapeCodec.PathFilter
