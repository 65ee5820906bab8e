import ShapeCodec.Json.Number
import ShapeCodec.Text
/-! Reading JSON text, with at most 127 arrays and objects inside each other. Functions answer with
a value and the text behind it. Loops take a bound on their rounds: each round uses up text, so the
length of the text bounds them, and at zero the text is at its end. -/
namespace ShapeCodec.Json

def maxNesting : Nat := 127

def hexValue? (c : Char) : Option Nat :=
  if c.isDigit then some (c.toNat - '0'.toNat)
  else if 'a' ≤ c ∧ c ≤ 'f' then some (c.toNat - 'a'.toNat + 10)
  else if 'A' ≤ c ∧ c ≤ 'F' then some (c.toNat - 'A'.toNat + 10)
  else none

/-- The number that hexadecimal digits stand for, after `n`. -/
def hexNumber? (n : Nat) : List Char → Option Nat
  | [] => some n
  | c :: rest => (hexValue? c).bind fun digit => hexNumber? (16 * n + digit) rest

/-- Four hexadecimal digits. Fewer than four bytes of text are an end of the string, whatever they
are. -/
def hexCode (text : List Char) : Except SyntaxError (Nat × List Char) :=
  if Text.utf8Length (text.take 4) < 4 then .error .eofInString
  else match hexNumber? 0 (text.take 4) with
    | some code => .ok (code, text.drop 4)
    | none => .error .invalidEscape

/-- The code unit that follows the first one of a surrogate pair. -/
def lowSurrogate (text : List Char) : Except SyntaxError (Nat × List Char) :=
  match text with
  | [] | ['\\'] => .error .eofInString
  | '\\' :: 'u' :: rest => do
    let (low, rest) ← hexCode rest
    if 0xDC00 ≤ low ∧ low ≤ 0xDFFF then .ok (low, rest) else .error .loneSurrogate
  | _ => .error .unexpectedEndOfEscape

/-- A numeric escape behind its letter. Code units of a surrogate pair come as two escapes. -/
def unicodeEscape (text : List Char) : Except SyntaxError (Char × List Char) := do
  let (high, rest) ← hexCode text
  if 0xDC00 ≤ high ∧ high ≤ 0xDFFF then .error .loneSurrogate
  else if 0xD800 ≤ high ∧ high ≤ 0xDBFF then
    let (low, rest) ← lowSurrogate rest
    .ok (Char.ofNat (0x10000 + (high - 0xD800) * 0x400 + (low - 0xDC00)), rest)
  else .ok (Char.ofNat high, rest)

/-- An escape behind its backslash. -/
def escape : List Char → Except SyntaxError (Char × List Char)
  | [] => .error .eofInString
  | c :: rest =>
    match c with
    | '"' => .ok ('"', rest)
    | '\\' => .ok ('\\', rest)
    | '/' => .ok ('/', rest)
    | 'b' => .ok ('\x08', rest)
    | 'f' => .ok ('\x0c', rest)
    | 'n' => .ok ('\n', rest)
    | 'r' => .ok ('\r', rest)
    | 't' => .ok ('\t', rest)
    | 'u' => unicodeEscape rest
    | _ => .error .invalidEscape

/-- The content of a string up to its closing quote. -/
def stringContent : Nat → List Char → Except SyntaxError (List Char × List Char)
  | 0, _ => .error .eofInString
  | _ + 1, [] => .error .eofInString
  | bound + 1, c :: rest =>
    if c = '"' then .ok ([], rest)
    else if c = '\\' then do
      let (d, rest) ← escape rest
      let (content, rest) ← stringContent bound rest
      .ok (d :: content, rest)
    else if c.toNat < 0x20 then .error .controlCharacter
    else do
      let (content, rest) ← stringContent bound rest
      .ok (c :: content, rest)

/-- A string behind its opening quote. -/
def stringText (text : List Char) : Except SyntaxError (String × List Char) := do
  let (content, rest) ← stringContent text.length text
  .ok (String.ofList content, rest)

/-- The rest of a word, which stands for `a`. -/
def word {α : Type} (a : α) : List Char → List Char → Except SyntaxError (α × List Char)
  | [], text => .ok (a, text)
  | _ :: _, [] => .error .eofInValue
  | c :: expected, d :: rest => if c = d then word a expected rest else .error .expectedWord

/-- The next character that is not whitespace, or the fault of a text without one. -/
def nextChar (atEnd : SyntaxError) (text : List Char) : Except SyntaxError (Char × List Char) :=
  match text.dropWhile Text.isSpace with
  | [] => .error atEnd
  | c :: rest => .ok (c, rest)

/-- The start of a value: all of it, or the opening bracket of an array or object. -/
inductive Head where
  | null
  | bool (b : Bool)
  | number (n : Number)
  | string (text : String)
  | array
  | object

def head (text : List Char) : Except SyntaxError (Head × List Char) := do
  let (c, rest) ← nextChar .eofInValue text
  match c with
  | 'n' => word .null ['u', 'l', 'l'] rest
  | 't' => word (.bool true) ['r', 'u', 'e'] rest
  | 'f' => word (.bool false) ['a', 'l', 's', 'e'] rest
  | '"' => (stringText rest).map fun (text, rest) => (.string text, rest)
  | '[' => .ok (.array, rest)
  | '\x7b' => .ok (.object, rest)
  | _ =>
    if c = '-' ∨ c.isDigit then (Number.read (c :: rest)).map fun (n, rest) => (.number n, rest)
    else .error .expectedValue

/-- Goes on to the next item of an array, or steps over the closing bracket and says no. -/
def nextItem (first : Bool) (text : List Char) : Except SyntaxError (Bool × List Char) := do
  let (c, rest) ← nextChar .eofInArray text
  if c = ']' then .ok (false, rest)
  else if first then .ok (true, c :: rest)
  else if c ≠ ',' then .error .expectedCommaOrBracket
  else
    let (d, rest) ← nextChar .eofInValue rest
    if d = ']' then .error .trailingComma else .ok (true, d :: rest)

/-- The end of an array in which no item may follow. -/
def endArray (text : List Char) : Except SyntaxError (Unit × List Char) := do
  let (c, rest) ← nextChar .eofInArray text
  if c = ']' then .ok ((), rest)
  else if c = ',' ∧ (rest.dropWhile Text.isSpace).head? = some ']' then .error .trailingComma
  else .error .trailingCharacters

/-- The key of the next member of an object, unless the closing brace comes next. -/
def nextKey (first : Bool) (text : List Char) :
    Except SyntaxError (Option String × List Char) := do
  let (c, rest) ← nextChar .eofInObject text
  if c = '\x7d' then .ok (none, rest)
  else if first then
    if c = '"' then (stringText rest).map fun (key, rest) => (some key, rest)
    else .error .keyNotString
  else if c ≠ ',' then .error .expectedCommaOrBrace
  else
    let (d, rest) ← nextChar .eofInValue rest
    if d = '"' then (stringText rest).map fun (key, rest) => (some key, rest)
    else .error (if d = '\x7d' then .trailingComma else .keyNotString)

/-- The colon between a key and its value. -/
def colon (text : List Char) : Except SyntaxError (Unit × List Char) := do
  let (c, rest) ← nextChar .eofInObject text
  if c = ':' then .ok ((), rest) else .error .expectedColon

section Containers

variable (value : List Char → Except SyntaxError (Json × List Char))

/-- The items of an array behind its opening bracket, or behind an item. -/
def arrayItems : Nat → Bool → List Char → Except SyntaxError (List Json × List Char)
  | 0, _, _ => .error .eofInArray
  | bound + 1, first, text => do
    match ← nextItem first text with
    | (false, text) => .ok ([], text)
    | (true, text) =>
      let (item, text) ← value text
      let (items, text) ← arrayItems bound false text
      .ok (item :: items, text)

/-- The members of an object behind its opening brace, or behind a member. -/
def objectMembers :
    Nat → Bool → List Char → Except SyntaxError (List (String × Json) × List Char)
  | 0, _, _ => .error .eofInObject
  | bound + 1, first, text => do
    match ← nextKey first text with
    | (none, text) => .ok ([], text)
    | (some key, text) =>
      let ((), text) ← colon text
      let (json, text) ← value text
      let (members, text) ← objectMembers bound false text
      .ok ((key, json) :: members, text)

end Containers

/-- One value, with so many levels of nesting to go. Repeated keys are kept. -/
def valueWithin : Nat → List Char → Except SyntaxError (Json × List Char)
  | levels, text =>
    match head text with
    | .error e => .error e
    | .ok (.null, rest) => .ok (.null, rest)
    | .ok (.bool b, rest) => .ok (.bool b, rest)
    | .ok (.number n, rest) => .ok (.number n, rest)
    | .ok (.string text, rest) => .ok (.string text, rest)
    | .ok (.array, rest) =>
      match levels with
      | 0 => .error .recursionLimit
      | levels + 1 =>
        (arrayItems (valueWithin levels) rest.length true rest).map
          fun (items, rest) => (.array items, rest)
    | .ok (.object, rest) =>
      match levels with
      | 0 => .error .recursionLimit
      | levels + 1 =>
        (objectMembers (valueWithin levels) rest.length true rest).map
          fun (members, rest) => (.object members, rest)

/-- The value that a text starts with, repeated keys kept, and the text behind it. -/
def parseFirst (text : String) : Except SyntaxError (Json × List Char) :=
  valueWithin maxNesting text.toList

/-- The value that a whole text stands for; a repeated key has its last value. -/
def parse (text : String) : Except SyntaxError Json := do
  let (json, rest) ← parseFirst text
  if rest.all Text.isSpace then .ok json.distinct else .error .trailingCharacters

end ShapeCodec.Json
