import ShapeCodec.Decimal
import ShapeCodec.Text
/-! A read position over one input, and the scanning steps that every read routine is made of. A
step keeps the cursor it reached also when it fails. -/
namespace ShapeCodec

/-- What a scanning step wanted to see when it gave up. -/
inductive Expected where
  | char (c : Char)
  /-- Content of an object or list, or its closing bracket. -/
  | contentOr (close : Char)
  | digits
  | integerInRange
  /-- Any JSON value. -/
  | value
  /-- Nesting within the limit. -/
  | depthLimit
  deriving DecidableEq

/-- The deepest chain of nested routine calls in one read or write; each call is one object or list
level. -/
def maxDepth : Nat := 128

def Expected.text : Expected → String
  | char c => "'" ++ c.toString ++ "'"
  | contentOr close => "content or '" ++ close.toString ++ "'"
  | digits => "digits"
  | integerInRange => "an integer within 64-bit range"
  | value => "a JSON value"
  | depthLimit => "nesting no deeper than " ++ Decimal.text maxDepth ++ " levels"

/-- A failure after `offset` bytes of the input. -/
structure ParseError where
  offset : Nat
  expected : Expected
  deriving DecidableEq

def ParseError.message (e : ParseError) : String :=
  "invalid JSON at position " ++ Decimal.text e.offset ++ ": expected " ++ e.expected.text

/-- The number of bytes before the position, and the text after it. -/
structure Cursor where
  offset : Nat
  rest : List Char
  deriving DecidableEq

def nullWord : List Char :=
  ['n', 'u', 'l', 'l']

abbrev Scan := EStateM ParseError Cursor

namespace Cursor

def ofText (text : String) : Cursor :=
  ⟨0, text.toList⟩

/-- The cursor after a given piece of its text. -/
def after (c : Cursor) (taken rest : List Char) : Cursor :=
  ⟨c.offset + Text.utf8Length taken, rest⟩

def skipWhile (p : Char → Bool) (c : Cursor) : Cursor :=
  c.after (c.rest.takeWhile p) (c.rest.dropWhile p)

def isExhausted (c : Cursor) : Bool :=
  c.rest.isEmpty

def peek? (c : Cursor) : Option Char :=
  c.rest.head?

/-- The first byte of what comes next. -/
def peekByte? (c : Cursor) : Option UInt8 :=
  c.peek?.bind fun d => (String.utf8EncodeChar d).head?

def error (c : Cursor) (expected : Expected) : ParseError :=
  ⟨c.offset, expected⟩

end Cursor

namespace Scan

def fail {α : Type} (expected : Expected) : Scan α :=
  fun c => .error (c.error expected) c

def skipWhitespace : Scan Unit :=
  modify (Cursor.skipWhile Text.isSpace)

/-- Steps over `word` if it comes next. -/
def tryWord (word : List Char) : Scan Bool :=
  fun c =>
    if word.isPrefixOf c.rest then .ok true (c.after word (c.rest.drop word.length))
    else .ok false c

def tryChar (c : Char) : Scan Bool :=
  tryWord [c]

def tryNull : Scan Bool :=
  tryWord nullWord

def expect (c : Char) : Scan Unit := do
  if ← tryChar c then pure () else fail (.char c)

/-- The text up to the next quote, which is stepped over. There are no escapes. -/
def readContent : Scan String :=
  fun c =>
    let content := c.rest.takeWhile (· ≠ '"')
    match c.rest.dropWhile (· ≠ '"') with
    | [] => .error ⟨c.offset + Text.utf8Length c.rest, .char '"'⟩ c
    | quote :: rest => .ok (String.ofList content) (c.after (content ++ [quote]) rest)

def readString : Scan String := do
  expect '"'
  readContent

/-- Integers that fit in 64 bits with a sign. -/
def inRange (n : Int) : Bool :=
  -9223372036854775808 ≤ n && n ≤ 9223372036854775807

/-- Continues the number `n` with the digits that follow, as long as it stays in range. A digit that
would leave the range is not stepped over, and the error points at `start`. -/
def readDigits (start : Nat) (negative : Bool) (n : Int) (offset : Nat) :
    List Char → EStateM.Result ParseError Cursor Int
  | [] => .ok n ⟨offset, []⟩
  | c :: rest =>
    if c.isDigit then
      let digit : Int := Decimal.digitValue c
      let next := if negative then 10 * n - digit else 10 * n + digit
      if inRange next then readDigits start negative next (offset + 1) rest
      else .error ⟨start, .integerInRange⟩ ⟨offset, c :: rest⟩
    else .ok n ⟨offset, c :: rest⟩

/-- An optional minus sign, then one or more digits. -/
def readInt : Scan Int64 := do
  let start ← get
  let negative ← tryChar '-'
  let first ← get
  let n ← fun c => readDigits start.offset negative 0 c.offset c.rest
  if (← get).offset = first.offset then fail .digits
  else pure (Int64.ofInt n)

/-- Characters that a skipped number may consist of, in any arrangement. -/
def isNumberPart (c : Char) : Bool :=
  c.isDigit || c = '-' || c = '+' || c = '.' || c = 'e' || c = 'E'

/-- A run of number characters with a digit somewhere. -/
def skipNumber : Scan Unit :=
  fun c =>
    let next := c.skipWhile isNumberPart
    if (c.rest.takeWhile isNumberPart).any Char.isDigit then .ok () next
    else .error (c.error .digits) next

/-- Steps over an object or list by counting its brackets outside strings; what stands between them
is not checked. `opened` is the position after the quote of the string being passed, if any. -/
def skipBrackets (depth : Nat) (opened : Option Cursor) (offset : Nat) :
    List Char → EStateM.Result ParseError Cursor Unit
  | [] =>
    match opened with
    | some start => .error ⟨offset, .char '"'⟩ start
    | none => .error ⟨offset, .value⟩ ⟨offset, []⟩
  | c :: rest =>
    let next := offset + c.utf8Size
    match opened with
    | some start => skipBrackets depth (if c = '"' then none else some start) next rest
    | none =>
      if c = '"' then skipBrackets depth (some ⟨next, rest⟩) next rest
      else if c = '\x7b' ∨ c = '[' then skipBrackets (depth + 1) none next rest
      else if c = '\x7d' ∨ c = ']' then
        if depth ≤ 1 then .ok () ⟨next, rest⟩ else skipBrackets (depth - 1) none next rest
      else skipBrackets depth none next rest

def skipWord : Scan Unit := do
  if ← tryWord nullWord then return
  if ← tryWord ['t', 'r', 'u', 'e'] then return
  if ← tryWord ['f', 'a', 'l', 's', 'e'] then return
  fail .value

/-- Steps over one value of any kind. -/
def skipValue : Scan Unit := do
  skipWhitespace
  match (← get).peek? with
  | none => fail .value
  | some c =>
    if c = '"' then discard readString
    else if c = '\x7b' ∨ c = '[' then fun cursor => skipBrackets 0 none cursor.offset cursor.rest
    else if c = '-' ∨ c.isDigit then skipNumber
    else skipWord

end Scan

end ShapeCodec
