import ShapeCodec.Decimal
import ShapeCodec.Json
import ShapeCodec.Json.SyntaxError
/-! Reading numbers. A float is a significand of at most 64 bits, to which further digits add only
their places, times or divided by a power of ten in floating point; hence its last bit can differ
from the nearest float. -/
namespace ShapeCodec.Json.Number

def maxSignificand : Nat := 18446744073709551615

/-- The largest power of ten that is finite. -/
def maxPower : Nat := 308

/-- The largest number of an exponent's digits that is taken at its word. -/
def maxExponent : Nat := 2147483647

/-- The next significand, if it still fits. -/
-- unfolded under a match, the comparison would be evaluated in unary
@[irreducible] def extend? (significand : Nat) (c : Char) : Option Nat :=
  let next := 10 * significand + Decimal.digitValue c
  if next ≤ maxSignificand then some next else none

/-- The digits in front of the point: the significand, and how many further digits there are. -/
def wholeDigits (significand : Nat) : List Char → Nat × Nat × List Char
  | [] => (significand, 0, [])
  | c :: rest =>
    if c.isDigit then
      match extend? significand c with
      | some next => wholeDigits next rest
      | none => (significand, 1 + (rest.takeWhile Char.isDigit).length, rest.dropWhile Char.isDigit)
    else (significand, 0, c :: rest)

/-- The digits behind the point: the significand, and how many digits went into it. Once a digit
does not fit, all that follow are ignored. -/
def fractionDigits (significand places : Nat) : List Char → Nat × Nat × List Char
  | [] => (significand, places, [])
  | c :: rest =>
    if c.isDigit then
      match extend? significand c with
      | some next => fractionDigits next (places + 1) rest
      | none => (significand, places, rest.dropWhile Char.isDigit)
    else (significand, places, c :: rest)

def power (n : Nat) : Float :=
  Float.ofScientific 1 false n

/-- The value times a power of ten, unless it is too large. Powers below the least are reached in
at most `steps` divisions. -/
def scale (value : Float) (exponent : Int) : Nat → Option Float
  | 0 => some value
  | steps + 1 =>
    if exponent.natAbs ≤ maxPower then
      if 0 ≤ exponent then
        let scaled := value * power exponent.natAbs
        if scaled.isInf then none else some scaled
      else some (value / power exponent.natAbs)
    else if value == 0 then some value
    else if 0 ≤ exponent then none
    else scale (value / power maxPower) (exponent + maxPower) steps

def signed (negative : Bool) (x : Float) : Number :=
  .float (if negative then -x else x)

/-- A float from its parts. A 64-bit significand reaches zero in three divisions. -/
def ofParts (negative : Bool) (significand : Nat) (exponent : Int) : Except SyntaxError Number :=
  match scale significand.toUInt64.toFloat exponent 4 with
  | some x => .ok (signed negative x)
  | none => .error .numberOutOfRange

/-- The exponent behind its mark, and the number with it. -/
def exponentPart (negative : Bool) (significand : Nat) (exponent : Int) (text : List Char) :
    Except SyntaxError (Number × List Char) :=
  let (down, text) :=
    match text with
    | '+' :: rest => (false, rest)
    | '-' :: rest => (true, rest)
    | _ => (false, text)
  let digits := text.takeWhile Char.isDigit
  let rest := text.dropWhile Char.isDigit
  if digits.isEmpty then .error (if rest.isEmpty then .eofInValue else .invalidNumber)
  else
    let shift := Decimal.value 0 digits
    if shift ≤ maxExponent then
      (ofParts negative significand (if down then exponent - shift else exponent + shift)).map
        (·, rest)
    else if significand ≠ 0 ∧ !down then .error .numberOutOfRange
    else .ok (signed negative 0, rest)

/-- A number without fraction and exponent. Zero with a minus sign is a float. -/
def ofInteger (negative : Bool) (significand : Nat) : Number :=
  if !negative then .integer significand
  else if significand = 0 ∨ significand > 9223372036854775808 then
    .float (-significand.toUInt64.toFloat)
  else .integer (-significand)

/-- Whether an exponent begins here, and what follows its mark. -/
def exponentMark? : List Char → Option (List Char)
  | 'e' :: rest => some rest
  | 'E' :: rest => some rest
  | _ => none

def fractionPart (negative : Bool) (significand dropped : Nat) (text : List Char) :
    Except SyntaxError (Number × List Char) :=
  match text with
  | [] => .error .eofInValue
  | c :: _ =>
    if !c.isDigit then .error .invalidNumber
    else
      let (significand, places, rest) := fractionDigits significand 0 text
      let exponent : Int := dropped - places
      match exponentMark? rest with
      | some after => exponentPart negative significand exponent after
      | none => (ofParts negative significand exponent).map (·, rest)

/-- What follows the digits in front of the point. -/
def afterWhole (negative : Bool) (significand dropped : Nat) (text : List Char) :
    Except SyntaxError (Number × List Char) :=
  match text with
  | '.' :: rest => fractionPart negative significand dropped rest
  | _ =>
    match exponentMark? text with
    | some after => exponentPart negative significand dropped after
    | none =>
      if dropped = 0 then .ok (ofInteger negative significand, text)
      else (ofParts negative significand dropped).map (·, text)

/-- The number at the start of a text, and the rest. A leading zero stands alone. -/
def read (text : List Char) : Except SyntaxError (Number × List Char) :=
  let (negative, text) :=
    match text with
    | '-' :: rest => (true, rest)
    | _ => (false, text)
  match text with
  | [] => .error .eofInValue
  | c :: rest =>
    if !c.isDigit then .error .invalidNumber
    else if c = '0' then
      match rest with
      | d :: _ => if d.isDigit then .error .invalidNumber else afterWhole negative 0 0 rest
      | [] => afterWhole negative 0 0 rest
    else
      let (significand, dropped, rest) := wholeDigits (Decimal.digitValue c) rest
      afterWhole negative significand dropped rest

end ShapeCodec.Json.Number
