import ShapeCodec.Text.Hidden
/-! Quoted text for people: between double quotes, with quotes, backslashes and the common control
characters escaped by a letter and every other hidden character by its number. -/
namespace ShapeCodec.Text

/-- The letter after the backslash in the short form of a character. -/
def shortEscape? (c : Char) : Option Char :=
  match c with
  | '"' => some '"'
  | '\\' => some '\\'
  | '\n' => some 'n'
  | '\t' => some 't'
  | '\r' => some 'r'
  | '\x00' => some '0'
  | _ => none

/-- A code point in braces, in hexadecimal. -/
def numericEscape (c : Char) : List Char :=
  ['\\', 'u', '\x7b'] ++ Nat.toDigits 16 c.toNat ++ ['\x7d']

def quoteChar (c : Char) : List Char :=
  match shortEscape? c with
  | some letter => ['\\', letter]
  | none => if isHidden c then numericEscape c else [c]

def quote (text : String) : String :=
  String.ofList ('"' :: text.toList.flatMap quoteChar ++ ['"'])

example : quote "a\"\n\x7f" = "\"a\\\"\\n\\u\x7b7f\x7d\"" := by decide +kernel

end ShapeCodec.Text
