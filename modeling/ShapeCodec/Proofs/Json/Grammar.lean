import ShapeCodec.Json.Parser
/-! The grammar of JSON text (RFC 8259), and the values that its texts stand for. Nesting has no
limit here. Two things that the grammar leaves to readers are settled: an escape of half a surrogate
pair stands for no character, and which numbers are integers depends on what 64 bits hold. Which
float a numeral stands for is left open. -/
namespace ShapeCodec.Json

/-- Whitespace between tokens. -/
def Blank (text : List Char) : Prop :=
  ∀ c ∈ text, Text.isSpace c = true

theorem blank_nil : Blank [] := by
  simp [Blank]

theorem blank_space : Blank [' '] := by
  simp [Blank, Text.isSpace]

theorem blank_newline : Blank ['\n'] := by
  simp [Blank, Text.isSpace]

theorem Blank.append {a b : List Char} (ha : Blank a) (hb : Blank b) : Blank (a ++ b) :=
  List.forall_mem_append.2 ⟨ha, hb⟩

section Number

/-- One digit or more. -/
def Digits (run : List Char) : Prop :=
  run ≠ [] ∧ ∀ c ∈ run, c.isDigit = true

/-- The digits in front of the point. A leading zero stands alone. -/
def Whole (run : List Char) : Prop :=
  Digits run ∧ (run.head? = some '0' → run = ['0'])

/-- An optional fraction. -/
inductive Fraction : List Char → Prop
  | absent : Fraction []
  | present {run} : Digits run → Fraction ('.' :: run)

/-- An optional exponent. -/
inductive Exponent : List Char → Prop
  | absent : Exponent []
  | present {mark sign run} : mark = 'e' ∨ mark = 'E' → sign ∈ [[], ['+'], ['-']] → Digits run →
      Exponent (mark :: (sign ++ run))

def minus (negative : Bool) : List Char :=
  if negative then ['-'] else []

/-- An integer of this magnitude fits in 64 bits, with a sign if it is negative and without one
otherwise. There is no negative zero. -/
def Held (negative : Bool) (n : Nat) : Prop :=
  if negative then 0 < n ∧ n ≤ 9223372036854775808 else n ≤ 18446744073709551615

/-- Numerals without fraction and exponent stand for integers as long as these fit. -/
inductive Number.Denotes : Number → List Char → Prop
  | integer (negative : Bool) {whole} : Whole whole → Held negative (Decimal.value 0 whole) →
      Denotes (.integer (if negative then -Decimal.value 0 whole else Decimal.value 0 whole))
        (minus negative ++ whole)
  | float (x : Float) (negative : Bool) {whole fraction exponent} : Whole whole →
      Fraction fraction → Exponent exponent →
      (fraction = [] → exponent = [] → ¬ Held negative (Decimal.value 0 whole)) →
      Denotes (.float x) (minus negative ++ whole ++ fraction ++ exponent)

end Number

section String

/-- The character stands for itself in a string. -/
def IsPlain (c : Char) : Prop :=
  c ≠ '"' ∧ c ≠ '\\' ∧ 0x20 ≤ c.toNat

instance (c : Char) : Decidable (IsPlain c) :=
  inferInstanceAs (Decidable (_ ∧ _ ∧ _))

/-- The letters of escapes, each with the character it stands for. -/
def shortEscapes : List (Char × Char) :=
  [('"', '"'), ('\\', '\\'), ('/', '/'), ('b', '\x08'), ('f', '\x0c'), ('n', '\n'), ('r', '\r'),
    ('t', '\t')]

/-- Four hexadecimal digits. -/
def CodeUnit (code : Nat) (digits : List Char) : Prop :=
  digits.length = 4 ∧ hexNumber? 0 digits = some code

def IsHigh (code : Nat) : Prop :=
  0xD800 ≤ code ∧ code ≤ 0xDBFF

def IsLow (code : Nat) : Prop :=
  0xDC00 ≤ code ∧ code ≤ 0xDFFF

/-- What stands for a character behind a backslash. -/
inductive Escape : Char → List Char → Prop
  | short {letter c} : (letter, c) ∈ shortEscapes → Escape c [letter]
  | unit {code digits} : CodeUnit code digits → ¬ IsHigh code → ¬ IsLow code →
      Escape (Char.ofNat code) ('u' :: digits)
  | pair {high low highDigits lowDigits} : CodeUnit high highDigits → IsHigh high →
      CodeUnit low lowDigits → IsLow low →
      Escape (Char.ofNat (0x10000 + (high - 0xD800) * 0x400 + (low - 0xDC00)))
        ('u' :: (highDigits ++ '\\' :: 'u' :: lowDigits))

/-- What stands for the characters of a string between its quotes. -/
inductive Content : List Char → List Char → Prop
  | nil : Content [] []
  | plain {c content text} : IsPlain c → Content content text → Content (c :: content) (c :: text)
  | escaped {c content escape text} : Escape c escape → Content content text →
      Content (c :: content) ('\\' :: (escape ++ text))

end String

/-- What stands in front of an entry: whitespace, and a comma inside it unless the entry is the
first. -/
inductive Opening : Bool → List Char → Prop
  | first {blanks} : Blank blanks → Opening true blanks
  | later {blanks lead} : Blank blanks → Blank lead → Opening false (blanks ++ ',' :: lead)

/-- Entries up to a closing bracket, either all of them or those behind the first. -/
inductive Entries {α : Type} (entry : α → List Char → Prop) : Bool → List α → List Char → Prop
  | nil {first blanks} : Blank blanks → Entries entry first [] blanks
  | cons {first opening body tail a as} : Opening first opening → entry a body →
      Entries entry false as tail → Entries entry first (a :: as) (opening ++ (body ++ tail))

/-- A key, a colon and a value. -/
inductive Member (value : Json → List Char → Prop) : String × Json → List Char → Prop
  | mk {key name blanks lead body json} : Content key name → Blank blanks → Blank lead →
      value json body →
      Member value (String.ofList key, json)
        ('"' :: (name ++ '"' :: (blanks ++ ':' :: (lead ++ body))))

/-- The text is one value, without whitespace around it, and stands for the JSON value. Members are
kept in order, repeated keys included. -/
inductive Denotes : Json → List Char → Prop
  | null : Denotes .null ['n', 'u', 'l', 'l']
  | true : Denotes (.bool true) ['t', 'r', 'u', 'e']
  | false : Denotes (.bool false) ['f', 'a', 'l', 's', 'e']
  | number {n text} : Number.Denotes n text → Denotes (.number n) text
  | string {content text} : Content content text →
      Denotes (.string (String.ofList content)) ('"' :: (text ++ ['"']))
  | array {items text} : Entries Denotes true items text →
      Denotes (.array items) ('[' :: (text ++ [']']))
  | object {members text} : Entries (Member Denotes) true members text →
      Denotes (.object members) ('\x7b' :: (text ++ ['\x7d']))

/-- The text is a JSON document for the value. -/
def Document (json : Json) (text : List Char) : Prop :=
  ∃ lead body trail, text = lead ++ (body ++ trail) ∧ Blank lead ∧ Denotes json body ∧ Blank trail

section Beginning

/-- The characters that a value begins with. -/
def Opens (c : Char) : Prop :=
  c ∈ ['\x7b', '[', '"', 'n', 't', 'f', '-'] ∨ c.isDigit = true

theorem Opens.ne {c d : Char} (h : Opens c) (hd : d ∈ [' ', '\t', '\r', '\n', ',', '\x7d', ']']) :
    c ≠ d := by
  rintro rfl
  simp only [List.mem_cons, List.not_mem_nil, or_false] at hd
  unfold Opens at h
  rcases hd with rfl | rfl | rfl | rfl | rfl | rfl | rfl <;> exact absurd h (by decide)

theorem Opens.not_space {c : Char} (h : Opens c) : Text.isSpace c = false := by
  simp only [Text.isSpace, Bool.or_eq_false_iff, decide_eq_false_iff_not]
  exact ⟨⟨⟨h.ne (by simp), h.ne (by simp)⟩, h.ne (by simp)⟩, h.ne (by simp)⟩

/-- The text begins like a value. -/
def Begins (text : List Char) : Prop :=
  ∃ c, text.head? = some c ∧ Opens c

theorem Begins.ne_nil {text : List Char} (h : Begins text) : text ≠ [] := by
  rintro rfl
  obtain ⟨c, hhead, -⟩ := h
  cases hhead

theorem Begins.append {text : List Char} (h : Begins text) (more : List Char) :
    Begins (text ++ more) := by
  obtain ⟨c, hhead, hopens⟩ := h
  exact ⟨c, by simp [hhead], hopens⟩

theorem Begins.forall {text : List Char} {P : Char → Prop} (h : Begins text)
    (hP : ∀ c, Opens c → P c) : ∀ c ∈ text.head?, P c := by
  obtain ⟨c, hhead, hopens⟩ := h
  rw [hhead]
  rintro _ ⟨⟩
  exact hP c hopens

end Beginning

section Nesting

mutual

/-- The number of arrays and objects inside each other. -/
def nesting : Json → Nat
  | array items => nestingOfItems items + 1
  | object members => nestingOfMembers members + 1
  | _ => 0

def nestingOfItems : List Json → Nat
  | [] => 0
  | item :: rest => max item.nesting (nestingOfItems rest)

def nestingOfMembers : List (String × Json) → Nat
  | [] => 0
  | (_, value) :: rest => max value.nesting (nestingOfMembers rest)

end

theorem nestingOfItems_le {levels : Nat} {items : List Json} :
    nestingOfItems items ≤ levels ↔ ∀ item ∈ items, item.nesting ≤ levels := by
  induction items with
  | nil => simp [nestingOfItems]
  | cons item items ih => rw [nestingOfItems, Nat.max_le, ih, List.forall_mem_cons]

theorem nestingOfMembers_le {levels : Nat} {members : List (String × Json)} :
    nestingOfMembers members ≤ levels ↔ ∀ member ∈ members, member.2.nesting ≤ levels := by
  induction members with
  | nil => simp [nestingOfMembers]
  | cons member members ih => rw [nestingOfMembers, Nat.max_le, ih, List.forall_mem_cons]

end Nesting

end ShapeCodec.Json
