import ShapeCodec.Document
import ShapeCodec.Document.Fault
/-! Decoding schema documents. A text is read from left to right, no further than its first fault,
so that what follows the fault does not matter. A structure is an object of its fields, or an array
of them in order of declaration. -/
namespace ShapeCodec.Document

/-- Decoding takes text away from the front. -/
abbrev Decoding := StateT (List Char) (Except Fault)

def fail {α : Type} (cause : Cause) : Decoding α :=
  fun _ => .error ⟨[], cause⟩

/-- A piece of JSON. -/
def read {α : Type} (piece : List Char → Except Json.SyntaxError (α × List Char)) : Decoding α :=
  fun text =>
    match piece text with
    | .ok done => .ok done
    | .error e => .error ⟨[], .malformed e⟩

/-- Decodes a part of a value. -/
def within {α : Type} (segment : Segment) (part : Decoding α) : Decoding α :=
  fun text =>
    match part text with
    | .ok done => .ok done
    | .error fault => .error ⟨segment :: fault.path, fault.cause⟩

def wrongType {α : Type} (found : Json.Head) (expected : String) : Decoding α :=
  fail (.invalidType (describe found) expected)

def decodeString : Decoding String := do
  match ← read Json.head with
  | .string text => return text
  | found => wrongType found "a string"

def decodeBool : Decoding Bool := do
  match ← read Json.head with
  | .bool b => return b
  | found => wrongType found "a boolean"

/-- The items of an array behind its opening bracket, or behind the item before the `n`th. Each item
takes up text, whose length bounds their number. -/
def decodeItems {α : Type} (item : Decoding α) : Nat → Nat → Decoding (List α)
  | 0, _ => fail (.malformed .eofInArray)
  | bound + 1, n => do
    if ← read (Json.nextItem (n = 0)) then
      let a ← within (.index n) item
      let as ← decodeItems item bound (n + 1)
      return a :: as
    else return []

def decodeList {α : Type} (item : Decoding α) : Decoding (List α) := do
  match ← read Json.head with
  | .array => decodeItems item (← get).length 0
  | found => wrongType found "a sequence"

/-- How to decode a structure. `σ` holds the fields found so far, and `finish` takes them together;
it is given the cause to report for a missing field. -/
structure Form (σ α : Type) where
  name : String
  fields : List String
  start : σ
  field : σ → String → Decoding σ
  finish : (String → Cause) → σ → Except Cause α

namespace Form

variable {σ α : Type} (form : Form σ α)

def title : String :=
  "struct " ++ form.name

/-- The members of an object, after the fields in `seen`. Each is a field of its own, which bounds
their number. -/
def decodeMembers : Nat → List String → σ → Decoding σ
  | 0, _, found => return found
  | bound + 1, seen, found => do
    match ← within .unknown (read (Json.nextKey seen.isEmpty)) with
    | none => return found
    | some key =>
      if key ∉ form.fields then within (.key key) (fail (.unknownField key form.fields))
      else if key ∈ seen then fail (.duplicateField key)
      else
        read Json.colon
        let found ← within (.key key) (form.field found key)
        decodeMembers bound (key :: seen) found

/-- The cause to report for an array with too few items. -/
def tooShort (count : Nat) : Cause :=
  .invalidLength count
    (form.title ++ " with " ++ Decimal.text form.fields.length ++ " elements")

def finishWith (missing : String → Cause) (found : σ) : Decoding α :=
  match form.finish missing found with
  | .ok a => return a
  | .error cause => fail cause

/-- The remaining items of an array, the `n`th one next. -/
def decodeFields : List String → Nat → σ → Decoding α
  | [], n, found => do
    read Json.endArray
    form.finishWith (fun _ => form.tooShort n) found
  | key :: keys, n, found => do
    if ← read (Json.nextItem (n = 0)) then
      let found ← within (.index n) (form.field found key)
      decodeFields keys (n + 1) found
    else form.finishWith (fun _ => form.tooShort n) found

def decode : Decoding α := do
  match ← read Json.head with
  | .object =>
    let found ← form.decodeMembers (form.fields.length + 1) [] form.start
    form.finishWith .missingField found
  | .array => form.decodeFields form.fields 0 form.start
  | found => wrongType found form.title

end Form

/-- A field that has to be there. -/
def required {α : Type} (missing : String → Cause) (name : String) : Option α → Except Cause α
  | some a => .ok a
  | none => .error (missing name)

structure PropertyFields where
  name : Option String
  expression : Option String
  nullable : Bool
  itemNullable : Bool

def propertyForm : Form PropertyFields DocumentProperty where
  name := "PropertyDoc"
  fields := ["name", "type", "nullable", "item_nullable"]
  start := ⟨none, none, true, true⟩
  field found key := do
    match key with
    | "name" => return { found with name := some (← decodeString) }
    | "type" => return { found with expression := some (← decodeString) }
    | "nullable" => return { found with nullable := ← decodeBool }
    | _ => return { found with itemNullable := ← decodeBool }
  finish missing found := do
    let name ← required missing "name" found.name
    let expression ← required missing "type" found.expression
    .ok ⟨name, expression, found.nullable, found.itemNullable⟩

structure TypeFields where
  name : Option String
  properties : List DocumentProperty

def typeForm : Form TypeFields DocumentType where
  name := "TypeDoc"
  fields := ["name", "properties"]
  start := ⟨none, []⟩
  field found key := do
    match key with
    | "name" => return { found with name := some (← decodeString) }
    | _ => return { found with properties := ← decodeList propertyForm.decode }
  finish missing found := do
    let name ← required missing "name" found.name
    .ok ⟨name, found.properties⟩

def optionsForm : Form Options Options where
  name := "GeneratorOptions"
  fields := ["emit_unused_stubs"]
  start := ⟨false⟩
  field _ _ := do return ⟨← decodeBool⟩
  finish _ found := .ok found

/-- Options, or `null` in their place. -/
def decodeOptions : Decoding (Option Options) :=
  fun text =>
    match Json.head text with
    | .ok (.null, rest) => .ok (none, rest)
    | _ => (some <$> optionsForm.decode) text

def direction? (name : String) : Option Direction :=
  if name = "serialize" then some .serialize
  else if name = "deserialize" then some .deserialize
  else none

def knownDirection (name : String) : Decoding Direction :=
  match direction? name with
  | some direction => return direction
  | none => fail (.unknownVariant name ["serialize", "deserialize"])

/-- A call site behind its opening brace: the direction as the only key, with an expression. -/
def decodeCallMember : Decoding DocumentCall := do
  match ← read (Json.nextChar .eofInObject) with
  | '"' =>
    let name ← read Json.stringText
    let direction ← knownDirection name
    read Json.colon
    let expression ← within (.key name) decodeString
    match ← read (Json.nextChar .eofInObject) with
    | '\x7d' => return ⟨direction, expression⟩
    | _ => fail (.malformed .expectedValue)
  | '\x7d' => fail (.malformed .expectedValue)
  | _ => fail (.malformed .keyNotString)

def decodeCall : Decoding DocumentCall := do
  match ← read (Json.nextChar .eofInValue) with
  | '\x7b' => decodeCallMember
  | '"' =>
    let name ← read Json.stringText
    discard (knownDirection name)
    within (.key name) (fail (.invalidType "unit variant" "newtype variant"))
  | _ => fail (.malformed .expectedValue)

def documentForm : Form Document Document where
  name := "SchemaDocument"
  fields := ["types", "calls", "options"]
  start := ⟨[], [], none⟩
  field found key := do
    match key with
    | "types" => return { found with types := ← decodeList typeForm.decode }
    | "calls" => return { found with calls := ← decodeList decodeCall }
    | _ => return { found with options := ← decodeOptions }
  finish _ found := .ok found

/-- The document at the start of a text; what follows its JSON value is ignored. -/
def parse (origin text : String) : Except LoadError Document :=
  match documentForm.decode text.toList with
  | .ok (d, _) => .ok d
  | .error fault => .error (.document origin fault)

/-- Adds the document that a text stands for to the schema and options loaded so far. -/
def addText (done : Schema × Options) (origin text : String) :
    Except LoadError (Schema × Options) :=
  match parse origin text with
  | .error e => .error e
  | .ok d =>
    match add done d with
    | .ok done => .ok done
    | .error e => .error (.declare e)

end ShapeCodec.Document
