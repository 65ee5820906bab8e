import ShapeCodec.Document.Decoder
import ShapeCodec.Files.Glob
import ShapeCodec.Files.Tree
import ShapeCodec.Filter.Path.Parser
import ShapeCodec.Listing
import ShapeCodec.Value.Json
/-! The commands: list a generated codec, write plain JSON documents with it, or read documents with
it and show them as plain JSON. What is printed is printed at once, and nothing takes it back. The
language of filters is a parameter. -/
namespace ShapeCodec

open Files (FileSystem FileTree Host OsError PatternError)

/-- What to do with a codec. -/
inductive Action where
  | plan (out : Option String)
  | encode (type : String) (filter : Option String) (input : List String) (out : Option String)
  | decode (type : String) (input : List String)
  deriving DecidableEq

structure Command where
  /-- Paths and patterns of the schema documents. -/
  schema : List String
  stubUnused : Bool
  action : Action
  /-- Whether to colour labels and marks. -/
  color : Bool
  deriving DecidableEq

inductive CommandError where
  | pattern (error : PatternError)
  | noMatch (pattern : String)
  | load (error : LoadError)
  | noCallSite (shape : Shape)
  | unreadable (path : String) (error : OsError)
  | malformed (path : String) (error : Json.SyntaxError)
  | filter (path : String) (error : FilterError)
  | misfit (path : String) (shape : Shape) (error : CodecError)
  | codec (error : CodecError)
  | directory (error : OsError)
  | unwritable (path : String) (error : OsError)
  deriving DecidableEq

def CommandError.message : CommandError → String
  | pattern error => error.message
  | noMatch text => "glob pattern matched no files: " ++ text
  -- the text of a file fault names its cause, which is then given once more
  | load (.io path error) => (LoadError.io path error).message ++ ": " ++ error.message
  | load error => error.message
  | noCallSite shape =>
    "no call site for `" ++ shape.text ++ "` in the schema; add it to `calls`"
  | unreadable path error => "failed to read source file " ++ path ++ ": " ++ error.message
  | malformed path error =>
    "failed to parse JSON source file (" ++ path ++ "): " ++ error.message
  | filter path error =>
    "failed to apply jq expression to source file (" ++ path ++ "): " ++ error.message
  | misfit path shape error => path ++ " does not fit `" ++ shape.text ++ "`: " ++ error.message
  | codec error => error.message
  | directory error => error.message
  | unwritable path error => "failed to write " ++ path ++ ": " ++ error.message

namespace Command

/-- Text in a terminal style, if styles are wanted. -/
def styled (color : Bool) (style text : String) : String :=
  if color then "\x1b[" ++ style ++ "m" ++ text ++ "\x1b[0m" else text

def label (color : Bool) : Severity → String
  | .error => styled color "1;31" Severity.error.text
  | .warning => styled color "1;33" Severity.warning.text

def diagnosticLine (color : Bool) (d : Diagnostic) : String :=
  label color d.severity ++ ": " ++ d.detail ++ "\n"

def errorLine (color : Bool) (e : CommandError) : String :=
  label color .error ++ ": " ++ e.message ++ "\n"

def successLine (color : Bool) (path : String) : String :=
  styled color "32" "✅" ++ " " ++ path ++ "\n"

def failureLine (color : Bool) (path message : String) : String :=
  styled color "31" "❌" ++ " " ++ path ++ ": " ++ message ++ "\n"

section Steps

variable {m : Type → Type} [Monad m] [FileSystem m]

/-- A step of a command, which a fault ends. -/
abbrev Step (m : Type → Type) := ExceptT CommandError m

/-- A file operation as a step. -/
def attempt {α : Type} (fault : OsError → CommandError) (operation : m (Except OsError α)) :
    Step m α := do
  match ← (operation : m _) with
  | .ok a => pure a
  | .error e => throw (fault e)

/-- The paths that a path or pattern stands for. -/
def resolveOne (path : String) : Step m (List String) := do
  if Files.Glob.isPattern path then
    match ← (Files.Glob.expand path : m _) with
    | .error e => throw (.pattern e)
    | .ok [] => throw (.noMatch path)
    | .ok paths => pure paths
  else pure [path]

def resolve (paths : List String) : Step m (List String) :=
  List.flatten <$> paths.mapM resolveOne

/-- Reads a schema document and adds it to those before it. -/
def loadDocument (done : Schema × Options) (path : String) : Step m (Schema × Options) := do
  let text ← attempt (fun e => .load (.io path e)) (FileSystem.readText path)
  match Document.addText done path text with
  | .ok done => pure done
  | .error e => throw (.load e)

/-- Loads the schema documents in order, generates their codec and reports the diagnostics. -/
def generate (c : Command) : Step m (Schema × Generation) := do
  let paths ← resolve c.schema
  let (s, options) ← paths.foldlM loadDocument (Schema.empty, ⟨false⟩)
  let g := Generation.ofSchema s (options.merge ⟨c.stubUnused⟩)
  (g.diagnostics.forM fun d => FileSystem.report (diagnosticLine c.color d) : m Unit)
  pure (s, g)

/-- The shape of a type expression, which has to have an entry. -/
def entryShape (codec : Codec) (expression : String) : Except CommandError Shape :=
  let shape := Shape.ofText expression
  if (codec.entry? shape).isSome then .ok shape else .error (.noCallSite shape)

/-- Writes a text into a file, or prints it with a line break. -/
def emit (out : Option String) (text : String) : Step m Unit :=
  match out with
  | none => (FileSystem.print (text ++ "\n") : m Unit)
  | some path => do
    attempt .directory (FileSystem.createDirectories (Files.parent path))
    attempt (.unwritable path) (FileSystem.writeText path text)

/-- Shows the listing of a codec, and tells whether there were no errors. -/
def plan (g : Generation) (out : Option String) : Step m Bool := do
  emit out g.codec.listing
  pure !g.hasErrors

/-- The documents that a source text holds: itself, or the outputs of a filter. -/
def documents (language : Filter.Language) (filter : Option String) (path text : String) :
    Except CommandError (List Json) :=
  match Json.parse text with
  | .error e => .error (.malformed path e)
  | .ok json =>
    match filter with
    | none => .ok [json]
    | some expression =>
      match Filter.apply language expression json with
      | .ok outputs => .ok outputs
      | .error e => .error (.filter path e)

/-- The text of one document. -/
def encodeDocument (s : Schema) (codec : Codec) (shape : Shape) (path : String) (json : Json) :
    Except CommandError String :=
  match Value.ofJson s json shape with
  | .error e => .error (.misfit path shape e)
  | .ok value =>
    match codec.serialize shape value with
    | .error e => .error (.codec e)
    | .ok text => .ok text

/-- The texts of the documents in one source file. -/
def encodeSource (language : Filter.Language) (s : Schema) (codec : Codec) (shape : Shape)
    (filter : Option String) (path : String) : Step m (List String) := do
  let text ← attempt (.unreadable path) (FileSystem.readText path)
  let found ← ExceptT.mk (pure (documents language filter path text))
  ExceptT.mk (pure (found.mapM (encodeDocument s codec shape path)))

def encode (language : Filter.Language) (s : Schema) (g : Generation) (type : String)
    (filter : Option String) (input : List String) (out : Option String) : Step m Bool := do
  let shape ← ExceptT.mk (pure (entryShape g.codec type))
  let paths ← resolve input
  let texts ← paths.mapM (encodeSource language s g.codec shape filter)
  emit out ("\n".intercalate texts.flatten)
  pure true

/-- The plain JSON of one source file, or what is wrong with it. -/
def decodeSource (s : Schema) (codec : Codec) (shape : Shape) (path : String) :
    m (Except String Json) := do
  match ← FileSystem.readText path with
  | .error e => pure (.error ("failed to read " ++ path ++ ": " ++ e.message))
  | .ok text =>
    match codec.deserialize shape text with
    | .error e => pure (.error e.message)
    | .ok value => pure (.ok (Value.toJson s value))

/-- Shows what became of a source file, and tells whether it could be read. -/
def showDecoded (color : Bool) (path : String) : Except String Json → m Bool
  | .ok json => do
    FileSystem.report (successLine color path)
    FileSystem.print (json.pretty ++ "\n")
    pure true
  | .error message => do
    FileSystem.report (failureLine color path message)
    pure false

/-- All source files are read before anything is shown. -/
def decode (s : Schema) (g : Generation) (type : String) (input : List String) (color : Bool) :
    Step m Bool := do
  let shape ← ExceptT.mk (pure (entryShape g.codec type))
  let paths ← resolve input
  let results ← (paths.mapM (decodeSource s g.codec shape) : m _)
  let shown ← ((paths.zip results).mapM fun (path, result) => showDecoded color path result : m _)
  pure (shown.all id)

/-- Does what a command asks for, and tells whether it went well. -/
def perform (language : Filter.Language) (c : Command) : Step m Bool := do
  let (s, g) ← generate c
  match c.action with
  | .plan out => plan g out
  | .encode type filter input out => encode language s g type filter input out
  | .decode type input => decode s g type input c.color

/-- Runs a command and tells its exit code. A fault that ends it is reported. -/
def execute (language : Filter.Language) (c : Command) : m Nat := do
  match ← (perform language c : Step m Bool).run with
  | .ok succeeded => pure (if succeeded then 0 else 1)
  | .error e =>
    FileSystem.report (errorLine c.color e)
    pure 1

end Steps

end Command

/-- What a command leaves behind, apart from files. -/
structure Outcome where
  code : Nat
  stdout : String
  stderr : String
  deriving DecidableEq

/-- Runs a command with path filters on files in memory. -/
def Command.run (c : Command) : StateM FileTree Outcome := fun t =>
  let (code, host) := (execute PathFilter.language c : StateM Host Nat).run (.ofTree t)
  (⟨code, host.stdout, host.stderr⟩, host.tree)

end ShapeCodec
