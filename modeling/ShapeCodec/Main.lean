import ShapeCodec.Command
/-! The command line: reads arguments and runs a command on the real system, with path filters. -/
namespace ShapeCodec.CommandLine

open Files (FileSystem Kind OsError)

def osError (e : IO.Error) : OsError :=
  match e with
  | .noFileOrDirectory .. => .notFound
  | .alreadyExists .. => .exists
  | other => .other (toString other)

def guarded {α : Type} (operation : IO α) : IO (Except OsError α) := do
  try
    return .ok (← operation)
  catch e =>
    return .error (osError e)

instance : FileSystem IO where
  readText path := guarded (IO.FS.readFile path)
  writeText path text := guarded (IO.FS.writeFile path text)
  createDirectories path :=
    if path.isEmpty then pure (.ok ()) else guarded (IO.FS.createDirAll path)
  kind? path := do
    try
      let real ← IO.FS.realPath path
      if ← real.isDir then return some .directory
      if ← real.pathExists then return some .file
      return none
    catch _ => return none
  names path := do
    try
      let entries ← (← IO.FS.realPath path).readDir
      return entries.toList.map fun entry => entry.fileName
    catch _ => return []
  print text := IO.print text
  report text := IO.eprint text

/-- The arguments read so far. -/
structure Arguments where
  schema : List String
  input : List String
  type : Option String
  filter : Option String
  out : Option String
  stubUnused : Bool

def Arguments.start : Arguments :=
  ⟨[], [], none, none, none, false⟩

/-- The values that follow an option which takes several. -/
def valuesOf (arguments : List String) : List String × List String :=
  arguments.span fun text => text.toList.head? ≠ some '-'

/-- Reads options in any order; what is not understood is named. At most `bound` options follow. -/
def options : Nat → Arguments → List String → Except String Arguments
  | _, found, [] => .ok found
  | 0, _, text :: _ => .error text
  | bound + 1, found, text :: rest =>
    let several (set : List String → Arguments) : Except String Arguments :=
      match valuesOf rest with
      | ([], _) => .error text
      | (values, rest) => options bound (set values) rest
    let single (set : String → Arguments) : Except String Arguments :=
      match rest with
      | value :: rest => options bound (set value) rest
      | [] => .error text
    match text with
    | "--schema" | "-s" => several fun values => { found with schema := found.schema ++ values }
    | "--input" | "-i" => several fun values => { found with input := found.input ++ values }
    | "--type" | "-t" => single fun value => { found with type := some value }
    | "--jq-expr" => single fun value => { found with filter := some value }
    | "--out" | "-o" => single fun value => { found with out := some value }
    | "--emit-unused-stubs" => options bound { found with stubUnused := true } rest
    | "--verbose" | "-v" => options bound found rest
    | _ => .error text

/-- The command that arguments ask for, or the argument that is wrong or missing. -/
def command (color : Bool) : List String → Except String Command
  | [] => .error "COMMAND"
  | name :: rest => do
    let found ← options rest.length .start rest
    if found.schema.isEmpty then .error "--schema"
    let needed (option : String) (value : Option String) : Except String String :=
      match value with
      | some value => .ok value
      | none => .error option
    let action : Action ←
      match name with
      | "plan" => .ok (.plan found.out)
      | "encode" =>
        if found.input.isEmpty then .error "--input"
        else (needed "--type" found.type).map (.encode · found.filter found.input found.out)
      | "decode" =>
        if found.input.isEmpty then .error "--input"
        else (needed "--type" found.type).map (.decode · found.input)
      | other => .error other
    .ok ⟨found.schema, found.stubUnused, action, color⟩

def usage : String :=
  "usage: (plan | encode | decode) --schema PATH... [--emit-unused-stubs] [--type TYPE]\n" ++
    "         [--input PATH...] [--jq-expr FILTER] [--out PATH]\n"

end ShapeCodec.CommandLine

open ShapeCodec in
def main (arguments : List String) : IO UInt32 := do
  let color := (← IO.getEnv "NO_COLOR").isNone && (← IO.getEnv "CLICOLOR_FORCE").isSome
  match CommandLine.command color arguments with
  | .error text =>
    IO.eprint ("error: unexpected or missing argument " ++ text ++ "\n" ++ CommandLine.usage)
    return 2
  | .ok command =>
    let code : Nat ← command.execute PathFilter.language
    return code.toUInt32
