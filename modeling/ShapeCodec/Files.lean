/-! Files: paths as text, with segments between slashes, the faults of file operations in the words
of the operating system, and what a command needs of its system. Paths are relative to the working
directory. -/
namespace ShapeCodec.Files

/-- The texts between the slashes. -/
def splitSlashes : List Char → List (List Char)
  | [] => [[]]
  | c :: rest =>
    if c = '/' then [] :: splitSlashes rest
    else match splitSlashes rest with
      | [] => [[c]]
      | segment :: more => (c :: segment) :: more

def segments (path : String) : List String :=
  (splitSlashes path.toList).map String.ofList

def isAbsolute (path : String) : Bool :=
  path.toList.head? = some '/'

def endsInSlash (path : String) : Bool :=
  path.toList.getLast? = some '/'

/-- A path with a name below it. -/
def join (path name : String) : String :=
  if path.isEmpty then name
  else if endsInSlash path then path ++ name
  else path ++ "/" ++ name

/-- Whether a segment stays where it is. -/
def isIdle (segment : String) : Bool :=
  segment = "" || segment = "."

/-- Whether a path consists of points that stay where they are. -/
def isWorkingDirectory (path : String) : Bool :=
  (segments path).head? = some "." && (segments path).all isIdle

/-- The last segment, if it is a name. -/
def fileName? (path : String) : Option String :=
  match (segments path).getLast? with
  | some name => if isIdle name ∨ name = ".." then none else some name
  | none => none

/-- The path of the directory that a path lies in. Segments that stay in place do not count at the
end, neither in the path nor in what is left of it. -/
def parent (path : String) : String :=
  let above := (((segments path).reverse.dropWhile isIdle).drop 1).dropWhile isIdle
  let text := "/".intercalate above.reverse
  if text.isEmpty && isAbsolute path then "/" else text

example : parent "a/b.txt" = "a" ∧ parent "b.txt" = "" ∧ parent "a/.//b/" = "a" := by decide +kernel

inductive OsError where
  | notFound
  | isDirectory
  | notDirectory
  | exists
  /-- Any other fault, in the system's own words. -/
  | other (text : String)
  deriving DecidableEq

def OsError.message : OsError → String
  | notFound => "No such file or directory (os error 2)"
  | isDirectory => "Is a directory (os error 21)"
  | notDirectory => "Not a directory (os error 20)"
  | .exists => "File exists (os error 17)"
  | other text => text

inductive Kind where
  | file
  | directory
  deriving DecidableEq

/-- Operations on files and on the two outputs of a program, in any monad that offers them. -/
class FileSystem (m : Type → Type) where
  readText : String → m (Except OsError String)
  writeText : String → String → m (Except OsError Unit)
  /-- Makes a directory and those it lies in, as far as they are missing. -/
  createDirectories : String → m (Except OsError Unit)
  kind? : String → m (Option Kind)
  /-- The names in a directory, in any order. -/
  names : String → m (List String)
  /-- Adds text to the standard output, at once. -/
  print : String → m Unit
  /-- Adds text to the standard error output, at once. -/
  report : String → m Unit

end ShapeCodec.Files
