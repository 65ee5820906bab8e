import ShapeCodec.Files
import ShapeCodec.Files.Pattern
/-! Finding the paths that a pattern stands for, in alphabetical order inside each directory. -/
namespace ShapeCodec.Files.Glob

/-- No path that a system accepts has more segments than this. -/
def maxSegments : Nat := 4096

def isWildcard (c : Char) : Bool :=
  c = '*' || c = '?' || c = '[' || c = '\x7b'

/-- Whether a path is meant as a pattern. -/
def isPattern (path : String) : Bool :=
  path.toList.any isWildcard

/-- The directory in which the search for a pattern starts, and the pattern's segments. -/
def scope (pattern : String) : String × List String :=
  let (start, all) :=
    if isAbsolute pattern then ("/", (segments pattern).drop 1) else (".", segments pattern)
  (start, if all.getLast? = some "" then all.dropLast else all)

section Search

variable {m : Type → Type} [Monad m] [FileSystem m] (onlyDirectories : Bool)

def isDirectory (path : String) : m Bool := do
  return (← FileSystem.kind? path) = some .directory

/-- A path that the whole pattern stands for, if it may be a file or is a directory. -/
def found (path : String) : m (List String) := do
  if onlyDirectories then return if ← isDirectory path then [path] else []
  else return [path]

/-- The path of a name in a directory. The working directory is left out of it. -/
def below (path name : String) : String :=
  if isWorkingDirectory path then name else join path name

/-- The pattern of the segment `.` or `..` has to begin with a point. -/
def upward (tokens : List PatternToken) : List String :=
  match tokens with
  | .char '.' :: _ => ["..", "."].filter fun name => Pattern.matchesName tokens name.toList
  | _ => []

mutual

/-- The paths below `path` for the segments of a pattern, in the order in which they are found. -/
def search : Nat → List (List PatternToken) → String → m (List String)
  | 0, _, _ => pure []
  | _ + 1, [], _ => pure []
  | steps + 1, tokens :: rest, path => do
    match Pattern.literal? tokens with
    | some letters =>
      let name := String.ofList letters
      let next := below path name
      let present ←
        if name = "." ∨ name = ".." then isDirectory path
        else pure (← FileSystem.kind? next).isSome
      if present then advance steps rest next else return []
    | none =>
      if ← isDirectory path then
        let special ← (upward tokens).mapM fun name => advance steps rest (join path name)
        let children := (← FileSystem.names path).mergeSort (· ≤ ·)
        let ordinary ← children.mapM fun name => visit steps (tokens :: rest) (below path name)
        return special.flatten ++ ordinary.flatten
      else return []

/-- Goes on from a path that the segments so far stand for. -/
def advance : Nat → List (List PatternToken) → String → m (List String)
  | 0, _, _ => pure []
  | steps + 1, rest, path =>
    match rest with
    | [] => found onlyDirectories path
    | rest => search steps rest path

/-- Compares a path in a directory with the first segment, or takes any number of directories. -/
def visit : Nat → List (List PatternToken) → String → m (List String)
  | 0, _, _ => pure []
  | _ + 1, [], _ => pure []
  | steps + 1, tokens :: rest, path => do
    if tokens = [.anyDirectories] then
      let rest := rest.dropWhile (· = [.anyDirectories])
      let deeper ←
        if ← isDirectory path then search steps (tokens :: rest) path else pure []
      match rest with
      | [] => return if ← isDirectory path then path :: deeper else []
      | next :: rest => return (← compare steps next rest path) ++ deeper
    else compare steps tokens rest path

def compare : Nat → List PatternToken → List (List PatternToken) → String → m (List String)
  | 0, _, _, _ => pure []
  | steps + 1, tokens, rest, path =>
    match fileName? path with
    | some name =>
      if Pattern.matchesName tokens name.toList then advance steps rest path else pure []
    | none => pure []

end

end Search

/-- The paths that a pattern stands for. A slash at its end asks for directories. -/
def expand {m : Type → Type} [Monad m] [FileSystem m] (pattern : String) :
    m (Except PatternError (List String)) :=
  let (start, parts) := scope pattern
  let parsed : Except PatternError (List (List PatternToken)) := do
    discard (Pattern.parse pattern)
    parts.mapM Pattern.parse
  match parsed with
  | .error e => pure (.error e)
  | .ok parts =>
    .ok <$> search (endsInSlash pattern) (4 * (parts.length + maxSegments)) parts start

end ShapeCodec.Files.Glob
