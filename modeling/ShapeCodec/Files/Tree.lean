import ShapeCodec.Files
/-! A system in memory. Its files are texts by the places they are in, in a tree of directories. The
directories above the root of the tree are there too, with nothing in them but what is put there. -/
namespace ShapeCodec.Files

/-- Directories that are always there. -/
inductive Base where
  /-- So many levels above the root of the tree, which is the working directory. -/
  | above (levels : Nat)
  /-- Where absolute paths start. -/
  | top
  deriving DecidableEq

/-- The names that lead to a place from a base. -/
structure Place where
  base : Base
  names : List String
  deriving DecidableEq

namespace Place

def root : Place :=
  ⟨.above 0, []⟩

/-- The place that a path starts from. -/
def start (path : String) : Place :=
  if isAbsolute path then ⟨.top, []⟩ else root

def child (place : Place) (name : String) : Place :=
  { place with names := place.names ++ [name] }

/-- The directory that a place lies in; the topmost one lies in itself. -/
def parent (place : Place) : Place :=
  match place.names, place.base with
  | [], .above levels => ⟨.above (levels + 1), []⟩
  | names, _ => { place with names := names.dropLast }

def isAbove (place other : Place) : Bool :=
  place.base = other.base && place.names.isPrefixOf other.names &&
    place.names.length < other.names.length

end Place

structure FileTree where
  files : List (Place × String)
  /-- Directories apart from those that files lie in. -/
  directories : List Place

namespace FileTree

/-- The tree of files by their paths from its root. -/
def ofFiles (files : List (String × String)) : FileTree :=
  ⟨files.map fun (path, text) => (⟨.above 0, segments path⟩, text), []⟩

def text? (t : FileTree) (place : Place) : Option String :=
  t.files.lookup place

def isDirectory (t : FileTree) (place : Place) : Bool :=
  place.names.isEmpty || place ∈ t.directories || t.directories.any (place.isAbove ·) ||
    t.files.any fun file => place.isAbove file.1

/-- Follows segments from a place. Whatever has segments behind it has to be a directory. -/
def follow (t : FileTree) (place : Place) : List String → Except OsError Place
  | [] => .ok place
  | segment :: rest =>
    if t.isDirectory place then
      if isIdle segment then t.follow place rest
      else if segment = ".." then t.follow place.parent rest
      else t.follow (place.child segment) rest
    else .error (if (t.text? place).isSome then .notDirectory else .notFound)

/-- The place that a path leads to, whether or not something is there. -/
def place (t : FileTree) (path : String) : Except OsError Place :=
  if path.isEmpty then .error .notFound else t.follow (.start path) (segments path)

def readText (t : FileTree) (path : String) : Except OsError String := do
  let place ← t.place path
  match t.text? place with
  | some text => .ok text
  | none => .error (if t.isDirectory place then .isDirectory else .notFound)

/-- The files with a text put in a place, which keeps its position if it is taken. -/
def put (place : Place) (text : String) : List (Place × String) → List (Place × String)
  | [] => [(place, text)]
  | (other, old) :: rest =>
    if other = place then (place, text) :: rest else (other, old) :: put place text rest

/-- The segments of a path up to the slashes at its end. -/
def segmentsToSlash (path : String) : List String :=
  ((segments path).reverse.dropWhile (·.isEmpty)).reverse

/-- Writes a file into a directory that is there. A path with a slash at its end is no file. -/
def writeText (t : FileTree) (path text : String) : Except OsError FileTree :=
  if path.isEmpty then .error .notFound
  else do
    let above ← t.follow (.start path) ((segmentsToSlash path).dropLast ++ [""])
    match fileName? path with
    | none => .error .isDirectory
    | some name =>
      if t.isDirectory (above.child name) then .error .isDirectory
      else .ok { t with files := put (above.child name) text t.files }

def isTaken (t : FileTree) (place : Place) : Bool :=
  t.isDirectory place || (t.text? place).isSome

section Directories

variable (start : Place)

/-- Makes one directory, in a directory that is there. -/
def makeDirectory (t : FileTree) (above : List String) (name : String) :
    Except OsError FileTree := do
  let place ← t.follow start (above ++ [""])
  if name = ".." ∨ t.isTaken (place.child name) then .error .exists
  else .ok { t with directories := t.directories ++ [place.child name] }

def leadsToDirectory (t : FileTree) (path : List String) : Bool :=
  match t.follow start path with
  | .ok place => t.isDirectory place
  | .error _ => false

/-- Makes one directory, unless it is there. -/
def ensureDirectory (t : FileTree) (above : List String) (name : String) :
    Except OsError FileTree :=
  match t.makeDirectory start above name with
  | .ok t => .ok t
  | .error e => if t.leadsToDirectory start (above ++ [name]) then .ok t else .error e

/-- Makes a directory, and first the one that it lies in if that is missing. The segments of the
path come last to first. -/
def ensureDirectories (t : FileTree) : List String → Except OsError FileTree
  | [] => .ok t
  | name :: above =>
    if isIdle name then t.ensureDirectories above
    else match t.ensureDirectory start above.reverse name with
      | .error .notFound => do
        (← t.ensureDirectories above).ensureDirectory start above.reverse name
      | done => done

end Directories

/-- Makes the directory of a path, and those it lies in. The empty path needs none. -/
def createDirectories (t : FileTree) (path : String) : Except OsError FileTree :=
  t.ensureDirectories (.start path) (segments path).reverse

def kind? (t : FileTree) (path : String) : Option Kind :=
  match t.place path with
  | .error _ => none
  | .ok place =>
    if t.isDirectory place then some .directory
    else if (t.text? place).isSome then some .file
    else none

/-- The name that a place has in a directory, if it lies below it. -/
def nameBelow? (directory place : Place) : Option String :=
  if directory.isAbove place then place.names[directory.names.length]? else none

def names (t : FileTree) (path : String) : List String :=
  match t.place path with
  | .error _ => []
  | .ok directory =>
    ((t.files.map Prod.fst ++ t.directories).filterMap (nameBelow? directory)).eraseDups

end FileTree

/-- A system in memory: its files, and what has been printed on its two outputs. -/
structure Host where
  tree : FileTree
  stdout : String
  stderr : String

namespace Host

/-- A system with files, and nothing printed yet. -/
def ofTree (t : FileTree) : Host :=
  ⟨t, "", ""⟩

/-- The host after an operation on its files that may fail, which leaves them as they were if it
does. -/
def attempt (operation : FileTree → Except OsError FileTree) :
    StateM Host (Except OsError Unit) :=
  fun h =>
    match operation h.tree with
    | .ok t => (.ok (), { h with tree := t })
    | .error e => (.error e, h)

instance : FileSystem (StateM Host) where
  readText path := fun h => (h.tree.readText path, h)
  writeText path text := attempt fun t => t.writeText path text
  createDirectories path := attempt fun t => t.createDirectories path
  kind? path := fun h => (h.tree.kind? path, h)
  names path := fun h => (h.tree.names path, h)
  print text := modify fun h => { h with stdout := h.stdout ++ text }
  report text := modify fun h => { h with stderr := h.stderr ++ text }

end Host

end ShapeCodec.Files
