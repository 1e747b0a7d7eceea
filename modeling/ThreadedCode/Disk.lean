/-!
# Files

What the program needs of a file system is to read and to write whole files. `FileStore` is a small
file system of its own. A path leads from the root or from the current directory to a place, and all
that it passes on the way has to be a directory.
-/

namespace ThreadedCode

inductive FileError where
  | notFound
  | isDirectory
  | notDirectory
  | nameTooLong
  deriving DecidableEq

def FileError.text : FileError → String
  | .notFound => "No such file or directory"
  | .isDirectory => "Is a directory"
  | .notDirectory => "Not a directory"
  | .nameTooLong => "File name too long"

structure Disk (m : Type → Type) where
  read : String → m (Except FileError (List UInt8))
  write : String → List UInt8 → m (Except FileError Unit)

inductive FileStore.Node where
  | file (content : List UInt8)
  | directory
  deriving DecidableEq

structure FileStore where
  /-- The names on the way to the current directory. -/
  current : List String := []
  nodes : List (List String × FileStore.Node) := []
  deriving DecidableEq

namespace FileStore

def maxNameBytes : Nat := 255

def maxPathBytes : Nat := 4095

/-- What stands at a place. The current directory and those above it are always there. -/
def find? (store : FileStore) (place : List String) : Option Node :=
  if place.isPrefixOf store.current then some .directory else store.nodes.lookup place

/-! ### Paths -/

/-- The names of a path. A slash at its front, at its end or after another one leaves an empty
name. -/
def names (path : String) : List String :=
  (path.toList.splitOnP (· == '/')).map String.ofList

def parentNames (names : List String) : List String :=
  ((names.reverse.dropWhile (· == "")).drop 1).reverse

/-- The place where a path starts: the root if it begins with a slash, else the current
directory. -/
def start (store : FileStore) (path : String) : List String :=
  if path.toList.head? = some '/' then [] else store.current

/-- Follows a name from a place, which has to be a directory. What stands at the new place is not
looked at. -/
def follow (store : FileStore) (place : List String) (name : String) :
    Except FileError (List String) :=
  match store.find? place with
  | none => .error .notFound
  | some (.file _) => .error .notDirectory
  | some .directory =>
    if name = "" || name = "." then .ok place
    else if name = ".." then .ok place.dropLast
    else if maxNameBytes < name.utf8ByteSize then .error .nameTooLong
    else .ok (place ++ [name])

def checkPath (path : String) : Except FileError Unit :=
  if path = "" then .error .notFound
  else if maxPathBytes < path.utf8ByteSize then .error .nameTooLong
  else .ok ()

def locate (store : FileStore) (path : String) : Except FileError (List String) := do
  checkPath path
  (names path).foldlM store.follow (store.start path)

/-- The place of a file to write. A path that ends in a slash can only be that of a directory, which
need not be there. -/
def locateTarget (store : FileStore) (path : String) : Except FileError (List String) := do
  checkPath path
  if (names path).getLast? = some "" then
    let parent ← (parentNames (names path)).foldlM store.follow (store.start path)
    let _ ← store.follow parent "."
    throw .isDirectory
  else (names path).foldlM store.follow (store.start path)

/-! ### Files -/

def read (store : FileStore) (path : String) : Except FileError (List UInt8) := do
  match store.find? (← store.locate path) with
  | some (.file content) => return content
  | some .directory => throw .isDirectory
  | none => throw .notFound

/-- The store with a new content for a file, which need not exist before. -/
def write (store : FileStore) (path : String) (content : List UInt8) :
    Except FileError FileStore := do
  let place ← store.locateTarget path
  match store.find? place with
  | some .directory => throw .isDirectory
  | _ =>
    return { store with
      nodes := (place, .file content) :: store.nodes.filter fun node => node.1 ≠ place }

def disk : Disk (StateM FileStore) where
  read path := do return (← get).read path
  write path content := do
    match (← get).write path content with
    | .ok store => set store; return .ok ()
    | .error reason => return .error reason

end FileStore

end ThreadedCode
