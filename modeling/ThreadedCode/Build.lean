import ThreadedCode.Compilation
import ThreadedCode.Disk
import ThreadedCode.Interpreter.Source
import ThreadedCode.Table.Binary
import ThreadedCode.Table.Listing
import ThreadedCode.Text.Encoding

/-!
# Builds

A build is a compiled dictionary together with its source. `Settings` say how sources are compiled;
building from a file, writing the interpreter source and saving or loading tables go through a disk.
-/

namespace ThreadedCode

structure Build where
  source : String
  filename : Option String
  compilation : Compilation

inductive Build.Error where
  | file (reason : FileError)
  /-- A path has a NUL character, so no file can have it. -/
  | impossiblePath
  /-- A source file is not UTF-8. -/
  | invalidText
  | compile (failure : Compiler.Failure)
  | render (reason : Table.ShapeError)
  | encode (reason : Table.EncodeError)
  | decode (reason : Table.DecodeError)
  deriving DecidableEq

structure Report (α : Type) where
  output : String := ""
  events : Array Event := #[]
  result : Except Build.Error α

structure Settings where
  order : Order := .shadowing
  /-- Whether a recorded problem makes a build fail. -/
  strict : Bool := false
  /-- Whether progress is printed. -/
  debug : Bool := false

namespace Build

def impossiblePathText : String := "embedded null byte"

def isPossiblePath (path : String) : Bool :=
  !path.toList.contains '\x00'

def readFile {m : Type → Type} [Monad m] (disk : Disk m) (path : String) :
    m (Except Error (List UInt8)) := do
  if isPossiblePath path then return (← disk.read path).mapError .file
  else return .error .impossiblePath

def writeFile {m : Type → Type} [Monad m] (disk : Disk m) (path : String) (content : List UInt8) :
    m (Except Error Unit) := do
  if isPossiblePath path then return (← disk.write path content).mapError .file
  else return .error .impossiblePath

def interpreterSource (build : Build) : Except Table.ShapeError String :=
  Interpreter.render build.compilation.sections build.compilation.table

def save {m : Type → Type} [Monad m] (disk : Disk m) (build : Build) (path : String) :
    m (Except Error Unit) := do
  match build.compilation.table.encode with
  | .error reason => return .error (.encode reason)
  | .ok bytes => writeFile disk path bytes

def load {m : Type → Type} [Monad m] (disk : Disk m) (path : String) :
    m (Except Error Table) := do
  match ← readFile disk path with
  | .error reason => return .error reason
  | .ok bytes => return (Table.decode bytes).mapError .decode

end Build

/-- The text of a source file: UTF-8, with the line ends of every system made into newlines. -/
def readSource {m : Type → Type} [Monad m] (disk : Disk m) (path : String) :
    m (Except Build.Error String) := do
  match ← Build.readFile disk path with
  | .error reason => return .error reason
  | .ok bytes =>
    match Text.ofUtf8? bytes with
    | none => return .error .invalidText
    | some text => return .ok (Text.unifyNewlines text)

namespace Settings

def summary (compilation : Compilation) : String :=
  let table := compilation.table
  "Compiled " ++ Text.decimal table.compiledCount ++ " words (" ++
    Text.decimal table.nativeCount ++ " native, " ++ Text.decimal table.variableNames.size ++
    " variables)\n" ++
    String.join (compilation.diagnostics.toList.map fun diagnostic =>
      "  " ++ diagnostic.message ++ "\n")

/-- Compiles a source; strict settings turn the first recorded problem into a failure. -/
def compile (settings : Settings) (source : String) (filename : Option String) : Report Build :=
  let attempt := Compilation.ofText source filename settings.order
  match attempt.outcome with
  | .error failure => { events := attempt.events, result := .error (.compile failure) }
  | .ok compilation =>
    let output := if settings.debug then summary compilation else ""
    let build : Build := { source, filename, compilation }
    match compilation.diagnostics[0]? with
    | some diagnostic =>
      if settings.strict then
        { output, events := attempt.events, result := .error (.compile (.fault diagnostic)) }
      else { output, events := attempt.events, result := .ok build }
    | none => { output, events := attempt.events, result := .ok build }

def compileFile {m : Type → Type} [Monad m] (settings : Settings) (disk : Disk m) (path : String) :
    m (Report Build) := do
  match ← readSource disk path with
  | .error reason => return { result := .error reason }
  | .ok source => return settings.compile source (some path)

/-- Writes the interpreter source of a build. The file is emptied first. -/
def write {m : Type → Type} [Monad m] (settings : Settings) (disk : Disk m) (build : Build)
    (path : String) : m (Report Unit) := do
  match ← Build.writeFile disk path [] with
  | .error reason => return { result := .error reason }
  | .ok () =>
    match build.interpreterSource with
    | .error reason => return { result := .error (.render reason) }
    | .ok text =>
      match ← Build.writeFile disk path (Text.utf8Bytes text.toList) with
      | .error reason => return { result := .error reason }
      | .ok () =>
        let output := if settings.debug then "Wrote " ++ path ++ "\n" else ""
        return { output, result := .ok () }

end Settings

end ThreadedCode
