import ThreadedCode.Dictionary.Bootstrap
import ThreadedCode.Dictionary.Variables
import ThreadedCode.Text.Encoding

/-!
# The state of a compilation

The state carries the growing dictionary through a run: the native catalog, the variables, the words
compiled so far, the problems met and the references that still wait for a word declared later.
Compiled words are only appended, so a word's index is fixed once it is compiled.
-/

namespace ThreadedCode

/-- How a name is looked up when several words have it. -/
inductive Order where
  /-- The newest declaration first, compiled words before native ones. -/
  | shadowing
  /-- The oldest declaration first, native words before compiled ones. -/
  | firstMatch
  deriving DecidableEq

namespace Order

def all : List Order := [.shadowing, .firstMatch]

def label : Order → String
  | .shadowing => "shadowing"
  | .firstMatch => "first-match"

def ofLabel? (text : String) : Option Order :=
  all.find? fun order => order.label == text

/-- What is said about a value that names no order, as `shown`. -/
def refusal (shown : String) : String :=
  shown ++ " is not a valid ResolutionOrder"

def choose (label : Option String) : Except String Order :=
  match label with
  | none => .error (refusal "None")
  | some text =>
    match ofLabel? text with
    | some order => .ok order
    | none => .error (refusal (Text.quoted text))

end Order

/-- A reference by constant that waits for a word declared later in the run. -/
structure PendingReference where
  /-- The place, among the compiled words, of the word that holds the reference. -/
  word : Nat
  /-- The position of the reference in that word's code. -/
  position : Nat
  name : Option String
  line : Option Int
  column : Option Int
  deriving DecidableEq

namespace Compiler

structure State where
  catalog : Catalog
  slots : Variables
  bootstrap : Bootstrap
  order : Order := .shadowing
  names : BootstrapNames := {}
  /-- The encoding of string literals. -/
  encode : Text.Codec := Text.utf8
  filename : Option String := none
  compiled : Array CompiledWord := #[]
  diagnostics : Array Diagnostic := #[]
  pending : Array PendingReference := #[]

namespace State

/-- The index that the next compiled word will have. -/
def nextIndex (state : State) : Nat :=
  state.catalog.size + state.compiled.size

/-- The index of the first word, in the order of resolution, whose name and constant satisfy
`accepts`. -/
def search (state : State) (accepts : String → String → Bool) : Option Nat :=
  let native (word : NativeWord) := accepts word.name word.constant
  let compiled (word : CompiledWord) := accepts word.name word.constant
  match state.order with
  | .shadowing =>
    match lastIndex? state.compiled compiled with
    | some i => some (state.catalog.size + i)
    | none => lastIndex? state.catalog.words native
  | .firstMatch =>
    match firstIndex? state.catalog.words native with
    | some i => some i
    | none => (firstIndex? state.compiled compiled).map (state.catalog.size + ·)

/-- The index of the word with a display name. -/
def findWord? (state : State) (name : String) : Option Nat :=
  state.search fun declared _ => declared == name

def findConstant? (state : State) (constant : String) : Option Nat :=
  state.search fun _ declared => declared == constant

/-- Records a problem at a site, if the site can be written. -/
def report (state : State) (problem : Problem) (site : Site) : Except Text.TooManyDigits State :=
  if site.isWritable then
    .ok { state with diagnostics := state.diagnostics.push ⟨problem, site⟩ }
  else .error {}

/-- Overwrites one unit of a compiled word. The value is stored as it is. -/
def setUnit (state : State) (word position : Nat) (value : Int) : State :=
  { state with
    compiled := state.compiled.modify word fun entry =>
      { entry with code := entry.code.setIfInBounds position value } }

@[simp] theorem size_compiled_setUnit (state : State) (word position : Nat) (value : Int) :
    (state.setUnit word position value).compiled.size = state.compiled.size := by
  simp [setUnit]

def holder (state : State) (reference : PendingReference) : Option String :=
  state.compiled[reference.word]?.map (·.name)

/-- Stores the index of the word that a reference names, or reports that there is none. -/
def settle (state : State) (reference : PendingReference) : Except Text.TooManyDigits State :=
  match reference.name.bind state.findConstant? with
  | some index => .ok (state.setUnit reference.word reference.position index)
  | none =>
    state.report (.unresolvedReference reference.name)
      { word := state.holder reference
        line := reference.line
        column := reference.column
        filename := state.filename }

def settleAll (state : State) : List PendingReference → State × Option Text.TooManyDigits
  | [] => (state, none)
  | reference :: rest =>
    match state.settle reference with
    | .error limit => (state, some limit)
    | .ok state => state.settleAll rest

/-- Settles the pending references with the words of the whole run. None is pending any more, also
if not all could be settled. -/
def finish (state : State) : State × Option Text.TooManyDigits :=
  { state with pending := #[] }.settleAll state.pending.toList

end State

end Compiler

end ThreadedCode
