import ThreadedCode.Compiler.Definition
import ThreadedCode.Source
import ThreadedCode.Table.Basic

/-!
# Compiling a whole source

Every native word is registered before the first definition is compiled, so the bootstrap words are
known by then. A run keeps a log of what happened in order, also when it fails.
-/

namespace ThreadedCode

open Compiler (State Failure)

inductive Event where
  | reported (diagnostic : Diagnostic)
  | compiled (name : String) (index units : Nat)
  deriving DecidableEq

structure Compilation where
  sections : Source.Sections
  table : Table
  diagnostics : Array Diagnostic

def Compilation.isClean (compilation : Compilation) : Bool :=
  compilation.diagnostics.isEmpty

structure Attempt (α : Type) where
  events : Array Event := #[]
  outcome : Except Failure α

namespace Compilation

def catalogOf (natives : List Source.Native) : Catalog :=
  natives.foldl (fun catalog native =>
    catalog.register native.name native.constant native.doc native.body) {}

/-- The problems that `after` has recorded and a state with `count` problems had not. -/
def newReports (count : Nat) (after : State) : Array Event :=
  (after.diagnostics.extract count after.diagnostics.size).map .reported

def compiledEvent (index : Nat) (word : CompiledWord) : Event :=
  .compiled word.name index word.code.size

/-- Compiles definitions in order, up to the first that fails. -/
def runDefinitions (events : Array Event) (state : State) :
    List Source.Definition → Array Event × State × Option Failure
  | [] => (events, state, none)
  | definition :: rest =>
    let recorded := state.diagnostics.size
    let index := state.nextIndex
    match state.compile definition.text definition.line with
    | (after, .error failure) => (events ++ newReports recorded after, after, some failure)
    | (after, .ok entry) =>
      let compiled := (entry.map (compiledEvent index)).toArray
      runDefinitions (events ++ newReports recorded after ++ compiled) after rest

def initialState (sections : Source.Sections) (order : Order) (names : BootstrapNames)
    (filename : Option String) : Except Failure State :=
  let catalog := catalogOf sections.natives
  match Bootstrap.find catalog names with
  | .error problem => .error (.fault ⟨problem, {}⟩)
  | .ok bootstrap =>
    .ok
      { catalog
        slots := Variables.ofList (sections.variableNames.getD [])
        bootstrap, order, names, filename }

def tableOf (state : State) : Table :=
  Table.assemble state.catalog state.compiled state.slots state.bootstrap

def ofSections (sections : Source.Sections) (order : Order) (names : BootstrapNames)
    (filename : Option String) : Attempt Compilation :=
  match initialState sections order names filename with
  | .error failure => { outcome := .error failure }
  | .ok state =>
    match runDefinitions #[] state sections.definitions with
    | (events, _, some failure) => { events, outcome := .error failure }
    | (events, state, none) =>
      let recorded := state.diagnostics.size
      let (state, stopped) := state.finish
      let outcome := match stopped with
        | some limit => .error (.tooManyDigits limit)
        | none => .ok { sections, table := tableOf state, diagnostics := state.diagnostics }
      { events := events ++ newReports recorded state, outcome }

def ofText (source : String) (filename : Option String) (order : Order) : Attempt Compilation :=
  match Source.read source filename with
  | .error diagnostic => { outcome := .error (.fault diagnostic) }
  | .ok sections => ofSections sections order {} filename

end Compilation

end ThreadedCode
