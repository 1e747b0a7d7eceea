import ThreadedCode.Compiler.Draft
import ThreadedCode.Token.Lexer

/-!
# Compiling a definition

`State.compile` takes the text of one definition `: NAME ... ;` and appends the compiled word to the
dictionary. A definition that fails leaves nothing behind but the problems met before.
-/

namespace ThreadedCode.Compiler

def definitionMarker : List Char := [':']

def definitionTerminator : List Char := [';']

def Failure.ofScan : Token.ScanError → Failure
  | .fault diagnostic => .fault diagnostic
  | .tooManyDigits limit => .tooManyDigits limit
  | .unknownLine => .unknownLine

/-- The tokens of a body without the terminator at their end, or none if it is not there. -/
def dropTerminator? (tokens : List Token) : Option (List Token) :=
  match tokens.getLast? with
  | some token =>
    if token.kind = .word ∧ token.lexeme.toList = definitionTerminator then some tokens.dropLast
    else none
  | none => none

namespace State

def newDraft (state : State) (word : String) : Draft :=
  { word, index := state.nextIndex, filename := state.filename }

/-- Fills in a reference of the word just appended, or leaves it pending. -/
def fillReference (word : Nat) (state : State) (reference : Fixup) : State :=
  match reference.name.bind state.findConstant? with
  | some index => state.setUnit word (reference.position + 1) index
  | none =>
    { state with
      pending := state.pending.push
        { word
          position := reference.position + 1
          name := reference.name
          line := reference.line
          column := reference.column } }

/-- Appends the word of a draft. Its references may name the word itself, and those that name no
word yet stay pending. -/
def addDraft (state : State) (draft : Draft) : State :=
  let word := state.compiled.size
  let appended :=
    { state with
      compiled := state.compiled.push draft.toWord
      diagnostics := state.diagnostics ++ draft.diagnostics }
  draft.references.foldl (fillReference word) appended

def newest? (state : State) : Option CompiledWord :=
  state.compiled.back?

def compileTokens (state : State) (word : String) (tokens : List Token) :
    State × Except Failure (Option CompiledWord) :=
  match Draft.addBody state (state.newDraft word) tokens with
  | (draft, some failure) =>
    ({ state with diagnostics := state.diagnostics ++ draft.diagnostics }, .error failure)
  | (draft, none) =>
    let state := state.addDraft draft
    (state, .ok state.newest?)

/-- Goes on in the state after a report, or stops where the report could not be made. -/
def afterReport {α : Type} (state : State) (reported : Except Text.TooManyDigits State)
    (next : State → State × Except Failure α) : State × Except Failure α :=
  match reported with
  | .error limit => (state, .error (.tooManyDigits limit))
  | .ok reported => next reported

def checkMarker (state : State) (marker : List Char) (site : Site) :
    Except Text.TooManyDigits State :=
  if marker = definitionMarker then .ok state else state.report .unmarkedDefinition site

/-- Compiles the body of a word's definition, whose first character is on the given line. A missing
terminator is reported at the site of the definition. -/
def compileBody (state : State) (word : String) (site : Site) (body : List Char) (line : Int) :
    State × Except Failure (Option CompiledWord) :=
  match Token.scan body (some word) (some line) with
  | .error reason => (state, .error (.ofScan reason))
  | .ok scan =>
    match dropTerminator? scan.tokens with
    | some tokens => state.compileTokens word tokens
    | none =>
      state.afterReport (state.report .unterminatedDefinition site) fun state =>
        state.compileTokens word scan.tokens

/-- Compiles a definition that starts on the given line. Without a name there is nothing to compile;
a missing marker or terminator is reported and the rest compiled all the same. The body starts some
lines below, so without a line to count from a definition that has a name fails. -/
def compile (state : State) (source : String) (line : Option Int) :
    State × Except Failure (Option CompiledWord) :=
  let text := source.toList
  let (marker, afterMarker) := Text.nextField text
  let (name, body) := Text.nextField afterMarker
  let site : Site := { line, filename := state.filename }
  if name.isEmpty || name == definitionTerminator then
    state.afterReport (state.report (.namelessDefinition (Text.strip source)) site) fun state =>
      (state, .ok none)
  else
    let word := String.ofList name
    let site := { site with word := some word }
    state.afterReport (state.checkMarker marker site) fun state =>
      match line with
      | none => (state, .error .unknownLine)
      | some line =>
        state.compileBody word site body (line + (text.count '\n' - body.count '\n' : Nat))

end State

end ThreadedCode.Compiler
