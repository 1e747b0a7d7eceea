import ThreadedCode.Code.Buffer
import ThreadedCode.Code.Packed
import ThreadedCode.Compiler.State

/-!
# The definition being compiled

A `Draft` collects what the tokens of one definition contribute. Each token has an `Effect`, which
`Draft.effect?` finds from the symbols known so far and `Draft.apply` carries out. Only finding it
can fail, so a failing token leaves the draft as it was. The uses of labels are filled in when all
tokens are there.
-/

namespace ThreadedCode.Compiler

inductive Failure where
  /-- A problem that is not recorded but ends the run. -/
  | fault (diagnostic : Diagnostic)
  /-- An integer literal, or a number of the site of a problem, has too many digits. -/
  | tooManyDigits (limit : Text.TooManyDigits)
  /-- The encoding has no bytes for a string literal. -/
  | unencodable
  /-- A flag outside comments comes without its bits. -/
  | absentFlags
  /-- A string mark comes without its text. -/
  | absentText
  /-- The lines of a definition are to be counted from an unknown one. -/
  | unknownLine
  deriving DecidableEq

def Failure.ofDiagnostic : Diagnostic → Failure :=
  Diagnostic.raised .fault .tooManyDigits

/-- A unit of a draft that is still to be filled in, and the name that decides it. -/
structure Fixup where
  position : Nat
  name : Option String
  line : Option Int
  column : Option Int
  deriving DecidableEq

structure Block where
  /-- The values to emit; each is stored by its unit. -/
  values : List Int
  /-- The word index that the last value is, if it is a reference to a word. -/
  lastWord : Option Int := none
  problems : List Problem := []
  deriving DecidableEq

inductive Effect where
  /-- Opens a comment, or a comment inside a comment. -/
  | openComment
  | closeComment
  | nameConstant (name : String)
  | document (text : String)
  | nothing
  | setFlags (flags : Flags)
  | defineLabel (name : Option String)
  | useLabel (name : Option String)
  | awaitConstant (name : Option String)
  | emit (block : Block)
  deriving DecidableEq

structure Draft where
  word : String
  index : Nat
  filename : Option String := none
  code : Code.Buffer := {}
  flags : Flags := {}
  /-- The labels with the positions they stand for, newest first. -/
  labels : List (Option String × Nat) := []
  labelUses : Array Fixup := #[]
  references : Array Fixup := #[]
  commentDepth : Nat := 0
  firstCommentDone : Bool := false
  /-- The constant that a comment has named last. -/
  hint : Option String := none
  doc : Array String := #[]
  /-- The word that the last unit refers to, if it is a reference to a word. -/
  lastWord : Option Int := none
  diagnostics : Array Diagnostic := #[]

namespace Block

def ofWord (index : Int) : Block :=
  { values := [index], lastWord := some index }

def ofValue (value : Int) : Block :=
  { values := [value] }

/-- A reference to a bootstrap word, or index 0 and a problem if it is missing. -/
def ofBootstrap (index : Option Int) (name : Option String) : Block :=
  match index with
  | some index => ofWord index
  | none => { ofWord 0 with problems := [.missingBootstrapWord name] }

def append (first second : Block) : Block where
  values := first.values ++ second.values
  lastWord := second.lastWord
  problems := first.problems ++ second.problems

end Block

/-! ### The effect of a token -/

/-- The block of a plain token: a word, else an integer, which takes two units after the
wide-integer word. -/
def plainBlock (state : State) (lastWord : Option Int) (lexeme : String) :
    Except Failure Block :=
  match state.findWord? lexeme with
  | some index => .ok (.ofWord index)
  | none =>
    match Text.parseInt32 lexeme.toList with
    | .error limit => .error (.tooManyDigits limit)
    | .ok none => .ok { values := [0], problems := [.unresolvedWord lexeme] }
    | .ok (some value) =>
      if state.bootstrap.wideInt.isSome && lastWord == state.bootstrap.wideInt then
        .ok { values := Code.splitWide value }
      else .ok (.ofValue value)

/-- The block of a variable's slot: slots 0 and 1 have words of their own. -/
def variableBlock (state : State) (slot : Nat) : Block :=
  let push := Block.ofBootstrap state.bootstrap.pushVariable state.names.pushVariable
  match slot with
  | 0 => push.append (.ofBootstrap state.bootstrap.falseWord state.names.falseWord)
  | 1 => push.append (.ofBootstrap state.bootstrap.oneWord state.names.oneWord)
  | slot =>
    let short := (state.names.shortLiteral.bind state.findWord?).map Int.ofNat
    (push.append (.ofBootstrap short state.names.shortLiteral)).append (.ofValue slot)

/-- The block of a string literal: the word that pushes it and its packed bytes. -/
def stringBlock (state : State) (site : Site) (text : String) : Except Failure Block :=
  match state.encode text with
  | none => .error .unencodable
  | some bytes =>
    match Code.pack bytes with
    | .error problem => .error (.ofDiagnostic ⟨problem, site⟩)
    | .ok units =>
      let push := Block.ofBootstrap state.bootstrap.litstring state.names.litstringConstant
      .ok (push.append { values := units })

namespace Draft

def site (draft : Draft) (token : Token) : Site where
  word := some draft.word
  line := token.line
  column := token.column
  filename := draft.filename

/-- The effect of a reference by constant: the word that has it, else the word being defined if a
comment gave it that constant, else a unit to be filled in later. A reference without a name means
the word being defined as long as no comment has given it a constant. -/
def referenceEffect (state : State) (draft : Draft) (name : Option String) : Effect :=
  match name.bind state.findConstant? with
  | some index => .emit (.ofWord index)
  | none =>
    if draft.hint = name then .emit (.ofWord draft.index) else .awaitConstant name

/-- The effect of emitting a block at a token, where its problems have to be reported. -/
def emitEffect? (draft : Draft) (token : Token) (block : Block) : Except Failure Effect :=
  if block.problems.isEmpty || (draft.site token).isWritable then .ok (.emit block)
  else .error (.tooManyDigits {})

def plainEffect? (state : State) (draft : Draft) (token : Token) : Except Failure Effect :=
  match plainBlock state draft.lastWord token.lexeme with
  | .error failure => .error failure
  | .ok block => draft.emitEffect? token block

def codeEffect? (state : State) (draft : Draft) (token : Token) : Except Failure Effect :=
  match token.kind with
  | .commentOpen => .ok .openComment
  | .flag (some mask) => .ok (.setFlags (.ofMask mask))
  | .flag none => .error .absentFlags
  | .recurse => .ok (.emit (.ofWord draft.index))
  | .reference name => .ok (referenceEffect state draft name)
  | .variableRef name =>
    match name.bind state.slots.find? with
    | some slot => draft.emitEffect? token (variableBlock state slot)
    | none => plainEffect? state draft token
  | .labelDef name => .ok (.defineLabel name)
  | .labelUse name => .ok (.useLabel name)
  | .stringLiteral text =>
    match stringBlock state (draft.site token) text with
    | .error failure => .error failure
    | .ok block => draft.emitEffect? token block
  | .word | .commentClose => plainEffect? state draft token
  | .stringIntro => .error .absentText
  | .unknown => .error (.ofDiagnostic ⟨.unknownToken, { draft.site token with filename := none }⟩)

/-- The effect of a token inside a comment: it nests or ends the comment, names the constant, or
belongs to the doc text if the comment is the first one and the token is at its outermost level. -/
def commentEffect (draft : Draft) (token : Token) : Effect :=
  match token.kind with
  | .commentOpen => .openComment
  | .commentClose => .closeComment
  | _ =>
    match token.hint? with
    | some constant => .nameConstant constant
    | none =>
      if !draft.firstCommentDone && draft.commentDepth == 1 then .document token.lexeme
      else .nothing

def effect? (state : State) (draft : Draft) (token : Token) : Except Failure Effect :=
  if 0 < draft.commentDepth then .ok (draft.commentEffect token) else codeEffect? state draft token

/-! ### Carrying it out -/

def report (draft : Draft) (site : Site) (problem : Problem) : Draft :=
  { draft with diagnostics := draft.diagnostics.push ⟨problem, site⟩ }

/-- The note of a unit that is to be filled in at the end of the code. -/
def fixup (draft : Draft) (token : Token) (name : Option String) : Fixup :=
  { position := draft.code.offset, name, line := token.line, column := token.column }

def emit (draft : Draft) (token : Token) (block : Block) : Draft :=
  let site := draft.site token
  let draft := { draft with code := draft.code.emitAll block.values, lastWord := block.lastWord }
  block.problems.foldl (fun draft problem => draft.report site problem) draft

def apply (draft : Draft) (token : Token) (effect : Effect) : Draft :=
  match effect with
  | .openComment => { draft with commentDepth := draft.commentDepth + 1 }
  | .closeComment =>
    { draft with
      commentDepth := draft.commentDepth - 1
      firstCommentDone := draft.firstCommentDone || draft.commentDepth == 1 }
  | .nameConstant name => { draft with hint := some name }
  | .document text => { draft with doc := draft.doc.push text }
  | .nothing => draft
  | .setFlags flags => { draft with flags := draft.flags.union flags }
  | .defineLabel name => { draft with labels := (name, draft.code.offset) :: draft.labels }
  | .useLabel name =>
    let note := draft.fixup token name
    { draft with
      labelUses := draft.labelUses.push note
      code := draft.code.emitPlaceholder
      lastWord := none }
  | .awaitConstant name =>
    let note := draft.fixup token name
    { draft with
      references := draft.references.push note
      code := draft.code.emitPlaceholder
      lastWord := none }
  | .emit block => draft.emit token block

/-- Adds the tokens of a definition in order, up to the first that fails. -/
def addTokens (state : State) (draft : Draft) : List Token → Draft × Option Failure
  | [] => (draft, none)
  | token :: rest =>
    match effect? state draft token with
    | .error failure => (draft, some failure)
    | .ok effect => addTokens state (draft.apply token effect) rest

/-! ### Labels -/

/-- The offset to store at a label's use, and the problem with it if there is one. -/
def labelOffset (draft : Draft) (note : Fixup) : Int × Option Problem :=
  match draft.labels.lookup note.name with
  | none => (0, some (.undefinedLabel note.name))
  | some target =>
    let offset : Int := target - note.position
    if Code.fitsSigned offset then (offset, none) else (0, some (.distantLabel note.name offset))

/-- Fills in a label's use and reports the problem with it, if that can be done. -/
def patchLabel (draft : Draft) (note : Fixup) : Except Text.TooManyDigits Draft :=
  let site : Site :=
    { word := some draft.word
      line := note.line
      column := note.column
      filename := draft.filename }
  let (offset, problem) := draft.labelOffset note
  let draft := { draft with code := draft.code.put note.position offset }
  match problem with
  | some problem => if site.isWritable then .ok (draft.report site problem) else .error {}
  | none => .ok draft

def patchLabels (draft : Draft) : List Fixup → Draft × Option Failure
  | [] => (draft, none)
  | note :: rest =>
    match draft.patchLabel note with
    | .error limit => (draft, some (.tooManyDigits limit))
    | .ok draft => draft.patchLabels rest

def addBody (state : State) (draft : Draft) (tokens : List Token) : Draft × Option Failure :=
  match addTokens state draft tokens with
  | (draft, some failure) => (draft, some failure)
  | (draft, none) => draft.patchLabels draft.labelUses.toList

/-- The doc text of a draft: the tokens kept for it, with a space between them. -/
def docText? (draft : Draft) : Option String :=
  let text := " ".intercalate draft.doc.toList
  if text = "" then none else some text

def toWord (draft : Draft) : CompiledWord where
  name := draft.word
  constant := draft.hint.getD draft.word
  flags := draft.flags
  code := #[(draft.flags.bits : Int)] ++ draft.code.units
  doc := draft.docText?

end Draft

end ThreadedCode.Compiler
