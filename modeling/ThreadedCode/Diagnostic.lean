import ThreadedCode.Text.Quoted
import ThreadedCode.Text.Decimal

/-!
# Diagnostics

A `Problem` is what can be wrong with a dictionary source, a `Site` is where, and a `Diagnostic` is
both. The wording of every problem is in `Problem.text`. Names that tokens or settings are made with
by hand may be missing, and the line and column may be any integers: a site that has one with too
many digits is not writable, and nothing can be said about it.
-/

namespace ThreadedCode

inductive Problem where
  /-- The source has not the expected number of sections. -/
  | sectionCount (found : Nat)
  | absentMarker (marker : String)
  /-- An indented line of native code stands before every header. -/
  | bodyWithoutHeader
  /-- A token belongs to no class the compiler knows. -/
  | unknownToken
  /-- A string literal does not fit its one-byte length. -/
  | stringTooLong (bytes : Nat)
  | unterminatedString
  | duplicateConstant (constant : String) (later earlier : Nat)
  /-- A token is neither a word nor an integer. -/
  | unresolvedWord (lexeme : String)
  | unresolvedReference (name : Option String)
  | undefinedLabel (label : Option String)
  | distantLabel (label : Option String) (offset : Int)
  | namelessDefinition (text : String)
  | unmarkedDefinition
  | unterminatedDefinition
  /-- A word that the compiler emits on its own is not in the dictionary. -/
  | missingBootstrapWord (name : Option String)
  deriving DecidableEq

inductive Problem.Kind where
  | sectionLayout
  | compilation
  | stringTooLong
  | unterminatedString
  | duplicateConstant
  | unresolvedWord
  | unresolvedReference
  | unresolvedLabel
  | malformedHeader
  | missingBootstrapWord
  deriving DecidableEq

namespace Problem

def kind : Problem → Kind
  | .sectionCount _ | .absentMarker _ | .bodyWithoutHeader => .sectionLayout
  | .unknownToken => .compilation
  | .stringTooLong _ => .stringTooLong
  | .unterminatedString => .unterminatedString
  | .duplicateConstant .. => .duplicateConstant
  | .unresolvedWord _ => .unresolvedWord
  | .unresolvedReference _ => .unresolvedReference
  | .undefinedLabel _ | .distantLabel .. => .unresolvedLabel
  | .namelessDefinition _ | .unmarkedDefinition | .unterminatedDefinition => .malformedHeader
  | .missingBootstrapWord _ => .missingBootstrapWord

/-- How a message shows a name that may be missing. -/
def shown (name : Option String) : String :=
  name.getD "None"

/-- The wording of a problem, without its site. -/
def text : Problem → String
  | .sectionCount found =>
    "Expected 4 sections separated by '========', found " ++ Text.decimal found
  | .absentMarker marker => "Template has no " ++ marker ++ " marker"
  | .bodyWithoutHeader => "Native word body without a header"
  | .unknownToken => "Unknown token type: None"
  | .stringTooLong bytes => "String too long (" ++ Text.decimal bytes ++ " bytes)"
  | .unterminatedString => "Unterminated string literal"
  | .duplicateConstant constant later earlier =>
    "Constant " ++ Text.quoted constant ++ " of native word " ++ Text.decimal later ++
      " already used by native word " ++ Text.decimal earlier
  | .unresolvedWord lexeme => "Could not find " ++ lexeme
  | .unresolvedReference name => "Could not find " ++ shown name
  | .undefinedLabel label => "Label " ++ shown label ++ " is not defined"
  | .distantLabel label offset =>
    "Label " ++ shown label ++ " is out of range (" ++ Text.decimal offset ++ ")"
  | .namelessDefinition source => "Definition has no name: " ++ Text.quoted source
  | .unmarkedDefinition => "Line does not start with ':'"
  | .unterminatedDefinition => "Definition does not end with ';'"
  | .missingBootstrapWord name => "Word " ++ shown name ++ " is not defined"

end Problem

structure Site where
  word : Option String := none
  line : Option Int := none
  column : Option Int := none
  filename : Option String := none
  deriving DecidableEq

namespace Site

/-- The parts of a place: the file unless its name is empty, then the line, which says so itself
when no file precedes it, then the column, which only follows a line. -/
def parts (site : Site) : List String :=
  let file := (site.filename.filter (· ≠ "")).toList
  match site.line with
  | none => file
  | some line =>
    let lineText := if file.isEmpty then "line " ++ Text.decimal line else Text.decimal line
    file ++ [lineText] ++ (site.column.map Text.decimal).toList

/-- A text with the word it is about behind it and the place in front of it. -/
def describe (site : Site) (text : String) : String :=
  let body :=
    match site.word with
    | some word => text ++ " (in definition of " ++ word ++ ")"
    | none => text
  if site.parts.isEmpty then body else ":".intercalate site.parts ++ ": " ++ body

/-- Whether the numbers of a site have few enough digits to be written. A column is only written
behind a line. -/
def isWritable (site : Site) : Bool :=
  match site.line with
  | none => true
  | some line => Text.isWritable line && site.column.all Text.isWritable

def write (site : Site) (text : String) : Except Text.TooManyDigits String :=
  if site.isWritable then .ok (site.describe text) else .error {}

end Site

structure Diagnostic where
  problem : Problem
  site : Site := {}
  deriving DecidableEq

namespace Diagnostic

def message (diagnostic : Diagnostic) : String :=
  diagnostic.site.describe diagnostic.problem.text

/-- What comes of a diagnostic that is raised and not recorded. It is worded at once, so a place that
cannot be written is raised in its stead. -/
def raised {ε : Type} (fault : Diagnostic → ε) (tooManyDigits : Text.TooManyDigits → ε)
    (diagnostic : Diagnostic) : ε :=
  if diagnostic.site.isWritable then fault diagnostic else tooManyDigits {}

end Diagnostic

end ThreadedCode
