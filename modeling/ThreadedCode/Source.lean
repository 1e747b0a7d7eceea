import ThreadedCode.Diagnostic
import ThreadedCode.Text.Blank
import ThreadedCode.Text.Lines
import ThreadedCode.Text.Substring

/-!
# Dictionary sources

A source has four sections separated by lines that hold only the delimiter:

* the template of the interpreter, in three parts around its two marker lines;
* variable names, one on a line;
* native words, a header `NAME [CONSTANT [DOC]]` in the first column and indented lines of code;
* definitions `: NAME ... ;`, each ending with the line that ends in the terminator.

Sections that are made by hand may lack texts, lines and the variables; those that are read never
do.
-/

namespace ThreadedCode.Source

structure Native where
  name : String
  constant : Option String := none
  doc : Option String := none
  body : Option String := some ""
  line : Option Int := some 1
  deriving DecidableEq

structure Definition where
  text : String
  line : Option Int := some 1
  deriving DecidableEq

structure Template where
  prologue : Option String := some ""
  interlude : Option String := some ""
  epilogue : Option String := some ""
  deriving DecidableEq

structure Sections where
  template : Template := {}
  variableNames : Option (List String) := some []
  natives : List Native := []
  definitions : List Definition := []
  deriving DecidableEq

def delimiter : String := "========"

/-- The marker where constants and tables go. -/
def constantsMarker : String := "/*CONSTS*/"

/-- The marker where native code goes. -/
def codeMarker : String := "/*CODE*/"

abbrev Line : Type := String × Nat

def isBlankLine (line : Line) : Bool :=
  line.1.toList.all Text.isBlank

/-- Lines put together, each with a newline at its end. -/
def joinLines (lines : List Line) : String :=
  String.join (lines.map fun line => line.1 ++ "\n")

/-- Splits the template at the first line with the first marker and the first later line with the
second one. -/
def readTemplate (lines : List Line) : Except Problem Template :=
  let lacks (marker : String) (line : Line) : Bool := !Text.contains line.1 marker
  match lines.dropWhile (lacks constantsMarker) with
  | [] => .error (.absentMarker constantsMarker)
  | _ :: rest =>
    match rest.dropWhile (lacks codeMarker) with
    | [] => .error (.absentMarker codeMarker)
    | _ :: epilogue =>
      .ok
        { prologue := some (joinLines (lines.takeWhile (lacks constantsMarker)))
          interlude := some (joinLines (rest.takeWhile (lacks codeMarker)))
          epilogue := some (joinLines epilogue) }

/-- The variable names, one on each line that is not blank. -/
def readVariables (lines : List Line) : List String :=
  (lines.filter fun line => !isBlankLine line).map fun line => Text.strip line.1

/-! ### Native words -/

def isIndented (line : Line) : Bool :=
  match line.1.toList with
  | c :: _ => c == ' ' || c == '\t'
  | [] => false

def nonempty? (text : List Char) : Option String :=
  if text.isEmpty then none else some (String.ofList text)

def readNative (header : Line) (body : List Line) : Native :=
  let (name, afterName) := Text.nextField header.1.toList
  let (constant, afterConstant) := Text.nextField afterName
  { name := String.ofList name
    constant := nonempty? constant
    doc := nonempty? (Text.trim afterConstant)
    body := some ("\n".intercalate (body.map (·.1)))
    line := some header.2 }

/-- The native words of some lines none of which is blank, after those in `done`. -/
def nativesFrom (done : Array Native) (lines : List Line) : List Native :=
  match lines with
  | [] => done.toList
  | header :: rest =>
    nativesFrom (done.push (readNative header (rest.takeWhile isIndented)))
      (rest.dropWhile isIndented)
termination_by lines.length
decreasing_by
  have := Text.length_dropWhile_le isIndented rest
  simp only [List.length_cons]
  omega

/-- The native words; the first line that is not blank has to be a header. -/
def readNatives (lines : List Line) : Except (Problem × Nat) (List Native) :=
  match lines.filter fun line => !isBlankLine line with
  | [] => .ok []
  | first :: rest =>
    if isIndented first then .error (.bodyWithoutHeader, first.2)
    else .ok (nativesFrom #[] (first :: rest))

/-! ### Definitions -/

/-- Whether a line ends in the terminator, blanks aside. -/
def endsDefinition (line : Line) : Bool :=
  (Text.trimRight line.1.toList).getLast? == some ';'

def readDefinition (lines : List Line) (start : Nat) : Definition where
  text := Text.strip ("\n".intercalate (lines.map (·.1)))
  line := some start

/-- The definitions of some lines, after those in `done`. Blank lines before a definition are passed
over, and one that never ends takes all lines that are left. -/
def definitionsFrom (done : Array Definition) (lines : List Line) : List Definition :=
  match lines with
  | [] => done.toList
  | first :: rest =>
    if isBlankLine first then definitionsFrom done rest
    else
      let unfinished := (first :: rest).takeWhile fun line => !endsDefinition line
      let closing := (first :: rest).dropWhile fun line => !endsDefinition line
      definitionsFrom (done.push (readDefinition (unfinished ++ closing.take 1) first.2))
        (closing.drop 1)
termination_by lines.length
decreasing_by
  · simp
  · have := Text.length_dropWhile_le (fun line => !endsDefinition line) (first :: rest)
    simp only [List.length_drop, List.length_cons] at *
    omega

/-! ### The whole source -/

/-- Splits a source into its sections; a problem says where it is. -/
def read (source : String) (filename : Option String) : Except Diagnostic Sections :=
  let fault (problem : Problem) (line : Option Int) : Except Diagnostic Sections :=
    .error ⟨problem, { line, filename }⟩
  let parts := ((Text.lines source).zipIdx 1).splitOnP fun line => line.1 == delimiter
  match parts with
  | [templateLines, variableLines, natives, definitions] =>
    match readTemplate templateLines with
    | .error problem => fault problem none
    | .ok template =>
      match readNatives natives with
      | .error (problem, line) => fault problem (some line)
      | .ok natives =>
        .ok
          { template
            variableNames := some (readVariables variableLines)
            natives
            definitions := definitionsFrom #[] definitions }
  | _ => fault (.sectionCount parts.length) none

end ThreadedCode.Source
