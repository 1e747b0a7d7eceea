import ThreadedCode.Code.Packed
import ThreadedCode.Code.Unit
import ThreadedCode.Table.Basic

/-!
# Listings

A readable form of a table: the variables, the native words, and each compiled word with a line for
every unit of its body, except that a wide integer and a string literal are shown on the line of the
word before them.
-/

namespace ThreadedCode.Table

inductive BodyLine where
  | unit (offset : Nat) (unit : Int)
  | wide (offset : Nat) (unit value : Int)
  | text (offset : Nat) (unit : Int) (bytes : List UInt8)
  deriving DecidableEq

/-- The two units after the wide-integer word, if there are two. -/
def wideAfter? (bootstrap : Bootstrap) (unit : Int) (rest : List Int) : Option Int :=
  match rest with
  | high :: low :: _ =>
    if some unit = bootstrap.wideInt then some (Code.joinWide high low) else none
  | _ => none

/-- The number of units of the string after the word that pushes it, if they are all there. -/
def literalAfter? (bootstrap : Bootstrap) (unit : Int) (rest : List Int) : Option Nat :=
  match rest with
  | first :: _ =>
    let count := Code.statedUnits first
    if some unit = bootstrap.litstring ∧ count ≤ rest.length then some count else none
  | [] => none

/-- The lines of the units from an offset on, after the lines `done`. -/
def bodyLinesFrom (bootstrap : Bootstrap) (done : Array BodyLine) (offset : Nat)
    (units : List Int) : Except Code.UnpackError (List BodyLine) :=
  match units with
  | [] => .ok done.toList
  | unit :: rest =>
    match wideAfter? bootstrap unit rest with
    | some value =>
      bodyLinesFrom bootstrap (done.push (.wide offset unit value)) (offset + 3) (rest.drop 2)
    | none =>
      match literalAfter? bootstrap unit rest with
      | some count =>
        match Code.unpack (rest.take count) with
        | .error reason => .error reason
        | .ok bytes =>
          bodyLinesFrom bootstrap (done.push (.text offset unit bytes)) (offset + 1 + count)
            (rest.drop count)
      | none => bodyLinesFrom bootstrap (done.push (.unit offset unit)) (offset + 1) rest
termination_by units.length
decreasing_by all_goals simp only [List.length_drop, List.length_cons]; omega

/-- The lines of a word's code, whose unit 0 is not part of the body. -/
def bodyLines (bootstrap : Bootstrap) (code : Array Int) :
    Except Code.UnpackError (List BodyLine) :=
  bodyLinesFrom bootstrap #[] 1 (code.toList.drop 1)

def renderLine (table : Table) : BodyLine → Except ShapeError String
  | .unit offset unit => do
    let digits ← table.writeUnit unit
    let name ← table.wordName unit
    return label offset ++ Text.padLeft 5 ' ' digits ++ " " ++
      Text.padLeft 6 ' ' (Text.signedDecimal (Code.signed unit)) ++ "  " ++ name
  | .wide offset unit value => do
    let name ← table.wordName unit
    return label offset ++ name ++ " " ++ Text.decimal value
  | .text offset unit bytes => do
    let name ← table.wordName unit
    return label offset ++ name ++ " " ++ Text.quotedBytes bytes
where
  label (offset : Nat) : String :=
    "    " ++ Text.padLeft 4 '0' (Text.decimal offset) ++ ": "

def disassemble (table : Table) (code : Array Int) : Except ShapeError (List String) :=
  match bodyLines table.bootstrap code with
  | .error reason => .error (.unpack reason)
  | .ok lines => lines.mapM table.renderLine

def indexed (index : Int) (name : String) : String :=
  "  [" ++ Text.padLeft 4 ' ' (Text.decimal index) ++ "] " ++ name

def listWord (table : Table) (index : Int) : Except ShapeError (List String) := do
  let code ← row table.codes index
  let doc ← row table.docs index
  let name ← row table.names index
  match code with
  | none => throw .absentCode
  | some code =>
    let flags ← table.writeUnit (← row code 0)
    let body ← table.disassemble code
    return (indexed index name ++ docSuffix doc ++ " flags=" ++ flags) :: body

def listing (table : Table) : Except ShapeError String := do
  let slots := table.variableNames.toList.zipIdx.map fun (name, slot) => indexed slot name
  let natives ← table.mapNatives fun index => (row table.names index).map (indexed index)
  let compiled ← table.mapCompiled table.listWord
  return "\n".intercalate (["=== Dictionary ===", "", "Variables:"] ++ slots ++
    ["", "Native words:"] ++ natives ++ ["", "Compiled words:"] ++ compiled.flatten)

end ThreadedCode.Table
