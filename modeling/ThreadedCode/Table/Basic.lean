import ThreadedCode.Code.Packed
import ThreadedCode.Compiler.State

/-!
# Dictionary tables

A table has one row per word, native words first: its name, constant, doc text and code. Tables that
come from elsewhere may be inconsistent, so the columns are separate arrays, units are any integers
and the number of native words is any integer.
-/

namespace ThreadedCode

structure Table where
  nativeCount : Int := 0
  bootstrap : Bootstrap := {}
  variableNames : Array String := #[]
  names : Array String := #[]
  constants : Array (Option String) := #[]
  docs : Array (Option String) := #[]
  codes : Array (Option (Array Int)) := #[]
  deriving DecidableEq

namespace Table

/-- The number of compiled words; negative if there are said to be more native words than rows. -/
def compiledCount (table : Table) : Int :=
  table.names.size - table.nativeCount

def indexOf? (table : Table) (name : String) : Option Nat :=
  lastIndex? table.names fun declared => declared == name

/-- The code of the compiled rows that have any, in order. -/
def compiledCodes (table : Table) : List (Array Int) :=
  (Position.after table.codes table.nativeCount).toList.filterMap id

def nativeRows (table : Table) : List Int :=
  Position.span 0 table.nativeCount

/-- The indices of the compiled rows, which are negative if the number of native words is. -/
def compiledRows (table : Table) : List Int :=
  Position.span table.nativeCount table.names.size

/-- The results of `f` on the native rows, in order, up to the first error. The number of native
words may be far greater than that of the rows, so the indices are not listed first. -/
def mapNatives {ε α : Type} (table : Table) (f : Int → Except ε α) : Except ε (List α) :=
  Position.mapSpan f 0 table.nativeCount

def mapCompiled {ε α : Type} (table : Table) (f : Int → Except ε α) : Except ε (List α) :=
  Position.mapSpan f table.nativeCount table.names.size

def foldCompiled {ε σ : Type} (table : Table) (f : σ → Int → Except ε σ) (state : σ) :
    Except ε σ :=
  Position.foldSpan f state table.nativeCount table.names.size

theorem mapNatives_eq {ε α : Type} (table : Table) (f : Int → Except ε α) :
    table.mapNatives f = table.nativeRows.mapM f :=
  Position.mapSpan_eq f 0 table.nativeCount

theorem mapCompiled_eq {ε α : Type} (table : Table) (f : Int → Except ε α) :
    table.mapCompiled f = table.compiledRows.mapM f :=
  Position.mapSpan_eq f table.nativeCount table.names.size

theorem foldCompiled_eq {ε σ : Type} (table : Table) (f : σ → Int → Except ε σ) (state : σ) :
    table.foldCompiled f state = table.compiledRows.foldlM f state :=
  Position.foldSpan_eq f state table.nativeCount table.names.size

/-- The table of a dictionary: the native words and then the compiled ones. -/
def assemble (catalog : Catalog) (compiled : Array CompiledWord) (slots : Variables)
    (bootstrap : Bootstrap) : Table where
  nativeCount := catalog.size
  bootstrap := bootstrap
  variableNames := slots.names
  names := catalog.words.map (·.name) ++ compiled.map (·.name)
  constants := catalog.words.map (some ·.constant) ++ compiled.map (some ·.constant)
  docs := catalog.words.map (·.doc) ++ compiled.map (·.doc)
  codes := catalog.words.map (fun _ => none) ++ compiled.map (some ·.code)

/-- A doc text in parentheses, or nothing if there is none. -/
def docSuffix (doc : Option String) : String :=
  match doc with
  | none | some "" => ""
  | some text => " ( " ++ text ++ " )"

/-! ### Inconsistent tables -/

inductive ShapeError where
  | missingRow
  | absentCode
  /-- A native row has no constant to name it. -/
  | absentConstant
  /-- A native row has no constant to dispatch on. -/
  | absentCase
  /-- A text that may refer to a constant, or that is to be written, is missing. -/
  | absentText
  | absentBody
  | tooManyDigits (limit : Text.TooManyDigits)
  /-- Units that are listed as a string hold none. -/
  | unpack (reason : Code.UnpackError)
  deriving DecidableEq

def row {α : Type} (column : Array α) (index : Int) : Except ShapeError α :=
  match Position.get? column index with
  | some value => .ok value
  | none => .error .missingRow

/-- The name of the word that a unit refers to; a unit beyond the table has none. -/
def wordName (table : Table) (unit : Int) : Except ShapeError String :=
  if unit < table.names.size then row table.names unit else .ok "?"

/-- Whether a unit can be written. That of a word of the table can, as no table has so many rows. -/
def isWritable (table : Table) (unit : Int) : Bool :=
  (0 ≤ unit && unit < table.names.size) || Text.isWritable unit

def writeUnit (table : Table) (unit : Int) : Except ShapeError String :=
  if table.isWritable unit then .ok (Text.decimal unit) else .error (.tooManyDigits {})

end Table

end ThreadedCode
