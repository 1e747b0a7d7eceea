import Std.Data.HashSet
import ThreadedCode.Code.Unit
import ThreadedCode.Interpreter.Name
import ThreadedCode.Source
import ThreadedCode.Table.Basic

/-!
# The interpreter source

The Java source of the interpreter: the parts of the template with the generated tables between the
first two and the native code between the last two. Each piece of it has a function of its own.
-/

namespace ThreadedCode.Interpreter

open Source (Sections)
open Table (ShapeError row)

/-! ### Constants -/

def constantLine (name : String) (index : Int) : String :=
  "\tprivate static final short " ++ name ++ " = (short)" ++ Text.decimal index ++ ";\n"

/-- The texts that may refer to a constant: the template and the native code. -/
def referringTexts (sections : Sections) : List (Option (List Char)) :=
  let texts := [sections.template.prologue, sections.template.interlude,
    sections.template.epilogue] ++ sections.natives.map (·.body)
  texts.map fun text => text.map String.toList

/-- Whether a text refers to a name. Texts are searched up to the first that does, and one that is
missing cannot be searched. -/
def isReferenced (name : String) : List (Option (List Char)) → Except ShapeError Bool
  | [] => .ok false
  | none :: _ => .error .absentText
  | some text :: rest =>
    if Text.occursIn name.toList text then .ok true else isReferenced name rest

def nativeConstants (table : Table) : Except ShapeError (List (String × Int)) :=
  table.mapNatives fun index => do
    match ← row table.constants index with
    | some constant => return (constantName constant, index)
    | none => throw .absentConstant

structure Declared where
  rows : Array (String × Int)
  names : Std.HashSet String

namespace Declared

def ofRows (rows : List (String × Int)) : Declared where
  rows := rows.toArray
  names := Std.HashSet.ofList (rows.map (·.1))

def push (declared : Declared) (name : String) (index : Int) : Declared where
  rows := declared.rows.push (name, index)
  names := declared.names.insert name

/-- Declares the constant of a compiled row if one of the texts refers to it and no earlier row has
it. -/
def addCompiled (texts : List (Option (List Char))) (table : Table) (declared : Declared)
    (index : Int) : Except ShapeError Declared := do
  match (← row table.constants index).filter isIdentifier with
  | none => return declared
  | some constant =>
    let name := constantName constant
    if declared.names.contains name then return declared
    else if ← isReferenced name texts then return declared.push name index
    else return declared

end Declared

/-- The number of native words and the constants: one for every native word, and one for a compiled
word only if something refers to it and no earlier word has it. -/
def constants (sections : Sections) (table : Table) : Except ShapeError String := do
  let natives ← nativeConstants table
  let declared ← table.foldCompiled (Declared.addCompiled (referringTexts sections) table)
    (.ofRows natives)
  return "\tprivate static final int INTERNAL_SIZE = " ++ Text.decimal table.nativeCount ++
    ";\n\n" ++
    String.join (declared.rows.toList.map fun (name, index) => constantLine name index)

/-! ### Names, code and variables -/

def nameLine (name : String) (index : Nat) : String :=
  "\t\t\"" ++ escape name ++ "\" /*" ++ Text.decimal index ++ "*/,\n"

def nameTable (table : Table) : String :=
  "\n\tprivate static final String[] INTERNAL_NAMES = \x7b\n" ++
    String.join (table.names.toList.zipIdx.map fun (name, index) => nameLine name index) ++
    "\t\x7d;\n\n"

def unitsPerLine : Nat := 16

/-- What stands before the unit at a place: nothing, a comma, or a comma and a new line. -/
def separator (place : Nat) : String :=
  if place = 0 then "" else if place % unitsPerLine = 0 then ", \n\t\t\t" else ", "

/-- Units as signed numbers with commas between them. -/
def formatUnits (code : List Int) : String :=
  String.join (code.zipIdx.map fun (unit, place) =>
    separator place ++ Text.decimal (Code.signed unit))

/-- The comment on a word's code, which cannot end before its own end. -/
def wordComment (index : Int) (name : String) (doc : Option String) : String :=
  Text.replace (Text.decimal index ++ " " ++ name ++ Table.docSuffix doc) "*/" "* /"

def codeLine (table : Table) (index : Int) : Except ShapeError String := do
  let code ← row table.codes index
  let name ← row table.names index
  let doc ← row table.docs index
  match code with
  | some code =>
    return "\t\t\x7b/*" ++ wordComment index name doc ++ "*/" ++ formatUnits code.toList ++
      "\x7d,\n"
  | none => throw .absentCode

def codeTable (table : Table) : Except ShapeError String := do
  let rows ← table.mapCompiled (codeLine table)
  return "\tprivate static final short[][] INTERNAL_WORDS = \x7b\n" ++ String.join rows ++
    "\t\x7d;\n\n"

def variableSlots (table : Table) : String :=
  String.join (table.variableNames.toList.zipIdx.map fun (name, slot) =>
    "\tprivate static final int " ++ name ++ " = " ++ Text.decimal slot ++ ";\n") ++
    "\tprivate static final int INITIAL_VAR_TOP = " ++ Text.decimal table.variableNames.size ++
    ";\n\n"

/-! ### Native code -/

/-- The doc comment of a native word; a backslash and an `n` in it start a new line. -/
def nativeComment (doc : Option String) : String :=
  match doc with
  | none | some "" => ""
  | some text => "\t/**\n\t * " ++ Text.replace text "\\n" "\n\t * " ++ "\n\t */\n"

def nativeMethod (native : Source.Native) (constant : Option String) : Except ShapeError String :=
  match native.body with
  | none => .error .absentBody
  | some body =>
    .ok (nativeComment native.doc ++ "\tprivate void " ++ constant.getD "None" ++ "() \x7b\n" ++
      String.join ((Text.lines body).map fun line => "\t" ++ line ++ "\n") ++ "\t\x7d\n\n")

def nativeMethods (sections : Sections) (table : Table) : Except ShapeError String := do
  let methods ← (sections.natives.zip table.constants.toList).mapM fun (native, constant) =>
    nativeMethod native constant
  return String.join methods

def tabs (width length : Nat) : String :=
  String.ofList (List.replicate ((width - length + 7) / 4) '\t')

def caseLine (width : Nat) (constant : String) : String :=
  let fill := tabs width constant.length
  "\t\t\tcase " ++ constantName constant ++ ":" ++ fill ++ constant ++ "();" ++ fill ++ "break;\n"

def dispatchConstants (table : Table) : Except ShapeError (List String) :=
  (Position.before table.constants table.nativeCount).toList.mapM fun constant =>
    match constant with
    | some constant => .ok constant
    | none => .error .absentCase

/-- The method that runs a word: a case for each native word and the call of compiled ones. -/
def dispatch (table : Table) : Except ShapeError String := do
  let natives ← dispatchConstants table
  let width := natives.foldl (fun width constant => max width constant.length) 0
  return "\t/**\n\t * dispatches a word to the appropriate handler.\n" ++
    "\t * @param w  the number of the word.\n\t */\n" ++
    "\tprivate void dostep(short w) \x7b\n\t\tswitch (w) \x7b\n" ++
    String.join (natives.map (caseLine width)) ++
    "\t\t\tdefault:" ++ tabs width 0 ++ "docol(w);\n\t\t\x7d\n\t\x7d\n"

/-! ### The whole source -/

def templatePart (text : Option String) : Except ShapeError String :=
  match text with
  | some text => .ok text
  | none => .error .absentText

/-- The interpreter source for the sections of a dictionary source and its table. The parts of the
template are put around the rest at the end. -/
def render (sections : Sections) (table : Table) : Except ShapeError String := do
  let constants ← constants sections table
  let code ← codeTable table
  let methods ← nativeMethods sections table
  let dispatch ← dispatch table
  let prologue ← templatePart sections.template.prologue
  let interlude ← templatePart sections.template.interlude
  let epilogue ← templatePart sections.template.epilogue
  return prologue ++ constants ++ nameTable table ++ code ++ variableSlots table ++ interlude ++
    methods ++ dispatch ++ epilogue

end ThreadedCode.Interpreter
