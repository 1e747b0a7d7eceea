import ThreadedCode.Table.Basic
import ThreadedCode.Text.Encoding

/-!
# The binary form of a table

A header with the counts and the bootstrap indices, then the name and constant of each word, the
variables, and the code of each compiled word. Numbers are unsigned 16-bit with the low byte first,
and texts are UTF-8 behind their length. A missing index is stored as 65535 and a missing constant
as the empty text; doc texts are not stored.
-/

namespace ThreadedCode.Table

def magic : List UInt8 := [0x44, 0x43, 0x54, 0x00]

def version : Nat := 1

/-- The number that stands for a missing index. -/
def noIndex : Nat := 0xFFFF

/-! ### Writing -/

inductive EncodeError where
  /-- A count, a length or an index does not fit 16 bits. -/
  | fieldOutOfRange
  /-- A code unit does not fit 16 bits. -/
  | unitOutOfRange
  deriving DecidableEq

def wordBytes (value : Nat) : List UInt8 :=
  [(value % 256).toUInt8, (value / 256).toUInt8]

def isWord (value : Int) : Bool :=
  0 ≤ value && value < 65536

def encodeField (value : Int) : Except EncodeError (List UInt8) :=
  if isWord value then .ok (wordBytes value.toNat) else .error .fieldOutOfRange

def encodeText (text : String) : Except EncodeError (List UInt8) :=
  let bytes := Text.utf8Bytes text.toList
  (encodeField bytes.length).map (· ++ bytes)

def encodeSymbol (symbol : String × Option String) : Except EncodeError (List UInt8) := do
  let name ← encodeText symbol.1
  let constant ← encodeText (symbol.2.getD "")
  return name ++ constant

/-- The code of a word behind its number of units. -/
def encodeCode (code : Array Int) : Except EncodeError (List UInt8) := do
  let length ← encodeField code.size
  if code.all isWord then return length ++ code.toList.flatMap fun unit => wordBytes unit.toNat
  else throw .unitOutOfRange

/-- The numbers of the header after the version: an unused one and the counts. -/
def headerFields (table : Table) : List Int :=
  [0, table.nativeCount, table.compiledCount, table.variableNames.size]

def encode (table : Table) : Except EncodeError (List UInt8) := do
  let header ← table.headerFields.mapM encodeField
  let bootstrap ← table.bootstrap.toList.mapM fun index => encodeField (index.getD noIndex)
  let symbols ← (table.names.toList.zip table.constants.toList).mapM encodeSymbol
  let slots ← table.variableNames.toList.mapM encodeText
  let codes ← table.compiledCodes.mapM encodeCode
  return magic ++ wordBytes version ++ header.flatten ++ bootstrap.flatten ++ symbols.flatten ++
    slots.flatten ++ codes.flatten

/-! ### Reading -/

inductive DecodeError where
  | badMagic
  | unsupportedVersion (version : Nat)
  /-- The data ends where a number is due. -/
  | truncatedField
  /-- The data ends inside the code of a word. -/
  | truncatedCode
  | invalidText
  deriving DecidableEq

def DecodeError.message? : DecodeError → Option String
  | .badMagic => some "Invalid dictionary magic number"
  | .unsupportedVersion version =>
    some ("Unsupported dictionary version: " ++ Text.decimal version)
  | .truncatedCode => some "buffer is smaller than requested size"
  | .truncatedField | .invalidText => none

def readField (data : List UInt8) : Except DecodeError (Nat × List UInt8) :=
  match data with
  | low :: high :: rest => .ok (low.toNat + 256 * high.toNat, rest)
  | _ => .error .truncatedField

/-- Reads a text; one that the end of the data cuts off is what there is of it. -/
def readText (data : List UInt8) : Except DecodeError (String × List UInt8) := do
  let (length, rest) ← readField data
  match Text.ofUtf8? (rest.take length) with
  | some text => return (text, rest.drop length)
  | none => throw .invalidText

def readSymbol (data : List UInt8) :
    Except DecodeError ((String × Option String) × List UInt8) := do
  let (name, rest) ← readText data
  let (constant, rest) ← readText rest
  return ((name, if constant = "" then none else some constant), rest)

def readUnit (data : List UInt8) : Except DecodeError (Int × List UInt8) :=
  match data with
  | low :: high :: rest => .ok ((low.toNat + 256 * high.toNat : Nat), rest)
  | _ => .error .truncatedCode

/-- Reads `count` items after those in `done`. -/
def readMany {α : Type} (read : List UInt8 → Except DecodeError (α × List UInt8)) (done : Array α)
    (count : Nat) (data : List UInt8) : Except DecodeError (Array α × List UInt8) :=
  match count with
  | 0 => .ok (done, data)
  | count + 1 =>
    match read data with
    | .ok (item, rest) => readMany read (done.push item) count rest
    | .error reason => .error reason

def readCode (data : List UInt8) : Except DecodeError (Array Int × List UInt8) := do
  let (length, rest) ← readField data
  readMany readUnit #[] length rest

def readIndex (data : List UInt8) : Except DecodeError (Option Int × List UInt8) := do
  let (value, rest) ← readField data
  return (if value = noIndex then none else some (value : Int), rest)

def readBootstrap (data : List UInt8) : Except DecodeError (Bootstrap × List UInt8) := do
  let (litstring, rest) ← readIndex data
  let (pushVariable, rest) ← readIndex rest
  let (falseWord, rest) ← readIndex rest
  let (oneWord, rest) ← readIndex rest
  let (wideInt, rest) ← readIndex rest
  return ({ litstring, pushVariable, falseWord, oneWord, wideInt }, rest)

/-- Reads what follows the version. The number after it is not looked at. -/
def decodeBody (data : List UInt8) : Except DecodeError Table := do
  let (nativeCount, rest) ← readField (data.drop 2)
  let (compiledCount, rest) ← readField rest
  let (variableCount, rest) ← readField rest
  let (bootstrap, rest) ← readBootstrap rest
  let (symbols, rest) ← readMany readSymbol #[] (nativeCount + compiledCount) rest
  let (variableNames, rest) ← readMany readText #[] variableCount rest
  let (codes, _) ← readMany readCode #[] compiledCount rest
  return {
    nativeCount := nativeCount
    bootstrap := bootstrap
    variableNames := variableNames
    names := symbols.map (·.1)
    constants := symbols.map (·.2)
    docs := symbols.map fun _ => none
    codes := Array.replicate nativeCount none ++ codes.map some }

/-- Reads a table from its binary form; bytes after it are ignored. -/
def decode (data : List UInt8) : Except DecodeError Table :=
  if data.take 4 ≠ magic then .error .badMagic
  else
    match readField (data.drop 4) with
    | .error reason => .error reason
    | .ok (found, rest) =>
      if found ≠ version then .error (.unsupportedVersion found) else decodeBody rest

end ThreadedCode.Table
