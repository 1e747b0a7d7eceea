import ThreadedCode.Text.Printable

/-!
# Quoted text

The way messages and listings show a text or a run of bytes: between quotes, on one line, with
everything that could not be seen written as an escape.
-/

namespace ThreadedCode.Text

/-- The quote around a text: the single one, unless the text holds that and no double one. -/
def quoteFor (text : List Char) : Char :=
  if text.contains '\x27' && !text.contains '"' then '"' else '\x27'

/-- The last `width` hexadecimal digits of a number, in lower case. -/
def hexDigits (width n : Nat) : List Char :=
  (List.range width).map fun place => Nat.digitChar (n >>> (4 * (width - 1 - place)) % 16)

/-- The escape of a character by its code point, in as few digits of 2, 4 or 8 as hold it. -/
def codePointEscape (n : Nat) : List Char :=
  if n < 0x100 then '\\' :: 'x' :: hexDigits 2 n
  else if n < 0x10000 then '\\' :: 'u' :: hexDigits 4 n
  else '\\' :: 'U' :: hexDigits 8 n

/-- The escape of a character that has a letter or is its own escape: the backslash, the chosen
quote, tab, newline and carriage return. -/
def namedEscape (quote c : Char) : Option (List Char) :=
  if c = quote || c = '\\' then some ['\\', c]
  else if c = '\t' then some ['\\', 't']
  else if c = '\n' then some ['\\', 'n']
  else if c = '\r' then some ['\\', 'r']
  else none

def quotedChar (quote c : Char) : List Char :=
  match namedEscape quote c with
  | some escape => escape
  | none => if isPrintable c then [c] else codePointEscape c.toNat

def quoted (text : String) : String :=
  let quote := quoteFor text.toList
  String.ofList (quote :: text.toList.flatMap (quotedChar quote) ++ [quote])

/-- One byte of a quoted run of bytes, where only visible ASCII stands for itself. -/
def quotedByte (quote : Char) (byte : UInt8) : List Char :=
  let c := Char.ofNat byte.toNat
  match namedEscape quote c with
  | some escape => escape
  | none =>
    if 0x20 ≤ byte.toNat && byte.toNat < 0x7F then [c] else codePointEscape byte.toNat

/-- A run of bytes between quotes, marked by a leading `b`. -/
def quotedBytes (bytes : List UInt8) : String :=
  let quote := quoteFor (bytes.map fun byte => Char.ofNat byte.toNat)
  String.ofList ('b' :: quote :: bytes.flatMap (quotedByte quote) ++ [quote])

end ThreadedCode.Text
