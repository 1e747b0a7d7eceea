import ThreadedCode.Text.Blank
import ThreadedCode.Text.UpperCase

/-!
# Names in the interpreter source

Word names become Java string literals, and constants become identifiers with a fixed beginning.
-/

namespace ThreadedCode.Interpreter

/-- One character of a string literal: a backslash and a double quote get a backslash in front. -/
def escapeChar (c : Char) : List Char :=
  if c = '\\' || c = '"' then ['\\', c] else [c]

def escape (name : String) : String :=
  String.ofList (name.toList.flatMap escapeChar)

def constantName (constant : String) : String :=
  "WORD_" ++ Text.upper constant

def isIdentifierStart (c : Char) : Bool :=
  ('A' ≤ c && c ≤ 'Z') || ('a' ≤ c && c ≤ 'z') || c == '_'

def isIdentifierChar (c : Char) : Bool :=
  isIdentifierStart c || ('0' ≤ c && c ≤ '9')

/-- Whether a constant has the form of an identifier, up to one newline at its end. -/
def isIdentifier (constant : String) : Bool :=
  match Text.chopNewline constant.toList with
  | c :: rest => isIdentifierStart c && rest.all isIdentifierChar
  | [] => false

end ThreadedCode.Interpreter
