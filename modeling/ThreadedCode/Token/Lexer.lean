import ThreadedCode.Token
import ThreadedCode.Diagnostic

/-!
# Reading tokens

`Token.scan` cuts the text of a definition into tokens. It follows the nesting of comments, because
a string mark inside a comment is an ordinary word, and outside one it takes the text up to the next
double quote.
-/

namespace ThreadedCode

/-- A place in a text; lines and columns count from one, and only a newline starts a new line. The
line is unknown in a text that does not say where it stands. -/
structure Place where
  line : Option Int
  column : Nat
  deriving DecidableEq

namespace Place

def next (place : Place) (c : Char) : Place :=
  if c = '\n' then ⟨place.line.map (· + 1), 1⟩ else ⟨place.line, place.column + 1⟩

def advance (place : Place) (text : List Char) : Place :=
  text.foldl next place

end Place

namespace Token

def ofText (place : Place) (kind : Kind) (lexeme : List Char) : Token :=
  { kind, lexeme := String.ofList lexeme, line := place.line, column := some place.column }

structure Scan where
  tokens : List Token
  depth : Nat
  line : Option Int
  deriving DecidableEq

inductive ScanError where
  | fault (diagnostic : Diagnostic)
  /-- The place of the fault has a number with too many digits. -/
  | tooManyDigits (limit : Text.TooManyDigits)
  /-- The text has several lines and none of them a number. -/
  | unknownLine
  deriving DecidableEq

def Kind.depthAfter (kind : Kind) (depth : Nat) : Nat :=
  match kind with
  | .commentOpen => depth + 1
  | .commentClose => depth - 1
  | _ => depth

/-- The kind of a token at a comment depth, where a string mark inside a comment is a word. -/
def Kind.inComment (kind : Kind) : Kind :=
  match kind with
  | .stringIntro => .word
  | kind => kind

/-- The tokens of the rest of a text, after those in `done`, at a comment depth and a place. -/
def scanFrom (word : Option String) (done : Array Token) (depth : Nat) (place : Place)
    (text : List Char) : Except Diagnostic Scan :=
  match text with
  | [] => .ok ⟨done.toList, depth, place.line⟩
  | c :: rest =>
    if Text.isBlank c then scanFrom word done depth (place.next c) rest
    else
      let lexeme := c :: Text.field rest
      let afterLexeme := Text.afterField rest
      let kind := classify lexeme
      if kind = .stringIntro ∧ depth = 0 then
        let body := Text.trimLeft afterLexeme
        let literal := body.takeWhile (· ≠ '"')
        let closing := body.dropWhile (· ≠ '"')
        if closing.isEmpty then
          .error ⟨.unterminatedString, { word, line := place.line, column := some place.column }⟩
        else
          let consumed := lexeme ++ afterLexeme.takeWhile Text.isBlank ++ literal ++ ['"']
          scanFrom word (done.push (ofText place (.stringLiteral (String.ofList literal)) lexeme)) 0
            (place.advance consumed) (closing.drop 1)
      else
        scanFrom word (done.push (ofText place kind.inComment lexeme)) (kind.depthAfter depth)
          (place.advance lexeme) afterLexeme
termination_by text.length
decreasing_by
  · simp
  · have h₁ := Text.length_dropWhile_le (· ≠ '"') (Text.trimLeft (Text.afterField rest))
    have h₂ := Text.length_dropWhile_le Text.isBlank (Text.afterField rest)
    have h₃ := Text.length_afterField_le rest
    simp only [List.length_drop, List.length_cons, Text.trimLeft] at *
    omega
  · have := Text.length_afterField_le rest
    simp only [List.length_cons]
    omega

/-- The tokens of a text whose first character is on the given line; `word` is the word being
defined, for a message. Lines cannot be counted from an unknown one, so such a text is one line. -/
def scan (text : List Char) (word : Option String) (line : Option Int) : Except ScanError Scan :=
  if line.isNone && text.contains '\n' then .error .unknownLine
  else (scanFrom word #[] 0 ⟨line, 1⟩ text).mapError (Diagnostic.raised .fault .tooManyDigits)

end Token

end ThreadedCode
