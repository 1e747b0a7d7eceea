/-!
# Lines

`lines` cuts a text at its line breaks, and `unifyNewlines` is what reading a text file does to the
line ends of other systems.
-/

namespace ThreadedCode.Text

/-- The characters that end a line; a carriage return and the newline after it end it together. -/
def isLineBreak (c : Char) : Bool :=
  let n := c.toNat
  (0x0A ≤ n && n ≤ 0x0D) || (0x1C ≤ n && n ≤ 0x1E) || n == 0x85 || n == 0x2028 || n == 0x2029

/-- The lines of a text after `done`, where `line` holds the current line's characters so far,
newest first. -/
def linesFrom (done : Array String) (line : List Char) : List Char → List String
  | [] => if line.isEmpty then done.toList else (done.push (String.ofList line.reverse)).toList
  | '\r' :: '\n' :: rest => linesFrom (done.push (String.ofList line.reverse)) [] rest
  | c :: rest =>
    if isLineBreak c then linesFrom (done.push (String.ofList line.reverse)) [] rest
    else linesFrom done (c :: line) rest

/-- The lines of a text, without their breaks. A break at the very end opens no further line. -/
def lines (text : String) : List String :=
  linesFrom #[] [] text.toList

/-- `unifyNewlines` after the characters `done`, newest first. -/
def unifyNewlinesFrom (done : List Char) : List Char → List Char
  | [] => done.reverse
  | '\r' :: '\n' :: rest => unifyNewlinesFrom ('\n' :: done) rest
  | c :: rest => unifyNewlinesFrom ((if c = '\r' then '\n' else c) :: done) rest

/-- The text with every carriage return, and the newline after it if there is one, made into one
newline. -/
def unifyNewlines (text : String) : String :=
  String.ofList (unifyNewlinesFrom [] text.toList)

end ThreadedCode.Text
