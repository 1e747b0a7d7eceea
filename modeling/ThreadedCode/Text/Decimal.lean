import ThreadedCode.Text.Blank

/-!
# Decimal numbers

Signed 32-bit integer literals, and the decimal text of numbers in fixed-width columns.
-/

namespace ThreadedCode.Text

/-! ### The limit on digits -/

def maxDigits : Nat := 4300

/-- A number has more digits than can be read or written; those of a literal are counted. -/
structure TooManyDigits where
  digits : Option Nat := none
  deriving DecidableEq

def TooManyDigits.message (limit : TooManyDigits) : String :=
  "Exceeds the limit (4300 digits) for integer string conversion" ++ counted ++
    "; use sys.set_int_max_str_digits() to increase the limit"
where
  counted : String :=
    match limit.digits with
    | some digits => ": value has " ++ toString digits ++ " digits"
    | none => ""

/-! ### Reading -/

def isAsciiDigit (c : Char) : Bool :=
  '0' ≤ c && c ≤ '9'

def digitsValue (digits : List Char) : Nat :=
  digits.foldl (fun value c => 10 * value + (c.toNat - 48)) 0

def splitSign : List Char → Bool × List Char
  | '-' :: rest => (true, rest)
  | '+' :: rest => (false, rest)
  | text => (false, text)

def fitsInt32 (value : Int) : Bool :=
  -0x80000000 ≤ value && value ≤ 0x7FFFFFFF

/-- Reads an optional sign and one or more ASCII digits, with at most one newline after them; the
value has to fit a signed 32-bit word. -/
def parseInt32 (text : List Char) : Except TooManyDigits (Option Int) :=
  let (negative, digits) := splitSign (chopNewline text)
  if digits.isEmpty || !digits.all isAsciiDigit then .ok none
  else if maxDigits < digits.length then .error ⟨some digits.length⟩
  else
    let value : Int := if negative then -digitsValue digits else digitsValue digits
    .ok (if fitsInt32 value then some value else none)

/-! ### Writing -/

/-- The decimal digits of a number, after a minus sign if it is negative. -/
def decimal (value : Int) : String :=
  String.ofList (if value < 0 then '-' :: Nat.toDigits 10 value.natAbs
    else Nat.toDigits 10 value.natAbs)

def isWritable (value : Int) : Bool :=
  (Nat.toDigits 10 value.natAbs).length ≤ maxDigits

/-- The decimal text of a number with a plus sign unless it is negative. -/
def signedDecimal (value : Int) : String :=
  if value < 0 then decimal value else "+" ++ decimal value

/-- A text moved to the right end of a column filled with `fill`. -/
def padLeft (width : Nat) (fill : Char) (text : String) : String :=
  String.ofList (List.replicate (width - text.length) fill) ++ text

end ThreadedCode.Text
