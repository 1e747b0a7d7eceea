/-!
# Code units

Threaded code is a sequence of unsigned 16-bit units. An integer is stored by its residue modulo
65536, and a 32-bit integer by the two units of its high and low half.
-/

namespace ThreadedCode.Code

def toUnit (value : Int) : Int :=
  value % 65536

theorem toUnit_nonneg (value : Int) : 0 ≤ toUnit value :=
  Int.emod_nonneg value (by decide)

theorem toUnit_lt (value : Int) : toUnit value < 65536 :=
  Int.emod_lt_of_pos value (by decide)

/-- A unit read as a signed 16-bit number. -/
def signed (unit : Int) : Int :=
  if toUnit unit < 32768 then toUnit unit else toUnit unit - 65536

theorem toUnit_signed (unit : Int) : toUnit (signed unit) = toUnit unit := by
  unfold signed toUnit
  split <;> omega

/-- The high and the low unit of a 32-bit number. -/
def splitWide (value : Int) : List Int :=
  [toUnit (value / 65536), toUnit value]

/-- The signed 32-bit number that two units store. -/
def joinWide (high low : Int) : Int :=
  let value := toUnit high * 65536 + toUnit low
  if value < 2147483648 then value else value - 4294967296

def fitsSigned (value : Int) : Bool :=
  -32768 ≤ value && value ≤ 32767

end ThreadedCode.Code
