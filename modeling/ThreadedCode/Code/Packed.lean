import ThreadedCode.Diagnostic

/-!
# Packed strings

A string literal is stored as its length in one byte followed by its bytes, two bytes to a unit with
the earlier one in the high half, and a zero byte at the end if one is left over.
-/

namespace ThreadedCode.Code

def maxPackedBytes : Nat := 255

def packedLength (length : Int) : Int :=
  (length + 2) / 2

/-- The length of a packed string, as the high byte of its first unit gives it. -/
def statedLength (first : Int) : Nat :=
  (first / 256 % 256).toNat

/-- The number of units of a packed string, as its first unit gives it. -/
def statedUnits (first : Int) : Nat :=
  (packedLength (statedLength first)).toNat

/-- Bytes taken two to a unit; a byte left over gets a zero byte beside it. -/
def pairBytes : List UInt8 → List Int
  | [] => []
  | [high] => [high.toNat * 256]
  | high :: low :: rest => (high.toNat * 256 + low.toNat : Int) :: pairBytes rest

def pack (bytes : List UInt8) : Except Problem (List Int) :=
  if maxPackedBytes < bytes.length then .error (.stringTooLong bytes.length)
  else .ok (pairBytes (bytes.length.toUInt8 :: bytes))

inductive UnpackError where
  | noUnits
  | truncated (length : Nat)
  deriving DecidableEq

def UnpackError.message : UnpackError → String
  | .noUnits => "No units to unpack"
  | .truncated length => "Packed string truncated: need " ++ Text.decimal length ++ " bytes"

def unitBytes (unit : Int) : List UInt8 :=
  [(unit / 256 % 256).toNat.toUInt8, (unit % 256).toNat.toUInt8]

/-- The string packed at the front of some units; units after it are ignored. -/
def unpack (units : List Int) : Except UnpackError (List UInt8) :=
  match units.flatMap unitBytes with
  | [] => .error .noUnits
  | length :: bytes =>
    if bytes.length < length.toNat then .error (.truncated length.toNat)
    else .ok (bytes.take length.toNat)

end ThreadedCode.Code
