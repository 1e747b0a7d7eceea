import ThreadedCode.Code.Unit
import ThreadedCode.Position

/-!
# Code buffers

A buffer holds the units of one word body. Units are only ever appended, and a unit that is already
there can be overwritten.
-/

namespace ThreadedCode.Code

structure Buffer where
  units : Array Int := #[]
  deriving DecidableEq

inductive PatchError where
  | noSuchPosition
  /-- The value does not fit a signed 16-bit number. -/
  | tooLarge
  deriving DecidableEq

def PatchError.message : PatchError → String
  | .noSuchPosition => "No unit at this position"
  | .tooLarge => "Value too large for i16"

namespace Buffer

/-- The position that the next unit will have. -/
def offset (buffer : Buffer) : Nat :=
  buffer.units.size

/-- Appends the unit of a value; its position is the buffer's `offset` before. -/
def emit (buffer : Buffer) (value : Int) : Buffer :=
  ⟨buffer.units.push (toUnit value)⟩

def emitAll (buffer : Buffer) (values : List Int) : Buffer :=
  values.foldl emit buffer

def emitPlaceholder (buffer : Buffer) : Buffer :=
  buffer.emit 0

/-- Overwrites the unit at a place; beyond the end nothing changes. -/
def put (buffer : Buffer) (place : Nat) (value : Int) : Buffer :=
  ⟨buffer.units.setIfInBounds place (toUnit value)⟩

/-- Overwrites the unit at a position counted from either end. -/
def patch (buffer : Buffer) (position value : Int) : Except PatchError Buffer :=
  match Position.resolve? buffer.units.size position with
  | some place => .ok (buffer.put place value)
  | none => .error .noSuchPosition

def patchSigned (buffer : Buffer) (position value : Int) : Except PatchError Buffer :=
  if fitsSigned value then buffer.patch position value else .error .tooLarge

/-! ### What each operation does to the units -/

@[simp] theorem units_emit (buffer : Buffer) (value : Int) :
    (buffer.emit value).units = buffer.units.push (toUnit value) := rfl

@[simp] theorem units_emitAll (buffer : Buffer) (values : List Int) :
    (buffer.emitAll values).units = buffer.units ++ (values.map toUnit).toArray := by
  induction values generalizing buffer with
  | nil => simp [emitAll]
  | cons value rest ih =>
    have step := ih (buffer.emit value)
    simp only [emitAll, List.foldl_cons] at step ⊢
    rw [step]
    simp

@[simp] theorem size_put (buffer : Buffer) (place : Nat) (value : Int) :
    (buffer.put place value).units.size = buffer.units.size := by
  simp [put]

end Buffer

end ThreadedCode.Code
