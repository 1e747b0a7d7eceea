import ThreadedCode.Dictionary.Search

/-!
# Variables

The slots of the interpreter's variables, in declaration order.
-/

namespace ThreadedCode

/-- The variable names; a variable's slot is its place. -/
structure Variables where
  names : Array String := #[]
  deriving DecidableEq

namespace Variables

def size (slots : Variables) : Nat :=
  slots.names.size

def register (slots : Variables) (name : String) : Variables :=
  ⟨slots.names.push name⟩

@[simp] theorem size_register (slots : Variables) (name : String) :
    (slots.register name).size = slots.size + 1 := by
  simp [register, size]

def ofList (names : List String) : Variables :=
  ⟨names.toArray⟩

/-- The slot of a variable; a repeated name hides the earlier slot. -/
def find? (slots : Variables) (name : String) : Option Nat :=
  lastIndex? slots.names fun declared => declared == name

end Variables

end ThreadedCode
