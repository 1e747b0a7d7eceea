import ThreadedCode.Token

/-!
# Words

A dictionary holds native words, which the interpreter implements, and compiled words, which are
sequences of code units. Either kind has a display name and a constant that identifies it.
-/

namespace ThreadedCode

structure NativeWord where
  name : String
  constant : String
  doc : Option String := none
  body : Option String := some ""
  deriving DecidableEq

/-- A word compiled from a definition; unit 0 of its code holds its flags. -/
structure CompiledWord where
  name : String
  constant : String
  flags : Flags
  code : Array Int
  doc : Option String := none
  deriving DecidableEq

end ThreadedCode
