import ThreadedCode.Table.Binary

/-!
# Flattened code

All compiled code in one sequence of units, with the offset at which each word starts.
-/

namespace ThreadedCode.Table

/-- The code of all compiled words in a row; `offsets` has one more element than there are words,
the last one being the number of units. -/
structure Flat where
  units : Array Int
  offsets : Array Nat
  deriving DecidableEq

def Flat.add (flat : Flat) (code : Array Int) : Flat :=
  let stop := flat.units.size + code.size
  { units := flat.units ++ code, offsets := flat.offsets.push stop }

/-- The flattened code of a table, if every unit fits 16 bits. -/
def flatten (table : Table) : Except EncodeError Flat :=
  if table.compiledCodes.all (·.all isWord) then
    .ok (table.compiledCodes.foldl Flat.add ⟨#[], #[0]⟩)
  else .error .unitOutOfRange

end ThreadedCode.Table
