import Std.Data.HashMap
import ThreadedCode.Diagnostic
import ThreadedCode.Position
import ThreadedCode.Dictionary.Search
import ThreadedCode.Dictionary.Word

/-!
# The native catalog

Native words in declaration order. A word's index is its place, so native words take the low end of
the dictionary's index space.
-/

namespace ThreadedCode

structure Catalog where
  words : Array NativeWord := #[]
  deriving DecidableEq

namespace Catalog

def size (catalog : Catalog) : Nat :=
  catalog.words.size

/-- Adds a native word; without a constant of its own its name serves as one. -/
def register (catalog : Catalog) (name : String) (constant : Option String) (doc : Option String)
    (body : Option String) : Catalog :=
  ⟨catalog.words.push
    { name, constant := (constant.filter (· ≠ "")).getD name, doc, body }⟩

@[simp] theorem size_register (catalog : Catalog) (name : String)
    (constant doc body : Option String) :
    (catalog.register name constant doc body).size = catalog.size + 1 := by
  simp [register, size]

/-- The first native word with a constant. -/
def findConstant? (catalog : Catalog) (constant : String) : Option Nat :=
  firstIndex? catalog.words fun word => word.constant == constant

/-- The last native word with a name. -/
def findName? (catalog : Catalog) (name : String) : Option Nat :=
  lastIndex? catalog.words fun word => word.name == name

/-- The native word at a position counted from either end. -/
def get? (catalog : Catalog) (position : Int) : Option NativeWord :=
  Position.get? catalog.words position

/-- Looks for a word of `rest` whose constant an earlier word has; `seen` maps the constants of the
`index` words before to their places. -/
def duplicateFrom (seen : Std.HashMap String Nat) (index : Nat) : List NativeWord → Option Problem
  | [] => none
  | word :: rest =>
    match seen[word.constant]? with
    | some earlier => some (.duplicateConstant word.constant index earlier)
    | none => duplicateFrom (seen.insert word.constant index) (index + 1) rest

def duplicate? (catalog : Catalog) : Option Problem :=
  duplicateFrom ∅ 0 catalog.words.toList

end Catalog

end ThreadedCode
