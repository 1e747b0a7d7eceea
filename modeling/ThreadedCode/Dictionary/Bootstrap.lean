import ThreadedCode.Dictionary.Catalog

/-!
# Bootstrap words

The words that the compiler emits on its own: they are looked up in the native catalog once, under
names that can be configured, before any definition is compiled.
-/

namespace ThreadedCode

/-- The names of the bootstrap words. One that has no name is in no dictionary. -/
structure BootstrapNames where
  /-- The constant of the word that pushes the string literal after it. -/
  litstringConstant : Option String := some "litstring_compile"
  /-- The word that turns a slot number into a variable. -/
  pushVariable : Option String := some "vars"
  /-- The word that pushes zero. -/
  falseWord : Option String := some "false"
  /-- The word that pushes one. -/
  oneWord : Option String := some "'1"
  /-- The word that pushes the 32-bit number after it. -/
  wideInt : Option String := some "int"
  /-- The word that pushes the unit after it; it may be a compiled word. -/
  shortLiteral : Option String := some "'"
  deriving DecidableEq

structure Bootstrap where
  litstring : Option Int := none
  pushVariable : Option Int := none
  falseWord : Option Int := none
  oneWord : Option Int := none
  wideInt : Option Int := none
  deriving DecidableEq

namespace Bootstrap

/-- The indices in the order in which they are stored. -/
def toList (bootstrap : Bootstrap) : List (Option Int) :=
  [bootstrap.litstring, bootstrap.pushVariable, bootstrap.falseWord, bootstrap.oneWord,
    bootstrap.wideInt]

/-- The bootstrap words of a catalog, taking no notice of repeated constants. -/
def ofCatalog (catalog : Catalog) (names : BootstrapNames) : Bootstrap where
  litstring := (names.litstringConstant.bind catalog.findConstant?).map Int.ofNat
  pushVariable := (names.pushVariable.bind catalog.findName?).map Int.ofNat
  falseWord := (names.falseWord.bind catalog.findName?).map Int.ofNat
  oneWord := (names.oneWord.bind catalog.findName?).map Int.ofNat
  wideInt := (names.wideInt.bind catalog.findName?).map Int.ofNat

/-- The bootstrap words of a catalog, which has to have distinct constants. -/
def find (catalog : Catalog) (names : BootstrapNames) : Except Problem Bootstrap :=
  match catalog.duplicate? with
  | some problem => .error problem
  | none => .ok (ofCatalog catalog names)

end Bootstrap

end ThreadedCode
