/-!
# Blanks and fields

Blanks separate the fields of a source line and the tokens of a definition. Every function here
works on a list of characters; `strip` is the same for strings.
-/

namespace ThreadedCode.Text

/-- The characters that separate fields: controls that move the cursor, separators and spaces. -/
def isBlank (c : Char) : Bool :=
  let n := c.toNat
  (0x09 ≤ n && n ≤ 0x0D) || (0x1C ≤ n && n ≤ 0x20) || n == 0x85 || n == 0xA0 || n == 0x1680 ||
    (0x2000 ≤ n && n ≤ 0x200A) || n == 0x2028 || n == 0x2029 || n == 0x202F || n == 0x205F ||
    n == 0x3000

/-- The leading run of characters that are not blank. -/
def field (text : List Char) : List Char :=
  text.takeWhile fun c => !isBlank c

def afterField (text : List Char) : List Char :=
  text.dropWhile fun c => !isBlank c

def trimLeft (text : List Char) : List Char :=
  text.dropWhile isBlank

def trimRight (text : List Char) : List Char :=
  (text.reverse.dropWhile isBlank).reverse

def trim (text : List Char) : List Char :=
  trimRight (trimLeft text)

/-- The first field of a text, empty if all of it is blank, and what follows that field. -/
def nextField (text : List Char) : List Char × List Char :=
  (field (trimLeft text), afterField (trimLeft text))

def strip (text : String) : String :=
  String.ofList (trim text.toList)

/-! ### The final newline

Several forms of tokens may carry one newline at their end without changing what they are. -/

/-- The text without one newline at its end, if it has one. -/
def chopNewline (text : List Char) : List Char :=
  if text.getLast? = some '\n' then text.dropLast else text

/-! ### Lengths -/

theorem length_dropWhile_le {α : Type} (p : α → Bool) (xs : List α) :
    (xs.dropWhile p).length ≤ xs.length := by
  induction xs with
  | nil => simp
  | cons x xs ih =>
    rw [List.dropWhile_cons]
    split
    · exact Nat.le_succ_of_le ih
    · exact Nat.le_refl _

theorem length_afterField_le (text : List Char) : (afterField text).length ≤ text.length :=
  length_dropWhile_le _ text

end ThreadedCode.Text
