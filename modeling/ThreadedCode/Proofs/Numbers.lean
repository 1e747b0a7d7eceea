import Mathlib.Data.List.Induction
import Mathlib.Data.Nat.Digits.Defs
import ThreadedCode.Text.Decimal

/-!
# Numbers in texts

What a decimal text stands for, said without the functions that read and write such texts, and that
a number is what its own text stands for, also behind zeros that fill a column.
-/

namespace ThreadedCode.Text

/-! ### Reading -/

/-- The number that one or more ASCII digits write, the last of which counts least. -/
def natural? (digits : List Char) : Option Nat :=
  if digits ≠ [] ∧ digits.all (fun c => '0' ≤ c && c ≤ '9') then
    some (Nat.ofDigits 10 (digits.reverse.map fun c => c.toNat - '0'.toNat))
  else none

/-- The integer that a text writes: a number, or one with a sign in front of it. -/
def integer? : List Char → Option Int
  | '-' :: digits => (natural? digits).map fun number : Nat => -(number : Int)
  | '+' :: digits => (natural? digits).map Int.ofNat
  | digits => (natural? digits).map Int.ofNat

theorem digitsValue_eq (digits : List Char) :
    digitsValue digits = Nat.ofDigits 10 (digits.reverse.map fun c => c.toNat - '0'.toNat) := by
  induction digits using List.reverseRecOn with
  | nil => rfl
  | append_singleton digits c ih =>
    have zero : '0'.toNat = 48 := rfl
    rw [List.reverse_append, List.reverse_singleton, List.singleton_append, List.map_cons,
      Nat.ofDigits_cons, ← ih, digitsValue, List.foldl_append, List.foldl_cons, List.foldl_nil,
      zero, digitsValue]
    omega

theorem natural?_eq (digits : List Char) :
    natural? digits =
      if digits.isEmpty || !digits.all isAsciiDigit then none else some (digitsValue digits) := by
  have same : (digits ≠ [] ∧ digits.all (fun c => '0' ≤ c && c ≤ '9') = true) ↔
      ¬ (digits.isEmpty || !digits.all isAsciiDigit) = true := by
    simp [isAsciiDigit]
  rw [natural?, ← digitsValue_eq]
  split
  · rename_i number
    rw [if_neg (same.mp number)]
  · rename_i other
    rw [if_pos (not_not.mp (mt same.mpr other))]

theorem integer?_eq (text : List Char) :
    integer? text =
      (natural? (splitSign text).2).map fun number : Nat =>
        if (splitSign text).1 then -(number : Int) else number := by
  unfold integer?
  split
  · rfl
  · rfl
  · rename_i minus plus
    have unsigned : splitSign text = (false, text) := splitSign.eq_3 text minus plus
    rw [unsigned]
    rfl

/-! ### Writing -/

theorem toNat_of_isAsciiDigit {c : Char} (digit : isAsciiDigit c = true) :
    48 ≤ c.toNat ∧ c.toNat ≤ 57 := by
  obtain ⟨low, high⟩ := Bool.and_eq_true_iff.mp digit
  exact ⟨of_decide_eq_true low, of_decide_eq_true high⟩

theorem isBlank_of_isAsciiDigit {c : Char} (digit : isAsciiDigit c = true) : isBlank c = false := by
  have range := toNat_of_isAsciiDigit digit
  simp only [isBlank, Bool.or_eq_false_iff, Bool.and_eq_false_imp, decide_eq_true_eq,
    decide_eq_false_iff_not, beq_eq_false_iff_ne, ne_eq]
  omega

theorem isAsciiDigit_of_mem_toDigits {number : Nat} {c : Char}
    (member : c ∈ Nat.toDigits 10 number) : isAsciiDigit c = true := by
  have digit := Nat.isDigit_of_mem_toDigits (by decide) (by decide) member
  simpa [isAsciiDigit, Char.isDigit, Char.le_def] using digit

theorem natural?_digits {digits : List Char} (present : digits ≠ [])
    (all : ∀ c ∈ digits, isAsciiDigit c = true) : natural? digits = some (digitsValue digits) := by
  rw [natural?_eq, if_neg (by simpa [present] using all)]

/-- Digits alone write the number that they count. -/
theorem integer?_digits {digits : List Char} (present : digits ≠ [])
    (all : ∀ c ∈ digits, isAsciiDigit c = true) :
    integer? digits = some (digitsValue digits : Int) := by
  have unsigned {c : Char} {rest : List Char} (same : digits = c :: rest) : isAsciiDigit c = true :=
    all c (same ▸ List.mem_cons_self)
  have split : splitSign digits = (false, digits) := by
    refine splitSign.eq_3 _ (fun rest same => ?_) fun rest same => ?_
    · exact absurd (unsigned same) (by decide)
    · exact absurd (unsigned same) (by decide)
  rw [integer?_eq, split, natural?_digits present all]
  rfl

theorem digitsValue_toDigits (number : Nat) : digitsValue (Nat.toDigits 10 number) = number :=
  Nat.ofDigitChars_toDigits (by decide) (by decide)

theorem integer?_decimal (value : Int) : integer? (decimal value).toList = some value := by
  have digits : ∀ c ∈ Nat.toDigits 10 value.natAbs, isAsciiDigit c = true :=
    fun c => isAsciiDigit_of_mem_toDigits
  rw [decimal, String.toList_ofList]
  split
  · rw [integer?, natural?_digits Nat.toDigits_ne_nil digits, digitsValue_toDigits,
      Option.map_some]
    exact congrArg some (by omega)
  · rw [integer?_digits Nat.toDigits_ne_nil digits, digitsValue_toDigits]
    exact congrArg some (Int.natAbs_of_nonneg (by omega))

theorem toList_decimal (number : Nat) : (decimal number).toList = Nat.toDigits 10 number := by
  rw [decimal, String.toList_ofList, if_neg (by omega), Int.natAbs_natCast]

theorem mem_decimal {value : Int} {c : Char} (member : c ∈ (decimal value).toList) :
    c = '-' ∨ isAsciiDigit c = true := by
  rw [decimal, String.toList_ofList] at member
  split at member
  · rcases List.mem_cons.mp member with rfl | digit
    · exact .inl rfl
    · exact .inr (isAsciiDigit_of_mem_toDigits digit)
  · exact .inr (isAsciiDigit_of_mem_toDigits member)

theorem decimal_visible {value : Int} {c : Char} (member : c ∈ (decimal value).toList) :
    isBlank c = false := by
  rcases mem_decimal member with rfl | digit
  · decide
  · exact isBlank_of_isAsciiDigit digit

theorem toList_padLeft (width : Nat) (fill : Char) (text : String) :
    (padLeft width fill text).toList =
      List.replicate (width - text.length) fill ++ text.toList := by
  rw [padLeft, String.toList_append, String.toList_ofList]

theorem isAsciiDigit_of_mem_padLeft {width number : Nat} {c : Char}
    (member : c ∈ (padLeft width '0' (decimal number)).toList) : isAsciiDigit c = true := by
  rw [toList_padLeft, toList_decimal] at member
  rcases List.mem_append.mp member with zero | digit
  · rw [List.eq_of_mem_replicate zero]
    rfl
  · exact isAsciiDigit_of_mem_toDigits digit

theorem padLeft_ne_nil (width number : Nat) : (padLeft width '0' (decimal number)).toList ≠ [] := by
  simp [toList_padLeft, toList_decimal, Nat.toDigits_ne_nil]

/-- Zeros that fill a column make no difference. -/
theorem integer?_padLeft (width number : Nat) :
    integer? (padLeft width '0' (decimal number)).toList = some (number : Int) := by
  have zeros (count : Nat) : digitsValue (List.replicate count '0' ++ Nat.toDigits 10 number) =
      number := by
    induction count with
    | zero => exact digitsValue_toDigits number
    | succ count ih => exact ih
  rw [integer?_digits (padLeft_ne_nil width number) fun c => isAsciiDigit_of_mem_padLeft,
    toList_padLeft, toList_decimal, zeros]

end ThreadedCode.Text
