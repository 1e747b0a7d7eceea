import Mathlib.Data.Int.ModEq
import ThreadedCode.Proofs.Labels
import ThreadedCode.Proofs.Numbers
import ThreadedCode.Proofs.WideLiterals

/-!
# The values of integer literals

A token that is no word is an integer literal if it is a decimal number, with or without a sign,
that fits 32 bits. Its units hold the value: two of them the whole value, one of them the value
modulo 65536. Any other token stands for a zero and is reported, unless its place cannot be written
(`literal_value`).
-/

namespace ThreadedCode

open Compiler

namespace Text

/-! ### Decimal numbers -/

theorem splitSign_suffix (text : List Char) : (splitSign text).2 <:+ text := by
  unfold splitSign
  split
  · exact List.suffix_cons _ _
  · exact List.suffix_cons _ _
  · exact List.suffix_rfl

theorem chopNewline_visible {text : List Char} (visible : ∀ c ∈ text, isBlank c = false) :
    chopNewline text = text := by
  refine if_neg fun newline => ?_
  exact absurd (visible _ (List.mem_of_getLast? newline)) (by decide)

/-- A text without blanks and of few enough digits is read as an integer that fits, or not at
all. -/
theorem parseInt32_eq {text : List Char} (visible : ∀ c ∈ text, isBlank c = false)
    (few : text.countP isAsciiDigit ≤ maxDigits) :
    parseInt32 text = .ok ((integer? text).filter fun value => fitsInt32 value) := by
  rw [parseInt32, chopNewline_visible visible, integer?_eq, natural?_eq]
  dsimp only
  split
  · rfl
  · rename_i number
    obtain ⟨-, digits⟩ : (splitSign text).2 ≠ [] ∧ ∀ c ∈ (splitSign text).2,
        isAsciiDigit c = true := by
      simpa using number
    -- All that is behind the sign counts as digits, so the limit is not reached.
    have short : (splitSign text).2.length ≤ maxDigits := by
      rw [← List.countP_eq_length.mpr digits]
      exact ((splitSign_suffix text).sublist.countP_le).trans few
    rw [if_neg (Nat.not_lt.mpr short), Option.map_some, Option.filter_some]

example : integer? "-0070".toList = some (-70) ∧
    parseInt32 "-0070".toList = .ok (some (-70)) := by
  decide

end Text

namespace Compiler

variable {state : State} {draft : Draft} {token : Token}

/-- The last unit refers to the wide-integer word. -/
def AfterWide (state : State) (draft : Draft) : Prop :=
  ∃ index, state.bootstrap.wideInt = some index ∧ draft.lastWord = some index

/-- The units of a value: its two halves right after the wide-integer word, elsewhere the unit that
is congruent to it. -/
structure HoldsValue (value : Int) (wide : Prop) (units : List Int) : Prop where
  halves : wide → ∃ high low, units = [high, low] ∧ (0 ≤ high ∧ high ≤ 65535) ∧
    (0 ≤ low ∧ low ≤ 65535) ∧ Code.joinWide high low = value
  single : ¬ wide → ∃ unit, units = [unit] ∧ (0 ≤ unit ∧ unit ≤ 65535) ∧
    unit ≡ value [ZMOD 65536] ∧ (-32768 ≤ value → value ≤ 32767 → Code.signed unit = value)

theorem toUnit_range (value : Int) : 0 ≤ Code.toUnit value ∧ Code.toUnit value ≤ 65535 :=
  ⟨Code.toUnit_nonneg value, Int.le_of_lt_add_one (Code.toUnit_lt value)⟩

theorem effect?_plain (outside : draft.commentDepth = 0) (plain : IsPlain state token) :
    Draft.effect? state draft token = Draft.plainEffect? state draft token := by
  rw [Draft.effect?, if_neg (by omega), Draft.codeEffect?]
  obtain kind | kind | ⟨name, kind, absent⟩ := plain
  · rw [kind]
  · rw [kind]
  · rw [kind]
    dsimp only
    rw [absent]

/-- An integer that is no word emits its units and is not reported. -/
theorem plainEffect?_integer (unknown : state.findWord? token.lexeme = none) {value : Int}
    (read : Text.parseInt32 token.lexeme.toList = .ok (some value)) :
    (AfterWide state draft ∧
        Draft.plainEffect? state draft token = .ok (.emit { values := Code.splitWide value })) ∨
      (¬ AfterWide state draft ∧
        Draft.plainEffect? state draft token = .ok (.emit (.ofValue value))) := by
  have wide : AfterWide state draft ↔
      (state.bootstrap.wideInt.isSome && draft.lastWord == state.bootstrap.wideInt) = true := by
    unfold AfterWide
    cases state.bootstrap.wideInt <;> simp
  rw [wide]
  simp only [Draft.plainEffect?, plainBlock, unknown, read]
  by_cases after : (state.bootstrap.wideInt.isSome &&
      draft.lastWord == state.bootstrap.wideInt) = true
  · rw [if_pos after]
    exact .inl ⟨after, rfl⟩
  · rw [if_neg after]
    exact .inr ⟨after, rfl⟩

/-- What is neither a word nor an integer is reported at its site, or fails where the site cannot be
written. -/
theorem plainEffect?_unread (unknown : state.findWord? token.lexeme = none)
    (unread : Text.parseInt32 token.lexeme.toList = .ok none) :
    Draft.plainEffect? state draft token =
      if (draft.site token).isWritable then
        .ok (.emit { values := [0], problems := [.unresolvedWord token.lexeme] })
      else .error (.tooManyDigits {}) := by
  simp [Draft.plainEffect?, plainBlock, unknown, unread, Draft.emitEffect?]

theorem holdsValue_of_integer {effect : Effect} {value : Int}
    (fits : Text.fitsInt32 value = true)
    (emits : (AfterWide state draft ∧ effect = .emit { values := Code.splitWide value }) ∨
      (¬ AfterWide state draft ∧ effect = .emit (.ofValue value))) :
    HoldsValue value (AfterWide state draft) effect.units := by
  rcases emits with ⟨wide, rfl⟩ | ⟨narrow, rfl⟩
  · refine ⟨fun _ => ?_, fun other => absurd wide other⟩
    refine ⟨Code.toUnit (value / 65536), Code.toUnit value, ?_, toUnit_range _, toUnit_range _,
      Code.joinWide_splitWide fits⟩
    simp [Effect.units, Code.splitWide, Code.toUnit]
  · refine ⟨fun other => absurd other narrow, fun _ => ?_⟩
    refine ⟨Code.toUnit value, rfl, toUnit_range _, Int.mod_modEq _ _, fun least most => ?_⟩
    exact Code.signed_toUnit (by simp [Code.fitsSigned, least, most])

/-- A plain token outside comments that is no word, has no blanks and has few enough digits, in any
definition: if it is an integer of 32 bits, its units hold the value and nothing is reported.
Otherwise it emits a zero and is reported once, unless its line or column has too many digits to be
written: then it fails and emits nothing. -/
theorem literal_value (outside : draft.commentDepth = 0) (plain : IsPlain state token)
    (unknown : token.lexeme ∉ state.declared)
    (visible : token.lexeme.toList.any Text.isBlank = false)
    (few : token.lexeme.toList.countP Text.isAsciiDigit ≤ 4300) :
    (∀ value, Text.integer? token.lexeme.toList = some value → -2 ^ 31 ≤ value → value < 2 ^ 31 →
      ∃ next units, Draft.addTokens state draft [token] = (next, none) ∧
        next.code.units.toList = draft.code.units.toList ++ units ∧
        HoldsValue value (AfterWide state draft) units ∧
        next.diagnostics = draft.diagnostics) ∧
    ((∀ value, Text.integer? token.lexeme.toList = some value →
        ¬ (-2 ^ 31 ≤ value ∧ value < 2 ^ 31)) →
      ((draft.site token).isWritable = true →
        ∃ next, Draft.addTokens state draft [token] = (next, none) ∧
          next.code.units.toList = draft.code.units.toList ++ [0] ∧
          next.diagnostics =
            draft.diagnostics.push ⟨.unresolvedWord token.lexeme, draft.site token⟩) ∧
      ((draft.site token).isWritable = false →
        Draft.addTokens state draft [token] = (draft, some (.tooManyDigits {})))) := by
  have absent := State.findWord?_eq_none_iff.mpr unknown
  have found := effect?_plain outside plain
  have read := Text.parseInt32_eq (by simpa using visible) few
  have fits : ∀ value : Int, Text.fitsInt32 value = true ↔ -2 ^ 31 ≤ value ∧ value < 2 ^ 31 := by
    intro value
    simp only [Text.fitsInt32, Bool.and_eq_true, decide_eq_true_eq]
    omega
  refine ⟨fun value written least most => ?_, fun other => ?_⟩
  · have inside := (fits value).mpr ⟨least, most⟩
    rw [written, Option.filter_some, if_pos inside] at read
    obtain ⟨effect, emits, same⟩ : ∃ effect, Draft.plainEffect? state draft token = .ok effect ∧
        ((AfterWide state draft ∧ effect = .emit { values := Code.splitWide value }) ∨
          (¬ AfterWide state draft ∧ effect = .emit (.ofValue value))) := by
      rcases plainEffect?_integer absent read with ⟨wide, emits⟩ | ⟨narrow, emits⟩
      · exact ⟨_, emits, .inl ⟨wide, rfl⟩⟩
      · exact ⟨_, emits, .inr ⟨narrow, rfl⟩⟩
    refine ⟨draft.apply token effect, effect.units, ?_, ?_, holdsValue_of_integer inside same, ?_⟩
    · rw [Draft.addTokens, found, emits]
      rfl
    · rw [Draft.units_apply]
      simp
    · rcases same with ⟨-, rfl⟩ | ⟨-, rfl⟩ <;> simp [Draft.apply, Draft.emit_eq, Block.ofValue]
  · have nothing : (Text.integer? token.lexeme.toList).filter
        (fun value => Text.fitsInt32 value) = none := by
      rw [Option.filter_eq_none_iff]
      exact fun value written inside => other value written ((fits value).mp inside)
    rw [nothing] at read
    have effect : Draft.plainEffect? state draft token = _ := plainEffect?_unread absent read
    refine ⟨fun writable => ?_, fun unwritable => ?_⟩
    · rw [if_pos writable] at effect
      refine ⟨_, by rw [Draft.addTokens, found, effect]; rfl, ?_, ?_⟩
      · rw [Draft.units_apply]
        simp [Effect.units, Code.toUnit]
      · simp [Draft.apply, Draft.emit_eq]
    · rw [if_neg (by simp [unwritable])] at effect
      rw [Draft.addTokens, found, effect]

/-- A definition whose last unit refers to the wide-integer word. -/
def afterWideDraft : Draft :=
  { wideStart.newDraft "w" with lastWord := some 0 }

theorem literal_value_sample :
    (∃ next high low,
      Draft.addTokens wideStart afterWideDraft [⟨.word, "-0070000", some 1, some 6⟩] =
        (next, none) ∧
      next.code.units.toList = [high, low] ∧ Code.joinWide high low = -70000 ∧
      next.diagnostics = #[]) ∧
    ∃ next, Draft.addTokens wideStart afterWideDraft [⟨.word, "70_000", some 1, some 6⟩] =
        (next, none) ∧
      next.code.units.toList = [0] ∧ next.diagnostics.toList.map (·.problem) =
        [.unresolvedWord "70_000"] := by
  have wide : AfterWide wideStart afterWideDraft := ⟨0, by decide +kernel, rfl⟩
  obtain ⟨reads, -⟩ := @literal_value wideStart afterWideDraft
    ⟨.word, "-0070000", some 1, some 6⟩ rfl (.inl rfl) (by decide +kernel)
    (by decide +kernel) (by decide +kernel)
  obtain ⟨next, units, added, code, holds, silent⟩ :=
    reads (-70000) (by decide +kernel) (by decide) (by decide)
  obtain ⟨high, low, rfl, -, -, value⟩ := holds.halves wide
  refine ⟨⟨next, high, low, added, code, value, silent⟩, ?_⟩
  obtain ⟨-, fails⟩ := @literal_value wideStart afterWideDraft
    ⟨.word, "70_000", some 1, some 6⟩ rfl (.inl rfl) (by decide +kernel)
    (by decide +kernel) (by decide +kernel)
  have other : Text.integer? "70_000".toList = none := by decide +kernel
  obtain ⟨next, added, code, reports⟩ := (fails fun value written => by
    rw [other] at written
    cases written).1 (by decide +kernel)
  exact ⟨next, added, code, by rw [reports]; rfl⟩

/-- An unknown word on a line of 4301 digits. -/
theorem unknown_word_beyond_digits :
    bodyTokens? ": w\nx ;" (10 ^ Text.maxDigits - 1) =
        some [⟨.word, "x", some (10 ^ Text.maxDigits), some 1⟩] ∧
      "x" ∉ sampleStart.declared ∧ Text.integer? "x".toList = none ∧
      (Draft.addTokens sampleStart (sampleStart.newDraft "w")
        [⟨.word, "x", some (10 ^ Text.maxDigits), some 1⟩]).2 = some (.tooManyDigits {}) ∧
      (sampleStart.compile ": w\nx ;" (some (10 ^ Text.maxDigits - 1))).2 =
        .error (.tooManyDigits {}) ∧
      (sampleStart.compile ": w\nx ;" (some (10 ^ Text.maxDigits - 1))).1.diagnostics = #[] := by
  refine ⟨?_, ?_, ?_, ?_, ?_, ?_⟩
  all_goals decide +kernel

end Compiler

end ThreadedCode
