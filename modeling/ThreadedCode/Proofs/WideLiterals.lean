import ThreadedCode.Proofs.Disassembly
import ThreadedCode.Proofs.References

/-!
# Integers that take two units

An integer takes two units right after a reference to the wide-integer word. What stands right in
front of it is the last token that has emitted units: comments, flags and labels do not count. After
anything but a reference it takes one unit, even if the last unit is the index of the wide-integer
word by chance, with one exception. A push of one of the first two slots ends with a word of its own,
and where that word is missing the zero in its place passes for a reference to word zero
(`literal_width`).
-/

namespace ThreadedCode

open Compiler

/-- Words with different names are not found at the same index. -/
theorem Catalog.findName?_ne {catalog : Catalog} {first second : String} {index : Nat}
    (differ : first ≠ second) (found : catalog.findName? first = some index) :
    catalog.findName? second ≠ some index := by
  intro other
  have here := (lastIndex?_eq_some_iff.mp found).1
  have there := (lastIndex?_eq_some_iff.mp other).1
  simp only [places, Set.mem_ofPred_eq, Option.any_eq_true] at here there
  obtain ⟨word, listed, named⟩ := here
  obtain ⟨same, again, renamed⟩ := there
  obtain rfl := Option.some.inj (listed.symm.trans again)
  exact differ ((beq_iff_eq.mp named).symm.trans (beq_iff_eq.mp renamed))

namespace Compiler

/-! ### The word that a turn ends with -/

/-- A turn refers to a word: by its name, by its constant or as the word being defined. -/
inductive Refers (state : State) (turn : Turn) : Int → Prop where
  | name {index : Nat} (plain : IsPlain state turn.token)
      (found : state.findWord? turn.token.lexeme = some index) : Refers state turn index
  | constant {name : Option String} {index : Nat} (kind : turn.token.kind = .reference name)
      (resolved : name.bind state.findConstant? = some index) : Refers state turn index
  | own {name : Option String} (kind : turn.token.kind = .reference name)
      (unresolved : name.bind state.findConstant? = none) (hinted : turn.before.hint = name) :
      Refers state turn state.nextIndex
  | recurse (kind : turn.token.kind = .recurse) : Refers state turn state.nextIndex

/-- The word of its own that pushes one of the first two slots, if it is there. -/
def slotWord? (state : State) (slot : Nat) : Option Int :=
  if slot = 0 then state.bootstrap.falseWord else state.bootstrap.oneWord

/-- A turn pushes one of the first two slots. -/
def PushesSlot (state : State) (turn : Turn) (slot : Nat) : Prop :=
  slot ≤ 1 ∧ ∃ name, turn.token.kind = .variableRef name ∧ name.bind state.slots.find? = some slot

/-- The last unit of a turn counts as a reference to a word. In a push of a slot whose word is
missing it is zero. -/
def EndsWith (state : State) (turn : Turn) (index : Int) : Prop :=
  Refers state turn index ∨
    ∃ slot, PushesSlot state turn slot ∧ (slotWord? state slot).getD 0 = index

theorem lastWord_ofBootstrap (index : Option Int) (name : Option String) :
    (Block.ofBootstrap index name).lastWord = some (index.getD 0) := by
  cases index <;> rfl

theorem lastWord_variableBlock (state : State) (slot : Nat) :
    (variableBlock state slot).lastWord =
      if slot ≤ 1 then some ((slotWord? state slot).getD 0) else none := by
  match slot with
  | 0 => exact lastWord_ofBootstrap _ _
  | 1 => exact lastWord_ofBootstrap _ _
  | slot + 2 => rfl

theorem lastWord_stringBlock {state : State} {site : Site} {text : String} {block : Block}
    (packed : stringBlock state site text = .ok block) : block.lastWord = none := by
  unfold stringBlock at packed
  split at packed
  · cases packed
  · split at packed
    · cases packed
    · rw [← Except.ok.inj packed]
      rfl

theorem lastWord_plainBlock {state : State} {lastWord : Option Int} {lexeme : String}
    {block : Block} (resolved : plainBlock state lastWord lexeme = .ok block) :
    block.lastWord = (state.findWord? lexeme).map Int.ofNat := by
  unfold plainBlock at resolved
  split at resolved
  · rename_i found
    rw [← Except.ok.inj resolved, found]
    rfl
  · rename_i absent
    rw [absent]
    repeat' split at resolved
    all_goals cases resolved
    all_goals rfl

/-- Flags and labels are the only tokens outside comments that emit nothing. -/
theorem isContent_of_tokenSize {state : State} {token : Token} (size : TokenSize state token 0) :
    token.isContent = false := by
  have plain : ¬ PlainSize state token.lexeme 0 := by
    unfold PlainSize
    split <;> omega
  unfold TokenSize at size
  unfold Token.isContent
  split at size
  case h_1 | h_2 => simp_all
  all_goals exfalso
  · omega
  · omega
  · omega
  · split at size
    · split at size <;> omega
    · exact plain size
  · obtain ⟨bytes, -, length⟩ := size
    unfold Code.packedLength at length
    omega
  · exact plain size
  · exact plain size
  all_goals exact size

namespace Turn

variable {state : State} {turn : Turn}

theorem endsWith_of_lastWord (cases : Draft.CodeEffect state turn.before turn.token turn.effect)
    (emits : turn.units ≠ []) (own : turn.before.index = state.nextIndex) {index : Int}
    (last : turn.after.lastWord = some index) : EndsWith state turn index := by
  rw [turn.units_eq] at emits
  rcases turn with ⟨token, draft, effect⟩
  dsimp only at cases emits own
  have emitted : ∀ {block}, effect = .emit block → block.lastWord = some index := fun same =>
    (Spells.lastWord_emit same).symm.trans last
  cases cases with
  | opening | flag | labelDef => exact absurd rfl emits
  -- The zeros that are filled in later are no words.
  | waiting | labelUse => cases last
  | recurse kind =>
    rw [← Option.some.inj (emitted rfl), own]
    exact .inl (.recurse kind)
  | known kind resolved =>
    rw [← Option.some.inj (emitted rfl)]
    exact .inl (.constant kind resolved)
  | own kind unresolved hinted =>
    rw [← Option.some.inj (emitted rfl), own]
    exact .inl (.own kind unresolved hinted)
  | @slot name slot kind declared =>
    have ends := emitted rfl
    rw [lastWord_variableBlock] at ends
    split at ends
    · rename_i first
      exact .inr ⟨slot, ⟨first, name, kind, declared⟩, Option.some.inj ends⟩
    · cases ends
  | string kind packed =>
    have ends := emitted rfl
    rw [lastWord_stringBlock packed] at ends
    cases ends
  | plain kind resolved =>
    have ends := emitted rfl
    rw [lastWord_plainBlock resolved] at ends
    obtain ⟨word, found, rfl⟩ := Option.map_eq_some_iff.mp ends
    exact .inl (.name kind found)

theorem lastWord_of_endsWith (found : Draft.effect? state turn.before turn.token = .ok turn.effect)
    (outside : turn.inCode = true) (own : turn.before.index = state.nextIndex) {index : Int}
    (ends : EndsWith state turn index) : turn.after.lastWord = some index := by
  have cases := turn.codeEffect found outside
  rcases ends with refers | ⟨slot, ⟨first, name, kind, declared⟩, same⟩
  · cases refers with
    | name plain known => exact Spells.lastWord_emit (Spells.word_effect cases plain known)
    | constant kind resolved =>
      have effect := Turn.referenceEffect found outside kind
      rw [Draft.referenceEffect, resolved] at effect
      exact Spells.lastWord_emit effect
    | own kind unresolved hinted =>
      have effect := Turn.referenceEffect found outside kind
      rw [Draft.referenceEffect, unresolved, if_pos hinted, own] at effect
      exact Spells.lastWord_emit effect
    | recurse kind =>
      have effect := cases.recurse_eq kind
      rw [own] at effect
      exact Spells.lastWord_emit effect
  · rw [Spells.lastWord_emit (cases.variableBlock kind declared), lastWord_variableBlock,
      if_pos first, same]

theorem lastWord_of_silent (found : Draft.effect? state turn.before turn.token = .ok turn.effect)
    (silent : turn.inCode = true → turn.units = []) :
    turn.after.lastWord = turn.before.lastWord := by
  cases outside : turn.inCode with
  | false => exact turn.lastWord_of_not_inCode found outside
  | true =>
    have cases := turn.codeEffect found outside
    obtain ⟨-, other⟩ := of_decide_eq_true outside
    have size := tokenSize_of_codeEffect cases other
    rw [← turn.units_eq, silent outside] at size
    refine (cases.of_not_isContent ?_).2.2
    rw [List.length_nil] at size
    exact isContent_of_tokenSize size

end Turn

/-! ### The last word of a body -/

/-- A turn is the last of some turns that has emitted units. -/
def LastEmits (turns : List Turn) (turn : Turn) : Prop :=
  ∃ earlier bare, turns = earlier ++ turn :: bare ∧ turn.units ≠ [] ∧
    ∀ other ∈ bare, other.units = []

namespace Passes

variable {state : State} {draft final : Draft} {turns : List Turn} {word : String}

theorem lastWord_of_silent (passes : Passes state draft turns final)
    (silent : ∀ turn ∈ codeTurns turns, turn.units = []) : final.lastWord = draft.lastWord := by
  induction passes with
  | nil draft => rfl
  | @cons draft final token effect turns found rest ih =>
    have later : ∀ turn ∈ codeTurns turns, turn.units = [] := by
      intro turn member
      obtain ⟨inside, outside⟩ := List.mem_filter.mp member
      exact silent turn (List.mem_filter.mpr ⟨List.mem_cons_of_mem _ inside, outside⟩)
    have first : (Turn.mk token draft effect).after.lastWord = draft.lastWord := by
      apply Turn.lastWord_of_silent found
      intro outside
      exact silent _ (List.mem_filter.mpr ⟨List.mem_cons_self, outside⟩)
    rw [ih later]
    exact first

theorem lastWord_of_lastEmits (passes : Passes state (state.newDraft word) turns final) {turn : Turn}
    (last : LastEmits (codeTurns turns) turn) {index : Int} :
    final.lastWord = some index ↔ EndsWith state turn index := by
  obtain ⟨earlier, bare, split, emits, silent⟩ := last
  obtain ⟨front, back, rfl, -, rfl, outside⟩ := codeTurns_split split
  obtain ⟨before, found, rest⟩ := passes.split
  rw [rest.lastWord_of_silent silent]
  exact ⟨Turn.endsWith_of_lastWord (turn.codeEffect found outside) emits before.fixed.2.1,
    Turn.lastWord_of_endsWith found outside before.fixed.2.1⟩

theorem lastWord_eq_some_iff (passes : Passes state (state.newDraft word) turns final)
    {index : Int} : final.lastWord = some index ↔
      ∃ turn, LastEmits (codeTurns turns) turn ∧ EndsWith state turn index := by
  refine ⟨fun last => ?_, fun ⟨turn, there, ends⟩ => (passes.lastWord_of_lastEmits there).mpr ends⟩
  rcases exists_last_turn (fun turn => turn.units ≠ []) (codeTurns turns) with
    ⟨earlier, turn, bare, split, emits, others⟩ | silent
  · have there : LastEmits (codeTurns turns) turn :=
      ⟨earlier, bare, split, emits, fun other member => not_not.mp (others other member)⟩
    exact ⟨turn, there, (passes.lastWord_of_lastEmits there).mp last⟩
  · rw [passes.lastWord_of_silent fun turn member => not_not.mp (silent turn member)] at last
    cases last

end Passes

/-! ### Integers -/

/-- Some turns end with the wide-integer word. -/
def EndsWide (state : State) (turns : List Turn) : Prop :=
  ∃ wide turn, state.bootstrap.wideInt = some wide ∧ LastEmits turns turn ∧
    EndsWith state turn wide

/-- Among bootstrap words that are looked up under their own names, the wide-integer word pushes no
slot; only the zero that stands for a missing word may be its index. -/
theorem EndsWith.refers_or_missing {state : State} {turn : Turn} {wide : Int} {catalog : Catalog}
    (looked : state.bootstrap = Bootstrap.ofCatalog catalog {})
    (present : state.bootstrap.wideInt = some wide) (ends : EndsWith state turn wide) :
    Refers state turn wide ∨
      ∃ slot, PushesSlot state turn slot ∧ slotWord? state slot = none ∧ wide = 0 := by
  refine ends.imp id fun ⟨slot, pushes, same⟩ => ⟨slot, pushes, ?_⟩
  -- Under another name than that of the wide-integer word another word is found, if any.
  have apart : ∀ name : String, name ≠ "int" →
      slotWord? state slot = (catalog.findName? name).map Int.ofNat →
      slotWord? state slot = none := by
    intro name differ found
    rw [looked] at present
    obtain ⟨index, known, rfl⟩ := Option.map_eq_some_iff.mp present
    cases other : catalog.findName? name with
    | none => rw [found, other, Option.map_none]
    | some place =>
      rw [found, other, Option.map_some, Option.getD_some] at same
      rw [Int.ofNat.inj same] at other
      exact absurd known (Catalog.findName?_ne differ other)
  have missing : slotWord? state slot = none := by
    by_cases zero : slot = 0
    · exact apart "false" (by decide) (by rw [slotWord?, if_pos zero, looked]; rfl)
    · exact apart "'1" (by decide) (by rw [slotWord?, if_neg zero, looked]; rfl)
  rw [missing, Option.getD_none] at same
  exact ⟨missing, same.symm⟩

/-- An integer that is not the name of a word takes two units exactly if the last token in front of
it that has emitted units ends with the wide-integer word. That token refers to the word, or, if the
bootstrap words are those of a catalog, it pushes one of the first two slots, the word that pushes
the slot is missing, and the wide-integer word is word zero. -/
theorem literal_width {state : State} {word : String} {draft : Draft}
    {turns earlier later : List Turn} {literal : Turn} {value : Int}
    (passes : Passes state (state.newDraft word) turns draft)
    (split : codeTurns turns = earlier ++ literal :: later)
    (plain : IsPlain state literal.token) (unknown : state.findWord? literal.token.lexeme = none)
    (number : Text.parseInt32 literal.token.lexeme.toList = .ok (some value)) :
    (EndsWide state earlier ∧ literal.units = Code.splitWide value ∨
      ¬ EndsWide state earlier ∧ literal.units = [Code.toUnit value]) ∧
    (∀ catalog, state.bootstrap = Bootstrap.ofCatalog catalog {} →
      ∀ wide turn, state.bootstrap.wideInt = some wide → EndsWith state turn wide →
        Refers state turn wide ∨
          ∃ slot, PushesSlot state turn slot ∧ slotWord? state slot = none ∧ wide = 0) := by
  refine ⟨?_, fun catalog looked wide turn present ends => ends.refers_or_missing looked present⟩
  obtain ⟨front, back, rfl, rfl, -, outside⟩ := codeTurns_split split
  obtain ⟨before, found, -⟩ := passes.split
  have wide : EndsWide state (codeTurns front) ↔
      ∃ wide, state.bootstrap.wideInt = some wide ∧ literal.before.lastWord = some wide := by
    constructor
    · rintro ⟨wide, turn, present, last, ends⟩
      exact ⟨wide, present, before.lastWord_eq_some_iff.mpr ⟨turn, last, ends⟩⟩
    · rintro ⟨wide, present, here⟩
      obtain ⟨turn, last, ends⟩ := before.lastWord_eq_some_iff.mp here
      exact ⟨wide, turn, present, last, ends⟩
  obtain ⟨block, resolved, emitted⟩ := (literal.codeEffect found outside).plainBlock plain
  simp only [plainBlock, unknown, number] at resolved
  rw [wide, literal.units_eq, emitted]
  split at resolved
  · rename_i widened
    obtain ⟨present, here⟩ : state.bootstrap.wideInt.isSome = true ∧
        literal.before.lastWord = state.bootstrap.wideInt := by simpa using widened
    obtain ⟨wide, known⟩ := Option.isSome_iff_exists.mp present
    refine .inl ⟨⟨wide, known, here.trans known⟩, ?_⟩
    rw [← Except.ok.inj resolved]
    simp [Effect.units, Code.splitWide, Code.toUnit]
  · rename_i narrow
    refine .inr ⟨?_, by rw [← Except.ok.inj resolved]; rfl⟩
    rintro ⟨wide, known, here⟩
    exact narrow (by simp [known, here])

def wideCatalog : Catalog :=
  (({} : Catalog).register "int" none none none).register "vars" none none none

/-- A state with the wide-integer word as word zero and a variable, and without the word that pushes
its slot. -/
def wideStart : State where
  catalog := wideCatalog
  slots := .ofList ["a"]
  bootstrap := .ofCatalog wideCatalog {}

theorem literal_width_sample :
    ∃ turns draft earlier literal,
      Passes wideStart (wideStart.newDraft "w") turns draft ∧
      turns.map (·.token.kind) = [.word, .labelDef (some "A"), .word] ∧
      codeTurns turns = earlier ++ literal :: [] ∧ IsPlain wideStart literal.token ∧
      wideStart.findWord? literal.token.lexeme = none ∧
      Text.parseInt32 literal.token.lexeme.toList = .ok (some 70000) ∧
      EndsWide wideStart earlier ∧ literal.units = [1, 4464] ∧
      wideStart.bootstrap = Bootstrap.ofCatalog wideStart.catalog {} := by
  let wide : Turn := ⟨⟨.word, "int", some 1, some 2⟩, wideStart.newDraft "w", .emit (.ofWord 0)⟩
  let label : Turn := ⟨⟨.labelDef (some "A"), ":A", some 1, some 6⟩, wide.after,
    .defineLabel (some "A")⟩
  let literal : Turn := ⟨⟨.word, "70000", some 1, some 9⟩, label.after, .emit { values := [1, 4464] }⟩
  have passes : Passes wideStart (wideStart.newDraft "w") [wide, label, literal] literal.after :=
    .cons (by decide +kernel) (.cons (by decide +kernel) (.cons (by decide +kernel) (.nil _)))
  have refers : EndsWide wideStart [wide, label] := by
    refine ⟨0, wide, by decide +kernel, ⟨[], [label], rfl, ?_, ?_⟩, .inl (.name (.inl rfl) ?_)⟩
    · rw [wide.units_eq]
      decide
    · intro other member
      rw [List.mem_singleton.mp member, label.units_eq]
      rfl
    · decide +kernel
  have plain : IsPlain wideStart literal.token := .inl rfl
  have unknown : wideStart.findWord? literal.token.lexeme = none := by decide +kernel
  have number : Text.parseInt32 literal.token.lexeme.toList = .ok (some 70000) := by decide +kernel
  have split : codeTurns [wide, label, literal] = [wide, label] ++ literal :: [] := rfl
  obtain ⟨width, -⟩ := literal_width passes split plain unknown number
  rcases width with ⟨-, units⟩ | ⟨narrow, -⟩
  · exact ⟨_, _, _, _, passes, rfl, split, plain, unknown, number, refers, units, rfl⟩
  · exact absurd refers narrow

/-- The push of a variable is the last token in front of the integer, and the integer takes two
units. -/
theorem missing_word_widens_literal :
    wideStart.bootstrap = Bootstrap.ofCatalog wideStart.catalog {} ∧ wideStart.names = {} ∧
      wideStart.bootstrap.wideInt = some 0 ∧
      (bodyTokens? ": w $a 7 ;" 1).map (·.map Token.kind) =
        some [.variableRef (some "a"), .word] ∧
      wideStart.findWord? "7" = none ∧ Text.parseInt32 "7".toList = .ok (some 7) ∧
      (wideStart.compile ": w $a 7 ;" (some 1)).2 = .ok (some
        { name := "w", constant := "w", flags := {}, code := #[0, 1, 0, 0, 7], doc := none }) ∧
      (wideStart.compile ": w $a 7 ;" (some 1)).1.diagnostics =
        #[⟨.missingBootstrapWord (some "false"),
          { word := some "w", line := some 1, column := some 2 }⟩] := by
  decide +kernel

end Compiler

end ThreadedCode
