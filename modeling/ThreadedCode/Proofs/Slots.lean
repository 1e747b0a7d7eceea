import Mathlib.Data.List.Induction
import ThreadedCode.Proofs.Dictionary
import ThreadedCode.Proofs.Rows

/-!
# Slots of variables

A variable that is registered again hides the slot it had, so the slot of a name is the last place at
which the name was registered. A `$NAME` pushes that slot: the first two have words of their own, and
any other is a literal behind the short-literal word, which is looked up anew for each push and may
be a compiled word. In the table of a run the slot is a place of the name, and the last one
(`variable_references`).
-/

namespace ThreadedCode

open Compiler

/-! ### Registering variables -/

namespace Variables

theorem find?_register (slots : Variables) (name other : String) :
    (slots.register name).find? other =
      if name = other then some slots.size else slots.find? other := by
  have below : ∀ place < slots.names.size,
      (slots.names.push name)[place]?.any (· == other) = slots.names[place]?.any (· == other) := by
    intro place inside
    rw [Array.getElem?_push_lt inside, Array.getElem?_eq_getElem inside]
  show lastIndexBelow? (slots.names.push name) (· == other) (slots.names.push name).size = _
  rw [Array.size_push, lastIndexBelow?, Array.getElem?_push_size, Option.any_some]
  by_cases same : name = other
  · rw [if_pos (beq_iff_eq.mpr same), if_pos same]
    rfl
  · rw [if_neg (mt beq_iff_eq.mp same), if_neg same, lastIndexBelow?_congr below]
    rfl

theorem size_registered (registered : List String) :
    (registered.foldl register {}).size = registered.length := by
  induction registered using List.reverseRecOn with
  | nil => rfl
  | append_singleton registered last ih => simp [ih]

theorem names_registered (registered : List String) :
    (registered.foldl register {}).names = registered.toArray := by
  induction registered using List.reverseRecOn with
  | nil => rfl
  | append_singleton registered last ih => simp [register, ih]

theorem ofList_eq (names : List String) : ofList names = names.foldl register {} :=
  congrArg Variables.mk (names_registered names).symm

/-- A name that is registered last is found there; any other is found where it was before. -/
theorem find?_eq_some_iff {registered : List String} {name : String} {slot : Nat} :
    (registered.foldl register {}).find? name = some slot ↔
      IsGreatest {place : Nat | registered[place]? = some name} slot := by
  induction registered using List.reverseRecOn with
  | nil => simp [find?, lastIndex?, lastIndexBelow?, IsGreatest]
  | append_singleton registered last ih =>
    rw [List.foldl_append, List.foldl_cons, List.foldl_nil, find?_register, size_registered]
    by_cases same : last = name
    · subst same
      have greatest : IsGreatest {place : Nat | (registered ++ [last])[place]? = some last}
          registered.length := by
        refine ⟨by simp, fun place there => ?_⟩
        have inside := (List.getElem?_eq_some_iff.mp there).1
        rw [List.length_append, List.length_singleton] at inside
        omega
      rw [if_pos rfl, Option.some_inj]
      exact ⟨fun here => here ▸ greatest, greatest.unique⟩
    · have kept : {place : Nat | (registered ++ [last])[place]? = some name} =
          {place : Nat | registered[place]? = some name} := by
        ext place
        show (registered ++ [last])[place]? = some name ↔ registered[place]? = some name
        rw [List.getElem?_append]
        split
        · rfl
        · rename_i beyond
          rw [List.getElem?_eq_none (Nat.le_of_not_lt beyond), List.getElem?_singleton]
          split <;> simp [same]
      rw [if_neg same, ih, kept]

/-- The slot of a name holds it, and no later slot does. -/
theorem holds_find? {registered : List String} {name : String} {slot : Nat}
    (found : (registered.foldl register {}).find? name = some slot) :
    (registered.foldl register {}).names[slot]? = some name ∧
      ∀ later, slot < later → (registered.foldl register {}).names[later]? ≠ some name := by
  obtain ⟨there, greatest⟩ := find?_eq_some_iff.mp found
  simp only [names_registered, List.getElem?_toArray]
  refine ⟨there, fun later behind again => ?_⟩
  have bound := greatest again
  omega

theorem find?_eq_none_iff {registered : List String} {name : String} :
    (registered.foldl register {}).find? name = none ↔ name ∉ registered := by
  induction registered using List.reverseRecOn with
  | nil => simp [find?, lastIndex?, lastIndexBelow?]
  | append_singleton registered last ih =>
    rw [List.foldl_append, List.foldl_cons, List.foldl_nil, find?_register]
    by_cases same : last = name
    · simp [same]
    · simp [same, Ne.symm same, ih]

end Variables

/-- The variable names beside a map from each of them to its slot. -/
structure MappedVariables where
  names : Array String := #[]
  slots : Std.HashMap String Nat := {}

namespace MappedVariables

/-- Adds a variable; a repeated name gets a new slot in the map and stays in the list. -/
def register (mapped : MappedVariables) (name : String) : MappedVariables where
  names := mapped.names.push name
  slots := mapped.slots.insert name mapped.names.size

/-- The map has the slots that are found in the list. -/
structure Agrees (mapped : MappedVariables) (listed : Variables) : Prop where
  names : mapped.names = listed.names
  slots : ∀ name : String, mapped.slots[name]? = listed.find? name

theorem Agrees.register {mapped : MappedVariables} {listed : Variables}
    (agrees : mapped.Agrees listed) (name : String) :
    (mapped.register name).Agrees (listed.register name) where
  names := congrArg (·.push name) agrees.names
  slots other := by
    rw [MappedVariables.register, Std.HashMap.getElem?_insert, Variables.find?_register,
      Variables.size, agrees.names, agrees.slots]
    simp only [beq_iff_eq]

theorem agrees_registered (registered : List String) :
    (registered.foldl register {}).Agrees (registered.foldl Variables.register {}) := by
  induction registered using List.reverseRecOn with
  | nil => exact ⟨rfl, fun name => by simp [Variables.find?, lastIndex?, lastIndexBelow?]⟩
  | append_singleton registered last ih =>
    rw [List.foldl_append, List.foldl_append]
    exact ih.register last

end MappedVariables

/-! ### Pushing a slot -/

namespace Compiler

/-- The words that a push may need are there: the one that turns a slot into a variable, those of
the first two slots, and the one that pushes the unit after it. -/
structure Equipped (state : State) (vars zero one : Int) (short : Nat) : Prop where
  pushVariable : state.bootstrap.pushVariable = some vars
  falseWord : state.bootstrap.falseWord = some zero
  oneWord : state.bootstrap.oneWord = some one
  shortLiteral : state.names.shortLiteral.bind state.findWord? = some short

/-- The units that push a slot. -/
def slotUnits (vars zero one : Int) (short slot : Nat) : List Int :=
  if slot = 0 then [vars % 65536, zero % 65536]
  else if slot = 1 then [vars % 65536, one % 65536]
  else [vars % 65536, short % 65536, slot % 65536]

variable {state : State} {vars zero one : Int} {short : Nat}

theorem Equipped.variableBlock (equipped : Equipped state vars zero one short) (slot : Nat) :
    (variableBlock state slot).problems = [] ∧
      (variableBlock state slot).values.map Code.toUnit = slotUnits vars zero one short slot := by
  obtain ⟨pushVariable, falseWord, oneWord, shortLiteral⟩ := equipped
  match slot with
  | 0 => simp [Compiler.variableBlock, Block.ofBootstrap, Block.ofWord, Block.append, pushVariable,
      falseWord, slotUnits, Code.toUnit]
  | 1 => simp [Compiler.variableBlock, Block.ofBootstrap, Block.ofWord, Block.append, pushVariable,
      oneWord, slotUnits, Code.toUnit]
  | slot + 2 => simp [Compiler.variableBlock, Block.ofBootstrap, Block.ofWord, Block.ofValue,
      Block.append, pushVariable, shortLiteral, slotUnits, Code.toUnit]

/-- A variable that is declared pushes its slot, wherever in a definition it stands. -/
theorem Equipped.push (equipped : Equipped state vars zero one short) {draft : Draft} {token : Token}
    {name : String} {slot : Nat} (outside : draft.commentDepth = 0)
    (kind : token.kind = .variableRef (some name)) (declared : state.slots.find? name = some slot) :
    ∃ next, Draft.addTokens state draft [token] = (next, none) ∧
      next.code.units.toList = draft.code.units.toList ++ slotUnits vars zero one short slot ∧
      next.diagnostics = draft.diagnostics := by
  obtain ⟨silent, units⟩ := equipped.variableBlock slot
  have found : Draft.effect? state draft token = .ok (.emit (Compiler.variableBlock state slot)) := by
    rw [Draft.effect?, if_neg (by omega), Draft.codeEffect?, kind]
    simp [declared, Draft.emitEffect?, silent]
  refine ⟨draft.apply token (.emit (Compiler.variableBlock state slot)), ?_, ?_, ?_⟩
  · rw [Draft.addTokens, found]
    rfl
  · rw [Draft.units_apply, Effect.units, units]
    simp
  · rw [Draft.apply, Draft.emit_eq, silent]
    simp

theorem Turn.push {draft final : Draft} {turns : List Turn} {turn : Turn} {name : String}
    {slot : Nat} (equipped : Equipped state vars zero one short)
    (passes : Passes state draft turns final) (member : turn ∈ codeTurns turns)
    (kind : turn.token.kind = .variableRef (some name))
    (declared : state.slots.find? name = some slot) :
    turn.units = slotUnits vars zero one short slot := by
  obtain ⟨inside, outside⟩ := List.mem_filter.mp member
  have cases := turn.codeEffect (passes.effect inside) outside
  rw [turn.units_eq, cases.variableBlock kind declared]
  exact (equipped.variableBlock slot).2

end Compiler

namespace Compilation

theorem Row.slots {start : State} {table : Table} {earlier : Log} {definition : Source.Definition}
    {word : CompiledWord} {before : State} {turns : List Turn} {draft : Draft} {row : Nat}
    {code : Array Int}
    (there : Row start table earlier definition word before turns draft row code) :
    before.slots = start.slots :=
  congrArg Setup.slots there.runs.setup

/-- The units of a push are the same in the table as at the token's turn. -/
theorem Row.push {start : State} {table : Table} {earlier : Log} {definition : Source.Definition}
    {word : CompiledWord} {before : State} {turns : List Turn} {draft : Draft} {row : Nat}
    {code : Array Int} {turn : Turn} {name : String} {slot short : Nat} {vars zero one : Int}
    (there : Row start table earlier definition word before turns draft row code)
    (member : turn ∈ codeTurns turns) (kind : turn.token.kind = .variableRef (some name))
    (declared : before.slots.find? name = some slot)
    (equipped : Equipped before vars zero one short) :
    turn.unitsIn code = slotUnits vars zero one short slot := by
  have closed : ¬ turn.IsOpen before := by simp [Turn.IsOpen, kind]
  rw [there.laid.unitsIn there.passes rfl member closed]
  exact Turn.push equipped there.passes member kind declared

theorem variableNames_tableOf {start final : State} {log : Log} (runs : Runs start log final) :
    (tableOf final.finish.1).variableNames = start.slots.names :=
  congrArg (fun setup : Setup => setup.slots.names) runs.finish_frame.1

/-- The slot of a variable is the greatest place at which it was registered, and a map kept beside
the names has the same slot. A reference to it outside comments is compiled without a problem to the
push of that slot, in every state that has the words for it, and whichever word pushes short
literals at the time. In a run all variables are registered before the first definition, so the slot
has the variable's name in the table, no later slot has it, and the code of each definition pushes
that slot. -/
theorem variable_references :
    (∀ (registered : List String) (name : String),
      (∀ slot, (registered.foldl Variables.register {}).find? name = some slot ↔
        IsGreatest {place : Nat | registered[place]? = some name} slot) ∧
      ((registered.foldl Variables.register {}).find? name = none ↔ name ∉ registered) ∧
      (registered.foldl MappedVariables.register {}).slots[name]? =
        (registered.foldl Variables.register {}).find? name) ∧
    (∀ (state : State) (vars zero one : Int) (short : Nat) (draft : Draft) (token : Token)
      (name : String) (slot : Nat), Equipped state vars zero one short → draft.commentDepth = 0 →
      token.kind = .variableRef (some name) → state.slots.find? name = some slot →
      ∃ next, Draft.addTokens state draft [token] = (next, none) ∧
        next.code.units.toList = draft.code.units.toList ++ slotUnits vars zero one short slot ∧
        next.diagnostics = draft.diagnostics) ∧
    ∀ (sections : Source.Sections) (order : Order) (names : BootstrapNames)
      (filename : Option String) (compilation : Compilation),
      (ofSections sections order names filename).outcome = .ok compilation →
      ∃ start log final, initialState sections order names filename = .ok start ∧
        Runs start log final ∧ log.map Prod.fst = sections.definitions ∧
        start.slots = (sections.variableNames.getD []).foldl Variables.register {} ∧
        (∀ name slot, start.slots.find? name = some slot →
          compilation.table.variableNames[slot]? = some name ∧
          ∀ later, slot < later → compilation.table.variableNames[later]? ≠ some name) ∧
        ∀ (earlier later : Log) definition word, log = earlier ++ (definition, some word) :: later →
          ∃ before turns draft row code,
            Row start compilation.table earlier definition word before turns draft row code ∧
            before.slots = start.slots ∧
            ∀ turn ∈ codeTurns turns, ∀ name slot, turn.token.kind = .variableRef (some name) →
              start.slots.find? name = some slot →
              ∀ vars zero one short, Equipped before vars zero one short →
                turn.unitsIn code = slotUnits vars zero one short slot := by
  refine ⟨fun registered name => ?_, ?_, ?_⟩
  · exact ⟨fun slot => Variables.find?_eq_some_iff, Variables.find?_eq_none_iff,
      (MappedVariables.agrees_registered registered).slots name⟩
  · intro state vars zero one short draft token name slot equipped outside kind declared
    exact equipped.push outside kind declared
  · intro sections order names filename compilation returned
    obtain ⟨start, log, final, -, started, runs, same, -, table, -⟩ := ofSections_ok returned
    obtain ⟨fresh, -, -, slots, -⟩ := initialState_ok started
    rw [Variables.ofList_eq] at slots
    refine ⟨start, log, final, started, runs, same, slots, ?_, ?_⟩
    · intro name slot declared
      rw [table, variableNames_tableOf runs, slots]
      exact Variables.holds_find? (slots ▸ declared)
    · rintro earlier later definition word rfl
      obtain ⟨before, -, turns, draft, code, -, -, -, row, -⟩ := runs.row fresh
      rw [← table] at row
      refine ⟨before, turns, draft, before.nextIndex, code, row, row.slots, ?_⟩
      intro turn member name slot kind declared vars zero one short equipped
      exact row.push member kind (row.slots ▸ declared) equipped

/-- Sections with a variable that is declared twice and a short-literal word that is compiled anew
before the variables are used. -/
def slotSections : Source.Sections where
  variableNames := some ["a", "b", "c", "c"]
  natives := [⟨"vars", none, none, some "", some 1⟩, ⟨"false", none, none, some "", some 2⟩,
    ⟨"'1", some "one", none, some "", some 3⟩, ⟨"'", some "short", none, some "", some 4⟩]
  definitions := [⟨": ' ;", some 5⟩, ⟨": w $a ( $c ) $b $c ;", some 6⟩]

def slotStart : State where
  catalog := catalogOf slotSections.natives
  slots := Variables.ofList ["a", "b", "c", "c"]
  bootstrap := { pushVariable := some 0, falseWord := some 1, oneWord := some 2 }

/-- The state in which the variables are used. -/
def slotReady : State :=
  (slotStart.compile ": ' ;" (some 5)).1

theorem initialState_slotSections :
    initialState slotSections .shadowing {} none = .ok slotStart := by
  have bootstrap : Bootstrap.ofCatalog (catalogOf slotSections.natives) {} =
      slotStart.bootstrap := by decide +kernel
  rw [initialState_of_nodup (by decide +kernel), bootstrap]
  rfl

theorem slotReady_equipped : Equipped slotReady 0 1 2 4 where
  pushVariable := by decide +kernel
  falseWord := by decide +kernel
  oneWord := by decide +kernel
  shortLiteral := by decide +kernel

theorem runs_slotStart {tick : Option CompiledWord} {before : State}
    (runs : Runs slotStart [(⟨": ' ;", some 5⟩, tick)] before) : before = slotReady := by
  cases runs with
  | cons compiled rest =>
    cases rest
    exact (congrArg Prod.fst compiled).symm

theorem log_slotSections {log : Log} {final : State} (runs : Runs slotStart log final)
    (same : log.map Prod.fst = slotSections.definitions) :
    ∃ tick word, log = [(⟨": ' ;", some 5⟩, tick)] ++
      (⟨": w $a ( $c ) $b $c ;", some 6⟩, some word) :: [] := by
  have compiles : (slotReady.compile ": w $a ( $c ) $b $c ;" (some 6)).2.toOption.map
      Option.isSome = some true := by decide +kernel
  obtain ⟨⟨first, tick⟩, rest, rfl, rfl, tail⟩ := List.map_eq_cons_iff.mp same
  obtain ⟨⟨second, entry⟩, rfl, rfl⟩ := List.map_eq_singleton_iff.mp tail
  have whole : Runs slotStart ([(⟨": ' ;", some 5⟩, tick)] ++
      (⟨": w $a ( $c ) $b $c ;", some 6⟩, entry) :: []) final := runs
  obtain ⟨before, after, front, compiled, -⟩ := whole.split
  obtain rfl := runs_slotStart front
  cases entry with
  | none => simp [compiled, Except.toOption] at compiles
  | some word => exact ⟨tick, word, rfl⟩

theorem variable_references_sample :
    IsGreatest {place : Nat | ["a", "b", "c", "c"][place]? = some "c"} 3 ∧
    (∃ next, Draft.addTokens slotReady (slotReady.newDraft "v")
        [⟨.variableRef (some "c"), "$c", some 1, some 1⟩] = (next, none) ∧
      next.code.units.toList = [0, 4, 3] ∧ next.diagnostics = #[]) ∧
    ∃ compilation code, ∃ turns : List Turn,
      (ofSections slotSections .shadowing {} none).outcome = .ok compilation ∧
      compilation.table.variableNames[3]? = some "c" ∧
      compilation.table.codes[5]? = some (some code) ∧
      (codeTurns turns).map (fun turn => (turn.token.kind, turn.unitsIn code)) =
        [(.variableRef (some "a"), [0, 1]), (.variableRef (some "b"), [0, 2]),
          (.variableRef (some "c"), [0, 4, 3])] := by
  obtain ⟨slots, pushes, rows⟩ := variable_references
  refine ⟨((slots _ "c").1 3).mp (by decide +kernel), ?_, ?_⟩
  · exact pushes slotReady 0 1 2 4 (slotReady.newDraft "v") _ "c" 3 slotReady_equipped rfl rfl
      (by decide +kernel)
  have evaluated : (ofSections slotSections .shadowing {} none).outcome.toOption.isSome = true := by
    rw [ofSections, initialState_slotSections]
    decide +kernel
  cases returned : (ofSections slotSections .shadowing {} none).outcome with
  | error failure => simp [returned, Except.toOption] at evaluated
  | ok compilation =>
    obtain ⟨start, log, final, started, runs, same, -, last, pushed⟩ :=
      rows _ _ _ _ compilation returned
    rw [initialState_slotSections] at started
    obtain rfl := Except.ok.inj started
    obtain ⟨tick, word, split⟩ := log_slotSections runs same
    obtain ⟨before, turns, draft, row, code, there, -, units⟩ := pushed _ _ _ _ split
    obtain rfl := runs_slotStart there.runs
    obtain ⟨number, line, body⟩ := there.body
    obtain rfl : 6 = number := Option.some.inj line
    have tokens : (bodyTokens? ": w $a ( $c ) $b $c ;" 6).map
        (fun tokens => (Token.outside 0 tokens).map Token.kind) =
        some [.variableRef (some "a"), .variableRef (some "b"), .variableRef (some "c")] := by
      decide +kernel
    rw [body, Option.map_some, ← there.outside, List.map_map] at tokens
    have each : ∀ turn ∈ codeTurns turns, ∀ name slot, turn.token.kind = .variableRef (some name) →
        slotStart.slots.find? name = some slot →
        turn.unitsIn code = slotUnits 0 1 2 4 slot := by
      intro turn member name slot kind declared
      exact units turn member name slot kind declared 0 1 2 4 slotReady_equipped
    have places : slotStart.slots.find? "a" = some 0 ∧ slotStart.slots.find? "b" = some 1 ∧
        slotStart.slots.find? "c" = some 3 := by decide +kernel
    obtain ⟨a, rest, split, kindA, tokens⟩ := List.map_eq_cons_iff.mp (Option.some.inj tokens)
    obtain ⟨b, rest, rfl, kindB, tokens⟩ := List.map_eq_cons_iff.mp tokens
    obtain ⟨c, rfl, kindC⟩ := List.map_eq_singleton_iff.mp tokens
    have unitsA := each a (by simp [split]) "a" 0 kindA places.1
    have unitsB := each b (by simp [split]) "b" 1 kindB places.2.1
    have unitsC := each c (by simp [split]) "c" 3 kindC places.2.2
    refine ⟨compilation, code, turns, rfl, (last "c" 3 places.2.2).1, ?_, ?_⟩
    · have index : slotReady.nextIndex = 5 := by decide +kernel
      have stored := there.stored
      rwa [there.index, index] at stored
    · dsimp only [Function.comp] at kindA kindB kindC
      simp [split, kindA, kindB, kindC, unitsA, unitsB, unitsC, slotUnits]

end Compilation

end ThreadedCode
