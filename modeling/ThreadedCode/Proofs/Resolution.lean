import ThreadedCode.Compilation
import ThreadedCode.Proofs.Pending

/-!
# Names over a whole run

A run compiles the definitions of a source one after another, and words are only appended. A name
therefore stands for the same index when its token is compiled, through the rest of the run and in
the table that is assembled at the end.
-/

namespace ThreadedCode

open Compiler

/-! ### Runs -/

/-- What a run that does not fail has made of its definitions, in order. -/
abbrev Log : Type := List (Source.Definition × Option CompiledWord)

namespace Log

def words (log : Log) : List CompiledWord :=
  log.filterMap Prod.snd

def commands (log : Log) : List Command :=
  log.map fun entry => .compile entry.1.text entry.1.line

end Log

/-- A run that does not fail. -/
inductive Runs : State → Log → State → Prop where
  | nil (state : State) : Runs state [] state
  | cons {state after final : State} {definition : Source.Definition} {entry : Option CompiledWord}
      {log : Log}
      (compiled : state.compile definition.text definition.line = (after, .ok entry))
      (rest : Runs after log final) : Runs state ((definition, entry) :: log) final

namespace Runs

variable {state final : State} {log : Log}

theorem of_runDefinitions {events after : Array Event} {definitions : List Source.Definition}
    (ran : Compilation.runDefinitions events state definitions = (after, final, none)) :
    ∃ log : Log, log.map Prod.fst = definitions ∧ Runs state log final := by
  induction definitions generalizing events state with
  | nil =>
    obtain ⟨-, same⟩ := Prod.mk.inj ran
    obtain ⟨rfl, -⟩ := Prod.mk.inj same
    exact ⟨[], rfl, .nil _⟩
  | cons definition definitions ih =>
    rw [Compilation.runDefinitions] at ran
    split at ran
    · simp at ran
    · rename_i next entry compiled
      obtain ⟨log, same, rest⟩ := ih ran
      exact ⟨(definition, entry) :: log, by rw [List.map_cons, same], .cons compiled rest⟩

theorem eq_run (runs : Runs state log final) : final = state.run log.commands := by
  induction runs with
  | nil state => rfl
  | @cons state after final definition entry log compiled rest ih =>
    rw [ih]
    simp [State.run, Log.commands, State.execute, compiled]

theorem eq_attempt (runs : Runs state log final) : final = state.attempt (log.map Prod.fst) := by
  rw [runs.eq_run, State.attempt, List.map_map]
  rfl

theorem split {earlier later : Log} {definition : Source.Definition} {entry : Option CompiledWord}
    (runs : Runs state (earlier ++ (definition, entry) :: later) final) :
    ∃ before after, Runs state earlier before ∧
      before.compile definition.text definition.line = (after, .ok entry) ∧
      Runs after later final := by
  induction earlier generalizing state with
  | nil =>
    cases runs with
    | cons compiled rest => exact ⟨_, _, .nil _, compiled, rest⟩
  | cons first earlier ih =>
    cases runs with
    | cons compiled rest =>
      obtain ⟨before, after, front, here, back⟩ := ih rest
      exact ⟨before, after, .cons compiled front, here, back⟩

end Runs

/-! ### Names -/

namespace Compiler.State

/-- The names of the dictionary, native words first. -/
def declared (state : State) : List String :=
  state.symbols.toList.map Prod.fst

theorem length_declared (state : State) : state.declared.length = state.nextIndex := by
  simp [declared, size_symbols]

/-- A definition adds its own name, if it becomes a word, and nothing else. -/
theorem compile_declared {state after : State} {source : String} {line : Option Int}
    {entry : Option CompiledWord} (compiled : state.compile source line = (after, .ok entry)) :
    after.declared = state.declared ++ entry.toList.map (·.name) := by
  generalize result : (.ok entry : Except Failure (Option CompiledWord)) = outcome at compiled
  cases compile_cases compiled with
  | nothing reports wordless =>
    cases entry with
    | none => simp [declared, symbols, reporting]
    | some word => exact absurd result.symm (wordless word)
  | @word number tokens draft reports named start body added =>
    obtain ⟨code, there, -⟩ := addDraft_word (state.reporting reports) draft
    have newest := Except.ok.inj result
    rw [newest?_addDraft, there] at newest
    subst newest
    rw [declared, (addDraft_filled _ draft).symbols]
    simp [declared, symbols, appending, reporting]

theorem places_declared (state : State) (name : String) :
    places state.symbols (fun symbol => symbol.1 == name) =
      {place | state.declared[place]? = some name} := by
  ext place
  simp only [places, declared, Set.mem_ofPred_eq, Option.any_eq_true, beq_iff_eq,
    List.getElem?_map, Array.getElem?_toList, Option.map_eq_some_iff]

theorem findWord?_eq_some_iff {state : State} {name : String} {index : Nat} :
    state.findWord? name = some index ↔
      state.order.Takes {place | state.declared[place]? = some name} index := by
  rw [findWord?, search_eq_some_iff, places_declared]

theorem findWord?_eq_none_iff {state : State} {name : String} :
    state.findWord? name = none ↔ name ∉ state.declared := by
  rw [findWord?, search_eq_none_iff, places_declared, Set.eq_empty_iff_forall_notMem,
    List.mem_iff_getElem?, not_exists]
  rfl

end Compiler.State

theorem Runs.declared {state final : State} {log : Log} (runs : Runs state log final) :
    final.declared = state.declared ++ log.words.map (·.name) := by
  induction runs with
  | nil state => simp [Log.words]
  | @cons state after final definition entry log compiled rest ih =>
    rw [ih, State.compile_declared compiled]
    cases entry <;> simp [Log.words]

/-! ### Tokens -/

namespace Compiler

theorem Draft.CodeEffect.plainBlock {state : State} {draft : Draft} {token : Token}
    {effect : Effect} (cases : Draft.CodeEffect state draft token effect)
    (plain : IsPlain state token) :
    ∃ block, plainBlock state draft.lastWord token.lexeme = .ok block ∧ effect = .emit block := by
  cases cases with
  | plain kind resolved => exact ⟨_, resolved, rfl⟩
  | slot kind declared =>
    obtain other | other | ⟨name, other, undeclared⟩ := plain
    · simp [kind] at other
    · simp [kind] at other
    · obtain rfl := Token.Kind.variableRef.inj (kind.symm.trans other)
      simp [declared] at undeclared
  | _ =>
    obtain other | other | ⟨name, other, -⟩ := plain <;> simp_all

theorem Draft.CodeEffect.recurse_eq {state : State} {draft : Draft} {token : Token}
    {effect : Effect} (cases : Draft.CodeEffect state draft token effect)
    (kind : token.kind = .recurse) : effect = .emit (.ofWord draft.index) := by
  cases cases with
  | recurse => rfl
  | plain plain resolved =>
    obtain other | other | ⟨name, other, -⟩ := plain <;> simp_all
  | _ => simp_all

theorem IsPlain.not_isOpen {state : State} {turn : Turn} (plain : IsPlain state turn.token) :
    ¬ turn.IsOpen state := by
  unfold Turn.IsOpen
  obtain kind | kind | ⟨name, kind, -⟩ := plain <;> simp [kind]

/-- The units of a plain token where names are declared: the index, as a unit, of the word that the
order of resolution takes, which is also its index in the table; else the value of an integer in one
unit or two, else zero. -/
def PlainUnits (table : Table) (order : Order) (declared : List String) (lexeme : String)
    (units : List Int) : Prop :=
  (lexeme ∈ declared → ∃ index : Nat, order.Takes {place | declared[place]? = some lexeme} index ∧
    units = [(index : Int) % 65536] ∧ table.names[index]? = some lexeme) ∧
  (lexeme ∉ declared →
    match Text.parseInt32 lexeme.toList with
    | .ok (some value) => units = [value % 65536] ∨ units = (Code.splitWide value).map Code.toUnit
    | _ => units = [0])

theorem plainUnits_plainBlock {table : Table} {state : State} {lastWord : Option Int}
    {lexeme : String} {block : Block} (included : state.declared <+: table.names.toList)
    (resolved : plainBlock state lastWord lexeme = .ok block) :
    PlainUnits table state.order state.declared lexeme (block.values.map Code.toUnit) := by
  unfold plainBlock at resolved
  split at resolved
  · rename_i index found
    obtain rfl := Except.ok.inj resolved
    have taken := State.findWord?_eq_some_iff.mp found
    have named : state.declared[index]? = some lexeme := taken.mem
    refine ⟨fun _ => ⟨index, taken, rfl, ?_⟩, fun absent => ?_⟩
    · obtain ⟨rest, whole⟩ := included
      have inside := (List.getElem?_eq_some_iff.mp named).1
      rw [← Array.getElem?_toList, ← whole, List.getElem?_append_left inside, named]
    · exact absurd (List.mem_of_getElem? named) absent
  · rename_i missing
    have absent := State.findWord?_eq_none_iff.mp missing
    refine ⟨fun present => absurd present absent, fun _ => ?_⟩
    split at resolved
    · cases resolved
    · rename_i unread
      obtain rfl := Except.ok.inj resolved
      simp [unread, Code.toUnit]
    · rename_i value read
      simp only [read]
      split at resolved
      · obtain rfl := Except.ok.inj resolved
        exact .inr rfl
      · obtain rfl := Except.ok.inj resolved
        exact .inl rfl

/-- In the code of a word, plain tokens and self references are resolved among the words that were
there before it. -/
theorem Yields.resolved {table : Table} {state after : State} {source : String}
    {line : Option Int} {word : CompiledWord} {tokens : List Token} {turns : List Turn}
    {flags : Flags} {code : Array Int} {turn : Turn}
    (yields : Yields state source line after word tokens turns)
    (laid : LaidOut state turns flags code) (included : state.declared <+: table.names.toList)
    (member : turn ∈ codeTurns turns) :
    (IsPlain state turn.token → PlainUnits table state.order state.declared turn.token.lexeme
      (turn.unitsIn code)) ∧
    (turn.token.kind = .recurse → turn.unitsIn code = [(state.nextIndex : Int) % 65536]) := by
  obtain ⟨draft, passes, -⟩ := yields.passes
  obtain ⟨cases, -⟩ := yields.effect member
  refine ⟨fun plain => ?_, fun kind => ?_⟩
  · obtain ⟨block, resolved, emitted⟩ := cases.plainBlock plain
    rw [laid.unitsIn passes rfl member plain.not_isOpen, turn.units_eq, emitted]
    exact plainUnits_plainBlock included resolved
  · have closed : ¬ turn.IsOpen state := by simp [Turn.IsOpen, kind]
    have index : turn.before.index = state.nextIndex := by
      obtain ⟨earlier, later, rfl⟩ := List.append_of_mem (List.mem_filter.mp member).1
      exact passes.split.1.fixed.2.1
    rw [laid.unitsIn passes rfl member closed, turn.units_eq, cases.recurse_eq kind, index]
    rfl

end Compiler

namespace Runs

variable {state final : State} {log : Log}

theorem setup (runs : Runs state log final) : final.setup = state.setup := by
  rw [runs.eq_run]
  exact (State.run_frame state _).1

theorem pendingSound (runs : Runs state log final) (fresh : state.Fresh) : final.PendingSound := by
  rw [runs.eq_run]
  exact State.run_pendingSound fresh.pendingSound _

theorem finish_eq (runs : Runs state log final) :
    final.finish.1 = state.run (log.commands ++ [.finish]) := by
  rw [runs.eq_run, State.run, State.run, List.foldl_append]
  rfl

theorem anchored (runs : Runs state log final) (fresh : state.Fresh) :
    ∀ reference ∈ final.pending, reference.word < final.compiled.size := by
  intro reference member
  exact ((runs.pendingSound fresh).unitAt (Array.mem_toList_iff.mpr member)).1

/-- A word of a run is laid out by the turns of its tokens, also when the run is finished. -/
theorem word {earlier later : Log} {definition : Source.Definition} {word : CompiledWord}
    (runs : Runs state (earlier ++ (definition, some word) :: later) final) (fresh : state.Fresh) :
    ∃ before after tokens turns code, Runs state earlier before ∧
      Yields before definition.text definition.line after word tokens turns ∧
      final.finish.1.compiled[before.compiled.size]? = some { word with code := code } ∧
      LaidOut before turns word.flags code := by
  obtain ⟨before, after, front, compiled, back⟩ := runs.split
  obtain ⟨tokens, turns, yields⟩ := compile_yields compiled
  obtain ⟨code, there, laid⟩ := yields.run (front.anchored fresh) (later.commands ++ [.finish])
  rw [← back.finish_eq] at there
  exact ⟨before, after, tokens, turns, code, front, yields, there, laid⟩

end Runs

/-! ### Whole sources -/

namespace Compilation

/-- The names of the native words of a source and of the words compiled by then. -/
def namesAfter (sections : Source.Sections) (log : Log) : List String :=
  sections.natives.map (·.name) ++ log.words.map (·.name)

theorem names_tableOf (state : State) : (tableOf state).names.toList = state.declared := by
  simp [tableOf, Table.assemble, State.declared, State.symbols, Function.comp_def]

theorem codes_tableOf {state : State} {place : Nat} {word : CompiledWord}
    (there : state.compiled[place]? = some word) :
    (tableOf state).codes[state.catalog.size + place]? = some (some word.code) := by
  simp [tableOf, Table.assemble, Catalog.size, Array.getElem?_append_right, there]

def registered (native : Source.Native) : NativeWord where
  name := native.name
  constant := (native.constant.filter (· ≠ "")).getD native.name
  doc := native.doc
  body := native.body

theorem words_catalogOf (natives : List Source.Native) :
    (catalogOf natives).words.toList = natives.map registered := by
  have grown : ∀ catalog : Catalog, (natives.foldl (fun catalog native =>
      catalog.register native.name native.constant native.doc native.body) catalog).words.toList =
        catalog.words.toList ++ natives.map registered := by
    induction natives with
    | nil => simp
    | cons native natives ih =>
      intro catalog
      rw [List.foldl_cons, ih]
      simp [Catalog.register, registered]
  exact (grown {}).trans (List.nil_append _)

theorem initialState_ok {sections : Source.Sections} {order : Order} {names : BootstrapNames}
    {filename : Option String} {state : State}
    (started : initialState sections order names filename = .ok state) :
    state.Fresh ∧ state.catalog = catalogOf sections.natives ∧ state.order = order ∧
      state.slots = Variables.ofList (sections.variableNames.getD []) ∧
      Bootstrap.find state.catalog names = .ok state.bootstrap := by
  unfold initialState at started
  dsimp only at started
  split at started
  · cases started
  · rename_i bootstrap found
    obtain rfl := Except.ok.inj started
    exact ⟨⟨rfl, rfl, rfl⟩, rfl, rfl, rfl, found⟩

theorem initialState_declared {sections : Source.Sections} {order : Order} {names : BootstrapNames}
    {filename : Option String} {state : State}
    (started : initialState sections order names filename = .ok state) :
    state.declared = sections.natives.map (·.name) := by
  obtain ⟨fresh, catalog, -⟩ := initialState_ok started
  simp [State.declared, State.symbols, fresh.compiled, catalog, words_catalogOf, registered,
    Function.comp_def]

theorem ofSections_ok {sections : Source.Sections} {order : Order} {names : BootstrapNames}
    {filename : Option String} {compilation : Compilation}
    (returned : (ofSections sections order names filename).outcome = .ok compilation) :
    ∃ start log final, compilation.sections = sections ∧
      initialState sections order names filename = .ok start ∧
      Runs start log final ∧ log.map Prod.fst = sections.definitions ∧
      final.finish.2 = none ∧ compilation.table = tableOf final.finish.1 ∧
      compilation.diagnostics = final.finish.1.diagnostics := by
  unfold ofSections at returned
  split at returned
  · cases returned
  · rename_i start started
    split at returned
    · cases returned
    · rename_i events final ran
      dsimp only at returned
      split at returned
      · cases returned
      · rename_i finished
        obtain rfl := Except.ok.inj returned
        obtain ⟨log, same, runs⟩ := Runs.of_runDefinitions ran
        exact ⟨start, log, final, rfl, started, runs, same, finished, rfl, rfl⟩

theorem ofText_ok {source : String} {filename : Option String} {order : Order}
    {compilation : Compilation} (returned : (ofText source filename order).outcome = .ok compilation) :
    ∃ start log final, Source.read source filename = .ok compilation.sections ∧
      initialState compilation.sections order {} filename = .ok start ∧
      Runs start log final ∧ log.map Prod.fst = compilation.sections.definitions ∧
      final.finish.2 = none ∧ compilation.table = tableOf final.finish.1 ∧
      compilation.diagnostics = final.finish.1.diagnostics := by
  unfold ofText at returned
  split at returned
  · cases returned
  · rename_i sections read
    obtain ⟨start, log, final, rfl, rest⟩ := ofSections_ok returned
    exact ⟨start, log, final, read, rest⟩

/-- Over a whole run, a plain token outside comments stands for the word that the order of
resolution takes among the native words and the words compiled before its definition, and the table
has that word's name at its index; the name being defined is not among them. A self reference stands
for the row of its own definition. -/
theorem ofText_resolution {source : String} {filename : Option String} {order : Order}
    {compilation : Compilation}
    (returned : (ofText source filename order).outcome = .ok compilation) :
    ∃ start log final,
      initialState compilation.sections order {} filename = .ok start ∧
      Runs start log final ∧ log.map Prod.fst = compilation.sections.definitions ∧
      compilation.table.nativeCount = compilation.sections.natives.length ∧
      compilation.table.names.toList = namesAfter compilation.sections log ∧
      ∀ (earlier later : Log) definition word, log = earlier ++ (definition, some word) :: later →
        let declared := namesAfter compilation.sections earlier
        let row := compilation.sections.natives.length + earlier.words.length
        ∃ before number tokens turns draft code,
          Runs start earlier before ∧
          definition.line = some number ∧ bodyTokens? definition.text number = some tokens ∧
          Passes before (before.newDraft word.name) turns draft ∧
          (codeTurns turns).map Turn.token = Token.outside 0 tokens ∧
          compilation.table.names[row]? = some word.name ∧
          compilation.table.codes[row]? = some (some code) ∧
          ∀ turn ∈ codeTurns turns,
            (IsPlain before turn.token → PlainUnits compilation.table order declared
              turn.token.lexeme (turn.unitsIn code)) ∧
            (turn.token.kind = .recurse → turn.unitsIn code = [(row : Int) % 65536]) := by
  obtain ⟨start, log, final, -, started, runs, same, -, table, -⟩ := ofText_ok returned
  obtain ⟨fresh, catalog, ordered, -, -⟩ := initialState_ok started
  have natives := initialState_declared started
  have finished : final.finish.1.setup = start.setup :=
    (State.finish_settled final).setup.trans runs.setup
  have names : compilation.table.names.toList = namesAfter compilation.sections log := by
    rw [table, names_tableOf, State.declared, (State.finish_settled final).symbols]
    exact runs.declared.trans (by rw [natives, namesAfter])
  have count : final.finish.1.catalog.size = compilation.sections.natives.length := by
    have same : final.finish.1.catalog = start.catalog := congrArg Setup.catalog finished
    have words := congrArg List.length (words_catalogOf compilation.sections.natives)
    simpa [same, catalog, Catalog.size] using words
  refine ⟨start, log, final, started, runs, same, by rw [table, ← count]; rfl, names, ?_⟩
  rintro earlier later definition word rfl declared row
  obtain ⟨before, after, tokens, turns, code, front, yields, there, laid⟩ := runs.word fresh
  obtain ⟨number, line, body⟩ := yields.body
  obtain ⟨draft, passes, -⟩ := yields.passes
  have visible : before.declared = declared := front.declared.trans (by rw [natives]; rfl)
  have index : before.nextIndex = row := by
    rw [← State.length_declared, visible]
    simp [declared, row, namesAfter]
  have whole : compilation.table.names.toList =
      declared ++ word.name :: later.words.map (·.name) := by
    rw [names]
    simp [declared, namesAfter, Log.words]
  refine ⟨before, number, tokens, turns, draft, code, front, line, body, yields.name ▸ passes,
    yields.outside, ?_, ?_, fun turn member => ?_⟩
  · rw [← Array.getElem?_toList, whole, ← index, ← State.length_declared, visible]
    simp
  · have setup : before.setup = final.finish.1.setup :=
      front.setup.trans finished.symm
    have catalog : before.catalog = final.finish.1.catalog := congrArg Setup.catalog setup
    rw [table, ← index, State.nextIndex, catalog]
    exact codes_tableOf there
  · have setup : before.setup = start.setup := front.setup
    have sameOrder : before.order = start.order := congrArg Setup.order setup
    have included : before.declared <+: compilation.table.names.toList := by
      rw [whole, visible]
      exact List.prefix_append _ _
    have resolved := yields.resolved laid included member
    rwa [sameOrder, ordered, visible, index] at resolved

/-- A source that defines one name twice, the second time through the first. -/
def sampleSource : String :=
  "/*CONSTS*/\n/*CODE*/\n========\nx\n========\n========\n: a ;\n: a a recurse ;\n"

theorem ofText_resolution_sample :
    ∃ compilation, (ofText sampleSource none .shadowing).outcome = .ok compilation ∧
      compilation.table.codes = #[some #[0], some #[0, 0, 1]] ∧
      ∃ log : Log, log.map Prod.fst = compilation.sections.definitions ∧
        namesAfter compilation.sections log = ["a", "a"] := by
  have evaluated : (ofText sampleSource none .shadowing).outcome.toOption.map (fun compilation =>
      (compilation.table.codes, compilation.table.names)) =
      some (#[some #[0], some #[0, 0, 1]], #["a", "a"]) := by decide +kernel
  cases returned : (ofText sampleSource none .shadowing).outcome with
  | error failure => simp [returned, Except.toOption] at evaluated
  | ok compilation =>
    rw [returned] at evaluated
    obtain ⟨codes, names⟩ := Prod.mk.inj (Option.some.inj evaluated)
    obtain ⟨start, log, final, -, -, same, -, declared, -⟩ := ofText_resolution returned
    rw [show compilation.table.names = #["a", "a"] from names] at declared
    exact ⟨compilation, rfl, codes, log, same, declared.symm⟩

end Compilation

end ThreadedCode
