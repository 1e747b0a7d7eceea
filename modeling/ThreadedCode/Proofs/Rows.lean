import ThreadedCode.Proofs.Problems

/-!
# The rows of a compiled source

Every definition of a run that has become a word has a row in the table. `Row` ties the row to the
definition: to the state in which it was compiled, to the turns of its tokens and to the code that
they left, with all references filled in.
-/

namespace ThreadedCode

open Compiler

namespace Compiler

/-- The tokens of a body have one trace only. -/
theorem Passes.unique {state : State} {draft final other : Draft} {turns others : List Turn}
    (passes : Passes state draft turns final) (again : Passes state draft others other)
    (same : others.map Turn.token = turns.map Turn.token) : others = turns ∧ other = final := by
  induction passes generalizing others with
  | nil draft =>
    obtain rfl := List.map_eq_nil_iff.mp same
    cases again
    exact ⟨rfl, rfl⟩
  | @cons draft final token effect turns found rest ih =>
    cases again with
    | nil => simp at same
    | @cons _ _ token' effect' turns' found' rest' =>
      simp only [List.map_cons, List.cons.injEq] at same
      obtain ⟨rfl, same⟩ := same
      obtain rfl := Except.ok.inj (found'.symm.trans found)
      obtain ⟨rfl, rfl⟩ := ih rest' same
      exact ⟨rfl, rfl⟩

/-- A word is what its trace has left: its flags, the constant that a comment named last, and the
references that named no word at their turns. -/
theorem compile_trace {state after : State} {source : String} {line : Option Int}
    {word : CompiledWord} (compiled : state.compile source line = (after, .ok (some word))) :
    ∃ turns draft final reports,
      Yields state source line after word (turns.map Turn.token) turns ∧
      Passes state (state.newDraft (definedName source)) turns draft ∧
      word.flags = draft.flags ∧ word.constant = draft.hint.getD word.name ∧
      Draft.addBody state (state.newDraft (definedName source)) (turns.map Turn.token) =
        (final, none) ∧
      final.references = draft.references ∧
      after = (state.reporting reports).addDraft final := by
  obtain ⟨tokens, turns, yields⟩ := compile_yields compiled
  obtain ⟨draft, passes, -⟩ := yields.passes
  obtain ⟨number, start, body⟩ := yields.body
  obtain rfl := yields.read
  generalize result : (.ok (some word) : Except Failure (Option CompiledWord)) = outcome at compiled
  cases State.compile_cases compiled with
  | nothing reports wordless => exact absurd result.symm (wordless word)
  | @word number' tokens' final reports named start' body' added =>
    obtain rfl : number = number' := Option.some.inj (start.symm.trans start')
    obtain rfl := Option.some.inj (body.symm.trans body')
    obtain ⟨turns', middle, code, diagnostics, read, passes', left, -⟩ := Draft.addBody_none added
    obtain ⟨rfl, rfl⟩ := passes.unique passes' read
    obtain ⟨code', there, -⟩ := State.addDraft_word (state.reporting reports) final
    have newest := Except.ok.inj result
    rw [State.newest?_addDraft, there] at newest
    obtain rfl := Option.some.inj newest
    refine ⟨_, _, final, reports, yields, passes, ?_, ?_, added, ?_, rfl⟩
    · rw [left]; rfl
    · rw [left]; rfl
    · rw [left]

end Compiler

namespace Compilation

/-- The row of a word: its definition was compiled in the state `before`, its tokens took their
`turns`, and its code in the table is laid out by them. -/
structure Row (start : State) (table : Table) (earlier : Log) (definition : Source.Definition)
    (word : CompiledWord) (before : State) (turns : List Turn) (draft : Draft) (row : Nat)
    (code : Array Int) : Prop where
  runs : Runs start earlier before
  body : ∃ number, definition.line = some number ∧
    bodyTokens? definition.text number = some (turns.map Turn.token)
  passes : Passes before (before.newDraft word.name) turns draft
  outside : (codeTurns turns).map Turn.token = Token.outside 0 (turns.map Turn.token)
  index : row = before.nextIndex
  name : table.names[row]? = some word.name
  constant : table.constants[row]? = some (some word.constant)
  named : word.constant = draft.hint.getD word.name
  flags : word.flags = draft.flags
  stored : table.codes[row]? = some (some code)
  laid : LaidOut before turns word.flags code

theorem names_tableOf_row {state : State} {place : Nat} {word : CompiledWord}
    (there : state.compiled[place]? = some word) :
    (tableOf state).names[state.catalog.size + place]? = some word.name ∧
      (tableOf state).constants[state.catalog.size + place]? = some (some word.constant) := by
  simp [tableOf, Table.assemble, Catalog.size, Array.getElem?_append_right, there]

theorem constants_tableOf (state : State) (row : Nat) :
    (tableOf state).constants[row]? = state.symbols[row]?.map fun symbol => some symbol.2 := by
  have mapped : (tableOf state).constants = state.symbols.map fun symbol => some symbol.2 := by
    simp [tableOf, Table.assemble, State.symbols, Function.comp_def]
  rw [mapped, Array.getElem?_map]

end Compilation

namespace Runs

variable {start final : State} {earlier later : Log} {definition : Source.Definition}
  {word : CompiledWord}

theorem finish_frame (runs : Runs start earlier final) :
    final.finish.1.setup = start.setup ∧ State.Keeps start.Awaits start final.finish.1 := by
  rw [runs.finish_eq]
  exact State.run_frame start _

theorem symbols_grow (runs : Runs start earlier final) :
    start.symbols.toList <+: final.finish.1.symbols.toList :=
  State.symbols_prefix runs.finish_frame.1 runs.finish_frame.2

theorem finish_symbols (runs : Runs start earlier final) {index : Nat} {symbol : String × String}
    (listed : start.symbols[index]? = some symbol) :
    final.finish.1.symbols[index]? = some symbol := by
  obtain ⟨rest, grown⟩ := runs.symbols_grow
  rw [← Array.getElem?_toList] at listed ⊢
  have inside := (List.getElem?_eq_some_iff.mp listed).1
  rw [← grown, List.getElem?_append_left inside, listed]

theorem row (runs : Runs start (earlier ++ (definition, some word) :: later) final)
    (fresh : start.Fresh) :
    ∃ before after turns draft code, Runs start earlier before ∧
      before.compile definition.text definition.line = (after, .ok (some word)) ∧
      Runs after later final ∧
      Compilation.Row start (Compilation.tableOf final.finish.1) earlier definition word before
        turns draft before.nextIndex code ∧
      final.finish.1.compiled[before.compiled.size]? = some { word with code := code } := by
  obtain ⟨before, after, front, compiled, back⟩ := runs.split
  obtain ⟨turns, draft, -, -, yields, passes, flags, named, -⟩ := compile_trace compiled
  obtain ⟨number, line, body⟩ := yields.body
  obtain ⟨code, there, laid⟩ := yields.run (front.anchored fresh) (later.commands ++ [.finish])
  rw [← back.finish_eq] at there
  have catalog : final.finish.1.catalog = before.catalog :=
    congrArg Setup.catalog (Runs.cons compiled back).finish_frame.1
  obtain ⟨name, constant⟩ := Compilation.names_tableOf_row there
  have stored := Compilation.codes_tableOf there
  rw [catalog] at name constant stored
  refine ⟨before, after, turns, draft, code, front, compiled, back, ?_, there⟩
  exact
    { runs := front
      body := ⟨number, line, body⟩
      passes := yields.name ▸ passes
      outside := yields.outside
      index := rfl
      name := name
      constant := constant
      named := named
      flags := flags
      stored := stored
      laid := laid }

end Runs

end ThreadedCode
