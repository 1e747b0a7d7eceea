import ThreadedCode.Proofs.Rows

/-!
# References by constant

A reference by constant is bound at its turn, when its word is appended to the dictionary or when
the run is finished. In a run without problems each of them ends up as the index of a word that has
the constant, with one exception: a reference to the word being defined is bound at its turn by the
constant that a comment has given the word so far, and a later comment may still replace it.
-/

namespace ThreadedCode

open Compiler

namespace Compiler.State

theorem lt_size_of_unitAt {state : State} {word position : Nat} {unit : Int}
    (stored : state.unitAt word position = some unit) : word < state.compiled.size := by
  obtain ⟨entry, there, -⟩ := Option.bind_eq_some_iff.mp stored
  exact (Array.getElem?_eq_some_iff.mp there).1

theorem resolve?_symbol {state : State} {name : Option String} {index : Nat}
    (resolved : state.resolve? name = some index) :
    ∃ symbol, state.symbols[index]? = some symbol ∧ name = some symbol.2 := by
  obtain ⟨constant, rfl, found⟩ := Option.bind_eq_some_iff.mp resolved
  have taken := (search_eq_some_iff.mp found).mem
  obtain ⟨symbol, there, same⟩ := (Option.any_eq_true _ _).mp taken
  exact ⟨symbol, there, congrArg some (beq_iff_eq.mp same).symm⟩

/-! ### When a word is appended -/

/-- A note that names a word gets its index, also when others are filled in after it. -/
theorem foldl_fillReference_stores {word : Nat} {notes : List Fixup} {state : State}
    (present : ∀ note ∈ notes, (state.unitAt word (note.position + 1)).isSome)
    (sorted : notes.Pairwise fun first second => first.position < second.position)
    {note : Fixup} (member : note ∈ notes) {index : Nat}
    (resolved : state.resolve? note.name = some index) :
    (notes.foldl (fillReference word) state).unitAt word (note.position + 1) =
      some (index : Int) := by
  induction notes generalizing state with
  | nil => simp at member
  | cons first notes ih =>
    obtain ⟨before, sorted⟩ := List.pairwise_cons.mp sorted
    have step : Filled word [first] state (fillReference word state first) :=
      filled_foldl word [first] state
    rw [List.foldl_cons]
    rcases List.mem_cons.mp member with rfl | member
    · have stored : (fillReference word state note).unitAt word (note.position + 1) =
          some (index : Int) := by
        have same : fillReference word state note =
            state.setUnit word (note.position + 1) index := by
          unfold resolve? at resolved
          simp [fillReference, resolved]
        rw [same]
        exact unitAt_setUnit _ (present note List.mem_cons_self)
      have rest := filled_foldl word notes (fillReference word state note)
      rw [rest.keeps.unitAt (lt_size_of_unitAt stored), stored]
      rintro ⟨-, other, listed, -, same⟩
      have apart := before other listed
      omega
    · refine ih (fun other listed => ?_) sorted member ?_
      · exact step.keeps.unitAt_isSome (present other (List.mem_cons_of_mem _ listed))
      · rwa [resolve?_congr step.setup step.symbols]

/-- A reference noted in a word names a word and has its index for good, or it is pending. -/
def Binds (state : State) (word : Nat) (note : Fixup) : Prop :=
  match state.resolve? note.name with
  | some index => state.unitAt word (note.position + 1) = some (index : Int) ∧
      ¬ state.Awaits word (note.position + 1)
  | none => pendingOf word note ∈ state.pending

theorem addDraft_binds {state : State} {draft : Draft}
    (anchored : ∀ reference ∈ state.pending, reference.word < state.compiled.size)
    (zero : ∀ note ∈ draft.references.toList, draft.code.units[note.position]? = some 0)
    (sorted : draft.references.toList.Pairwise fun first second =>
      first.position < second.position)
    {note : Fixup} (member : note ∈ draft.references.toList) :
    (state.addDraft draft).Binds state.compiled.size note := by
  have filled := addDraft_filled state draft
  have same : (state.addDraft draft).resolve? = (state.appending draft).resolve? :=
    resolve?_congr filled.setup filled.symbols
  unfold Binds
  rw [same]
  cases resolved : (state.appending draft).resolve? note.name with
  | none =>
    rw [← Array.mem_toList_iff, filled.pending]
    refine List.mem_append_right _ (List.mem_map_of_mem (List.mem_filter.mpr ⟨member, ?_⟩))
    simp [resolved]
  | some index =>
    refine ⟨?_, ?_⟩
    · rw [addDraft_eq]
      refine foldl_fillReference_stores (fun other listed => ?_) sorted member resolved
      have unit := zero other listed
      simp [unitAt, appending, Draft.toWord, Array.getElem?_append_right, unit]
    · rintro ⟨reference, listed, place, position⟩
      rw [← Array.mem_toList_iff, filled.pending, List.mem_append] at listed
      rcases listed with old | fresh
      · have bound := anchored reference (Array.mem_toList_iff.mp old)
        omega
      · obtain ⟨other, waiting, rfl⟩ := List.mem_map.mp fresh
        obtain ⟨listed, unresolved⟩ := List.mem_filter.mp waiting
        have positions : (draft.references.toList.map Fixup.position).Nodup :=
          List.pairwise_map.mpr (sorted.imp Nat.ne_of_lt)
        have here : other.position = note.position := Nat.succ_injective position
        have equal := List.inj_on_of_nodup_map positions listed member here
        rw [equal, resolved] at unresolved
        simp at unresolved

theorem compile_binds {state after : State} {source : String} {line : Option Int}
    {word : CompiledWord} {turns : List Turn} {draft : Draft}
    (compiled : state.compile source line = (after, .ok (some word)))
    (anchored : ∀ reference ∈ state.pending, reference.word < state.compiled.size)
    (passes : Passes state (state.newDraft word.name) turns draft)
    (body : ∃ number, line = some number ∧ bodyTokens? source number = some (turns.map Turn.token))
    {note : Fixup} (noted : note ∈ draft.references.toList) :
    after.Binds state.compiled.size note := by
  obtain ⟨turns', draft', final, reports, yields, passes', -, -, added, references, rfl⟩ :=
    compile_trace compiled
  obtain ⟨number, start, read⟩ := body
  obtain ⟨number', start', read'⟩ := yields.body
  obtain rfl : number = number' := Option.some.inj (start.symm.trans start')
  rw [← yields.name] at passes'
  obtain ⟨-, rfl⟩ := passes.unique passes' (Option.some.inj (read'.symm.trans read))
  obtain ⟨zero, sorted⟩ := addBody_notes added
  rw [← references] at noted
  have kept : ∀ reference ∈ (state.reporting reports).pending,
      reference.word < (state.reporting reports).compiled.size := anchored
  exact addDraft_binds kept zero sorted noted

end Compiler.State

/-! ### Through the rest of the run -/

/-- In a run without problems a reference that is noted gets the index of a word that has the
constant, at the latest when the run is finished. -/
theorem Runs.binds {state final : State} {log : Log} (runs : Runs state log final)
    (sound : final.PendingSound) (finished : final.finish.2 = none)
    (clean : final.finish.1.diagnostics = #[]) {word : Nat} {note : Fixup}
    (binds : state.Binds word note) :
    ∃ (index : Nat) (symbol : String × String),
      final.finish.1.unitAt word (note.position + 1) = some (index : Int) ∧
      final.finish.1.symbols[index]? = some symbol ∧ note.name = some symbol.2 := by
  unfold State.Binds at binds
  split at binds
  · rename_i index resolved
    obtain ⟨stored, free⟩ := binds
    obtain ⟨symbol, listed, named⟩ := State.resolve?_symbol resolved
    refine ⟨index, symbol, ?_, runs.finish_symbols listed, named⟩
    rw [runs.finish_frame.2.unitAt (State.lt_size_of_unitAt stored) free, stored]
  · have member := runs.pending.subset (Array.mem_toList_iff.mpr binds)
    cases resolved : final.resolve? note.name with
    | none =>
      have said := State.finish_complains finished (Array.mem_toList_iff.mp member) resolved
      simp [clean] at said
    | some index =>
      obtain ⟨symbol, listed, named⟩ := State.resolve?_symbol resolved
      have finishes := State.finish_finishes sound
      have all := finishes.complete.mp finished
      exact ⟨index, symbol, finishes.stores _ (all ▸ member) index resolved,
        (Runs.nil final).finish_symbols listed, named⟩

/-! ### Whole sources -/

namespace Compilation

/-- A reference whose name was the constant of the word being defined, by the comments before it,
but is not the one that the word has in the end. -/
structure Superseded (before : State) (turn : Turn) (word : CompiledWord) (name : String) :
    Prop where
  unknown : before.findConstant? name = none
  hinted : turn.before.hint = some name
  replaced : word.constant ≠ name

end Compilation

namespace Compiler

theorem Turn.unitsIn_of_isOpen {turn : Turn} {code : Array Int} {unit : Int}
    (pending : turn.effect.isOpen = true)
    (there : code[turn.before.code.offset + 1]? = some unit) : turn.unitsIn code = [unit] := by
  rw [← Array.getElem?_toList] at there
  obtain ⟨inside, same⟩ := List.getElem?_eq_some_iff.mp there
  rw [unitsIn, turn.units_eq, Effect.length_units_of_isOpen pending,
    List.drop_eq_getElem_cons inside, same]
  rfl

theorem Turn.referenceEffect {state : State} {turn : Turn} {name : Option String}
    (found : Draft.effect? state turn.before turn.token = .ok turn.effect)
    (outside : turn.inCode = true) (kind : turn.token.kind = .reference name) :
    turn.effect = Draft.referenceEffect state turn.before name := by
  obtain ⟨depth, -⟩ := of_decide_eq_true outside
  have same : Draft.referenceEffect state turn.before name = turn.effect := by
    simpa [Draft.effect?, depth, Draft.codeEffect?, kind] using found
  exact same.symm

/-- A token that is the index of a word at its turn has it as its unit, modulo the size of one. -/
theorem LaidOut.emitted {state : State} {draft final : Draft} {turns : List Turn} {flags : Flags}
    {code : Array Int} {turn : Turn} {index : Nat} (laid : LaidOut state turns flags code)
    (passes : Passes state draft turns final) (fresh : draft.code.units = #[])
    (member : turn ∈ codeTurns turns) (effect : turn.effect = .emit (.ofWord index)) :
    turn.unitsIn code = [(index : Int) % 65536] := by
  obtain ⟨inside, outside⟩ := List.mem_filter.mp member
  have closed : ¬ turn.IsOpen state := by
    rw [turn.isOpen_iff (passes.effect inside) outside, effect]
    simp [Effect.isOpen]
  rw [laid.unitsIn passes fresh member closed, turn.units_eq, effect]
  rfl

end Compiler

namespace Compilation

/-- A unit that holds the index of a word holds it as it is while the dictionary is small. -/
theorem Row.emitted {start : State} {table : Table} {earlier : Log}
    {definition : Source.Definition} {word : CompiledWord} {before : State} {turns : List Turn}
    {draft : Draft} {place index : Nat} {code : Array Int} {turn : Turn}
    (row : Row start table earlier definition word before turns draft place code)
    (member : turn ∈ codeTurns turns) (effect : turn.effect = .emit (.ofWord index))
    (small : index < 65536) : turn.unitsIn code = [(index : Int)] := by
  have kept : ((index : Int) % 65536) = index := by omega
  rw [row.laid.emitted row.passes rfl member effect, kept]

end Compilation

theorem Runs.references {start final : State} {earlier later : Log}
    {definition : Source.Definition} {word : CompiledWord}
    (runs : Runs start (earlier ++ (definition, some word) :: later) final)
    (fresh : start.Fresh) (finished : final.finish.2 = none)
    (clean : final.finish.1.diagnostics = #[]) (small : final.finish.1.symbols.size ≤ 65536) :
    ∃ before turns draft row code,
      Compilation.Row start (Compilation.tableOf final.finish.1) earlier definition word before
        turns draft row code ∧
      ∀ turn ∈ codeTurns turns, ∀ name, turn.token.kind = .reference (some name) →
        ∃ index : Nat, turn.unitsIn code = [(index : Int)] ∧
          ((Compilation.tableOf final.finish.1).constants[index]? = some (some name) ∨
            index = row ∧ Compilation.Superseded before turn word name) := by
  obtain ⟨before, after, turns, draft, code, front, compiled, back, row, there⟩ := runs.row fresh
  refine ⟨before, turns, draft, before.nextIndex, code, row, ?_⟩
  intro turn member name kind
  obtain ⟨inside, outside⟩ := List.mem_filter.mp member
  have found := row.passes.effect inside
  have effect := Turn.referenceEffect found outside kind
  have below : ∀ {index : Nat} {constant}, (Compilation.tableOf final.finish.1).constants[index]? =
      some constant → index < 65536 := by
    intro index constant there
    rw [Compilation.constants_tableOf] at there
    obtain ⟨symbol, there, -⟩ := Option.map_eq_some_iff.mp there
    have inside := (Array.getElem?_eq_some_iff.mp there).1
    omega
  unfold Draft.referenceEffect at effect
  split at effect
  · -- The constant was known at the turn, and words keep their places and constants.
    rename_i index resolved
    obtain ⟨symbol, listed, named⟩ := State.resolve?_symbol resolved
    have kept := (Runs.cons compiled back).finish_symbols listed
    have constant : (Compilation.tableOf final.finish.1).constants[index]? = some (some name) := by
      rw [Compilation.constants_tableOf, kept, Option.some.inj named]
      rfl
    exact ⟨index, row.emitted member effect (below constant), .inl constant⟩
  · rename_i unknown
    split at effect
    · -- It is bound to the word being defined, whose constant a later comment may still replace.
      rename_i hinted
      have index : turn.before.index = before.nextIndex := by
        obtain ⟨earlier, later, rfl⟩ := List.append_of_mem inside
        exact row.passes.split.1.fixed.2.1
      rw [index] at effect
      refine ⟨before.nextIndex, row.emitted member effect (below row.constant), ?_⟩
      by_cases same : word.constant = name
      · rw [row.constant, same]
        exact .inl rfl
      · exact .inr ⟨rfl, unknown, hinted, same⟩
    · -- It waits: its unit is filled in when the word is appended or when the run is finished.
      have pending : turn.effect.isOpen = true := by rw [effect]; rfl
      have waits : turn.IsOpen before := (turn.isOpen_iff found outside).mpr pending
      have noted := (row.passes.mem_references_iff rfl).mpr
        ⟨turn, member, some name, kind, waits, rfl⟩
      have binds := State.compile_binds compiled (front.anchored fresh) row.passes row.body noted
      obtain ⟨index, symbol, stored, listed, named⟩ :=
        back.binds (runs.pendingSound fresh) finished clean binds
      refine ⟨index, Turn.unitsIn_of_isOpen pending ?_, .inl ?_⟩
      · rw [State.unitAt, there] at stored
        exact stored
      · rw [Compilation.constants_tableOf, listed, Option.some.inj named]
        rfl

namespace Compilation

/-- In a run without problems and with at most 65536 words, every reference by constant outside
comments is the index of a word that has the constant, in whichever order the constants are named
and used. The exception is a reference to the word being defined that a later comment of the same
definition gives another constant: it is the index of that word. -/
theorem ofText_references {source : String} {filename : Option String} {order : Order}
    {compilation : Compilation}
    (returned : (ofText source filename order).outcome = .ok compilation)
    (clean : compilation.isClean = true) (small : compilation.table.names.size ≤ 65536) :
    ∃ start log final,
      initialState compilation.sections order {} filename = .ok start ∧
      Runs start log final ∧ log.map Prod.fst = compilation.sections.definitions ∧
      ∀ (earlier later : Log) definition word, log = earlier ++ (definition, some word) :: later →
        ∃ before turns draft row code,
          Row start compilation.table earlier definition word before turns draft row code ∧
          ∀ turn ∈ codeTurns turns, ∀ name, turn.token.kind = .reference (some name) →
            ∃ index : Nat, turn.unitsIn code = [(index : Int)] ∧
              (compilation.table.constants[index]? = some (some name) ∨
                index = row ∧ Superseded before turn word name) := by
  obtain ⟨start, log, final, -, started, runs, same, finished, table, diagnostics⟩ :=
    ofText_ok returned
  obtain ⟨fresh, -⟩ := initialState_ok started
  have silent : final.finish.1.diagnostics = #[] := by
    rw [← diagnostics]
    exact Array.isEmpty_iff.mp clean
  have fits : final.finish.1.symbols.size ≤ 65536 := by
    rw [State.size_symbols, ← State.length_declared, ← names_tableOf, Array.length_toList, ← table]
    exact small
  refine ⟨start, log, final, started, runs, same, ?_⟩
  rintro earlier later definition word rfl
  rw [table]
  exact runs.references fresh finished silent fits

/-- A source with a reference that waits for the next word, one to the word being defined whose
constant comes after it, and one that is known. -/
def referenceSource : String :=
  "/*CONSTS*/\n/*CODE*/\n========\n========\n========\n: w %late %OWN ( 'OWN ) ;\n: late %OWN ;\n"

theorem ofText_references_sample :
    ∃ compilation start final, ∃ log : Log,
      (ofText referenceSource none .shadowing).outcome = .ok compilation ∧
      compilation.isClean = true ∧ compilation.table.names.size ≤ 65536 ∧
      compilation.table.constants = #[some "OWN", some "late"] ∧
      compilation.table.codes = #[some #[0, 1, 0], some #[0, 0]] ∧
      Runs start log final ∧
      log.map Prod.fst = [⟨": w %late %OWN ( 'OWN ) ;", some 6⟩, ⟨": late %OWN ;", some 7⟩] ∧
      ∀ (earlier later : Log) definition word, log = earlier ++ (definition, some word) :: later →
        ∃ before turns draft row code,
          Row start compilation.table earlier definition word before turns draft row code ∧
          ∀ turn ∈ codeTurns turns, ∀ name, turn.token.kind = .reference (some name) →
            ∃ index : Nat, turn.unitsIn code = [(index : Int)] ∧
              (#[some "OWN", some "late"][index]? = some (some name) ∨
                index = row ∧ Superseded before turn word name) := by
  have evaluated : (ofText referenceSource none .shadowing).outcome.toOption.map
      (fun compilation => (compilation.isClean, compilation.table)) =
      some (true,
        { names := #["w", "late"]
          constants := #[some "OWN", some "late"]
          docs := #[none, none]
          codes := #[some #[0, 1, 0], some #[0, 0]] }) := by decide +kernel
  cases returned : (ofText referenceSource none .shadowing).outcome with
  | error failure => simp [returned, Except.toOption] at evaluated
  | ok compilation =>
    rw [returned] at evaluated
    obtain ⟨clean, table⟩ := Prod.mk.inj (Option.some.inj evaluated)
    have small : compilation.table.names.size ≤ 65536 := by simp [table]
    obtain ⟨start, log, final, -, runs, same, rows⟩ := ofText_references returned clean small
    have read : Source.read referenceSource none = .ok { definitions :=
        [⟨": w %late %OWN ( 'OWN ) ;", some 6⟩, ⟨": late %OWN ;", some 7⟩] } := by decide +kernel
    obtain ⟨-, -, -, again, -⟩ := ofText_ok returned
    rw [Except.ok.inj (again.symm.trans read)] at same
    have constants : compilation.table.constants = #[some "OWN", some "late"] := by rw [table]
    rw [constants] at rows
    exact ⟨compilation, start, final, log, rfl, clean, small, constants, by rw [table], runs, same,
      rows⟩

/-- A source whose first word refers to its constant `A` before a second comment renames it; the
constant `A` then goes to the second word. -/
def supersededSource : String :=
  "/*CONSTS*/\n/*CODE*/\n========\n========\n========\n: w ( 'A ) %A ( 'B ) ;\n: A ;\n"

theorem superseded_reference_misnamed :
    ∃ compilation, (ofText supersededSource none .shadowing).outcome = .ok compilation ∧
      compilation.isClean = true ∧ compilation.table.names.size ≤ 65536 ∧
      compilation.sections.definitions.map (fun definition =>
        (bodyTokens? definition.text (definition.line.getD 0)).map fun tokens =>
          (Token.outside 0 tokens).map Token.kind) = [some [.reference (some "A")], some []] ∧
      compilation.table.codes = #[some #[0, 0], some #[0]] ∧
      compilation.table.constants = #[some "B", some "A"] := by
  have evaluated : (ofText supersededSource none .shadowing).outcome.toOption.map
      (fun compilation => (compilation.isClean, compilation.table,
        compilation.sections.definitions.map fun definition =>
          (bodyTokens? definition.text (definition.line.getD 0)).map fun tokens =>
            (Token.outside 0 tokens).map Token.kind)) =
      some (true,
        { names := #["w", "A"]
          constants := #[some "B", some "A"]
          docs := #[none, none]
          codes := #[some #[0, 0], some #[0]] },
        [some [.reference (some "A")], some []]) := by decide +kernel
  cases returned : (ofText supersededSource none .shadowing).outcome with
  | error failure => simp [returned, Except.toOption] at evaluated
  | ok compilation =>
    rw [returned] at evaluated
    simp only [Except.toOption, Option.map_some, Option.some.injEq, Prod.mk.injEq] at evaluated
    obtain ⟨clean, table, tokens⟩ := evaluated
    exact ⟨compilation, rfl, clean, by simp [table], tokens, by rw [table], by rw [table]⟩

end Compilation

end ThreadedCode
