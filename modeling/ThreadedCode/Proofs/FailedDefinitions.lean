import ThreadedCode.Proofs.Layout
import ThreadedCode.Proofs.Recasting

/-!
# Definitions that fail

A definition that fails, or has no name, leaves nothing behind but problems, and problems that were
recorded earlier have no influence on any later call. A session may therefore be replayed without
its failed definitions: `accepted_replay` shows that the same words come of it, at the same indices
and with the same references pending.
-/

namespace ThreadedCode.Compiler

namespace State

/-! ### Problems recorded earlier -/

/-- The state in which other problems were recorded before its own. -/
def preceded (earlier : Array Diagnostic) (state : State) : State :=
  { state with diagnostics := earlier ++ state.diagnostics }

/-- The state without its problems, which is all that a later call looks at. -/
def silent (state : State) : State :=
  { state with diagnostics := #[] }

variable {state other : State} (earlier : Array Diagnostic)

theorem preceded_silent (state : State) : state.silent.preceded state.diagnostics = state := by
  simp [preceded, silent]

theorem silent_preceded (state : State) : (state.preceded earlier).silent = state.silent :=
  rfl

-- Problems put in front are a recast that leaves the order as it is, so every lookup is the same.
theorem compile_preceded (state : State) (source : String) (line : Option Int) :
    (state.preceded earlier).compile source line =
      Prod.map (preceded earlier) id (state.compile source line) :=
  compile_recast earlier (steady_id state) (steady_id _)

theorem finish_preceded (state : State) :
    (state.preceded earlier).finish = Prod.map (preceded earlier) id state.finish :=
  finish_recast earlier (steady_id state)

/-! ### States that differ in their problems only -/

theorem words_of_silent (alike : other.silent = state.silent) :
    other.compiled = state.compiled ∧ other.pending = state.pending ∧
      other.nextIndex = state.nextIndex := by
  have compiled : other.silent.compiled = state.silent.compiled := by rw [alike]
  have pending : other.silent.pending = state.silent.pending := by rw [alike]
  have index : other.silent.nextIndex = state.silent.nextIndex := by rw [alike]
  exact ⟨compiled, pending, index⟩

theorem compile_silent (state : State) (source : String) (line : Option Int) :
    (state.compile source line).1.silent = (state.silent.compile source line).1.silent ∧
      (state.compile source line).2 = (state.silent.compile source line).2 := by
  have through := compile_preceded state.diagnostics state.silent source line
  rw [preceded_silent] at through
  rw [through, Prod.map_fst, Prod.map_snd, silent_preceded]
  exact ⟨rfl, id_eq _⟩

theorem finish_silent (state : State) :
    state.finish.1.silent = state.silent.finish.1.silent ∧
      state.finish.2 = state.silent.finish.2 := by
  have through := finish_preceded state.diagnostics state.silent
  rw [preceded_silent] at through
  rw [through, Prod.map_fst, Prod.map_snd, silent_preceded]
  exact ⟨rfl, id_eq _⟩

/-- A definition that becomes no word only adds to the problems. -/
theorem compile_wordless {after : State} {source : String} {line : Option Int}
    {outcome : Except Failure (Option CompiledWord)}
    (compiled : state.compile source line = (after, outcome))
    (wordless : ∀ word, outcome ≠ .ok (some word)) :
    ∃ reports, after = state.reporting reports := by
  cases compile_cases compiled with
  | nothing reports _ => exact ⟨reports, rfl⟩
  | @word number tokens draft reports named start body added =>
    obtain ⟨code, there, -⟩ := addDraft_word (state.reporting reports) draft
    rw [newest?_addDraft, there] at wordless
    exact absurd rfl (wordless _)

/-! ### Leaving failed definitions out -/

/-- Those of some definitions that become words when all are compiled in turn, each with the index
that was next at its turn and the word it became. -/
def accepted (state : State) :
    List Source.Definition → List (Source.Definition × Nat × CompiledWord)
  | [] => []
  | definition :: rest =>
    match state.compile definition.text definition.line with
    | (after, .ok (some word)) => (definition, state.nextIndex, word) :: after.accepted rest
    | (after, _) => after.accepted rest

theorem attempt_cons (state : State) (definition : Source.Definition)
    (rest : List Source.Definition) :
    state.attempt (definition :: rest) =
      (state.compile definition.text definition.line).1.attempt rest :=
  rfl

theorem accepted_sublist (state : State) (definitions : List Source.Definition) :
    ((state.accepted definitions).map Prod.fst).Sublist definitions := by
  induction definitions generalizing state with
  | nil => exact .slnil
  | cons definition rest ih =>
    rw [accepted]
    split
    · exact (ih _).cons_cons _
    · exact (ih _).cons _

/-- Compiling only the accepted definitions, from a state with the same words, accepts all of them
again and comes to the same state but for its problems. -/
theorem accepted_replay (definitions : List Source.Definition)
    (alike : other.silent = state.silent) :
    other.accepted ((state.accepted definitions).map Prod.fst) = state.accepted definitions ∧
      (other.attempt ((state.accepted definitions).map Prod.fst)).silent =
        (state.attempt definitions).silent := by
  induction definitions generalizing state other with
  | nil => exact ⟨rfl, alike⟩
  | cons definition rest ih =>
    rw [accepted, attempt_cons]
    rcases compiled : state.compile definition.text definition.line with ⟨after, outcome⟩
    split
    · rename_i next word same
      obtain ⟨rfl, rfl⟩ := Prod.mk.inj same
      have here := compile_silent state definition.text definition.line
      have there := compile_silent other definition.text definition.line
      rw [alike, ← here.1, ← here.2, compiled] at there
      obtain ⟨again, arrives⟩ := ih there.1
      rw [List.map_cons, accepted, attempt_cons, (words_of_silent alike).2.2]
      refine ⟨?_, arrives⟩
      split
      · rename_i later word' copy
        rw [copy] at there again
        obtain rfl := Option.some.inj (Except.ok.inj there.2)
        rw [again]
      · rename_i later outcome' failed copy
        rw [copy] at there
        exact absurd there.2 (failed word)
    · rename_i next outcome' failed same
      obtain ⟨rfl, rfl⟩ := Prod.mk.inj same
      obtain ⟨reports, rfl⟩ := compile_wordless compiled failed
      exact ih alike

/-- Whatever definitions are compiled in turn, leaving out all that fail or have no name changes
neither the words and the pending references, before finishing and after, nor the index that is next
at any definition that is left. A definition that becomes no word adds problems and nothing else. -/
theorem failed_definitions_invisible (state : State) (definitions : List Source.Definition) :
    let kept := (state.accepted definitions).map Prod.fst
    kept.Sublist definitions ∧
      state.accepted kept = state.accepted definitions ∧
      (state.attempt kept).compiled = (state.attempt definitions).compiled ∧
      (state.attempt kept).pending = (state.attempt definitions).pending ∧
      (state.attempt kept).finish.1.compiled = (state.attempt definitions).finish.1.compiled ∧
      (state.attempt kept).finish.2 = (state.attempt definitions).finish.2 ∧
      ∀ source line after outcome, state.compile source line = (after, outcome) →
        (∀ word, outcome ≠ .ok (some word)) →
        ∃ reports, after = { state with diagnostics := state.diagnostics ++ reports } := by
  intro kept
  obtain ⟨again, alike⟩ := accepted_replay definitions (rfl : state.silent = state.silent)
  have finished : (state.attempt kept).finish.1.silent = (state.attempt definitions).finish.1.silent ∧
      (state.attempt kept).finish.2 = (state.attempt definitions).finish.2 := by
    have short := finish_silent (state.attempt kept)
    have long := finish_silent (state.attempt definitions)
    rw [alike, ← long.1, ← long.2] at short
    exact short
  obtain ⟨compiled, pending, -⟩ := words_of_silent alike
  refine ⟨accepted_sublist state definitions, again, compiled, pending,
    (words_of_silent finished.1).1, finished.2, ?_⟩
  intro source line after outcome compiled wordless
  exact compile_wordless compiled wordless

end State

/-- Two definitions that become words, one that never closes its string after a reference and an
unknown word, and one without a name. -/
def mixedDefinitions : List Source.Definition :=
  [⟨": early %late ;", some 1⟩, ⟨": broken %late what .\" open ;", some 2⟩, ⟨":", some 3⟩,
    ⟨": late dup ;", some 4⟩]

theorem failed_definitions_invisible_sample :
    let kept := (sampleStart.accepted mixedDefinitions).map Prod.fst
    kept = [⟨": early %late ;", some 1⟩, ⟨": late dup ;", some 4⟩] ∧
      (sampleStart.attempt kept).pending = (sampleStart.attempt mixedDefinitions).pending ∧
      (sampleStart.attempt mixedDefinitions).finish.1.unitAt 0 1 = some 2 ∧
      (sampleStart.attempt kept).finish.1.unitAt 0 1 = some 2 ∧
      ∃ after reports, sampleStart.compile ": broken .\" open ;" (some 2) =
          (after, .error (.fault ⟨.unterminatedString,
            { word := some "broken", line := some 2, column := some 2 }⟩)) ∧
        after = { sampleStart with diagnostics := sampleStart.diagnostics ++ reports } := by
  have words : (sampleStart.accepted mixedDefinitions).map Prod.fst =
      [⟨": early %late ;", some 1⟩, ⟨": late dup ;", some 4⟩] := by decide +kernel
  have unit : (sampleStart.attempt mixedDefinitions).finish.1.unitAt 0 1 = some 2 := by
    decide +kernel
  have failed : sampleStart.compile ": broken .\" open ;" (some 2) =
      ((sampleStart.compile ": broken .\" open ;" (some 2)).1, .error (.fault
        ⟨.unterminatedString, { word := some "broken", line := some 2, column := some 2 }⟩)) :=
    Prod.ext rfl (by decide +kernel)
  obtain ⟨-, -, -, pending, compiled, -, wordless⟩ :=
    State.failed_definitions_invisible sampleStart mixedDefinitions
  obtain ⟨reports, same⟩ := wordless _ _ _ _ failed (by simp)
  refine ⟨words, pending, unit, ?_, _, reports, failed, same⟩
  rw [← unit, State.unitAt, State.unitAt, compiled]

end ThreadedCode.Compiler
