import ThreadedCode.Proofs.Layout
import ThreadedCode.Proofs.Parallel

/-!
# What the result of a definition depends on

A definition sees the dictionary through the names and constants of its words. Two states that have
the same ones, and the same settings, may differ in everything else, in the codes, the texts, what
was reported and what is pending, and in the name of the file: the definition does the same in both
(`compile_of_symbols`). Only the sites of problems say which file they are in.
-/

namespace ThreadedCode.Compiler

namespace State

variable {state other : State}

/-- A definition does the same in two states, as far as `view` lets the names of files be seen: the
same word comes of it, or none, or it fails for the same reason, it reports the same problems and
leaves the same references pending, and what follows it finds the same symbols again. -/
structure CompilesAlike (view : Option String → Option String) (state other : State)
    (source : String) (line : Option Int) : Prop where
  outcome : (other.compile source line).2.mapError (Failure.refile view) =
    (state.compile source line).2.mapError (Failure.refile view)
  reports : ∃ reports reports',
    (state.compile source line).1.diagnostics = state.diagnostics ++ reports ∧
    (other.compile source line).1.diagnostics = other.diagnostics ++ reports' ∧
    reports'.map (Diagnostic.refile view) = reports.map (Diagnostic.refile view)
  pending : ∃ fresh, (state.compile source line).1.pending = state.pending ++ fresh ∧
    (other.compile source line).1.pending = other.pending ++ fresh
  symbols : SameSymbols (state.compile source line).1 (other.compile source line).1

/-- Both runs are compared with one in a third state, which has the file name that is seen of
either. -/
theorem compilesAlike_of_seen {view : Option String → Option String} {seen : State}
    (unfiled : view none = none) (left : Alike id view state seen)
    (right : Alike id view other seen) (source : String) (line : Option Int) :
    CompilesAlike view state other source line := by
  obtain ⟨words, reports, fresh, first, seenFirst, outcome⟩ :=
    compile_parallel unfiled left (steady_id state) (steady_id _)
  obtain ⟨words', reports', fresh', second, seenSecond, outcome'⟩ :=
    compile_parallel unfiled right (steady_id other) (steady_id _)
  have added := seenSecond.symm.trans seenFirst
  obtain rfl := (Array.append_right_inj _).mp (congrArg compiled added)
  obtain rfl := (Array.append_right_inj _).mp (congrArg pending added)
  have said := (Array.append_right_inj _).mp (congrArg diagnostics added)
  refine ⟨outcome'.symm.trans outcome, ⟨reports, reports', ?_, ?_, said⟩, ⟨fresh', ?_, ?_⟩, ?_⟩
  · rw [first, adding]
  · rw [second, adding]
  · rw [first, adding]
  · rw [second, adding]
  · rw [first, second]
    exact (left.adding words' _ #[] _ #[]).toSameSymbols.trans
      (right.adding words' _ #[] _ #[]).toSameSymbols.symm

/-- The result of a definition depends on symbols and settings alone: in two states that share them
it is the same, apart from the file that the sites of its problems name, and altogether the same if
the two states name the same file. -/
theorem compile_of_symbols (same : SameSymbols state other) (source : String)
    (line : Option Int) :
    CompilesAlike (fun _ => none) state other source line ∧
      (other.filename = state.filename → CompilesAlike id state other source line) := by
  refine ⟨?_, fun filename => ?_⟩
  · -- Whatever files the two states name, both go like the first one without a name.
    have unnamed : SameSymbols state { state with filename := none } :=
      ⟨rfl, rfl, rfl, rfl, rfl, rfl, rfl⟩
    exact compilesAlike_of_seen rfl ⟨unnamed, rfl⟩ ⟨same.symm.trans unnamed, rfl⟩ source line
  · have itself : SameSymbols state state := ⟨rfl, rfl, rfl, rfl, rfl, rfl, rfl⟩
    exact compilesAlike_of_seen rfl ⟨itself, rfl⟩ ⟨same.symm, filename.symm⟩ source line

end State

/-- A dictionary with the symbols of `sampleState` and little else of it. -/
def strangeState : State :=
  { sampleState with
    compiled := sampleState.compiled.map fun word =>
      { word with flags := .hidden, code := #[], doc := some "strange" }
    diagnostics := #[⟨.unmarkedDefinition, {}⟩]
    pending := #[]
    filename := some "strange" }

theorem compile_of_symbols_sample :
    State.SameSymbols sampleState strangeState ∧ strangeState.compiled ≠ sampleState.compiled ∧
      (strangeState.compile sampleText (some 2)).2 = .ok (some sampleWord) ∧
      (strangeState.compile sampleText (some 2)).1.pending.size = 1 := by
  have same : State.SameSymbols sampleState strangeState :=
    ⟨rfl, by decide +kernel, rfl, rfl, rfl, rfl, rfl⟩
  have known : (sampleState.compile sampleText (some 2)).2 = .ok (some sampleWord) := by
    decide +kernel
  have waiting : (sampleState.compile sampleText (some 2)).1.pending.size =
      sampleState.pending.size + 1 := by decide +kernel
  obtain ⟨⟨outcome, -, ⟨fresh, left, right⟩, -⟩, -⟩ :=
    State.compile_of_symbols same sampleText (some 2)
  refine ⟨same, by decide +kernel, ?_, ?_⟩
  · rw [known] at outcome
    cases found : (strangeState.compile sampleText (some 2)).2 with
    | error failure => simp [found, Except.mapError] at outcome
    | ok word => simpa [found, Except.mapError] using outcome
  · rw [left, Array.size_append] at waiting
    rw [right, Array.size_append, Nat.add_left_cancel waiting]
    rfl

end ThreadedCode.Compiler
