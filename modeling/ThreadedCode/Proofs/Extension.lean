import ThreadedCode.Proofs.Problems

/-!
# Runs with more definitions

Definitions that are appended to a source are compiled when all words before them are there already.
They can therefore be seen only by references that are still pending when the shorter run finishes;
the tables and the problems of the two runs agree everywhere else.
-/

namespace ThreadedCode

open Compiler

/-- A longer table that continues a shorter one row by row; units at the given spots may differ. -/
structure Table.Extends (spots : Nat → Nat → Prop) (shorter longer : Table) : Prop where
  names : shorter.names.toList <+: longer.names.toList
  constants : shorter.constants.toList <+: longer.constants.toList
  docs : shorter.docs.toList <+: longer.docs.toList
  natives : ∀ row : Nat, shorter.codes[row]? = some none → longer.codes[row]? = some none
  codes : ∀ (row : Nat) units, shorter.codes[row]? = some (some units) →
    ∃ others, longer.codes[row]? = some (some others) ∧ others.size = units.size ∧
      ∀ position, ¬ spots row position → others[position]? = units[position]?

/-- The spots of compiled words, by their rows in a table that has native words in front. -/
def Catalog.rowSpots (catalog : Catalog) (spots : Nat → Nat → Prop) (row position : Nat) : Prop :=
  ∃ place, row = catalog.size + place ∧ spots place position

namespace Compiler.State

variable {spots : Nat → Nat → Prop} {state later : State}

/-- Two states that come of a common one are alike as far as its words go. -/
theorem Keeps.common {origin : State} (first : Keeps spots origin state)
    (second : Keeps spots origin later) (size : state.compiled.size = origin.compiled.size) :
    Keeps spots state later := by
  intro place word present
  have inside : place < origin.compiled.size := by
    rw [← size]
    exact (Array.getElem?_eq_some_iff.mp present).1
  have there := Array.getElem?_eq_getElem inside
  obtain ⟨code, here, length, agree⟩ := first place _ there
  obtain ⟨code', here', length', agree'⟩ := second place _ there
  obtain rfl := Option.some.inj (present.symm.trans here)
  refine ⟨code', here', length'.trans length.symm, fun position outside => ?_⟩
  rw [agree' position outside, agree position outside]

theorem codes_tableOf_row (state : State) (row : Nat) :
    (Compilation.tableOf state).codes[row]? =
      if row < state.catalog.size then some none
      else state.compiled[row - state.catalog.size]?.map fun word => some word.code := by
  simp only [Compilation.tableOf, Table.assemble]
  rw [Array.getElem?_append, Array.size_map, Catalog.size]
  split
  · rename_i native
    simp [native]
  · simp

theorem tableOf_extends (catalog : later.catalog = state.catalog) (kept : Keeps spots state later) :
    (Compilation.tableOf state).Extends (state.catalog.rowSpots spots) (Compilation.tableOf later) := by
  refine ⟨?_, ?_, ?_, fun row absent => ?_, fun row units there => ?_⟩
  · simpa [Compilation.tableOf, Table.assemble, catalog] using
      kept.prefix_map (fun word => word.name) fun _ _ => rfl
  · simpa [Compilation.tableOf, Table.assemble, catalog] using
      kept.prefix_map (fun word => some word.constant) fun _ _ => rfl
  · simpa [Compilation.tableOf, Table.assemble, catalog] using
      kept.prefix_map (fun word => word.doc) fun _ _ => rfl
  · rw [codes_tableOf_row] at absent ⊢
    rw [catalog]
    split at absent
    · rename_i native
      rw [if_pos native]
    · obtain ⟨word, -, wrong⟩ := Option.map_eq_some_iff.mp absent
      cases wrong
  · rw [codes_tableOf_row] at there
    split at there
    · cases there
    · rename_i compiled
      obtain ⟨word, present, same⟩ := Option.map_eq_some_iff.mp there
      obtain rfl := Option.some.inj same
      obtain ⟨code, later, size, agree⟩ := kept _ word present
      refine ⟨code, ?_, size, fun position outside => agree position fun spot => ?_⟩
      · rw [codes_tableOf_row, catalog, if_neg compiled, later]
        rfl
      · exact outside ⟨row - state.catalog.size, by omega, spot⟩

theorem attempt_append (state : State) (earlier later : List Source.Definition) :
    state.attempt (earlier ++ later) = (state.attempt earlier).attempt later := by
  simp [attempt, run]

theorem attempt_finish_eq (state : State) (definitions : List Source.Definition) :
    (state.attempt definitions).finish.1 = state.run (definitions.map
      (fun definition => .compile definition.text definition.line) ++ [.finish]) := by
  simp [attempt, run, execute]

/-- What is compiled after a state and then finished keeps its words, but for units at which a
reference is pending. -/
theorem attempt_finish_keeps (state : State) (definitions : List Source.Definition) :
    (state.attempt definitions).finish.1.setup = state.setup ∧
      Keeps state.Awaits state (state.attempt definitions).finish.1 := by
  rw [attempt_finish_eq]
  exact run_frame state _

/-- The problems met before finishing stay in front when further definitions are compiled. -/
theorem finish_diagnostics_prefix (fresh : state.Fresh) (definitions extra : List Source.Definition) :
    (state.attempt definitions).finish.1.diagnostics.toList.filter
        (fun diagnostic => diagnostic.problem.kind ≠ .unresolvedReference) <+:
      ((state.attempt definitions).attempt extra).finish.1.diagnostics.toList := by
  obtain ⟨reports, met, kinds⟩ := attempt_records state definitions
  obtain ⟨references, -, finished⟩ := finish_reports (state.attempt definitions)
  obtain ⟨further, more, -⟩ := attempt_records (state.attempt definitions) extra
  obtain ⟨others, -, last⟩ := finish_reports ((state.attempt definitions).attempt extra)
  rw [fresh.diagnostics, List.nil_append] at met
  have kept : reports.filter (fun diagnostic => diagnostic.problem.kind ≠ .unresolvedReference) =
      reports := by
    refine List.filter_eq_self.mpr fun diagnostic member => decide_eq_true fun late => ?_
    have early := kinds diagnostic member
    rw [late] at early
    cases early
  have dropped : (references.map (state.attempt definitions).complaint).filter
      (fun diagnostic => diagnostic.problem.kind ≠ .unresolvedReference) = [] := by
    refine List.filter_eq_nil_iff.mpr fun diagnostic member => ?_
    obtain ⟨reference, -, rfl⟩ := List.mem_map.mp member
    simp [complaint, Problem.kind]
  rw [finished, met, List.filter_append, kept, dropped, last, more, met, List.append_nil,
    List.append_assoc]
  exact List.prefix_append _ _

end Compiler.State

namespace Compilation

/-- Appending definitions to a source continues its table: of the words before them only units at
which a reference was pending when the shorter run finished may change, and all problems that the
shorter run met before it finished are still met first. -/
theorem ofSections_extend {sections : Source.Sections} {extra : List Source.Definition}
    {order : Order} {names : BootstrapNames} {filename : Option String}
    {shorter longer : Compilation}
    (short : (ofSections sections order names filename).outcome = .ok shorter)
    (long : (ofSections { sections with definitions := sections.definitions ++ extra } order names
      filename).outcome = .ok longer) :
    ∃ start, initialState sections order names filename = .ok start ∧
      let unfinished := start.attempt sections.definitions
      shorter.table = tableOf unfinished.finish.1 ∧
      shorter.table.Extends (start.catalog.rowSpots unfinished.Awaits) longer.table ∧
      shorter.diagnostics.toList.filter
        (fun diagnostic => diagnostic.problem.kind ≠ .unresolvedReference) <+:
          longer.diagnostics.toList := by
  obtain ⟨start, log, final, -, started, runs, same, -, table, diagnostics⟩ := ofSections_ok short
  obtain ⟨start', log', final', -, started', runs', same', -, table', diagnostics'⟩ :=
    ofSections_ok long
  -- Both runs start from the same state, which does not depend on the definitions.
  obtain rfl : start = start' := Except.ok.inj (started.symm.trans started')
  obtain rfl : final = start.attempt sections.definitions := same ▸ runs.eq_attempt
  obtain rfl : final' = (start.attempt sections.definitions).attempt extra := by
    rw [← State.attempt_append, runs'.eq_attempt, same']
  refine ⟨start, started, table, ?_, ?_⟩
  · have settled := State.finish_settled (start.attempt sections.definitions)
    obtain ⟨setup, kept⟩ :=
      State.attempt_finish_keeps (start.attempt sections.definitions) extra
    have catalog : (start.attempt sections.definitions).finish.1.catalog = start.catalog :=
      congrArg Setup.catalog (settled.setup.trans runs.setup)
    have common := (State.finish_keeps _).common kept
      (State.size_compiled_congr settled.setup settled.symbols)
    rw [table, table', ← catalog]
    exact State.tableOf_extends (congrArg Setup.catalog (setup.trans settled.setup.symm)) common
  · rw [diagnostics, diagnostics']
    exact State.finish_diagnostics_prefix (initialState_ok started).1 _ _

/-- A definition with a reference to a word that only comes later and a token that is unknown. -/
def waitingSections : Source.Sections :=
  { definitions := [⟨": early %late what ;", some 1⟩] }

/-- The word that is waited for, and one that takes an earlier name again. -/
def lateDefinitions : List Source.Definition :=
  [⟨": late early ;", some 2⟩, ⟨": early ;", some 3⟩]

theorem ofSections_extend_sample :
    ∃ shorter longer, (ofSections waitingSections .shadowing {} none).outcome = .ok shorter ∧
      (ofSections { waitingSections with
        definitions := waitingSections.definitions ++ lateDefinitions } .shadowing {} none).outcome =
          .ok longer ∧
      shorter.table.codes = #[some #[0, 0, 0]] ∧
      longer.table.codes = #[some #[0, 1, 0], some #[0, 0], some #[0]] ∧
      shorter.table.names.toList <+: longer.table.names.toList ∧
      shorter.diagnostics.size = 2 ∧
      shorter.diagnostics.toList.filter
        (fun diagnostic => diagnostic.problem.kind ≠ .unresolvedReference) <+:
          longer.diagnostics.toList := by
  have first : (ofSections waitingSections .shadowing {} none).outcome.toOption.map
      (fun compilation => (compilation.table.codes, compilation.diagnostics.size)) =
        some (#[some #[0, 0, 0]], 2) := by decide +kernel
  have second : (ofSections { waitingSections with
      definitions := waitingSections.definitions ++ lateDefinitions } .shadowing {}
        none).outcome.toOption.map (fun compilation => compilation.table.codes) =
          some #[some #[0, 1, 0], some #[0, 0], some #[0]] := by decide +kernel
  cases short : (ofSections waitingSections .shadowing {} none).outcome with
  | error failure => simp [short, Except.toOption] at first
  | ok shorter =>
    cases long : (ofSections { waitingSections with
        definitions := waitingSections.definitions ++ lateDefinitions } .shadowing {}
          none).outcome with
    | error failure => simp [long, Except.toOption] at second
    | ok longer =>
      rw [short] at first
      rw [long] at second
      obtain ⟨codes, size⟩ := Prod.mk.inj (Option.some.inj first)
      obtain ⟨start, -, -, table, problems⟩ := ofSections_extend short long
      exact ⟨shorter, longer, rfl, rfl, codes, Option.some.inj second, table.names, size, problems⟩

end Compilation

end ThreadedCode
