import ThreadedCode.Proofs.BinaryForm
import ThreadedCode.Proofs.Problems
import ThreadedCode.Proofs.Recasting

/-!
# The order of resolution

The two orders of resolution search the dictionary from opposite ends, so they find the same word
where only one has the name. In a dictionary without repetitions no lookup notices the order, and
since words are only appended that holds at every step of the run that has led to it.
-/

namespace ThreadedCode

open Compiler

theorem Order.takes_iff {candidates : Set Nat} (unique : candidates.Subsingleton) {order : Order}
    {index : Nat} : order.Takes candidates index ↔ index ∈ candidates := by
  refine ⟨Order.Takes.mem, fun member => ?_⟩
  cases order with
  | shadowing => exact ⟨member, fun other also => (unique also member).le⟩
  | firstMatch => exact ⟨member, fun other also => (unique member also).le⟩

theorem places_subsingleton {α β : Type} [BEq β] [LawfulBEq β] {xs : Array α} {f : α → β}
    (distinct : (xs.toList.map f).Nodup) (key : β) :
    (places xs fun x => f x == key).Subsingleton := by
  intro place here other there
  have keyed : ∀ {place}, place ∈ places xs (fun x => f x == key) →
      (xs.toList.map f)[place]? = some key := by
    intro place member
    obtain ⟨x, found, same⟩ := (Option.any_eq_true _ _).mp member
    rw [List.getElem?_map, Array.getElem?_toList, found, Option.map_some, eq_of_beq same]
  have inside := (List.getElem?_eq_some_iff.mp (keyed here)).1
  exact (List.getElem?_inj inside distinct).mp ((keyed here).trans (keyed there).symm)

namespace Compiler.State

/-- No two words have the same name, and no two the same constant. -/
structure Distinct (state : State) : Prop where
  names : (state.symbols.toList.map Prod.fst).Nodup
  constants : (state.symbols.toList.map Prod.snd).Nodup

variable {state later : State}

theorem Distinct.of_prefix (distinct : later.Distinct)
    (grown : state.symbols.toList <+: later.symbols.toList) : state.Distinct where
  names := distinct.names.sublist (grown.map Prod.fst).sublist
  constants := distinct.constants.sublist (grown.map Prod.snd).sublist

theorem search_eq_of_subsingleton {accepts : String → String → Bool}
    (unique : (places state.symbols fun symbol => accepts symbol.1 symbol.2).Subsingleton)
    (order : Order) : { state with order := order }.search accepts = state.search accepts := by
  apply Option.ext
  intro index
  rw [search_eq_some_iff, search_eq_some_iff, Order.takes_iff unique]
  exact Order.takes_iff unique

/-- Without repetitions, no lookup notices the order. -/
theorem Distinct.steady (distinct : state.Distinct) (turn : Order → Order) : Steady turn state where
  words := by
    funext name
    exact search_eq_of_subsingleton (places_subsingleton distinct.names name) _
  constants := by
    funext constant
    exact search_eq_of_subsingleton (places_subsingleton distinct.constants constant) _

end Compiler.State

/-! ### Runs -/

namespace Compilation

variable {state final : State}

theorem diagnostics_recast (turn : Order → Order) (state : State) :
    (state.recast turn #[]).diagnostics = state.diagnostics :=
  Array.empty_append

theorem newReports_recast (turn : Order → Order) (count : Nat) (state : State) :
    newReports count (state.recast turn #[]) = newReports count state := by
  rw [newReports, newReports, diagnostics_recast]

theorem tableOf_recast (turn : Order → Order) (state : State) :
    tableOf (state.recast turn #[]) = tableOf state := rfl

theorem runDefinitions_recast {events after : Array Event} {definitions : List Source.Definition}
    (ran : runDefinitions events state definitions = (after, final, none))
    (distinct : final.Distinct) (turn : Order → Order) :
    runDefinitions events (state.recast turn #[]) definitions =
      (after, final.recast turn #[], none) := by
  induction definitions generalizing events state with
  | nil =>
    obtain ⟨rfl, same⟩ := Prod.mk.inj ran
    obtain ⟨rfl, -⟩ := Prod.mk.inj same
    rfl
  | cons definition definitions ih =>
    rw [runDefinitions] at ran ⊢
    split at ran
    · simp at ran
    · rename_i next entry compiled
      obtain ⟨log, -, runs⟩ := Runs.of_runDefinitions ran
      have whole := Runs.cons compiled runs
      have here := distinct.of_prefix (State.symbols_prefix whole.setup whole.keeps)
      have there := distinct.of_prefix (State.symbols_prefix runs.setup runs.keeps)
      have passes := State.compile_recast #[] (here.steady turn)
        (show State.Steady turn (state.compile definition.text definition.line).1 by
          rw [compiled]
          exact there.steady turn)
      rw [compiled] at passes
      rw [passes]
      simp only [Prod.map_apply, id_eq, newReports_recast, diagnostics_recast]
      exact ih ran

theorem initialState_recast {sections : Source.Sections} {order : Order} {names : BootstrapNames}
    {filename : Option String} {start : State}
    (started : initialState sections order names filename = .ok start) (other : Order) :
    initialState sections other names filename = .ok (start.recast (fun _ => other) #[]) := by
  unfold initialState at started ⊢
  dsimp only at started ⊢
  split at started
  · cases started
  · rename_i bootstrap found
    obtain rfl := Except.ok.inj started
    rfl

theorem distinct_of_tableOf {state : State} (names : (tableOf state).names.toList.Nodup)
    (constants : (tableOf state).constants.toList.Nodup) : state.Distinct where
  names := by
    rw [names_tableOf] at names
    exact names
  constants := by
    have listed : (tableOf state).constants.toList =
        (state.symbols.toList.map Prod.snd).map some := by
      simp [tableOf, Table.assemble, State.symbols, Function.comp_def]
    rw [listed] at constants
    exact constants.of_map some

/-- Where no name and no constant occurs twice in the table that comes of it, a source compiles to
the same under either order of resolution, events and problems included. -/
theorem ofSections_order {sections : Source.Sections} {order : Order} {names : BootstrapNames}
    {filename : Option String} {compilation : Compilation}
    (returned : (ofSections sections order names filename).outcome = .ok compilation)
    (distinctNames : compilation.table.names.toList.Nodup)
    (distinctConstants : compilation.table.constants.toList.Nodup) (other : Order) :
    ofSections sections other names filename = ofSections sections order names filename := by
  have distinct : ∀ state : State, compilation.table = tableOf state → state.Distinct := by
    intro state same
    rw [same] at distinctNames distinctConstants
    exact distinct_of_tableOf distinctNames distinctConstants
  cases started : initialState sections order names filename with
  | error failure =>
    rw [ofSections, started] at returned
    cases returned
  | ok start =>
    rcases ran : runDefinitions #[] start sections.definitions with ⟨events, final, stopped⟩
    cases stopped with
    | some failure =>
      rw [ofSections, started] at returned
      simp only [ran, reduceCtorEq] at returned
    | none =>
      have settled := State.finish_settled final
      have finished : final.finish.1.Distinct := by
        apply distinct
        rw [ofSections, started] at returned
        simp only [ran] at returned
        split at returned
        · cases returned
        · rw [← Except.ok.inj returned]
      have ended : final.Distinct :=
        finished.of_prefix (by rw [settled.symbols]; exact List.prefix_rfl)
      have turned := runDefinitions_recast ran ended fun _ => other
      have again := State.finish_recast #[] (ended.steady fun _ => other)
      rw [ofSections, ofSections, started, initialState_recast started other]
      simp only [ran, turned, again, Prod.map_fst, Prod.map_snd, id_eq, newReports_recast,
        diagnostics_recast, tableOf_recast]

/-- Sections with native words, a variable, a reference to a word that only comes later, and a
reference and a token that name nothing. -/
def unambiguousSections : Source.Sections where
  variableNames := some ["x"]
  natives := [{ name := "dup" }, { name := "vars" }]
  definitions := [⟨": early dup %LATE $x what ;", some 1⟩,
    ⟨": late ( 'LATE ) early %gone ;", some 2⟩]

theorem ofSections_order_sample :
    ∃ compilation, (ofSections unambiguousSections .shadowing {} none).outcome = .ok compilation ∧
      compilation.table.names.toList.Nodup ∧ compilation.table.constants.toList.Nodup ∧
      compilation.table.codes = #[none, none, some #[0, 0, 3, 1, 0, 0], some #[0, 2, 0]] ∧
      compilation.diagnostics.size = 3 ∧
      (ofSections unambiguousSections .firstMatch {} none).outcome = .ok compilation := by
  have evaluated : (ofSections unambiguousSections .shadowing {} none).outcome.toOption.map
      (fun compilation => (compilation.table, compilation.diagnostics.size)) =
      some ({
        nativeCount := 2
        bootstrap := { pushVariable := some 1 }
        variableNames := #["x"]
        names := #["dup", "vars", "early", "late"]
        constants := #[some "dup", some "vars", some "early", some "LATE"]
        docs := #[none, none, none, none]
        codes := #[none, none, some #[0, 0, 3, 1, 0, 0], some #[0, 2, 0]] }, 3) := by
    rw [ofSections, initialState_of_nodup (by decide +kernel)]
    decide +kernel
  obtain ⟨compilation, present, evaluated⟩ := Option.map_eq_some_iff.mp evaluated
  obtain ⟨table, size⟩ := Prod.mk.inj evaluated
  have returned := Table.ok_of_toOption present
  have distinctNames : compilation.table.names.toList.Nodup := by
    rw [table]
    decide
  have distinctConstants : compilation.table.constants.toList.Nodup := by
    rw [table]
    decide
  refine ⟨compilation, returned, distinctNames, distinctConstants, by rw [table], size, ?_⟩
  rw [ofSections_order returned distinctNames distinctConstants]
  exact returned

end Compilation

end ThreadedCode
