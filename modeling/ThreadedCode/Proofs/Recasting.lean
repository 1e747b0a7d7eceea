import ThreadedCode.Proofs.Parallel
import ThreadedCode.Proofs.Session

/-!
# States that differ where no call looks

A call looks at the dictionary through its lookups, and never at the problems recorded before. A
state may therefore get other problems in front of its own, and another order of resolution if no
lookup notices that: the call does the same, and the difference passes through it.
-/

namespace ThreadedCode.Compiler

theorem Failure.refile_id (failure : Failure) : failure.refile id = failure := by
  cases failure <;> rfl

namespace State

variable {turn : Order → Order} {state : State} (earlier : Array Diagnostic)

/-- The state with its order of resolution turned and other problems recorded before its own. -/
def recast (turn : Order → Order) (earlier : Array Diagnostic) (state : State) : State :=
  { state.turned turn with diagnostics := earlier ++ state.diagnostics }

theorem alike_recast (turn : Order → Order) (earlier : Array Diagnostic) (state : State) :
    Alike turn id state (state.recast turn earlier) :=
  ⟨⟨rfl, rfl, rfl, rfl, rfl, rfl, rfl⟩, rfl⟩

theorem findConstant?_recast (steady : Steady turn state) :
    (state.recast turn earlier).findConstant? = state.findConstant? :=
  ((alike_recast turn earlier state).sees steady).constants

/-- What no lookup notices passes through the compilation of a definition. -/
theorem compile_recast {source : String} {line : Option Int} (before : Steady turn state)
    (after : Steady turn (state.compile source line).1) :
    (state.recast turn earlier).compile source line =
      Prod.map (recast turn earlier) id (state.compile source line) := by
  obtain ⟨words, reports, fresh, first, second, outcome⟩ :=
    compile_parallel rfl (alike_recast turn earlier state) before after
  have refiled : Diagnostic.refile id = id := rfl
  refine Prod.ext ?_ ?_
  · rw [second, Prod.map_fst, first, refiled]
    simp [adding, recast, turned]
  · rw [outcome, Prod.map_snd, funext Failure.refile_id]
    cases (state.compile source line).2 <;> rfl

/-! ### Pending references -/

theorem report_recast (state : State) (problem : Problem) (site : Site) :
    (state.recast turn earlier).report problem site =
      (state.report problem site).map (recast turn earlier) := by
  unfold report
  split
  · simp [recast, turned, Except.map]
  · rfl

theorem settle_recast (steady : Steady turn state) (reference : PendingReference) :
    (state.recast turn earlier).settle reference =
      (state.settle reference).map (recast turn earlier) := by
  unfold settle
  rw [findConstant?_recast earlier steady]
  cases reference.name.bind state.findConstant? with
  | some index => rfl
  | none => exact report_recast earlier state _ _

theorem settleAll_recast (steady : Steady turn state) (references : List PendingReference) :
    (state.recast turn earlier).settleAll references =
      Prod.map (recast turn earlier) id (state.settleAll references) := by
  induction references generalizing state with
  | nil => rfl
  | cons reference references ih =>
    rw [settleAll, settleAll, settle_recast earlier steady]
    cases settled : state.settle reference with
    | error limit => rfl
    | ok next =>
      obtain ⟨setup, symbols, -⟩ := settle_alike settled
      exact ih (steady.congr setup symbols)

theorem finish_recast (steady : Steady turn state) :
    (state.recast turn earlier).finish = Prod.map (recast turn earlier) id state.finish := by
  have emptied : Steady turn { state with pending := #[] } := steady.congr rfl rfl
  exact settleAll_recast earlier emptied state.pending.toList

end State

end ThreadedCode.Compiler
