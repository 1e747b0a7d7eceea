import ThreadedCode.Proofs.Body

/-!
# The outcome of a definition

`compile_cases` says once what compiling a definition can do to the state. Either it only records
problems, or the tokens of the body pass and the word of their draft is appended. Problems recorded
on the way have no influence on what the tokens do.
-/

namespace ThreadedCode.Compiler

/-! ### The parts of a definition -/

/-- The name that the text of a definition gives. -/
def definedName (source : String) : String :=
  String.ofList (Text.nextField (Text.nextField source.toList).2).1

/-- The text of a definition behind its name. -/
def bodyText (source : String) : List Char :=
  (Text.nextField (Text.nextField source.toList).2).2

def bodyLine (source : String) (line : Int) : Int :=
  line + (source.toList.count '\n' - (bodyText source).count '\n' : Nat)

/-- The tokens of the body of a definition that starts on a line, without the terminator at their
end. -/
def bodyTokens? (source : String) (line : Int) : Option (List Token) :=
  match Token.scan (bodyText source) (some (definedName source)) (some (bodyLine source line)) with
  | .ok scan => some ((dropTerminator? scan.tokens).getD scan.tokens)
  | .error _ => none

/-! ### Problems recorded on the way -/

namespace State

def reporting (state : State) (reports : Array Diagnostic) : State :=
  { state with diagnostics := state.diagnostics ++ reports }

theorem reporting_empty (state : State) : state.reporting #[] = state := by
  simp [reporting]

theorem reporting_reporting (state : State) (first second : Array Diagnostic) :
    (state.reporting first).reporting second = state.reporting (first ++ second) := by
  simp [reporting]

theorem report_ok {state after : State} {problem : Problem} {site : Site}
    (reported : state.report problem site = .ok after) :
    after = state.reporting #[⟨problem, site⟩] := by
  unfold report at reported
  split at reported
  · rw [← Except.ok.inj reported]
    simp [reporting]
  · cases reported

theorem checkMarker_ok {state after : State} {marker : List Char} {site : Site}
    (checked : state.checkMarker marker site = .ok after) :
    ∃ reports, after = state.reporting reports ∧ ∀ report ∈ reports, report.site = site := by
  unfold checkMarker at checked
  split at checked
  · exact ⟨#[], by rw [reporting_empty, ← Except.ok.inj checked], by simp⟩
  · exact ⟨_, report_ok checked, by simp⟩

theorem addTokens_reporting (state : State) (reports : Array Diagnostic) (draft : Draft)
    (tokens : List Token) :
    Draft.addTokens (state.reporting reports) draft tokens = Draft.addTokens state draft tokens := by
  induction tokens generalizing draft with
  | nil => rfl
  | cons token rest ih =>
    have same : Draft.effect? (state.reporting reports) draft token =
        Draft.effect? state draft token := rfl
    rw [Draft.addTokens, Draft.addTokens, same]
    split
    · rfl
    · exact ih _

theorem addBody_reporting (state : State) (reports : Array Diagnostic) (draft : Draft)
    (tokens : List Token) :
    Draft.addBody (state.reporting reports) draft tokens = Draft.addBody state draft tokens := by
  rw [Draft.addBody, Draft.addBody, addTokens_reporting]

/-! ### Compiling -/

/-- What compiling a definition comes to: problems recorded and no word, or the word of a draft
that all tokens of the body have passed. The problems that are not those of tokens have no column. -/
inductive Compiles (state : State) (source : String) (line : Option Int) :
    State → Except Failure (Option CompiledWord) → Prop where
  | nothing {outcome : Except Failure (Option CompiledWord)} (reports : Array Diagnostic)
      (wordless : ∀ word, outcome ≠ .ok (some word))
      (header : ∀ entry, outcome = .ok entry → ∀ report ∈ reports, report.site.column = none) :
      Compiles state source line (state.reporting reports) outcome
  | word {number : Int} {tokens : List Token} {draft : Draft} (reports : Array Diagnostic)
      (named : definedName source ≠ "") (start : line = some number)
      (body : bodyTokens? source number = some tokens)
      (added : Draft.addBody state (state.newDraft (definedName source)) tokens = (draft, none))
      (header : ∀ report ∈ reports, report.site.column = none) :
      Compiles state source line ((state.reporting reports).addDraft draft)
        (.ok ((state.reporting reports).addDraft draft).newest?)

theorem compileTokens_cases {state after : State} {source : String} {number : Int}
    {tokens : List Token} {outcome : Except Failure (Option CompiledWord)}
    (reports : Array Diagnostic) (header : ∀ report ∈ reports, report.site.column = none)
    (named : definedName source ≠ "") (body : bodyTokens? source number = some tokens)
    (compiled : (state.reporting reports).compileTokens (definedName source) tokens =
      (after, outcome)) : Compiles state source (some number) after outcome := by
  unfold compileTokens at compiled
  have fresh : (state.reporting reports).newDraft (definedName source) =
      state.newDraft (definedName source) := rfl
  rw [addBody_reporting, fresh] at compiled
  split at compiled
  · obtain ⟨rfl, rfl⟩ := Prod.mk.inj compiled
    rename_i draft failure added
    have same := reporting_reporting state reports draft.diagnostics
    simp only [reporting] at same ⊢
    rw [same]
    exact .nothing _ (by simp) (by simp)
  · obtain ⟨rfl, rfl⟩ := Prod.mk.inj compiled
    rename_i draft added
    exact .word reports named rfl body added header

theorem compileBody_cases {state after : State} {source : String} {number : Int} {site : Site}
    {outcome : Except Failure (Option CompiledWord)} (reports : Array Diagnostic)
    (header : ∀ report ∈ reports, report.site.column = none) (named : definedName source ≠ "")
    (columnless : site.column = none)
    (compiled : (state.reporting reports).compileBody (definedName source) site (bodyText source)
      (bodyLine source number) = (after, outcome)) :
    Compiles state source (some number) after outcome := by
  unfold compileBody at compiled
  split at compiled
  · obtain ⟨rfl, rfl⟩ := Prod.mk.inj compiled
    exact .nothing reports (by simp) (by simp)
  · rename_i scan scanned
    cases dropped : dropTerminator? scan.tokens with
    | some tokens =>
      rw [dropped] at compiled
      exact compileTokens_cases reports header named (by simp [bodyTokens?, scanned, dropped]) compiled
    | none =>
      rw [dropped] at compiled
      simp only [afterReport] at compiled
      split at compiled
      · obtain ⟨rfl, rfl⟩ := Prod.mk.inj compiled
        exact .nothing reports (by simp) (by simp)
      · rename_i reported ending
        obtain rfl := report_ok ending
        rw [reporting_reporting] at compiled
        refine compileTokens_cases _ (fun report member => ?_) named
          (by simp [bodyTokens?, scanned, dropped]) compiled
        rcases Array.mem_append.mp member with marker | terminator
        · exact header report marker
        · rw [List.mem_singleton.mp (List.mem_toArray.mp terminator)]
          exact columnless

theorem compile_cases {state after : State} {source : String} {line : Option Int}
    {outcome : Except Failure (Option CompiledWord)}
    (compiled : state.compile source line = (after, outcome)) :
    Compiles state source line after outcome := by
  unfold compile at compiled
  simp only [afterReport] at compiled
  split at compiled
  · split at compiled
    · obtain ⟨rfl, rfl⟩ := Prod.mk.inj compiled
      simpa [reporting_empty] using Compiles.nothing #[] (by simp) (by simp)
    · rename_i reported nameless
      obtain rfl := report_ok nameless
      obtain ⟨rfl, rfl⟩ := Prod.mk.inj compiled
      exact .nothing _ (by simp) (by simp)
  · rename_i present
    have named : definedName source ≠ "" := fun empty => by
      have name : (Text.nextField (Text.nextField source.toList).2).1 = [] :=
        String.ofList_injective empty
      exact present (by simp [name])
    split at compiled
    · obtain ⟨rfl, rfl⟩ := Prod.mk.inj compiled
      simpa [reporting_empty] using Compiles.nothing #[] (by simp) (by simp)
    · rename_i reported checked
      obtain ⟨reports, rfl, sites⟩ := checkMarker_ok checked
      cases line with
      | none =>
        obtain ⟨rfl, rfl⟩ := Prod.mk.inj compiled
        exact .nothing _ (by simp) (by simp)
      | some number =>
        have header : ∀ report ∈ reports, report.site.column = none := fun report member => by
          rw [sites report member]
        refine compileBody_cases reports header named ?_ compiled
        rfl

/-- A definition that has its marker, a name and its terminator is compiled by its tokens alone. -/
theorem compile_terminated {source : String} {number : Int} {scan : Token.Scan}
    {tokens : List Token} (marked : (Text.nextField source.toList).1 = definitionMarker)
    (named : (Text.nextField (Text.nextField source.toList).2).1 ∉ [[], definitionTerminator])
    (scanned : Token.scan (bodyText source) (some (definedName source))
      (some (bodyLine source number)) = .ok scan)
    (ended : dropTerminator? scan.tokens = some tokens) (state : State) :
    state.compile source (some number) = state.compileTokens (definedName source) tokens := by
  obtain ⟨present, other⟩ := not_or.mp (by simpa using named)
  unfold bodyLine bodyText definedName at scanned
  simp [compile, compileBody, afterReport, checkMarker, marked, present, other, scanned, ended,
    definedName]

end State

end ThreadedCode.Compiler
