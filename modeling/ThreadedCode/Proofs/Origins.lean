import ThreadedCode.Proofs.Problems

/-!
# Where diagnostics come from

A problem with the header of a definition is recorded without a column. Every diagnostic of a
finished run that has one is about a token of a word, at the site of the token, and something is
wrong with the token (`Runs.blamed`); `Runs.recorded` is the converse.
-/

namespace ThreadedCode

open Compiler

namespace Compiler

/-! ### Tokens that are blamed -/

theorem slotWords_of_problem {state : State} {slot : Nat} {problem : Problem}
    (met : problem ∈ (variableBlock state slot).problems) :
    ∃ needed, problem = .missingBootstrapWord needed ∧ (none, needed) ∈ slotWords state slot := by
  have missing : ∀ {index : Option Int} {name : Option String},
      problem ∈ (Block.ofBootstrap index name).problems → (index, name) ∈ slotWords state slot →
      ∃ needed, problem = .missingBootstrapWord needed ∧ (none, needed) ∈ slotWords state slot := by
    intro index name met listed
    obtain ⟨rfl, rfl⟩ := ofBootstrap_problems met
    exact ⟨name, rfl, listed⟩
  -- The first two slots are pushed by a word of their own each, all others by the short literal.
  rcases slot with - | - | slot
  all_goals
    simp only [variableBlock, Block.append, Block.ofValue, List.append_nil, List.mem_append] at met
    rcases met with push | operand
    · exact missing push (by simp [slotWords])
    · exact missing operand (by simp [slotWords])

theorem Draft.CodeEffect.blames {state final : State} {draft : Draft} {turn : Turn} {block : Block}
    {problem : Problem} (cases : Draft.CodeEffect state turn.before turn.token (.emit block))
    (met : problem ∈ block.problems) : TokenProblem state final draft turn problem := by
  cases cases with
  | recurse | known | own => simp [Block.ofWord] at met
  | slot kind declared =>
    obtain ⟨needed, rfl, missing⟩ := slotWords_of_problem met
    exact .slot kind declared missing
  | string kind packed =>
    rw [stringBlock_problems packed] at met
    obtain ⟨missing, rfl⟩ := ofBootstrap_problems met
    exact .string kind missing
  | plain kind resolved =>
    rw [plainBlock_problems resolved] at met
    split at met
    · rename_i unknown
      obtain rfl := List.mem_singleton.mp met
      exact .word kind (State.findWord?_eq_none_iff.mp unknown.1) unknown.2
    · cases met

namespace Turn

variable {state : State} {turn : Turn}

theorem inCode_of_emit (found : Draft.effect? state turn.before turn.token = .ok turn.effect)
    {block : Block} (emitted : turn.effect = .emit block) : turn.inCode = true := by
  cases outside : turn.inCode with
  | true => rfl
  | false =>
    rcases turn.commentEffect found outside with opening | cases
    · simp [emitted] at opening
    · rw [emitted] at cases
      cases cases

end Turn

namespace Passes

variable {state final : State} {draft : Draft} {turns : List Turn} {name : String}

theorem blames_turn {diagnostic : Diagnostic}
    (passes : Passes state (state.newDraft name) turns draft) {turn : Turn} (member : turn ∈ turns)
    (said : diagnostic ∈ turn.reports) :
    turn.inCode = true ∧ TokenProblem state final draft turn diagnostic.problem ∧
      diagnostic.site = draft.site turn.token := by
  have found := passes.effect member
  unfold Turn.reports at said
  split at said
  · rename_i block emitted
    obtain ⟨problem, met, rfl⟩ := List.mem_map.mp said
    have outside := Turn.inCode_of_emit found emitted
    have cases := turn.codeEffect found outside
    rw [emitted] at cases
    exact ⟨outside, cases.blames met, passes.site member⟩
  · cases said

theorem blames_label {diagnostic : Diagnostic}
    (passes : Passes state (state.newDraft name) turns draft) {turn : Turn} (member : turn ∈ turns)
    {note : Fixup} (left : turn.labelNote? = some note)
    (said : draft.labelReport? note = some diagnostic) :
    turn.inCode = true ∧ TokenProblem state final draft turn diagnostic.problem ∧
      diagnostic.site = draft.site turn.token := by
  have found := passes.effect member
  unfold Turn.labelNote? at left
  split at left
  · rename_i label used
    obtain rfl := Option.some.inj left
    have outside := turn.inCode_of_isOpen found (by simp [used, Effect.isOpen])
    have cases := turn.codeEffect found outside
    rw [used] at cases
    cases cases with
    | labelUse kind =>
      obtain ⟨problem, wrong, rfl⟩ := Option.map_eq_some_iff.mp said
      refine ⟨outside, ?_, rfl⟩
      unfold Draft.labelOffset at wrong
      split at wrong
      · rename_i undefined
        obtain rfl := Option.some.inj wrong
        exact .label kind undefined
      · rename_i target defined
        dsimp only at wrong
        split at wrong
        · cases wrong
        · rename_i far
          obtain rfl := Option.some.inj wrong
          exact .distance kind defined (Bool.eq_false_iff.mpr far)
  · cases left

/-- What a body records is about one of its tokens outside comments, which has that problem. -/
theorem blames {diagnostic : Diagnostic} (passes : Passes state (state.newDraft name) turns draft)
    (said : diagnostic ∈ turns.flatMap Turn.reports ++
      draft.labelUses.toList.filterMap draft.labelReport?) :
    ∃ turn ∈ codeTurns turns, TokenProblem state final draft turn diagnostic.problem ∧
      diagnostic.site = draft.site turn.token := by
  rcases List.mem_append.mp said with turnwise | label
  · obtain ⟨turn, member, said⟩ := List.mem_flatMap.mp turnwise
    obtain ⟨outside, wrong⟩ := passes.blames_turn member said
    exact ⟨turn, List.mem_filter.mpr ⟨member, outside⟩, wrong⟩
  · obtain ⟨note, noted, said⟩ := List.mem_filterMap.mp label
    rw [passes.labelUses, State.newDraft, List.nil_append] at noted
    obtain ⟨turn, member, left⟩ := List.mem_filterMap.mp noted
    obtain ⟨outside, wrong⟩ := passes.blames_label member left said
    exact ⟨turn, List.mem_filter.mpr ⟨member, outside⟩, wrong⟩

end Passes

/-! ### Definitions -/

/-- The turns of the body of a definition that a state compiles to a word. -/
structure State.Traces (state : State) (definition : Source.Definition) (turns : List Turn)
    (draft : Draft) : Prop where
  body : ∃ number, definition.line = some number ∧
    bodyTokens? definition.text number = some (turns.map Turn.token)
  passes : Passes state (state.newDraft (definedName definition.text)) turns draft

/-- A definition that returns adds the problems of its tokens, which have a column, problems without
one, and the references that its draft has noted. -/
theorem State.compile_origins {state after : State} {definition : Source.Definition}
    {entry : Option CompiledWord}
    (compiled : state.compile definition.text definition.line = (after, .ok entry)) :
    (∀ diagnostic ∈ after.diagnostics, diagnostic ∈ state.diagnostics ∨
        diagnostic.site.column = none ∨
        ∃ turns draft, entry.isSome ∧ state.Traces definition turns draft ∧
          diagnostic ∈ turns.flatMap Turn.reports ++
            draft.labelUses.toList.filterMap draft.labelReport?) ∧
      ∀ reference ∈ after.pending, reference ∈ state.pending ∨
        ∃ turns draft, entry.isSome ∧ state.Traces definition turns draft ∧
          ∃ note ∈ draft.references.toList, reference = pendingOf state.compiled.size note := by
  generalize result : (.ok entry : Except Failure (Option CompiledWord)) = outcome at compiled
  cases compile_cases compiled with
  | nothing reports wordless header =>
    refine ⟨fun diagnostic member => ?_, fun reference member => .inl member⟩
    exact (Array.mem_append.mp member).imp id fun fresh =>
      .inl (header entry result.symm diagnostic fresh)
  | @word number tokens final reports named start body added header =>
    obtain ⟨turns, draft, rfl, passes, references, recorded⟩ := Draft.addBody_reports added
    have traces : state.Traces definition turns draft := ⟨⟨number, start, body⟩, passes⟩
    have present : entry.isSome := by
      obtain ⟨code, there, -⟩ := addDraft_word (state.reporting reports) final
      rw [Except.ok.inj result, newest?_addDraft, there]
      rfl
    have filled := addDraft_filled (state.reporting reports) final
    refine ⟨fun diagnostic member => ?_, fun reference member => ?_⟩
    · rw [diagnostics_addDraft] at member
      rcases Array.mem_append.mp member with before | own
      · exact (Array.mem_append.mp before).imp id fun fresh => .inl (header diagnostic fresh)
      · rw [← Array.mem_toList_iff, recorded] at own
        exact .inr (.inr ⟨turns, draft, present, traces, own⟩)
    · rw [← Array.mem_toList_iff, filled.pending, List.mem_append] at member
      refine member.imp Array.mem_toList_iff.mp fun fresh => ?_
      obtain ⟨note, waiting, rfl⟩ := List.mem_map.mp fresh
      rw [references] at waiting
      exact ⟨turns, draft, present, traces, note, (List.mem_filter.mp waiting).1, rfl⟩

end Compiler

/-! ### Runs -/

/-- A word of a run, the state that compiles it and the turns of its body. -/
structure Traced (state : State) (log : Log) (final : State) (definition : Source.Definition)
    (before : State) (turns : List Turn) (draft : Draft) : Prop where
  place : ∃ earlier later after word, log = earlier ++ (definition, some word) :: later ∧
    Runs state earlier before ∧
    before.compile definition.text definition.line = (after, .ok (some word)) ∧
    Runs after later final
  traces : before.Traces definition turns draft

namespace Traced

variable {state after final before : State} {log : Log} {definition : Source.Definition}
  {turns : List Turn} {draft : Draft}

theorem first {entry : Option CompiledWord}
    (compiled : state.compile definition.text definition.line = (after, .ok entry))
    (present : entry.isSome) (rest : Runs after log final)
    (traces : state.Traces definition turns draft) :
    Traced state ((definition, entry) :: log) final definition state turns draft := by
  obtain ⟨word, rfl⟩ := Option.isSome_iff_exists.mp present
  exact ⟨⟨[], log, after, word, rfl, .nil state, compiled, rest⟩, traces⟩

theorem cons {other : Source.Definition} {entry : Option CompiledWord}
    (compiled : state.compile other.text other.line = (after, .ok entry))
    (traced : Traced after log final definition before turns draft) :
    Traced state ((other, entry) :: log) final definition before turns draft := by
  obtain ⟨⟨earlier, later, next, word, rfl, front, step, back⟩, traces⟩ := traced
  exact ⟨⟨(other, entry) :: earlier, later, next, word, rfl, .cons compiled front, step, back⟩,
    traces⟩

end Traced

namespace Runs

variable {state final : State} {log : Log}

theorem diagnostic_origin (runs : Runs state log final) :
    ∀ diagnostic ∈ final.diagnostics, diagnostic ∈ state.diagnostics ∨
      diagnostic.site.column = none ∨
      ∃ definition before turns draft, Traced state log final definition before turns draft ∧
        diagnostic ∈ turns.flatMap Turn.reports ++
          draft.labelUses.toList.filterMap draft.labelReport? := by
  induction runs with
  | nil state => exact fun diagnostic member => .inl member
  | @cons state after final definition entry log compiled rest ih =>
    intro diagnostic member
    rcases ih diagnostic member with here | columnless | ⟨other, before, turns, draft, traced, said⟩
    · refine ((State.compile_origins compiled).1 diagnostic here).imp id (Or.imp id ?_)
      rintro ⟨turns, draft, present, traces, said⟩
      exact ⟨definition, state, turns, draft, .first compiled present rest traces, said⟩
    · exact .inr (.inl columnless)
    · exact .inr (.inr ⟨other, before, turns, draft, traced.cons compiled, said⟩)

theorem pending_origin (runs : Runs state log final) :
    ∀ reference ∈ final.pending, reference ∈ state.pending ∨
      ∃ definition before turns draft, Traced state log final definition before turns draft ∧
        ∃ note ∈ draft.references.toList,
          reference = State.pendingOf before.compiled.size note := by
  induction runs with
  | nil state => exact fun reference member => .inl member
  | @cons state after final definition entry log compiled rest ih =>
    intro reference member
    rcases ih reference member with here | ⟨other, before, turns, draft, traced, noted⟩
    · refine ((State.compile_origins compiled).2 reference here).imp id ?_
      rintro ⟨turns, draft, present, traces, noted⟩
      exact ⟨definition, state, turns, draft, .first compiled present rest traces, noted⟩
    · exact .inr ⟨other, before, turns, draft, traced.cons compiled, noted⟩

/-- Whatever a finished run says with a column is about a token of one of its words, at the site of
the token, and the token has the problem. -/
theorem blamed (runs : Runs state log final) (fresh : state.Fresh)
    (finished : final.finish.2 = none) {diagnostic : Diagnostic}
    (member : diagnostic ∈ final.finish.1.diagnostics) (located : diagnostic.site.column ≠ none) :
    ∃ definition before turns draft, Traced state log final definition before turns draft ∧
      ∃ turn ∈ codeTurns turns, TokenProblem before final draft turn diagnostic.problem ∧
        diagnostic.site = draft.site turn.token := by
  rw [← Array.mem_toList_iff, State.finish_diagnostics finished] at member
  rcases List.mem_append.mp member with earlier | complaint
  · rcases runs.diagnostic_origin diagnostic (Array.mem_toList_iff.mp earlier) with
      start | columnless | ⟨definition, before, turns, draft, traced, said⟩
    · simp [fresh.diagnostics] at start
    · exact absurd columnless located
    · exact ⟨definition, before, turns, draft, traced, traced.traces.passes.blames said⟩
  · obtain ⟨reference, waiting, rfl⟩ := List.mem_map.mp complaint
    obtain ⟨pending, unresolved⟩ := List.mem_filter.mp waiting
    rcases runs.pending_origin reference (Array.mem_toList_iff.mp pending) with
      start | ⟨definition, before, turns, draft, traced, note, noted, rfl⟩
    · simp [fresh.pending] at start
    · have passes := traced.traces.passes
      obtain ⟨turn, listed, constant, kind, waits, rfl⟩ := (passes.mem_references_iff rfl).mp noted
      refine ⟨definition, before, turns, draft, traced, turn, listed, .reference kind waits ?_, ?_⟩
      · intro symbol declared same
        have resolved := State.resolve?_isSome_iff.mpr ⟨symbol, declared, same⟩
        rw [Option.isNone_iff_eq_none.mp unresolved] at resolved
        cases resolved
      · obtain ⟨front, later, after, word, rfl, earlier, compiled, back⟩ := traced.place
        exact complaint_site (runs.setup.trans earlier.setup.symm) compiled back passes turn constant

end Runs

end ThreadedCode
