import ThreadedCode.Proofs.Resolution

/-!
# The problems of a run

A definition records the problems of its header, of its tokens at their turns, and of its labels
when the body ends. References that name no word are reported when the run is finished. Nothing that
is recorded is ever taken back, so every problem with a token of a word is among the diagnostics of
a run that returns (`Runs.recorded`).
-/

namespace ThreadedCode

/-- The kinds of problems that a definition records; the others end a run or wait for its end. -/
def Problem.Kind.isLocal : Problem.Kind → Bool
  | .malformedHeader | .unresolvedWord | .missingBootstrapWord | .unresolvedLabel => true
  | _ => false

namespace Compiler

/-! ### What drafts record -/

theorem ofBootstrap_problems {index : Option Int} {name : Option String} {problem : Problem}
    (met : problem ∈ (Block.ofBootstrap index name).problems) :
    index = none ∧ problem = .missingBootstrapWord name := by
  cases index with
  | some index => simp [Block.ofBootstrap, Block.ofWord] at met
  | none => simpa [Block.ofBootstrap, Block.ofWord] using met

theorem variableBlock_problems {state : State} {slot : Nat} {problem : Problem}
    (met : problem ∈ (variableBlock state slot).problems) :
    problem.kind = .missingBootstrapWord := by
  have missing : ∀ {index : Option Int} {name : Option String},
      problem ∈ (Block.ofBootstrap index name).problems → problem.kind = .missingBootstrapWord := by
    intro index name met
    rw [(ofBootstrap_problems met).2]
    rfl
  match slot with
  | 0 | 1 => exact (List.mem_append.mp met).elim missing missing
  | slot + 2 =>
    simp only [variableBlock, Block.append, Block.ofValue, List.append_nil] at met
    exact (List.mem_append.mp met).elim missing missing

theorem stringBlock_problems {state : State} {site : Site} {text : String} {block : Block}
    (packed : stringBlock state site text = .ok block) :
    block.problems =
      (Block.ofBootstrap state.bootstrap.litstring state.names.litstringConstant).problems := by
  unfold stringBlock at packed
  split at packed
  · cases packed
  · split at packed
    · cases packed
    · obtain rfl := Except.ok.inj packed
      exact List.append_nil _

theorem plainBlock_problems {state : State} {lastWord : Option Int} {lexeme : String}
    {block : Block} (resolved : plainBlock state lastWord lexeme = .ok block) :
    block.problems =
      if state.findWord? lexeme = none ∧ Text.parseInt32 lexeme.toList = .ok none then
        [.unresolvedWord lexeme]
      else [] := by
  unfold plainBlock at resolved
  split at resolved
  · rename_i found
    obtain rfl := Except.ok.inj resolved
    simp [found, Block.ofWord]
  · rename_i absent
    split at resolved
    · cases resolved
    · rename_i unread
      obtain rfl := Except.ok.inj resolved
      simp [absent, unread]
    · rename_i read
      split at resolved
      all_goals
        obtain rfl := Except.ok.inj resolved
        simp [read, Block.ofValue]

theorem Draft.CodeEffect.problems {state : State} {draft : Draft} {token : Token} {block : Block}
    (cases : Draft.CodeEffect state draft token (.emit block)) :
    ∀ problem ∈ block.problems, problem.kind.isLocal = true := by
  intro problem met
  cases cases with
  | recurse | known | own => simp [Block.ofWord] at met
  | slot kind declared => simp [variableBlock_problems met, Problem.Kind.isLocal]
  | string kind packed =>
    rw [stringBlock_problems packed] at met
    simp [(ofBootstrap_problems met).2, Problem.kind, Problem.Kind.isLocal]
  | plain kind resolved =>
    rw [plainBlock_problems resolved] at met
    split at met
    · simp_all [Problem.kind, Problem.Kind.isLocal]
    · cases met

namespace Draft

def IsLocal (draft : Draft) : Prop :=
  ∀ diagnostic ∈ draft.diagnostics, diagnostic.problem.kind.isLocal = true

theorem apply_isLocal {state : State} {draft : Draft} {token : Token} {effect : Effect}
    (recorded : draft.IsLocal) (found : effect? state draft token = .ok effect) :
    (draft.apply token effect).IsLocal := by
  cases effect with
  | emit block =>
    have problems : ∀ problem ∈ block.problems, problem.kind.isLocal = true := by
      obtain ⟨-, cases⟩ | ⟨-, cases⟩ := effect?_ok found
      · exact cases.problems
      · cases cases
    intro diagnostic member
    rw [apply, emit_eq] at member
    rcases Array.mem_append.mp member with old | new
    · exact recorded diagnostic old
    · obtain ⟨problem, met, rfl⟩ := List.mem_map.mp (List.mem_toArray.mp new)
      exact problems problem met
  | _ => exact recorded

/-- What is said about a use of a label, if something is wrong with it. -/
def labelReport? (draft : Draft) (note : Fixup) : Option Diagnostic :=
  (draft.labelOffset note).2.map fun problem =>
    ⟨problem,
      { word := some draft.word
        line := note.line
        column := note.column
        filename := draft.filename }⟩

theorem labelReport?_isLocal {draft : Draft} {note : Fixup} {diagnostic : Diagnostic}
    (said : draft.labelReport? note = some diagnostic) :
    diagnostic.problem.kind.isLocal = true := by
  obtain ⟨problem, wrong, rfl⟩ := Option.map_eq_some_iff.mp said
  unfold labelOffset at wrong
  cases found : draft.labels.lookup note.name with
  | none =>
    obtain rfl : .undefinedLabel note.name = problem := by simpa [found] using wrong
    rfl
  | some target =>
    by_cases fits : Code.fitsSigned (target - note.position) = true
    · simp [found, fits] at wrong
    · obtain rfl : .distantLabel note.name (target - note.position) = problem := by
        simpa [found, fits] using wrong
      rfl

/-- Filling in a label changes the code, and of the rest only what is said about the label. -/
theorem patchLabel_reports {draft next : Draft} {note : Fixup}
    (patched : draft.patchLabel note = .ok next) :
    ∃ code, next =
      { draft with
        code := code
        diagnostics := draft.diagnostics ++ (draft.labelReport? note).toArray } := by
  unfold patchLabel at patched
  unfold labelReport?
  dsimp only at patched
  split at patched
  · rename_i problem wrong
    split at patched
    · rw [← Except.ok.inj patched, wrong]
      exact ⟨_, rfl⟩
    · cases patched
  · rename_i fine
    rw [← Except.ok.inj patched, fine, Option.map_none, Option.toArray_none, Array.append_empty]
    exact ⟨_, rfl⟩

theorem patchLabel_isLocal {draft next : Draft} {note : Fixup} (recorded : draft.IsLocal)
    (patched : draft.patchLabel note = .ok next) : next.IsLocal := by
  obtain ⟨code, rfl⟩ := patchLabel_reports patched
  intro diagnostic member
  rcases Array.mem_append.mp member with old | new
  · exact recorded diagnostic old
  · exact labelReport?_isLocal (by simpa using new)

end Draft

/-! ### What bodies record -/

/-- What is recorded at the turn of a token. -/
def Turn.reports (turn : Turn) : List Diagnostic :=
  match turn.effect with
  | .emit block => block.problems.map (Diagnostic.mk · (turn.before.site turn.token))
  | _ => []

namespace Passes

variable {state : State} {draft final : Draft} {turns : List Turn}

theorem diagnostics (passes : Passes state draft turns final) :
    final.diagnostics.toList = draft.diagnostics.toList ++ turns.flatMap Turn.reports := by
  induction passes with
  | nil draft => simp
  | @cons draft final token effect turns found rest ih =>
    rw [ih]
    cases effect <;> simp [Draft.apply, Draft.emit_eq, Turn.reports]

theorem site (passes : Passes state draft turns final) {turn : Turn} (member : turn ∈ turns) :
    turn.before.site turn.token = final.site turn.token := by
  obtain ⟨earlier, later, rfl⟩ := List.append_of_mem member
  obtain ⟨word, -, filename⟩ := passes.fixed
  obtain ⟨word', -, filename'⟩ := passes.split.1.fixed
  simp [Draft.site, word, filename, word', filename']

end Passes

namespace Draft

theorem patchLabels_reports {draft final : Draft} {notes : List Fixup}
    (patched : draft.patchLabels notes = (final, none)) :
    final.diagnostics.toList =
      draft.diagnostics.toList ++ notes.filterMap draft.labelReport? := by
  induction notes generalizing draft with
  | nil =>
    obtain ⟨rfl, -⟩ := Prod.mk.inj patched
    simp
  | cons note rest ih =>
    rw [patchLabels] at patched
    cases step : draft.patchLabel note with
    | error limit => simp [step] at patched
    | ok next =>
      rw [step] at patched
      obtain ⟨code, rfl⟩ := patchLabel_reports step
      -- What is said about a label does not depend on the code or on what was said before.
      have same : Draft.labelReport? { draft with
          code := code
          diagnostics := draft.diagnostics ++ (draft.labelReport? note).toArray } =
            draft.labelReport? := rfl
      rw [ih patched, same]
      cases said : draft.labelReport? note <;> simp [said]

/-- A body that is added in full has recorded the problems of its turns and of its labels. -/
theorem addBody_reports {state : State} {name : String} {final : Draft} {tokens : List Token}
    (added : addBody state (state.newDraft name) tokens = (final, none)) :
    ∃ turns draft, turns.map Turn.token = tokens ∧ Passes state (state.newDraft name) turns draft ∧
      final.references = draft.references ∧
      final.diagnostics.toList =
        turns.flatMap Turn.reports ++ draft.labelUses.toList.filterMap draft.labelReport? := by
  obtain ⟨turns, draft, read, passes, patched⟩ := addBody_passes added
  obtain ⟨code, diagnostics, same, -⟩ := patchLabels_none patched
  refine ⟨turns, draft, read, passes, by rw [same], ?_⟩
  rw [patchLabels_reports patched, passes.diagnostics]
  simp [State.newDraft]

end Draft

/-- The bootstrap words that push a slot: their indices, as far as they are there, and names. -/
def slotWords (state : State) (slot : Nat) : List (Option Int × Option String) :=
  (state.bootstrap.pushVariable, state.names.pushVariable) ::
    match slot with
    | 0 => [(state.bootstrap.falseWord, state.names.falseWord)]
    | 1 => [(state.bootstrap.oneWord, state.names.oneWord)]
    | _ => [((state.names.shortLiteral.bind state.findWord?).map Int.ofNat,
        state.names.shortLiteral)]

/-- What is wrong with a token outside comments: it is neither a word nor an integer, it names a
constant or a label that nothing has, a label is too far away, or a bootstrap word that it needs is
missing. Constants are looked up at the end of the run, all else in the definition or before it. -/
inductive TokenProblem (state final : State) (draft : Draft) (turn : Turn) : Problem → Prop where
  | word (plain : IsPlain state turn.token) (absent : turn.token.lexeme ∉ state.declared)
      (unread : Text.parseInt32 turn.token.lexeme.toList = .ok none) :
      TokenProblem state final draft turn (.unresolvedWord turn.token.lexeme)
  | reference {name : Option String} (kind : turn.token.kind = .reference name)
      (pending : turn.IsOpen state) (absent : ∀ symbol ∈ final.symbols, name ≠ some symbol.2) :
      TokenProblem state final draft turn (.unresolvedReference name)
  | label {name : Option String} (kind : turn.token.kind = .labelUse name)
      (undefined : draft.labels.lookup name = none) :
      TokenProblem state final draft turn (.undefinedLabel name)
  | distance {name : Option String} {target : Nat} (kind : turn.token.kind = .labelUse name)
      (defined : draft.labels.lookup name = some target)
      (far : Code.fitsSigned (target - turn.before.code.offset) = false) :
      TokenProblem state final draft turn (.distantLabel name (target - turn.before.code.offset))
  | slot {name : Option String} {slot : Nat} {needed : Option String}
      (kind : turn.token.kind = .variableRef name)
      (declared : name.bind state.slots.find? = some slot) (missing : (none, needed) ∈ slotWords state slot) :
      TokenProblem state final draft turn (.missingBootstrapWord needed)
  | string {text : String} (kind : turn.token.kind = .stringLiteral text)
      (missing : state.bootstrap.litstring = none) :
      TokenProblem state final draft turn (.missingBootstrapWord state.names.litstringConstant)

theorem slotWords_missing {state : State} {slot : Nat} {needed : Option String}
    (missing : (none, needed) ∈ slotWords state slot) :
    .missingBootstrapWord needed ∈ (variableBlock state slot).problems := by
  have said : ∀ {index : Option Int} {name : Option String}, (none, needed) = (index, name) →
      .missingBootstrapWord needed ∈ (Block.ofBootstrap index name).problems := by
    intro index name same
    obtain ⟨rfl, rfl⟩ := Prod.mk.inj same
    simp [Block.ofBootstrap]
  -- The first two slots are pushed by a word of their own each, all others by the short literal.
  rcases slot with - | - | slot
  all_goals
    simp only [slotWords, List.mem_cons, List.not_mem_nil, or_false] at missing
    simp only [variableBlock, Block.append, Block.ofValue, List.append_nil, List.mem_append]
    exact missing.imp said said

namespace Draft.CodeEffect

variable {state : State} {draft : Draft} {token : Token} {effect : Effect}

theorem useLabel {name : Option String} (cases : CodeEffect state draft token effect)
    (kind : token.kind = .labelUse name) : effect = .useLabel name := by
  cases cases with
  | labelUse other => rw [Token.Kind.labelUse.inj (other.symm.trans kind)]
  | plain plain => obtain other | other | ⟨name, other, -⟩ := plain <;> simp_all
  | _ => simp_all

theorem variableBlock {name : Option String} {slot : Nat}
    (cases : CodeEffect state draft token effect) (kind : token.kind = .variableRef name)
    (declared : name.bind state.slots.find? = some slot) :
    effect = .emit (variableBlock state slot) := by
  cases cases with
  | slot other found =>
    obtain rfl := Token.Kind.variableRef.inj (other.symm.trans kind)
    rw [Option.some.inj (found.symm.trans declared)]
  | plain plain =>
    obtain other | other | ⟨name, other, undeclared⟩ := plain
    · simp [kind] at other
    · simp [kind] at other
    · obtain rfl := Token.Kind.variableRef.inj (other.symm.trans kind)
      simp [undeclared] at declared
  | _ => simp_all

theorem stringBlock {text : String} (cases : CodeEffect state draft token effect)
    (kind : token.kind = .stringLiteral text) :
    ∃ block, stringBlock state (draft.site token) text = .ok block ∧ effect = .emit block := by
  cases cases with
  | string other packed =>
    obtain rfl := Token.Kind.stringLiteral.inj (other.symm.trans kind)
    exact ⟨_, packed, rfl⟩
  | plain plain => obtain other | other | ⟨name, other, -⟩ := plain <;> simp_all
  | _ => simp_all

end Draft.CodeEffect

namespace Passes

variable {state final : State} {draft : Draft} {turns : List Turn} {turn : Turn} {name : String}

theorem reported (passes : Passes state (state.newDraft name) turns draft) (member : turn ∈ turns)
    {block : Block} (emitted : turn.effect = .emit block) {problem : Problem}
    (met : problem ∈ block.problems) :
    ⟨problem, draft.site turn.token⟩ ∈ turns.flatMap Turn.reports := by
  refine List.mem_flatMap.mpr ⟨turn, member, ?_⟩
  rw [Turn.reports, emitted, ← passes.site member]
  exact List.mem_map_of_mem met

theorem labelled (passes : Passes state (state.newDraft name) turns draft) (member : turn ∈ turns)
    {label : Option String} (used : turn.effect = .useLabel label) {problem : Problem}
    (wrong : (draft.labelOffset (turn.before.fixup turn.token label)).2 = some problem) :
    ⟨problem, draft.site turn.token⟩ ∈ draft.labelUses.toList.filterMap draft.labelReport? := by
  refine List.mem_filterMap.mpr ⟨turn.before.fixup turn.token label, ?_, ?_⟩
  · rw [passes.labelUses]
    refine List.mem_append_right _ (List.mem_filterMap.mpr ⟨turn, member, ?_⟩)
    rw [Turn.labelNote?, used]
  · rw [Draft.labelReport?, wrong]
    rfl

/-- What is wrong with a token is said at its turn or about its label, or it is noted that its
reference waits. -/
theorem said {problem : Problem} (passes : Passes state (state.newDraft name) turns draft)
    (member : turn ∈ codeTurns turns) (wrong : TokenProblem state final draft turn problem) :
    ⟨problem, draft.site turn.token⟩ ∈
        turns.flatMap Turn.reports ++ draft.labelUses.toList.filterMap draft.labelReport? ∨
      ∃ constant, problem = .unresolvedReference constant ∧
        turn.before.fixup turn.token constant ∈ draft.references.toList ∧
        ∀ symbol ∈ final.symbols, constant ≠ some symbol.2 := by
  obtain ⟨inside, outside⟩ := List.mem_filter.mp member
  have cases := turn.codeEffect (passes.effect inside) outside
  rw [List.mem_append]
  cases wrong with
  | word plain absent unread =>
    obtain ⟨block, resolved, emitted⟩ := cases.plainBlock plain
    refine .inl (.inl (passes.reported inside emitted ?_))
    rw [plainBlock_problems resolved, if_pos ⟨State.findWord?_eq_none_iff.mpr absent, unread⟩]
    exact List.mem_singleton_self _
  | slot kind declared missing =>
    exact .inl (.inl (passes.reported inside (cases.variableBlock kind declared)
      (slotWords_missing missing)))
  | string kind missing =>
    obtain ⟨block, packed, emitted⟩ := cases.stringBlock kind
    refine .inl (.inl (passes.reported inside emitted ?_))
    simp [stringBlock_problems packed, Block.ofBootstrap, missing]
  | label kind undefined =>
    refine .inl (.inr (passes.labelled inside (cases.useLabel kind) ?_))
    simp [Draft.labelOffset, Draft.fixup, undefined]
  | distance kind defined far =>
    refine .inl (.inr (passes.labelled inside (cases.useLabel kind) ?_))
    simp [Draft.labelOffset, Draft.fixup, defined, far]
  | @reference constant kind pending absent =>
    exact .inr ⟨constant, rfl, (passes.mem_references_iff rfl).mpr
      ⟨turn, member, constant, kind, pending, rfl⟩, absent⟩

end Passes

/-! ### What calls record -/

namespace State

/-- A state that has recorded further problems, all of which are allowed. -/
def Adds (allowed : Diagnostic → Prop) (state later : State) : Prop :=
  ∃ reports, later.diagnostics.toList = state.diagnostics.toList ++ reports ∧
    ∀ diagnostic ∈ reports, allowed diagnostic

/-- A state that has recorded further problems, all of kinds that definitions record. -/
def Records (state later : State) : Prop :=
  ∃ reports, later.diagnostics.toList = state.diagnostics.toList ++ reports ∧
    ∀ diagnostic ∈ reports, diagnostic.problem.kind.isLocal = true

theorem diagnostics_addDraft (state : State) (draft : Draft) :
    (state.addDraft draft).diagnostics = state.diagnostics ++ draft.diagnostics :=
  (addDraft_filled state draft).diagnostics

section

variable {allowed : Diagnostic → Prop} {state middle later : State}

theorem Adds.refl (state : State) : Adds allowed state state :=
  ⟨[], by simp, by simp⟩

theorem Adds.trans (first : Adds allowed state middle) (second : Adds allowed middle later) :
    Adds allowed state later := by
  obtain ⟨reports, grown, fine⟩ := first
  obtain ⟨others, grown', fine'⟩ := second
  refine ⟨reports ++ others, by rw [grown', grown, List.append_assoc], ?_⟩
  exact List.forall_mem_append.mpr ⟨fine, fine'⟩

theorem report_adds {problem : Problem} {site : Site}
    (reported : state.report problem site = .ok later) (fine : allowed ⟨problem, site⟩) :
    Adds allowed state later := by
  obtain rfl := report_ok reported
  exact ⟨[⟨problem, site⟩], by simp [reporting], by simpa using fine⟩

theorem afterReport_adds {α : Type} {reported : Except Text.TooManyDigits State}
    {next : State → State × Except Failure α}
    (first : ∀ after, reported = .ok after → Adds allowed state after)
    (second : ∀ after, reported = .ok after → Adds allowed after (next after).1) :
    Adds allowed state (state.afterReport reported next).1 := by
  cases reported with
  | error limit => exact Adds.refl state
  | ok after => exact (first after rfl).trans (second after rfl)

/-- The tokens of a body add what their draft has recorded, wherever they fail. -/
theorem compileTokens_adds {word : String} {tokens : List Token}
    (body : ∀ diagnostic ∈ (Draft.addBody state (state.newDraft word) tokens).1.diagnostics,
      allowed diagnostic) : Adds allowed state (state.compileTokens word tokens).1 := by
  unfold compileTokens
  split
  · rename_i draft failure added
    rw [added] at body
    exact ⟨draft.diagnostics.toList, by simp, by simpa using body⟩
  · rename_i draft added
    rw [added] at body
    exact ⟨draft.diagnostics.toList, by simp [diagnostics_addDraft], by simpa using body⟩

theorem compileBody_adds {source : String} {number : Int} {site : Site}
    (header : allowed ⟨.unterminatedDefinition, site⟩)
    (body : ∀ tokens, bodyTokens? source number = some tokens → ∀ diagnostic ∈
      (Draft.addBody state (state.newDraft (definedName source)) tokens).1.diagnostics,
        allowed diagnostic) :
    Adds allowed state
      (state.compileBody (definedName source) site (bodyText source) (bodyLine source number)).1 := by
  unfold compileBody
  split
  · exact Adds.refl state
  · rename_i scan scanned
    split
    · rename_i tokens dropped
      exact compileTokens_adds (body tokens (by simp [bodyTokens?, scanned, dropped]))
    · rename_i dropped
      refine afterReport_adds (fun after ending => report_adds ending header) fun after ending => ?_
      obtain rfl := report_ok ending
      apply compileTokens_adds
      rw [addBody_reporting]
      exact body scan.tokens (by simp [bodyTokens?, scanned, dropped])

/-- A definition, be it compiled or not, adds what is said about its header, which has no column, and
what the draft of its body has recorded. -/
theorem compile_adds {source : String} {line : Option Int}
    (header : ∀ problem site, problem.kind = .malformedHeader → site.column = none →
      allowed ⟨problem, site⟩)
    (body : ∀ number tokens, line = some number → bodyTokens? source number = some tokens →
      ∀ diagnostic ∈ (Draft.addBody state (state.newDraft (definedName source)) tokens).1.diagnostics,
        allowed diagnostic) :
    Adds allowed state (state.compile source line).1 := by
  unfold compile
  dsimp only
  split
  · exact afterReport_adds (fun after nameless => report_adds nameless (header _ _ rfl rfl))
      fun after _ => Adds.refl after
  · refine afterReport_adds (fun after checked => ?_) fun after checked => ?_
    · unfold checkMarker at checked
      split at checked
      · rw [← Except.ok.inj checked]
        exact Adds.refl state
      · exact report_adds checked (header _ _ rfl rfl)
    · cases line with
      | none => exact Adds.refl after
      | some number =>
        obtain ⟨reports, rfl, -⟩ := checkMarker_ok checked
        refine compileBody_adds (header _ _ rfl rfl) fun tokens read => ?_
        rw [addBody_reporting]
        exact body number tokens rfl read

end

theorem compile_records (state : State) (source : String) (line : Option Int) :
    Records state (state.compile source line).1 := by
  have fresh : (state.newDraft (definedName source)).IsLocal := by simp [Draft.IsLocal, newDraft]
  refine compile_adds (fun problem site malformed _ => ?_) fun number tokens _ _ => ?_
  · show problem.kind.isLocal = true
    rw [malformed]
    rfl
  · exact Draft.addBody_invariant state Draft.apply_isLocal Draft.patchLabel_isLocal fresh tokens

/-- Finishing reports pending references and nothing else. -/
theorem finish_reports (state : State) :
    ∃ references ⊆ state.pending.toList, state.finish.1.diagnostics.toList =
      state.diagnostics.toList ++ references.map state.complaint :=
  ⟨_, (List.filter_sublist.trans (List.takeWhile_sublist _)).subset,
    (finish_settled state).diagnostics⟩

theorem attempt_records (state : State) (definitions : List Source.Definition) :
    Records state (state.attempt definitions) := by
  induction definitions generalizing state with
  | nil => exact Adds.refl state
  | cons definition rest ih =>
    exact Adds.trans (compile_records state definition.text definition.line) (ih _)

/-- A definition that becomes a word has recorded what its body records, and its references that
name no word yet are pending. -/
theorem compile_recorded {state after : State} {source : String} {line : Option Int}
    {word : CompiledWord} (compiled : state.compile source line = (after, .ok (some word))) :
    ∃ number tokens turns draft,
      line = some number ∧ bodyTokens? source number = some tokens ∧
      turns.map Turn.token = tokens ∧
      Passes state (state.newDraft (definedName source)) turns draft ∧
      (∀ diagnostic ∈ turns.flatMap Turn.reports ++
        draft.labelUses.toList.filterMap draft.labelReport?, diagnostic ∈ after.diagnostics) ∧
      (∀ note ∈ draft.references.toList, after.resolve? note.name = none →
        pendingOf state.compiled.size note ∈ after.pending) ∧
      after.compiled[state.compiled.size]?.map (·.name) = some (definedName source) := by
  generalize result : (.ok (some word) : Except Failure (Option CompiledWord)) = outcome at compiled
  cases compile_cases compiled with
  | nothing reports wordless => exact absurd result.symm (wordless word)
  | @word number tokens final reports named start body added =>
    obtain ⟨turns, draft, read, passes, references, recorded⟩ := Draft.addBody_reports added
    have filled := addDraft_filled (state.reporting reports) final
    refine ⟨number, tokens, turns, draft, start, body, read, passes, ?_, ?_, ?_⟩
    · intro diagnostic member
      rw [diagnostics_addDraft]
      rw [← recorded, Array.mem_toList_iff] at member
      exact Array.mem_append_right _ member
    · intro note member absent
      rw [resolve?_congr filled.setup filled.symbols] at absent
      rw [← Array.mem_toList_iff, filled.pending, references]
      refine List.mem_append_right _ (List.mem_map_of_mem (List.mem_filter.mpr ⟨member, ?_⟩))
      simp [absent]
    · obtain ⟨code, there, -⟩ := addDraft_word (state.reporting reports) final
      obtain ⟨turns, middle, -, -, -, name, -⟩ := addBody_layout added
      rw [show (state.reporting reports).compiled.size = state.compiled.size from rfl] at there
      simp [there, Draft.toWord, name]

theorem compile_pending {state after : State} {source : String} {line : Option Int}
    {outcome : Except Failure (Option CompiledWord)}
    (compiled : state.compile source line = (after, outcome)) :
    state.pending.toList <+: after.pending.toList := by
  cases compile_cases compiled with
  | nothing reports wordless => exact List.prefix_refl _
  | @word number tokens draft reports named start body added =>
    rw [(addDraft_filled (state.reporting reports) draft).pending]
    exact List.prefix_append _ _

theorem attempt_pending (state : State) (definitions : List Source.Definition) :
    state.pending.toList <+: (state.attempt definitions).pending.toList := by
  induction definitions generalizing state with
  | nil => exact List.prefix_refl _
  | cons definition rest ih => exact (compile_pending rfl).trans (ih _)

theorem symbols_prefix {spots : Nat → Nat → Prop} {state later : State}
    (setup : later.setup = state.setup) (kept : Keeps spots state later) :
    state.symbols.toList <+: later.symbols.toList := by
  have catalog : later.catalog = state.catalog := congrArg Setup.catalog setup
  have words := kept.prefix_map (fun word => (word.name, word.constant)) fun _ _ => rfl
  rw [symbols, symbols, catalog, Array.toList_append, Array.toList_append]
  exact (List.prefix_append_right_inj _).mpr words

theorem resolve?_eq_none {state : State} {name : Option String}
    (absent : ∀ symbol ∈ state.symbols, name ≠ some symbol.2) : state.resolve? name = none := by
  rw [← Option.not_isSome_iff_eq_none, resolve?_isSome_iff]
  rintro ⟨symbol, member, named⟩
  exact absent symbol member named

/-- Finishing that does not stop reports the pending references that name no word, in order. -/
theorem finish_diagnostics {state : State} (finished : state.finish.2 = none) :
    state.finish.1.diagnostics.toList = state.diagnostics.toList ++
      (state.pending.toList.filter fun reference => (state.resolve? reference.name).isNone).map
        state.complaint := by
  have settled := finish_settled state
  have all : state.pending.toList.takeWhile { state with pending := #[] }.isSettleable =
      state.pending.toList := List.takeWhile_eq_self_iff.mpr (settled.stopped.mp finished)
  rw [settled.diagnostics, all]
  rfl

theorem finish_complains {state : State} (finished : state.finish.2 = none)
    {reference : PendingReference} (member : reference ∈ state.pending)
    (absent : state.resolve? reference.name = none) :
    state.complaint reference ∈ state.finish.1.diagnostics := by
  rw [← Array.mem_toList_iff, finish_diagnostics finished]
  have unresolved : (state.resolve? reference.name).isNone := Option.isNone_iff_eq_none.mpr absent
  exact List.mem_append_right _ (List.mem_map_of_mem
    (List.mem_filter.mpr ⟨Array.mem_toList_iff.mpr member, unresolved⟩))

theorem mem_finish_diagnostics {state : State} {diagnostic : Diagnostic}
    (member : diagnostic ∈ state.diagnostics) : diagnostic ∈ state.finish.1.diagnostics := by
  obtain ⟨references, -, finished⟩ := finish_reports state
  rw [← Array.mem_toList_iff, finished]
  exact List.mem_append_left _ (Array.mem_toList_iff.mpr member)

end State

end Compiler

/-! ### What runs record -/

open Compiler

namespace Runs

variable {state final : State} {log : Log}

theorem records (runs : Runs state log final) : State.Records state final := by
  rw [runs.eq_attempt]
  exact State.attempt_records state _

theorem pending (runs : Runs state log final) : state.pending.toList <+: final.pending.toList := by
  rw [runs.eq_attempt]
  exact State.attempt_pending state _

theorem keeps (runs : Runs state log final) : State.Keeps state.Awaits state final := by
  rw [runs.eq_run]
  exact (State.run_frame state _).2

/-- What is said about a reference of a word at the end of the run is said at the site of its token. -/
theorem complaint_site {before after : State} {later : Log} {definition : Source.Definition}
    {word : CompiledWord} {turns : List Turn} {draft : Draft} (setup : final.setup = before.setup)
    (compiled : before.compile definition.text definition.line = (after, .ok (some word)))
    (back : Runs after later final)
    (passes : Passes before (before.newDraft (definedName definition.text)) turns draft)
    (turn : Turn) (constant : Option String) :
    (final.complaint (State.pendingOf before.compiled.size
      (turn.before.fixup turn.token constant))).site = draft.site turn.token := by
  obtain ⟨-, -, -, -, -, -, -, -, -, -, name⟩ := State.compile_recorded compiled
  obtain ⟨entry, there, named⟩ := Option.map_eq_some_iff.mp name
  obtain ⟨code, kept, -⟩ := back.keeps _ entry there
  have filename : final.filename = before.filename := congrArg Setup.filename setup
  obtain ⟨word, -, file⟩ := passes.fixed
  simp [State.complaint, State.holder, State.pendingOf, kept, named, Draft.site, Draft.fixup,
    filename, word, file, State.newDraft]

/-- Whatever is wrong with a token of a word is among the diagnostics of the finished run. -/
theorem recorded {earlier later : Log} {definition : Source.Definition} {word : CompiledWord}
    (runs : Runs state (earlier ++ (definition, some word) :: later) final)
    (finished : final.finish.2 = none) :
    ∃ before number tokens turns draft,
      Runs state earlier before ∧
      definition.line = some number ∧ bodyTokens? definition.text number = some tokens ∧
      turns.map Turn.token = tokens ∧
      Passes before (before.newDraft (definedName definition.text)) turns draft ∧
      ∀ turn ∈ codeTurns turns, ∀ problem, TokenProblem before final draft turn problem →
        ⟨problem, draft.site turn.token⟩ ∈ final.finish.1.diagnostics := by
  obtain ⟨before, after, front, compiled, back⟩ := runs.split
  obtain ⟨number, tokens, turns, draft, line, body, read, passes, reports, waits, -⟩ :=
    State.compile_recorded compiled
  refine ⟨before, number, tokens, turns, draft, front, line, body, read, passes, ?_⟩
  intro turn member problem wrong
  rcases passes.said member wrong with said | ⟨constant, rfl, noted, absent⟩
  · refine State.mem_finish_diagnostics ?_
    obtain ⟨further, grown, -⟩ := back.records
    rw [← Array.mem_toList_iff, grown]
    exact List.mem_append_left _ (Array.mem_toList_iff.mpr (reports _ said))
  · have grown := State.symbols_prefix back.setup back.keeps
    have unresolved : after.resolve? constant = none := State.resolve?_eq_none fun symbol listed =>
      absent symbol (Array.mem_toList_iff.mp (grown.subset (Array.mem_toList_iff.mpr listed)))
    have pending := back.pending.subset (Array.mem_toList_iff.mpr (waits _ noted unresolved))
    have complaint := State.finish_complains finished (Array.mem_toList_iff.mp pending)
      (State.resolve?_eq_none absent)
    rw [← complaint_site (runs.setup.trans front.setup.symm) compiled back passes turn constant]
    exact complaint

end Runs

end ThreadedCode
