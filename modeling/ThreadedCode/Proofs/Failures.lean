import ThreadedCode.Proofs.Problems
import ThreadedCode.Proofs.Reading

/-!
# How a definition can fail

A token that has a problem is compiled all the same, and the problem recorded. What ends a
definition is a string that is not closed or too long, a number with too many digits, or a problem
at a line or column with too many digits to be written.
-/

namespace ThreadedCode

open Compiler

/-! ### Numbers -/

namespace Text

/-- Whether a text is an optional sign and more digits than a number may have, up to one newline at
its end. -/
def IsOverlong (text : List Char) : Prop :=
  (splitSign (chopNewline text)).2.all isAsciiDigit = true ∧
    maxDigits < (splitSign (chopNewline text)).2.length

theorem isOverlong_of_parseInt32 {text : List Char} {limit : TooManyDigits}
    (failed : parseInt32 text = .error limit) : IsOverlong text := by
  unfold parseInt32 at failed
  dsimp only at failed
  split at failed
  · cases failed
  · rename_i digits
    split at failed
    · rename_i many
      have all := (show _ ∧ _ by simpa using digits).2
      exact ⟨List.all_eq_true.mpr all, many⟩
    · cases failed

end Text

theorem Site.isWritable_of_near {site : Site} {bound : Nat}
    (near : Near bound site.line site.column) (few : bound < 10 ^ Text.maxDigits) : site.isWritable = true := by
  obtain ⟨lines, columns⟩ := near
  unfold isWritable
  split
  · rfl
  · rename_i line known
    rw [Bool.and_eq_true, Option.all_eq_true]
    refine ⟨State.isWritable_iff.mpr (Nat.lt_of_le_of_lt (lines line known) few), ?_⟩
    intro column known
    exact State.isWritable_iff.mpr (Nat.lt_of_le_of_lt (columns column known) few)

/-- A diagnostic at a near place is raised as it is, unless the bound is beyond the numbers that can
be written. -/
theorem Diagnostic.raised_of_near {ε : Type} {fault : Diagnostic → ε}
    {tooManyDigits : Text.TooManyDigits → ε} {bound : Nat} (diagnostic : Diagnostic)
    (near : Near bound diagnostic.site.line diagnostic.site.column) :
    diagnostic.raised fault tooManyDigits = fault diagnostic ∨
      10 ^ Text.maxDigits ≤ bound ∧ diagnostic.raised fault tooManyDigits = tooManyDigits {} := by
  unfold raised
  split
  · exact .inl rfl
  · rename_i unsaid
    exact .inr ⟨Nat.le_of_not_lt fun few => unsaid (Site.isWritable_of_near near few), rfl⟩

namespace Compiler

/-! ### Bodies -/

/-- Why a body stops at one of some tokens whose lines and columns are within a bound. -/
inductive Stops (bound : Nat) (tokens : List Token) : Failure → Prop where
  | string {token : Token} {text : String} {site : Site} (member : token ∈ tokens)
      (kind : token.kind = .stringLiteral text)
      (long : Code.maxPackedBytes < (Text.utf8Bytes text.toList).length) :
      Stops bound tokens (.fault ⟨.stringTooLong (Text.utf8Bytes text.toList).length, site⟩)
  | literal {token : Token} {limit : Text.TooManyDigits} (member : token ∈ tokens)
      (overlong : Text.IsOverlong token.lexeme.toList) : Stops bound tokens (.tooManyDigits limit)
  | place {limit : Text.TooManyDigits} (beyond : 10 ^ Text.maxDigits ≤ bound) :
      Stops bound tokens (.tooManyDigits limit)

theorem Stops.mono {bound wider : Nat} {tokens others : List Token} {failure : Failure}
    (stops : Stops bound tokens failure) (within : bound ≤ wider) (included : tokens ⊆ others) :
    Stops wider others failure := by
  cases stops with
  | string member kind long => exact .string (included member) kind long
  | literal member overlong => exact .literal (included member) overlong
  | place beyond => exact .place (Nat.le_trans beyond within)

theorem plainBlock_error {state : State} {lastWord : Option Int} {lexeme : String}
    {failure : Failure} (failed : plainBlock state lastWord lexeme = .error failure) :
    Text.IsOverlong lexeme.toList ∧ ∃ limit, failure = .tooManyDigits limit := by
  unfold plainBlock at failed
  split at failed
  · cases failed
  · split at failed
    · rename_i limit many
      exact ⟨Text.isOverlong_of_parseInt32 many, limit, (Except.error.inj failed).symm⟩
    · cases failed
    · split at failed <;> cases failed

theorem stringBlock_error {state : State} {site : Site} {text : String} {failure : Failure}
    (encode : state.encode = Text.utf8)
    (failed : stringBlock state site text = .error failure) :
    Code.maxPackedBytes < (Text.utf8Bytes text.toList).length ∧
      failure = .ofDiagnostic ⟨.stringTooLong (Text.utf8Bytes text.toList).length, site⟩ := by
  have encoded : state.encode text = some (Text.utf8Bytes text.toList) := by
    rw [encode]
    rfl
  unfold stringBlock at failed
  rw [encoded] at failed
  dsimp only at failed
  split at failed
  · rename_i problem refused
    unfold Code.pack at refused
    split at refused
    · rename_i long
      obtain rfl := Except.error.inj refused
      exact ⟨long, (Except.error.inj failed).symm⟩
    · cases refused
  · cases failed

namespace Draft

variable {state : State} {draft : Draft} {token : Token} {failure : Failure} {bound : Nat}

theorem emitEffect?_error {block : Block} (near : Near bound token.line token.column)
    (failed : draft.emitEffect? token block = .error failure) : Stops bound [token] failure := by
  unfold emitEffect? at failed
  split at failed
  · cases failed
  · rename_i unsaid
    obtain rfl := Except.error.inj failed
    refine .place (Nat.le_of_not_lt fun few => unsaid ?_)
    rw [Site.isWritable_of_near near few, Bool.or_true]

theorem plainEffect?_error (near : Near bound token.line token.column)
    (failed : plainEffect? state draft token = .error failure) : Stops bound [token] failure := by
  unfold plainEffect? at failed
  split at failed
  · rename_i stopped
    obtain rfl := Except.error.inj failed
    obtain ⟨overlong, limit, rfl⟩ := plainBlock_error stopped
    exact .literal List.mem_cons_self overlong
  · exact emitEffect?_error near failed

theorem codeEffect?_error (encode : state.encode = Text.utf8) (read : token.kind.IsRead)
    (near : Near bound token.line token.column)
    (failed : codeEffect? state draft token = .error failure) :
    Stops bound [token] failure := by
  unfold codeEffect? at failed
  cases kind : token.kind with
  | variableRef name =>
    simp only [kind] at failed
    split at failed
    · exact emitEffect?_error near failed
    · exact plainEffect?_error near failed
  | stringLiteral text =>
    simp only [kind] at failed
    split at failed
    · rename_i stopped
      obtain rfl := Except.error.inj failed
      obtain ⟨long, rfl⟩ := stringBlock_error encode stopped
      rcases Diagnostic.raised_of_near ⟨_, draft.site token⟩ near with said | ⟨beyond, unsaid⟩
      · rw [Failure.ofDiagnostic, said]
        exact .string List.mem_cons_self kind long
      · rw [Failure.ofDiagnostic, unsaid]
        exact .place beyond
    · exact emitEffect?_error near failed
  | word | commentClose => exact plainEffect?_error near (by simpa [kind] using failed)
  | flag mask =>
    cases mask with
    | none => simp [kind, Token.Kind.IsRead] at read
    | some mask => simp [kind] at failed
  | stringIntro | unknown => simp [kind, Token.Kind.IsRead] at read
  | _ => simp [kind] at failed

/-- A token that is read fails outside comments only, and for its length or its place. -/
theorem effect?_error (encode : state.encode = Text.utf8) (read : token.kind.IsRead)
    (near : Near bound token.line token.column)
    (failed : effect? state draft token = .error failure) :
    draft.commentDepth = 0 ∧ token.kind ≠ .commentOpen ∧ Stops bound [token] failure := by
  unfold effect? at failed
  split at failed
  · cases failed
  · refine ⟨by omega, fun opening => ?_, codeEffect?_error encode read near failed⟩
    simp [codeEffect?, opening] at failed

theorem addTokens_error {final : Draft} {tokens : List Token}
    (encode : state.encode = Text.utf8)
    (read : ∀ token ∈ tokens, token.kind.IsRead ∧ Near bound token.line token.column)
    (failed : addTokens state draft tokens = (final, some failure)) :
    Stops bound (Token.outside draft.commentDepth tokens) failure := by
  induction tokens generalizing draft with
  | nil => simp [addTokens] at failed
  | cons token rest ih =>
    obtain ⟨⟨kind, near⟩, others⟩ := List.forall_mem_cons.mp read
    rw [addTokens] at failed
    cases found : effect? state draft token with
    | error reason =>
      rw [found] at failed
      obtain rfl := Option.some.inj (Prod.mk.inj failed).2
      obtain ⟨depth, other, stops⟩ := effect?_error encode kind near found
      refine stops.mono (Nat.le_refl _) ?_
      simp [depth, Token.outside, other]
    | ok effect =>
      rw [found] at failed
      refine (ih others failed).mono (Nat.le_refl _) ?_
      cases depth : draft.commentDepth with
      | zero =>
        have cases := codeEffect?_ok (by simpa [effect?, depth] using found)
        rw [cases.depth depth, Token.outside]
        split
        · exact List.Subset.refl _
        · exact List.subset_cons_self _ _
      | succ depth' =>
        obtain ⟨outside, -⟩ | ⟨-, cases⟩ := effect?_ok found
        · omega
        rw [cases.depth, depth, Token.outside]
        exact List.Subset.refl _

theorem patchLabels_error {final : Draft} {notes : List Fixup}
    (failed : draft.patchLabels notes = (final, some failure)) :
    ∃ note ∈ notes, ∃ limit, failure = .tooManyDigits limit ∧
      Site.isWritable { line := note.line, column := note.column } = false := by
  induction notes generalizing draft with
  | nil => simp [patchLabels] at failed
  | cons note rest ih =>
    rw [patchLabels] at failed
    cases patched : draft.patchLabel note with
    | error limit =>
      rw [patched] at failed
      obtain rfl := Option.some.inj (Prod.mk.inj failed).2
      refine ⟨note, List.mem_cons_self, limit, rfl, ?_⟩
      unfold patchLabel at patched
      dsimp only at patched
      split at patched
      · split at patched
        · cases patched
        · rename_i unsaid
          exact Bool.eq_false_iff.mpr unsaid
      · cases patched
    | ok next =>
      rw [patched] at failed
      obtain ⟨other, member, rest⟩ := ih failed
      exact ⟨other, List.mem_cons_of_mem _ member, rest⟩

theorem addBody_error {final : Draft} {name : String} {tokens : List Token}
    (encode : state.encode = Text.utf8)
    (read : ∀ token ∈ tokens, token.kind.IsRead ∧ Near bound token.line token.column)
    (failed : addBody state (state.newDraft name) tokens = (final, some failure)) :
    Stops bound (Token.outside 0 tokens) failure := by
  unfold addBody at failed
  split at failed
  · rename_i draft reason stopped
    obtain rfl := Option.some.inj (Prod.mk.inj failed).2
    exact addTokens_error encode read stopped
  · rename_i draft added
    obtain ⟨turns, rfl, passes⟩ := passes_of_addTokens added
    obtain ⟨note, noted, limit, rfl, unsaid⟩ := patchLabels_error failed
    rw [passes.labelUses] at noted
    obtain ⟨turn, member, left⟩ := List.mem_filterMap.mp (by simpa [State.newDraft] using noted)
    refine .place (Nat.le_of_not_lt fun few => ?_)
    have near := (read turn.token (List.mem_map_of_mem member)).2
    unfold Turn.labelNote? at left
    split at left
    · obtain rfl := Option.some.inj left
      rw [Site.isWritable_of_near near few] at unsaid
      cases unsaid
    · cases left

end Draft

/-! ### Definitions -/

/-- Why a definition whose lines and columns are within a bound fails: a string is not closed, its
body stops, or a problem with its header has no place that can be written. -/
inductive Refused (bound : Nat) (source : String) (number : Int) : Failure → Prop where
  | quote {site : Site} (unclosed : bodyTokens? source number = none) :
      Refused bound source number (.fault ⟨.unterminatedString, site⟩)
  | body {tokens : List Token} {failure : Failure} (body : bodyTokens? source number = some tokens)
      (stops : Stops bound (Token.outside 0 tokens) failure) : Refused bound source number failure
  | place {limit : Text.TooManyDigits} (beyond : 10 ^ Text.maxDigits ≤ bound) :
      Refused bound source number (.tooManyDigits limit)

namespace State

variable {state after : State} {source : String} {number : Int} {failure : Failure} {bound : Nat}

theorem report_error {problem : Problem} {site : Site} {limit : Text.TooManyDigits}
    (near : Near bound site.line site.column)
    (failed : state.report problem site = .error limit) : 10 ^ Text.maxDigits ≤ bound := by
  refine Nat.le_of_not_lt fun few => ?_
  simp [report, Site.isWritable_of_near near few] at failed

theorem afterReport_error {α : Type} {reported : Except Text.TooManyDigits State}
    {next : State → State × Except Failure α}
    (failed : state.afterReport reported next = (after, .error failure)) :
    (∃ limit, reported = .error limit ∧ failure = .tooManyDigits limit) ∨
      ∃ later, reported = .ok later ∧ next later = (after, .error failure) := by
  cases reported with
  | error limit => exact .inl ⟨limit, rfl, (Except.error.inj (Prod.mk.inj failed).2).symm⟩
  | ok later => exact .inr ⟨later, rfl, failed⟩

theorem compileTokens_error {word : String} {tokens : List Token}
    (encode : state.encode = Text.utf8)
    (read : ∀ token ∈ tokens, token.kind.IsRead ∧ Near bound token.line token.column)
    (failed : state.compileTokens word tokens = (after, .error failure)) :
    Stops bound (Token.outside 0 tokens) failure := by
  unfold compileTokens at failed
  split at failed
  · rename_i stopped
    obtain rfl := Except.error.inj (Prod.mk.inj failed).2
    exact Draft.addBody_error encode read stopped
  · cases (Prod.mk.inj failed).2

theorem compileBody_error {site : Site} (encode : state.encode = Text.utf8)
    (header : Near bound site.line site.column) (short : number.natAbs + source.length + 1 ≤ bound)
    (failed : state.compileBody (definedName source) site (bodyText source)
      (bodyLine source number) = (after, .error failure)) : Refused bound source number failure := by
  have read : ∀ tokens, bodyTokens? source number = some tokens →
      ∀ token ∈ tokens, token.kind.IsRead ∧ Near bound token.line token.column := by
    intro tokens body token member
    obtain ⟨kind, near⟩ := bodyTokens?_read body token member
    exact ⟨kind, near.mono short⟩
  unfold compileBody at failed
  split at failed
  · rename_i reason scanned
    obtain rfl := Except.error.inj (Prod.mk.inj failed).2
    obtain ⟨start, rfl, near⟩ := scan_error scanned
    let unclosed : Diagnostic :=
      ⟨.unterminatedString,
        { word := some (definedName source), line := start.line, column := some start.column }⟩
    rcases unclosed.raised_of_near (near _ (bodyPlace_within source number)) with
      said | ⟨beyond, unsaid⟩
    · rw [said]
      exact .quote (by simp [bodyTokens?, scanned])
    · rw [unsaid]
      exact .place (Nat.le_trans beyond short)
  · rename_i scan scanned
    cases dropped : dropTerminator? scan.tokens with
    | some tokens =>
      rw [dropped] at failed
      have body : bodyTokens? source number = some tokens := by simp [bodyTokens?, scanned, dropped]
      exact .body body (compileTokens_error encode (read tokens body) failed)
    | none =>
      rw [dropped] at failed
      have body : bodyTokens? source number = some scan.tokens := by
        simp [bodyTokens?, scanned, dropped]
      rcases afterReport_error failed with ⟨limit, unsaid, rfl⟩ | ⟨later, said, failed⟩
      · exact .place (report_error header unsaid)
      · obtain rfl := report_ok said
        have same : (state.reporting #[⟨.unterminatedDefinition, site⟩]).encode = Text.utf8 :=
          encode
        exact .body body (compileTokens_error same (read _ body) failed)

theorem compile_error (encode : state.encode = Text.utf8)
    (short : number.natAbs + source.length + 1 ≤ bound)
    (failed : state.compile source (some number) = (after, .error failure)) :
    Refused bound source number failure := by
  have header : Near bound (some number) none := by
    refine ⟨fun line known => ?_, by simp⟩
    obtain rfl := Option.some.inj known
    omega
  unfold compile at failed
  dsimp only at failed
  split at failed
  · rcases afterReport_error failed with ⟨limit, unsaid, rfl⟩ | ⟨later, -, failed⟩
    · exact .place (report_error header unsaid)
    · cases (Prod.mk.inj failed).2
  · rcases afterReport_error failed with ⟨limit, unsaid, rfl⟩ | ⟨later, said, failed⟩
    · unfold checkMarker at unsaid
      split at unsaid
      · cases unsaid
      · exact .place (report_error header unsaid)
    · obtain ⟨reports, rfl, -⟩ := checkMarker_ok said
      have same : (state.reporting reports).encode = Text.utf8 := encode
      exact compileBody_error same header short failed

/-- The line and the column of a pending reference are those of a token, so they are within the
bound of its definition. -/
theorem compile_pending_near {line : Option Int} {outcome : Except Failure (Option CompiledWord)}
    (short : ∀ number, line = some number → number.natAbs + source.length + 1 ≤ bound)
    (old : ∀ reference ∈ state.pending, Near bound reference.line reference.column)
    (compiled : state.compile source line = (after, outcome)) :
    ∀ reference ∈ after.pending, Near bound reference.line reference.column := by
  cases compile_cases compiled with
  | nothing reports wordless => exact old
  | @word number tokens draft reports named start body added =>
    intro reference member
    rw [← Array.mem_toList_iff, (addDraft_filled (state.reporting reports) draft).pending,
      List.mem_append] at member
    rcases member with before | fresh
    · exact old reference (Array.mem_toList_iff.mp before)
    · obtain ⟨note, waiting, rfl⟩ := List.mem_map.mp fresh
      obtain ⟨turns, middle, rfl, passes, references, -⟩ := Draft.addBody_reports added
      rw [references] at waiting
      obtain ⟨turn, listed, name, -, -, rfl⟩ :=
        (passes.mem_references_iff rfl).mp (List.mem_filter.mp waiting).1
      obtain ⟨-, near⟩ := bodyTokens?_read body turn.token
        (List.mem_map_of_mem (List.mem_filter.mp listed).1)
      exact near.mono (short number start)

theorem finish_error {limit : Text.TooManyDigits}
    (near : ∀ reference ∈ state.pending, Near bound reference.line reference.column)
    (stopped : state.finish.2 = some limit) : 10 ^ Text.maxDigits ≤ bound := by
  refine Nat.le_of_not_lt fun few => ?_
  have all : state.finish.2 = none := by
    refine (finish_settled state).stopped.mpr fun reference member => ?_
    have said : (State.complaint { state with pending := #[] } reference).site.isWritable = true :=
      Site.isWritable_of_near (near reference (Array.mem_toList_iff.mp member)) few
    rw [isSettleable, said, Bool.or_true]
  rw [stopped] at all
  cases all

end State

end Compiler

end ThreadedCode
