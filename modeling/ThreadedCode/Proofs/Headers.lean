import ThreadedCode.Proofs.Comments
import ThreadedCode.Proofs.Origins
import ThreadedCode.Proofs.Partition

/-!
# Headers and terminators

The first two fields of a definition are its marker and its name, and the last token behind the name
is its terminator. Without a name nothing is compiled and one problem is recorded. With a name the
definition is compiled whatever the other two are; a problem is recorded for each that is not as it
should be, and only the terminator is left out of the body (`compile_grammar`).
-/

namespace ThreadedCode

open Compiler

theorem Text.fields_eq (text : List Char) :
    fields text =
      if (nextField text).1 = [] then []
      else (nextField text).1 :: fields (nextField text).2 := by
  obtain ⟨lead, blank, whole, visible, ends, nothing⟩ := nextField_parts text
  conv_lhs => rw [whole, fields_blank_append blank]
  split
  · rename_i absent
    rw [absent, nothing absent, List.append_nil, fields_nil]
  · rename_i present
    rw [fields_visible_append present visible ends]

namespace Compiler

/-! ### Headers -/

/-- A definition has no name if it has fewer than two fields or the second is the terminator. -/
def IsNameless (source : String) : Prop :=
  (Text.fields source.toList).length < 2 ∨ (Text.fields source.toList)[1]? = some [';']

/-- A definition is a marker, a name and a body, between blanks. -/
structure HasHeader (source : String) (marker name body : List Char) : Prop where
  fields : Text.fields source.toList = marker :: name :: Text.fields body
  text : ∃ lead gap, (∀ c ∈ lead ++ gap, Text.isBlank c = true) ∧
    source.toList = lead ++ marker ++ gap ++ name ++ body
  apart : ∀ c, body.head? = some c → Text.isBlank c = true

theorem toList_definedName (source : String) :
    (definedName source).toList = (Text.nextField (Text.nextField source.toList).2).1 :=
  String.toList_ofList

theorem isNameless_iff (source : String) :
    IsNameless source ↔ definedName source = "" ∨ definedName source = ";" := by
  rw [← String.toList_inj, ← String.toList_inj, toList_definedName, IsNameless, Text.fields_eq]
  by_cases absent : (Text.nextField source.toList).1 = []
  · -- Where there is no marker, nothing follows it.
    obtain ⟨-, -, -, -, -, nothing⟩ := Text.nextField_parts source.toList
    rw [if_pos absent, nothing absent]
    decide
  · rw [if_neg absent, Text.fields_eq (Text.nextField source.toList).2]
    split
    · simp [*]
    · simp [*]

theorem hasHeader {source : String} (named : ¬ IsNameless source) :
    HasHeader source (Text.nextField source.toList).1 (definedName source).toList
      (bodyText source) := by
  obtain ⟨filled, -⟩ := not_or.mp (mt (isNameless_iff source).mpr named)
  obtain ⟨lead, blank, whole, visible, ends, nothing⟩ := Text.nextField_parts source.toList
  obtain ⟨gap, blank', rest, visible', ends', nothing'⟩ :=
    Text.nextField_parts (Text.nextField source.toList).2
  have present : (Text.nextField (Text.nextField source.toList).2).1 ≠ [] := by
    rw [← toList_definedName]
    exact mt String.toList_eq_nil_iff.mp filled
  rw [toList_definedName]
  have marked : (Text.nextField source.toList).1 ≠ [] := by
    intro absent
    rw [nothing absent] at present
    exact present rfl
  refine ⟨?_, ⟨lead, gap, ?_, ?_⟩, ends'⟩
  · rw [Text.fields_eq, if_neg marked, Text.fields_eq (Text.nextField source.toList).2,
      if_neg present]
    rfl
  · intro c member
    exact (List.mem_append.mp member).elim (blank c) (blank' c)
  · rw [bodyText]
    conv_lhs => rw [whole, rest]
    simp only [List.append_assoc]

/-! ### Terminators -/

/-- What is kept of the tokens behind a name, and what is recorded about their end: a plain
terminator at the end is left out, and where there is none this is said of the definition. -/
inductive Ending (site : Site) : List Token → List Token → Array Diagnostic → Prop
  | terminated {kept : List Token} {token : Token} (plain : token.kind = .word)
      (terminator : token.lexeme = ";") : Ending site (kept ++ [token]) kept #[]
  | unterminated {tokens : List Token} (other : ∀ token, tokens.getLast? = some token →
      ¬ (token.kind = .word ∧ token.lexeme = ";")) :
      Ending site tokens tokens #[⟨.unterminatedDefinition, site⟩]

theorem ending_of_tokens (site : Site) (tokens : List Token) :
    Ending site tokens ((dropTerminator? tokens).getD tokens)
      (if (dropTerminator? tokens).isSome then #[] else #[⟨.unterminatedDefinition, site⟩]) := by
  have mark (token : Token) : token.lexeme.toList = definitionTerminator ↔ token.lexeme = ";" := by
    rw [← String.toList_inj]
    rfl
  cases tokens using List.reverseRecOn with
  | nil => exact .unterminated (by simp)
  | append_singleton kept token =>
    rw [dropTerminator?_concat]
    split
    · rename_i plain
      exact .terminated plain.1 ((mark token).mp plain.2)
    · rename_i other
      refine .unterminated fun last found plain => other ?_
      rw [List.getLast?_concat] at found
      obtain rfl := Option.some.inj found
      exact ⟨plain.1, (mark token).mpr plain.2⟩

/-! ### Compiling -/

namespace State

variable {state after : State} {source : String}

/-- A definition without a name is reported and not compiled, unless its line cannot be written. -/
theorem compile_nameless (nameless : IsNameless source) (line : Option Int) (state : State) :
    state.compile source line =
      if line.all Text.isWritable then
        (state.reporting
          #[⟨.namelessDefinition (Text.strip source), { line, filename := state.filename }⟩],
          .ok none)
      else (state, .error (.tooManyDigits {})) := by
  have writable : Site.isWritable { line, filename := state.filename } =
      line.all Text.isWritable := by
    cases line <;> simp [Site.isWritable]
  unfold compile
  dsimp only
  rw [if_pos ((absent_name_iff source).mpr ((isNameless_iff source).mp nameless)), report, writable]
  split
  · simp [afterReport, reporting]
  · rfl

theorem compile_named (named : ¬ IsNameless source) {line : Option Int}
    {entry : Option CompiledWord} (compiled : state.compile source line = (after, .ok entry)) :
    ∃ number scan, line = some number ∧ BodyScan source number scan := by
  unfold compile at compiled
  dsimp only at compiled
  rw [if_neg (mt (absent_name_iff source).mp (mt (isNameless_iff source).mpr named))] at compiled
  obtain ⟨marked, -, compiled⟩ := afterReport_ok compiled
  cases line with
  | none => cases compiled
  | some number =>
    change marked.compileBody (definedName source) _ (bodyText source) (bodyLine source number) = _
      at compiled
    unfold compileBody at compiled
    split at compiled
    · cases compiled
    · rename_i scan scanned
      exact ⟨number, scan, rfl, scan_ok scanned⟩

theorem compileTokens_ok {name : String} {tokens : List Token} {entry : Option CompiledWord}
    (compiled : state.compileTokens name tokens = (after, .ok entry)) :
    ∃ word draft, entry = some word ∧ word.name = name ∧
      Draft.addBody state (state.newDraft name) tokens = (draft, none) ∧
      after.diagnostics = state.diagnostics ++ draft.diagnostics := by
  unfold compileTokens at compiled
  split at compiled
  · cases compiled
  · rename_i draft added
    obtain ⟨rfl, newest⟩ := Prod.mk.inj compiled
    obtain ⟨code, there, -⟩ := addDraft_word state draft
    obtain ⟨turns, middle, -, passes, patched⟩ := Draft.addBody_passes added
    obtain ⟨_, _, rfl, -⟩ := Draft.patchLabels_none patched
    rw [newest?_addDraft, there] at newest
    exact ⟨_, _, (Except.ok.inj newest).symm, passes.fixed.1, added, diagnostics_addDraft _ _⟩

/-- A body records no problem of a header. -/
theorem addBody_headless {name : String} {tokens : List Token} {draft : Draft}
    (added : Draft.addBody state (state.newDraft name) tokens = (draft, none)) :
    ∀ diagnostic ∈ draft.diagnostics, diagnostic.problem.kind ≠ .malformedHeader := by
  intro diagnostic member
  obtain ⟨turns, middle, -, passes, -, recorded⟩ := Draft.addBody_reports added
  rw [← Array.mem_toList_iff, recorded] at member
  obtain ⟨turn, -, wrong, -⟩ : ∃ turn ∈ codeTurns turns,
      TokenProblem state state middle turn diagnostic.problem ∧ _ := passes.blames member
  generalize diagnostic.problem = problem at wrong
  cases wrong <;> simp [Problem.kind]

theorem check_reports {passed : Prop} [Decidable passed] {problem : Problem} {site : Site}
    (checked : (if passed then .ok state else state.report problem site) = .ok after) :
    after = state.reporting (if passed then #[] else #[⟨problem, site⟩]) := by
  split at checked
  · rename_i fine
    rw [if_pos fine, reporting_empty, Except.ok.inj checked]
  · rename_i wrong
    rw [if_neg wrong, report_ok checked]

/-- A word compiled from a definition with a marker, a name and a body, of whose tokens some are
kept: the problems recorded are those of the marker, of the end of the body and of its tokens. -/
structure CompiledFrom (state : State) (source : String) (number : Int) (after : State)
    (word : CompiledWord) (marker body : List Char) (tokens kept : List Token)
    (others : Array Diagnostic) : Prop where
  header : HasHeader source marker word.name.toList body
  scanned : ∃ scan, Token.scan body (some word.name) (some (bodyLine source number)) = .ok scan ∧
    scan.tokens = tokens
  compiled : ∃ ending,
    let site : Site := { word := word.name, line := number, filename := state.filename }
    let opening := if marker = [':'] then #[] else #[⟨.unmarkedDefinition, site⟩]
    Ending site tokens kept ending ∧
      (state.reporting (opening ++ ending)).compileTokens word.name kept =
        (after, .ok (some word)) ∧
      after.diagnostics = state.diagnostics ++ opening ++ ending ++ others
  others : ∀ diagnostic ∈ others, diagnostic.problem.kind ≠ .malformedHeader

theorem compiledFrom {line : Option Int} {entry : Option CompiledWord} (named : ¬ IsNameless source)
    (compiled : state.compile source line = (after, .ok entry)) :
    ∃ word number marker body tokens kept others, entry = some word ∧ line = some number ∧
      CompiledFrom state source number after word marker body tokens kept others := by
  obtain ⟨number, scan, rfl, scanned⟩ := compile_named named compiled
  rw [compile_eq (not_or.mp (mt (isNameless_iff source).mpr named)) scanned] at compiled
  obtain ⟨marked, checked, compiled⟩ := afterReport_ok compiled
  obtain ⟨ready, ended, compiled⟩ := afterReport_ok compiled
  obtain rfl := check_reports checked
  obtain rfl := check_reports ended
  rw [reporting_reporting] at compiled
  obtain ⟨word, draft, rfl, same, added, recorded⟩ := compileTokens_ok compiled
  refine ⟨word, number, (Text.nextField source.toList).1, bodyText source, scan.tokens,
    (dropTerminator? scan.tokens).getD scan.tokens, draft.diagnostics, rfl, rfl, ?_, ?_, ?_,
    addBody_headless added⟩
  · rw [same]
    exact hasHeader named
  · rw [same]
    exact ⟨scan, by rw [scan_some, scanned]; rfl, rfl⟩
  · rw [same]
    refine ⟨_, ending_of_tokens _ scan.tokens, compiled, ?_⟩
    rw [recorded, reporting, ← Array.append_assoc]
    rfl

/-- A definition compiles to no word exactly if it has no name and its line can be written. Without
a name one problem is recorded and nothing else changes. With a name a definition that does not fail
is compiled to a word of this name, whatever its marker and its terminator are. -/
theorem compile_grammar (state : State) (source : String) (line : Option Int) :
    ((state.compile source line).2 = .ok none ↔
      IsNameless source ∧ line.all Text.isWritable = true) ∧
    (IsNameless source → state.compile source line =
      if line.all Text.isWritable then
        (state.reporting
          #[⟨.namelessDefinition (Text.strip source), { line, filename := state.filename }⟩],
          .ok none)
      else (state, .error (.tooManyDigits {}))) ∧
    (¬ IsNameless source → ∀ after entry, state.compile source line = (after, .ok entry) →
      ∃ word number marker body tokens kept others, entry = some word ∧ line = some number ∧
        CompiledFrom state source number after word marker body tokens kept others) := by
  refine ⟨⟨fun nothing => ?_, fun ⟨nameless, writable⟩ => ?_⟩, fun nameless => ?_,
    fun named after entry compiled => compiledFrom named compiled⟩
  · have nameless : IsNameless source := by
      by_contra named
      obtain ⟨word, _, _, _, _, _, _, same, -⟩ :=
        compiledFrom named (Prod.ext rfl nothing : state.compile source line = (_, .ok none))
      cases same
    refine ⟨nameless, ?_⟩
    by_contra unwritable
    rw [compile_nameless nameless, if_neg unwritable] at nothing
    cases nothing
  · rw [compile_nameless nameless, if_pos writable]
  · exact compile_nameless nameless line state

/-- A definition that does not begin with the marker; the terminator stands in its name and twice in
its body. -/
def unmarkedText : String := "x\n a;b ; ;"

theorem compile_grammar_sample :
    sampleStart.compile ": ;" (some 3) =
        (sampleStart.reporting #[⟨.namelessDefinition ": ;", { line := some 3 }⟩], .ok none) ∧
      ∃ after word marker body tokens kept others,
        sampleStart.compile unmarkedText (some 1) = (after, .ok (some word)) ∧
        word.name = "a;b" ∧
        sampleStart.CompiledFrom unmarkedText 1 after word marker body tokens kept others ∧
        after.diagnostics.map (·.problem) = #[.unmarkedDefinition, .unresolvedWord ";"] := by
  constructor
  · have nameless : IsNameless ": ;" := (isNameless_iff _).mpr (.inr (by decide))
    exact (compile_grammar sampleStart ": ;" (some 3)).2.1 nameless
  · have named : ¬ IsNameless unmarkedText := fun nameless =>
      absurd ((isNameless_iff _).mp nameless) (by decide)
    have outcome : (sampleStart.compile unmarkedText (some 1)).2.toOption.map
        (fun entry => entry.map (·.name)) = some (some "a;b") := by
      decide +kernel
    have recorded : (sampleStart.compile unmarkedText (some 1)).1.diagnostics.map (·.problem) =
        #[.unmarkedDefinition, .unresolvedWord ";"] := by
      decide +kernel
    cases compiled : sampleStart.compile unmarkedText (some 1) with
    | mk after returned =>
      rw [compiled] at outcome recorded
      cases returned with
      | error failure => cases outcome
      | ok entry =>
        obtain ⟨word, number, marker, body, tokens, kept, others, rfl, line, whole⟩ :=
          (compile_grammar sampleStart unmarkedText (some 1)).2.2 named after entry compiled
        obtain rfl := Option.some.inj line
        exact ⟨after, word, marker, body, tokens, kept, others, rfl,
          Option.some.inj (Option.some.inj outcome), whole, recorded⟩

/-- Without a name, on a line of 4301 digits, a definition fails and nothing is recorded. And a
comment that is still open at the end may hold the terminator. -/
theorem header_beyond_digits :
    IsNameless ": ;" ∧
      sampleStart.compile ": ;" (some (10 ^ Text.maxDigits)) =
        (sampleStart, .error (.tooManyDigits {})) ∧
      Token.scan (bodyText ": w ( ;") (some "w") (some 1) =
        .ok ⟨[⟨.commentOpen, "(", some 1, some 2⟩, ⟨.word, ";", some 1, some 4⟩], 1, some 1⟩ ∧
      sampleStart.compile ": w ( ;" (some 1) =
        ((sampleStart.compile ": w ( ;" (some 1)).1, .ok (some
          { name := "w", constant := "w", flags := {}, code := #[0], doc := none })) ∧
      (sampleStart.compile ": w ( ;" (some 1)).1.diagnostics = #[] := by
  refine ⟨(isNameless_iff _).mpr (.inr (by decide)), ?_, by decide +kernel,
    Prod.ext rfl (by decide +kernel), by decide +kernel⟩
  have nameless : IsNameless ": ;" := (isNameless_iff _).mpr (.inr (by decide))
  rw [compile_nameless nameless, if_neg (by decide +kernel)]

end State

end Compiler

end ThreadedCode
