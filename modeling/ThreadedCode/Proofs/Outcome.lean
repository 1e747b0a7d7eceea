import ThreadedCode.Proofs.Failures
import ThreadedCode.Proofs.Numbers

/-!
# The outcome of a run

A run returns, and then whatever is wrong with a token of a word is recorded, or it fails. It fails
for the structure of its source, which is the layout of the sections, a constant that two native
words share and a string that is not closed or too long; and for a number with too many digits,
which is not recorded as a problem with its token (`ofText_literal`).
-/

namespace ThreadedCode

open Compiler

/-! ### Runs -/

theorem Runs.pending_near {state final : State} {log : Log} {bound : Nat}
    (runs : Runs state log final)
    (old : ∀ reference ∈ state.pending, Near bound reference.line reference.column)
    (short : ∀ entry ∈ log, ∀ number, entry.1.line = some number →
      number.natAbs + entry.1.text.length + 1 ≤ bound) :
    ∀ reference ∈ final.pending, Near bound reference.line reference.column := by
  induction runs with
  | nil state => exact old
  | @cons state after final definition entry log compiled rest ih =>
    obtain ⟨first, others⟩ := List.forall_mem_cons.mp short
    exact ih (State.compile_pending_near first old compiled) others

theorem Catalog.duplicateFrom_some {seen : Std.HashMap String Nat} {index : Nat}
    {words : List NativeWord} {problem : Problem}
    (twice : duplicateFrom seen index words = some problem) :
    ∃ constant later earlier, problem = .duplicateConstant constant later earlier := by
  induction words generalizing seen index with
  | nil => cases twice
  | cons word rest ih =>
    rw [duplicateFrom] at twice
    split at twice
    · exact ⟨_, _, _, (Option.some.inj twice).symm⟩
    · exact ih twice

namespace Source

theorem readTemplate_error {lines : List Line} {problem : Problem}
    (refused : readTemplate lines = .error problem) : problem.kind = .sectionLayout := by
  unfold readTemplate at refused
  dsimp only at refused
  split at refused
  · rw [← Except.error.inj refused]
    rfl
  · split at refused
    · rw [← Except.error.inj refused]
      rfl
    · cases refused

theorem readNatives_error {lines : List Line} {problem : Problem} {line : Nat}
    (refused : readNatives lines = .error (problem, line)) : problem.kind = .sectionLayout := by
  unfold readNatives at refused
  split at refused
  · cases refused
  · split at refused
    · rw [← (Prod.mk.inj (Except.error.inj refused)).1]
      rfl
    · cases refused

/-- A source is refused for the layout of its sections only. -/
theorem read_error {source : String} {filename : Option String} {diagnostic : Diagnostic}
    (refused : read source filename = .error diagnostic) :
    diagnostic.problem.kind = .sectionLayout := by
  unfold read at refused
  dsimp only at refused
  split at refused
  · split at refused
    · rename_i template
      obtain rfl := Except.error.inj refused
      exact readTemplate_error template
    · split at refused
      · rename_i natives
        obtain rfl := Except.error.inj refused
        exact readNatives_error natives
      · cases refused
  · obtain rfl := Except.error.inj refused
    rfl

end Source

namespace Compilation

/-- A definition that fails is compiled in a state that is set up as the first one. -/
theorem runDefinitions_error {events after : Array Event} {state final : State}
    {definitions : List Source.Definition} {failure : Failure}
    (ran : runDefinitions events state definitions = (after, final, some failure)) :
    ∃ (before : State) (definition : Source.Definition), definition ∈ definitions ∧
      before.setup = state.setup ∧
      ∃ later, before.compile definition.text definition.line = (later, .error failure) := by
  induction definitions generalizing events state with
  | nil => simp [runDefinitions] at ran
  | cons definition rest ih =>
    rw [runDefinitions] at ran
    split at ran
    · rename_i later reason failed
      obtain ⟨-, same⟩ := Prod.mk.inj ran
      obtain rfl := Option.some.inj (Prod.mk.inj same).2
      exact ⟨state, definition, List.mem_cons_self, rfl, later, failed⟩
    · rename_i next entry compiled
      obtain ⟨before, other, member, setup, failed⟩ := ih ran
      have kept := (State.execute_frame state (.compile definition.text definition.line)).1
      rw [State.execute, compiled] at kept
      exact ⟨before, other, List.mem_cons_of_mem _ member, setup.trans kept, failed⟩

theorem initialState_error {sections : Source.Sections} {order : Order} {names : BootstrapNames}
    {filename : Option String} {failure : Failure}
    (refused : initialState sections order names filename = .error failure) :
    ∃ constant later earlier,
      (catalogOf sections.natives).duplicate? = some (.duplicateConstant constant later earlier) ∧
      failure = .fault ⟨.duplicateConstant constant later earlier, {}⟩ := by
  unfold initialState Bootstrap.find at refused
  dsimp only at refused
  split at refused
  · rename_i problem found
    split at found
    · rename_i twice
      obtain rfl := Except.error.inj found
      obtain ⟨constant, later, earlier, rfl⟩ := Catalog.duplicateFrom_some twice
      exact ⟨constant, later, earlier, twice, (Except.error.inj refused).symm⟩
    · cases found
  · cases refused

theorem initialState_encode {sections : Source.Sections} {order : Order} {names : BootstrapNames}
    {filename : Option String} {state : State}
    (started : initialState sections order names filename = .ok state) :
    state.encode = Text.utf8 := by
  unfold initialState at started
  dsimp only at started
  split at started
  · cases started
  · rw [← Except.ok.inj started]

/-- Why sections whose lines and columns are within a bound cannot be compiled: two native words
share a constant, a definition fails, or a reference that names no word has no place that can be
written. -/
inductive Aborts (bound : Nat) (sections : Source.Sections) : Failure → Prop where
  | constant {constant : String} {later earlier : Nat}
      (twice : (catalogOf sections.natives).duplicate? =
        some (.duplicateConstant constant later earlier)) :
      Aborts bound sections (.fault ⟨.duplicateConstant constant later earlier, {}⟩)
  | definition {definition : Source.Definition} {number : Int} {failure : Failure}
      (member : definition ∈ sections.definitions) (line : definition.line = some number)
      (refused : Refused bound definition.text number failure) : Aborts bound sections failure
  | place {limit : Text.TooManyDigits} (beyond : 10 ^ Text.maxDigits ≤ bound) :
      Aborts bound sections (.tooManyDigits limit)

theorem ofSections_aborts {sections : Source.Sections} {order : Order} {names : BootstrapNames}
    {filename : Option String} {bound : Nat} {failure : Failure}
    (near : ∀ definition ∈ sections.definitions, ∃ number, definition.line = some number ∧
      number.natAbs + definition.text.length + 1 ≤ bound)
    (failed : (ofSections sections order names filename).outcome = .error failure) :
    Aborts bound sections failure := by
  unfold ofSections at failed
  split at failed
  · rename_i reason refused
    obtain rfl := Except.error.inj failed
    obtain ⟨constant, later, earlier, twice, rfl⟩ := initialState_error refused
    exact .constant twice
  · rename_i start started
    split at failed
    · rename_i reason ran
      obtain rfl := Except.error.inj failed
      obtain ⟨before, definition, member, setup, later, stopped⟩ := runDefinitions_error ran
      have encode : before.encode = Text.utf8 :=
        (congrArg Setup.encode setup).trans (initialState_encode started)
      obtain ⟨number, line, short⟩ := near definition member
      rw [line] at stopped
      exact .definition member line (State.compile_error encode short stopped)
    · rename_i final ran
      dsimp only at failed
      split at failed
      · rename_i limit stopped
        obtain rfl := Except.error.inj failed
        obtain ⟨log, same, runs⟩ := Runs.of_runDefinitions ran
        have fresh := (initialState_ok started).1
        refine .place (State.finish_error (runs.pending_near (by simp [fresh.pending]) ?_) stopped)
        intro entry member number line
        obtain ⟨start, known, short⟩ := near entry.1 (same ▸ List.mem_map_of_mem member)
        rwa [← Option.some.inj (known.symm.trans line)]
      · cases failed

/-- Why a source cannot be compiled. Lines and columns are within a bound that only a source of
unheard-of length takes beyond the numbers that can be written. -/
inductive Rejected (source : String) (filename : Option String) : Failure → Prop where
  | layout {diagnostic : Diagnostic} (unread : Source.read source filename = .error diagnostic)
      (kind : diagnostic.problem.kind = .sectionLayout) :
      Rejected source filename (.fault diagnostic)
  | sections {sections : Source.Sections} {failure : Failure}
      (read : Source.read source filename = .ok sections)
      (aborts : Aborts (2 * source.length + 3) sections failure) : Rejected source filename failure

/-- A compilation that has recorded whatever is wrong with a token of one of its words. -/
def Complete (order : Order) (filename : Option String) (compilation : Compilation) : Prop :=
  ∃ start log final,
    initialState compilation.sections order {} filename = .ok start ∧
    Runs start log final ∧ log.map Prod.fst = compilation.sections.definitions ∧
    ∀ (earlier later : Log) definition word, log = earlier ++ (definition, some word) :: later →
      ∃ before number tokens turns draft,
        Runs start earlier before ∧
        definition.line = some number ∧ bodyTokens? definition.text number = some tokens ∧
        turns.map Turn.token = tokens ∧
        Passes before (before.newDraft (definedName definition.text)) turns draft ∧
        ∀ turn ∈ codeTurns turns, ∀ problem, TokenProblem before final draft turn problem →
          ⟨problem, draft.site turn.token⟩ ∈ compilation.diagnostics

theorem ofText_complete {source : String} {filename : Option String} {order : Order}
    {compilation : Compilation}
    (returned : (ofText source filename order).outcome = .ok compilation) :
    Complete order filename compilation := by
  obtain ⟨start, log, final, -, started, runs, same, finished, -, diagnostics⟩ := ofText_ok returned
  refine ⟨start, log, final, started, runs, same, ?_⟩
  rintro earlier later definition word rfl
  rw [diagnostics]
  exact runs.recorded finished

theorem ofText_rejected {source : String} {filename : Option String} {order : Order}
    {failure : Failure} (failed : (ofText source filename order).outcome = .error failure) :
    Rejected source filename failure := by
  unfold ofText at failed
  split at failed
  · rename_i diagnostic unread
    obtain rfl := Except.error.inj failed
    exact .layout unread (Source.read_error unread)
  · rename_i sections read
    refine .sections read (ofSections_aborts (fun definition member => ?_) failed)
    obtain ⟨start, line, short⟩ := Source.read_definitions read member
    exact ⟨start, line, by omega⟩

/-- Whatever the source, a run returns or fails. If it returns, whatever is wrong with a token of a
word is recorded; it fails for the structure of the source, or because a number in it or the number
of a line or column has too many digits. -/
theorem ofText_outcome (source : String) (filename : Option String) (order : Order) :
    match (ofText source filename order).outcome with
    | .ok compilation => Complete order filename compilation
    | .error failure => Rejected source filename failure := by
  split
  · rename_i returned
    exact ofText_complete returned
  · rename_i failed
    exact ofText_rejected failed

end Compilation

/-! ### A literal of too many digits -/

namespace Text

variable {digits : List Char}

theorem isLineBreak_of_isAsciiDigit {c : Char} (digit : isAsciiDigit c = true) :
    isLineBreak c = false := by
  have range := toNat_of_isAsciiDigit digit
  simp only [isLineBreak, Bool.or_eq_false_iff, Bool.and_eq_false_imp, decide_eq_true_eq,
    decide_eq_false_iff_not, beq_eq_false_iff_ne, ne_eq]
  omega

theorem chopNewline_digits (all : ∀ c ∈ digits, isAsciiDigit c = true) :
    chopNewline digits = digits := by
  refine if_neg fun newline => ?_
  exact absurd (all _ (List.mem_of_getLast? newline)) (by decide)

theorem parseInt32_digits (all : ∀ c ∈ digits, isAsciiDigit c = true)
    (many : maxDigits < digits.length) :
    parseInt32 digits = .error ⟨some digits.length⟩ := by
  have present : digits.isEmpty = false := by
    cases digits with
    | nil => cases many
    | cons c rest => rfl
  have unsigned : splitSign digits = (false, digits) := by
    unfold splitSign
    split
    · exact absurd (all _ List.mem_cons_self) (by decide)
    · exact absurd (all _ List.mem_cons_self) (by decide)
    · rfl
  have digit : digits.all isAsciiDigit = true := List.all_eq_true.mpr all
  simp only [parseInt32, chopNewline_digits all, unsigned, present, digit, many, Bool.not_true,
    Bool.or_false, Bool.false_eq_true, if_true, if_false]

end Text

theorem Token.classify_digits {digits : List Char} (all : ∀ c ∈ digits, Text.isAsciiDigit c = true)
    (present : digits ≠ []) : classify digits = .word := by
  have chopped := Text.chopNewline_digits all
  obtain ⟨c, rest, rfl⟩ := List.exists_cons_of_ne_nil present
  have range := Text.toNat_of_isAsciiDigit (all c List.mem_cons_self)
  have other : ∀ d : Char, d.toNat < 48 ∨ 57 < d.toNat → c ≠ d := by
    rintro d outside rfl
    omega
  have last : (c :: rest).getLast? ≠ some ':' := by
    intro colon
    exact absurd (all _ (List.mem_of_getLast? colon)) (by decide)
  -- No other class has a token that starts with a digit, but for the use of a label.
  simp [classify, flagOf?, stringMark, isLabelDef, isLabelDef.chopped, isLabelUse,
    isLabelUse.chopped, chopped, last, other '(' (by decide), other ')' (by decide),
    other 'I' (by decide), other 'H' (by decide), other 'C' (by decide), other 'r' (by decide),
    other '.' (by decide), other '%' (by decide), other '$' (by decide), other ':' (by decide)]

namespace Compiler

/-- A definition whose body is one literal. -/
def literalDefinition (digits : List Char) : String :=
  ": w " ++ String.ofList digits ++ " ;"

variable {digits : List Char}

theorem nextField_literalDefinition (digits : List Char) :
    Text.nextField (literalDefinition digits).toList =
        ([':'], " w ".toList ++ digits ++ " ;".toList) ∧
      Text.nextField (" w ".toList ++ digits ++ " ;".toList) =
        (['w'], ' ' :: (digits ++ " ;".toList)) := by
  simp [literalDefinition, Text.nextField, Text.trimLeft, Text.field, Text.afterField, Text.isBlank]

theorem scan_literal (all : ∀ c ∈ digits, Text.isAsciiDigit c = true) (present : digits ≠ [])
    (word : Option String) (line : Int) :
    ∃ scan first last, Token.scan (' ' :: (digits ++ " ;".toList)) word (some line) = .ok scan ∧
      scan.tokens = [Token.ofText first .word digits, Token.ofText last .word [';']] := by
  have blank : Text.isBlank ' ' = true := by decide
  have visible : ∀ c ∈ digits, Text.isBlank c = false := fun c member =>
    Text.isBlank_of_isAsciiDigit (all c member)
  have ending : " ;".toList = ' ' :: ([';'] ++ []) := by decide
  have terminator : Token.classify [';'] = .word := by decide
  rw [scan_some, Token.scanFrom_blank blank,
    Token.scanFrom_word visible (Token.classify_digits all present) present
      (by simp [Text.isBlank]), ending, Token.scanFrom_blank blank,
    Token.scanFrom_word (by simp [Text.isBlank]) terminator (by decide) (by simp),
    Token.scanFrom.eq_def]
  exact ⟨_, _, _, rfl, rfl⟩

theorem compile_literalDefinition {state : State} (number : Int)
    (all : ∀ c ∈ digits, Text.isAsciiDigit c = true) (many : Text.maxDigits < digits.length)
    (absent : state.findWord? (String.ofList digits) = none) :
    (state.compile (literalDefinition digits) (some number)).2 =
      .error (.tooManyDigits ⟨some digits.length⟩) := by
  have present : digits ≠ [] := by
    rintro rfl
    cases many
  obtain ⟨header, name⟩ := nextField_literalDefinition digits
  obtain ⟨scan, first, last, scanned, tokens⟩ := scan_literal all present
    (some (definedName (literalDefinition digits))) (bodyLine (literalDefinition digits) number)
  have body : bodyText (literalDefinition digits) = ' ' :: (digits ++ " ;".toList) := by
    rw [bodyText, header, name]
  have named : (Text.nextField (Text.nextField (literalDefinition digits).toList).2).1 = ['w'] := by
    rw [header, name]
  have ended : dropTerminator? scan.tokens = some [Token.ofText first .word digits] := by
    simp [tokens, dropTerminator?, Token.ofText, definitionTerminator]
  rw [State.compile_terminated (by rw [header]; rfl) (by rw [named]; decide)
    (by rw [body]; exact scanned) ended]
  simp [State.compileTokens, Draft.addBody, Draft.addTokens, Draft.effect?, State.newDraft,
    Draft.codeEffect?, Token.ofText, Draft.plainEffect?, plainBlock, absent,
    Text.parseInt32_digits all many]

end Compiler

namespace Compilation

variable {digits : List Char}

theorem read_literalDefinition (all : ∀ c ∈ digits, Text.isAsciiDigit c = true)
    (filename : Option String) :
    ∃ template, Source.read (Source.ofDefinition (literalDefinition digits)) filename =
      .ok { template, definitions := [⟨literalDefinition digits, some 6⟩] } := by
  have text : (literalDefinition digits).toList =
      ':' :: (" w ".toList ++ digits ++ [' ']) ++ [';'] := by
    simp [literalDefinition]
  have plain : ∀ c ∈ (literalDefinition digits).toList, Text.isLineBreak c = false := by
    have around : ∀ c ∈ ": w ".toList ++ " ;".toList, Text.isLineBreak c = false := by
      simp [Text.isLineBreak]
    intro c member
    simp only [literalDefinition, String.toList_append, String.toList_ofList, List.mem_append]
      at member
    rcases member with (front | inside) | back
    · exact around c (List.mem_append_left _ front)
    · exact Text.isLineBreak_of_isAsciiDigit (all c inside)
    · exact around c (List.mem_append_right _ back)
  have other : literalDefinition digits ≠ Source.delimiter := by
    intro same
    have first := congrArg (fun text => text.toList.head?) same
    simp [text, Source.delimiter] at first
  have left : Text.trimLeft (literalDefinition digits).toList =
      (literalDefinition digits).toList := by
    simp [text, Text.trimLeft, Text.isBlank]
  have right : Text.trimRight (literalDefinition digits).toList =
      (literalDefinition digits).toList := by
    simp [text, Text.trimRight, Text.isBlank]
  have visible : Source.isBlankLine (literalDefinition digits, 6) = false := by
    simp [Source.isBlankLine, text, Text.isBlank]
  have ends : Source.endsDefinition (literalDefinition digits, 6) = true := by
    rw [Source.endsDefinition, right, text, List.getLast?_concat]
    rfl
  have stripped : Text.strip (literalDefinition digits) = literalDefinition digits := by
    rw [Text.strip, Text.trim, left, right, String.ofList_toList]
  obtain ⟨template, read⟩ := Source.read_ofDefinition plain other visible ends filename
  exact ⟨template, by rw [read, stripped]⟩

/-- A literal that is no word and has too many digits ends the run, whatever its digits are. -/
theorem ofText_literal (all : ∀ c ∈ digits, Text.isAsciiDigit c = true)
    (many : Text.maxDigits < digits.length) (filename : Option String) (order : Order) :
    (ofText (Source.ofDefinition (literalDefinition digits)) filename order).outcome =
      .error (.tooManyDigits ⟨some digits.length⟩) := by
  obtain ⟨template, read⟩ := read_literalDefinition all filename
  obtain ⟨start, started⟩ : ∃ start, initialState { template, definitions :=
      [⟨literalDefinition digits, some 6⟩] } order {} filename = .ok start := ⟨_, rfl⟩
  have absent : start.findWord? (String.ofList digits) = none := by
    rw [State.findWord?_eq_none_iff, initialState_declared started]
    exact List.not_mem_nil
  have failed := compile_literalDefinition 6 all many absent
  rcases compiled : start.compile (literalDefinition digits) (some 6) with ⟨after, outcome⟩
  obtain rfl : outcome = .error (.tooManyDigits ⟨some digits.length⟩) := by
    rwa [compiled] at failed
  simp [ofText, read, ofSections, started, runDefinitions, compiled]

theorem overlong_literal_ends_run :
    (ofText (Source.ofDefinition (literalDefinition (List.replicate 4301 '1'))) none
      .shadowing).outcome = .error (.tooManyDigits ⟨some 4301⟩) := by
  have all : ∀ c ∈ List.replicate 4301 '1', Text.isAsciiDigit c = true := by
    intro c member
    rw [List.eq_of_mem_replicate member]
    decide
  have size : (List.replicate 4301 '1').length = 4301 := List.length_replicate
  have failed := ofText_literal all (by rw [size]; decide) none .shadowing
  rwa [size] at failed

end Compilation

end ThreadedCode
