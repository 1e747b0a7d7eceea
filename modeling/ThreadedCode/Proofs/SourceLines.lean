import ThreadedCode.Proofs.Origins
import ThreadedCode.Proofs.Spelling

/-!
# The lines that diagnostics give

The line of a token is counted in three places: the reader of sources numbers the lines of the
source, the header of a definition spans some of its lines, and the reader of tokens counts newlines
in the body. Together they give the number of the line of the source on which the token starts, so
that is the line of every diagnostic that has a column (`ofText_diagnostic_lines`).
-/

namespace ThreadedCode

open Compiler

/-! ### Lines of a text -/

namespace Text

theorem linesFrom_plain {done : Array String} {line text : List Char}
    (before : ∀ other ∈ done, ∀ c ∈ other.toList, isLineBreak c = false)
    (here : ∀ c ∈ line, isLineBreak c = false) :
    ∀ other ∈ linesFrom done line text, ∀ c ∈ other.toList, isLineBreak c = false := by
  have pushed : ∀ {done : Array String} {line : List Char},
      (∀ other ∈ done, ∀ c ∈ other.toList, isLineBreak c = false) →
      (∀ c ∈ line, isLineBreak c = false) →
      ∀ other ∈ done.push (String.ofList line.reverse), ∀ c ∈ other.toList,
        isLineBreak c = false := by
    intro done line before here other member
    rcases Array.mem_push.mp member with old | rfl
    · exact before other old
    · simpa using here
  fun_induction linesFrom done line text with
  | case1 done line empty => simpa using before
  | case2 done line nonempty => simpa using pushed before here
  | case3 done line rest ih => exact ih (pushed before here) (by simp)
  | case4 done line c rest other breaks ih => exact ih (pushed before here) (by simp)
  | case5 done line c rest other plain ih =>
    exact ih before (List.forall_mem_cons.mpr ⟨Bool.eq_false_iff.mpr plain, here⟩)

theorem newline_notMem_lines {source line : String} (member : line ∈ lines source) :
    '\n' ∉ line.toList := by
  intro newline
  have plain : isLineBreak '\n' = false := linesFrom_plain (by simp) (by simp) line member _ newline
  cases plain

/-- Some lines, each with a newline behind it. -/
def closed (lines : List String) : List Char :=
  lines.flatMap fun line => line.toList ++ ['\n']

/-- Characters that are no newline and stand somewhere in lines put together stand in one of the
lines, behind as many lines as there are newlines before them. -/
theorem intercalate_split {lines : List String} (plain : ∀ line ∈ lines, '\n' ∉ line.toList)
    {before inner after : List Char} (present : inner ≠ []) (unbroken : '\n' ∉ inner)
    (whole : ("\n".intercalate lines).toList = before ++ (inner ++ after)) :
    ∃ upper line lower left right, lines = upper ++ line :: lower ∧
      line.toList = left ++ inner ++ right ∧ before = closed upper ++ left ∧
      upper.length = before.count '\n' := by
  induction lines generalizing before with
  | nil => simp [present] at whole
  | cons line lines ih =>
    obtain ⟨first, others⟩ := List.forall_mem_cons.mp plain
    have here : ∀ right, line.toList = before ++ inner ++ right →
        ∃ upper chosen lower left right, line :: lines = upper ++ chosen :: lower ∧
          chosen.toList = left ++ inner ++ right ∧ before = closed upper ++ left ∧
          upper.length = before.count '\n' := by
      intro right same
      refine ⟨[], line, lines, before, right, rfl, same, rfl, (List.count_eq_zero.mpr ?_).symm⟩
      intro newline
      exact first (by simp [same, newline])
    cases lines with
    | nil =>
      rw [String.intercalate_singleton] at whole
      exact here after (by rw [whole, List.append_assoc])
    | cons next lines =>
      have split : line.toList ++ ('\n' :: ("\n".intercalate (next :: lines)).toList) =
          before ++ (inner ++ after) := by
        rw [← whole, String.intercalate_cons_cons]
        simp
      rcases List.append_eq_append_iff.mp split with ⟨rest, same, tail⟩ | ⟨rest, same, tail⟩
      · cases rest with
        | nil =>
          obtain ⟨c, letters, rfl⟩ := List.exists_cons_of_ne_nil present
          obtain ⟨rfl, -⟩ := List.cons.inj tail
          exact absurd List.mem_cons_self unbroken
        | cons c rest =>
          obtain ⟨rfl, later⟩ := List.cons.inj tail
          obtain ⟨upper, chosen, lower, left, right, listed, found, front, count⟩ := ih others later
          refine ⟨line :: upper, chosen, lower, left, right, by rw [listed]; rfl, found, ?_, ?_⟩
          · rw [same, front]
            simp [closed]
          · rw [same, List.count_append, List.count_eq_zero.mpr first, List.count_cons_self,
              List.length_cons, count, Nat.zero_add]
      · rcases List.append_eq_append_iff.mp tail with ⟨right, found, -⟩ | ⟨right, found, tail⟩
        · exact here right (by rw [same, found, List.append_assoc])
        · cases right with
          | nil => exact here [] (by rw [same, found]; simp)
          | cons c right =>
            obtain ⟨rfl, -⟩ := List.cons.inj tail
            exact absurd (by simp [found]) unbroken

theorem trim_append (text : List Char) :
    ∃ trailing, text = text.takeWhile isBlank ++ (trim text ++ trailing) := by
  refine ⟨((trimLeft text).reverse.takeWhile isBlank).reverse, ?_⟩
  rw [trim, trimRight, ← List.reverse_append, List.takeWhile_append_dropWhile, List.reverse_reverse,
    trimLeft, List.takeWhile_append_dropWhile]

/-- What stripping takes away in front is no newline if the first line is not blank. -/
theorem strip_intercalate {first : String} (rest : List String) (plain : '\n' ∉ first.toList)
    (visible : first.toList.all isBlank = false) :
    ∃ blanks trailing, (∀ c ∈ blanks, isBlank c = true) ∧ '\n' ∉ blanks ∧
      ("\n".intercalate (first :: rest)).toList =
        blanks ++ ((strip ("\n".intercalate (first :: rest))).toList ++ trailing) := by
  obtain ⟨tail, joined⟩ : ∃ tail,
      ("\n".intercalate (first :: rest)).toList = first.toList ++ tail := by
    cases rest with
    | nil => exact ⟨[], by simp⟩
    | cons next rest => exact ⟨_, by rw [String.intercalate_cons_cons, String.append_assoc,
        String.toList_append]⟩
  have lead : (first.toList ++ tail).takeWhile isBlank = first.toList.takeWhile isBlank := by
    rw [List.takeWhile_append, if_neg fun all => ?_]
    obtain ⟨c, member, unblank⟩ := List.all_eq_false.mp visible
    rw [← (List.takeWhile_prefix isBlank).eq_of_length all] at member
    exact unblank (List.mem_takeWhile_imp member)
  obtain ⟨trailing, whole⟩ := trim_append ("\n".intercalate (first :: rest)).toList
  rw [strip, String.toList_ofList]
  refine ⟨_, trailing, fun c => List.mem_takeWhile_imp, ?_, whole⟩
  rw [joined, lead]
  exact fun newline => plain ((List.takeWhile_prefix _).subset newline)

end Text

/-! ### Lines of a definition -/

namespace Source

/-- Lines of a source that follow one another hold a definition, whose line is the number of the
first. -/
structure Holds (source : String) (definition : Definition) (above chosen below : List String) :
    Prop where
  lines : Text.lines source = above ++ chosen ++ below
  line : definition.line = some ((above.length : Int) + 1)
  text : definition.text = Text.strip ("\n".intercalate chosen)

theorem read_holds {source : String} {filename : Option String} {sections : Sections}
    (done : read source filename = .ok sections) {definition : Definition}
    (member : definition ∈ sections.definitions) :
    ∃ above first rest below, Holds source definition above (first :: rest) below ∧
      first.toList.all Text.isBlank = false := by
  obtain ⟨first, rest, ⟨above, below, whole⟩, visible, rfl⟩ := mem_definitions done member
  refine ⟨above.map Prod.fst, first.1, rest.map Prod.fst, below.map Prod.fst, ⟨?_, ?_, ?_⟩, visible⟩
  · rw [← List.zipIdx_map_fst 1 (Text.lines source), ← whole]
    simp
  · have there : ((Text.lines source).zipIdx 1)[above.length]? = some first := by
      rw [← whole]
      simp
    rw [List.getElem?_zipIdx, Option.map_eq_some_iff] at there
    obtain ⟨text, -, rfl⟩ := there
    simp [readDefinition, Int.add_comm]
  · simp [readDefinition]

/-- A token that stands behind `front` in the body of a definition starts on a line of the source:
the lines of the definition above it, and that line up to the token, hold the header and `front`. -/
def StartsOn (source : String) (definition : Definition) (front : List Char) (lexeme : String)
    (number : Int) : Prop :=
  ∃ above upper line lower below, Holds source definition above (upper ++ line :: lower) below ∧
    number = (above ++ upper).length + 1 ∧
    ∃ blanks header left right, (∀ c ∈ blanks, Text.isBlank c = true) ∧
      definition.text.toList = header ++ bodyText definition.text ∧
      blanks ++ header ++ front = Text.closed upper ++ left ∧
      line.toList = left ++ lexeme.toList ++ right

/-- A token is on the line that is found by counting newlines from the line of the definition. -/
theorem startsOn {source : String} {definition : Definition} {above below rest : List String}
    {first : String} (holds : Holds source definition above (first :: rest) below)
    (visible : first.toList.all Text.isBlank = false) {front after : List Char} {lexeme : String}
    (body : bodyText definition.text = front ++ (lexeme.toList ++ after))
    (present : lexeme.toList ≠ []) (unbroken : '\n' ∉ lexeme.toList) :
    StartsOn source definition front lexeme
      (lineBehind (bodyLine definition.text (above.length + 1)) front) := by
  have plain : ∀ line ∈ first :: rest, '\n' ∉ line.toList := by
    intro line member
    have listed : line ∈ Text.lines source := by
      rw [holds.lines]
      exact List.mem_append_left _ (List.mem_append_right _ member)
    exact Text.newline_notMem_lines listed
  obtain ⟨blanks, trailing, blank, level, joined⟩ :=
    Text.strip_intercalate rest (plain first List.mem_cons_self) visible
  obtain ⟨header, text⟩ := bodyText_suffix definition.text
  rw [← holds.text, ← text, body] at joined
  have whole : ("\n".intercalate (first :: rest)).toList =
      blanks ++ header ++ front ++ (lexeme.toList ++ (after ++ trailing)) := by
    rw [joined]
    simp only [List.append_assoc]
  obtain ⟨upper, line, lower, left, right, listed, found, above_left, count⟩ :=
    Text.intercalate_split plain present unbroken whole
  refine ⟨above, upper, line, lower, below, listed ▸ holds, ?_, blanks, header, left, right, blank,
    text.symm, above_left, found⟩
  have newlines := congrArg (List.count '\n') text
  rw [List.count_append] at newlines
  rw [List.count_append, List.count_append, List.count_eq_zero.mpr level] at count
  rw [lineBehind, bodyLine, List.length_append]
  omega

end Source

/-! ### Tokens of a definition -/

namespace Token

theorem Follows.split {line : Int} {rest before : List Char} {depth : Nat}
    {earlier later : List Piece} {piece : Piece}
    (follows : Follows line rest before depth (earlier ++ piece :: later)) :
    piece.IsWritten (depthBehind depth (earlier.map Piece.token)) ∧
      piece.IsPlaced line (before ++ earlier.flatMap Piece.text) := by
  induction earlier generalizing before depth with
  | nil => exact ⟨follows.1, by simpa using follows.2.1⟩
  | cons first earlier ih =>
    obtain ⟨-, -, -, -, follows⟩ := follows
    simpa [depthBehind] using ih follows

theorem Piece.IsWritten.lexeme {piece : Piece} {depth : Nat} (written : piece.IsWritten depth) :
    piece.token.lexeme.toList <+: piece.written ∧ piece.token.lexeme.toList ≠ [] ∧
      '\n' ∉ piece.token.lexeme.toList := by
  unfold Piece.IsWritten at written
  split at written
  · obtain ⟨-, mark, -, -, gap, -, -, spelled⟩ := written
    rw [mark, spelled]
    refine ⟨?_, by decide, by decide⟩
    rw [List.append_assoc, List.append_assoc]
    exact List.prefix_append _ _
  · obtain ⟨lexeme, present, visible, -⟩ := written
    rw [← lexeme]
    exact ⟨List.prefix_refl _, present, fun newline => absurd (visible _ newline) (by decide)⟩

end Token

namespace Compiler

/-- A token of the body of a definition that starts on a line stands behind `front`, as the body is
spelled. -/
def TokenBehind (source : String) (line : Int) (front : List Char) (token : Token) : Prop :=
  ∃ earlier piece later,
    Token.Spelled (bodyLine source line) [] 0 (bodyText source) (earlier ++ piece :: later) [] ∧
      bodyText source = front ++ (piece :: later).flatMap Token.Piece.text ∧ piece.token = token

theorem tokenBehind_of_bodyTokens {source : String} {number : Int} {tokens : List Token}
    (body : bodyTokens? source number = some tokens) {token : Token} (member : token ∈ tokens) :
    ∃ front, TokenBehind source number front token := by
  obtain ⟨scan, scanned, -, listed⟩ := bodyTokens?_scanned body
  obtain ⟨pieces, same, spelled⟩ := Token.spelled_of_scanFrom scanned [] rfl
  have present := listed member
  rw [same, List.nil_append] at present
  obtain ⟨piece, inside, rfl⟩ := List.mem_map.mp present
  obtain ⟨earlier, later, rfl⟩ := List.append_of_mem inside
  obtain ⟨first, -, whole, -⟩ := id spelled
  refine ⟨first ++ earlier.flatMap Token.Piece.text, earlier, piece, later, spelled, ?_, rfl⟩
  simp [whole]

/-- The line of a token is that of the text in front of it, and behind that text is its lexeme. -/
theorem TokenBehind.line {source : String} {line : Int} {front : List Char} {token : Token}
    (behind : TokenBehind source line front token) :
    token.line = some (lineBehind (bodyLine source line) front) ∧
      (∃ after, bodyText source = front ++ (token.lexeme.toList ++ after)) ∧
      token.lexeme.toList ≠ [] ∧ '\n' ∉ token.lexeme.toList := by
  obtain ⟨earlier, piece, later, ⟨first, -, whole, follows⟩, body, rfl⟩ := behind
  obtain ⟨written, placed⟩ := follows.split
  obtain rfl : front = first ++ earlier.flatMap Token.Piece.text := by
    rw [body, List.append_nil, List.flatMap_append, ← List.append_assoc] at whole
    exact List.append_cancel_right whole
  obtain ⟨⟨rest, spelled⟩, shape⟩ := written.lexeme
  refine ⟨by simpa using placed.1, ⟨rest ++ piece.blanks ++ later.flatMap Token.Piece.text, ?_⟩,
    shape⟩
  rw [body, List.flatMap_cons, Token.Piece.text, ← spelled]
  simp

end Compiler

/-! ### Whole sources -/

namespace Compilation

/-- Every diagnostic of a run that has a column is about a token that has the problem, and its line
is the number of the line of the source on which that token starts. -/
theorem ofText_diagnostic_lines {source : String} {filename : Option String} {order : Order}
    {compilation : Compilation}
    (returned : (ofText source filename order).outcome = .ok compilation) :
    ∃ start log final,
      initialState compilation.sections order {} filename = .ok start ∧
      Runs start log final ∧ log.map Prod.fst = compilation.sections.definitions ∧
      ∀ diagnostic ∈ compilation.diagnostics, diagnostic.site.column ≠ none →
        ∃ definition before turns draft, Traced start log final definition before turns draft ∧
          ∃ turn ∈ codeTurns turns, TokenProblem before final draft turn diagnostic.problem ∧
            diagnostic.site = draft.site turn.token ∧
            ∃ line front number, definition.line = some line ∧
              TokenBehind definition.text line front turn.token ∧
              diagnostic.site.line = some number ∧
              Source.StartsOn source definition front turn.token.lexeme number := by
  obtain ⟨start, log, final, read, started, runs, same, finished, -, diagnostics⟩ :=
    ofText_ok returned
  refine ⟨start, log, final, started, runs, same, fun diagnostic member located => ?_⟩
  rw [diagnostics] at member
  obtain ⟨definition, before, turns, draft, traced, turn, listed, wrong, site⟩ :=
    runs.blamed (initialState_ok started).1 finished member located
  refine ⟨definition, before, turns, draft, traced, turn, listed, wrong, site, ?_⟩
  have declared : definition ∈ compilation.sections.definitions := by
    obtain ⟨earlier, later, after, word, rfl, -⟩ := traced.place
    rw [← same]
    simp
  obtain ⟨above, first, rest, below, holds, visible⟩ := Source.read_holds read declared
  obtain ⟨line, known, body⟩ := traced.traces.body
  obtain rfl : line = (above.length : Int) + 1 := Option.some.inj (known.symm.trans holds.line)
  obtain ⟨front, behind⟩ := tokenBehind_of_bodyTokens body
    (List.mem_map_of_mem (List.mem_filter.mp listed).1)
  obtain ⟨counted, ⟨after, text⟩, present, unbroken⟩ := behind.line
  exact ⟨_, front, _, known, behind, by rw [site]; exact counted,
    Source.startsOn holds visible text present unbroken⟩

/-- A source with a blank line above its definition, which is spread over three lines by a form feed
and a newline. -/
def sampleSpread : String :=
  "/*CONSTS*/\n/*CODE*/\n========\n========\n========\n\n  : w ( a\x0c b )\n nope ;\n"

theorem ofText_diagnostic_lines_sample :
    ∃ compilation, (ofText sampleSpread none .shadowing).outcome = .ok compilation ∧
      compilation.diagnostics =
        #[⟨.unresolvedWord "nope", { word := some "w", line := some 9, column := some 2 }⟩] ∧
      ∃ definition front, Source.StartsOn sampleSpread definition front "nope" 9 := by
  have evaluated : (ofText sampleSpread none .shadowing).outcome.toOption.map (·.diagnostics) =
      some #[⟨.unresolvedWord "nope", { word := some "w", line := some 9, column := some 2 }⟩] := by
    decide +kernel
  cases returned : (ofText sampleSpread none .shadowing).outcome with
  | error failure => simp [returned, Except.toOption] at evaluated
  | ok compilation =>
    rw [returned] at evaluated
    have diagnostics : compilation.diagnostics = _ := Option.some.inj evaluated
    obtain ⟨start, log, final, -, -, -, all⟩ := ofText_diagnostic_lines returned
    rw [diagnostics] at all
    obtain ⟨definition, before, turns, draft, -, turn, -, wrong, -, line, front, number, -, -, given,
      starts⟩ := all _ (by simp; rfl) (by simp)
    have lexeme : turn.token.lexeme = "nope" := by
      generalize said : Problem.unresolvedWord "nope" = problem at wrong
      cases wrong with
      | word => exact (Problem.unresolvedWord.inj said).symm
      | _ => cases said
    rw [lexeme, ← Option.some.inj given] at starts
    exact ⟨compilation, rfl, diagnostics, definition, front, starts⟩

end Compilation

end ThreadedCode
