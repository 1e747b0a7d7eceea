import ThreadedCode.Proofs.Comments
import ThreadedCode.Proofs.SourceLines

/-!
# The columns that diagnostics give

The reader of tokens is handed the text behind the name of a definition and counts columns from the
start of that text, so what it finds on the line of the name is short of its position in the line by
the width of the header. Lines are counted from the start of the definition. `compile_columns` says
so of every diagnostic at a token, be it recorded while the definition is compiled or at the end of
the session.
-/

namespace ThreadedCode

open Compiler

/-! ### Columns of a text -/

theorem columnBehind_append (first second : List Char) :
    columnBehind (first ++ second) =
      if '\n' ∈ second then columnBehind second else columnBehind first + second.length := by
  unfold columnBehind
  rw [List.reverse_append, List.takeWhile_append]
  by_cases newline : '\n' ∈ second
  · -- The last newline of the second text is the last one of both.
    rw [if_pos newline, if_neg]
    intro whole
    have same := (List.takeWhile_prefix (· ≠ '\n')).eq_of_length whole
    have plain : '\n' ∈ second.reverse.takeWhile (· ≠ '\n') := by
      rw [same]
      exact List.mem_reverse.mpr newline
    simpa using List.mem_takeWhile_imp plain
  · have plain : second.reverse.takeWhile (· ≠ '\n') = second.reverse := by
      rw [List.takeWhile_eq_self_iff]
      intro c member
      simpa using fun same : c = '\n' => newline (same ▸ List.mem_reverse.mp member)
    rw [if_neg newline, plain, if_pos rfl, List.length_append, List.length_reverse]
    omega

/-- A text that goes on comes to another place. -/
theorem placeBehind_ne (line : Int) (before : List Char) {text : List Char} (present : text ≠ []) :
    (lineBehind line (before ++ text), columnBehind (before ++ text)) ≠
      (lineBehind line before, columnBehind before) := by
  intro same
  obtain ⟨lines, columns⟩ := Prod.mk.inj same
  rw [lineBehind, lineBehind, List.count_append] at lines
  have level : '\n' ∉ text := by
    intro newline
    have some := List.count_pos_iff.mpr newline
    omega
  have long := List.length_pos_iff.mpr present
  rw [columnBehind_append, if_neg level] at columns
  omega

namespace Token

theorem Follows.spots_nodup {line : Int} {rest before : List Char} {depth : Nat}
    {pieces : List Piece} (follows : Follows line rest before depth pieces) :
    ((pieces.map Piece.token).map Token.spot).Nodup := by
  induction pieces generalizing before depth with
  | nil => exact List.nodup_nil
  | cons piece later ih =>
    obtain ⟨written, placed, -, -, follows⟩ := follows
    rw [List.map_cons, List.map_cons, List.nodup_cons]
    refine ⟨fun repeated => ?_, ih follows⟩
    rw [List.map_map] at repeated
    obtain ⟨other, member, same⟩ := List.mem_map.mp repeated
    obtain ⟨between, behind, rfl⟩ := List.append_of_mem member
    obtain ⟨-, lines, columns⟩ := follows.split
    -- What lies between the two places is at least the lexeme of the first.
    have present : piece.text ++ between.flatMap Piece.text ≠ [] := by
      obtain ⟨⟨tail, spelled⟩, letters, -⟩ := written.lexeme
      simp [Piece.text, ← spelled, letters]
    refine placeBehind_ne line before present ?_
    rw [Function.comp_apply, spot, spot, lines, columns, placed.1, placed.2,
      List.append_assoc] at same
    simpa using same

end Token

namespace Compiler

theorem bodyTokens?_spots_nodup {source : String} {number : Int} {tokens : List Token}
    (body : bodyTokens? source number = some tokens) : (tokens.map Token.spot).Nodup := by
  obtain ⟨scan, scanned, kept, -⟩ := bodyTokens?_scanned body
  obtain ⟨pieces, read, first, -, -, follows⟩ := Token.spelled_of_scanFrom scanned [] rfl
  have all : (scan.tokens.map Token.spot).Nodup := by
    rw [read]
    exact follows.spots_nodup
  have front := dropTerminator?_isPrefix scan.tokens
  rw [kept] at front
  exact all.sublist (front.sublist.map _)

/-! ### Headers -/

/-- The text of a definition up to the end of its name. -/
def headerText (source : String) : List Char :=
  source.toList.take (source.toList.length - (bodyText source).length)

/-- The width of the header of a definition on its last line. -/
def headerWidth (source : String) : Nat :=
  columnBehind (headerText source) - 1

theorem headerText_eq {source : String} {header : List Char}
    (whole : source.toList = header ++ bodyText source) : headerText source = header := by
  unfold headerText
  have length := congrArg List.length whole
  rw [List.length_append] at length
  rw [show source.toList.length - (bodyText source).length = header.length by omega, whole]
  exact List.take_left

theorem headerText_append (source : String) :
    headerText source ++ bodyText source = source.toList := by
  obtain ⟨header, whole⟩ := bodyText_suffix source
  rw [headerText_eq whole.symm, whole]

theorem lineBehind_header (source : String) (line : Int) (front : List Char) :
    lineBehind line (headerText source ++ front) = lineBehind (bodyLine source line) front := by
  have newlines := congrArg (List.count '\n') (headerText_append source)
  rw [List.count_append] at newlines
  rw [lineBehind, lineBehind, bodyLine, List.count_append]
  omega

theorem headerWidth_pos {source : String} (body : bodyText source ≠ []) :
    0 < headerWidth source := by
  have whole := Text.nextField_append source.toList
  rw [← Text.nextField_append (Text.nextField source.toList).2, ← bodyText, ← List.append_assoc,
    ← List.append_assoc] at whole
  -- The header ends with the name, which is not empty and on one line.
  have present : (Text.nextField (Text.nextField source.toList).2).1 ≠ [] := fun absent =>
    body (Text.nextField_eq_nil absent)
  have level : '\n' ∉ (Text.nextField (Text.nextField source.toList).2).1 := fun newline => by
    rw [Text.nextField, Text.field] at newline
    exact absurd (List.mem_takeWhile_imp newline) (by decide)
  rw [headerWidth, headerText_eq whole.symm, columnBehind_append, if_neg level]
  have long := List.length_pos_iff.mpr present
  unfold columnBehind
  omega

theorem columnBehind_header (source : String) (front : List Char) :
    columnBehind (headerText source ++ front) =
      columnBehind front + if '\n' ∈ front then 0 else headerWidth source := by
  rw [columnBehind_append]
  split
  · rfl
  · rename_i level
    have start := columnBehind_append [] front
    rw [List.nil_append, if_neg level] at start
    rw [start, headerWidth]
    unfold columnBehind
    simp only [List.reverse_nil, List.takeWhile_nil, List.length_nil]
    omega

theorem TokenBehind.column {source : String} {line : Int} {front : List Char} {token : Token}
    (behind : TokenBehind source line front token) :
    token.column = some (columnBehind front : Int) := by
  obtain ⟨earlier, piece, later, ⟨first, -, whole, follows⟩, body, rfl⟩ := behind
  obtain ⟨-, -, columns⟩ := follows.split
  obtain rfl : front = first ++ earlier.flatMap Token.Piece.text := by
    rw [body, List.append_nil, List.flatMap_append, ← List.append_assoc] at whole
    exact List.append_cancel_right whole
  simpa using columns

/-! ### The places of what a body records -/

/-- The same things in the same places, all among those given. -/
def Likeness.standing (spots : List Spot) : Likeness where
  spots here there := there = here ∧ here ∈ spots
  file := id
  unfiled := unfiled_id
  documented := True

/-- What is reported about a body is at its tokens. -/
theorem Draft.addBody_spots {state : State} {name : String} {tokens : List Token}
    {report : Diagnostic}
    (said : report ∈ (addBody state (state.newDraft name) tokens).1.diagnostics) :
    report.spot ∈ tokens.map Token.spot := by
  have stand : List.Forall₂ (Likeness.standing (tokens.map Token.spot)).Tokens tokens tokens :=
    List.forall₂_same.mpr fun token listed => ⟨rfl, rfl, rfl, List.mem_map_of_mem listed⟩
  -- The body is compared with itself, so all that it leaves stands where tokens do.
  have follows := Likeness.addBody_follows (.refl state)
    (Likeness.drafts_newDraft rfl state name) stand
  obtain ⟨uneven, -⟩ | ⟨reached, drafts, -⟩ := follows.goesOn (newDraft_isWritable state name)
  · exact absurd uneven (Likeness.not_uneven fun _ _ => And.left)
  · obtain ⟨other, -, reports⟩ :=
      Likeness.exists_of_forall₂ drafts.reports report (Array.mem_toList_iff.mpr said)
    exact reports.site.spot.2

namespace State

/-! ### References that stay pending -/

/-- A reference that is pending in a word of `state` after a call was pending before. -/
theorem execute_pending {state : State} (command : Command) {reference : PendingReference}
    (pending : reference ∈ (state.execute command).pending)
    (older : reference.word < state.compiled.size) : reference ∈ state.pending := by
  cases command with
  | finish => simp [execute, (finish_settled state).pending] at pending
  | compile source line =>
    refine execute_compile_cases
      (motive := fun later => reference ∈ later.pending → reference ∈ state.pending)
      (fun reports member => member) (fun reports tokens draft named added member => ?_) pending
    rw [← Array.mem_toList_iff, (addDraft_filled _ draft).pending, List.mem_append] at member
    rcases member with old | fresh
    · exact Array.mem_toList_iff.mp old
    · -- New references are those of the new word.
      obtain ⟨note, -, rfl⟩ := List.mem_map.mp fresh
      exact absurd older (Nat.lt_irrefl _)

theorem run_pending {state : State} (commands : List Command) {reference : PendingReference}
    (pending : reference ∈ (state.run commands).pending)
    (older : reference.word < state.compiled.size) : reference ∈ state.pending := by
  induction commands generalizing state with
  | nil => exact pending
  | cons command rest ih =>
    refine execute_pending command (ih pending ?_) older
    have kept := (execute_frame state command).2.1 reference.word _ (Array.getElem?_eq_getElem older)
    obtain ⟨code, there, -⟩ := kept
    exact (Array.getElem?_eq_some_iff.mp there).1

end State

/-! ### Columns -/

/-- A site at a token of a definition, which stands behind the header and `front`. The line is that
of the token, but the column is counted from the end of the name: it is short of the position of the
token in its line by the width of the header, unless a newline comes between them. -/
structure CountedFromName (source : String) (line : Option Int) (site : Site) (token : Token)
    (front : List Char) : Prop where
  text : ∃ after, source.toList = headerText source ++ front ++ token.lexeme.toList ++ after
  behind : ∃ number, line = some number ∧ TokenBehind source number front token ∧
    site.line = some (lineBehind number (headerText source ++ front))
  column : site.column = some (columnBehind front : Int)
  short : columnBehind (headerText source ++ front) =
    columnBehind front + if '\n' ∈ front then 0 else headerWidth source
  width : 0 < headerWidth source

theorem countedFromName {source : String} {number : Int} {tokens : List Token} {token : Token}
    (body : bodyTokens? source number = some tokens) (member : token ∈ tokens) {site : Site}
    (here : (site.line, site.column) = token.spot) :
    ∃ front, CountedFromName source (some number) site token front := by
  obtain ⟨front, behind⟩ := tokenBehind_of_bodyTokens body member
  obtain ⟨line, ⟨after, text⟩, present, -⟩ := behind.line
  obtain ⟨sameLine, sameColumn⟩ := Prod.mk.inj here
  refine ⟨front, ⟨after, ?_⟩, ⟨number, rfl, behind, ?_⟩, ?_, columnBehind_header source front,
    headerWidth_pos ?_⟩
  · rw [← headerText_append source, text]
    simp only [List.append_assoc]
  · rw [sameLine, line, lineBehind_header]
  · rw [sameColumn, behind.column]
  · rw [text]
    simp [present]

namespace State

/-- What is said at the end of a session about the references of a word is at tokens of its
definition. -/
theorem compile_complaints {state after : State} {source : String} {line : Option Int}
    {word : CompiledWord} (compiled : state.compile source line = (after, .ok (some word)))
    (later : State) {reference : PendingReference} (pending : reference ∈ after.pending) :
    reference ∈ state.pending ∨
      ∃ token front, CountedFromName source line (later.complaint reference).site token front := by
  let definition : Source.Definition := ⟨source, line⟩
  have traced : state.compile definition.text definition.line = (after, .ok (some word)) := compiled
  refine ((compile_origins traced).2 reference pending).imp id ?_
  rintro ⟨turns, draft, -, traces, note, noted, rfl⟩
  obtain ⟨number, rfl, body⟩ := traces.body
  obtain ⟨turn, listed, name, -, -, rfl⟩ := (traces.passes.mem_references_iff rfl).mp noted
  have member := List.mem_map_of_mem (f := Turn.token) (List.mem_filter.mp listed).1
  exact ⟨turn.token, countedFromName body member rfl⟩

/-- Every diagnostic that a definition records at one of its tokens has the line of the token, and a
column that is the position of the token in its line exactly if a newline comes between the name and
the token. On the line of the name it is short by the width of the header. The same holds of what
is said about the references of the word when the session, however it goes on, is finished. -/
theorem compile_columns (state : State) (source : String) (line : Option Int) :
    Adds (fun report => report.site.column = none ∨
        ∃ token front, CountedFromName source line report.site token front)
      state (state.compile source line).1 ∧
    ∀ word, (state.compile source line).2 = .ok (some word) → ∀ commands later,
      (state.compile source line).1.run commands = later →
      ∃ references ⊆ later.pending.toList,
        later.finish.1.diagnostics.toList =
          later.diagnostics.toList ++ references.map later.complaint ∧
        ∀ reference ∈ references, reference.word = state.compiled.size →
          reference ∈ state.pending ∨
          ∃ token front, CountedFromName source line (later.complaint reference).site token front := by
  refine ⟨?_, fun word compiled commands later reached => ?_⟩
  · refine compile_adds (fun problem site _ columnless => .inl columnless) ?_
    rintro number tokens rfl body report member
    obtain ⟨token, listed, here⟩ := List.mem_map.mp (Draft.addBody_spots member)
    exact .inr ⟨token, countedFromName body listed here.symm⟩
  · obtain ⟨references, pending, said⟩ := finish_reports later
    refine ⟨references, pending, said, fun reference member own => ?_⟩
    have waits := Array.mem_toList_iff.mp (pending member)
    rw [← reached] at waits
    -- Later calls only make references of words that come later.
    obtain ⟨tokens, turns, yields⟩ := compile_yields (Prod.ext rfl compiled)
    have older : reference.word < (state.compile source line).1.compiled.size := by
      rw [own]
      exact (Array.getElem?_eq_some_iff.mp yields.place).1
    exact compile_complaints (Prod.ext rfl compiled) later (run_pending commands waits older)

/-- A state without words. -/
def emptyState : State where
  catalog := {}
  slots := {}
  bootstrap := {}

/-- A definition with an unknown word on the line of its name and, on the next line, another one and
a reference that nothing has. -/
def spreadText : String :=
  ": w x\n  y %late ;"

theorem compile_columns_sample :
    ∃ after word, emptyState.compile spreadText (some 7) = (after, .ok (some word)) ∧
      after.diagnostics =
        #[⟨.unresolvedWord "x", { word := some "w", line := some 7, column := some 2 }⟩,
          ⟨.unresolvedWord "y", { word := some "w", line := some 8, column := some 3 }⟩] ∧
      headerWidth spreadText = 3 ∧
      (∃ token front, CountedFromName spreadText (some 7)
        { word := some "w", line := some 7, column := some 2 } token front) ∧
      after.finish.1.diagnostics.back? = some ⟨.unresolvedReference (some "late"),
        { word := some "w", line := some 8, column := some 5 }⟩ ∧
      ∃ token front, CountedFromName spreadText (some 7)
        { word := some "w", line := some 8, column := some 5 } token front := by
  obtain ⟨added, finished⟩ := compile_columns emptyState spreadText (some 7)
  have outcome : (emptyState.compile spreadText (some 7)).2 = .ok (some
      { name := "w", constant := "w", flags := {}, code := #[0, 0, 0, 0], doc := none }) := by
    decide +kernel
  have recorded : (emptyState.compile spreadText (some 7)).1.diagnostics =
      #[⟨.unresolvedWord "x", { word := some "w", line := some 7, column := some 2 }⟩,
        ⟨.unresolvedWord "y", { word := some "w", line := some 8, column := some 3 }⟩] := by
    decide +kernel
  have waits : (emptyState.compile spreadText (some 7)).1.pending.toList =
      [⟨0, 3, some "late", some 8, some 5⟩] := by decide +kernel
  have last : (emptyState.compile spreadText (some 7)).1.finish.1.diagnostics.size = 3 := by
    decide +kernel
  refine ⟨_, _, Prod.ext rfl outcome, recorded, by decide +kernel, ?_, by decide +kernel, ?_⟩
  · obtain ⟨reports, grown, counted⟩ := added
    rw [recorded] at grown
    obtain rfl : _ = reports := grown
    exact (counted _ List.mem_cons_self).resolve_left (by simp)
  · obtain ⟨references, pending, said, counted⟩ := finished _ outcome [] _ rfl
    obtain ⟨reference, member⟩ : ∃ reference, reference ∈ references := by
      refine List.exists_mem_of_length_pos ?_
      have lengths := congrArg List.length said
      rw [Array.length_toList, run, List.foldl_nil, last, recorded] at lengths
      simp at lengths
      omega
    have only := pending member
    rw [run, List.foldl_nil, waits, List.mem_singleton] at only
    subst only
    have site : (((emptyState.compile spreadText (some 7)).1.run []).complaint
        ⟨0, 3, some "late", some 8, some 5⟩).site =
          { word := some "w", line := some 8, column := some 5 } := by decide +kernel
    rw [← site]
    exact (counted _ member rfl).resolve_left (by simp [emptyState])

/-- The unknown word is the fifth character of the line and is reported at the second. -/
theorem column_short_on_header_line :
    (emptyState.compile ": w x ;" (some 1)).1.diagnostics =
        #[⟨.unresolvedWord "x", { word := some "w", line := some 1, column := some 2 }⟩] ∧
      ": w x ;".toList = ": w ".toList ++ ("x".toList ++ " ;".toList) ∧
      columnBehind ": w ".toList = 5 := by
  decide +kernel

end State

end Compiler

end ThreadedCode
