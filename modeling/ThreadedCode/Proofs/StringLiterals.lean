import ThreadedCode.Proofs.BlockComments

/-!
# The names in the interpreter source

In a string literal a backslash stands for the character behind it, and the first quote that no
backslash stands for ends it. Read in this way the escaped form of a name is the name. In the text
of a table a comment is passed over, and what is neither comment nor literal is read character by
character; the literals of the name table are the names of the words in order
(`ofText_names_read_back`).
-/

namespace ThreadedCode

open Compiler

namespace Interpreter

/-! ### String literals -/

/-- Reads the rest of a string literal: its content, and the text behind the quote that ends it. -/
def readLiteral : List Char → Option (List Char × List Char)
  | [] => none
  | '"' :: rest => some ([], rest)
  | ['\\'] => none
  | '\\' :: c :: rest => (readLiteral rest).map fun (content, rest) => (c :: content, rest)
  | c :: rest => (readLiteral rest).map fun (content, rest) => (c :: content, rest)

theorem readLiteral_escapeChar (c : Char) (text : List Char) :
    readLiteral (escapeChar c ++ text) =
      (readLiteral text).map fun (content, rest) => (c :: content, rest) := by
  unfold escapeChar
  split
  · rw [List.cons_append, List.singleton_append, readLiteral]
  · rename_i plain
    obtain ⟨noBackslash, noQuote⟩ : c ≠ '\\' ∧ c ≠ '"' := by simpa using plain
    rw [List.singleton_append, readLiteral]
    · exact noQuote
    · exact fun same _ => noBackslash same
    · exact fun _ _ same _ => noBackslash same

theorem readLiteral_escape (name : String) (rest : List Char) :
    readLiteral ((escape name).toList ++ '"' :: rest) = some (name.toList, rest) := by
  rw [escape, String.toList_ofList]
  induction name.toList with
  | nil => rw [List.flatMap_nil, List.nil_append, readLiteral]
  | cons c name ih =>
    rw [List.flatMap_cons, List.append_assoc, readLiteral_escapeChar, ih, Option.map_some]

theorem escape_injective : Function.Injective escape := by
  intro first second same
  have read := readLiteral_escape first []
  rw [same, readLiteral_escape] at read
  exact String.toList_inj.mp (Prod.mk.inj (Option.some.inj read)).1.symm

theorem length_readLiteral {text content rest : List Char}
    (read : readLiteral text = some (content, rest)) : rest.length < text.length := by
  fun_induction readLiteral text generalizing content rest with
  | case1 => cases read
  | case2 behind =>
    obtain ⟨-, rfl⟩ := Prod.mk.inj (Option.some.inj read)
    exact Nat.lt_succ_self _
  | case3 => cases read
  | case4 c behind ih =>
    obtain ⟨⟨content, last⟩, found, same⟩ := Option.map_eq_some_iff.mp read
    obtain ⟨-, rfl⟩ := Prod.mk.inj same
    exact (ih found).trans (Nat.lt_add_of_pos_right Nat.two_pos)
  | case5 c behind _ _ _ ih =>
    obtain ⟨⟨content, last⟩, found, same⟩ := Option.map_eq_some_iff.mp read
    obtain ⟨-, rfl⟩ := Prod.mk.inj same
    exact (ih found).trans (Nat.lt_succ_self _)

end Interpreter

namespace Text

/-- Replacing a single character puts its substitute in place of each. -/
theorem Replaced.flatMap {c : Char} {substitute text result : List Char}
    (replaced : Replaced [c] substitute text result) :
    result = text.flatMap fun d => if d = c then substitute else [d] := by
  induction replaced with
  | nil => rfl
  | hit rest ih => simp [ih]
  | @miss d text result other rest ih =>
    have apart : d ≠ c := by
      rintro rfl
      exact other (by simp)
    simp [apart, ih]

theorem replace_char (text : String) (c : Char) (substitute : String) :
    (replace text (String.singleton c) substitute).toList =
      text.toList.flatMap fun d => if d = c then substitute.toList else [d] := by
  have replaced := replaced_replace text (String.singleton c) substitute (by simp)
  rw [String.toList_singleton] at replaced
  exact replaced.flatMap

end Text

namespace Interpreter

/-- A name is escaped by replacing its backslashes and then its quotes. -/
theorem escape_eq_replace (name : String) :
    escape name = Text.replace (Text.replace name "\\" "\\\\") "\"" "\\\"" := by
  have both (c : Char) : escapeChar c = (if c = '\\' then "\\\\".toList else [c]).flatMap fun d =>
      if d = '"' then "\\\"".toList else [d] := by
    unfold escapeChar
    by_cases backslash : c = '\\'
    · simp [backslash]
    · by_cases quote : c = '"' <;> simp [backslash, quote]
  rw [← String.toList_inj, escape, String.toList_ofList]
  refine Eq.trans ?_ (Text.replace_char _ '"' "\\\"").symm
  refine Eq.trans ?_ (congrArg _ (Text.replace_char name '\\' "\\\\").symm)
  rw [List.flatMap_assoc]
  exact congrArg (fun f => name.toList.flatMap f) (funext both)

/-! ### Tables -/

/-- What the text of a table is made of. -/
inductive Lexeme where
  | symbol (c : Char)
  | literal (content : String)
  deriving DecidableEq

/-- The text behind the first end of a comment. -/
def afterComment? : List Char → Option (List Char)
  | [] => none
  | '*' :: '/' :: rest => some rest
  | _ :: rest => afterComment? rest

theorem length_afterComment? {text rest : List Char} (found : afterComment? text = some rest) :
    rest.length < text.length := by
  fun_induction afterComment? text with
  | case1 => cases found
  | case2 behind =>
    obtain rfl := Option.some.inj found
    exact Nat.lt_add_of_pos_right Nat.two_pos
  | case3 c behind _ ih => exact (ih found).trans (Nat.lt_succ_self _)

theorem afterComment?_append {content : List Char} (apart : ¬ Text.closing <:+: content)
    (rest : List Char) : afterComment? (content ++ '*' :: '/' :: rest) = some rest := by
  induction content with
  | nil => rw [List.nil_append, afterComment?]
  | cons c content ih =>
    rw [Text.closing_infix_cons, not_or] at apart
    rw [List.cons_append, afterComment?]
    · exact ih apart.2
    · intro behind star slash
      refine apart.1 ⟨star, ?_⟩
      cases content with
      | nil => cases slash
      | cons d content => exact congrArg some (List.cons.inj slash).1

/-- Reads the text of a table. A literal or a comment without an end cannot be read. -/
def lexemes? : List Char → Option (List Lexeme)
  | [] => some []
  | '"' :: text =>
    match _read : readLiteral text with
    | none => none
    | some (content, rest) => (lexemes? rest).map (.literal (String.ofList content) :: ·)
  | '/' :: '*' :: text =>
    match _found : afterComment? text with
    | none => none
    | some rest => lexemes? rest
  | c :: text => (lexemes? text).map (.symbol c :: ·)
termination_by text => text.length
decreasing_by
  · exact (length_readLiteral _read).trans (Nat.lt_succ_self _)
  · exact (length_afterComment? _found).trans (Nat.lt_add_of_pos_right Nat.two_pos)
  · exact Nat.lt_succ_self _

theorem lexemes?_literal {text content rest : List Char}
    (read : readLiteral text = some (content, rest)) :
    lexemes? ('"' :: text) = (lexemes? rest).map (.literal (String.ofList content) :: ·) := by
  rw [lexemes?]
  split
  · rename_i unread
    cases read.symm.trans unread
  · rename_i found
    obtain ⟨rfl, rfl⟩ := Prod.mk.inj (Option.some.inj (read.symm.trans found))
    rfl

theorem lexemes?_comment {text rest : List Char} (behind : afterComment? text = some rest) :
    lexemes? ('/' :: '*' :: text) = lexemes? rest := by
  rw [lexemes?]
  split
  · rename_i unclosed
    cases behind.symm.trans unclosed
  · rename_i found
    rw [Option.some.inj (behind.symm.trans found)]

/-- A character that neither a literal nor a comment begins with. -/
def isSymbol (c : Char) : Bool :=
  c ≠ '"' && c ≠ '/'

/-- In front of any text, a text is read as some lexemes. -/
def Reads (text : List Char) (found : List Lexeme) : Prop :=
  ∀ rest, lexemes? (text ++ rest) = (lexemes? rest).map (found ++ ·)

namespace Reads

theorem nil : Reads [] [] := by
  intro rest
  simp

theorem append {front back : List Char} {first second : List Lexeme} (before : Reads front first)
    (behind : Reads back second) : Reads (front ++ back) (first ++ second) := by
  intro rest
  rw [List.append_assoc, before, behind, Option.map_map]
  simp [Function.comp_def]

theorem flatMap {α : Type} {values : List α} {text : α → List Char} {found : α → List Lexeme}
    (each : ∀ value ∈ values, Reads (text value) (found value)) :
    Reads (values.flatMap text) (values.flatMap found) := by
  induction values with
  | nil => exact nil
  | cons value values ih =>
    obtain ⟨first, others⟩ := List.forall_mem_cons.mp each
    exact first.append (ih others)

theorem symbols {text : List Char} (plain : text.all isSymbol = true) :
    Reads text (text.map .symbol) := by
  induction text with
  | nil => exact nil
  | cons c text ih =>
    rw [List.all_cons, Bool.and_eq_true] at plain
    obtain ⟨noQuote, noSlash⟩ : c ≠ '"' ∧ c ≠ '/' := by simpa [isSymbol] using plain.1
    intro rest
    rw [List.cons_append, lexemes?, ih plain.2, Option.map_map]
    · rfl
    · exact noQuote
    · exact fun _ slash _ => noSlash slash

theorem literal (name : String) :
    Reads ('"' :: ((escape name).toList ++ ['"'])) [.literal name] := by
  intro rest
  rw [List.cons_append, List.append_assoc, List.singleton_append,
    lexemes?_literal (readLiteral_escape name rest), String.ofList_toList]
  rfl

theorem comment {content : String} (closed : Piece.IsClosed content) :
    Reads (Piece.comment content).write.toList [] := by
  have apart : ¬ Text.closing <:+: content.toList := by
    rw [isClosed_iff, Text.closing_infix_cons, not_or] at closed
    exact closed.2
  intro rest
  have text : (Piece.comment content).write.toList ++ rest =
      '/' :: '*' :: (content.toList ++ '*' :: '/' :: rest) := by
    simp [Piece.write]
  rw [text, lexemes?_comment (afterComment?_append apart rest)]
  simp

theorem enclosed {opening inside ending : String} {found : List Lexeme}
    (reads : Reads inside.toList found) (opened : opening.toList.all isSymbol = true)
    (ended : ending.toList.all isSymbol = true) :
    Reads (opening ++ inside ++ ending).toList
      (opening.toList.map .symbol ++ found ++ ending.toList.map .symbol) := by
  rw [String.toList_append, String.toList_append]
  exact ((symbols opened).append reads).append (symbols ended)

theorem lexemes?_eq {text : List Char} {found : List Lexeme} (reads : Reads text found) :
    lexemes? text = some found := by
  have whole := reads []
  rw [List.append_nil, lexemes?, Option.map_some, List.append_nil] at whole
  exact whole

end Reads

/-! ### The name table -/

/-- The contents of the literals, in order. -/
def literals (found : List Lexeme) : List String :=
  found.filterMap fun
    | .literal content => some content
    | .symbol _ => none

/-- The lexemes of the row of a name. -/
def nameRow (name : String) : List Lexeme :=
  "\t\t".toList.map .symbol ++ [.literal name] ++ " ,\n".toList.map .symbol

theorem reads_nameLine (name : String) (index : Nat) :
    Reads (nameLine name index).toList (nameRow name) := by
  have opening : Reads "\t\t".toList ("\t\t".toList.map .symbol) := .symbols (by decide)
  have gap : Reads " ".toList (" ".toList.map .symbol) := .symbols (by decide)
  have number := Reads.comment (isClosed_decimal index)
  have ending : Reads ",\n".toList (",\n".toList.map .symbol) := .symbols (by decide)
  have whole := ((opening.append (.literal name)).append gap).append (number.append ending)
  have text : (nameLine name index).toList = "\t\t".toList ++
      '"' :: ((escape name).toList ++ ['"']) ++ " ".toList ++
      ((Piece.comment (Text.decimal index)).write.toList ++ ",\n".toList) := by
    simp [nameLine, Piece.write]
  rw [text]
  simpa [nameRow] using whole

/-- The lexemes of the name table: those of the rows, and symbols around them. -/
theorem reads_nameTable (table : Table) :
    ∃ opening ending : List Char, Reads (nameTable table).toList
      (opening.map .symbol ++ table.names.toList.flatMap nameRow ++ ending.map .symbol) := by
  have rows : Reads (table.names.toList.zipIdx.flatMap fun row => (nameLine row.1 row.2).toList)
      (table.names.toList.zipIdx.flatMap fun row => nameRow row.1) :=
    .flatMap fun row _ => reads_nameLine row.1 row.2
  have lines : (String.join (table.names.toList.zipIdx.map fun row =>
      nameLine row.1 row.2)).toList =
      table.names.toList.zipIdx.flatMap fun row => (nameLine row.1 row.2).toList := by
    rw [String.toList_join, List.flatMap_map]
  have names : (table.names.toList.zipIdx.flatMap fun row => nameRow row.1) =
      table.names.toList.flatMap nameRow := by
    rw [← List.flatMap_map Prod.fst, List.zipIdx_map_fst]
  rw [← lines, names] at rows
  exact ⟨_, _, rows.enclosed (by decide +kernel) (by decide)⟩

theorem literals_symbols (text : List Char) : literals (text.map .symbol) = [] := by
  simp [literals]

theorem literals_append (front back : List Lexeme) :
    literals (front ++ back) = literals front ++ literals back :=
  List.filterMap_append

theorem literals_nameRow (name : String) : literals (nameRow name) = [name] := by
  rw [nameRow, literals_append, literals_append, literals_symbols, literals_symbols]
  rfl

theorem literals_nameTable (table : Table) :
    (lexemes? (nameTable table).toList).map literals = some table.names.toList := by
  obtain ⟨opening, ending, reads⟩ := reads_nameTable table
  have rows : literals (table.names.toList.flatMap nameRow) = table.names.toList := by
    rw [literals, List.filterMap_flatMap]
    exact (List.flatMap_congr fun name _ => literals_nameRow name).trans (List.flatMap_singleton' _)
  rw [reads.lexemes?_eq, Option.map_some, literals_append, literals_append, literals_symbols,
    literals_symbols, rows, List.nil_append, List.append_nil]

/-- The names and the code stand in the interpreter source one behind the other. -/
theorem render_tables {sections : Source.Sections} {table : Table} {text : String}
    (rendered : render sections table = .ok text) :
    ∃ front code back, codeTable table = .ok code ∧
      text = front ++ nameTable table ++ (code ++ back) := by
  obtain ⟨constants, -, rendered⟩ := Table.bind_ok_iff.mp rendered
  obtain ⟨code, written, rendered⟩ := Table.bind_ok_iff.mp rendered
  obtain ⟨methods, -, rendered⟩ := Table.bind_ok_iff.mp rendered
  obtain ⟨dispatch, -, rendered⟩ := Table.bind_ok_iff.mp rendered
  obtain ⟨prologue, -, rendered⟩ := Table.bind_ok_iff.mp rendered
  obtain ⟨interlude, -, rendered⟩ := Table.bind_ok_iff.mp rendered
  obtain ⟨epilogue, -, rendered⟩ := Table.bind_ok_iff.mp rendered
  obtain rfl := Except.ok.inj rendered
  refine ⟨prologue ++ constants, code,
    variableSlots table ++ interlude ++ methods ++ dispatch ++ epilogue, written, ?_⟩
  simp only [String.append_assoc]

end Interpreter

namespace Compilation

open Interpreter

/-- The escaped form of any name, which is made by two replacements, is read back as the name, up to
the quote that was put behind it; no other name has this form. The interpreter source of a compiled
source has the name table in it, and the literals of that table are the names in order. -/
theorem ofText_names_read_back :
    (∀ (name : String) (rest : List Char),
      readLiteral ((escape name).toList ++ '"' :: rest) = some (name.toList, rest)) ∧
    (∀ name, escape name = Text.replace (Text.replace name "\\" "\\\\") "\"" "\\\"") ∧
    Function.Injective escape ∧
    ∀ source filename order compilation,
      (ofText source filename order).outcome = .ok compilation →
      ∃ front back, render compilation.sections compilation.table =
          .ok (front ++ nameTable compilation.table ++ back) ∧
        (lexemes? (nameTable compilation.table).toList).map literals =
          some compilation.table.names.toList := by
  refine ⟨readLiteral_escape, escape_eq_replace, escape_injective, ?_⟩
  intro source filename order compilation returned
  obtain ⟨formed, complete⟩ := ofText_renderable returned
  obtain ⟨text, rendered⟩ := render_isOk formed complete
  obtain ⟨front, code, back, -, rfl⟩ := render_tables rendered
  exact ⟨front, code ++ back, rendered, literals_nameTable compilation.table⟩

/-- A source that defines a word with backslashes and a quote in its name. -/
def quotedSource : String :=
  "/*CONSTS*/\n/*CODE*/\n========\n========\nadd add\n========\n: \\\"\\ ;\n"

theorem ofText_names_read_back_sample :
    readLiteral ((escape "\\\"\\").toList ++ "\" \"".toList) =
        some ("\\\"\\".toList, " \"".toList) ∧
      ∃ compilation front back,
        (ofText quotedSource none .shadowing).outcome = .ok compilation ∧
        render compilation.sections compilation.table =
          .ok (front ++ nameTable compilation.table ++ back) ∧
        (lexemes? (nameTable compilation.table).toList).map literals =
          some ["add", "\\\"\\"] := by
  obtain ⟨reads, -, -, tables⟩ := ofText_names_read_back
  refine ⟨reads _ _, ?_⟩
  have read : Source.read quotedSource none = .ok
      { natives := [{ name := "add", constant := "add", line := some 5 }]
        definitions := [⟨": \\\"\\ ;", some 7⟩] } := by
    decide +kernel
  have evaluated : (ofText quotedSource none .shadowing).outcome.toOption.map
      (fun compilation => compilation.table.names.toList) = some ["add", "\\\"\\"] := by
    rw [ofText, read]
    dsimp only
    rw [ofSections, initialState_of_nodup (by decide +kernel)]
    decide +kernel
  obtain ⟨compilation, present, names⟩ := Option.map_eq_some_iff.mp evaluated
  have returned := Table.ok_of_toOption present
  obtain ⟨front, back, rendered, listed⟩ := tables _ _ _ _ returned
  rw [names] at listed
  exact ⟨compilation, front, back, returned, rendered, listed⟩

end Compilation

end ThreadedCode
