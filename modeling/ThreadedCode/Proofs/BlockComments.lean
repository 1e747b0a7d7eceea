import ThreadedCode.Proofs.WordConstants
import ThreadedCode.Proofs.Sections

/-!
# The comments of an interpreter source

The interpreter source is written from pieces, some of them comments: the number of each name, the
comment on each compiled word, the docs of the native words and that of the dispatch. A comment is
closed if it ends where it is meant to end. `ofText_block_comments` shows that all of them are but
for the docs of native words, which are copied as they stand: such a comment is closed exactly if
the doc does not have the end of a comment in it.
-/

namespace ThreadedCode

open Compiler

namespace Text

/-! ### Replacement -/

/-- A text and what it becomes when the occurrences of a piece are replaced from left to right. -/
inductive Replaced (piece substitute : List Char) : List Char → List Char → Prop
  | nil : Replaced piece substitute [] []
  | hit {text result : List Char} (rest : Replaced piece substitute text result) :
    Replaced piece substitute (piece ++ text) (substitute ++ result)
  | miss {c : Char} {text result : List Char} (other : ¬ piece <+: c :: text)
    (rest : Replaced piece substitute text result) :
    Replaced piece substitute (c :: text) (c :: result)

theorem replaceFrom_skip (piece substitute done text : List Char) (skip : Nat) :
    replaceFrom piece substitute skip done text =
      replaceFrom piece substitute 0 done (text.drop skip) := by
  induction text generalizing skip with
  | nil => simp [replaceFrom]
  | cons c text ih =>
    cases skip with
    | zero => rfl
    | succ skip => rw [replaceFrom, ih, List.drop_succ_cons]

theorem exists_replaced {piece : List Char} (filled : piece ≠ []) (substitute text : List Char) :
    ∃ result, Replaced piece substitute text result ∧
      ∀ done, replaceFrom piece substitute 0 done text = done.reverse ++ result := by
  obtain ⟨first, others, rfl⟩ := List.exists_cons_of_ne_nil filled
  -- An occurrence is passed over as a whole, so the induction is on the length of the text.
  induction size : text.length using Nat.strong_induction_on generalizing text with
  | _ _ ih =>
    subst size
    cases text with
    | nil => exact ⟨[], .nil, fun done => by simp [replaceFrom]⟩
    | cons c text =>
      by_cases found : first :: others <+: c :: text
      · obtain ⟨rest, same⟩ := found
        obtain ⟨rfl, rfl⟩ := List.cons.inj same
        have shorter : rest.length < (first :: (others ++ rest)).length := by
          rw [List.length_cons, List.length_append]
          omega
        obtain ⟨result, replaced, copied⟩ := ih rest.length shorter rest rfl
        refine ⟨substitute ++ result, replaced.hit, fun done => ?_⟩
        rw [replaceFrom, if_pos (by simp), replaceFrom_skip, List.length_cons,
          Nat.add_sub_cancel, List.append_eq, List.drop_left, copied]
        simp
      · obtain ⟨result, replaced, copied⟩ := ih text.length (by simp) text rfl
        refine ⟨c :: result, replaced.miss found, fun done => ?_⟩
        rw [replaceFrom, if_neg (by rwa [List.isPrefixOf_iff_prefix]), copied]
        simp

theorem replaced_replace (text piece substitute : String) (filled : piece.toList ≠ []) :
    Replaced piece.toList substitute.toList text.toList (replace text piece substitute).toList := by
  obtain ⟨result, replaced, copied⟩ := exists_replaced filled substitute.toList text.toList
  rw [replace, copied, String.toList_ofList, List.reverse_nil, List.nil_append]
  exact replaced

/-! ### The end of a comment -/

/-- The characters that end a comment. -/
def closing : List Char := ['*', '/']

@[simp] theorem closing_ne_nil : closing ≠ [] :=
  List.cons_ne_nil _ _

theorem closing_infix_cons {c : Char} {text : List Char} :
    closing <:+: c :: text ↔ (c = '*' ∧ text.head? = some '/') ∨ closing <:+: text := by
  rw [List.infix_cons_iff]
  refine or_congr_left ?_
  cases text with
  | nil => simp [closing]
  | cons d text => simp [closing, eq_comm]

/-- An end of a comment does not reach into a text that begins with another character. -/
theorem closing_infix_append {front back : List Char} (apart : back.head? ≠ some '/') :
    closing <:+: front ++ back ↔ closing <:+: front ∨ closing <:+: back := by
  induction front with
  | nil => simp
  | cons c front ih =>
    have heads : (front ++ back).head? = some '/' ↔ front.head? = some '/' := by
      cases front with
      | nil => simp [apart]
      | cons d front => simp
    rw [List.cons_append, closing_infix_cons, closing_infix_cons, ih, heads, or_assoc]

/-- Behind a text without the end of a comment the first end is the one that was put there. -/
theorem closing_first {text front back : List Char} (apart : ¬ closing <:+: text)
    (same : text ++ closing = front ++ closing ++ back) : back = [] := by
  rcases List.append_eq_append_iff.mp same with ⟨middle, split, rest⟩ | ⟨middle, rfl, -⟩
  · match middle, split, rest with
    | [], split, _ => exact absurd ⟨front, [], by simpa using split⟩ apart
    | [c], split, rest =>
      have last := congrArg List.getLast? split
      obtain ⟨rfl, -⟩ := List.cons.inj rest
      simp [closing] at last
    | _ :: _ :: middle, _, rest =>
      have size := congrArg List.length rest
      simp only [closing, List.length_append, List.length_cons, List.length_nil] at size
      exact List.length_eq_zero_iff.mp (by omega)
  · exact absurd ⟨front, middle, rfl⟩ apart

/-- No end of a comment is left where a space was put into every one, and none is made. -/
theorem Replaced.parted {text result : List Char}
    (replaced : Replaced closing "* /".toList text result) :
    (result.head? = some '/' → text.head? = some '/') ∧ ¬ closing <:+: result := by
  induction replaced with
  | nil => simp
  | hit rest ih => simpa [closing_infix_cons] using ih.2
  | @miss c text result other rest ih =>
    refine ⟨fun first => first, ?_⟩
    rw [closing_infix_cons]
    rintro (⟨rfl, first⟩ | inside)
    · obtain ⟨tail, rfl⟩ := List.head?_eq_some_iff.mp (ih.1 first)
      exact other (by simp [closing])
    · exact ih.2 inside

/-- Starting new lines in a comment neither makes an end of it nor breaks one up. -/
theorem Replaced.broken {text result : List Char}
    (replaced : Replaced "\\n".toList "\n\t * ".toList text result) :
    (result.head? = some '/' ↔ text.head? = some '/') ∧
      (closing <:+: result ↔ closing <:+: text) := by
  induction replaced with
  | nil => exact ⟨Iff.rfl, Iff.rfl⟩
  | hit rest ih => simpa [closing_infix_cons] using ih.2
  | miss other rest ih =>
    exact ⟨Iff.rfl, by rw [closing_infix_cons, closing_infix_cons, ih.1, ih.2]⟩

theorem slash_not_mem_decimal (value : Int) : '/' ∉ (decimal value).toList := by
  have digits : '/' ∉ Nat.toDigits 10 value.natAbs := fun member =>
    absurd (Nat.isDigit_of_mem_toDigits (by decide) (by decide) member) (by decide)
  rw [decimal, String.toList_ofList]
  split
  · simpa using digits
  · exact digits

end Text

namespace Interpreter

open Source (Sections)
open Table (ShapeError row bind_ok_iff mapM_ok_iff)

/-! ### Pieces -/

/-- A piece of the interpreter source: a comment, or text that is none. -/
inductive Piece where
  | text (content : String)
  | comment (content : String)

namespace Piece

def write : Piece → String
  | .text content => content
  | .comment content => "/*" ++ content ++ "*/"

def join (pieces : List Piece) : String :=
  String.join (pieces.map write)

/-- What stands in the comments among some pieces. -/
def comments (pieces : List Piece) : List String :=
  pieces.filterMap fun
    | .text _ => none
    | .comment content => some content

/-- A comment that ends only where it was written to end: no part of it looks like its end. -/
def IsClosed (content : String) : Prop :=
  ∀ front back : String, (comment content).write = front ++ "*/" ++ back → back = ""

theorem join_nil : join [] = "" := rfl

theorem join_cons (piece : Piece) (pieces : List Piece) :
    join (piece :: pieces) = piece.write ++ join pieces := by
  rw [join, List.map_cons, String.join_cons, join]

theorem join_text (content : String) : join [.text content] = content := by
  rw [join_cons, join_nil, write, String.append_empty]

theorem join_append (front back : List Piece) : join (front ++ back) = join front ++ join back := by
  rw [join, List.map_append, String.join_append, join, join]

theorem join_flatten (rows : List (List Piece)) :
    join rows.flatten = String.join (rows.map join) := by
  induction rows with
  | nil => rfl
  | cons row rows ih =>
    rw [List.flatten_cons, join_append, ih, List.map_cons, String.join_cons]

theorem comments_append (front back : List Piece) :
    comments (front ++ back) = comments front ++ comments back :=
  List.filterMap_append

theorem comments_flatten (rows : List (List Piece)) :
    comments rows.flatten = rows.flatMap comments :=
  List.filterMap_flatten ..

end Piece

open Piece (join comments)

/-- The comment on the code of a row. -/
def rowComment (table : Table) (index : Int) : Except ShapeError String := do
  let name ← row table.names index
  let doc ← row table.docs index
  return wordComment index name doc

/-- The doc comment of a native word, whose first character is the second star. -/
def docComment (doc : String) : String :=
  "*\n\t * " ++ Text.replace doc "\\n" "\n\t * " ++ "\n\t "

def dispatchComment : String :=
  "*\n\t * dispatches a word to the appropriate handler.\n" ++
    "\t * @param w  the number of the word.\n\t "

def namePieces (table : Table) : List Piece :=
  [.text "\n\tprivate static final String[] INTERNAL_NAMES = \x7b\n"] ++
    (table.names.toList.zipIdx.map fun (name, index) => [.text ("\t\t\"" ++ escape name ++ "\" "),
      .comment (Text.decimal index), .text ",\n"]).flatten ++
    [.text "\t\x7d;\n\n"]

def rowPieces (table : Table) (index : Int) : Except ShapeError (List Piece) := do
  let code ← row table.codes index
  let comment ← rowComment table index
  match code with
  | some code =>
    return [.text "\t\t\x7b", .comment comment, .text (formatUnits code.toList ++ "\x7d,\n")]
  | none => throw .absentCode

def codePieces (table : Table) : Except ShapeError (List Piece) := do
  let rows ← table.mapCompiled (rowPieces table)
  return [.text "\tprivate static final short[][] INTERNAL_WORDS = \x7b\n"] ++ rows.flatten ++
    [.text "\t\x7d;\n\n"]

def docPieces (doc : Option String) : List Piece :=
  match doc with
  | none | some "" => []
  | some text => [.text "\t", .comment (docComment text), .text "\n"]

def methodPieces (native : Source.Native) (constant : Option String) :
    Except ShapeError (List Piece) := do
  let method ← nativeMethod { native with doc := none } constant
  return docPieces native.doc ++ [.text method]

def methodsPieces (sections : Sections) (table : Table) : Except ShapeError (List Piece) := do
  let methods ← (sections.natives.zip table.constants.toList).mapM fun (native, constant) =>
    methodPieces native constant
  return methods.flatten

def dispatchPieces (table : Table) : Except ShapeError (List Piece) := do
  let natives ← dispatchConstants table
  let width := natives.foldl (fun width constant => max width constant.length) 0
  return [.text "\t", .comment dispatchComment, .text ("\n" ++
    "\tprivate void dostep(short w) \x7b\n\t\tswitch (w) \x7b\n" ++
    String.join (natives.map (caseLine width)) ++
    "\t\t\tdefault:" ++ tabs width 0 ++ "docol(w);\n\t\t\x7d\n\t\x7d\n")]

/-- The pieces that the interpreter source is written from. -/
def pieces (sections : Sections) (table : Table) : Except ShapeError (List Piece) := do
  let constants ← constants sections table
  let code ← codePieces table
  let methods ← methodsPieces sections table
  let dispatch ← dispatchPieces table
  let prologue ← templatePart sections.template.prologue
  let interlude ← templatePart sections.template.interlude
  let epilogue ← templatePart sections.template.epilogue
  return [.text (prologue ++ constants)] ++ namePieces table ++ code ++
    [.text (variableSlots table ++ interlude)] ++ methods ++ dispatch ++ [.text epilogue]

theorem join_namePieces (table : Table) : join (namePieces table) = nameTable table := by
  have line (name : String) (index : Nat) : join [.text ("\t\t\"" ++ escape name ++ "\" "),
      .comment (Text.decimal index), .text ",\n"] = nameLine name index := by
    rw [← String.toList_inj]
    simp [join, Piece.write, nameLine]
  rw [namePieces, Piece.join_append, Piece.join_append, Piece.join_flatten, List.map_map]
  simp only [Function.comp_def, line, Piece.join_text]
  rfl

theorem mapM_join {α : Type} {f : α → Except ShapeError String}
    {g : α → Except ShapeError (List Piece)} (same : ∀ value, f value = join <$> g value)
    (values : List α) : values.mapM f = List.map join <$> values.mapM g := by
  induction values with
  | nil => rfl
  | cons value values ih => simp [same, ih]

theorem codeLine_eq (table : Table) (index : Int) :
    codeLine table index = join <$> rowPieces table index := by
  simp only [codeLine, rowPieces, rowComment, map_bind, bind_assoc, pure_bind]
  refine bind_congr fun code => bind_congr fun name => bind_congr fun doc => ?_
  cases code with
  | none => rfl
  | some code =>
    refine congrArg pure ?_
    rw [← String.toList_inj]
    simp [join, Piece.write]

theorem codeTable_eq (table : Table) : codeTable table = join <$> codePieces table := by
  rw [codeTable, codePieces, Table.mapCompiled_eq, Table.mapCompiled_eq,
    mapM_join (codeLine_eq table)]
  simp only [map_bind, bind_map_left, map_pure, Piece.join_append, Piece.join_flatten,
    Piece.join_text]

theorem join_docPieces (doc : Option String) : join (docPieces doc) = nativeComment doc := by
  unfold docPieces nativeComment
  split
  · rfl
  · rfl
  · rw [← String.toList_inj]
    simp [join, Piece.write, docComment]

theorem nativeMethod_eq (native : Source.Native) (constant : Option String) :
    nativeMethod native constant = join <$> methodPieces native constant := by
  unfold methodPieces nativeMethod
  cases native.body with
  | none => rfl
  | some body =>
    refine congrArg Except.ok ?_
    rw [Piece.join_append, join_docPieces, nativeComment, ← String.toList_inj]
    simp [join, Piece.write, nativeComment]

theorem nativeMethods_eq (sections : Sections) (table : Table) :
    nativeMethods sections table = join <$> methodsPieces sections table := by
  have method (entry : Source.Native × Option String) :
      nativeMethod entry.1 entry.2 = join <$> methodPieces entry.1 entry.2 :=
    nativeMethod_eq entry.1 entry.2
  simp only [nativeMethods, methodsPieces, mapM_join method, map_bind, bind_map_left, map_pure,
    Piece.join_flatten]

theorem dispatch_eq (table : Table) : dispatch table = join <$> dispatchPieces table := by
  have opening : "\t/**\n\t * dispatches a word to the appropriate handler.\n" ++
      "\t * @param w  the number of the word.\n\t */\n" =
      "\t" ++ (Piece.comment dispatchComment).write ++ "\n" := by decide +kernel
  simp only [dispatch, opening, dispatchPieces, map_bind, map_pure, Piece.join_cons, Piece.join_nil,
    Piece.write, String.append_assoc, String.append_empty]

/-- The interpreter source is the pieces one after another. -/
theorem render_eq (sections : Sections) (table : Table) :
    render sections table = join <$> pieces sections table := by
  simp only [render, pieces, codeTable_eq, nativeMethods_eq, dispatch_eq, map_bind, bind_map_left,
    map_pure, Piece.join_append, join_namePieces, Piece.join_text, String.append_assoc]

/-! ### Closed comments -/

theorem isClosed_iff {content : String} :
    Piece.IsClosed content ↔ ¬ Text.closing <:+: '*' :: content.toList := by
  have parts (front back : String) : (Piece.comment content).write = front ++ "*/" ++ back ↔
      '/' :: '*' :: content.toList ++ Text.closing =
        front.toList ++ Text.closing ++ back.toList := by
    rw [← String.toList_inj]
    simp [Piece.write, Text.closing]
  constructor
  · rintro closed ⟨front, back, same⟩
    have early := closed (String.ofList ('/' :: front)) (String.ofList back ++ "*/") <| by
      rw [parts, ← same]
      simp [Text.closing]
    simp [← String.toList_inj] at early
  · intro apart front back same
    have whole : ¬ Text.closing <:+: '/' :: '*' :: content.toList := by
      simpa [Text.closing_infix_cons] using apart
    exact String.toList_eq_nil_iff.mp (Text.closing_first whole ((parts front back).mp same))

theorem isClosed_decimal (value : Int) : Piece.IsClosed (Text.decimal value) := by
  rw [isClosed_iff]
  intro inside
  have slash : '/' ∈ '*' :: (Text.decimal value).toList :=
    inside.subset (by simp [Text.closing])
  exact Text.slash_not_mem_decimal value (by simpa using slash)

theorem isClosed_wordComment (index : Int) (name : String) (doc : Option String) :
    Piece.IsClosed (wordComment index name doc) := by
  have first : (Text.decimal index ++ " " ++ name ++ Table.docSuffix doc).toList.head? ≠
      some '/' := by
    have digits := Text.slash_not_mem_decimal index
    intro slash
    cases same : (Text.decimal index).toList with
    | nil => simp [same] at slash
    | cons c rest =>
      rw [same] at digits
      simp only [String.toList_append, same, List.cons_append, List.head?_cons,
        Option.some.injEq] at slash
      exact digits (slash ▸ List.mem_cons_self)
  have replaced : Text.Replaced Text.closing "* /".toList _ (wordComment index name doc).toList :=
    Text.replaced_replace _ "*/" _ (by decide)
  rw [isClosed_iff, Text.closing_infix_cons]
  rintro (⟨-, slash⟩ | inside)
  · exact first (replaced.parted.1 slash)
  · exact replaced.parted.2 inside

theorem isClosed_rowComments {table : Table} {words : List String}
    (made : table.mapCompiled (rowComment table) = .ok words) :
    ∀ content ∈ words, Piece.IsClosed content := by
  rw [Table.mapCompiled_eq, mapM_ok_iff] at made
  generalize table.compiledRows = indices at made
  induction made with
  | nil => simp
  | @cons index content _ _ found others ih =>
    obtain ⟨name, -, found⟩ := bind_ok_iff.mp found
    obtain ⟨doc, -, same⟩ := bind_ok_iff.mp found
    obtain rfl := Except.ok.inj same
    exact List.forall_mem_cons.mpr ⟨isClosed_wordComment index name doc, ih⟩

theorem isClosed_docComment_iff (doc : String) :
    Piece.IsClosed (docComment doc) ↔ ¬ Text.closing <:+: doc.toList := by
  have replaced := Text.replaced_replace doc "\\n" "\n\t * " (by decide)
  rw [isClosed_iff, not_iff_not, docComment, String.toList_append, String.toList_append,
    ← List.cons_append, Text.closing_infix_append (by simp)]
  simp [Text.closing_infix_cons, replaced.broken.2]

theorem isClosed_dispatchComment : Piece.IsClosed dispatchComment := by
  rw [isClosed_iff, ← Text.occursIn_iff]
  decide +kernel

/-! ### The comments of the source -/

/-- The numbers of the names. -/
def indexComments (table : Table) : List String :=
  (List.range table.names.size).map fun index : Nat => Text.decimal index

/-- The docs of the native words that have one. -/
def nativeDocs (sections : Sections) : List String :=
  sections.natives.flatMap fun native => native.doc.toList.filter (· ≠ "")

theorem comments_namePieces (table : Table) :
    comments (namePieces table) = indexComments table := by
  have numbers : table.names.toList.zipIdx.map Prod.snd = List.range table.names.size := by
    simp [List.range_eq_range']
  rw [namePieces, Piece.comments_append, Piece.comments_append, Piece.comments_flatten,
    List.flatMap_map, indexComments, ← numbers, List.map_map, List.map_eq_flatMap]
  exact List.append_nil _

theorem comments_rowPieces {table : Table} {index : Int} {written : List Piece}
    (found : rowPieces table index = .ok written) :
    ∃ comment, rowComment table index = .ok comment ∧ comments written = [comment] := by
  obtain ⟨code, -, found⟩ := bind_ok_iff.mp found
  obtain ⟨comment, made, found⟩ := bind_ok_iff.mp found
  cases code with
  | none => cases found
  | some code =>
    obtain rfl := Except.ok.inj found
    exact ⟨comment, made, rfl⟩

theorem comments_rows {table : Table} {indices : List Int} {rows : List (List Piece)}
    (listed : List.Forall₂ (fun index row => rowPieces table index = .ok row) indices rows) :
    List.Forall₂ (fun index comment => rowComment table index = .ok comment) indices
      (comments rows.flatten) := by
  induction listed with
  | nil => exact .nil
  | cons found others ih =>
    obtain ⟨comment, made, same⟩ := comments_rowPieces found
    rw [List.flatten_cons, Piece.comments_append, same]
    exact .cons made ih

theorem comments_codePieces {table : Table} {written : List Piece}
    (found : codePieces table = .ok written) :
    table.mapCompiled (rowComment table) = .ok (comments written) := by
  obtain ⟨rows, listed, same⟩ := bind_ok_iff.mp found
  obtain rfl := Except.ok.inj same
  rw [Table.mapCompiled_eq, mapM_ok_iff] at listed ⊢
  rw [Piece.comments_append, Piece.comments_append]
  simpa [comments] using comments_rows listed

theorem comments_methodPieces {native : Source.Native} {constant : Option String}
    {written : List Piece} (found : methodPieces native constant = .ok written) :
    comments written = (native.doc.toList.filter (· ≠ "")).map docComment := by
  obtain ⟨method, -, same⟩ := bind_ok_iff.mp found
  obtain rfl := Except.ok.inj same
  rw [Piece.comments_append]
  unfold docPieces
  split
  · rename_i absent
    simp [comments, absent]
  · rename_i empty
    simp [comments, empty]
  · rename_i doc filled present
    have kept : [doc].filter (· ≠ "") = [doc] := List.filter_eq_self.mpr (by simpa using filled)
    rw [present, Option.toList_some, kept]
    rfl

theorem comments_methods {entries : List (Source.Native × Option String)}
    {methods : List (List Piece)} (listed : List.Forall₂
      (fun entry method => methodPieces entry.1 entry.2 = .ok method) entries methods) :
    comments methods.flatten = ((entries.map Prod.fst).flatMap fun native =>
      native.doc.toList.filter (· ≠ "")).map docComment := by
  induction listed with
  | nil => rfl
  | cons found others ih =>
    rw [List.flatten_cons, Piece.comments_append, ih, comments_methodPieces found, List.map_cons,
      List.flatMap_cons, List.map_append]

theorem comments_methodsPieces {sections : Sections} {table : Table} {written : List Piece}
    (enough : sections.natives.length ≤ table.constants.size)
    (found : methodsPieces sections table = .ok written) :
    comments written = (nativeDocs sections).map docComment := by
  obtain ⟨methods, listed, same⟩ := bind_ok_iff.mp found
  obtain rfl := Except.ok.inj same
  rw [comments_methods (mapM_ok_iff.mp listed), List.map_fst_zip (by simpa using enough),
    nativeDocs]

theorem comments_dispatchPieces {table : Table} {written : List Piece}
    (found : dispatchPieces table = .ok written) : comments written = [dispatchComment] := by
  obtain ⟨natives, -, same⟩ := bind_ok_iff.mp found
  obtain rfl := Except.ok.inj same
  rfl

theorem comments_pieces {sections : Sections} {table : Table} {written : List Piece}
    (enough : sections.natives.length ≤ table.constants.size)
    (found : pieces sections table = .ok written) :
    ∃ words, table.mapCompiled (rowComment table) = .ok words ∧
      comments written = indexComments table ++ words ++ (nativeDocs sections).map docComment ++
        [dispatchComment] := by
  obtain ⟨_, -, found⟩ := bind_ok_iff.mp found
  obtain ⟨code, words, found⟩ := bind_ok_iff.mp found
  obtain ⟨methods, docs, found⟩ := bind_ok_iff.mp found
  obtain ⟨dispatch, cases, found⟩ := bind_ok_iff.mp found
  obtain ⟨_, -, found⟩ := bind_ok_iff.mp found
  obtain ⟨_, -, found⟩ := bind_ok_iff.mp found
  obtain ⟨_, -, found⟩ := bind_ok_iff.mp found
  obtain rfl := Except.ok.inj found
  refine ⟨comments code, comments_codePieces words, ?_⟩
  simp only [Piece.comments_append, comments_namePieces, comments_methodsPieces enough docs,
    comments_dispatchPieces cases]
  simp [comments]

end Interpreter

namespace Compilation

open Interpreter

theorem natives_have_constants {source : String} {filename : Option String} {order : Order}
    {compilation : Compilation}
    (returned : (ofText source filename order).outcome = .ok compilation) :
    compilation.sections.natives.length ≤ compilation.table.constants.size := by
  obtain ⟨start, log, final, -, started, runs, -, -, table, -⟩ := ofText_ok returned
  obtain ⟨-, catalog, -⟩ := initialState_ok started
  have same : final.finish.1.catalog = catalogOf compilation.sections.natives :=
    (congrArg Setup.catalog runs.finish_frame.1).trans catalog
  have size : (catalogOf compilation.sections.natives).words.size =
      compilation.sections.natives.length := by
    simpa using congrArg List.length (words_catalogOf compilation.sections.natives)
  rw [table, tableOf, Table.assemble, same]
  simp [size]

theorem ofText_pieces {source : String} {filename : Option String} {order : Order}
    {compilation : Compilation}
    (returned : (ofText source filename order).outcome = .ok compilation) :
    ∃ written words,
      pieces compilation.sections compilation.table = .ok written ∧
      render compilation.sections compilation.table = .ok (Piece.join written) ∧
      compilation.table.mapCompiled (rowComment compilation.table) = .ok words ∧
      Piece.comments written = indexComments compilation.table ++ words ++
        (nativeDocs compilation.sections).map docComment ++ [dispatchComment] := by
  obtain ⟨formed, complete⟩ := ofText_renderable returned
  obtain ⟨text, rendered⟩ := render_isOk formed complete
  have whole := render_eq compilation.sections compilation.table
  cases found : pieces compilation.sections compilation.table with
  | error problem =>
    rw [rendered, found] at whole
    cases whole
  | ok written =>
    obtain ⟨words, made, listed⟩ := comments_pieces (natives_have_constants returned) found
    exact ⟨written, words, rfl, by rw [whole, found]; rfl, made, listed⟩

/-- In the interpreter source of a compiled source, all comments are closed but for the docs of
native words; such a comment is closed exactly if the doc does not have the end of a comment in
it. -/
theorem ofText_block_comments {source : String} {filename : Option String} {order : Order}
    {compilation : Compilation}
    (returned : (ofText source filename order).outcome = .ok compilation) :
    ∃ written words,
      pieces compilation.sections compilation.table = .ok written ∧
      render compilation.sections compilation.table = .ok (Piece.join written) ∧
      compilation.table.mapCompiled (rowComment compilation.table) = .ok words ∧
      Piece.comments written = indexComments compilation.table ++ words ++
        (nativeDocs compilation.sections).map docComment ++ [dispatchComment] ∧
      (∀ content ∈ indexComments compilation.table ++ words ++ [dispatchComment],
        Piece.IsClosed content) ∧
      ∀ doc ∈ nativeDocs compilation.sections,
        Piece.IsClosed (docComment doc) ↔ ¬ Text.closing <:+: doc.toList := by
  obtain ⟨written, words, found, rendered, made, listed⟩ := ofText_pieces returned
  refine ⟨written, words, found, rendered, made, listed, ?_, fun doc _ =>
    isClosed_docComment_iff doc⟩
  intro content member
  rcases List.mem_append.mp member with member | member
  · rcases List.mem_append.mp member with number | word
    · obtain ⟨index, -, rfl⟩ := List.mem_map.mp number
      exact isClosed_decimal index
    · exact isClosed_rowComments made content word
  · rw [List.mem_singleton.mp member]
    exact isClosed_dispatchComment

/-- A source with a native word that has a doc, and a compiled word with the end of a comment in its
name and in its doc. -/
def commentedSource (doc : String) : String :=
  "/*CONSTS*/\n/*CODE*/\n========\n========\nadd add " ++ doc ++
    "\n========\n: */ ( a */ b ) ;\n"

def commentedSections (doc : String) : Source.Sections where
  natives := [{ name := "add", constant := "add", doc := some doc, line := some 5 }]
  definitions := [⟨": */ ( a */ b ) ;", some 7⟩]

theorem commentedSource_compiles (doc : String) (allowed : doc ∈ ["a *\\n/ b", "a */ b"]) :
    ∃ compilation, (ofText (commentedSource doc) none .shadowing).outcome = .ok compilation ∧
      indexComments compilation.table = ["0", "1"] ∧ nativeDocs compilation.sections = [doc] ∧
      compilation.table.mapCompiled (rowComment compilation.table) =
        .ok ["1 * / ( a * / b )"] := by
  have read : Source.read (commentedSource doc) none = .ok (commentedSections doc) := by
    revert doc
    decide +kernel
  have evaluated : (ofText (commentedSource doc) none .shadowing).outcome.toOption.map
      (fun compilation => (indexComments compilation.table, nativeDocs compilation.sections,
        (compilation.table.mapCompiled (rowComment compilation.table)).toOption)) =
      some (["0", "1"], [doc], some ["1 * / ( a * / b )"]) := by
    rw [ofText, read]
    dsimp only
    rw [ofSections, initialState_of_nodup (by revert doc; decide +kernel)]
    revert doc
    decide +kernel
  obtain ⟨compilation, present, parts⟩ := Option.map_eq_some_iff.mp evaluated
  simp only [Prod.mk.injEq] at parts
  exact ⟨compilation, Table.ok_of_toOption present, parts.1, parts.2.1,
    Table.ok_of_toOption parts.2.2⟩

theorem ofText_block_comments_sample :
    ∃ compilation written,
      (ofText (commentedSource "a *\\n/ b") none .shadowing).outcome = .ok compilation ∧
      pieces compilation.sections compilation.table = .ok written ∧
      render compilation.sections compilation.table = .ok (Piece.join written) ∧
      Piece.comments written =
        ["0", "1", "1 * / ( a * / b )", "*\n\t * a *\n\t * / b\n\t ", dispatchComment] ∧
      ∀ content ∈ Piece.comments written, Piece.IsClosed content := by
  obtain ⟨compilation, returned, numbers, docs, words⟩ :=
    commentedSource_compiles "a *\\n/ b" (by simp)
  obtain ⟨written, _, found, rendered, again, listed, closed, doc⟩ :=
    ofText_block_comments returned
  obtain rfl := Except.ok.inj (words.symm.trans again)
  rw [numbers] at listed closed
  rw [docs] at listed doc
  have documented : Piece.IsClosed (docComment "a *\\n/ b") :=
    (doc _ List.mem_cons_self).mpr (by rw [← Text.occursIn_iff]; decide)
  refine ⟨compilation, written, returned, found, rendered, ?_, ?_⟩
  · rw [listed]
    decide +kernel
  · rw [listed]
    intro content member
    rcases List.mem_append.mp member with member | last
    · rcases List.mem_append.mp member with front | native
      · exact closed content (List.mem_append_left _ front)
      · rwa [List.mem_singleton.mp native]
    · exact closed content (List.mem_append_right _ last)

/-- A doc with the end of a comment in it ends its comment early. -/
theorem doc_ends_comment :
    ∃ compilation written,
      (ofText (commentedSource "a */ b") none .shadowing).outcome = .ok compilation ∧
      pieces compilation.sections compilation.table = .ok written ∧
      render compilation.sections compilation.table = .ok (Piece.join written) ∧
      Piece.comments written =
        ["0", "1", "1 * / ( a * / b )", "*\n\t * a */ b\n\t ", dispatchComment] ∧
      ¬ Piece.IsClosed "*\n\t * a */ b\n\t " := by
  obtain ⟨compilation, returned, numbers, docs, words⟩ :=
    commentedSource_compiles "a */ b" (by simp)
  obtain ⟨written, _, found, rendered, again, listed⟩ := ofText_pieces returned
  obtain rfl := Except.ok.inj (words.symm.trans again)
  rw [numbers, docs] at listed
  refine ⟨compilation, written, returned, found, rendered, ?_, ?_⟩
  · rw [listed]
    decide +kernel
  · rw [isClosed_iff, not_not, ← Text.occursIn_iff]
    decide +kernel

end Compilation

end ThreadedCode
