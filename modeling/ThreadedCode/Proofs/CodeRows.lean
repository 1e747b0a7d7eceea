import ThreadedCode.Proofs.Literals
import ThreadedCode.Proofs.StringLiterals

/-!
# The code in the interpreter source

The units of a row are written as signed numbers with commas between them, now and then on a new
line. Cut at the commas they are the numbers that went in, whatever the number of lines, and modulo
65536 a signed number is the unit again. The rows of the code table are those of the compiled words
in order (`ofText_code_reads_back`).
-/

namespace ThreadedCode

open Compiler

namespace Interpreter

/-! ### The units of a row -/

/-- Reads numbers with commas between them. -/
def readUnits (text : List Char) : Option (List Int) :=
  (text.splitOn ',').mapM fun piece => Text.integer? (Text.trim piece)

/-- The units from a place on, with what stands before each. -/
def unitsFrom (place : Nat) (units : List Int) : List Char :=
  (units.zipIdx place).flatMap fun (unit, place) =>
    (separator place ++ Text.decimal (Code.signed unit)).toList

theorem unitsFrom_cons (place : Nat) (unit : Int) (units : List Int) :
    unitsFrom place (unit :: units) = (separator place).toList ++
      (Text.decimal (Code.signed unit)).toList ++ unitsFrom (place + 1) units := by
  rw [unitsFrom, List.zipIdx_cons, List.flatMap_cons, ← String.toList_append]
  rfl

theorem toList_formatUnits (units : List Int) : (formatUnits units).toList = unitsFrom 0 units := by
  rw [formatUnits, String.toList_join, List.flatMap_map, unitsFrom]

theorem separator_eq {place : Nat} (later : 0 < place) :
    ∃ gap, (∀ c ∈ gap, Text.isBlank c = true) ∧ (separator place).toList = ',' :: gap := by
  rw [separator, if_neg (Nat.ne_of_gt later)]
  split
  · exact ⟨" \n\t\t\t".toList, List.all_eq_true.mp (by decide), rfl⟩
  · exact ⟨" ".toList, List.all_eq_true.mp (by decide), rfl⟩

theorem readUnits_append (front back : List Char) :
    readUnits (front ++ ',' :: back) = do
      let before ← readUnits front
      let behind ← readUnits back
      return before ++ behind := by
  rw [readUnits, List.splitOn_eq_splitOnP, List.splitOnP_append_cons _ _ (by simp),
    List.mapM_append]
  rfl

theorem readUnits_decimal {gap : List Char} (blank : ∀ c ∈ gap, Text.isBlank c = true)
    (value : Int) : readUnits (gap ++ (Text.decimal value).toList) = some [value] := by
  have noComma : ',' ∉ gap ++ (Text.decimal value).toList := by
    intro member
    rcases List.mem_append.mp member with inGap | inNumber
    · exact absurd (blank _ inGap) (by decide)
    · rcases Text.mem_decimal inNumber with minus | digit
      · exact absurd minus (by decide)
      · exact absurd digit (by decide)
  rw [readUnits, List.splitOn_eq_singleton noComma, List.mapM_cons, List.mapM_nil,
    Text.trim_visible blank fun c => Text.decimal_visible, Text.integer?_decimal]
  rfl

/-- Where the units in front are read, so are those that follow. -/
theorem readUnits_unitsFrom {front : List Char} {values : List Int}
    (read : readUnits front = some values) {place : Nat} (later : 0 < place) (units : List Int) :
    readUnits (front ++ unitsFrom place units) = some (values ++ units.map Code.signed) := by
  -- Each step moves one unit to the front, so that only the first needs no comma before it.
  induction units generalizing front values place with
  | nil => simpa [unitsFrom] using read
  | cons unit units ih =>
    obtain ⟨gap, blank, same⟩ := separator_eq later
    have next : readUnits (front ++ ',' :: (gap ++ (Text.decimal (Code.signed unit)).toList)) =
        some (values ++ [Code.signed unit]) := by
      rw [readUnits_append, read, readUnits_decimal blank]
      rfl
    have text : front ++ unitsFrom place (unit :: units) =
        front ++ ',' :: (gap ++ (Text.decimal (Code.signed unit)).toList) ++
          unitsFrom (place + 1) units := by
      simp [unitsFrom_cons, same]
    rw [text, ih next (Nat.succ_pos place), List.map_cons, List.append_assoc]
    rfl

theorem readUnits_formatUnits {units : List Int} (filled : units ≠ []) :
    readUnits (formatUnits units).toList = some (units.map Code.signed) := by
  obtain ⟨first, others, rfl⟩ := List.exists_cons_of_ne_nil filled
  have head : readUnits (Text.decimal (Code.signed first)).toList = some [Code.signed first] :=
    @readUnits_decimal [] (by simp) _
  rw [toList_formatUnits, unitsFrom_cons]
  exact readUnits_unitsFrom head Nat.one_pos others

example : readUnits (formatUnits (1 :: List.replicate 16 65535)).toList =
    some (1 :: List.replicate 16 (-1)) := by
  decide +kernel

/-! ### Rows -/

theorem separator_subset (place : Nat) : (separator place).toList ⊆ ", \n\t".toList := by
  unfold separator
  split
  · decide
  · split <;> decide

/-- A row of units has nothing in it but numbers and what stands between them. -/
theorem notMem_formatUnits {units : List Int} {c : Char} (noDigit : Text.isAsciiDigit c = false)
    (other : c ∉ "-, \n\t".toList) : c ∉ (formatUnits units).toList := by
  intro member
  rw [toList_formatUnits, unitsFrom] at member
  obtain ⟨⟨unit, place⟩, -, inside⟩ := List.mem_flatMap.mp member
  dsimp only at inside
  rw [String.toList_append] at inside
  rcases List.mem_append.mp inside with between | number
  · exact other (List.mem_cons_of_mem '-' (separator_subset place between))
  · rcases Text.mem_decimal number with rfl | digit
    · exact other (by decide)
    · simp [noDigit] at digit

/-- The symbols among some lexemes. -/
def symbols (found : List Lexeme) : List Char :=
  found.filterMap fun
    | .symbol c => some c
    | .literal _ => none

/-- Reads the units of each row between braces, of which the outer ones are not those of a row. -/
def readRows (text : List Char) : Option (List (List Int)) := do
  let found ← lexemes? text
  (((symbols found).splitOn '\x7b').drop 2).mapM fun row => readUnits (row.takeWhile (· ≠ '\x7d'))

theorem symbols_map (text : List Char) : symbols (text.map .symbol) = text := by
  simp [symbols, List.filterMap_map]

/-- What is left of a row without its comment. -/
def rowText (code : List Int) : List Char :=
  "\t\t".toList ++ '\x7b' :: ((formatUnits code).toList ++ "\x7d,\n".toList)

theorem reads_codeLine {table : Table} {index : Int} {line : String}
    (written : codeLine table index = .ok line) :
    ∃ code, Table.row table.codes index = .ok (some code) ∧
      Reads line.toList ((rowText code.toList).map .symbol) := by
  obtain ⟨code, stored, written⟩ := Table.bind_ok_iff.mp written
  obtain ⟨name, -, written⟩ := Table.bind_ok_iff.mp written
  obtain ⟨doc, -, written⟩ := Table.bind_ok_iff.mp written
  cases code with
  | none => cases written
  | some code =>
    obtain rfl := Except.ok.inj written
    refine ⟨code, stored, ?_⟩
    have opening : Reads "\t\t\x7b".toList _ := .symbols (by decide)
    have comment := Reads.comment (isClosed_wordComment index name doc)
    have plain : (formatUnits code.toList).toList.all isSymbol = true := by
      rw [List.all_eq_true]
      intro c member
      have noQuote : c ≠ '"' := fun quote =>
        notMem_formatUnits (by decide) (by decide) (quote ▸ member)
      have noSlash : c ≠ '/' := fun slash =>
        notMem_formatUnits (by decide) (by decide) (slash ▸ member)
      simp [isSymbol, noQuote, noSlash]
    have units : Reads (formatUnits code.toList).toList _ := .symbols plain
    have ending : Reads "\x7d,\n".toList _ := .symbols (by decide)
    have whole := (opening.append comment).append (units.append ending)
    have text : ("\t\t\x7b/*" ++ wordComment index name doc ++ "*/" ++ formatUnits code.toList ++
        "\x7d,\n").toList = "\t\t\x7b".toList ++
          (Piece.comment (wordComment index name doc)).write.toList ++
          ((formatUnits code.toList).toList ++ "\x7d,\n".toList) := by
      simp [Piece.write]
    rw [text]
    simpa [rowText] using whole

theorem reads_codeLines {table : Table} {indices : List Int} {lines : List String}
    (written : List.Forall₂ (fun index line => codeLine table index = .ok line) indices lines) :
    ∃ codes : List (Array Int),
      List.Forall₂ (fun index code => Table.row table.codes index = .ok (some code)) indices codes ∧
        Reads (String.join lines).toList
          ((codes.flatMap fun code => rowText code.toList).map .symbol) := by
  induction written with
  | nil => exact ⟨[], .nil, .nil⟩
  | cons found others ih =>
    obtain ⟨code, stored, first⟩ := reads_codeLine found
    obtain ⟨codes, rows, behind⟩ := ih
    refine ⟨code :: codes, .cons stored rows, ?_⟩
    rw [String.join_cons, String.toList_append, List.flatMap_cons, List.map_append]
    exact first.append behind

/-- The numbers of a row end at its brace. -/
theorem readUnits_row {code : List Int} (filled : code ≠ []) (behind : List Char) :
    readUnits (((formatUnits code).toList ++ '\x7d' :: behind).takeWhile (· ≠ '\x7d')) =
      some (code.map Code.signed) := by
  have inside : ∀ c ∈ (formatUnits code).toList, decide (c ≠ '\x7d') = true := by
    rintro c member
    refine decide_eq_true ?_
    rintro rfl
    exact notMem_formatUnits (by decide) (by decide) member
  rw [List.takeWhile_append_of_pos inside, List.takeWhile_cons_of_neg (by decide),
    List.append_nil, readUnits_formatUnits filled]

/-- Cut at the braces that open a row, the rows follow what is in front of the first. -/
theorem readUnits_rows {front ending : List Char} (before : '\x7b' ∉ front)
    (ended : '\x7b' ∉ ending) {codes : List (List Int)} (filled : ∀ code ∈ codes, code ≠ []) :
    ∃ behind rows,
      (front ++ codes.flatMap rowText ++ ending).splitOn '\x7b' = (front ++ behind) :: rows ∧
      rows.mapM (fun row => readUnits (row.takeWhile (· ≠ '\x7d'))) =
        some (codes.map (List.map Code.signed)) := by
  -- What ends a row is read as the front of the next piece, up to the brace that opens it.
  induction codes generalizing front with
  | nil =>
    refine ⟨ending, [], ?_, rfl⟩
    rw [List.flatMap_nil, List.append_nil,
      List.splitOn_eq_singleton (by simp [before, ended])]
  | cons code codes ih =>
    obtain ⟨first, others⟩ := List.forall_mem_cons.mp filled
    have inside : '\x7b' ∉ (formatUnits code).toList ++ "\x7d,\n".toList := by
      have plain : '\x7b' ∉ (formatUnits code).toList := notMem_formatUnits (by decide) (by decide)
      simp [plain]
    obtain ⟨behind, rows, split, read⟩ := ih inside others
    refine ⟨"\t\t".toList, ((formatUnits code).toList ++ "\x7d,\n".toList ++ behind) :: rows,
      ?_, ?_⟩
    · have text : front ++ (code :: codes).flatMap rowText ++ ending =
          (front ++ "\t\t".toList) ++ '\x7b' ::
            ((formatUnits code).toList ++ "\x7d,\n".toList ++ codes.flatMap rowText ++ ending) := by
        simp [rowText]
      rw [text, List.splitOn_eq_splitOnP, List.splitOnP_append_cons _ _ (by simp),
        ← List.splitOn_eq_splitOnP, ← List.splitOn_eq_splitOnP, split,
        List.splitOn_eq_singleton (by simp [before])]
      rfl
    · have row : (formatUnits code).toList ++ "\x7d,\n".toList ++ behind =
          (formatUnits code).toList ++ '\x7d' :: (",\n".toList ++ behind) := by
        simp
      rw [List.mapM_cons, row, readUnits_row first, read]
      rfl

theorem readRows_codeTable {table : Table} {text : String} (written : codeTable table = .ok text) :
    ∃ codes : List (Array Int),
      List.Forall₂ (fun index code => Table.row table.codes index = .ok (some code))
        table.compiledRows codes ∧
      ((∀ code ∈ codes, code.toList ≠ []) →
        readRows text.toList = some (codes.map fun code => code.toList.map Code.signed)) := by
  obtain ⟨lines, listed, same⟩ := Table.bind_ok_iff.mp written
  obtain rfl := Except.ok.inj same
  rw [Table.mapCompiled_eq, Table.mapM_ok_iff] at listed
  obtain ⟨codes, rows, reads⟩ := reads_codeLines listed
  refine ⟨codes, rows, fun filled => ?_⟩
  have opening : "\tprivate static final short[][] INTERNAL_WORDS = \x7b\n".toList =
      "\tprivate static final short[][] INTERNAL_WORDS = ".toList ++ '\x7b' :: "\n".toList := by
    decide +kernel
  have noBrace : '\x7b' ∉ "\tprivate static final short[][] INTERNAL_WORDS = ".toList := by
    decide +kernel
  have whole : Reads ("\tprivate static final short[][] INTERNAL_WORDS = \x7b\n" ++
      String.join lines ++ "\t\x7d;\n\n").toList _ :=
    reads.enclosed (by decide +kernel) (by decide)
  obtain ⟨behind, parts, split, read⟩ := @readUnits_rows "\n".toList "\t\x7d;\n\n".toList
    (by decide) (by decide) (codes.map Array.toList) (by simpa using filled)
  rw [← List.map_append, ← List.map_append] at whole
  rw [List.flatMap_map] at split
  -- The first cut is at the brace of the table itself, which no row stands in front of.
  rw [readRows, whole.lexemes?_eq, opening]
  simp only [Option.bind_eq_bind, Option.bind_some, symbols_map]
  rw [List.append_assoc, List.append_assoc, List.cons_append, List.splitOn_eq_splitOnP,
    List.splitOnP_append_cons _ _ (by simp), ← List.splitOn_eq_splitOnP,
    ← List.splitOn_eq_splitOnP, List.splitOn_eq_singleton noBrace, ← List.append_assoc, split]
  rw [List.map_map] at read
  exact read

theorem drop_of_rows {α : Type} {column : Array (Option α)} {first : Nat} {values : List α}
    (rows : List.Forall₂ (fun index value => Table.row column index = .ok (some value))
      (Position.span first column.size) values) :
    column.toList.drop first = values.map some := by
  obtain ⟨lengths, each⟩ := List.forall₂_iff_get.mp rows
  have size : values.length = column.size - first := by
    simp only [Position.span, List.length_map, List.length_range] at lengths
    omega
  refine List.ext_getElem (by simp [size]) fun place inside _ => ?_
  have bound : first + place < column.size := by
    simp only [List.length_drop, Array.length_toList] at inside
    omega
  have listed : place < (Position.span first column.size).length := by
    rw [lengths, size]
    omega
  have index : (Position.span first column.size).get ⟨place, listed⟩ =
      ((first + place : Nat) : Int) := by
    simp [Position.span]
  have found := each place listed (lengths ▸ listed)
  rw [index, Table.row_of_getElem? (Array.getElem?_eq_getElem bound)] at found
  simpa using Except.ok.inj found

theorem compiled_codes {table : Table} (formed : table.WellFormed) {codes : List (Array Int)}
    (stored : List.Forall₂ (fun index code => Table.row table.codes index = .ok (some code))
      table.compiledRows codes) :
    table.codes.toList.drop table.nativeCount.toNat = codes.map some := by
  have count := Int.toNat_of_nonneg formed.counts.1
  refine drop_of_rows ?_
  rwa [count, formed.codes]

theorem row_filled {table : Table} (formed : table.WellFormed) {codes : List (Array Int)}
    (listed : table.codes.toList.drop table.nativeCount.toNat = codes.map some) {code : Array Int}
    (member : code ∈ codes) : code.toList ≠ [] := by
  have count := Int.toNat_of_nonneg formed.counts.1
  obtain ⟨place, there⟩ := List.getElem?_of_mem (List.mem_map_of_mem (f := some) member)
  rw [← listed, List.getElem?_drop, Array.getElem?_toList] at there
  have inside := (Array.getElem?_eq_some_iff.mp there).1
  obtain ⟨found, flags, stored, first, -⟩ :=
    formed.compiled (table.nativeCount.toNat + place) (by omega) (formed.codes ▸ inside)
  obtain rfl := Option.some.inj (Option.some.inj (there.symm.trans stored))
  intro empty
  simp [Array.toList_eq_nil_iff.mp empty] at first

end Interpreter

namespace Compilation

open Interpreter

theorem signed_bounds (unit : Int) : -32768 ≤ Code.signed unit ∧ Code.signed unit ≤ 32767 := by
  have least := Code.toUnit_nonneg unit
  have most := Code.toUnit_lt unit
  unfold Code.signed
  split <;> omega

theorem units_signed {units : List Int} (bounded : ∀ unit ∈ units, 0 ≤ unit ∧ unit ≤ 65535) :
    (∀ value ∈ units.map Code.signed, -32768 ≤ value ∧ value ≤ 32767) ∧
      (units.map Code.signed).map (· % 65536) = units := by
  constructor
  · rintro value member
    obtain ⟨unit, -, rfl⟩ := List.mem_map.mp member
    exact signed_bounds unit
  · rw [List.map_map]
    refine (List.map_congr_left fun unit listed => ?_).trans (List.map_id units)
    obtain ⟨positive, most⟩ := bounded unit listed
    exact (Code.toUnit_signed unit).trans (Int.emod_eq_of_lt positive (by omega))

/-- Any units of a row, if there are any, are read back as signed 16-bit numbers congruent to them.
The interpreter source of a compiled source whose units fit 16 bits has the code table in it, and
the rows of that table are read back as the code of all compiled words in order. -/
theorem ofText_code_reads_back :
    (∀ units : List Int, units ≠ [] → (∀ unit ∈ units, 0 ≤ unit ∧ unit ≤ 65535) →
      ∃ values, readUnits (formatUnits units).toList = some values ∧
        (∀ value ∈ values, -32768 ≤ value ∧ value ≤ 32767) ∧
        values.map (· % 65536) = units) ∧
    ∀ source filename order compilation,
      (ofText source filename order).outcome = .ok compilation →
      (∀ code, some code ∈ compilation.table.codes → ∀ unit ∈ code, 0 ≤ unit ∧ unit ≤ 65535) →
      ∃ front written back, ∃ codes : List (Array Int), ∃ rows,
        render compilation.sections compilation.table = .ok (front ++ written ++ back) ∧
        codeTable compilation.table = .ok written ∧
        compilation.table.codes.toList.drop compilation.table.nativeCount.toNat =
          codes.map some ∧
        readRows written.toList = some rows ∧
        (∀ row ∈ rows, ∀ value ∈ row, -32768 ≤ value ∧ value ≤ 32767) ∧
        rows.map (List.map (· % 65536)) = codes.map Array.toList := by
  constructor
  · intro units filled bounded
    exact ⟨_, readUnits_formatUnits filled, units_signed bounded⟩
  · intro source filename order compilation returned bounded
    obtain ⟨formed, complete⟩ := ofText_renderable returned
    obtain ⟨text, rendered⟩ := render_isOk formed complete
    obtain ⟨front, written, back, table, rfl⟩ := render_tables rendered
    rw [← String.append_assoc] at rendered
    obtain ⟨codes, stored, read⟩ := readRows_codeTable table
    have listed := compiled_codes formed stored
    have signed : ∀ code ∈ codes,
        (∀ value ∈ code.toList.map Code.signed, -32768 ≤ value ∧ value ≤ 32767) ∧
          (code.toList.map Code.signed).map (· % 65536) = code.toList := by
      intro code member
      have stands : some code ∈ compilation.table.codes :=
        Array.mem_toList_iff.mp (List.mem_of_mem_drop (listed ▸ List.mem_map_of_mem member))
      exact units_signed fun unit inside =>
        bounded code stands unit (Array.mem_toList_iff.mp inside)
    refine ⟨front ++ nameTable compilation.table, written, back, codes, _, rendered, table, listed,
      read fun code member => row_filled formed listed member, ?_, ?_⟩
    · intro row member
      obtain ⟨code, stands, rfl⟩ := List.mem_map.mp member
      exact (signed code stands).1
    · rw [List.map_map]
      exact List.map_congr_left fun code stands => (signed code stands).2

/-- A source that defines a word whose units do not all fit signed numbers. -/
def unsignedSource : String :=
  "/*CONSTS*/\n/*CODE*/\n========\n========\nadd add\n========\n: w -1 40000 add ;\n"

theorem ofText_code_reads_back_sample :
    (∃ values, readUnits (formatUnits (List.replicate 32 40000)).toList = some values ∧
        values.map (· % 65536) = List.replicate 32 40000) ∧
      ∃ compilation front written back rows,
        (ofText unsignedSource none .shadowing).outcome = .ok compilation ∧
        render compilation.sections compilation.table = .ok (front ++ written ++ back) ∧
        readRows written.toList = some rows ∧
        rows.map (List.map (· % 65536)) = [[0, 65535, 40000, 0]] := by
  obtain ⟨units, tables⟩ := ofText_code_reads_back
  constructor
  · obtain ⟨values, read, -, same⟩ := units (List.replicate 32 40000) (by decide) (by decide)
    exact ⟨values, read, same⟩
  · have read : Source.read unsignedSource none = .ok
        { natives := [{ name := "add", constant := "add", line := some 5 }]
          definitions := [⟨": w -1 40000 add ;", some 7⟩] } := by
      decide +kernel
    have evaluated : (ofText unsignedSource none .shadowing).outcome.toOption.map
        (fun compilation => (compilation.table.codes, compilation.table.nativeCount)) =
        some (#[none, some #[0, 65535, 40000, 0]], 1) := by
      rw [ofText, read]
      dsimp only
      rw [ofSections, initialState_of_nodup (by decide +kernel)]
      decide +kernel
    obtain ⟨compilation, present, parts⟩ := Option.map_eq_some_iff.mp evaluated
    obtain ⟨stored, count⟩ := Prod.mk.inj parts
    have returned := Table.ok_of_toOption present
    obtain ⟨front, written, back, codes, rows, rendered, -, listed, found, -, same⟩ :=
      tables _ _ _ _ returned (by rw [stored]; simp)
    rw [stored, count] at listed
    have compiled : codes = [#[0, 65535, 40000, 0]] :=
      (List.map_injective_iff.mpr (Option.some_injective _)) listed.symm
    rw [compiled] at same
    exact ⟨compilation, front, written, back, rows, returned, rendered, found, same⟩

end Compilation

end ThreadedCode
