import Mathlib.Data.List.Forall2
import ThreadedCode.Table.Binary
import ThreadedCode.Proofs.Dictionary

/-!
# The binary form

Each part of the binary form is read back from its bytes, whatever follows them, so the parts one
after another are. A missing constant and the empty one have the same bytes, and so have a missing
index and index 65535; the tables of compiled sources have neither the one nor the other, and for
them reading undoes writing.
-/

namespace ThreadedCode

open Compiler

namespace Table

/-! ### Failing computations -/

theorem bind_ok_iff {ε α β : Type} {first : Except ε α} {next : α → Except ε β} {result : β} :
    (first >>= next) = .ok result ↔ ∃ value, first = .ok value ∧ next value = .ok result := by
  cases first with
  | error reason => simp [bind, Except.bind]
  | ok value => simp [bind, Except.bind]

theorem ok_bind {ε α β : Type} (value : α) (next : α → Except ε β) :
    (.ok value >>= next) = next value := rfl

theorem ok_of_toOption {ε α : Type} {result : Except ε α} {value : α}
    (present : result.toOption = some value) : result = .ok value := by
  cases result with
  | error reason => cases present
  | ok other => rw [Option.some.inj present]

theorem mapM_ok_iff {ε α β : Type} {f : α → Except ε β} {values : List α} {results : List β} :
    values.mapM f = .ok results ↔
      List.Forall₂ (fun value result => f value = .ok result) values results := by
  induction values generalizing results with
  | nil => simp [pure, Except.pure, eq_comm]
  | cons value values ih =>
    rw [List.mapM_cons, bind_ok_iff, List.forall₂_cons_left_iff]
    refine exists_congr fun result => ?_
    simp only [bind_ok_iff, ih, pure, Except.pure, Except.ok.injEq]
    exact ⟨fun ⟨found, rest, others, same⟩ => ⟨rest, found, others, same.symm⟩,
      fun ⟨rest, found, others, same⟩ => ⟨found, rest, others, same.symm⟩⟩

theorem mapM_isOk_iff {ε α β : Type} {f : α → Except ε β} {values : List α} :
    (∃ results, values.mapM f = .ok results) ↔ ∀ value ∈ values, ∃ result, f value = .ok result := by
  induction values with
  | nil => simp [pure, Except.pure]
  | cons value values ih =>
    rw [List.forall_mem_cons, ← ih]
    simp only [mapM_ok_iff, List.forall₂_cons_left_iff]
    exact ⟨fun ⟨_, result, rest, found, others, _⟩ => ⟨⟨result, found⟩, rest, others⟩,
      fun ⟨⟨result, found⟩, rest, others⟩ => ⟨_, result, rest, found, others, rfl⟩⟩

/-! ### Parts that are read back -/

/-- The bytes of `value` are read as `back`, whatever follows them. -/
def ReadsBack {α β : Type} (write : α → Except EncodeError (List UInt8))
    (read : List UInt8 → Except DecodeError (β × List UInt8)) (value : α) (back : β) : Prop :=
  ∀ bytes rest, write value = .ok bytes → read (bytes ++ rest) = .ok (back, rest)

theorem readMany_append {α : Type} {write : α → Except EncodeError (List UInt8)}
    {read : List UInt8 → Except DecodeError (α × List UInt8)} {values : List α}
    {blocks : List (List UInt8)} (written : values.mapM write = .ok blocks)
    (readable : ∀ value ∈ values, ReadsBack write read value value) (done : Array α)
    (rest : List UInt8) :
    readMany read done values.length (blocks.flatten ++ rest) =
      .ok (done ++ values.toArray, rest) := by
  rw [mapM_ok_iff] at written
  induction written generalizing done with
  | nil => simp [readMany]
  | @cons value block values blocks found others ih =>
    rw [List.forall_mem_cons] at readable
    have first := readable.1 block (blocks.flatten ++ rest) found
    rw [List.length_cons, readMany, List.flatten_cons, List.append_assoc, first]
    simp only
    rw [ih readable.2]
    simp

theorem readMany_blocks {α : Type} {write : α → Except EncodeError (List UInt8)}
    {read : List UInt8 → Except DecodeError (α × List UInt8)} {values : Array α}
    {blocks : List (List UInt8)} (written : values.toList.mapM write = .ok blocks)
    (readable : ∀ value ∈ values, ReadsBack write read value value) (rest : List UInt8) :
    readMany read #[] values.size (blocks.flatten ++ rest) = .ok (values, rest) := by
  have read := readMany_append written
    (fun value member => readable value (Array.mem_toList_iff.mp member)) #[] rest
  rw [Array.length_toList, Array.toArray_toList, Array.empty_append] at read
  exact read

theorem isWord_iff {value : Int} : isWord value = true ↔ 0 ≤ value ∧ value ≤ 65535 := by
  simp only [isWord, Bool.and_eq_true, decide_eq_true_eq]
  omega

theorem encodeField_ok_iff {value : Int} {bytes : List UInt8} :
    encodeField value = .ok bytes ↔
      (0 ≤ value ∧ value ≤ 65535) ∧ bytes = wordBytes value.toNat := by
  unfold encodeField
  split
  · rename_i fits
    simp [isWord_iff.mp fits, eq_comm]
  · rename_i large
    simp only [reduceCtorEq, false_iff, not_and]
    exact fun fits => absurd (isWord_iff.mpr fits) large

theorem join_wordBytes {value : Nat} (fits : value < 65536) :
    (value % 256).toUInt8.toNat + 256 * (value / 256).toUInt8.toNat = value := by
  simp only [Nat.toUInt8_eq, UInt8.toNat_ofNat']
  omega

theorem readField_wordBytes {value : Nat} (fits : value < 65536) (rest : List UInt8) :
    readField (wordBytes value ++ rest) = .ok (value, rest) := by
  simp only [wordBytes, List.cons_append, List.nil_append, readField, join_wordBytes fits]

theorem drop_wordBytes (value : Nat) (rest : List UInt8) :
    (wordBytes value ++ rest).drop 2 = rest := rfl

theorem readsBack_field {value : Nat} :
    ReadsBack encodeField readField (value : Int) value := by
  intro bytes rest written
  obtain ⟨fits, rfl⟩ := encodeField_ok_iff.mp written
  exact readField_wordBytes (by omega) rest

/-! ### Texts -/

theorem toByteArray_utf8Bytes (text : String) :
    (Text.utf8Bytes text.toList).toByteArray = text.toByteArray :=
  String.utf8Encode_toList

theorem length_utf8Bytes (text : String) :
    (Text.utf8Bytes text.toList).length = text.utf8ByteSize := by
  rw [← List.size_toByteArray, toByteArray_utf8Bytes, String.size_toByteArray]

theorem ofUtf8?_utf8Bytes (text : String) :
    Text.ofUtf8? (Text.utf8Bytes text.toList) = some text := by
  rw [Text.ofUtf8?, toByteArray_utf8Bytes, String.fromUTF8?, dif_pos text.isValidUTF8]
  rfl

theorem encodeText_ok_iff {text : String} {bytes : List UInt8} :
    encodeText text = .ok bytes ↔ text.utf8ByteSize ≤ 65535 ∧
      bytes = wordBytes text.utf8ByteSize ++ Text.utf8Bytes text.toList := by
  unfold encodeText
  dsimp only
  rw [length_utf8Bytes]
  cases written : encodeField text.utf8ByteSize with
  | ok length =>
    obtain ⟨fits, rfl⟩ := encodeField_ok_iff.mp written
    have bound : text.utf8ByteSize ≤ 65535 := by omega
    simp [Except.map, bound, eq_comm]
  | error reason =>
    simp only [Except.map, reduceCtorEq, false_iff, not_and]
    intro fits
    have possible := encodeField_ok_iff.mpr
      ⟨⟨Int.natCast_nonneg text.utf8ByteSize, by omega⟩, rfl⟩
    simp [written] at possible

theorem readsBack_text (text : String) : ReadsBack encodeText readText text text := by
  intro bytes rest written
  obtain ⟨fits, rfl⟩ := encodeText_ok_iff.mp written
  rw [List.append_assoc, readText, readField_wordBytes (by omega)]
  simp only [ok_bind]
  rw [List.take_left' (length_utf8Bytes text), List.drop_left' (length_utf8Bytes text),
    ofUtf8?_utf8Bytes]
  rfl

theorem readsBack_symbol {symbol : String × Option String} (named : symbol.2 ≠ some "") :
    ReadsBack encodeSymbol readSymbol symbol symbol := by
  intro bytes rest written
  obtain ⟨name, constant⟩ := symbol
  obtain ⟨nameBytes, nameWritten, written⟩ := bind_ok_iff.mp written
  obtain ⟨constantBytes, constantWritten, written⟩ := bind_ok_iff.mp written
  obtain rfl := Except.ok.inj written
  rw [List.append_assoc, readSymbol, readsBack_text _ _ _ nameWritten]
  simp only [ok_bind]
  rw [readsBack_text _ _ _ constantWritten]
  simp only [ok_bind]
  cases constant with
  | none => rfl
  | some text =>
    have nonempty : text ≠ "" := fun empty => named (congrArg some empty)
    rw [Option.getD_some, if_neg nonempty]
    rfl

/-! ### Code -/

theorem encodeCode_ok_iff {code : Array Int} {bytes : List UInt8} :
    encodeCode code = .ok bytes ↔
      code.size ≤ 65535 ∧ (∀ unit ∈ code, 0 ≤ unit ∧ unit ≤ 65535) ∧
        bytes = wordBytes code.size ++ code.toList.flatMap fun unit => wordBytes unit.toNat := by
  unfold encodeCode
  rw [bind_ok_iff]
  constructor
  · rintro ⟨length, written, rest⟩
    obtain ⟨fits, rfl⟩ := encodeField_ok_iff.mp written
    split at rest
    · rename_i words
      refine ⟨by omega, fun unit member => isWord_iff.mp ?_, (Except.ok.inj rest).symm⟩
      exact Array.all_eq_true_iff_forall_mem.mp words unit member
    · cases rest
  · rintro ⟨fits, units, rfl⟩
    refine ⟨_, encodeField_ok_iff.mpr ⟨⟨Int.natCast_nonneg _, by omega⟩, rfl⟩, ?_⟩
    have words : code.all isWord = true :=
      Array.all_eq_true_iff_forall_mem.mpr fun unit member => isWord_iff.mpr (units unit member)
    rw [if_pos words]
    rfl

theorem readsBack_unit (unit : Int) : ReadsBack encodeField readUnit unit unit := by
  intro bytes rest written
  obtain ⟨fits, rfl⟩ := encodeField_ok_iff.mp written
  simp only [wordBytes, List.cons_append, List.nil_append, readUnit]
  rw [join_wordBytes (by omega), Int.toNat_of_nonneg fits.1]

theorem readsBack_code (code : Array Int) : ReadsBack encodeCode readCode code code := by
  intro bytes rest written
  obtain ⟨fits, units, rfl⟩ := encodeCode_ok_iff.mp written
  have written : code.toList.mapM encodeField =
      .ok (code.toList.map fun unit => wordBytes unit.toNat) := by
    rw [mapM_ok_iff, List.forall₂_map_right_iff, List.forall₂_same]
    intro unit member
    exact encodeField_ok_iff.mpr ⟨units unit (Array.mem_toList_iff.mp member), rfl⟩
  have read := readMany_blocks written (fun unit _ => readsBack_unit unit) rest
  rw [List.append_assoc, readCode, readField_wordBytes (by omega)]
  simp only [ok_bind]
  simpa [List.flatMap_def] using read

/-! ### Indices -/

theorem readsBack_index {index : Option Int} (below : ∀ value, index = some value → value < 65535) :
    ReadsBack (fun index => encodeField (index.getD noIndex)) readIndex index index := by
  intro bytes rest written
  obtain ⟨fits, rfl⟩ := encodeField_ok_iff.mp written
  rw [readIndex, readField_wordBytes (by omega)]
  simp only [ok_bind]
  cases index with
  | none => rfl
  | some value =>
    have bound := below value rfl
    simp only [Option.getD_some] at fits ⊢
    rw [if_neg (by simp only [noIndex]; omega), Int.toNat_of_nonneg fits.1]
    rfl

theorem readsBack_bootstrap {bootstrap : Bootstrap} {blocks : List (List UInt8)}
    (below : ∀ value, some value ∈ bootstrap.toList → value < 65535)
    (written : bootstrap.toList.mapM (fun index => encodeField (index.getD noIndex)) = .ok blocks)
    (rest : List UInt8) :
    readBootstrap (blocks.flatten ++ rest) = .ok (bootstrap, rest) := by
  have back : ∀ index ∈ bootstrap.toList,
      ReadsBack (fun index => encodeField (index.getD noIndex)) readIndex index index := by
    intro index member
    exact readsBack_index fun value same => below value (same ▸ member)
  simp only [Bootstrap.toList, List.forall_mem_cons] at back
  obtain ⟨litstring, pushVariable, falseWord, oneWord, wideInt, -⟩ := back
  simp only [mapM_ok_iff, Bootstrap.toList, List.forall₂_cons_left_iff,
    List.forall₂_nil_left_iff] at written
  obtain ⟨_, _, first, ⟨_, _, second, ⟨_, _, third, ⟨_, _, fourth, ⟨_, _, fifth, rfl, rfl⟩, rfl⟩,
    rfl⟩, rfl⟩, rfl⟩ := written
  simp only [List.flatten_cons, List.flatten_nil, List.append_nil, List.append_assoc]
  rw [readBootstrap, litstring _ _ first]
  simp only [ok_bind]
  rw [pushVariable _ _ second]
  simp only [ok_bind]
  rw [falseWord _ _ third]
  simp only [ok_bind]
  rw [oneWord _ _ fourth]
  simp only [ok_bind]
  rw [wideInt _ _ fifth]
  rfl

/-! ### Whole tables -/

theorem encode_ok_iff {table : Table} {bytes : List UInt8} :
    table.encode = .ok bytes ↔ ∃ header bootstrap symbols slots codes,
      table.headerFields.mapM encodeField = .ok header ∧
      table.bootstrap.toList.mapM (fun index => encodeField (index.getD noIndex)) = .ok bootstrap ∧
      (table.names.toList.zip table.constants.toList).mapM encodeSymbol = .ok symbols ∧
      table.variableNames.toList.mapM encodeText = .ok slots ∧
      table.compiledCodes.mapM encodeCode = .ok codes ∧
      bytes = magic ++ wordBytes version ++ header.flatten ++ bootstrap.flatten ++
        symbols.flatten ++ slots.flatten ++ codes.flatten := by
  unfold encode
  simp only [bind_ok_iff, pure, Except.pure, Except.ok.injEq]
  constructor
  · rintro ⟨header, h₁, bootstrap, h₂, symbols, h₃, slots, h₄, codes, h₅, rfl⟩
    exact ⟨header, bootstrap, symbols, slots, codes, h₁, h₂, h₃, h₄, h₅, rfl⟩
  · rintro ⟨header, bootstrap, symbols, slots, codes, h₁, h₂, h₃, h₄, h₅, rfl⟩
    exact ⟨header, h₁, bootstrap, h₂, symbols, h₃, slots, h₄, codes, h₅, rfl⟩

theorem decode_opening (rest : List UInt8) :
    decode (magic ++ (wordBytes version ++ rest)) = decodeBody rest := by
  have front : (magic ++ (wordBytes version ++ rest)).take 4 = magic := rfl
  have back : (magic ++ (wordBytes version ++ rest)).drop 4 = wordBytes version ++ rest := rfl
  rw [decode, front, back, readField_wordBytes (by decide)]
  simp

/-- What follows the bootstrap indices: the symbols, the variables and the codes. -/
def readRows (natives compiled slots : Nat) (bootstrap : Bootstrap) (data : List UInt8) :
    Except DecodeError Table := do
  let (symbols, rest) ← readMany readSymbol #[] (natives + compiled) data
  let (variableNames, rest) ← readMany readText #[] slots rest
  let (codes, _) ← readMany readCode #[] compiled rest
  return {
    nativeCount := natives
    bootstrap := bootstrap
    variableNames := variableNames
    names := symbols.map (·.1)
    constants := symbols.map (·.2)
    docs := symbols.map fun _ => none
    codes := Array.replicate natives none ++ codes.map some }

theorem decodeBody_eq (data : List UInt8) :
    decodeBody data = (do
      let (natives, rest) ← readField (data.drop 2)
      let (compiled, rest) ← readField rest
      let (slots, rest) ← readField rest
      let (bootstrap, rest) ← readBootstrap rest
      readRows natives compiled slots bootstrap rest) := rfl

theorem encodeField_isOk_iff {value : Int} :
    (∃ bytes, encodeField value = .ok bytes) ↔ 0 ≤ value ∧ value ≤ 65535 := by
  simp [encodeField_ok_iff]

theorem encodeText_isOk_iff {text : String} :
    (∃ bytes, encodeText text = .ok bytes) ↔ text.utf8ByteSize ≤ 65535 := by
  simp [encodeText_ok_iff]

theorem encodeSymbol_isOk_iff {symbol : String × Option String} :
    (∃ bytes, encodeSymbol symbol = .ok bytes) ↔
      symbol.1.utf8ByteSize ≤ 65535 ∧ (symbol.2.getD "").utf8ByteSize ≤ 65535 := by
  rw [← encodeText_isOk_iff, ← encodeText_isOk_iff]
  simp only [encodeSymbol, bind_ok_iff, pure, Except.pure, Except.ok.injEq]
  exact ⟨fun ⟨_, first, written, second, others, _⟩ => ⟨⟨first, written⟩, second, others⟩,
    fun ⟨⟨first, written⟩, second, others⟩ => ⟨_, first, written, second, others, rfl⟩⟩

theorem encodeCode_isOk_iff {code : Array Int} :
    (∃ bytes, encodeCode code = .ok bytes) ↔
      code.size ≤ 65535 ∧ ∀ unit ∈ code, 0 ≤ unit ∧ unit ≤ 65535 := by
  simp [encodeCode_ok_iff]

/-- What fits the binary form: all counts and lengths in bytes or units, and all units. -/
structure FitsBinary (table : Table) : Prop where
  nativeCount : table.nativeCount ≤ 65535
  compiledCount : table.compiledCount ≤ 65535
  slotCount : table.variableNames.size ≤ 65535
  names : ∀ name ∈ table.names, name.utf8ByteSize ≤ 65535
  constants : ∀ constant, some constant ∈ table.constants → constant.utf8ByteSize ≤ 65535
  slots : ∀ name ∈ table.variableNames, name.utf8ByteSize ≤ 65535
  codes : ∀ code, some code ∈ table.codes → code.size ≤ 65535 ∧ ∀ unit ∈ code, unit ≤ 65535

theorem encode_isOk_iff {table : Table} :
    (∃ bytes, table.encode = .ok bytes) ↔
      (∀ value ∈ table.headerFields, 0 ≤ value ∧ value ≤ 65535) ∧
      (∀ index ∈ table.bootstrap.toList, 0 ≤ index.getD noIndex ∧ index.getD noIndex ≤ 65535) ∧
      (∀ symbol ∈ table.names.toList.zip table.constants.toList,
        ∃ bytes, encodeSymbol symbol = .ok bytes) ∧
      (∀ name ∈ table.variableNames.toList, name.utf8ByteSize ≤ 65535) ∧
      (∀ code ∈ table.compiledCodes,
        code.size ≤ 65535 ∧ ∀ unit ∈ code, 0 ≤ unit ∧ unit ≤ 65535) := by
  simp only [← encodeText_isOk_iff, ← encodeCode_isOk_iff]
  constructor
  · rintro ⟨bytes, encoded⟩
    obtain ⟨header, bootstrap, symbols, slots, codes, fields, indices, rows, texts, units, -⟩ :=
      encode_ok_iff.mp encoded
    exact ⟨fun value member => encodeField_isOk_iff.mp (mapM_isOk_iff.mp ⟨header, fields⟩ value member),
      fun index member =>
        encodeField_isOk_iff.mp (mapM_isOk_iff.mp ⟨bootstrap, indices⟩ index member),
      mapM_isOk_iff.mp ⟨symbols, rows⟩, mapM_isOk_iff.mp ⟨slots, texts⟩,
      mapM_isOk_iff.mp ⟨codes, units⟩⟩
  · rintro ⟨fields, indices, rows, texts, units⟩
    obtain ⟨header, fields⟩ := mapM_isOk_iff.mpr fun value member =>
      encodeField_isOk_iff.mpr (fields value member)
    obtain ⟨bootstrap, indices⟩ := mapM_isOk_iff.mpr fun index member =>
      encodeField_isOk_iff.mpr (indices index member)
    obtain ⟨symbols, rows⟩ := mapM_isOk_iff.mpr rows
    obtain ⟨slots, texts⟩ := mapM_isOk_iff.mpr texts
    obtain ⟨codes, units⟩ := mapM_isOk_iff.mpr units
    exact ⟨_, encode_ok_iff.mpr
      ⟨header, bootstrap, symbols, slots, codes, fields, indices, rows, texts, units, rfl⟩⟩

/-! ### The parts of a binary form -/

/-- What a binary form holds: a symbol for every word, and the code of those that are compiled. -/
structure Parts where
  natives : Nat
  bootstrap : Bootstrap
  slots : Array String
  symbols : Array (String × Option String)
  codes : Array (Array Int)
  rows : symbols.size = natives + codes.size

namespace Parts

def table (parts : Parts) : Table where
  nativeCount := parts.natives
  bootstrap := parts.bootstrap
  variableNames := parts.slots
  names := parts.symbols.map (·.1)
  constants := parts.symbols.map (·.2)
  docs := parts.symbols.map fun _ => none
  codes := Array.replicate parts.natives none ++ parts.codes.map some

/-- No index and no constant has the bytes of a missing one. -/
structure Canonical (parts : Parts) : Prop where
  bootstrap : ∀ value, some value ∈ parts.bootstrap.toList → value < 65535
  constants : ∀ symbol ∈ parts.symbols, symbol.2 ≠ some ""

theorem compiledCount_table (parts : Parts) : parts.table.compiledCount = parts.codes.size := by
  have rows := parts.rows
  simp only [compiledCount, table, Array.size_map]
  omega

theorem headerFields_table (parts : Parts) :
    parts.table.headerFields =
      [0, (parts.natives : Int), (parts.codes.size : Int), (parts.slots.size : Int)] := by
  rw [headerFields, compiledCount_table]
  rfl

theorem symbols_table (parts : Parts) :
    parts.table.names.toList.zip parts.table.constants.toList = parts.symbols.toList := by
  simp only [table, Array.toList_map]
  rw [List.zip_map']
  exact List.map_id _

theorem compiledCodes_table (parts : Parts) :
    parts.table.compiledCodes = parts.codes.toList := by
  have front : Position.cut parts.table.codes.size parts.table.nativeCount = parts.natives := by
    simp [Position.cut, table]
  have back : (Position.after parts.table.codes parts.table.nativeCount).toList =
      parts.codes.toList.map some := by
    rw [Position.after, front, Array.toList_extract, List.extract_eq_take_drop]
    simp only [table, Array.toList_append, Array.toList_replicate, Array.toList_map,
      Array.size_append, Array.size_replicate, Array.size_map, Nat.add_sub_cancel_left]
    rw [List.drop_left' (by simp), List.take_of_length_le (by simp)]
  rw [compiledCodes, back, List.filterMap_map]
  exact List.filterMap_some

/-- The bytes of a table up to its bootstrap indices, which are always as many, and its rows. -/
theorem encode_cases {parts : Parts} (canonical : parts.Canonical) {bytes : List UInt8}
    (encoded : parts.table.encode = .ok bytes) :
    ∃ opening symbols slots codes,
      bytes = opening ++ (symbols.flatten ++ (slots.flatten ++ codes.flatten)) ∧
      opening.length = 24 ∧
      (∀ rest, decode (opening ++ rest) =
        readRows parts.natives parts.codes.size parts.slots.size parts.bootstrap rest) ∧
      parts.symbols.toList.mapM encodeSymbol = .ok symbols ∧
      parts.slots.toList.mapM encodeText = .ok slots ∧
      parts.codes.toList.mapM encodeCode = .ok codes := by
  obtain ⟨header, bootstrap, symbols, slots, codes, fields, indices, rows, texts, units, rfl⟩ :=
    encode_ok_iff.mp encoded
  rw [headerFields_table] at fields
  rw [symbols_table] at rows
  rw [compiledCodes_table] at units
  have size : ∀ {values : List Int} {blocks : List (List UInt8)},
      values.mapM encodeField = .ok blocks → blocks.flatten.length = 2 * values.length := by
    intro values blocks written
    rw [mapM_ok_iff] at written
    induction written with
    | nil => rfl
    | cons found others ih =>
      obtain ⟨-, rfl⟩ := encodeField_ok_iff.mp found
      rw [List.flatten_cons, List.length_append, ih, List.length_cons, wordBytes]
      simp only [List.length_cons, List.length_nil]
      omega
  refine ⟨magic ++ wordBytes version ++ header.flatten ++ bootstrap.flatten, symbols, slots, codes,
    by simp only [List.append_assoc], ?_, fun rest => ?_, rows, texts, units⟩
  · have indexed : (parts.table.bootstrap.toList.map fun index => index.getD noIndex).mapM
        encodeField = .ok bootstrap := by
      rw [mapM_ok_iff, List.forall₂_map_left_iff, ← mapM_ok_iff]
      exact indices
    simp only [List.length_append, size fields, size indexed]
    rfl
  · simp only [mapM_ok_iff, List.forall₂_cons_left_iff, List.forall₂_nil_left_iff] at fields
    obtain ⟨_, _, zero, ⟨_, _, natives, ⟨_, _, compiled, ⟨_, _, slotCount, rfl, rfl⟩, rfl⟩, rfl⟩,
      rfl⟩ := fields
    obtain ⟨-, rfl⟩ := encodeField_ok_iff.mp zero
    simp only [List.append_assoc, List.flatten_cons, List.flatten_nil, List.append_nil]
    -- Behind the version, each part is read off the front and leaves the others.
    rw [decode_opening, decodeBody_eq, drop_wordBytes, readsBack_field _ _ natives]
    simp only [ok_bind]
    rw [readsBack_field _ _ compiled]
    simp only [ok_bind]
    rw [readsBack_field _ _ slotCount]
    simp only [ok_bind]
    rw [readsBack_bootstrap canonical.bootstrap indices]
    rfl

/-- Reading undoes writing, part by part. -/
theorem decode_encode {parts : Parts} (canonical : parts.Canonical) {bytes : List UInt8}
    (encoded : parts.table.encode = .ok bytes) : decode bytes = .ok parts.table := by
  obtain ⟨opening, symbols, slots, codes, rfl, -, opens, rows, texts, units⟩ :=
    encode_cases canonical encoded
  have readSymbols := readMany_blocks rows fun symbol member =>
    readsBack_symbol (canonical.constants symbol member)
  have readSlots := readMany_blocks texts fun name _ => readsBack_text name
  have readCodes := readMany_blocks units fun code _ => readsBack_code code
  rw [parts.rows] at readSymbols
  have last : codes.flatten = codes.flatten ++ [] := (List.append_nil _).symm
  rw [opens, readRows, readSymbols]
  simp only [ok_bind]
  rw [readSlots]
  simp only [ok_bind]
  rw [last, readCodes]
  simp [ok_bind, pure, Except.pure, table]

end Parts

end Table

namespace Compilation

open Table

variable {state : State}

/-- The parts of a dictionary's binary form. -/
def partsOf (state : State) : Parts where
  natives := state.catalog.size
  bootstrap := state.bootstrap
  slots := state.slots.names
  symbols := state.symbols.map fun symbol => (symbol.1, some symbol.2)
  codes := state.compiled.map (·.code)
  rows := by rw [Array.size_map, Array.size_map, State.size_symbols, State.nextIndex]

theorem tableOf_undocumented (state : State) :
    { tableOf state with docs := (tableOf state).docs.map fun _ => none } =
      (partsOf state).table := by
  simp [tableOf, Table.assemble, State.symbols, Function.comp_def, Catalog.size, Array.map_const',
    partsOf, Parts.table]

-- The binary form does not see the doc texts, so what holds of the parts holds of the table.
theorem compiledCount_tableOf (state : State) :
    (tableOf state).compiledCount = state.compiled.size := by
  have counted := congrArg compiledCount (tableOf_undocumented state)
  rw [Parts.compiledCount_table, partsOf, Array.size_map] at counted
  exact counted

theorem headerFields_tableOf (state : State) :
    (tableOf state).headerFields =
      [0, (state.catalog.size : Int), (state.compiled.size : Int), (state.slots.size : Int)] := by
  rw [headerFields, compiledCount_tableOf]
  rfl

theorem symbols_tableOf (state : State) :
    (tableOf state).names.toList.zip (tableOf state).constants.toList =
      state.symbols.toList.map fun symbol => (symbol.1, some symbol.2) := by
  have zipped := congrArg (fun table => table.names.toList.zip table.constants.toList)
    (tableOf_undocumented state)
  rw [Parts.symbols_table, partsOf, Array.toList_map] at zipped
  exact zipped

theorem compiledCodes_tableOf (state : State) :
    (tableOf state).compiledCodes = state.compiled.toList.map (·.code) := by
  have codes := congrArg compiledCodes (tableOf_undocumented state)
  rw [Parts.compiledCodes_table, partsOf, Array.toList_map] at codes
  exact codes

theorem mem_names_tableOf {name : String} :
    name ∈ (tableOf state).names ↔ ∃ symbol ∈ state.symbols, symbol.1 = name := by
  simp only [tableOf, Table.assemble, State.symbols, Array.mem_append, Array.mem_map, or_and_right,
    exists_or]
  simp

theorem mem_constants_tableOf {constant : Option String} :
    constant ∈ (tableOf state).constants ↔ ∃ symbol ∈ state.symbols, some symbol.2 = constant := by
  simp only [tableOf, Table.assemble, State.symbols, Array.mem_append, Array.mem_map, or_and_right,
    exists_or]
  simp

theorem mem_codes_tableOf {code : Array Int} :
    some code ∈ (tableOf state).codes ↔ ∃ word ∈ state.compiled, word.code = code := by
  simp [tableOf, Table.assemble]

/-- A regular dictionary has a binary form exactly if everything in it fits. -/
theorem tableOf_isOk_iff (regular : state.Regular) :
    (∃ bytes, (tableOf state).encode = .ok bytes) ↔ (tableOf state).FitsBinary := by
  rw [encode_isOk_iff, headerFields_tableOf, symbols_tableOf, compiledCodes_tableOf]
  constructor
  · rintro ⟨fields, -, rows, texts, units⟩
    simp only [List.forall_mem_cons] at fields
    obtain ⟨-, natives, compiled, slots, -⟩ := fields
    have sizes : ∀ symbol ∈ state.symbols,
        symbol.1.utf8ByteSize ≤ 65535 ∧ symbol.2.utf8ByteSize ≤ 65535 := by
      intro symbol member
      exact encodeSymbol_isOk_iff.mp
        (rows _ (List.mem_map.mpr ⟨symbol, Array.mem_toList_iff.mpr member, rfl⟩))
    refine ⟨natives.2, ?_, ?_, fun name member => ?_, fun constant member => ?_,
      fun name member => texts name (Array.mem_toList_iff.mpr member), fun code member => ?_⟩
    · rw [compiledCount_tableOf]
      exact compiled.2
    · exact Int.ofNat_le.mp slots.2
    · obtain ⟨symbol, listed, rfl⟩ := mem_names_tableOf.mp member
      exact (sizes symbol listed).1
    · obtain ⟨symbol, listed, same⟩ := mem_constants_tableOf.mp member
      rw [← Option.some.inj same]
      exact (sizes symbol listed).2
    · obtain ⟨word, listed, rfl⟩ := mem_codes_tableOf.mp member
      obtain ⟨size, below⟩ := units _ (List.mem_map.mpr ⟨word, Array.mem_toList_iff.mpr listed, rfl⟩)
      exact ⟨size, fun unit inside => (below unit inside).2⟩
  · intro fits
    have natives : (state.catalog.size : Int) ≤ 65535 := fits.nativeCount
    have compiled := fits.compiledCount
    rw [compiledCount_tableOf] at compiled
    have slots : state.slots.size ≤ 65535 := fits.slotCount
    refine ⟨?_, fun index member => ?_, fun row member => ?_,
      fun name member => fits.slots name (Array.mem_toList_iff.mp member), fun code member => ?_⟩
    · simp only [List.forall_mem_cons, List.not_mem_nil, false_imp_iff, implies_true, and_true]
      omega
    · cases index with
      | none => simp [noIndex]
      | some index =>
        obtain ⟨low, high⟩ := regular.bootstrap index member
        simp only [Option.getD_some]
        omega
    · obtain ⟨symbol, listed, rfl⟩ := List.mem_map.mp member
      have present := Array.mem_toList_iff.mp listed
      exact encodeSymbol_isOk_iff.mpr ⟨fits.names _ (mem_names_tableOf.mpr ⟨symbol, present, rfl⟩),
        fits.constants _ (mem_constants_tableOf.mpr ⟨symbol, present, rfl⟩)⟩
    · obtain ⟨word, listed, rfl⟩ := List.mem_map.mp member
      have present := Array.mem_toList_iff.mp listed
      obtain ⟨size, below⟩ := fits.codes _ (mem_codes_tableOf.mpr ⟨word, present, rfl⟩)
      exact ⟨size, fun unit inside =>
        ⟨(regular.words word present).units unit inside, below unit inside⟩⟩

theorem isField_of_mem_symbols (regular : state.Regular) {symbol : String × String}
    (member : symbol ∈ state.symbols) : Text.IsField symbol.2 := by
  rcases Array.mem_append.mp member with native | compiled
  · obtain ⟨word, listed, rfl⟩ := Array.mem_map.mp native
    exact regular.natives word listed
  · obtain ⟨word, listed, rfl⟩ := Array.mem_map.mp compiled
    exact (regular.words word listed).constant

theorem encode_partsOf (state : State) : (partsOf state).table.encode = (tableOf state).encode := by
  rw [← tableOf_undocumented]
  rfl

theorem partsOf_canonical (regular : state.Regular) {bytes : List UInt8}
    (encoded : (tableOf state).encode = .ok bytes) : (partsOf state).Canonical := by
  have fits := (tableOf_isOk_iff regular).mp ⟨bytes, encoded⟩
  refine ⟨fun value member => ?_, fun symbol member => ?_⟩
  · have native := (regular.bootstrap value member).2
    have count : (state.catalog.size : Int) ≤ 65535 := fits.nativeCount
    omega
  · obtain ⟨listed, present, rfl⟩ := Array.mem_map.mp member
    intro empty
    exact (isField_of_mem_symbols regular present).present (Option.some.inj empty)

/-- Reading undoes writing on regular dictionaries, but for the doc texts. -/
theorem decode_encode_tableOf (regular : state.Regular) {bytes : List UInt8}
    (encoded : (tableOf state).encode = .ok bytes) :
    decode bytes =
      .ok { tableOf state with docs := (tableOf state).docs.map fun _ => none } := by
  have canonical := partsOf_canonical regular encoded
  rw [← encode_partsOf] at encoded
  rw [tableOf_undocumented]
  exact Parts.decode_encode canonical encoded

/-- The table of a compiled source has a binary form exactly if everything in it fits 16 bits, and
then reading gives the table back without its doc texts. -/
theorem ofText_binary {source : String} {filename : Option String} {order : Order}
    {compilation : Compilation}
    (returned : (ofText source filename order).outcome = .ok compilation) :
    ((∃ bytes, compilation.table.encode = .ok bytes) ↔ compilation.table.FitsBinary) ∧
      ∀ bytes, compilation.table.encode = .ok bytes →
        Table.decode bytes = .ok { compilation.table with
          docs := compilation.table.docs.map fun _ => none } := by
  obtain ⟨state, table, regular⟩ := ofText_regular returned
  rw [table]
  exact ⟨tableOf_isOk_iff regular, fun bytes encoded => decode_encode_tableOf regular encoded⟩

/-- A source with a variable and a word that has a doc text. -/
def documentedSource : String :=
  "/*CONSTS*/\n/*CODE*/\n========\nx\n========\n========\n: a ( doc ) 7 ;\n"

theorem ofText_binary_sample :
    ∃ compilation bytes, (ofText documentedSource none .shadowing).outcome = .ok compilation ∧
      compilation.table.docs = #[some "doc"] ∧ compilation.table.FitsBinary ∧
      compilation.table.encode = .ok bytes ∧
      Table.decode bytes = .ok { compilation.table with docs := #[none] } := by
  have evaluated : (ofText documentedSource none .shadowing).outcome.toOption.map (fun compilation =>
      (compilation.table.docs, compilation.table.encode.toOption.isSome)) =
      some (#[some "doc"], true) := by decide +kernel
  cases returned : (ofText documentedSource none .shadowing).outcome with
  | error failure => simp [returned, Except.toOption] at evaluated
  | ok compilation =>
    rw [returned] at evaluated
    obtain ⟨docs, written⟩ := Prod.mk.inj (Option.some.inj evaluated)
    have docs : compilation.table.docs = #[some "doc"] := docs
    cases encoded : compilation.table.encode with
    | error reason => simp [encoded, Except.toOption] at written
    | ok bytes =>
      obtain ⟨fits, back⟩ := ofText_binary returned
      exact ⟨compilation, bytes, rfl, docs, fits.mp ⟨bytes, encoded⟩, encoded,
        (back bytes encoded).trans (by simp [docs])⟩

end Compilation

end ThreadedCode
