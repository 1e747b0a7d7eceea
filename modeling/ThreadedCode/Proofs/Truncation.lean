import ThreadedCode.Proofs.BinaryForm

/-!
# Binary forms that are cut off

A number that the end of the data cuts off is never read, and neither is a code. A text is, as far as
it goes, and nothing is left behind it, so the next number fails. A binary form that is cut off is
therefore accepted in one case only: its last part is a text, and the cut is inside that.
-/

namespace ThreadedCode

open Compiler

namespace Table

/-! ### The same bytes with more behind them -/

section

variable {α : Type} {read : List UInt8 → Except DecodeError (α × List UInt8)}

/-- What is read does not depend on what follows, unless the data has come to its end. -/
def Continues (read : List UInt8 → Except DecodeError (α × List UInt8)) : Prop :=
  ∀ data item rest more, read data = .ok (item, rest) → rest ≠ [] →
    read (data ++ more) = .ok (item, rest ++ more)

/-- What is read never depends on what follows. -/
def Exact (read : List UInt8 → Except DecodeError (α × List UInt8)) : Prop :=
  ∀ data item rest more, read data = .ok (item, rest) →
    read (data ++ more) = .ok (item, rest ++ more)

/-- Nothing is read off the end of the data. -/
def Hungry (read : List UInt8 → Except DecodeError (α × List UInt8)) : Prop :=
  ∀ item rest, read [] ≠ .ok (item, rest)

theorem Hungry.ne_nil (hungry : Hungry read) {data rest : List UInt8} {item : α}
    (found : read data = .ok (item, rest)) : data ≠ [] := by
  rintro rfl
  exact hungry item rest found

theorem Exact.many (exactly : Exact read) (done : Array α) (count : Nat) :
    Exact (readMany read done count) := by
  induction count generalizing done with
  | zero =>
    intro data items rest more found
    obtain ⟨rfl, rfl⟩ := Prod.mk.inj (Except.ok.inj found)
    rfl
  | succ count ih =>
    intro data items rest more found
    rw [readMany] at found
    split at found
    · rename_i item next first
      rw [readMany, exactly _ _ _ more first]
      exact ih _ _ _ _ _ found
    · cases found

/-- Where items are to be read, there is data. -/
theorem Hungry.many (hungry : Hungry read) {done items : Array α} {count : Nat}
    {data rest : List UInt8} (found : readMany read done count data = .ok (items, rest))
    (due : 0 < count ∨ rest ≠ []) : data ≠ [] := by
  cases count with
  | zero =>
    obtain ⟨-, rfl⟩ := Prod.mk.inj (Except.ok.inj found)
    simpa using due
  | succ count =>
    rw [readMany] at found
    split at found
    · rename_i item next first
      exact hungry.ne_nil first
    · cases found

/-- Only the last of several items can come to the end of the data. -/
theorem Continues.many (continues : Continues read) (hungry : Hungry read) (done : Array α)
    (count : Nat) : Continues (readMany read done count) := by
  induction count generalizing done with
  | zero =>
    intro data items rest more found _
    obtain ⟨rfl, rfl⟩ := Prod.mk.inj (Except.ok.inj found)
    rfl
  | succ count ih =>
    intro data items rest more found left
    rw [readMany] at found
    split at found
    · rename_i item next first
      have further : next ≠ [] := hungry.many found (.inr left)
      rw [readMany, continues _ _ _ more first further]
      exact ih _ _ _ _ _ found left
    · cases found

/-- A part that is read from data that is cut off, with data left, is there in full. -/
theorem Continues.cut (continues : Continues read) {block tail part missing rest : List UInt8}
    {value item : α} (reads : read (block ++ tail) = .ok (value, tail))
    (found : read part = .ok (item, rest)) (left : rest ≠ [])
    (whole : part ++ missing = block ++ tail) :
    item = value ∧ part = block ++ rest ∧ rest ++ missing = tail := by
  have again := continues _ _ _ missing found left
  rw [whole, reads] at again
  obtain ⟨rfl, rfl⟩ := Prod.mk.inj (Except.ok.inj again)
  rw [← List.append_assoc] at whole
  exact ⟨rfl, List.append_cancel_right whole, rfl⟩

theorem readMany_succ (done : Array α) (count : Nat) (data : List UInt8) :
    readMany read done (count + 1) data = (do
      let (before, middle) ← readMany read done count data
      let (item, rest) ← read middle
      return (before.push item, rest)) := by
  induction count generalizing done data with
  | zero =>
    rw [readMany, readMany, ok_bind]
    dsimp only
    cases read data with
    | error reason => rfl
    | ok pair => rfl
  | succ count ih =>
    rw [readMany]
    conv_rhs => rw [readMany]
    cases read data with
    | error reason => rfl
    | ok pair => exact ih _ _

end

theorem exact_field : Exact readField := by
  intro data value rest more found
  unfold readField at found
  split at found
  · obtain ⟨rfl, rfl⟩ := Prod.mk.inj (Except.ok.inj found)
    rfl
  · cases found

theorem exact_unit : Exact readUnit := by
  intro data unit rest more found
  unfold readUnit at found
  split at found
  · obtain ⟨rfl, rfl⟩ := Prod.mk.inj (Except.ok.inj found)
    rfl
  · cases found

theorem exact_code : Exact readCode := by
  intro data code rest more found
  obtain ⟨⟨length, units⟩, field, found⟩ := bind_ok_iff.mp found
  rw [readCode, exact_field _ _ _ more field, ok_bind]
  exact exact_unit.many _ _ _ _ _ more found

theorem hungry_code : Hungry readCode := by
  intro code rest found
  obtain ⟨_, field, -⟩ := bind_ok_iff.mp found
  cases field

theorem hungry_text : Hungry readText := by
  intro text rest found
  obtain ⟨_, field, -⟩ := bind_ok_iff.mp found
  cases field

theorem continues_text : Continues readText := by
  intro data text rest more found left
  obtain ⟨⟨length, content⟩, field, found⟩ := bind_ok_iff.mp found
  dsimp only at found
  split at found
  · rename_i valid
    obtain ⟨rfl, rfl⟩ := Prod.mk.inj (Except.ok.inj found)
    have inside : length ≤ content.length := by
      have some := List.length_pos_iff.mpr left
      rw [List.length_drop] at some
      omega
    rw [readText, exact_field _ _ _ more field, ok_bind]
    dsimp only
    rw [List.take_append_of_le_length inside, valid, List.drop_append_of_le_length inside]
    rfl
  · cases found

theorem hungry_symbol : Hungry readSymbol := by
  intro symbol rest found
  obtain ⟨_, text, -⟩ := bind_ok_iff.mp found
  exact hungry_text _ _ text

theorem continues_symbol : Continues readSymbol := by
  intro data symbol rest more found left
  obtain ⟨⟨name, middle⟩, first, found⟩ := bind_ok_iff.mp found
  obtain ⟨⟨constant, last⟩, second, found⟩ := bind_ok_iff.mp found
  obtain ⟨rfl, rfl⟩ := Prod.mk.inj (Except.ok.inj found)
  rw [readSymbol, continues_text _ _ _ more first (hungry_text.ne_nil second), ok_bind]
  dsimp only
  rw [continues_text _ _ _ more second left]
  rfl

/-! ### Lengths -/

theorem length_of_readField {data rest : List UInt8} {value : Nat}
    (found : readField data = .ok (value, rest)) : data.length = rest.length + 2 := by
  unfold readField at found
  split at found
  · obtain ⟨-, rfl⟩ := Prod.mk.inj (Except.ok.inj found)
    rfl
  · cases found

theorem length_of_readIndex {data rest : List UInt8} {index : Option Int}
    (found : readIndex data = .ok (index, rest)) : data.length = rest.length + 2 := by
  obtain ⟨⟨value, remaining⟩, field, found⟩ := bind_ok_iff.mp found
  obtain ⟨-, rfl⟩ := Prod.mk.inj (Except.ok.inj found)
  exact length_of_readField field

theorem length_of_readBootstrap {data rest : List UInt8} {bootstrap : Bootstrap}
    (found : readBootstrap data = .ok (bootstrap, rest)) : data.length = rest.length + 10 := by
  obtain ⟨⟨_, _⟩, first, found⟩ := bind_ok_iff.mp found
  obtain ⟨⟨_, _⟩, second, found⟩ := bind_ok_iff.mp found
  obtain ⟨⟨_, _⟩, third, found⟩ := bind_ok_iff.mp found
  obtain ⟨⟨_, _⟩, fourth, found⟩ := bind_ok_iff.mp found
  obtain ⟨⟨_, _⟩, fifth, found⟩ := bind_ok_iff.mp found
  obtain ⟨-, rfl⟩ := Prod.mk.inj (Except.ok.inj found)
  have lengths := And.intro (length_of_readIndex first) (And.intro (length_of_readIndex second)
    (And.intro (length_of_readIndex third) (And.intro (length_of_readIndex fourth)
      (length_of_readIndex fifth))))
  omega

/-- What is before the rows has to be there in full. -/
theorem length_of_decode {data : List UInt8} {table : Table} (loaded : decode data = .ok table) :
    24 ≤ data.length := by
  unfold decode at loaded
  split at loaded
  · cases loaded
  · rename_i opened
    split at loaded
    · cases loaded
    · rename_i found rest versioned
      split at loaded
      · cases loaded
      · rw [decodeBody_eq] at loaded
        obtain ⟨⟨_, _⟩, natives, loaded⟩ := bind_ok_iff.mp loaded
        obtain ⟨⟨_, _⟩, compiled, loaded⟩ := bind_ok_iff.mp loaded
        obtain ⟨⟨_, _⟩, slots, loaded⟩ := bind_ok_iff.mp loaded
        obtain ⟨⟨_, _⟩, bootstrap, -⟩ := bind_ok_iff.mp loaded
        have counts := length_of_readField natives
        have others := length_of_readField compiled
        have last := length_of_readField slots
        have indices := length_of_readBootstrap bootstrap
        have version := length_of_readField versioned
        rw [List.length_drop] at counts version
        omega

/-! ### Texts that are cut off -/

theorem ofUtf8?_eq_some_iff {bytes : List UInt8} {text : String} :
    Text.ofUtf8? bytes = some text ↔ bytes = Text.utf8Bytes text.toList := by
  constructor
  · intro valid
    unfold Text.ofUtf8? String.fromUTF8? at valid
    split at valid
    · obtain rfl := Option.some.inj valid
      rw [← List.toByteArray_inj, toByteArray_utf8Bytes]
      rfl
    · cases valid
  · rintro rfl
    exact ofUtf8?_utf8Bytes text

/-- The bytes end in `text`, and when they are cut off they are read exactly if the cut is between
two characters of it, with the result for what is kept of the text. -/
def EndsIn {β : Type} (read : List UInt8 → Except DecodeError β) (bytes : List UInt8)
    (text : String) (shortened : String → β) : Prop :=
  ∃ front, bytes = front ++ Text.utf8Bytes text.toList ∧
    ∀ part missing result, part ++ missing = bytes → missing ≠ [] →
      (read part = .ok result ↔ ∃ kept : String,
        part = front ++ Text.utf8Bytes kept.toList ∧ result = shortened kept)

theorem endsIn_text {text : String} {bytes : List UInt8} (written : encodeText text = .ok bytes) :
    EndsIn readText bytes text fun kept => (kept, []) := by
  obtain ⟨fits, rfl⟩ := encodeText_ok_iff.mp written
  refine ⟨_, rfl, fun part missing result whole short => ?_⟩
  match part with
  | [] =>
    refine ⟨fun found => absurd found (hungry_text _ _), ?_⟩
    rintro ⟨kept, same, -⟩
    cases same
  | [only] =>
    refine ⟨fun found => ?_, ?_⟩
    · obtain ⟨_, field, -⟩ := bind_ok_iff.mp found
      cases field
    · rintro ⟨kept, same, -⟩
      cases same
  | low :: high :: content =>
    simp only [wordBytes, List.cons_append, List.nil_append, List.cons.injEq] at whole
    obtain ⟨rfl, rfl, whole⟩ := whole
    have inside : content.length ≤ text.utf8ByteSize := by
      rw [← length_utf8Bytes, ← whole, List.length_append]
      omega
    have front := readField_wordBytes (Nat.lt_succ_of_le fits) content
    simp only [wordBytes, List.cons_append, List.nil_append] at front ⊢
    rw [readText, front, ok_bind]
    dsimp only
    rw [List.take_of_length_le inside, List.drop_of_length_le inside]
    constructor
    · intro found
      split at found
      · rename_i kept valid
        exact ⟨kept, by rw [ofUtf8?_eq_some_iff.mp valid], (Except.ok.inj found).symm⟩
      · cases found
    · rintro ⟨kept, same, rfl⟩
      obtain rfl := List.cons_inj_right _ |>.mp (List.cons_inj_right _ |>.mp same)
      rw [ofUtf8?_utf8Bytes]
      rfl

section

variable {α β : Type} {text : String}

theorem EndsIn.bind {read : List UInt8 → Except DecodeError α} {next : α → Except DecodeError β}
    {bytes : List UInt8} {shortened : String → α} {results : String → β}
    (ends : EndsIn read bytes text shortened) (goes : ∀ kept, next (shortened kept) = .ok (results kept)) :
    EndsIn (fun data => read data >>= next) bytes text results := by
  obtain ⟨front, rfl, cuts⟩ := ends
  refine ⟨front, rfl, fun part missing result whole short => ?_⟩
  rw [bind_ok_iff]
  constructor
  · rintro ⟨value, found, next⟩
    obtain ⟨kept, rfl, rfl⟩ := (cuts _ _ _ whole short).mp found
    rw [goes] at next
    exact ⟨kept, rfl, (Except.ok.inj next).symm⟩
  · rintro ⟨kept, rfl, rfl⟩
    exact ⟨_, (cuts _ _ _ whole short).mpr ⟨kept, rfl, rfl⟩, goes kept⟩

/-- What comes before a part that needs data is there in full. -/
theorem EndsIn.after {first : List UInt8 → Except DecodeError (α × List UInt8)}
    {next : α × List UInt8 → Except DecodeError β} {before block : List UInt8} {value : α}
    {shortened : String → β} (continues : Continues first)
    (needs : ∀ item result, next (item, []) ≠ .ok result)
    (reads : ∀ rest, first (before ++ rest) = .ok (value, rest))
    (ends : EndsIn (fun rest => next (value, rest)) block text shortened) :
    EndsIn (fun data => first data >>= next) (before ++ block) text shortened := by
  obtain ⟨front, rfl, cuts⟩ := ends
  refine ⟨before ++ front, (List.append_assoc ..).symm, fun part missing result whole short => ?_⟩
  rw [bind_ok_iff]
  constructor
  · rintro ⟨⟨item, rest⟩, found, further⟩
    have left : rest ≠ [] := by
      rintro rfl
      exact needs _ _ further
    obtain ⟨rfl, rfl, behind⟩ := continues.cut (reads _) found left whole
    obtain ⟨kept, rfl, rfl⟩ := (cuts _ _ _ behind short).mp further
    exact ⟨kept, (List.append_assoc ..).symm, rfl⟩
  · rintro ⟨kept, rfl, rfl⟩
    rw [List.append_assoc before, List.append_assoc, List.append_cancel_left_eq] at whole
    rw [List.append_assoc]
    exact ⟨_, reads _, (cuts _ _ _ whole short).mpr ⟨kept, rfl, rfl⟩⟩

theorem split_opening {opening rest cut missing : List UInt8} (long : opening.length ≤ cut.length)
    (whole : cut ++ missing = opening ++ rest) :
    ∃ part, cut = opening ++ part ∧ part ++ missing = rest := by
  obtain ⟨part, rfl⟩ := List.prefix_of_prefix_length_le (List.prefix_append opening rest)
    (whole ▸ List.prefix_append cut missing) long
  rw [List.append_assoc, List.append_cancel_left_eq] at whole
  exact ⟨part, rfl, whole⟩

theorem EndsIn.behind {read next : List UInt8 → Except DecodeError β} {opening bytes : List UInt8}
    {shortened : String → β} (opens : ∀ rest, read (opening ++ rest) = next rest)
    (needs : ∀ data result, read data = .ok result → opening.length ≤ data.length)
    (ends : EndsIn next bytes text shortened) :
    EndsIn read (opening ++ bytes) text shortened := by
  obtain ⟨front, rfl, cuts⟩ := ends
  refine ⟨opening ++ front, (List.append_assoc ..).symm, fun part missing result whole short => ?_⟩
  constructor
  · intro found
    obtain ⟨rest, rfl, behind⟩ := split_opening (needs _ _ found) whole
    rw [opens] at found
    obtain ⟨kept, rfl, rfl⟩ := (cuts _ _ _ behind short).mp found
    exact ⟨kept, (List.append_assoc ..).symm, rfl⟩
  · rintro ⟨kept, rfl, rfl⟩
    rw [List.append_assoc opening, List.append_assoc, List.append_cancel_left_eq] at whole
    rw [List.append_assoc, opens]
    exact (cuts _ _ _ whole short).mpr ⟨kept, rfl, rfl⟩

end

theorem endsIn_symbol {symbol : String × Option String} {bytes : List UInt8}
    (written : encodeSymbol symbol = .ok bytes) :
    EndsIn readSymbol bytes (symbol.2.getD "") fun kept =>
      ((symbol.1, if kept = "" then none else some kept), []) := by
  obtain ⟨name, nameWritten, written⟩ := bind_ok_iff.mp written
  obtain ⟨constant, constantWritten, written⟩ := bind_ok_iff.mp written
  obtain rfl := Except.ok.inj written
  refine EndsIn.after continues_text ?_ (fun rest => readsBack_text _ _ _ nameWritten)
    ((endsIn_text constantWritten).bind fun kept => rfl)
  intro text result found
  obtain ⟨_, second, -⟩ := bind_ok_iff.mp found
  exact hungry_text _ _ second

/-- Of several items that are cut off, all but the last are there in full. -/
theorem EndsIn.many {α : Type} {read : List UInt8 → Except DecodeError (α × List UInt8)}
    {before block : List UInt8} {values : Array α} {count : Nat} {text : String}
    {shortened : String → α} (ends : EndsIn read block text fun kept => (shortened kept, []))
    (continues : Continues read) (hungry : Hungry read)
    (reads : ∀ rest, readMany read #[] count (before ++ rest) = .ok (values, rest)) :
    EndsIn (readMany read #[] (count + 1)) (before ++ block) text
      fun kept => (values.push (shortened kept), []) := by
  rw [funext (readMany_succ #[] count)]
  refine EndsIn.after (continues.many hungry _ _) ?_ reads (ends.bind fun kept => rfl)
  intro items result found
  obtain ⟨_, last, -⟩ := bind_ok_iff.mp found
  exact hungry _ _ last

theorem mapM_push_ok {ε α β : Type} {f : α → Except ε β} {values : Array α} {last : α}
    {results : List β} (mapped : (values.push last).toList.mapM f = .ok results) :
    ∃ others result, values.toList.mapM f = .ok others ∧ f last = .ok result ∧
      results = others ++ [result] := by
  rw [Array.toList_push, List.mapM_append] at mapped
  obtain ⟨others, first, mapped⟩ := bind_ok_iff.mp mapped
  obtain ⟨one, second, mapped⟩ := bind_ok_iff.mp mapped
  obtain rfl := Except.ok.inj mapped
  rw [mapM_ok_iff, List.forall₂_cons_left_iff] at second
  obtain ⟨result, rest, found, none, rfl⟩ := second
  rw [List.forall₂_nil_left_iff] at none
  exact ⟨others, result, first, found, by rw [none]⟩

/-! ### Tables that are cut off -/

/-- The text that the binary form of a table without compiled words ends in: the last variable or,
where there are none, the constant of the last word. -/
def lastText? (table : Table) : Option String :=
  match table.variableNames.back? with
  | some name => some name
  | none => table.constants.back?.map (·.getD "")

/-- The table with another last text. -/
def withLastText (table : Table) (text : String) : Table :=
  if table.variableNames.isEmpty then
    { table with
      constants := table.constants.pop.push (if text = "" then none else some text) }
  else { table with variableNames := table.variableNames.pop.push text }

namespace Parts

variable {parts : Parts} {symbols slots codes : List (List UInt8)}

theorem readSymbols (canonical : parts.Canonical)
    (rows : parts.symbols.toList.mapM encodeSymbol = .ok symbols) (rest : List UInt8) :
    readMany readSymbol #[] (parts.natives + parts.codes.size) (symbols.flatten ++ rest) =
      .ok (parts.symbols, rest) := by
  rw [← parts.rows]
  exact readMany_blocks rows
    (fun symbol member => readsBack_symbol (canonical.constants symbol member)) rest

/-- The codes are all there or none is read, so the parts before them are there in full too. -/
theorem readRows_codes (canonical : parts.Canonical)
    (rows : parts.symbols.toList.mapM encodeSymbol = .ok symbols)
    (texts : parts.slots.toList.mapM encodeText = .ok slots)
    (units : parts.codes.toList.mapM encodeCode = .ok codes) (coded : 0 < parts.codes.size)
    {part missing : List UInt8} {loaded : Table}
    (whole : part ++ missing = symbols.flatten ++ (slots.flatten ++ codes.flatten))
    (read : readRows parts.natives parts.codes.size parts.slots.size parts.bootstrap part =
      .ok loaded) : missing = [] := by
  obtain ⟨⟨_, names⟩, first, read⟩ := bind_ok_iff.mp read
  obtain ⟨⟨_, left⟩, second, read⟩ := bind_ok_iff.mp read
  obtain ⟨⟨_, rest⟩, third, -⟩ := bind_ok_iff.mp read
  have behind : left ≠ [] := hungry_code.many third (.inl coded)
  have after : names ≠ [] := hungry_text.many second (.inr behind)
  obtain ⟨-, -, whole⟩ := (continues_symbol.many hungry_symbol _ _).cut
    (readSymbols canonical rows _) first after whole
  obtain ⟨-, -, whole⟩ := (continues_text.many hungry_text _ _).cut
    (readMany_blocks texts (fun name _ => readsBack_text name) _) second behind whole
  have all := exact_code.many _ _ _ _ _ missing third
  have last := readMany_blocks units (fun code _ => readsBack_code code) []
  rw [whole, ← List.append_nil codes.flatten, last] at all
  exact (List.append_eq_nil_iff.mp (Prod.mk.inj (Except.ok.inj all)).2.symm).2

theorem readRows_slots (canonical : parts.Canonical)
    (rows : parts.symbols.toList.mapM encodeSymbol = .ok symbols)
    (texts : parts.slots.toList.mapM encodeText = .ok slots) (uncoded : parts.codes = #[])
    {names : Array String} {last : String} (ends : parts.slots = names.push last) :
    EndsIn (readRows parts.natives parts.codes.size parts.slots.size parts.bootstrap)
      (symbols.flatten ++ slots.flatten) last parts.table.withLastText := by
  have reads := readSymbols canonical rows
  have shortened : ∀ kept, parts.table.withLastText kept =
      { parts.table with variableNames := names.push kept } := by
    intro kept
    simp [withLastText, table, ends]
  rw [ends] at texts
  obtain ⟨others, block, front, text, rfl⟩ := mapM_push_ok texts
  have slotted := (endsIn_text text).many continues_text hungry_text
    (readMany_blocks front fun name _ => readsBack_text name)
  rw [List.flatten_append, List.flatten_singleton, ends, Array.size_push, funext shortened]
  refine EndsIn.after (continues_symbol.many hungry_symbol _ _) ?_ reads
    (slotted.bind fun kept => ?_)
  · intro items result found
    obtain ⟨_, second, -⟩ := bind_ok_iff.mp found
    exact hungry_text.many second (.inl (Nat.succ_pos _)) rfl
  · rw [uncoded]
    simp [readMany, ok_bind, pure, Except.pure, table, uncoded]

theorem readRows_symbols (canonical : parts.Canonical)
    (rows : parts.symbols.toList.mapM encodeSymbol = .ok symbols) (uncoded : parts.codes = #[])
    (unslotted : parts.slots = #[]) {others : Array (String × Option String)}
    {last : String × Option String} (ends : parts.symbols = others.push last) :
    EndsIn (readRows parts.natives parts.codes.size parts.slots.size parts.bootstrap)
      symbols.flatten (last.2.getD "") parts.table.withLastText := by
  have count : parts.natives + parts.codes.size = others.size + 1 := by
    rw [← parts.rows, ends, Array.size_push]
  have named := canonical.constants
  rw [ends] at rows named
  obtain ⟨blocks, block, front, symbol, rfl⟩ := mapM_push_ok rows
  have listed := (endsIn_symbol symbol).many continues_symbol hungry_symbol
    (readMany_blocks front fun symbol member =>
      readsBack_symbol (named symbol (Array.mem_push.mpr (.inl member))))
  have shortened : ∀ kept, parts.table.withLastText kept =
      { parts.table with
        constants := (others.map (·.2)).push (if kept = "" then none else some kept) } := by
    intro kept
    simp [withLastText, table, ends, unslotted]
  rw [← count] at listed
  rw [List.flatten_append, List.flatten_singleton, funext shortened]
  refine listed.bind fun kept => ?_
  rw [uncoded, unslotted]
  simp [readMany, ok_bind, pure, Except.pure, table, uncoded, unslotted, ends]

theorem lastText?_cases (parts : Parts) :
    (∃ (names : Array String) (last : String), parts.slots = names.push last ∧
      parts.table.lastText? = some last) ∨
    (∃ (others : Array (String × Option String)) (last : String × Option String),
      parts.slots = #[] ∧ parts.symbols = others.push last ∧
        parts.table.lastText? = some (last.2.getD "")) ∨
    (parts.slots = #[] ∧ parts.symbols = #[] ∧ parts.table.lastText? = none) := by
  by_cases slotted : parts.slots.size = 0
  · have unslotted := Array.eq_empty_of_size_eq_zero slotted
    by_cases listed : parts.symbols.size = 0
    · have unlisted := Array.eq_empty_of_size_eq_zero listed
      exact .inr (.inr ⟨unslotted, unlisted, by simp [lastText?, table, unslotted, unlisted]⟩)
    · obtain ⟨others, last, ends⟩ := Array.eq_push_of_size_ne_zero listed
      exact .inr (.inl ⟨others, last, unslotted, ends, by simp [lastText?, table, unslotted, ends]⟩)
  · obtain ⟨names, last, ends⟩ := Array.eq_push_of_size_ne_zero slotted
    exact .inl ⟨names, last, ends, by simp [lastText?, table, ends]⟩

/-- Without compiled words, the binary form ends in the last text. -/
theorem decode_endsIn (canonical : parts.Canonical) {bytes : List UInt8}
    (encoded : parts.table.encode = .ok bytes) (uncoded : parts.codes = #[]) {text : String}
    (ends : parts.table.lastText? = some text) :
    EndsIn decode bytes text parts.table.withLastText := by
  obtain ⟨opening, symbols, slots, codes, rfl, size, opens, rows, texts, units⟩ :=
    encode_cases canonical encoded
  refine EndsIn.behind opens (fun data result loaded => size ▸ length_of_decode loaded) ?_
  obtain rfl : codes = [] := by
    rw [uncoded] at units
    exact (Except.ok.inj units).symm
  rw [List.flatten_nil, List.append_nil]
  obtain ⟨names, last, slotted, same⟩ | ⟨others, last, unslotted, listed, same⟩ | ⟨-, -, same⟩ :=
    parts.lastText?_cases
  · obtain rfl := Option.some.inj (ends.symm.trans same)
    exact readRows_slots canonical rows texts uncoded slotted
  · obtain rfl := Option.some.inj (ends.symm.trans same)
    obtain rfl : slots = [] := by
      rw [unslotted] at texts
      exact (Except.ok.inj texts).symm
    rw [List.flatten_nil, List.append_nil]
    exact readRows_symbols canonical rows uncoded unslotted listed
  · rw [same] at ends
    cases ends

theorem decode_cut_lastText {bytes cut missing : List UInt8} (canonical : parts.Canonical)
    (encoded : parts.table.encode = .ok bytes) (whole : cut ++ missing = bytes)
    (short : missing ≠ []) {loaded : Table} (found : decode cut = .ok loaded) :
    parts.codes = #[] ∧ ∃ last, parts.table.lastText? = some last := by
  obtain ⟨opening, symbols, slots, codes, rfl, size, opens, rows, texts, units⟩ :=
    encode_cases canonical encoded
  obtain ⟨part, rfl, behind⟩ := split_opening (size ▸ length_of_decode found) whole
  rw [opens] at found
  have uncoded : parts.codes.size = 0 := by
    by_contra coded
    exact short (readRows_codes canonical rows texts units (Nat.pos_of_ne_zero coded) behind found)
  refine ⟨Array.eq_empty_of_size_eq_zero uncoded, ?_⟩
  obtain ⟨_, last, -, same⟩ | ⟨_, last, -, -, same⟩ | ⟨unslotted, unlisted, -⟩ :=
    parts.lastText?_cases
  · exact ⟨last, same⟩
  · exact ⟨_, same⟩
  · -- Then no bytes follow the opening, so none are missing.
    rw [unlisted] at rows
    rw [unslotted] at texts
    rw [Array.eq_empty_of_size_eq_zero uncoded] at units
    obtain rfl := Except.ok.inj rows
    obtain rfl := Except.ok.inj texts
    obtain rfl := Except.ok.inj units
    exact absurd (List.append_eq_nil_iff.mp behind).2 short

/-- A binary form that is cut off is refused, unless there are no compiled words and the cut is
between two characters of the last text. -/
theorem decode_cut {bytes cut missing : List UInt8} (canonical : parts.Canonical)
    (encoded : parts.table.encode = .ok bytes) (whole : cut ++ missing = bytes)
    (short : missing ≠ []) (loaded : Table) :
    decode cut = .ok loaded ↔ parts.codes = #[] ∧ ∃ front last kept,
      parts.table.lastText? = some last ∧ bytes = front ++ Text.utf8Bytes last.toList ∧
      cut = front ++ Text.utf8Bytes kept.toList ∧ loaded = parts.table.withLastText kept := by
  constructor
  · intro found
    obtain ⟨uncoded, last, ends⟩ := decode_cut_lastText canonical encoded whole short found
    obtain ⟨front, rfl, cuts⟩ := decode_endsIn canonical encoded uncoded ends
    obtain ⟨kept, rfl, rfl⟩ := (cuts _ _ _ whole short).mp found
    exact ⟨uncoded, front, last, kept, ends, rfl, rfl, rfl⟩
  · rintro ⟨uncoded, front, last, kept, ends, rfl, rfl, rfl⟩
    obtain ⟨same, split, cuts⟩ := decode_endsIn canonical encoded uncoded ends
    obtain rfl := List.append_cancel_right split
    exact (cuts _ _ _ whole short).mpr ⟨kept, rfl, rfl⟩

end Parts

end Table

namespace Compilation

open Table

/-- A binary form of a compiled source that is cut off is read in one case only: there are no
compiled words, and the cut is between two characters of the last text. The table is then the one
with that text shortened. -/
theorem ofText_truncation {source : String} {filename : Option String} {order : Order}
    {compilation : Compilation}
    (returned : (ofText source filename order).outcome = .ok compilation)
    {bytes : List UInt8} (encoded : compilation.table.encode = .ok bytes) {cut : List UInt8}
    (front : cut <+: bytes) (strict : cut ≠ bytes) (loaded : Table) :
    Table.decode cut = .ok loaded ↔ compilation.table.compiledCount = 0 ∧
      ∃ front last kept, compilation.table.lastText? = some last ∧
        bytes = front ++ Text.utf8Bytes last.toList ∧
        cut = front ++ Text.utf8Bytes kept.toList ∧
        loaded = { compilation.table.withLastText kept with
          docs := compilation.table.docs.map fun _ => none } := by
  obtain ⟨state, table, regular⟩ := ofText_regular returned
  obtain ⟨missing, whole⟩ := front
  have short : missing ≠ [] := by
    rintro rfl
    exact strict (by rw [← whole, List.append_nil])
  rw [table] at encoded ⊢
  have canonical := partsOf_canonical regular encoded
  rw [← encode_partsOf] at encoded
  have cuts := Parts.decode_cut canonical encoded whole short loaded
  have count : (tableOf state).compiledCount = 0 ↔ (partsOf state).codes = #[] := by
    rw [compiledCount_tableOf, partsOf]
    simp
  have shortened : ∀ kept, { (tableOf state).withLastText kept with
      docs := (tableOf state).docs.map fun _ => none } =
      (partsOf state).table.withLastText kept := by
    intro kept
    rw [← tableOf_undocumented]
    unfold withLastText
    split <;> rfl
  simp only [count, shortened]
  rw [cuts, ← tableOf_undocumented]
  rfl

/-- Where a word is compiled, no part of the binary form is read. -/
theorem ofText_truncation_sample :
    ∃ compilation bytes, (ofText documentedSource none .shadowing).outcome = .ok compilation ∧
      compilation.table.encode = .ok bytes ∧
      ∀ cut, cut <+: bytes → cut ≠ bytes → ∀ loaded, Table.decode cut ≠ .ok loaded := by
  have evaluated : (ofText documentedSource none .shadowing).outcome.toOption.bind
      (fun compilation => compilation.table.encode.toOption.map fun _ =>
        compilation.table.compiledCount) = some 1 := by decide +kernel
  obtain ⟨compilation, present, evaluated⟩ := Option.bind_eq_some_iff.mp evaluated
  obtain ⟨bytes, written, count⟩ := Option.map_eq_some_iff.mp evaluated
  have returned := ok_of_toOption present
  have encoded := ok_of_toOption written
  refine ⟨compilation, bytes, returned, encoded, fun cut front strict loaded found => ?_⟩
  obtain ⟨uncompiled, -⟩ := (ofText_truncation returned encoded front strict loaded).mp found
  rw [count] at uncompiled
  cases uncompiled

/-- A source with a variable and no words. -/
def wordlessSource : String := "/*CONSTS*/\n/*CODE*/\n========\nxyz\n========\n========\n"

/-- Without its last byte, the binary form is that of a table with another variable. -/
theorem shortened_variable_loaded :
    ∃ compilation bytes loaded,
      (ofText wordlessSource none .shadowing).outcome = .ok compilation ∧
      compilation.table.encode = .ok bytes ∧ bytes.dropLast ≠ bytes ∧
      Table.decode bytes.dropLast = .ok loaded ∧ compilation.table.variableNames = #["xyz"] ∧
      loaded.variableNames = #["xy"] := by
  have evaluated : (ofText wordlessSource none .shadowing).outcome.toOption.bind (fun compilation =>
      compilation.table.encode.toOption.bind fun bytes =>
        (Table.decode bytes.dropLast).toOption.map fun loaded =>
          (bytes.length, compilation.table.variableNames, loaded.variableNames)) =
      some (29, #["xyz"], #["xy"]) := by decide +kernel
  obtain ⟨compilation, returned, evaluated⟩ := Option.bind_eq_some_iff.mp evaluated
  obtain ⟨bytes, encoded, evaluated⟩ := Option.bind_eq_some_iff.mp evaluated
  obtain ⟨loaded, decoded, evaluated⟩ := Option.map_eq_some_iff.mp evaluated
  obtain ⟨size, names, shorter⟩ := Prod.mk.inj evaluated |>.imp_right Prod.mk.inj
  refine ⟨compilation, bytes, loaded, ok_of_toOption returned, ok_of_toOption encoded, ?_,
    ok_of_toOption decoded, names, shorter⟩
  intro same
  have lengths := congrArg List.length same
  rw [List.length_dropLast, size] at lengths
  omega

end Compilation

end ThreadedCode
