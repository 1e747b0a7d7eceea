import ThreadedCode.Interpreter.Source
import ThreadedCode.Proofs.BodyLines
import ThreadedCode.Proofs.UnitRange

/-!
# Well-formed tables

The text forms of a table read its columns side by side, take a first unit from every compiled code
and look names up by any unit they meet. On a well-formed table none of this fails, and the table of
a compiled source is well formed.
-/

namespace ThreadedCode

open Compiler

theorem Position.mem_span {first last index : Int} :
    index ∈ Position.span first last ↔ first ≤ index ∧ index < last := by
  simp only [span, List.mem_map, List.mem_range]
  constructor
  · rintro ⟨k, below, rfl⟩
    omega
  · rintro ⟨start, below⟩
    exact ⟨(index - first).toNat, by omega, by omega⟩

namespace Table

section

variable {ε α β σ : Type}

theorem bind_isOk {first : Except ε α} {next : α → Except ε β} (found : ∃ value, first = .ok value)
    (rest : ∀ value, first = .ok value → ∃ result, next value = .ok result) :
    ∃ result, (first >>= next) = .ok result := by
  obtain ⟨value, same⟩ := found
  obtain ⟨result, given⟩ := rest value same
  exact ⟨result, bind_ok_iff.mpr ⟨value, same, given⟩⟩

theorem foldlM_isOk {step : σ → α → Except ε σ} {values : List α}
    (total : ∀ state, ∀ value ∈ values, ∃ next, step state value = .ok next) (state : σ) :
    ∃ last, values.foldlM step state = .ok last := by
  induction values generalizing state with
  | nil => exact ⟨state, rfl⟩
  | cons value values ih =>
    rw [List.foldlM_cons]
    refine bind_isOk (total state value List.mem_cons_self) fun next _ => ih ?_ next
    intro state other member
    exact total state other (List.mem_cons_of_mem _ member)

end

/-- A table whose columns have the same rows, native words first, and whose compiled rows have code
that begins with the flags. -/
structure WellFormed (table : Table) : Prop where
  counts : 0 ≤ table.nativeCount ∧ 0 ≤ table.compiledCount
  constants : table.constants.size = table.names.size
  docs : table.docs.size = table.names.size
  codes : table.codes.size = table.names.size
  natives : ∀ row : Nat, (row : Int) < table.nativeCount → table.codes[row]? = some none
  compiled : ∀ row : Nat, table.nativeCount ≤ row → row < table.names.size →
    ∃ code flags, table.codes[row]? = some (some code) ∧ code[0]? = some flags ∧ flags ≤ 7 ∧
      ∀ unit ∈ code, 0 ≤ unit ∧ unit < max 65536 (table.names.size : Int)
  named : ∀ constant ∈ table.constants, constant ≠ none ∧ constant ≠ some ""
  distinct : (table.constants.toList.take table.nativeCount.toNat).Nodup
  bootstrap : ∀ index : Int, some index ∈ table.bootstrap.toList →
    0 ≤ index ∧ index < table.nativeCount

/-! ### Listings -/

theorem isWritable_of_lt {table : Table} {unit : Int} (positive : 0 ≤ unit)
    (below : unit < max 65536 (table.names.size : Int)) : table.isWritable unit = true := by
  by_cases inside : unit < table.names.size
  · simp [isWritable, positive, inside]
  · have few : unit.natAbs < 10 ^ Text.maxDigits :=
      (show unit.natAbs < 10 ^ 5 by omega).trans_le (Nat.pow_le_pow_right (by decide) (by decide))
    simp [isWritable, Compiler.State.isWritable_iff.mpr few]

namespace WellFormed

variable {table : Table}

theorem names_row (formed : table.WellFormed) {α : Type} {column : Array α} {index : Int}
    (size : column.size = table.names.size) (start : table.nativeCount ≤ index)
    (inside : index < table.names.size) : ∃ value, row column index = .ok value := by
  have counts := formed.counts
  exact row_isOk (by omega) (by omega)

theorem code_row (formed : table.WellFormed) {index : Int} (start : table.nativeCount ≤ index)
    (inside : index < table.names.size) :
    ∃ code flags, row table.codes index = .ok (some code) ∧ row code 0 = .ok flags ∧
      flags ∈ code ∧ ∀ unit ∈ code, 0 ≤ unit ∧ table.isWritable unit = true := by
  have counts := formed.counts
  obtain ⟨place, rfl⟩ := Int.eq_ofNat_of_zero_le (by omega : 0 ≤ index)
  obtain ⟨code, flags, there, first, -, ranged⟩ :=
    formed.compiled place start (Int.ofNat_lt.mp inside)
  exact ⟨code, flags, row_of_getElem? there, row_of_getElem? first, Array.mem_of_getElem? first,
    fun unit member => ⟨(ranged unit member).1,
      isWritable_of_lt (ranged unit member).1 (ranged unit member).2⟩⟩

theorem listWord_isOk (formed : table.WellFormed) {index : Int}
    (start : table.nativeCount ≤ index) (inside : index < table.names.size) :
    ∃ lines, table.listWord index = .ok lines := by
  obtain ⟨code, flags, stored, first, listed, shown⟩ := formed.code_row start inside
  unfold listWord
  refine bind_isOk ⟨_, stored⟩ fun found same => ?_
  obtain rfl := Except.ok.inj (stored.symm.trans same)
  refine bind_isOk (formed.names_row formed.docs start inside) fun doc _ => ?_
  refine bind_isOk (formed.names_row rfl start inside) fun name _ => ?_
  refine bind_isOk ⟨flags, first⟩ fun unit same => ?_
  obtain rfl := Except.ok.inj (first.symm.trans same)
  refine bind_isOk ⟨_, if_pos (shown flags listed).2⟩ fun digits _ => ?_
  have body := disassemble_isOk (fun unit member => (shown unit member).1)
    fun unit member => (shown unit member).2
  exact bind_isOk body fun lines _ => ⟨_, rfl⟩

/-- A well-formed table can be listed. -/
theorem listing_isOk (formed : table.WellFormed) : ∃ text, table.listing = .ok text := by
  have counts := formed.counts
  have rows : ∀ index ∈ table.nativeRows, 0 ≤ index ∧ index < table.names.size := by
    intro index member
    obtain ⟨start, below⟩ := Position.mem_span.mp member
    have count : table.compiledCount = table.names.size - table.nativeCount := rfl
    omega
  unfold listing
  refine bind_isOk ?_ fun natives _ => bind_isOk ?_ fun compiled _ => ⟨_, rfl⟩
  · rw [mapNatives_eq, mapM_isOk_iff]
    intro index member
    obtain ⟨name, found⟩ := row_isOk (rows index member).1 (rows index member).2
    rw [found]
    exact ⟨_, rfl⟩
  · rw [mapCompiled_eq, mapM_isOk_iff]
    intro index member
    obtain ⟨start, inside⟩ := Position.mem_span.mp member
    exact formed.listWord_isOk start inside

end WellFormed

end Table

/-! ### The interpreter source -/

/-- Sections in which no text is missing. -/
structure Source.Sections.Complete (sections : Source.Sections) : Prop where
  prologue : sections.template.prologue ≠ none
  interlude : sections.template.interlude ≠ none
  epilogue : sections.template.epilogue ≠ none
  bodies : ∀ native ∈ sections.natives, native.body ≠ none

namespace Source

theorem readTemplate_complete {lines : List Line} {template : Template}
    (read : readTemplate lines = .ok template) :
    template.prologue ≠ none ∧ template.interlude ≠ none ∧ template.epilogue ≠ none := by
  unfold readTemplate at read
  dsimp only at read
  split at read
  · cases read
  · split at read
    · cases read
    · obtain rfl := Except.ok.inj read
      simp

theorem readNatives_complete {lines : List Line} {natives : List Native}
    (read : readNatives lines = .ok natives) : ∀ native ∈ natives, native.body ≠ none := by
  intro native member
  unfold readNatives at read
  split at read
  · obtain rfl := Except.ok.inj read
    cases member
  · split at read
    · cases read
    · obtain rfl := Except.ok.inj read
      rcases mem_nativesFrom member with old | ⟨header, -, body, rfl⟩
      · simp at old
      · simp [readNative]

theorem read_complete {source : String} {filename : Option String} {sections : Sections}
    (done : read source filename = .ok sections) : sections.Complete := by
  unfold read at done
  dsimp only at done
  split at done
  · split at done
    · cases done
    · rename_i template templated
      split at done
      · cases done
      · rename_i natives natively
        obtain rfl := Except.ok.inj done
        obtain ⟨prologue, interlude, epilogue⟩ := readTemplate_complete templated
        exact ⟨prologue, interlude, epilogue, readNatives_complete natively⟩
  · cases done

end Source

namespace Interpreter

open Table (row bind_isOk foldlM_isOk row_of_getElem? row_isOk mapM_isOk_iff)

theorem isReferenced_isOk (name : String) {texts : List (Option (List Char))}
    (present : ∀ text ∈ texts, text ≠ none) : ∃ found, isReferenced name texts = .ok found := by
  induction texts with
  | nil => exact ⟨false, rfl⟩
  | cons text texts ih =>
    obtain ⟨first, others⟩ := List.forall_mem_cons.mp present
    cases text with
    | none => exact absurd rfl first
    | some text =>
      rw [isReferenced]
      by_cases occurs : Text.occursIn name.toList text
      · rw [if_pos occurs]
        exact ⟨true, rfl⟩
      · rw [if_neg occurs]
        exact ih others

theorem referringTexts_present {sections : Source.Sections} (complete : sections.Complete) :
    ∀ text ∈ referringTexts sections, text ≠ none := by
  intro text member
  obtain ⟨part, listed, rfl⟩ := List.mem_map.mp member
  have present : part ≠ none := by
    rcases List.mem_append.mp listed with template | body
    · simp only [List.mem_cons, List.not_mem_nil, or_false] at template
      rcases template with rfl | rfl | rfl
      · exact complete.prologue
      · exact complete.interlude
      · exact complete.epilogue
    · obtain ⟨native, there, rfl⟩ := List.mem_map.mp body
      exact complete.bodies native there
  simpa using present

section

variable {table : Table} (formed : table.WellFormed)

include formed

theorem constants_row {index : Int} (start : 0 ≤ index) (inside : index < table.names.size) :
    ∃ constant, row table.constants index = .ok (some constant) := by
  obtain ⟨place, rfl⟩ := Int.eq_ofNat_of_zero_le start
  have bound : place < table.constants.size := by
    rw [formed.constants]
    exact Int.ofNat_lt.mp inside
  have there := Array.getElem?_eq_getElem bound
  obtain ⟨present, -⟩ := formed.named _ (Array.mem_of_getElem? there)
  obtain ⟨constant, same⟩ := Option.ne_none_iff_exists'.mp present
  exact ⟨constant, row_of_getElem? (there.trans (congrArg some same))⟩

theorem nativeConstants_isOk : ∃ rows, nativeConstants table = .ok rows := by
  have counts := formed.counts
  rw [nativeConstants, Table.mapNatives_eq, mapM_isOk_iff]
  intro index member
  obtain ⟨start, below⟩ := Position.mem_span.mp member
  have inside : index < table.names.size := by
    have count : table.compiledCount = table.names.size - table.nativeCount := rfl
    omega
  obtain ⟨constant, found⟩ := constants_row formed start inside
  rw [found]
  exact ⟨_, rfl⟩

theorem addCompiled_isOk {texts : List (Option (List Char))}
    (present : ∀ text ∈ texts, text ≠ none) (declared : Declared) {index : Int}
    (start : table.nativeCount ≤ index) (inside : index < table.names.size) :
    ∃ next, declared.addCompiled texts table index = .ok next := by
  have counts := formed.counts
  obtain ⟨constant, found⟩ := constants_row formed (by omega) inside
  unfold Declared.addCompiled
  refine bind_isOk ⟨_, found⟩ fun value _ => ?_
  split
  · exact ⟨_, rfl⟩
  · dsimp only
    split
    · exact ⟨_, rfl⟩
    · refine bind_isOk (isReferenced_isOk _ present) fun referenced _ => ?_
      split <;> exact ⟨_, rfl⟩

theorem constants_isOk {sections : Source.Sections} (complete : sections.Complete) :
    ∃ text, constants sections table = .ok text := by
  unfold constants
  refine bind_isOk (nativeConstants_isOk formed) fun natives _ => ?_
  refine bind_isOk ?_ fun declared _ => ⟨_, rfl⟩
  rw [Table.foldCompiled_eq]
  refine foldlM_isOk (fun declared index member => ?_) _
  obtain ⟨start, inside⟩ := Position.mem_span.mp member
  exact addCompiled_isOk formed (referringTexts_present complete) declared start inside

theorem codeTable_isOk : ∃ text, codeTable table = .ok text := by
  refine bind_isOk ?_ fun rows _ => ⟨_, rfl⟩
  rw [Table.mapCompiled_eq, mapM_isOk_iff]
  intro index member
  obtain ⟨start, inside⟩ := Position.mem_span.mp member
  obtain ⟨code, -, stored, -⟩ := formed.code_row start inside
  unfold codeLine
  refine bind_isOk ⟨_, stored⟩ fun found same => ?_
  obtain rfl := Except.ok.inj (stored.symm.trans same)
  refine bind_isOk (formed.names_row rfl start inside) fun name _ => ?_
  exact bind_isOk (formed.names_row formed.docs start inside) fun doc _ => ⟨_, rfl⟩

theorem dispatch_isOk : ∃ text, dispatch table = .ok text := by
  refine bind_isOk ?_ fun natives _ => ⟨_, rfl⟩
  rw [dispatchConstants, mapM_isOk_iff]
  intro constant member
  have listed : constant ∈ table.constants := by
    have taken : constant ∈ table.constants.toList.take
        (Position.cut table.constants.size table.nativeCount) := by
      simpa [Position.before] using member
    exact Array.mem_toList_iff.mp (List.mem_of_mem_take taken)
  cases constant with
  | none => exact absurd rfl (formed.named none listed).1
  | some constant => exact ⟨constant, rfl⟩

/-- The interpreter source can be written for a well-formed table. -/
theorem render_isOk {sections : Source.Sections} (complete : sections.Complete) :
    ∃ text, render sections table = .ok text := by
  have part : ∀ {text : Option String}, text ≠ none → ∃ result, templatePart text = .ok result := by
    intro text present
    cases text with
    | none => exact absurd rfl present
    | some text => exact ⟨text, rfl⟩
  have methods : ∃ text, nativeMethods sections table = .ok text := by
    refine bind_isOk ?_ fun methods _ => ⟨_, rfl⟩
    rw [mapM_isOk_iff]
    rintro ⟨native, constant⟩ member
    have present := complete.bodies native (List.of_mem_zip member).1
    cases body : native.body with
    | none => exact absurd body present
    | some text => exact ⟨_, by simp only [nativeMethod, body]; rfl⟩
  unfold render
  refine bind_isOk (constants_isOk formed complete) fun _ _ => ?_
  refine bind_isOk (codeTable_isOk formed) fun _ _ => ?_
  refine bind_isOk methods fun _ _ => ?_
  refine bind_isOk (dispatch_isOk formed) fun _ _ => ?_
  refine bind_isOk (part complete.prologue) fun _ _ => ?_
  refine bind_isOk (part complete.interlude) fun _ _ => ?_
  exact bind_isOk (part complete.epilogue) fun _ _ => ⟨_, rfl⟩

end

end Interpreter

/-! ### Compiled sources -/

theorem Log.split_words {log : Log} {place : Nat} (inside : place < log.words.length) :
    ∃ (earlier later : Log) (definition : Source.Definition) (word : CompiledWord),
      log = earlier ++ (definition, some word) :: later ∧ earlier.words.length = place := by
  induction log generalizing place with
  | nil => simp [Log.words] at inside
  | cons entry log ih =>
    obtain ⟨definition, word⟩ := entry
    cases word with
    | none =>
      have bound : place < (Log.words log).length := by simpa [Log.words] using inside
      obtain ⟨earlier, later, found, word, same, count⟩ := ih bound
      exact ⟨(definition, none) :: earlier, later, found, word, by rw [same]; rfl,
        by simpa [Log.words] using count⟩
    | some word =>
      cases place with
      | zero => exact ⟨[], log, definition, word, rfl, rfl⟩
      | succ place =>
        have bound : place < (Log.words log).length := by simpa [Log.words] using inside
        obtain ⟨earlier, later, found, other, same, count⟩ := ih bound
        exact ⟨(definition, some word) :: earlier, later, found, other, by rw [same]; rfl,
          by simpa [Log.words] using count⟩

namespace Runs

variable {start final : State} {log : Log}

theorem size_compiled (runs : Runs start log final) (fresh : start.Fresh) :
    final.compiled.size = log.words.length := by
  have total := congrArg List.length runs.declared
  have catalog : final.catalog = start.catalog := congrArg Setup.catalog runs.setup
  simp only [List.length_append, List.length_map, State.length_declared, State.nextIndex, catalog,
    fresh.compiled] at total
  simpa using total

/-- Every compiled row is that of a definition. -/
theorem row_at (runs : Runs start log final) (fresh : start.Fresh) {place : Nat}
    (inside : place < final.compiled.size) :
    ∃ earlier later definition word before turns draft code,
      log = earlier ++ (definition, some word) :: later ∧
      Compilation.Row start (Compilation.tableOf final.finish.1) earlier definition word before
        turns draft (start.catalog.size + place) code := by
  rw [runs.size_compiled fresh] at inside
  obtain ⟨earlier, later, definition, word, rfl, count⟩ := Log.split_words inside
  obtain ⟨before, -, turns, draft, code, front, -, -, row, -⟩ := runs.row fresh
  have catalog : before.catalog = start.catalog := congrArg Setup.catalog front.setup
  have index : before.nextIndex = start.catalog.size + place := by
    rw [State.nextIndex, front.size_compiled fresh, count, catalog]
  rw [index] at row
  exact ⟨earlier, later, definition, word, before, turns, draft, code, rfl, row⟩

end Runs

namespace Compilation

/-- A compiled word begins with its flags, of which there are three. -/
theorem Row.first {start : State} {table : Table} {earlier : Log} {definition : Source.Definition}
    {word : CompiledWord} {before : State} {turns : List Turn} {draft : Draft} {place : Nat}
    {code : Array Int}
    (row : Row start table earlier definition word before turns draft place code) :
    code[0]? = some (word.flags.bits : Int) ∧ word.flags.bits ≤ 7 := by
  refine ⟨?_, ?_⟩
  · obtain ⟨body, units, -⟩ := row.laid
    rw [← Array.getElem?_toList, units, List.getElem?_cons_zero]
  · obtain ⟨number, -, tokens⟩ := row.body
    have bits : word.flags.bits < 2 ^ 3 := by
      rw [row.flags, row.passes.flags]
      refine foldl_flagBits_lt (Nat.two_pow_pos 3) fun token member => ?_
      obtain ⟨turn, listed, rfl⟩ := List.mem_map.mp member
      exact (bodyTokens?_read tokens _ (List.mem_map_of_mem (List.mem_filter.mp listed).1)).1
    omega

theorem tableOf_wellFormed {state : State} (regular : state.Regular) (bounded : state.Bounded)
    (distinct : (state.catalog.words.toList.map (·.constant)).Nodup)
    (flagged : ∀ word ∈ state.compiled, ∃ flags, word.code[0]? = some flags ∧ flags ≤ 7) :
    (tableOf state).WellFormed where
  counts := by
    rw [compiledCount_tableOf]
    exact ⟨Int.natCast_nonneg _, Int.natCast_nonneg _⟩
  constants := by simp [tableOf, Table.assemble]
  docs := by simp [tableOf, Table.assemble]
  codes := by simp [tableOf, Table.assemble]
  natives := by
    intro row below
    have inside : row < state.catalog.words.size := Int.ofNat_lt.mp below
    simp [tableOf, Table.assemble, Array.getElem?_append_left, inside]
  compiled := by
    intro row start inside
    have above : state.catalog.size ≤ row := Int.ofNat_le.mp start
    obtain ⟨place, rfl⟩ := Nat.exists_eq_add_of_le above
    have bound : place < state.compiled.size := by
      rw [← Array.length_toList, names_tableOf, State.length_declared, State.nextIndex] at inside
      omega
    have there := Array.getElem?_eq_getElem bound
    obtain ⟨flags, first, few⟩ := flagged _ (Array.mem_of_getElem? there)
    have size : (tableOf state).names.size = state.nextIndex := by
      rw [← Array.length_toList, names_tableOf, State.length_declared]
    refine ⟨_, flags, codes_tableOf there, first, few, ?_⟩
    rw [size]
    exact bounded _ (Array.mem_of_getElem? there)
  named := by
    intro constant member
    obtain ⟨symbol, listed, rfl⟩ := mem_constants_tableOf.mp member
    exact ⟨by simp, by simpa using (isField_of_mem_symbols regular listed).present⟩
  distinct := by
    have natives : (tableOf state).constants.toList.take state.catalog.size =
        (state.catalog.words.toList.map (·.constant)).map some := by
      simp [tableOf, Table.assemble, Catalog.size, Function.comp_def]
    show ((tableOf state).constants.toList.take state.catalog.size).Nodup
    rw [natives]
    exact distinct.map (Option.some_injective _)
  bootstrap := regular.bootstrap

theorem finish_wellFormed {source : String} {filename : Option String} {order : Order}
    {sections : Source.Sections} {start final : State} {log : Log}
    (read : Source.read source filename = .ok sections)
    (started : initialState sections order {} filename = .ok start)
    (runs : Runs start log final) : (tableOf final.finish.1).WellFormed := by
  obtain ⟨fresh, -, -, -, bootstrap⟩ := initialState_ok started
  have catalog : final.finish.1.catalog = start.catalog :=
    congrArg Setup.catalog runs.finish_frame.1
  have size : final.finish.1.compiled.size = final.compiled.size :=
    (State.finish_finishes (runs.pendingSound fresh)).size
  have bounded : final.finish.1.Bounded := by
    rw [runs.finish_eq]
    exact State.run_bounded (by simp [State.Bounded, fresh.compiled]) _
  refine tableOf_wellFormed (runs.regular read started) bounded ?_ ?_
  · rw [catalog]
    exact (Bootstrap.find_eq_ok_iff.mp bootstrap).1
  · intro word member
    obtain ⟨place, there⟩ := Array.getElem?_of_mem member
    have inside := (Array.getElem?_eq_some_iff.mp there).1
    obtain ⟨_, _, _, own, _, _, _, code, -, row⟩ := runs.row_at fresh (size ▸ inside)
    have stored := codes_tableOf there
    rw [catalog, row.stored] at stored
    obtain rfl := Option.some.inj (Option.some.inj stored)
    exact ⟨_, row.first.1, by exact_mod_cast row.first.2⟩

/-- The table of a compiled source is well formed: its columns agree, its native words have no code
and constants of their own, and every compiled row begins with the flags of its word. It can
therefore be listed, and the interpreter source can be written for it. -/
theorem ofText_wellFormed {source : String} {filename : Option String} {order : Order}
    {compilation : Compilation}
    (returned : (ofText source filename order).outcome = .ok compilation) :
    compilation.table.WellFormed ∧
      (∃ text, compilation.table.listing = .ok text) ∧
      (∃ text, Interpreter.render compilation.sections compilation.table = .ok text) ∧
      ∃ start log final,
        initialState compilation.sections order {} filename = .ok start ∧
        Runs start log final ∧ log.map Prod.fst = compilation.sections.definitions ∧
        ∀ row : Nat, compilation.table.nativeCount ≤ row → row < compilation.table.names.size →
          ∃ earlier later definition word before turns draft code,
            log = earlier ++ (definition, some word) :: later ∧
            Row start compilation.table earlier definition word before turns draft row code ∧
            code[0]? = some (word.flags.bits : Int) ∧ word.flags.bits ≤ 7 := by
  obtain ⟨start, log, final, read, started, runs, same, -, table, -⟩ := ofText_ok returned
  obtain ⟨fresh, -⟩ := initialState_ok started
  have catalog : final.finish.1.catalog = start.catalog :=
    congrArg Setup.catalog runs.finish_frame.1
  have size : final.finish.1.compiled.size = final.compiled.size :=
    (State.finish_finishes (runs.pendingSound fresh)).size
  have formed : compilation.table.WellFormed := by
    rw [table]
    exact finish_wellFormed read started runs
  refine ⟨formed, formed.listing_isOk,
    Interpreter.render_isOk formed (Source.read_complete read), start, log, final, started, runs,
    same, ?_⟩
  rw [table]
  intro row native inside
  have above : start.catalog.size ≤ row := by
    rw [← catalog]
    exact Int.ofNat_le.mp native
  obtain ⟨place, rfl⟩ := Nat.exists_eq_add_of_le above
  have bound : place < final.compiled.size := by
    rw [← Array.length_toList, names_tableOf, State.length_declared, State.nextIndex, catalog,
      size] at inside
    omega
  obtain ⟨earlier, later, definition, word, before, turns, draft, code, split, there⟩ :=
    runs.row_at fresh bound
  exact ⟨earlier, later, definition, word, before, turns, draft, code, split, there, there.first⟩

theorem ofText_wellFormed_sample :
    ∃ compilation, (ofText listedSource none .shadowing).outcome = .ok compilation ∧
      compilation.table.names = #["int", "lit", "dup", "w"] ∧ compilation.table.WellFormed ∧
      (∃ text, compilation.table.listing = .ok text) ∧
      ∃ text, Interpreter.render compilation.sections compilation.table = .ok text := by
  have evaluated : (ofText listedSource none .shadowing).outcome.toOption.map
      (fun compilation => compilation.table.names) = some #["int", "lit", "dup", "w"] := by
    rw [ofText, read_listedSource]
    dsimp only
    rw [ofSections, initialState_listedSections]
    decide +kernel
  cases returned : (ofText listedSource none .shadowing).outcome with
  | error failure => simp [returned, Except.toOption] at evaluated
  | ok compilation =>
    rw [returned] at evaluated
    obtain ⟨formed, listed, rendered, -⟩ := ofText_wellFormed returned
    exact ⟨compilation, rfl, Option.some.inj evaluated, formed, listed, rendered⟩

end Compilation

end ThreadedCode
