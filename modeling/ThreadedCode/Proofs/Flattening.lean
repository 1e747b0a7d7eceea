import Mathlib
import ThreadedCode.Table.Flat
import ThreadedCode.Proofs.WellFormed

/-!
# Flattened code as an index

The offsets of a flattened table are the running sums of the lengths of its codes, so they cut the
joined units into these codes again. The rows without code are left out before that. In a
well-formed table these are the native words and no others, hence the place of a code is the number
of its row behind them (`WellFormed.flatten_indexes`).
-/

namespace ThreadedCode

namespace Table

/-! ### Codes in a row -/

/-- Units and offsets that some codes have been added to. -/
structure Flat.Joins (flat : Flat) (codes : List (Array Int)) : Prop where
  units : flat.units.toList = (codes.map Array.toList).flatten
  offsets : flat.offsets.toList = (codes.map Array.size).partialSums

namespace Flat.Joins

variable {flat : Flat} {codes : List (Array Int)}

theorem size_units (joins : flat.Joins codes) : flat.units.size = (codes.map Array.size).sum := by
  rw [← Array.length_toList, joins.units, List.length_flatten, List.map_map]
  rfl

theorem size_offsets (joins : flat.Joins codes) : flat.offsets.size = codes.length + 1 := by
  rw [← Array.length_toList, joins.offsets, List.length_partialSums, List.length_map]

theorem add (joins : flat.Joins codes) (code : Array Int) :
    (flat.add code).Joins (codes ++ [code]) where
  units := by
    rw [Flat.add, Array.toList_append, joins.units, List.map_append, List.flatten_append]
    simp
  offsets := by
    rw [Flat.add, Array.toList_push, joins.offsets, joins.size_units, List.map_append,
      List.partialSums_append]
    simp [List.partialSums_cons]

theorem foldl (joins : flat.Joins codes) (more : List (Array Int)) :
    (more.foldl Flat.add flat).Joins (codes ++ more) := by
  induction more generalizing flat codes with
  | nil => rwa [List.append_nil]
  | cons code more ih =>
    have rest := ih (joins.add code)
    rwa [List.append_assoc, List.singleton_append] at rest

theorem offset (joins : flat.Joins codes) {place : Nat} (bound : place ≤ codes.length) :
    flat.offsets[place]? = some ((codes.map Array.size).take place).sum := by
  rw [← Array.getElem?_toList, joins.offsets, List.getElem?_partialSums, List.length_map,
    if_pos bound]

/-- Two offsets in a row cut out one code. -/
theorem slice (joins : flat.Joins codes) {place : Nat} {code : Array Int}
    (there : codes[place]? = some code) :
    ∃ start stop, flat.offsets[place]? = some start ∧ flat.offsets[place + 1]? = some stop ∧
      flat.units.extract start stop = code := by
  obtain ⟨bound, rfl⟩ := List.getElem?_eq_some_iff.mp there
  refine ⟨_, _, joins.offset (Nat.le_of_lt bound), joins.offset bound, ?_⟩
  have cut := List.drop_take_succ_flatten_eq_getElem (codes.map Array.toList) place
    (by rwa [List.length_map])
  rw [List.map_map, List.getElem_map] at cut
  apply Array.toList_inj.mp
  rw [Array.toList_extract, joins.units, List.extract_eq_drop_take', ← cut]
  rfl

theorem increasing (joins : flat.Joins codes) (filled : ∀ code ∈ codes, 0 < code.size) :
    flat.offsets.toList.Pairwise (· < ·) := by
  rw [joins.offsets]
  clear joins
  induction codes with
  | nil => simp
  | cons code codes ih =>
    obtain ⟨first, rest⟩ := List.forall_mem_cons.mp filled
    rw [List.map_cons, List.partialSums_cons, List.pairwise_cons, List.pairwise_map]
    refine ⟨?_, (ih rest).imp fun below => Nat.add_lt_add_left below code.size⟩
    intro offset member
    obtain ⟨sum, -, rfl⟩ := List.mem_map.mp member
    omega

end Flat.Joins

/-! ### The codes of a table -/

/-- The compiled rows of a well-formed table all have code, so none of them is left out. -/
theorem WellFormed.compiledCodes_eq {table : Table} (formed : table.WellFormed) :
    table.compiledCodes.map some = table.codes.toList.drop table.nativeCount.toNat := by
  obtain ⟨natives, compiled⟩ := formed.counts
  have size := formed.codes
  unfold compiledCount at compiled
  have front : Position.cut table.codes.size table.nativeCount = table.nativeCount.toNat := by
    rw [Position.cut, if_neg (by omega)]
    omega
  have behind : (Position.after table.codes table.nativeCount).toList =
      table.codes.toList.drop table.nativeCount.toNat := by
    rw [Position.after, front, Array.toList_extract, List.extract_eq_take_drop,
      List.take_of_length_le (by simp)]
  have present : table.codes.toList.drop table.nativeCount.toNat ∈
      Set.range (List.map (some : Array Int → Option (Array Int))) := by
    rw [Set.range_list_map]
    intro entry member
    obtain ⟨place, there⟩ := List.mem_iff_getElem?.mp member
    rw [List.getElem?_drop, Array.getElem?_toList] at there
    have bound := (Array.getElem?_eq_some_iff.mp there).1
    obtain ⟨code, -, stored, -⟩ := formed.compiled (table.nativeCount.toNat + place) (by omega)
      (by omega)
    exact ⟨code, Option.some.inj (stored.symm.trans there)⟩
  obtain ⟨codes, same⟩ := present
  rw [compiledCodes, behind, ← same, List.filterMap_map]
  exact congrArg _ List.filterMap_some

theorem WellFormed.length_compiledCodes {table : Table} (formed : table.WellFormed) :
    (table.compiledCodes.length : Int) = table.compiledCount := by
  obtain ⟨natives, compiled⟩ := formed.counts
  have length := congrArg List.length formed.compiledCodes_eq
  have size : table.codes.toList.length = table.names.size := formed.codes
  rw [List.length_map, List.length_drop, size] at length
  unfold compiledCount at compiled ⊢
  omega

theorem WellFormed.code_at {table : Table} (formed : table.WellFormed) {place : Nat}
    {code : Array Int} (there : table.compiledCodes[place]? = some code) :
    table.codes[table.nativeCount.toNat + place]? = some (some code) := by
  rw [← Array.getElem?_toList, ← List.getElem?_drop, ← formed.compiledCodes_eq, List.getElem?_map,
    there, Option.map_some]

/-- Each code has its flags at least. -/
theorem WellFormed.size_pos {table : Table} (formed : table.WellFormed) :
    ∀ code ∈ table.compiledCodes, 0 < code.size := by
  intro code member
  obtain ⟨place, there⟩ := List.mem_iff_getElem?.mp member
  have stored := formed.code_at there
  have bound := (Array.getElem?_eq_some_iff.mp stored).1
  rw [formed.codes] at bound
  obtain ⟨other, flags, same, first, -⟩ :=
    formed.compiled (table.nativeCount.toNat + place) (by omega) bound
  obtain rfl : code = other := Option.some.inj (Option.some.inj (stored.symm.trans same))
  exact (Array.getElem?_eq_some_iff.mp first).1

/-- Offsets that cut the units of a flattened table into the codes of its compiled words. -/
structure Flat.Indexes (flat : Flat) (table : Table) : Prop where
  count : (flat.offsets.size : Int) = table.compiledCount + 1
  first : flat.offsets[0]? = some 0
  increasing : flat.offsets.toList.Pairwise (· < ·)
  last : flat.offsets.back? = some flat.units.size
  slice : ∀ place : Nat, (place : Int) < table.compiledCount →
    ∃ start stop, flat.offsets[place]? = some start ∧ flat.offsets[place + 1]? = some stop ∧
      row table.codes (table.nativeCount + place) = .ok (some (flat.units.extract start stop))

theorem Flat.Joins.indexes {flat : Flat} {table : Table} (formed : table.WellFormed)
    (joins : flat.Joins table.compiledCodes) : flat.Indexes table where
  count := by
    rw [joins.size_offsets, ← formed.length_compiledCodes]
    rfl
  first := joins.offset (Nat.zero_le _)
  increasing := joins.increasing formed.size_pos
  last := by
    rw [Array.back?_eq_getElem?, joins.size_offsets, Nat.add_sub_cancel, joins.offset (Nat.le_refl _),
      joins.size_units, List.take_of_length_le (by rw [List.length_map])]
  slice place bound := by
    rw [← formed.length_compiledCodes, Int.ofNat_lt] at bound
    have there := List.getElem?_eq_getElem bound
    obtain ⟨start, stop, before, behind, cut⟩ := joins.slice there
    have native := Int.toNat_of_nonneg formed.counts.1
    have stored := row_of_getElem? (formed.code_at there)
    rw [Int.natCast_add, native, ← cut] at stored
    exact ⟨start, stop, before, behind, stored⟩

/-! ### Arrays with numbers of a fixed width -/

/-- Running sums in 32 bits and joined arrays of 16-bit units, where nothing overflows. -/
structure ArrayFunctions where
  cumulate : List Nat → List Nat
  cumulate_eq : ∀ lengths, lengths.sum < 2 ^ 32 → cumulate lengths = lengths.partialSums.tail
  join : List (Array Int) → Array Int
  join_eq : ∀ codes, codes ≠ [] → (∀ code ∈ codes, ∀ unit ∈ code, 0 ≤ unit ∧ unit ≤ 65535) →
    (join codes).toList = (codes.map Array.toList).flatten

/-- The flattened code of a table, made by functions on whole arrays. -/
def exported (functions : ArrayFunctions) (table : Table) : Flat where
  units := if table.compiledCodes = [] then #[] else functions.join table.compiledCodes
  offsets := (0 :: functions.cumulate (table.compiledCodes.map Array.size)).toArray

/-- A flattened table of fewer than 2³² units is the one made by functions on whole arrays. -/
theorem exported_eq {flat : Flat} {table : Table} (joins : flat.Joins table.compiledCodes)
    (words : ∀ code ∈ table.compiledCodes, ∀ unit ∈ code, 0 ≤ unit ∧ unit ≤ 65535)
    (small : flat.units.size < 2 ^ 32) (functions : ArrayFunctions) :
    table.exported functions = flat := by
  have units : (table.exported functions).units = flat.units := by
    apply Array.toList_inj.mp
    rw [joins.units, exported]
    by_cases bare : table.compiledCodes = []
    · rw [if_pos bare, bare]
      rfl
    · rw [if_neg bare, functions.join_eq _ bare words]
  have offsets : (table.exported functions).offsets = flat.offsets := by
    rw [joins.size_units] at small
    apply Array.toList_inj.mp
    rw [joins.offsets, exported, functions.cumulate_eq _ small]
    cases table.compiledCodes with
    | nil => simp
    | cons code codes => rw [List.map_cons, List.partialSums_cons, List.tail_cons]
  cases flat
  cases units
  cases offsets
  rfl

/-- The flattened code of a well-formed table is an index of it. -/
theorem WellFormed.flatten_indexes {table : Table} (formed : table.WellFormed)
    (words : ∀ code, some code ∈ table.codes → ∀ unit ∈ code, 0 ≤ unit ∧ unit ≤ 65535) :
    ∃ flat, table.flatten = .ok flat ∧ flat.Indexes table ∧
      (flat.units.size < 2 ^ 32 →
        ∀ functions : ArrayFunctions, table.exported functions = flat) := by
  have units : ∀ code ∈ table.compiledCodes, ∀ unit ∈ code, 0 ≤ unit ∧ unit ≤ 65535 := by
    intro code member
    obtain ⟨place, there⟩ := List.mem_iff_getElem?.mp member
    exact words code (Array.mem_of_getElem? (formed.code_at there))
  have fits : table.compiledCodes.all (·.all isWord) = true := by
    refine List.all_eq_true.mpr fun code member => ?_
    exact Array.all_eq_true_iff_forall_mem.mpr fun unit inside =>
      isWord_iff.mpr (units code member unit inside)
  have empty : Flat.Joins ⟨#[], #[0]⟩ [] := ⟨rfl, rfl⟩
  have joins := empty.foldl table.compiledCodes
  refine ⟨_, if_pos fits, joins.indexes formed, fun small functions => ?_⟩
  exact exported_eq joins units small functions

end Table

namespace Compilation

/-- A compiled source whose units all fit 16 bits is flattened, and the slice between two offsets
in a row is the code of the compiled word at this place. -/
theorem ofText_flatten_indexes {source : String} {filename : Option String} {order : Order}
    {compilation : Compilation}
    (returned : (ofText source filename order).outcome = .ok compilation)
    (words : ∀ code, some code ∈ compilation.table.codes →
      ∀ unit ∈ code, 0 ≤ unit ∧ unit ≤ 65535) :
    ∃ flat, compilation.table.flatten = .ok flat ∧ flat.Indexes compilation.table ∧
      (flat.units.size < 2 ^ 32 →
        ∀ functions : Table.ArrayFunctions, compilation.table.exported functions = flat) := by
  obtain ⟨start, log, final, read, started, runs, -, -, table, -⟩ := ofText_ok returned
  have formed : compilation.table.WellFormed := by
    rw [table]
    exact finish_wellFormed read started runs
  exact formed.flatten_indexes words

def unbufferedFunctions : Table.ArrayFunctions where
  cumulate lengths := lengths.partialSums.tail
  cumulate_eq _ _ := rfl
  join codes := (codes.map Array.toList).flatten.toArray
  join_eq _ _ _ := rfl

def adjacentSource : String :=
  "/*CONSTS*/\n/*CODE*/\n========\n========\nadd add\n========\n: a add ;\n: b ;\n: c a b add ;\n"

theorem ofText_flatten_indexes_sample :
    ∃ compilation, (ofText adjacentSource none .shadowing).outcome = .ok compilation ∧
      compilation.table.codes = #[none, some #[0, 0], some #[0], some #[0, 1, 2, 0]] ∧
      compilation.table.flatten = .ok ⟨#[0, 0, 0, 0, 1, 2, 0], #[0, 2, 3, 7]⟩ ∧
      Table.Flat.Indexes ⟨#[0, 0, 0, 0, 1, 2, 0], #[0, 2, 3, 7]⟩ compilation.table ∧
      compilation.table.exported unbufferedFunctions =
        ⟨#[0, 0, 0, 0, 1, 2, 0], #[0, 2, 3, 7]⟩ := by
  have read : Source.read adjacentSource none = .ok
      { natives := [{ name := "add", constant := "add", line := some 5 }]
        definitions := [⟨": a add ;", some 7⟩, ⟨": b ;", some 8⟩, ⟨": c a b add ;", some 9⟩] } := by
    decide +kernel
  have evaluated : (ofText adjacentSource none .shadowing).outcome.toOption.map
      (fun compilation => (compilation.table.codes, compilation.table.nativeCount)) =
      some (#[none, some #[0, 0], some #[0], some #[0, 1, 2, 0]], 1) := by
    rw [ofText, read]
    dsimp only
    rw [ofSections, initialState_of_nodup (by decide +kernel)]
    decide +kernel
  obtain ⟨compilation, present, parts⟩ := Option.map_eq_some_iff.mp evaluated
  obtain ⟨codes, natives⟩ := Prod.mk.inj parts
  have returned := Table.ok_of_toOption present
  have words : ∀ code, some code ∈ compilation.table.codes →
      ∀ unit ∈ code, 0 ≤ unit ∧ unit ≤ 65535 := by
    rw [codes]
    simp
  obtain ⟨flat, flattened, indexes, exported⟩ := ofText_flatten_indexes returned words
  have same : compilation.table.flatten = .ok ⟨#[0, 0, 0, 0, 1, 2, 0], #[0, 2, 3, 7]⟩ := by
    rw [Table.flatten, Table.compiledCodes, codes, natives]
    decide +kernel
  obtain rfl := Except.ok.inj (flattened.symm.trans same)
  exact ⟨compilation, returned, codes, same, indexes, exported (by decide) unbufferedFunctions⟩

end Compilation

end ThreadedCode
