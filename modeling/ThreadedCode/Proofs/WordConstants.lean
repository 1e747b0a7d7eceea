import Std.Data.HashSet.Lemmas
import ThreadedCode.Proofs.Declarations
import ThreadedCode.Proofs.WellFormed

/-!
# The constants of the interpreter source

Every native word has its constant declared, and its case in the dispatch. A compiled word has its
constant declared only if some text refers to the name and no earlier row has it. Two declared names
can therefore be equal only if they are those of native words. The constants of native words are
distinct, but the names are in upper case, and there they may be equal.
-/

namespace ThreadedCode

open Compiler

namespace Interpreter

open Table (ShapeError row bind_ok_iff mapM_ok_iff row_of_getElem?)

theorem constantName_inj {first second : String} :
    constantName first = constantName second ↔ Text.upper first = Text.upper second := by
  unfold constantName
  constructor
  · intro same
    have lists := congrArg String.toList same
    simp only [String.toList_append, List.append_cancel_left_eq] at lists
    exact String.toList_inj.mp lists
  · intro same
    rw [same]

theorem nodup_constantNames {constants : List String} :
    (constants.map constantName).Nodup ↔ (constants.map Text.upper).Nodup := by
  simp only [List.Nodup, List.pairwise_map, Ne, constantName_inj]

/-- A compiled row that is to have its constant declared: the name is an identifier, and one of the
texts refers to it. -/
def Wanted (texts : List (Option (List Char))) (table : Table) (name : String) (index : Int) :
    Prop :=
  ∃ constant, row table.constants index = .ok (some constant) ∧ isIdentifier constant = true ∧
    name = constantName constant ∧ isReferenced name texts = .ok true

theorem Wanted.unique {texts : List (Option (List Char))} {table : Table} {first second : String}
    {index : Int} (one : Wanted texts table first index) (other : Wanted texts table second index) :
    first = second := by
  obtain ⟨constant, found, -, rfl, -⟩ := one
  obtain ⟨_, same, -, rfl, -⟩ := other
  rw [Option.some.inj (Except.ok.inj (found.symm.trans same))]

/-- The constants declared once the compiled rows in `done` have been looked at. -/
structure Declared.Covers (texts : List (Option (List Char))) (table : Table)
    (natives compiled : List (String × Int)) (done : List Int) (declared : Declared) : Prop where
  rows : declared.rows.toList = natives ++ compiled
  names : ∀ name, name ∈ declared.names ↔ name ∈ (natives ++ compiled).map (·.1)
  distinct : (compiled.map (·.1)).Nodup
  apart : ∀ entry ∈ compiled, entry.1 ∉ natives.map (·.1)
  wanted : ∀ entry ∈ compiled, entry.2 ∈ done ∧ Wanted texts table entry.1 entry.2
  all : ∀ index ∈ done, ∀ name, Wanted texts table name index → name ∈ declared.names

/-- The constants of the compiled rows in `done` are declared in the order of the rows, and each for
the first row that wants it. -/
structure Declared.InOrder (texts : List (Option (List Char))) (table : Table)
    (compiled : List (String × Int)) (done : List Int) : Prop where
  increasing : (compiled.map (·.2)).Pairwise (· < ·)
  first : ∀ entry ∈ compiled, ∀ index ∈ done, Wanted texts table entry.1 index → entry.2 ≤ index

namespace Declared

variable {texts : List (Option (List Char))} {table : Table} {declared next : Declared}
  {natives compiled : List (String × Int)} {done : List Int} {index : Int}

theorem addCompiled_cases (added : declared.addCompiled texts table index = .ok next) :
    (next = declared ∧ ∀ name, Wanted texts table name index → name ∈ declared.names) ∨
    (∃ name, Wanted texts table name index ∧ name ∉ declared.names ∧
      next = declared.push name index) := by
  obtain ⟨constant, found, added⟩ := bind_ok_iff.mp added
  split at added
  · rename_i filtered
    refine .inl ⟨(Except.ok.inj added).symm, ?_⟩
    rintro name ⟨own, same, identifier, -⟩
    obtain rfl := Except.ok.inj (found.symm.trans same)
    simp [identifier] at filtered
  · rename_i own filtered
    obtain ⟨rfl, identifier⟩ := Option.filter_eq_some_iff.mp filtered
    have unique : ∀ name, Wanted texts table name index → name = constantName own := by
      rintro name ⟨other, same, -, rfl, -⟩
      rw [Option.some.inj (Except.ok.inj (found.symm.trans same))]
    dsimp only at added
    split at added
    · rename_i known
      refine .inl ⟨(Except.ok.inj added).symm, fun name wanted => ?_⟩
      rw [unique name wanted]
      exact Std.HashSet.mem_iff_contains.mpr known
    · rename_i unknown
      obtain ⟨referenced, searched, added⟩ := bind_ok_iff.mp added
      cases referenced with
      | true =>
        refine .inr ⟨_, ⟨own, found, identifier, rfl, searched⟩, ?_, (Except.ok.inj added).symm⟩
        exact fun member => unknown (Std.HashSet.mem_iff_contains.mp member)
      | false =>
        refine .inl ⟨(Except.ok.inj added).symm, fun name wanted => ?_⟩
        obtain ⟨-, -, -, -, used⟩ := id wanted
        rw [unique name wanted, searched] at used
        cases used

theorem covers_ofRows (texts : List (Option (List Char))) (table : Table)
    (natives : List (String × Int)) : (ofRows natives).Covers texts table natives [] [] where
  rows := by simp [ofRows]
  names := by simp [ofRows, Std.HashSet.mem_ofList]
  distinct := .nil
  apart := by simp
  wanted := by simp
  all := by simp

theorem Covers.pass (covers : declared.Covers texts table natives compiled done)
    (known : ∀ name, Wanted texts table name index → name ∈ declared.names) :
    declared.Covers texts table natives compiled (done ++ [index]) where
  rows := covers.rows
  names := covers.names
  distinct := covers.distinct
  apart := covers.apart
  wanted := by
    intro entry member
    obtain ⟨earlier, wanted⟩ := covers.wanted entry member
    exact ⟨List.mem_append_left _ earlier, wanted⟩
  all := by
    intro other member name wanted
    rcases List.mem_append.mp member with earlier | last
    · exact covers.all other earlier name wanted
    · rw [List.mem_singleton.mp last] at wanted
      exact known name wanted

theorem Covers.push {name : String} (covers : declared.Covers texts table natives compiled done)
    (wanted : Wanted texts table name index) (unknown : name ∉ declared.names) :
    (declared.push name index).Covers texts table natives (compiled ++ [(name, index)])
      (done ++ [index]) := by
  have fresh : name ∉ natives.map (·.1) ∧ name ∉ compiled.map (·.1) := by
    rw [covers.names, List.map_append, List.mem_append, not_or] at unknown
    exact unknown
  refine ⟨?_, ?_, ?_, ?_, ?_, ?_⟩
  · rw [Declared.push, Array.toList_push, covers.rows, List.append_assoc]
  · intro other
    have listed : other ∈ (natives ++ (compiled ++ [(name, index)])).map (·.1) ↔
        name = other ∨ other ∈ (natives ++ compiled).map (·.1) := by
      rw [← List.append_assoc, List.map_append, List.mem_append, List.map_singleton,
        List.mem_singleton, or_comm, eq_comm]
    rw [listed, Declared.push, Std.HashSet.mem_insert, covers.names, beq_iff_eq]
  · rw [List.map_append, List.map_singleton]
    exact List.nodup_append'.mpr ⟨covers.distinct, List.nodup_singleton _,
      List.disjoint_singleton.mpr fresh.2⟩
  · intro entry member
    rcases List.mem_append.mp member with earlier | last
    · exact covers.apart entry earlier
    · rw [List.mem_singleton.mp last]
      exact fresh.1
  · intro entry member
    rcases List.mem_append.mp member with earlier | last
    · obtain ⟨before, same⟩ := covers.wanted entry earlier
      exact ⟨List.mem_append_left _ before, same⟩
    · rw [List.mem_singleton.mp last]
      exact ⟨List.mem_append_right _ List.mem_cons_self, wanted⟩
  · intro other member found wants
    rcases List.mem_append.mp member with earlier | last
    · exact Std.HashSet.mem_insert.mpr (.inr (covers.all other earlier found wants))
    · rw [List.mem_singleton.mp last] at wants
      exact Std.HashSet.mem_insert.mpr (.inl (beq_iff_eq.mpr (wanted.unique wants)))

theorem Covers.mem_names_iff (covers : declared.Covers texts table natives compiled done)
    {name : String} : name ∈ compiled.map (·.1) ↔
      name ∉ natives.map (·.1) ∧ ∃ index ∈ done, Wanted texts table name index := by
  constructor
  · intro member
    obtain ⟨entry, inside, rfl⟩ := List.mem_map.mp member
    exact ⟨covers.apart entry inside, entry.2, covers.wanted entry inside⟩
  · rintro ⟨apart, index, inside, wanted⟩
    have known := (covers.names name).mp (covers.all index inside name wanted)
    rw [List.map_append, List.mem_append] at known
    exact known.resolve_left apart

theorem inOrder_nil (texts : List (Option (List Char))) (table : Table) :
    InOrder texts table [] [] :=
  ⟨.nil, by simp⟩

theorem InOrder.pass (inOrder : InOrder texts table compiled done)
    (covers : declared.Covers texts table natives compiled done)
    (later : ∀ other ∈ done, other < index) : InOrder texts table compiled (done ++ [index]) := by
  refine ⟨inOrder.increasing, fun entry member other listed wanted => ?_⟩
  rcases List.mem_append.mp listed with earlier | last
  · exact inOrder.first entry member other earlier wanted
  · rw [List.mem_singleton.mp last]
    exact (later entry.2 (covers.wanted entry member).1).le

theorem InOrder.push {name : String} (inOrder : InOrder texts table compiled done)
    (covers : declared.Covers texts table natives compiled done) (unknown : name ∉ declared.names)
    (later : ∀ other ∈ done, other < index) :
    InOrder texts table (compiled ++ [(name, index)]) (done ++ [index]) := by
  constructor
  · rw [List.map_append, List.pairwise_append]
    refine ⟨inOrder.increasing, List.pairwise_singleton _ _, ?_⟩
    intro first member last same
    obtain ⟨entry, inside, rfl⟩ := List.mem_map.mp member
    rw [List.mem_singleton.mp same]
    exact later entry.2 (covers.wanted entry inside).1
  · intro entry member other listed wanted
    rcases List.mem_append.mp member with earlier | added
    · exact (inOrder.pass covers later).first entry earlier other listed wanted
    · rw [List.mem_singleton.mp added] at wanted ⊢
      rcases List.mem_append.mp listed with before | last
      · exact absurd (covers.all other before name wanted) unknown
      · exact (List.mem_singleton.mp last).ge

/-- What one compiled row adds, if it adds anything. -/
theorem Covers.addCompiled (covers : declared.Covers texts table natives compiled done)
    (inOrder : InOrder texts table compiled done) (later : ∀ other ∈ done, other < index)
    (added : declared.addCompiled texts table index = .ok next) :
    ∃ compiled, next.Covers texts table natives compiled (done ++ [index]) ∧
      InOrder texts table compiled (done ++ [index]) := by
  rcases addCompiled_cases added with ⟨rfl, known⟩ | ⟨name, wanted, unknown, rfl⟩
  · exact ⟨compiled, covers.pass known, inOrder.pass covers later⟩
  · exact ⟨_, covers.push wanted unknown, inOrder.push covers unknown later⟩

theorem Covers.foldlM {indices : List Int}
    (covers : declared.Covers texts table natives compiled done)
    (inOrder : InOrder texts table compiled done) (sorted : (done ++ indices).Pairwise (· < ·))
    (run : indices.foldlM (Declared.addCompiled texts table) declared = .ok next) :
    ∃ compiled, next.Covers texts table natives compiled (done ++ indices) ∧
      InOrder texts table compiled (done ++ indices) := by
  induction indices generalizing declared compiled done with
  | nil =>
    obtain rfl := Except.ok.inj run
    rw [List.append_nil]
    exact ⟨compiled, covers, inOrder⟩
  | cons index indices ih =>
    rw [List.foldlM_cons] at run
    obtain ⟨middle, added, run⟩ := bind_ok_iff.mp run
    have later : ∀ other ∈ done, other < index := fun other member =>
      (List.pairwise_append.mp sorted).2.2 other member index List.mem_cons_self
    obtain ⟨further, covers, inOrder⟩ := covers.addCompiled inOrder later added
    rw [← List.singleton_append, ← List.append_assoc] at sorted ⊢
    exact ih covers inOrder sorted run

end Declared

/-! ### The declarations and the dispatch of a table -/

/-- The declarations of the native words with these constants. -/
def nativeRows (constants : List String) : List (String × Int) :=
  constants.zipIdx.map fun (constant, index) => (constantName constant, (index : Int))

theorem names_nativeRows (constants : List String) :
    (nativeRows constants).map (·.1) = constants.map constantName := by
  rw [nativeRows, List.map_map]
  show constants.zipIdx.map (constantName ∘ Prod.fst) = _
  rw [← List.map_map, List.zipIdx_map_fst]

section

variable {table : Table} (formed : table.WellFormed)

include formed

theorem exists_natives :
    ∃ natives : List String,
      natives.map some = table.constants.toList.take table.nativeCount.toNat ∧ natives.Nodup := by
  have present : ∀ constant ∈ table.constants.toList.take table.nativeCount.toNat,
      some (constant.getD "") = constant := by
    intro constant member
    have listed := Array.mem_toList_iff.mp (List.mem_of_mem_take member)
    obtain ⟨text, rfl⟩ := Option.ne_none_iff_exists'.mp (formed.named constant listed).1
    rfl
  have listed : ((table.constants.toList.take table.nativeCount.toNat).map (·.getD "")).map some =
      table.constants.toList.take table.nativeCount.toNat := by
    rw [List.map_map]
    exact (List.map_congr_left present).trans (List.map_id _)
  refine ⟨_, listed, ?_⟩
  have distinct := formed.distinct
  rw [← listed] at distinct
  exact distinct.of_map _

variable {natives : List String}
  (listed : natives.map some = table.constants.toList.take table.nativeCount.toNat)

include listed

theorem dispatchConstants_eq : dispatchConstants table = .ok natives := by
  have counts := formed.counts
  have size := formed.constants
  have count : table.compiledCount = table.names.size - table.nativeCount := rfl
  have front : (Position.before table.constants table.nativeCount).toList = natives.map some := by
    rw [listed, Position.before, Array.toList_extract, List.extract_eq_take_drop, Position.cut,
      if_neg (by omega), List.drop_zero]
    congr 1
    omega
  rw [dispatchConstants, front, mapM_ok_iff, List.forall₂_map_left_iff, List.forall₂_same]
  intro constant member
  rfl

theorem nativeConstants_eq : nativeConstants table = .ok (nativeRows natives) := by
  have counts := formed.counts
  have size := formed.constants
  have count : table.compiledCount = table.names.size - table.nativeCount := rfl
  have lengths : natives.length = table.nativeCount.toNat := by
    have same := congrArg List.length listed
    simp only [List.length_map, List.length_take, Array.length_toList] at same
    omega
  have indices : table.nativeRows = natives.zipIdx.map fun entry => (entry.2 : Int) := by
    rw [Table.nativeRows, Position.span, Int.sub_zero, ← lengths, List.range_eq_range',
      ← List.zipIdx_map_snd, List.map_map]
    simp [Function.comp_def]
  rw [nativeConstants, Table.mapNatives_eq, indices, mapM_ok_iff, nativeRows,
    List.forall₂_map_left_iff, List.forall₂_map_right_iff, List.forall₂_same]
  rintro ⟨constant, place⟩ member
  have there : table.constants[place]? = some (some constant) := by
    have own : natives[place]? = some constant := List.mem_zipIdx_iff_getElem?.mp member
    have taken : (natives.map some)[place]? = some (some constant) := by
      rw [List.getElem?_map, own]
      rfl
    rw [listed, List.getElem?_take] at taken
    split at taken
    · rw [← Array.getElem?_toList]
      exact taken
    · cases taken
  rw [row_of_getElem? there]
  rfl

end

/-- The declarations and the cases of an interpreter source: those of the native words, by their
constants, and behind them the declarations of the compiled words that some text refers to. -/
structure DeclaresConstants (sections : Source.Sections) (table : Table) (text : String)
    (natives : List String) (compiled : List (String × Int)) : Prop where
  listed : natives.map some = table.constants.toList.take table.nativeCount.toNat
  /-- The names, values and labels that the text of the declarations and that of the dispatch say. -/
  read : ∃ before declarations between cases after,
    text = before ++ declarations ++ between ++ cases ++ after ∧
    constants sections table = .ok declarations ∧ dispatch table = .ok cases ∧
    readDeclarations declarations = nativeRows natives ++ compiled ∧
    readCases cases = natives.map constantName
  written : ∃ width before between after, text = before ++
    String.join ((nativeRows natives ++ compiled).map fun (name, index) => constantLine name index) ++
    between ++ String.join (natives.map (caseLine width)) ++ after
  wanted : ∀ name, name ∈ compiled.map (·.1) ↔ name ∉ natives.map constantName ∧
    ∃ index ∈ table.compiledRows, Wanted (referringTexts sections) table name index
  distinct : (compiled.map (·.1)).Nodup

theorem compiledRows_increasing (table : Table) : table.compiledRows.Pairwise (· < ·) := by
  rw [Table.compiledRows, Position.span, List.pairwise_map]
  refine List.pairwise_lt_range.imp fun {first second} below => ?_
  omega

theorem constants_ok {sections : Source.Sections} {table : Table} {natives : List String}
    {text : String} (listed : nativeConstants table = .ok (nativeRows natives))
    (found : constants sections table = .ok text) :
    ∃ (declared : Declared) (compiled : List (String × Int)),
      declared.Covers (referringTexts sections) table (nativeRows natives) compiled
        table.compiledRows ∧
      Declared.InOrder (referringTexts sections) table compiled table.compiledRows ∧
      text = sizeLine table ++ String.join ((nativeRows natives ++ compiled).map
        fun (name, index) => constantLine name index) := by
  obtain ⟨rows, first, found⟩ := bind_ok_iff.mp found
  obtain rfl := Except.ok.inj (listed.symm.trans first)
  obtain ⟨declared, run, found⟩ := bind_ok_iff.mp found
  rw [Table.foldCompiled_eq] at run
  obtain ⟨compiled, covers, inOrder⟩ := (Declared.covers_ofRows _ _ _).foldlM
    (Declared.inOrder_nil _ _) (compiledRows_increasing table) run
  rw [List.nil_append] at covers inOrder
  refine ⟨declared, compiled, covers, inOrder, ?_⟩
  rw [← Except.ok.inj found, ← covers.rows]
  rfl

theorem render_ok {sections : Source.Sections} {table : Table} {text : String}
    (rendered : render sections table = .ok text) :
    ∃ declarations cases before between after, constants sections table = .ok declarations ∧
      dispatch table = .ok cases ∧
      text = before ++ declarations ++ between ++ cases ++ after := by
  obtain ⟨declarations, first, rendered⟩ := bind_ok_iff.mp rendered
  obtain ⟨code, -, rendered⟩ := bind_ok_iff.mp rendered
  obtain ⟨methods, -, rendered⟩ := bind_ok_iff.mp rendered
  obtain ⟨cases, second, rendered⟩ := bind_ok_iff.mp rendered
  obtain ⟨prologue, -, rendered⟩ := bind_ok_iff.mp rendered
  obtain ⟨interlude, -, rendered⟩ := bind_ok_iff.mp rendered
  obtain ⟨epilogue, -, rendered⟩ := bind_ok_iff.mp rendered
  refine ⟨declarations, cases, prologue,
    nameTable table ++ code ++ variableSlots table ++ interlude ++ methods, epilogue, first, second,
    ?_⟩
  obtain rfl := Except.ok.inj rendered
  simp only [String.append_assoc]

/-- Where all constants are fields, so are the declared names. -/
theorem isField_declared {table : Table} {natives : List String} {compiled : List (String × Int)}
    {declared : Declared} {texts : List (Option (List Char))} {done : List Int}
    (fields : ∀ constant, some constant ∈ table.constants → Text.IsField constant)
    (listed : natives.map some = table.constants.toList.take table.nativeCount.toNat)
    (covers : declared.Covers texts table (nativeRows natives) compiled done) :
    (∀ constant ∈ natives, Text.IsField constant) ∧
      ∀ row ∈ nativeRows natives ++ compiled, Text.IsField row.1 := by
  have native : ∀ constant ∈ natives, Text.IsField constant := by
    intro constant member
    have front := List.mem_map_of_mem (f := some) member
    rw [listed] at front
    exact fields constant (Array.mem_toList_iff.mp (List.mem_of_mem_take front))
  refine ⟨native, fun row member => ?_⟩
  rcases List.mem_append.mp member with first | later
  · have named := List.mem_map_of_mem (f := Prod.fst) first
    rw [names_nativeRows] at named
    obtain ⟨constant, inside, same⟩ := List.mem_map.mp named
    rw [← same]
    exact isField_constantName (native constant inside)
  · obtain ⟨-, constant, found, -, named, -⟩ := covers.wanted row later
    rw [named]
    exact isField_constantName (fields constant (Table.mem_of_row found))

theorem render_declares {sections : Source.Sections} {table : Table} {text : String}
    (formed : table.WellFormed)
    (fields : ∀ constant, some constant ∈ table.constants → Text.IsField constant)
    (rendered : render sections table = .ok text) :
    ∃ (natives : List String) (compiled : List (String × Int)), natives.Nodup ∧
      DeclaresConstants sections table text natives compiled := by
  obtain ⟨natives, listed, distinct⟩ := exists_natives formed
  obtain ⟨_, _, before, between, after, first, second, rfl⟩ := render_ok rendered
  obtain ⟨declared, compiled, covers, -, rfl⟩ :=
    constants_ok (nativeConstants_eq formed listed) first
  obtain ⟨native, named⟩ := isField_declared fields listed covers
  have cases := readCases_dispatch (dispatchConstants_eq formed listed) second native
  obtain ⟨width, rfl⟩ := dispatch_ok (dispatchConstants_eq formed listed) second
  refine ⟨natives, compiled, distinct, listed, ?_, ?_, ?_, covers.distinct⟩
  · exact ⟨before, _, between, _, after, rfl, first, second, readDeclarations_constants table named,
      cases⟩
  · refine ⟨width, before ++ sizeLine table, between ++ dispatchHead,
      dispatchFoot width ++ after, ?_⟩
    simp only [String.append_assoc]
  · intro name
    rw [covers.mem_names_iff, names_nativeRows]

/-- Declared names can be equal only if those of two native words are. -/
theorem DeclaresConstants.nodup_iff {sections : Source.Sections} {table : Table} {text : String}
    {natives : List String} {compiled : List (String × Int)}
    (declares : DeclaresConstants sections table text natives compiled) :
    ((nativeRows natives ++ compiled).map (·.1)).Nodup ↔ (natives.map Text.upper).Nodup := by
  rw [List.map_append, names_nativeRows, List.nodup_append', nodup_constantNames]
  refine ⟨fun all => all.1, fun distinct => ⟨distinct, declares.distinct, ?_⟩⟩
  intro name native member
  exact ((declares.wanted name).mp member).1 native

end Interpreter

namespace Compilation

open Interpreter

/-- The constants of a compiled source are fields. -/
theorem ofText_fields {source : String} {filename : Option String} {order : Order}
    {compilation : Compilation}
    (returned : (ofText source filename order).outcome = .ok compilation) :
    ∀ constant, some constant ∈ compilation.table.constants → Text.IsField constant := by
  obtain ⟨state, table, regular⟩ := ofText_regular returned
  intro constant member
  rw [table] at member
  obtain ⟨symbol, listed, same⟩ := mem_constants_tableOf.mp member
  obtain rfl := Option.some.inj same
  exact isField_of_mem_symbols regular listed

/-- A compiled source has all that the interpreter source is written from. -/
theorem ofText_renderable {source : String} {filename : Option String} {order : Order}
    {compilation : Compilation}
    (returned : (ofText source filename order).outcome = .ok compilation) :
    compilation.table.WellFormed ∧ compilation.sections.Complete := by
  obtain ⟨start, log, final, read, started, runs, -, -, table, -⟩ := ofText_ok returned
  rw [table]
  exact ⟨finish_wellFormed read started runs, Source.read_complete read⟩

theorem ofText_declares {source : String} {filename : Option String} {order : Order}
    {compilation : Compilation}
    (returned : (ofText source filename order).outcome = .ok compilation) :
    ∃ (text : String) (natives : List String) (compiled : List (String × Int)),
      render compilation.sections compilation.table = .ok text ∧ natives.Nodup ∧
      DeclaresConstants compilation.sections compilation.table text natives compiled := by
  obtain ⟨formed, complete⟩ := ofText_renderable returned
  obtain ⟨text, rendered⟩ := render_isOk formed complete
  obtain ⟨natives, compiled, distinct, declares⟩ := render_declares formed (ofText_fields returned) rendered
  exact ⟨text, natives, compiled, rendered, distinct, declares⟩

/-- In the interpreter source of a compiled source, the declared names are distinct, and so are the
cases, exactly if the constants of the native words are distinct in upper case. The constants
themselves always are. -/
theorem ofText_word_constants {source : String} {filename : Option String} {order : Order}
    {compilation : Compilation}
    (returned : (ofText source filename order).outcome = .ok compilation) :
    ∃ (text : String) (natives : List String) (compiled : List (String × Int)),
      render compilation.sections compilation.table = .ok text ∧ natives.Nodup ∧
      DeclaresConstants compilation.sections compilation.table text natives compiled ∧
      (((nativeRows natives ++ compiled).map (·.1)).Nodup ↔ (natives.map Text.upper).Nodup) ∧
      ((natives.map constantName).Nodup ↔ (natives.map Text.upper).Nodup) := by
  obtain ⟨text, natives, compiled, rendered, distinct, declares⟩ := ofText_declares returned
  exact ⟨text, natives, compiled, rendered, distinct, declares, declares.nodup_iff,
    nodup_constantNames⟩

/-- A source with two native words, and a compiled one that the template refers to. -/
def pairSource (second : String) : String :=
  "WORD_W\n/*CONSTS*/\n/*CODE*/\n========\n========\nadd\n" ++ second ++
    "\n========\n: w add ;\n"

def pairSections (second : String) : Source.Sections where
  template := { prologue := some "WORD_W\n" }
  natives := [{ name := "add", line := some 6 }, { name := second, line := some 7 }]
  definitions := [⟨": w add ;", some 9⟩]

theorem ofText_word_constants_sample :
    ∃ compilation text compiled,
      (ofText (pairSource "dup") none .shadowing).outcome = .ok compilation ∧
      render compilation.sections compilation.table = .ok text ∧
      DeclaresConstants compilation.sections compilation.table text ["add", "dup"] compiled ∧
      ((nativeRows ["add", "dup"] ++ compiled).map (·.1)).Nodup := by
  have read : Source.read (pairSource "dup") none = .ok (pairSections "dup") := by decide +kernel
  have evaluated : (ofText (pairSource "dup") none .shadowing).outcome.toOption.map
      (fun compilation =>
        compilation.table.constants.toList.take compilation.table.nativeCount.toNat) =
      some (["add", "dup"].map some) := by
    rw [ofText, read]
    dsimp only
    rw [ofSections, initialState_of_nodup (by decide +kernel)]
    decide +kernel
  obtain ⟨compilation, present, front⟩ := Option.map_eq_some_iff.mp evaluated
  have returned := Table.ok_of_toOption present
  obtain ⟨text, natives, compiled, rendered, -, declares, distinct, -⟩ :=
    ofText_word_constants returned
  obtain rfl : natives = ["add", "dup"] :=
    List.map_injective_iff.mpr (Option.some_injective _) (declares.listed.trans front)
  exact ⟨compilation, text, compiled, returned, rendered, declares,
    distinct.mpr (by decide +kernel)⟩

/-- Native words whose constants differ in case only have one name and one case twice. -/
theorem case_variants_clash :
    ∃ compilation text compiled,
      (ofText (pairSource "ADD") none .shadowing).outcome = .ok compilation ∧
      render compilation.sections compilation.table = .ok text ∧
      DeclaresConstants compilation.sections compilation.table text ["add", "ADD"] compiled ∧
      nativeRows ["add", "ADD"] = [("WORD_ADD", 0), ("WORD_ADD", 1)] ∧
      ¬ ((nativeRows ["add", "ADD"] ++ compiled).map (·.1)).Nodup ∧
      ¬ (["add", "ADD"].map constantName).Nodup := by
  have read : Source.read (pairSource "ADD") none = .ok (pairSections "ADD") := by decide +kernel
  have evaluated : (ofText (pairSource "ADD") none .shadowing).outcome.toOption.map
      (fun compilation =>
        compilation.table.constants.toList.take compilation.table.nativeCount.toNat) =
      some (["add", "ADD"].map some) := by
    rw [ofText, read]
    dsimp only
    rw [ofSections, initialState_of_nodup (by decide +kernel)]
    decide +kernel
  obtain ⟨compilation, present, front⟩ := Option.map_eq_some_iff.mp evaluated
  have returned := Table.ok_of_toOption present
  obtain ⟨text, natives, compiled, rendered, -, declares⟩ := ofText_declares returned
  obtain rfl : natives = ["add", "ADD"] :=
    List.map_injective_iff.mpr (Option.some_injective _) (declares.listed.trans front)
  refine ⟨compilation, text, compiled, returned, rendered, declares, by decide +kernel, ?_,
    by decide +kernel⟩
  rw [declares.nodup_iff]
  decide +kernel

end Compilation

end ThreadedCode
