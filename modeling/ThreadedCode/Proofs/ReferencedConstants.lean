import ThreadedCode.Proofs.WordConstants
import ThreadedCode.Proofs.Sections

/-!
# The constants that compiled words need

A compiled word has its constant declared only if the template or the code of a native word has the
name in it. `ofText_referenced_constants` says which names are declared, each once and for the first
word that has it, and that they come in the order of the words.
-/

namespace ThreadedCode

open Compiler

namespace Interpreter

open Table (row)

/-- A part of the template or the code of a native word has a name in it. -/
def Mentions (sections : Source.Sections) (name : String) : Prop :=
  ∃ text : String, some text ∈ [sections.template.prologue, sections.template.interlude,
      sections.template.epilogue] ++ sections.natives.map (·.body) ∧
    name.toList <:+: text.toList

/-- A compiled row whose constant is an identifier that gives a name. -/
def Offers (table : Table) (name : String) (index : Int) : Prop :=
  index ∈ table.compiledRows ∧ ∃ constant, row table.constants index = .ok (some constant) ∧
    isIdentifier constant = true ∧ constantName constant = name

theorem isReferenced_iff {name : String} {texts : List (Option (List Char))}
    (present : ∀ text ∈ texts, text ≠ none) :
    isReferenced name texts = .ok true ↔ ∃ text, some text ∈ texts ∧ name.toList <:+: text := by
  induction texts with
  | nil => simp [isReferenced]
  | cons text texts ih =>
    obtain ⟨first, others⟩ := List.forall_mem_cons.mp present
    obtain ⟨text, rfl⟩ := Option.ne_none_iff_exists'.mp first
    rw [isReferenced]
    by_cases occurs : Text.occursIn name.toList text = true
    · rw [if_pos occurs]
      exact ⟨fun _ => ⟨text, List.mem_cons_self, Text.occursIn_iff.mp occurs⟩, fun _ => rfl⟩
    · rw [if_neg occurs, ih others]
      constructor
      · rintro ⟨other, listed, inside⟩
        exact ⟨other, List.mem_cons_of_mem _ listed, inside⟩
      · rintro ⟨other, listed, inside⟩
        rcases List.mem_cons.mp listed with same | later
        · rw [Option.some.inj same, ← Text.occursIn_iff] at inside
          exact absurd inside occurs
        · exact ⟨other, later, inside⟩

theorem isReferenced_iff_mentions {sections : Source.Sections} (complete : sections.Complete)
    (name : String) :
    isReferenced name (referringTexts sections) = .ok true ↔ Mentions sections name := by
  rw [isReferenced_iff (referringTexts_present complete)]
  constructor
  · rintro ⟨_, listed, inside⟩
    obtain ⟨part, member, same⟩ := List.mem_map.mp listed
    obtain ⟨text, rfl, rfl⟩ := Option.map_eq_some_iff.mp same
    exact ⟨text, member, inside⟩
  · rintro ⟨text, member, inside⟩
    exact ⟨text.toList, List.mem_map.mpr ⟨some text, member, rfl⟩, inside⟩

theorem wanted_iff {sections : Source.Sections} (complete : sections.Complete) {table : Table}
    {name : String} {index : Int} (compiled : index ∈ table.compiledRows) :
    Wanted (referringTexts sections) table name index ↔
      Mentions sections name ∧ Offers table name index := by
  rw [← isReferenced_iff_mentions complete]
  constructor
  · rintro ⟨constant, found, identifier, same, referenced⟩
    exact ⟨referenced, compiled, constant, found, identifier, same.symm⟩
  · rintro ⟨referenced, -, constant, found, identifier, same⟩
    exact ⟨constant, found, identifier, same.symm, referenced⟩

/-- The declarations of compiled words: one for each name that is mentioned and that some compiled
word offers and no native word has, for the first compiled word that offers it. -/
structure DeclaresMentioned (sections : Source.Sections) (table : Table) (natives : List String)
    (compiled : List (String × Int)) : Prop where
  names : ∀ name, name ∈ compiled.map (·.1) ↔
    (∃ index, Offers table name index) ∧ name ∉ natives.map constantName ∧ Mentions sections name
  once : (compiled.map (·.1)).Nodup
  values : ∀ entry ∈ compiled, IsLeast {index | Offers table entry.1 index} entry.2
  increasing : (compiled.map (·.2)).Pairwise (· < ·)

theorem DeclaresMentioned.eq_singleton {sections : Source.Sections} {table : Table}
    {natives : List String} {compiled : List (String × Int)} {entry : String × Int}
    (declares : DeclaresMentioned sections table natives compiled)
    (only : ∀ other ∈ compiled, other = entry) (present : entry.1 ∈ compiled.map (·.1)) :
    compiled = [entry] := by
  have repeated := List.eq_replicate_of_mem only
  have nonempty : 0 < compiled.length := by
    rw [← List.length_map Prod.fst]
    exact List.length_pos_of_mem present
  have few : compiled.length ≤ 1 := by
    have distinct := declares.once.of_map _
    rw [repeated] at distinct
    exact List.nodup_replicate.mp distinct
  rw [repeated, show compiled.length = 1 by omega]
  rfl

theorem declaresMentioned_of_covers {sections : Source.Sections} (complete : sections.Complete)
    {table : Table} {natives : List String} {compiled : List (String × Int)} {declared : Declared}
    (covers : declared.Covers (referringTexts sections) table (nativeRows natives) compiled
      table.compiledRows)
    (inOrder : Declared.InOrder (referringTexts sections) table compiled table.compiledRows) :
    DeclaresMentioned sections table natives compiled where
  names := by
    intro name
    rw [covers.mem_names_iff, names_nativeRows]
    constructor
    · rintro ⟨apart, index, row, wanted⟩
      obtain ⟨mentioned, offered⟩ := (wanted_iff complete row).mp wanted
      exact ⟨⟨index, offered⟩, apart, mentioned⟩
    · rintro ⟨⟨index, offered⟩, apart, mentioned⟩
      exact ⟨apart, index, offered.1, (wanted_iff complete offered.1).mpr ⟨mentioned, offered⟩⟩
  once := covers.distinct
  values := by
    intro entry inside
    obtain ⟨row, wanted⟩ := covers.wanted entry inside
    obtain ⟨mentioned, offered⟩ := (wanted_iff complete row).mp wanted
    refine ⟨offered, fun index other => ?_⟩
    exact inOrder.first entry inside index other.1
      ((wanted_iff complete other.1).mpr ⟨mentioned, other⟩)
  increasing := inOrder.increasing

end Interpreter

namespace Compilation

open Interpreter

/-- In the interpreter source of a compiled source, the constants of the native words are followed
by those of the compiled words that are needed. This is what the text of the declarations says: read
line by line, it gives their names and values in this order and no others. -/
theorem ofText_referenced_constants {source : String} {filename : Option String} {order : Order}
    {compilation : Compilation}
    (returned : (ofText source filename order).outcome = .ok compilation) :
    ∃ (text : String) (natives : List String) (compiled : List (String × Int)),
      constants compilation.sections compilation.table = .ok text ∧
      readDeclarations text = nativeRows natives ++ compiled ∧
      natives.map some =
        compilation.table.constants.toList.take compilation.table.nativeCount.toNat ∧
      text = sizeLine compilation.table ++
        String.join ((nativeRows natives).map fun (name, index) => constantLine name index) ++
        String.join (compiled.map fun (name, index) => constantLine name index) ∧
      DeclaresMentioned compilation.sections compilation.table natives compiled := by
  obtain ⟨formed, complete⟩ := ofText_renderable returned
  obtain ⟨natives, listed, -⟩ := exists_natives formed
  obtain ⟨text, written⟩ := constants_isOk formed complete
  obtain ⟨declared, compiled, covers, inOrder, rfl⟩ :=
    constants_ok (nativeConstants_eq formed listed) written
  have named := (isField_declared (ofText_fields returned) listed covers).2
  refine ⟨_, natives, compiled, written, readDeclarations_constants _ named, listed, ?_,
    declaresMentioned_of_covers complete covers inOrder⟩
  rw [List.map_append, String.join_append, String.append_assoc]

/-- A source whose template mentions the constants of a native word, which is redefined, and of two
compiled words that differ in case. -/
def mentioningSource : String :=
  "WORD_W WORD_ADD\n/*CONSTS*/\n/*CODE*/\n========\n========\nadd\n========\n" ++
    ": W- ;\n: w ;\n: W ;\n: add ;\n"

def mentioningSections : Source.Sections where
  template := { prologue := some "WORD_W WORD_ADD\n" }
  natives := [{ name := "add", line := some 6 }]
  definitions := [⟨": W- ;", some 8⟩, ⟨": w ;", some 9⟩, ⟨": W ;", some 10⟩, ⟨": add ;", some 11⟩]

def mentioningConstants : Array (Option String) :=
  #[some "add", some "W-", some "w", some "W", some "add"]

/-- The declarations for that source. -/
def mentionedText : String :=
  "\tprivate static final int INTERNAL_SIZE = 1;\n\n" ++
    "\tprivate static final short WORD_ADD = (short)0;\n" ++
    "\tprivate static final short WORD_W = (short)2;\n"

theorem mentioningSource_compiles :
    ∃ compilation, (ofText mentioningSource none .shadowing).outcome = .ok compilation ∧
      compilation.sections = mentioningSections ∧ compilation.table.nativeCount = 1 ∧
      compilation.table.names.size = 5 ∧ compilation.table.constants = mentioningConstants := by
  have read : Source.read mentioningSource none = .ok mentioningSections := by decide +kernel
  have evaluated : (ofText mentioningSource none .shadowing).outcome.toOption.map
      (fun compilation => (compilation.table.nativeCount, compilation.table.names.size,
        compilation.table.constants)) = some (1, 5, mentioningConstants) := by
    rw [ofText, read]
    dsimp only
    rw [ofSections, initialState_of_nodup (by decide +kernel)]
    decide +kernel
  obtain ⟨compilation, present, parts⟩ := Option.map_eq_some_iff.mp evaluated
  have returned := Table.ok_of_toOption present
  obtain ⟨-, -, -, again, -⟩ := ofText_ok returned
  have same : compilation.sections = mentioningSections := Except.ok.inj (again.symm.trans read)
  exact ⟨compilation, returned, same, by simpa using parts⟩

section

variable {table : Table} (count : table.nativeCount = 1) (size : table.names.size = 5)
  (column : table.constants = mentioningConstants)

include count size column

theorem offers_mentioned : Offers table "WORD_W" 2 := by
  refine ⟨?_, "w", ?_, by decide, by decide +kernel⟩
  · rw [Table.compiledRows, count, size]
    decide
  · rw [column]
    rfl

/-- The hyphen keeps the first compiled word from offering its name. -/
theorem mentioned_of_offers {name : String} {index : Int} (offers : Offers table name index) :
    name = "WORD_W" ∧ 2 ≤ index ∨ name = "WORD_ADD" := by
  obtain ⟨row, constant, stored, identifier, rfl⟩ := offers
  rw [Table.compiledRows, count, size] at row
  obtain ⟨start, below⟩ := Position.mem_span.mp row
  rw [column] at stored
  obtain rfl | rfl | rfl | rfl : index = 1 ∨ index = 2 ∨ index = 3 ∨ index = 4 := by omega
  all_goals obtain rfl := Option.some.inj (Except.ok.inj stored)
  · exact absurd identifier (by decide)
  · exact .inl ⟨by decide +kernel, by decide⟩
  · exact .inl ⟨by decide +kernel, by decide⟩
  · exact .inr (by decide +kernel)

end

theorem ofText_referenced_constants_sample :
    ∃ compilation,
      (ofText mentioningSource none .shadowing).outcome = .ok compilation ∧
      constants compilation.sections compilation.table = .ok mentionedText ∧
      readDeclarations mentionedText = [("WORD_ADD", 0), ("WORD_W", 2)] ∧
      DeclaresMentioned compilation.sections compilation.table ["add"] [("WORD_W", 2)] := by
  obtain ⟨compilation, returned, same, count, size, column⟩ := mentioningSource_compiles
  obtain ⟨_, natives, compiled, written, found, listed, rfl, declares⟩ :=
    ofText_referenced_constants returned
  rw [count, column] at listed
  obtain rfl : natives = ["add"] :=
    List.map_injective_iff.mpr (Option.some_injective _) (listed.trans rfl)
  have only : ∀ entry ∈ compiled, entry = ("WORD_W", 2) := by
    rintro ⟨name, index⟩ inside
    have apart := ((declares.names name).mp (List.mem_map_of_mem inside)).2.1
    obtain ⟨offers, least⟩ := declares.values _ inside
    obtain ⟨rfl, above⟩ | rfl := mentioned_of_offers count size column offers
    · exact Prod.ext rfl (le_antisymm (least (offers_mentioned count size column)) above)
    · exact absurd (by decide +kernel) apart
  have mentioned : Mentions compilation.sections "WORD_W" := by
    refine ⟨"WORD_W WORD_ADD\n", ?_, Text.occursIn_iff.mp (by decide +kernel)⟩
    rw [same]
    exact List.mem_cons_self
  obtain rfl := declares.eq_singleton only ((declares.names "WORD_W").mpr
    ⟨⟨2, offers_mentioned count size column⟩, by decide +kernel, mentioned⟩)
  have text : sizeLine compilation.table ++
      String.join ((nativeRows ["add"]).map fun (name, index) => constantLine name index) ++
      String.join ([("WORD_W", 2)].map fun (name, index) => constantLine name index) =
        mentionedText := by
    unfold sizeLine
    rw [count]
    decide +kernel
  rw [text] at written found
  exact ⟨compilation, returned, written, found, declares⟩

end Compilation

end ThreadedCode
