import ThreadedCode.Interpreter.Source
import ThreadedCode.Proofs.BinaryForm
import ThreadedCode.Proofs.Numbers
import ThreadedCode.Proofs.Partition

/-!
# Declarations and cases read from a text

The generated text has one declaration or one case on a line. A reader that knows only how such a
line is laid out in fields finds the name and the value that were written, as long as the constants
are fields themselves. A constant stays one in upper case.
-/

namespace ThreadedCode

namespace Text

/-! ### Fields -/

theorem fields_append_blank {c : Char} (blank : isBlank c = true) (front rest : List Char) :
    fields (front ++ c :: rest) = fields front ++ fields rest := by
  have passed : fields (c :: rest) = fields rest := by rw [fields_cons, if_pos blank]
  fun_induction fields front with
  | case1 => exact passed
  | case2 d front gap ih => rw [List.cons_append, fields_cons, if_pos gap, ih]
  | case3 d front shown ih =>
    have ends : ∀ e, (afterField front ++ c :: rest).head? = some e → isBlank e = true := by
      intro e first
      cases follows : afterField front with
      | nil =>
        rw [follows] at first
        obtain rfl := Option.some.inj first
        exact blank
      | cons f others => exact head?_afterField front e (by rw [follows] at first ⊢; exact first)
    have whole : d :: front ++ c :: rest =
        (d :: field front) ++ (afterField front ++ c :: rest) := by
      rw [← List.append_assoc, field_append_afterField]
    rw [whole, fields_visible_append (List.cons_ne_nil d _) (visible_field shown) ends, ih,
      List.cons_append]

theorem visible_of_all {text : List Char} (shown : text.all (!isBlank ·) = true) :
    ∀ c ∈ text, isBlank c = false := by
  simpa using shown

theorem fields_visible {text : List Char} (present : text ≠ [])
    (visible : ∀ c ∈ text, isBlank c = false) : fields text = [text] := by
  have alone := @fields_visible_append text [] present visible (by simp)
  rwa [List.append_nil, fields_nil] at alone

/-! ### Upper case -/

/-- No letter that is not a blank has one in its upper case: neither the single ones, nor those of a
run, nor those that expand. -/
theorem isBlank_upperChar {c d : Char} (visible : isBlank c = false) (member : d ∈ upperChar c) :
    isBlank d = false := by
  have ascii : ∀ n < 0x80, isBlank (Char.ofNat n) = false →
      isBlank (Char.ofNat n).toUpper = false := by decide +kernel
  have expanded : ∀ entry ∈ caseExpansions.toList, ∀ n ∈ entry.2,
      isBlank (Char.ofNat n) = false := by decide +kernel
  have shifted : ∀ run ∈ caseRuns.toList, ∀ n ∈ List.range' run.first (run.last + 1 - run.first),
      isBlank (Char.ofNat (n + run.shift).toNat) = false := by decide +kernel
  unfold upperChar at member
  split at member
  · rename_i few
    rw [List.mem_singleton.mp member, ← Char.ofNat_toNat c]
    exact ascii c.toNat few (by rwa [Char.ofNat_toNat])
  · split at member
    · rename_i n expansion found
      obtain ⟨n, listed, rfl⟩ := List.mem_map.mp member
      exact expanded _ (Array.mem_toList_iff.mpr (Array.mem_of_find?_eq_some found)) n listed
    · split at member
      · rename_i run found
        have listed := Array.mem_toList_iff.mpr (Array.mem_of_find?_eq_some found)
        have covers := Array.find?_some found
        simp only [CaseRun.covers, Bool.and_eq_true, decide_eq_true_eq] at covers
        have inside : c.toNat ∈ List.range' run.first (run.last + 1 - run.first) := by
          rw [List.mem_range'_1]
          omega
        rw [List.mem_singleton.mp member]
        exact shifted run listed c.toNat inside
      · rw [List.mem_singleton.mp member]
        exact visible

theorem visible_upper {text : String} (visible : ∀ c ∈ text.toList, isBlank c = false) :
    ∀ c ∈ (upper text).toList, isBlank c = false := by
  intro c member
  rw [upper, String.toList_ofList] at member
  obtain ⟨d, listed, inside⟩ := List.mem_flatMap.mp member
  exact isBlank_upperChar (visible d listed) inside

end Text

namespace Interpreter

/-! ### The readers -/

/-- What the lines of a text say, in order. Most lines say nothing. -/
def readLines {α : Type} (read : List Char → Option α) (text : List Char) : List α :=
  (text.splitOn '\n').filterMap read

/-- Reads a short value up to the semicolon behind it. -/
def readShort? (text : List Char) : Option Int :=
  let digits := (text.drop 7).dropLast
  if text = "(short)".toList ++ digits ++ [';'] then Text.integer? digits else none

/-- Reads the name and the value of a constant from a line that declares one. -/
def readDeclaration? (line : List Char) : Option (String × Int) :=
  match (Text.fields line).map String.ofList with
  | ["private", "static", "final", "short", name, "=", value] =>
    (readShort? value.toList).map fun value => (name, value)
  | _ => none

/-- The constants that a text declares, with their values. -/
def readDeclarations (text : String) : List (String × Int) :=
  readLines readDeclaration? text.toList

/-- Reads the label of a case that calls a method and then leaves the dispatch. -/
def readCase? (line : List Char) : Option String :=
  match (Text.fields line).map String.ofList with
  | ["case", label, _, "break;"] =>
    let name := label.toList.dropLast
    if label.toList = name ++ [':'] then some (String.ofList name) else none
  | _ => none

/-- The labels of the cases in a text. -/
def readCases (text : String) : List String :=
  readLines readCase? text.toList

section

variable {α β : Type} {read : List Char → Option α}

theorem readLines_append (front back : List Char) :
    readLines read (front ++ '\n' :: back) = readLines read front ++ readLines read back := by
  rw [readLines, List.splitOn_eq_splitOnP, List.splitOnP_append_cons _ _ (by simp),
    List.filterMap_append]
  rfl

theorem readLines_line {line : List Char} (one : '\n' ∉ line) :
    readLines read line = (read line).toList := by
  rw [readLines, List.splitOn_eq_singleton one]
  cases found : read line <;> simp [found]

/-- Lines that are written one after another are read one after another. -/
theorem readLines_join {write : β → String} {values : β → α} {entries : List β}
    (each : ∀ entry ∈ entries, ∃ line, '\n' ∉ line ∧ (write entry).toList = line ++ ['\n'] ∧
      read line = some (values entry)) (rest : List Char) :
    readLines read ((String.join (entries.map write)).toList ++ rest) =
      entries.map values ++ readLines read rest := by
  induction entries with
  | nil => rfl
  | cons entry entries ih =>
    obtain ⟨⟨line, one, written, found⟩, others⟩ := List.forall_mem_cons.mp each
    have text : (String.join ((entry :: entries).map write)).toList ++ rest =
        line ++ '\n' :: ((String.join (entries.map write)).toList ++ rest) := by
      simp [written]
    rw [text, readLines_append, readLines_line one, found, ih others]
    rfl

end

/-! ### Lines that are written -/

theorem isField_constantName {constant : String} (field : Text.IsField constant) :
    Text.IsField (constantName constant) := by
  have opening : ∀ c ∈ "WORD_".toList, Text.isBlank c = false := Text.visible_of_all (by decide)
  refine ⟨fun empty => ?_, fun c member => ?_⟩
  · have none := congrArg String.toList empty
    simp [constantName] at none
  · rw [constantName, String.toList_append] at member
    rcases List.mem_append.mp member with fixed | upper
    · exact opening c fixed
    · exact Text.visible_upper field.visible c upper

theorem fields_of_isField {text : String} (field : Text.IsField text) :
    Text.fields text.toList = [text.toList] :=
  Text.fields_visible (fun empty => field.present (String.toList_inj.mp empty)) field.visible

theorem newline_notMem {text : List Char} (visible : ∀ c ∈ text, Text.isBlank c = false) :
    '\n' ∉ text :=
  fun member => absurd (visible _ member) (by decide)

theorem readShort?_decimal (value : Int) :
    readShort? ("(short)".toList ++ (Text.decimal value).toList ++ [';']) = some value := by
  have digits : (("(short)".toList ++ (Text.decimal value).toList ++ [';']).drop 7).dropLast =
      (Text.decimal value).toList := by
    rw [List.append_assoc, List.drop_append_of_le_length (by decide)]
    exact List.dropLast_concat
  rw [readShort?, digits, if_pos rfl, Text.integer?_decimal]

theorem readDeclaration?_constantLine {name : String} (field : Text.IsField name) (index : Int) :
    ∃ line, '\n' ∉ line ∧ (constantLine name index).toList = line ++ ['\n'] ∧
      readDeclaration? line = some (name, index) := by
  have shown : ∀ c ∈ "(short)".toList ++ (Text.decimal index).toList ++ [';'],
      Text.isBlank c = false := by
    have fixed : ∀ c ∈ "(short)".toList, Text.isBlank c = false := Text.visible_of_all (by decide)
    have last : ∀ c ∈ [';'], Text.isBlank c = false := List.forall_mem_singleton.mpr rfl
    exact List.forall_mem_append.mpr
      ⟨List.forall_mem_append.mpr ⟨fixed, fun c => Text.decimal_visible⟩, last⟩
  refine ⟨"\tprivate static final short".toList ++ ' ' :: (name.toList ++ ' ' :: ("=".toList ++
    ' ' :: ("(short)".toList ++ (Text.decimal index).toList ++ [';']))), ?_, ?_, ?_⟩
  · have noBreak := newline_notMem shown
    have noBreak' := newline_notMem field.visible
    simp only [List.mem_append, List.mem_cons, not_or] at noBreak ⊢
    exact ⟨by decide, by decide, noBreak', by decide, by decide, by decide, noBreak⟩
  · have opening : "\tprivate static final short ".toList =
        "\tprivate static final short".toList ++ [' '] := by decide +kernel
    have sign : " = (short)".toList = ' ' :: ("=".toList ++ ' ' :: "(short)".toList) := by
      decide +kernel
    have ending : ";\n".toList = [';', '\n'] := by decide
    have whole (front sign cast digits : List Char) :
        front ++ [' '] ++ name.toList ++ ' ' :: (sign ++ ' ' :: cast) ++ digits ++ [';', '\n'] =
          front ++ ' ' :: (name.toList ++ ' ' :: (sign ++ ' ' :: (cast ++ digits ++ [';']))) ++
            ['\n'] := by simp
    unfold constantLine
    rw [String.toList_append, String.toList_append, String.toList_append, String.toList_append,
      opening, sign, ending]
    exact whole _ _ _ _
  · have front : Text.fields "\tprivate static final short".toList =
        ["private".toList, "static".toList, "final".toList, "short".toList] := by decide +kernel
    have sign : Text.fields "=".toList = ["=".toList] := by decide +kernel
    rw [readDeclaration?, Text.fields_append_blank rfl, Text.fields_append_blank rfl,
      Text.fields_append_blank rfl, front, fields_of_isField field, sign,
      Text.fields_visible (by simp) shown]
    simp only [List.cons_append, List.nil_append, List.map_cons, List.map_nil,
      String.ofList_toList]
    rw [String.toList_ofList, readShort?_decimal]
    rfl

theorem toList_tabs (width length : Nat) :
    ∃ gap, (∀ c ∈ gap, c = '\t') ∧ (tabs width length).toList = '\t' :: gap := by
  have more : (width - length + 7) / 4 = (width - length + 3) / 4 + 1 := by omega
  refine ⟨List.replicate ((width - length + 3) / 4) '\t', fun c => List.eq_of_mem_replicate, ?_⟩
  rw [tabs, String.toList_ofList, more, List.replicate_succ]

theorem readCase?_caseLine {constant : String} (field : Text.IsField constant) (width : Nat) :
    ∃ line, '\n' ∉ line ∧ (caseLine width constant).toList = line ++ ['\n'] ∧
      readCase? line = some (constantName constant) := by
  have label : ∀ c ∈ (constantName constant).toList ++ [':'], Text.isBlank c = false := by
    have last : ∀ c ∈ [':'], Text.isBlank c = false := List.forall_mem_singleton.mpr rfl
    exact List.forall_mem_append.mpr ⟨(isField_constantName field).visible, last⟩
  have call : ∀ c ∈ constant.toList ++ "();".toList, Text.isBlank c = false := by
    have last : ∀ c ∈ "();".toList, Text.isBlank c = false := Text.visible_of_all (by decide)
    exact List.forall_mem_append.mpr ⟨field.visible, last⟩
  have tab : Text.isBlank '\t' = true := rfl
  obtain ⟨gap, tabbed, fill⟩ := toList_tabs width constant.length
  have blank : ∀ c ∈ gap, Text.isBlank c = true := fun c member => tabbed c member ▸ tab
  have inGap : '\n' ∉ gap := fun member => absurd (tabbed _ member) (by decide)
  refine ⟨"\t\t\tcase".toList ++ ' ' :: ((constantName constant).toList ++ [':'] ++ '\t' ::
    (gap ++ (constant.toList ++ "();".toList) ++ '\t' :: (gap ++ "break;".toList))), ?_, ?_, ?_⟩
  · have noBreak := newline_notMem label
    have noBreak' := newline_notMem call
    simp only [List.mem_append, List.mem_cons, not_or] at noBreak noBreak' ⊢
    exact ⟨by decide, by decide, noBreak, by decide, ⟨inGap, noBreak'⟩, by decide, inGap,
      by decide⟩
  · have opening : "\t\t\tcase ".toList = "\t\t\tcase".toList ++ [' '] := by decide
    have ending : "break;\n".toList = "break;".toList ++ ['\n'] := by decide
    have colon : ":".toList = [':'] := by decide
    have whole (front name constant stop arguments : List Char) :
        front ++ [' '] ++ name ++ [':'] ++ '\t' :: gap ++ constant ++ arguments ++ '\t' :: gap ++
            (stop ++ ['\n']) =
          front ++ ' ' :: (name ++ [':'] ++ '\t' :: (gap ++ (constant ++ arguments) ++
            '\t' :: (gap ++ stop))) ++ ['\n'] := by simp
    unfold caseLine
    dsimp only
    rw [String.toList_append, String.toList_append, String.toList_append, String.toList_append,
      String.toList_append, String.toList_append, String.toList_append, opening, ending, fill,
      colon]
    exact whole _ _ _ _ _
  · have front : Text.fields "\t\t\tcase".toList = ["case".toList] := by decide +kernel
    have stop : Text.fields "break;".toList = ["break;".toList] := by decide +kernel
    rw [readCase?, Text.fields_append_blank (show Text.isBlank ' ' = true from rfl),
      Text.fields_append_blank tab, Text.fields_append_blank tab, Text.fields_blank_append blank,
      Text.fields_blank_append blank, front, stop, Text.fields_visible (by simp) label,
      Text.fields_visible (by simp) call]
    simp only [List.cons_append, List.nil_append, List.map_cons, List.map_nil,
      String.ofList_toList]
    simp only [String.toList_ofList, List.dropLast_concat, if_true, String.ofList_toList]

/-- The declaration of the number of native words. -/
def sizeLine (table : Table) : String :=
  "\tprivate static final int INTERNAL_SIZE = " ++ Text.decimal table.nativeCount ++ ";\n\n"

/-- The number of native words is not a short value, so that it is no constant of a word. -/
theorem readDeclaration?_sizeLine (table : Table) :
    ∃ line, '\n' ∉ line ∧ (sizeLine table).toList = line ++ '\n' :: ['\n'] ∧
      readDeclaration? line = none := by
  have shown : ∀ c ∈ (Text.decimal table.nativeCount).toList ++ [';'], Text.isBlank c = false := by
    have last : ∀ c ∈ [';'], Text.isBlank c = false := List.forall_mem_singleton.mpr rfl
    exact List.forall_mem_append.mpr ⟨fun c => Text.decimal_visible, last⟩
  refine ⟨"\tprivate static final int INTERNAL_SIZE =".toList ++
    ' ' :: ((Text.decimal table.nativeCount).toList ++ [';']), ?_, ?_, ?_⟩
  · have noBreak := newline_notMem shown
    simp only [List.mem_append, List.mem_cons, not_or] at noBreak ⊢
    exact ⟨by decide, by decide, noBreak⟩
  · have opening : "\tprivate static final int INTERNAL_SIZE = ".toList =
        "\tprivate static final int INTERNAL_SIZE =".toList ++ [' '] := by decide +kernel
    have ending : ";\n\n".toList = [';', '\n', '\n'] := by decide
    have whole (front digits : List Char) : front ++ [' '] ++ digits ++ [';', '\n', '\n'] =
        front ++ ' ' :: (digits ++ [';']) ++ '\n' :: ['\n'] := by simp
    unfold sizeLine
    rw [String.toList_append, String.toList_append, opening, ending]
    exact whole _ _
  · have front : Text.fields "\tprivate static final int INTERNAL_SIZE =".toList =
        ["private".toList, "static".toList, "final".toList, "int".toList, "INTERNAL_SIZE".toList,
          "=".toList] := by decide +kernel
    rw [readDeclaration?, Text.fields_append_blank rfl, front,
      Text.fields_visible (by simp) shown]
    simp only [List.cons_append, List.nil_append, List.map_cons, List.map_nil,
      String.ofList_toList]
    rfl

/-- The lines of the dispatch in front of its cases. -/
def dispatchHead : String :=
  "\t/**\n\t * dispatches a word to the appropriate handler.\n" ++
    "\t * @param w  the number of the word.\n\t */\n" ++
    "\tprivate void dostep(short w) \x7b\n\t\tswitch (w) \x7b\n"

/-- The lines of the dispatch behind its cases. -/
def dispatchFoot (width : Nat) : String :=
  "\t\t\tdefault:" ++ tabs width 0 ++ "docol(w);\n\t\t\x7d\n\t\x7d\n"

theorem dispatch_ok {table : Table} {natives : List String} {text : String}
    (listed : dispatchConstants table = .ok natives) (found : dispatch table = .ok text) :
    ∃ width, text = dispatchHead ++ String.join (natives.map (caseLine width)) ++
      dispatchFoot width := by
  obtain ⟨constants, first, found⟩ := Table.bind_ok_iff.mp found
  obtain rfl := Except.ok.inj (listed.symm.trans first)
  obtain rfl := Except.ok.inj found
  refine ⟨natives.foldl (fun width constant => max width constant.length) 0, ?_⟩
  rw [dispatchFoot, ← String.append_assoc, ← String.append_assoc]
  rfl

theorem readCase?_dispatchFoot (width : Nat) :
    ∃ line, '\n' ∉ line ∧
      (dispatchFoot width).toList = line ++ '\n' :: "\t\t\x7d\n\t\x7d\n".toList ∧
      readCase? line = none := by
  obtain ⟨gap, tabbed, fill⟩ := toList_tabs width 0
  have inGap : '\n' ∉ gap := fun member => absurd (tabbed _ member) (by decide)
  have blank : ∀ c ∈ gap, Text.isBlank c = true := fun c member => tabbed c member ▸ rfl
  refine ⟨"\t\t\tdefault:".toList ++ '\t' :: (gap ++ "docol(w);".toList), ?_, ?_, ?_⟩
  · simp only [List.mem_append, List.mem_cons, not_or]
    exact ⟨by decide, by decide, inGap, by decide⟩
  · have ending : "docol(w);\n\t\t\x7d\n\t\x7d\n".toList =
        "docol(w);".toList ++ '\n' :: "\t\t\x7d\n\t\x7d\n".toList := by decide
    have whole (front call last : List Char) : front ++ '\t' :: gap ++ (call ++ '\n' :: last) =
        front ++ '\t' :: (gap ++ call) ++ '\n' :: last := by simp
    rw [dispatchFoot, String.toList_append, String.toList_append, fill, ending]
    exact whole _ _ _
  · have front : Text.fields "\t\t\tdefault:".toList = ["default:".toList] := by decide +kernel
    have call : Text.fields "docol(w);".toList = ["docol(w);".toList] := by decide +kernel
    rw [readCase?, Text.fields_append_blank rfl, Text.fields_blank_append blank, front, call]
    rfl

/-! ### Whole texts -/

/-- The declared constants are read back from the declarations. -/
theorem readDeclarations_constants (table : Table) {rows : List (String × Int)}
    (fields : ∀ row ∈ rows, Text.IsField row.1) :
    readDeclarations (sizeLine table ++
      String.join (rows.map fun (name, index) => constantLine name index)) = rows := by
  obtain ⟨line, one, size, silent⟩ := readDeclaration?_sizeLine table
  have rest := @readLines_join _ _ readDeclaration? (fun (name, index) => constantLine name index)
    id rows (fun row member => readDeclaration?_constantLine (fields row member) row.2) []
  have text (behind : List Char) : line ++ '\n' :: ['\n'] ++ behind = line ++ '\n' ::
      ([] ++ '\n' :: behind) := by simp
  rw [readDeclarations, String.toList_append, size, text, readLines_append, readLines_append,
    readLines_line one, silent, ← List.append_nil (String.toList _), rest, List.map_id]
  have nothing : readLines readDeclaration? [] = [] := by decide +kernel
  simp [nothing]

/-- The constants of the cases are read back from the method that runs a word. -/
theorem readCases_dispatch {table : Table} {natives : List String} {text : String}
    (listed : dispatchConstants table = .ok natives) (found : dispatch table = .ok text)
    (fields : ∀ constant ∈ natives, Text.IsField constant) :
    readCases text = natives.map constantName := by
  obtain ⟨width, rfl⟩ := dispatch_ok listed found
  obtain ⟨line, one, last, silent⟩ := readCase?_dispatchFoot width
  have opening : dispatchHead.toList = dispatchHead.toList.dropLast ++ ['\n'] := by decide +kernel
  have before : readLines readCase? dispatchHead.toList.dropLast = [] := by decide +kernel
  have after : readLines readCase? "\t\t\x7d\n\t\x7d\n".toList = [] := by decide +kernel
  have cases (behind : List Char) := @readLines_join _ _ readCase? (caseLine width) constantName
    natives (fun constant member => readCase?_caseLine (fields constant member) width) behind
  rw [readCases, String.toList_append, String.toList_append, opening, last, List.append_assoc,
    List.append_assoc, List.singleton_append, readLines_append, before, cases, readLines_append,
    readLines_line one, silent, after]
  simp

end Interpreter

end ThreadedCode
