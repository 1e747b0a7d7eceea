import Mathlib.Data.List.Forall2
import ThreadedCode.Proofs.Joining
import ThreadedCode.Proofs.Sections

/-!
# Native words and definitions by their lines

The lines of the last two sections of a source are dealt out without loss. A native word takes its
header and the indented lines below it, and blank lines go nowhere. A definition takes the lines
from the first one that is not blank down to the first that ends in the terminator, and only blank
lines stand between two of them. `read_partition` states both with the numbers that the lines have
in the source.
-/

namespace ThreadedCode

/-! ### Fields of a text -/

namespace Text

@[simp] theorem fields_nil : fields [] = [] := by
  rw [fields.eq_def]

theorem fields_cons (c : Char) (rest : List Char) :
    fields (c :: rest) =
      if isBlank c then fields rest else (c :: field rest) :: fields (afterField rest) := by
  rw [fields.eq_def]

theorem fields_blank_append {gap : List Char} (blank : ∀ c ∈ gap, isBlank c = true)
    (rest : List Char) : fields (gap ++ rest) = fields rest := by
  induction gap with
  | nil => rfl
  | cons c gap ih =>
    obtain ⟨first, others⟩ := List.forall_mem_cons.mp blank
    rw [List.cons_append, fields_cons, if_pos first, ih others]

theorem fields_visible_append {letters rest : List Char} (present : letters ≠ [])
    (visible : ∀ c ∈ letters, isBlank c = false)
    (ends : ∀ c, rest.head? = some c → isBlank c = true) :
    fields (letters ++ rest) = letters :: fields rest := by
  obtain ⟨c, letters, rfl⟩ := List.exists_cons_of_ne_nil present
  obtain ⟨first, others⟩ := List.forall_mem_cons.mp visible
  rw [List.cons_append, fields_cons, if_neg (by simp [first]), field_append others ends,
    afterField_append others ends]

/-- A text is blanks, its first field and what follows that, which is nothing where there is no
field. -/
theorem nextField_parts (text : List Char) :
    ∃ lead, (∀ c ∈ lead, isBlank c = true) ∧
      text = lead ++ ((nextField text).1 ++ (nextField text).2) ∧
      (∀ c ∈ (nextField text).1, isBlank c = false) ∧
      (∀ c, (nextField text).2.head? = some c → isBlank c = true) ∧
      ((nextField text).1 = [] → (nextField text).2 = []) := by
  refine ⟨text.takeWhile isBlank, fun c => List.mem_takeWhile_imp, ?_, ?_, ?_, ?_⟩
  · rw [nextField, field, afterField, List.takeWhile_append_dropWhile, trimLeft,
      List.takeWhile_append_dropWhile]
  · intro c member
    simpa using List.mem_takeWhile_imp member
  · exact head?_afterField _
  · intro absent
    cases rest : trimLeft text with
    | nil => simp [nextField, rest, afterField]
    | cons c letters =>
      have visible := head?_trimLeft text c (by rw [rest]; rfl)
      simp [nextField, rest, field, visible] at absent

/-- The first two fields of a text that has one, and the text in front of what follows them. -/
theorem fields_header {text name afterName constant afterConstant : List Char}
    (first : nextField text = (name, afterName))
    (second : nextField afterName = (constant, afterConstant)) (present : name ≠ []) :
    (fields text)[0]? = some name ∧
      (fields text)[1]? = (if constant = [] then none else some constant) ∧
      (∀ c, afterConstant.head? = some c → isBlank c = true) ∧
      ∃ front, text = front ++ afterConstant ∧ fields front = (fields text).take 2 := by
  obtain ⟨lead, blank, whole, visible, ends, -⟩ := nextField_parts text
  obtain ⟨gap, blank', rest, visible', ends', nothing⟩ := nextField_parts afterName
  simp only [first] at whole visible ends
  simp only [second] at rest visible' ends' nothing
  have listed : fields text = name :: fields afterName := by
    rw [whole, fields_blank_append blank, fields_visible_append present visible ends]
  by_cases absent : constant = []
  · have only : fields afterName = [] := by
      rw [rest, absent, nothing absent, List.append_nil, fields_blank_append blank', fields_nil]
    refine ⟨by rw [listed]; rfl, by rw [listed, only, if_pos absent]; rfl, ends', text, ?_, ?_⟩
    · rw [nothing absent, List.append_nil]
    · rw [listed, only]
      rfl
  · have others : fields afterName = constant :: fields afterConstant := by
      rw [rest, fields_blank_append blank', fields_visible_append absent visible' ends']
    refine ⟨by rw [listed]; rfl, by rw [listed, others, if_neg absent]; rfl, ends',
      lead ++ (name ++ (gap ++ constant)), by rw [whole, rest]; simp, ?_⟩
    -- The gap is there, or the two fields would be one.
    have apart : ∀ c, (gap ++ constant).head? = some c → isBlank c = true := by
      intro c start
      refine ends c ?_
      rw [rest, ← List.append_assoc, List.head?_append, start, Option.some_or]
    have alone : fields (constant ++ []) = [constant] := by
      rw [fields_visible_append absent visible' (by simp), fields_nil]
    rw [fields_blank_append blank, fields_visible_append present visible apart,
      fields_blank_append blank', ← List.append_nil constant, alone, listed, others]
    rfl

end Text

/-! ### Lists that are cut -/

/-- The first part of a list that is cut is the whole list, or ends where the list is cut first. -/
theorem splitOnP_eq_cons {α : Type} {p : α → Bool} {xs part : List α} {parts : List (List α)}
    (split : xs.splitOnP p = part :: parts) :
    (∀ x ∈ part, p x = false) ∧
      ((xs = part ∧ parts = []) ∨
        ∃ sep rest, xs = part ++ sep :: rest ∧ p sep = true ∧ rest.splitOnP p = parts) := by
  induction xs generalizing part with
  | nil =>
    obtain ⟨rfl, rfl⟩ := List.cons.inj (split.symm.trans List.splitOnP_nil)
    exact ⟨by simp, .inl ⟨rfl, rfl⟩⟩
  | cons x xs ih =>
    rw [List.splitOnP_cons_eq_if_modifyHead] at split
    by_cases cut : p x = true
    · rw [if_pos cut] at split
      obtain ⟨rfl, rest⟩ := List.cons.inj split
      exact ⟨by simp, .inr ⟨x, xs, rfl, cut, rest⟩⟩
    · rw [if_neg cut] at split
      obtain ⟨first, others, found⟩ := List.exists_cons_of_ne_nil (List.splitOnP_ne_nil p xs)
      rw [found, List.modifyHead_cons] at split
      obtain ⟨rfl, rfl⟩ := List.cons.inj split
      obtain ⟨inside, whole⟩ := ih found
      refine ⟨List.forall_mem_cons.mpr ⟨by simpa using cut, inside⟩, ?_⟩
      rcases whole with ⟨rfl, last⟩ | ⟨sep, rest, rfl, ends, later⟩
      · exact .inl ⟨rfl, last⟩
      · exact .inr ⟨sep, rest, rfl, ends, later⟩

namespace Source

/-! ### Native words -/

/-- A native word is written as a header, which is not indented, and indented lines. Its name and
its constant are the first two fields of the header, and its doc text is what follows them, less the
blanks at its ends. -/
structure NativeOn (header : Line) (body : List Line) (native : Native) : Prop where
  flush : header.1.toList.head? ≠ some ' ' ∧ header.1.toList.head? ≠ some '\t'
  name : (Text.fields header.1.toList)[0]? = some native.name.toList
  constant : (Text.fields header.1.toList)[1]? = native.constant.map String.toList
  doc : ∃ front remainder, header.1.toList = front ++ remainder ∧
    Text.fields front = (Text.fields header.1.toList).take 2 ∧
    (∀ c, remainder.head? = some c → Text.isBlank c = true) ∧
    native.doc =
      if Text.trim remainder = [] then none else some (String.ofList (Text.trim remainder))
  indented : ∀ line ∈ body, line.1.toList.head? = some ' ' ∨ line.1.toList.head? = some '\t'
  body : native.body = some ("\n".intercalate (body.map Prod.fst))
  line : native.line = some (header.2 : Int)

theorem nonempty?_eq (text : List Char) :
    nonempty? text = if text = [] then none else some (String.ofList text) := by
  simp [nonempty?]

theorem nativeOn_readNative {header : Line} {body : List Line}
    (visible : isBlankLine header = false) (flush : isIndented header = false)
    (indented : ∀ line ∈ body, isIndented line = true) :
    NativeOn header body (readNative header body) := by
  rcases first : Text.nextField header.1.toList with ⟨name, afterName⟩
  rcases second : Text.nextField afterName with ⟨constant, afterConstant⟩
  have present : name ≠ [] := by
    intro absent
    obtain ⟨lead, blank, whole, -, -, nothing⟩ := Text.nextField_parts header.1.toList
    simp only [first] at whole nothing
    rw [absent, nothing absent, List.append_nil, List.append_nil] at whole
    rw [isBlankLine, whole, List.all_eq_true.mpr blank] at visible
    cases visible
  obtain ⟨named, constants, ends, front, whole, two⟩ := Text.fields_header first second present
  have flushed : ¬ (header.1.toList.head? = some ' ' ∨ header.1.toList.head? = some '\t') := by
    rw [← isIndented_iff, flush]
    exact Bool.false_ne_true
  have made : readNative header body =
      { name := String.ofList name
        constant := nonempty? constant
        doc := nonempty? (Text.trim afterConstant)
        body := some ("\n".intercalate (body.map (·.1)))
        line := some header.2 } := by
    simp [readNative, first, second]
  rw [made]
  refine ⟨not_or.mp flushed, by rw [named]; simp, ?_, ⟨front, afterConstant, whole, two, ends, ?_⟩,
    fun line member => (isIndented_iff line).mp (indented line member), rfl, rfl⟩
  · rw [constants, nonempty?_eq]
    split <;> simp
  · exact nonempty?_eq _

/-- The header of every native word and then its body, word for word, are the lines. -/
theorem nativesFrom_groups (done : Array Native) {lines : List Line}
    (visible : ∀ line ∈ lines, isBlankLine line = false)
    (flush : ∀ line, lines.head? = some line → isIndented line = false) :
    ∃ (groups : List (Line × List Line)) (natives : List Native),
      nativesFrom done lines = done.toList ++ natives ∧
      groups.flatMap (fun group => group.1 :: group.2) = lines ∧
      List.Forall₂ (fun group native => NativeOn group.1 group.2 native) groups natives := by
  fun_induction nativesFrom done lines with
  | case1 done => exact ⟨[], [], by simp, rfl, .nil⟩
  | case2 done header rest ih =>
    have whole : rest.takeWhile isIndented ++ rest.dropWhile isIndented = rest :=
      List.takeWhile_append_dropWhile
    have below : ∀ line ∈ rest.dropWhile isIndented, isBlankLine line = false := by
      intro line member
      exact visible line (List.mem_cons_of_mem _ ((List.dropWhile_suffix _).mem member))
    have next : ∀ line, (rest.dropWhile isIndented).head? = some line →
        isIndented line = false := by
      intro line first
      have stops := List.head?_dropWhile_not isIndented rest
      rw [first] at stops
      simpa using stops
    obtain ⟨groups, natives, read, listed, each⟩ := ih below next
    refine ⟨(header, rest.takeWhile isIndented) :: groups,
      readNative header (rest.takeWhile isIndented) :: natives, ?_, ?_, .cons ?_ each⟩
    · rw [read]
      simp
    · rw [List.flatMap_cons, listed, List.cons_append, whole]
    · exact nativeOn_readNative (visible header List.mem_cons_self) (flush header rfl)
        fun line => List.mem_takeWhile_imp

theorem readNatives_groups {lines : List Line} {natives : List Native}
    (read : readNatives lines = .ok natives) :
    ∃ groups : List (Line × List Line),
      groups.flatMap (fun group => group.1 :: group.2) =
        lines.filter (fun line => !isBlankLine line) ∧
      List.Forall₂ (fun group native => NativeOn group.1 group.2 native) groups natives := by
  have visible : ∀ line ∈ lines.filter (fun line => !isBlankLine line),
      isBlankLine line = false := by
    intro line member
    simpa using (List.mem_filter.mp member).2
  unfold readNatives at read
  split at read
  · rename_i absent
    obtain rfl := Except.ok.inj read
    exact ⟨[], absent.symm, .nil⟩
  · rename_i first rest found
    split at read
    · cases read
    · rename_i flush
      rw [found] at visible
      obtain ⟨groups, others, same, listed, each⟩ :=
        nativesFrom_groups #[] visible (by simpa using flush)
      rw [Except.ok.inj read] at same
      rw [found, same]
      exact ⟨groups, listed, each⟩

/-! ### Definitions -/

/-- A line ends in the terminator and blanks. -/
def EndsInTerminator (line : Line) : Prop :=
  ∃ front blanks, line.1.toList = front ++ ';' :: blanks ∧ ∀ c ∈ blanks, Text.isBlank c = true

/-- Some lines are cut into ranges with blank lines between them. A range starts with a line that is
not blank, and its end is the first of its lines that ends in the terminator, if there is one; if
not, it runs to the end of the lines. -/
inductive CutInto : List Line → List (List Line) → Prop where
  | nil : CutInto [] []
  | blank {line : Line} {lines : List Line} {ranges : List (List Line)}
      (skipped : isBlankLine line = true) (rest : CutInto lines ranges) :
      CutInto (line :: lines) ranges
  | closed {range : List Line} {last : Line} {lines : List Line} {ranges : List (List Line)}
      (starts : ∀ line, (range ++ [last]).head? = some line → isBlankLine line = false)
      (unfinished : ∀ line ∈ range, ¬ EndsInTerminator line) (ends : EndsInTerminator last)
      (rest : CutInto lines ranges) :
      CutInto (range ++ last :: lines) ((range ++ [last]) :: ranges)
  | unclosed {first : Line} {range : List Line} (starts : isBlankLine first = false)
      (unfinished : ∀ line ∈ first :: range, ¬ EndsInTerminator line) :
      CutInto (first :: range) [first :: range]

/-- A definition is written on some lines: it is their text, put together and without the blanks at
its ends, and it has the number of the first of them. -/
def DefinitionOn (range : List Line) (definition : Definition) : Prop :=
  definition.text = Text.strip ("\n".intercalate (range.map Prod.fst)) ∧
    ∃ first, range.head? = some first ∧ definition.line = some (first.2 : Int)

theorem endsDefinition_iff (line : Line) : endsDefinition line = true ↔ EndsInTerminator line := by
  have whole : Text.trimRight line.1.toList ++
      (line.1.toList.reverse.takeWhile Text.isBlank).reverse = line.1.toList := by
    rw [Text.trimRight, ← List.reverse_append, List.takeWhile_append_dropWhile,
      List.reverse_reverse]
  rw [endsDefinition, beq_iff_eq]
  constructor
  · intro last
    obtain ⟨front, same⟩ := List.getLast?_eq_some_iff.mp last
    refine ⟨front, (line.1.toList.reverse.takeWhile Text.isBlank).reverse, ?_, ?_⟩
    · rw [same, List.append_assoc] at whole
      exact whole.symm
    · intro c member
      exact List.mem_takeWhile_imp (List.mem_reverse.mp member)
  · rintro ⟨front, blanks, same, blank⟩
    have trimmed : Text.trimRight line.1.toList = front ++ [';'] := by
      rw [same, Text.trimRight, List.reverse_append, List.reverse_cons, List.append_assoc,
        List.dropWhile_append_of_pos (by simpa using blank)]
      simp [Text.isBlank]
    rw [trimmed, List.getLast?_concat]

theorem not_endsInTerminator_of_mem {lines : List Line} {line : Line}
    (member : line ∈ lines.takeWhile fun line => !endsDefinition line) :
    ¬ EndsInTerminator line := by
  intro ends
  have goesOn := List.mem_takeWhile_imp member
  rw [(endsDefinition_iff line).mpr ends] at goesOn
  cases goesOn

theorem endsInTerminator_of_dropWhile {lines later : List Line} {last : Line}
    (behind : lines.dropWhile (fun line => !endsDefinition line) = last :: later) :
    EndsInTerminator last := by
  have stops := List.head?_dropWhile_not (fun line => !endsDefinition line) lines
  rw [behind] at stops
  exact (endsDefinition_iff last).mp (by simpa using stops)

/-- Every definition is on a range of its own, and the ranges leave out blank lines only. -/
theorem definitionsFrom_ranges (done : Array Definition) (lines : List Line) :
    ∃ (ranges : List (List Line)) (definitions : List Definition),
      definitionsFrom done lines = done.toList ++ definitions ∧ CutInto lines ranges ∧
      List.Forall₂ DefinitionOn ranges definitions := by
  fun_induction definitionsFrom done lines with
  | case1 done => exact ⟨[], [], by simp, .nil, .nil⟩
  | case2 done first rest skipped ih =>
    obtain ⟨ranges, definitions, read, cut, each⟩ := ih
    exact ⟨ranges, definitions, read, .blank skipped cut, each⟩
  | case3 done first rest visible unfinished closing ih =>
    have whole : unfinished ++ closing = first :: rest := List.takeWhile_append_dropWhile
    have starts : isBlankLine first = false := Bool.eq_false_iff.mpr visible
    have misses : ∀ line ∈ unfinished, ¬ EndsInTerminator line := fun line =>
      not_endsInTerminator_of_mem
    cases behind : closing with
    | nil =>
      rw [behind, List.append_nil] at whole
      refine ⟨[first :: rest], [readDefinition (first :: rest) first.2], ?_, .unclosed starts ?_,
        .cons ⟨rfl, first, rfl, rfl⟩ .nil⟩
      · rw [List.take_nil, List.drop_nil, List.append_nil, whole, definitionsFrom]
        simp
      · rwa [whole] at misses
    | cons last later =>
      have ends : EndsInTerminator last := endsInTerminator_of_dropWhile behind
      obtain ⟨ranges, definitions, read, cut, each⟩ := ih
      rw [behind] at read cut whole
      have head : (unfinished ++ [last]).head? = some first := by
        have same := congrArg List.head? whole
        simpa using same
      refine ⟨(unfinished ++ [last]) :: ranges,
        readDefinition (unfinished ++ [last]) first.2 :: definitions, ?_, ?_,
        .cons ⟨rfl, first, head, rfl⟩ each⟩
      · rw [read]
        simp
      · rw [← whole]
        refine .closed ?_ misses ends cut
        intro line same
        rwa [← Option.some.inj (head.symm.trans same)]

/-! ### Whole sources -/

theorem delimiter_notMem {texts : List String} {start : Nat}
    (inside : ∀ line ∈ texts.zipIdx start, (line.1 == delimiter) = false) : delimiter ∉ texts := by
  intro member
  rw [← List.zipIdx_map_fst start texts, List.mem_map] at member
  obtain ⟨line, there, same⟩ := member
  have other := inside line there
  simp [same] at other

/-- The first section of numbered lines is their texts up to a delimiter, numbered. -/
theorem section_of_parts {lines : List String} {start : Nat} {part next : List Line}
    {parts : List (List Line)}
    (split : (lines.zipIdx start).splitOnP (fun line => line.1 == delimiter) =
      part :: next :: parts) :
    ∃ texts rest, lines = texts ++ delimiter :: rest ∧ delimiter ∉ texts ∧
      part = texts.zipIdx start ∧
      (rest.zipIdx (start + texts.length + 1)).splitOnP (fun line => line.1 == delimiter) =
        next :: parts := by
  obtain ⟨inside, ⟨-, last⟩ | ⟨sep, rest, whole, ends, later⟩⟩ := splitOnP_eq_cons split
  · cases last
  · obtain ⟨texts, behind, rfl, rfl, numbered⟩ := List.zipIdx_eq_append_iff.mp whole
    obtain ⟨text, rest, rfl, rfl, rfl⟩ := List.zipIdx_eq_cons_iff.mp numbered.symm
    obtain rfl : text = delimiter := by simpa using ends
    exact ⟨texts, rest, rfl, delimiter_notMem inside, rfl, later⟩

theorem section_of_part {lines : List String} {start : Nat} {part : List Line}
    (split : (lines.zipIdx start).splitOnP (fun line => line.1 == delimiter) = [part]) :
    delimiter ∉ lines ∧ part = lines.zipIdx start := by
  obtain ⟨inside, ⟨rfl, -⟩ | ⟨sep, rest, -, -, nothing⟩⟩ := splitOnP_eq_cons split
  · exact ⟨delimiter_notMem inside, rfl⟩
  · exact absurd nothing (List.splitOnP_ne_nil _ rest)

/-- The lines of native words and definitions are dealt out without loss. The headers and bodies of
the native words are the lines of the third section that are not blank, one after another, and the
fourth section is cut into the lines of the definitions, with only blank lines between them. -/
theorem read_partition {source : String} {filename : Option String} {sections : Sections}
    (done : read source filename = .ok sections) :
    ∃ first second third fourth,
      Text.lines source =
        first ++ delimiter :: (second ++ delimiter :: (third ++ delimiter :: fourth)) ∧
      delimiter ∉ first ++ second ++ third ++ fourth ∧
      (∃ groups : List (Line × List Line),
        groups.flatMap (fun group => group.1 :: group.2) =
          (third.zipIdx (first.length + second.length + 3)).filter (fun line => !isBlankLine line) ∧
        List.Forall₂ (fun group native => NativeOn group.1 group.2 native) groups
          sections.natives) ∧
      ∃ ranges,
        CutInto (fourth.zipIdx (first.length + second.length + third.length + 4)) ranges ∧
        List.Forall₂ DefinitionOn ranges sections.definitions := by
  unfold read at done
  dsimp only at done
  split at done
  · rename_i templateLines variableLines nativeLines definitionLines parts
    obtain ⟨first, rest, lines, plain₁, -, parts⟩ := section_of_parts parts
    obtain ⟨second, rest, rfl, plain₂, -, parts⟩ := section_of_parts parts
    obtain ⟨third, fourth, rfl, plain₃, numbered₃, parts⟩ := section_of_parts parts
    obtain ⟨plain₄, numbered₄⟩ := section_of_part parts
    have behindSecond : 1 + first.length + 1 + second.length + 1 =
        first.length + second.length + 3 := by omega
    have behindThird : 1 + first.length + 1 + second.length + 1 + third.length + 1 =
        first.length + second.length + third.length + 4 := by omega
    rw [behindSecond] at numbered₃
    rw [behindThird] at numbered₄
    subst numbered₃ numbered₄
    split at done
    · cases done
    · split at done
      · cases done
      · rename_i natives readNatives
        obtain rfl := Except.ok.inj done
        obtain ⟨ranges, definitions, read, cut, each⟩ := definitionsFrom_ranges #[]
          (fourth.zipIdx (first.length + second.length + third.length + 4))
        refine ⟨first, second, third, fourth, lines, ?_, readNatives_groups readNatives, ranges,
          cut, ?_⟩
        · simp [plain₁, plain₂, plain₃, plain₄]
        · rw [read]
          exact each
  · cases done

/-- Two native words, the first with a blank line in its body, and three definitions, of which the
first has a blank line inside and the last is not closed. -/
def samplePartition : String :=
  "/*CONSTS*/\n/*CODE*/\n========\nx\n========\n" ++
    "\nadd ADD  sum of two \n  a\n\n\tb\nint\n\n========\n" ++
    ": v\n\n  x ; \n\n: w ;\n: u\n"

theorem read_partition_sample :
    ∃ sections, read samplePartition none = .ok sections ∧
      sections.natives = [⟨"add", some "ADD", some "sum of two", some "  a\n\tb", some 7⟩,
        ⟨"int", none, none, some "", some 11⟩] ∧
      sections.definitions = [⟨": v\n\n  x ;", some 14⟩, ⟨": w ;", some 18⟩, ⟨": u", some 19⟩] ∧
      (∃ groups : List (Line × List Line), groups.length = 2 ∧
        List.Forall₂ (fun group native => NativeOn group.1 group.2 native) groups
          sections.natives) ∧
      ∃ lines ranges, ranges.length = 3 ∧ CutInto lines ranges ∧
        List.Forall₂ DefinitionOn ranges sections.definitions := by
  have evaluated : (read samplePartition none).toOption.map
      (fun sections => (sections.natives, sections.definitions)) =
      some ([⟨"add", some "ADD", some "sum of two", some "  a\n\tb", some 7⟩,
          ⟨"int", none, none, some "", some 11⟩],
        [⟨": v\n\n  x ;", some 14⟩, ⟨": w ;", some 18⟩, ⟨": u", some 19⟩]) := by decide +kernel
  cases done : read samplePartition none with
  | error diagnostic => simp [done, Except.toOption] at evaluated
  | ok sections =>
    rw [done] at evaluated
    obtain ⟨natives, definitions⟩ := Prod.mk.inj (Option.some.inj evaluated)
    obtain ⟨first, second, third, fourth, -, -, ⟨groups, -, each⟩, ranges, cut, each'⟩ :=
      read_partition done
    refine ⟨sections, rfl, natives, definitions, ⟨groups, ?_, each⟩, _, ranges, ?_, cut, each'⟩
    · rw [each.length_eq, natives]
      rfl
    · rw [each'.length_eq, definitions]
      rfl

end Source

end ThreadedCode
