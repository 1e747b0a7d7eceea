import ThreadedCode.Proofs.Outcome

/-!
# The layout of a source

`IsLaidOut` says which lines make up a source: three delimiters, a template with both of its markers
in order, and native words that begin with a header. `read_grammar` shows that a source is read
exactly if its lines are laid out so, and that the template is then cut at the first line with the
first marker and at the first line behind that with the second one.
-/

namespace ThreadedCode

namespace Text

theorem occursIn_iff {piece text : List Char} : occursIn piece text = true ↔ piece <:+: text := by
  induction text with
  | nil => simp [occursIn]
  | cons c rest ih => rw [occursIn, Bool.or_eq_true, List.isPrefixOf_iff_prefix, ih, List.infix_cons_iff]

theorem contains_iff {text piece : String} :
    contains text piece = true ↔ piece.toList <:+: text.toList :=
  occursIn_iff

end Text

/-! ### Lists that are cut -/

theorem splitOnP_map {α β : Type} (f : α → β) (p : β → Bool) (xs : List α) :
    (xs.map f).splitOnP p = (xs.splitOnP fun x => p (f x)).map (List.map f) := by
  induction xs with
  | nil => simp
  | cons x xs ih =>
    rw [List.map_cons, List.splitOnP_cons_eq_if_modifyHead, List.splitOnP_cons_eq_if_modifyHead, ih]
    split
    · simp
    · cases xs.splitOnP fun x => p (f x) <;> simp

/-- The first place that satisfies a test is where a search stops. -/
theorem isLeast_of_dropWhile {α : Type} {p : α → Bool} {xs rest : List α} {x : α}
    (found : xs.dropWhile (fun y => !p y) = x :: rest) :
    ∃ place, IsLeast {place | ∃ y, xs[place]? = some y ∧ p y = true} place ∧
      xs.takeWhile (fun y => !p y) = xs.take place ∧ rest = xs.drop (place + 1) := by
  have whole : xs.takeWhile (fun y => !p y) ++ x :: rest = xs := by
    rw [← found, List.takeWhile_append_dropWhile]
  have hit : p x = true := by
    have stops := List.head?_dropWhile_not (fun y => !p y) xs
    simpa [found] using stops
  have misses : ∀ y ∈ xs.takeWhile (fun y => !p y), p y = false := fun y member => by
    simpa using List.mem_takeWhile_imp member
  refine ⟨(xs.takeWhile fun y => !p y).length, ?_⟩
  generalize xs.takeWhile (fun y => !p y) = front at whole misses ⊢
  subst whole
  refine ⟨⟨⟨x, by simp, hit⟩, ?_⟩, by simp, by simp⟩
  rintro place ⟨y, there, passes⟩
  by_contra early
  rw [List.getElem?_append_left (by omega)] at there
  have fails := misses y (List.mem_of_getElem? there)
  simp [passes] at fails

namespace Source

/-! ### Lines that make up a source -/

/-- The lines of the section behind a number of delimiters. -/
def sectionAt (lines : List String) : Nat → List String
  | 0 => lines.takeWhile (· ≠ delimiter)
  | skipped + 1 => sectionAt ((lines.dropWhile (· ≠ delimiter)).drop 1) skipped

/-- A marker stands somewhere in the line at a place. -/
def Marked (lines : List String) (marker : String) (place : Nat) : Prop :=
  ∃ line, lines[place]? = some line ∧ marker.toList <:+: line.toList

/-- The lines of a source: exactly three of them are delimiters, the template has a line with the
first marker and a later one with the second, and the first line of native words that is not blank
starts with neither a space nor a tab. -/
structure IsLaidOut (lines : List String) : Prop where
  delimiters : lines.count delimiter = 3
  markers : ∃ first second, first < second ∧ Marked (sectionAt lines 0) constantsMarker first ∧
    Marked (sectionAt lines 0) codeMarker second
  headed : ∀ line, (sectionAt lines 2).find? (fun line => !line.toList.all Text.isBlank) = some line →
    line.toList.head? ≠ some ' ' ∧ line.toList.head? ≠ some '\t'

/-- The template on some lines, before, between and behind those at two places. -/
def templateAt (lines : List String) (first second : Nat) : Template where
  prologue := some (String.join ((lines.take first).map (· ++ "\n")))
  interlude := some (String.join (((lines.take second).drop (first + 1)).map (· ++ "\n")))
  epilogue := some (String.join ((lines.drop (second + 1)).map (· ++ "\n")))

/-- The template is cut at the first line with the first marker and at the first line behind that
with the second one. -/
def CutAtMarkers (lines : List String) (template : Template) : Prop :=
  ∃ first second, IsLeast {place | Marked lines constantsMarker place} first ∧
    IsLeast {place | first < place ∧ Marked lines codeMarker place} second ∧
    template = templateAt lines first second

/-! ### Sections -/

theorem length_splitOn (lines : List String) :
    (lines.splitOn delimiter).length = lines.count delimiter + 1 := by
  induction lines with
  | nil => simp
  | cons line lines ih =>
    rw [List.splitOn_cons_eq_if_modifyHead, List.count_cons]
    split
    · rw [List.length_cons, ih]
    · rw [List.length_modifyHead, ih, Nat.add_zero]

theorem splitOn_eq (lines : List String) :
    lines.splitOn delimiter =
      lines.takeWhile (· ≠ delimiter) ::
        match lines.dropWhile (· ≠ delimiter) with
        | [] => []
        | _ :: rest => rest.splitOn delimiter := by
  induction lines with
  | nil => simp
  | cons line lines ih =>
    rw [List.splitOn_cons_eq_if_modifyHead]
    by_cases ends : line = delimiter
    · simp [ends]
    · rw [if_neg (by simpa using ends), ih]
      simp [ends]

theorem splitOn_getElem? {lines : List String} {place : Nat} {part : List String}
    (there : (lines.splitOn delimiter)[place]? = some part) : part = sectionAt lines place := by
  induction place generalizing lines with
  | zero =>
    rw [splitOn_eq, List.getElem?_cons_zero] at there
    exact (Option.some.inj there).symm
  | succ place ih =>
    rw [splitOn_eq, List.getElem?_cons_succ] at there
    rw [sectionAt]
    cases rest : lines.dropWhile (· ≠ delimiter) with
    | nil =>
      rw [rest] at there
      simp at there
    | cons line later =>
      rw [rest] at there
      exact ih there

theorem sections_of_parts {lines : List String} {first second third fourth : List Line}
    (parts : (lines.zipIdx 1).splitOnP (fun line => line.1 == delimiter) =
      [first, second, third, fourth]) :
    lines.count delimiter = 3 ∧ first.map Prod.fst = sectionAt lines 0 ∧
      third.map Prod.fst = sectionAt lines 2 := by
  have texts : lines.splitOn delimiter = [first, second, third, fourth].map (List.map Prod.fst) := by
    have mapped := splitOnP_map Prod.fst (· == delimiter) (lines.zipIdx 1)
    rwa [List.zipIdx_map_fst, parts] at mapped
  have size := length_splitOn lines
  rw [texts] at size
  refine ⟨by simpa using size.symm, splitOn_getElem? ?_, splitOn_getElem? ?_⟩
  · simp [texts]
  · simp [texts]

/-! ### Template and native words -/

theorem mem_marked_iff {lines : List Line} {marker : String} {place : Nat} :
    Marked (lines.map Prod.fst) marker place ↔
      ∃ line, lines[place]? = some line ∧ Text.contains line.1 marker = true := by
  simp [Marked, Text.contains_iff]

theorem joinLines_eq (lines : List Line) :
    joinLines lines = String.join ((lines.map Prod.fst).map (· ++ "\n")) := by
  rw [joinLines, List.map_map]
  rfl

theorem readTemplate_ok {lines : List Line} {template : Template}
    (read : readTemplate lines = .ok template) : CutAtMarkers (lines.map Prod.fst) template := by
  unfold readTemplate at read
  dsimp only at read
  split at read
  · cases read
  · rename_i constantsLine rest found
    split at read
    · cases read
    · rename_i codeLine epilogue found'
      obtain ⟨first, least, prologue, rfl⟩ := isLeast_of_dropWhile found
      obtain ⟨next, least', interlude, rfl⟩ := isLeast_of_dropWhile found'
      refine ⟨first, first + 1 + next, ?_, ⟨⟨by omega, ?_⟩, ?_⟩, ?_⟩
      · simpa only [mem_marked_iff] using least
      · obtain ⟨line, there, marked⟩ := least'.1
        rw [List.getElem?_drop] at there
        exact mem_marked_iff.mpr ⟨line, there, marked⟩
      · rintro place ⟨later, marked⟩
        obtain ⟨line, there, code⟩ := mem_marked_iff.mp marked
        obtain ⟨distance, rfl⟩ := Nat.exists_eq_add_of_le (show first + 1 ≤ place from later)
        rw [← List.getElem?_drop] at there
        have bound := least'.2 ⟨line, there, code⟩
        omega
      · rw [← Except.ok.inj read, prologue, interlude, joinLines_eq, joinLines_eq, joinLines_eq,
          List.drop_drop, List.take_drop]
        simp only [templateAt, List.map_take, List.map_drop]
        rfl

theorem readTemplate_refused {lines : List Line} {problem : Problem}
    (refused : readTemplate lines = .error problem) :
    ¬ ∃ first second, first < second ∧ Marked (lines.map Prod.fst) constantsMarker first ∧
      Marked (lines.map Prod.fst) codeMarker second := by
  rintro ⟨first, second, before, marked, marked'⟩
  obtain ⟨line, there, constants⟩ := mem_marked_iff.mp marked
  obtain ⟨line', there', code⟩ := mem_marked_iff.mp marked'
  unfold readTemplate at refused
  dsimp only at refused
  split at refused
  · rename_i absent
    rw [List.dropWhile_eq_nil_iff] at absent
    have lacks := absent line (List.mem_of_getElem? there)
    simp [constants] at lacks
  · rename_i constantsLine rest found
    obtain ⟨place, least, -, rfl⟩ := isLeast_of_dropWhile found
    have bound := least.2 ⟨line, there, constants⟩
    split at refused
    · rename_i absent
      rw [List.dropWhile_eq_nil_iff] at absent
      obtain ⟨distance, rfl⟩ := Nat.exists_eq_add_of_le (show place + 1 ≤ second by omega)
      rw [← List.getElem?_drop] at there'
      have lacks := absent line' (List.mem_of_getElem? there')
      simp [code] at lacks
    · cases refused

theorem isIndented_iff (line : Line) :
    isIndented line = true ↔ line.1.toList.head? = some ' ' ∨ line.1.toList.head? = some '\t' := by
  unfold isIndented
  split
  · rename_i c rest text
    simp [text]
  · rename_i text
    simp [text]

theorem find?_visible (lines : List Line) :
    (lines.map Prod.fst).find? (fun line => !line.toList.all Text.isBlank) =
      (lines.filter fun line => !isBlankLine line).head?.map Prod.fst := by
  rw [List.find?_map, List.head?_filter]
  rfl

/-- The native words are read exactly if the first line that is not blank is not indented. -/
theorem readNatives_isOk_iff (lines : List Line) :
    (∃ natives, readNatives lines = .ok natives) ↔
      ∀ line, (lines.map Prod.fst).find? (fun line => !line.toList.all Text.isBlank) = some line →
        line.toList.head? ≠ some ' ' ∧ line.toList.head? ≠ some '\t' := by
  rw [find?_visible]
  unfold readNatives
  split
  · rename_i absent
    simp [absent]
  · rename_i first rest found
    have flush : isIndented first = false ↔
        first.1.toList.head? ≠ some ' ' ∧ first.1.toList.head? ≠ some '\t' := by
      rw [← not_or, ← isIndented_iff, Bool.not_eq_true]
    cases indented : isIndented first with
    | true => simpa [found, indented] using flush
    | false => simpa [found, indented] using flush

/-! ### Whole sources -/

theorem isLaidOut_of_read {source : String} {filename : Option String} {sections : Sections}
    (done : read source filename = .ok sections) :
    IsLaidOut (Text.lines source) ∧
      CutAtMarkers (sectionAt (Text.lines source) 0) sections.template := by
  unfold read at done
  dsimp only at done
  split at done
  · rename_i templateLines variableLines nativeLines definitionLines parts
    obtain ⟨delimiters, templateTexts, nativeTexts⟩ := sections_of_parts parts
    split at done
    · cases done
    · rename_i template readTemplate
      split at done
      · cases done
      · rename_i natives readNatives
        obtain rfl := Except.ok.inj done
        have cut := readTemplate_ok readTemplate
        have headed := (readNatives_isOk_iff nativeLines).mp ⟨natives, readNatives⟩
        rw [templateTexts] at cut
        rw [nativeTexts] at headed
        refine ⟨⟨delimiters, ?_, headed⟩, cut⟩
        obtain ⟨first, second, least, least', -⟩ := cut
        exact ⟨first, second, least'.1.1, least.1, least'.1.2⟩
  · cases done

theorem not_isLaidOut_of_read {source : String} {filename : Option String} {diagnostic : Diagnostic}
    (refused : read source filename = .error diagnostic) : ¬ IsLaidOut (Text.lines source) := by
  rintro ⟨delimiters, markers, headed⟩
  unfold read at refused
  dsimp only at refused
  split at refused
  · rename_i templateLines variableLines nativeLines definitionLines parts
    obtain ⟨-, templateTexts, nativeTexts⟩ := sections_of_parts parts
    split at refused
    · rename_i problem unmarked
      rw [← templateTexts] at markers
      exact readTemplate_refused unmarked markers
    · split at refused
      · rename_i problem line headless
        rw [← nativeTexts] at headed
        obtain ⟨natives, readNatives⟩ := (readNatives_isOk_iff nativeLines).mpr headed
        rw [headless] at readNatives
        cases readNatives
      · cases refused
  · rename_i others
    have size := congrArg List.length
      (splitOnP_map Prod.fst (· == delimiter) ((Text.lines source).zipIdx 1))
    rw [List.zipIdx_map_fst, ← List.splitOn_eq_splitOnP, length_splitOn, delimiters,
      List.length_map] at size
    match parts : ((Text.lines source).zipIdx 1).splitOnP (fun line => line.1 == delimiter) with
    | [first, second, third, fourth] => exact others _ _ _ _ parts
    | [] | [_] | [_, _] | [_, _, _] | _ :: _ :: _ :: _ :: _ :: _ => simp [parts] at size

/-- A source is read exactly if its lines are laid out as a source, and it is refused for its layout
only. Its template is cut at the first line with the first marker and the first line behind that
with the second one. -/
theorem read_grammar (source : String) (filename : Option String) :
    match read source filename with
    | .ok sections =>
      IsLaidOut (Text.lines source) ∧
        CutAtMarkers (sectionAt (Text.lines source) 0) sections.template
    | .error diagnostic =>
      ¬ IsLaidOut (Text.lines source) ∧ diagnostic.problem.kind = .sectionLayout := by
  split
  · rename_i sections done
    exact isLaidOut_of_read done
  · rename_i diagnostic refused
    exact ⟨not_isLaidOut_of_read refused, read_error refused⟩

/-- A source with both markers on two lines of its template, one of which has both. -/
def markedTwice : String :=
  "a\n/*CONSTS*/\nb\n/*CODE*/ /*CONSTS*/\nc\n/*CODE*/\n========\n========\n========\n"

/-- A source whose native words begin with a line of code. -/
def headless : String :=
  "/*CONSTS*/\n/*CODE*/\n========\n========\n\n  push(1);\n========\n"

theorem read_grammar_sample :
    (∃ sections, read markedTwice none = .ok sections ∧
      CutAtMarkers (sectionAt (Text.lines markedTwice) 0) sections.template ∧
      sections.template =
        { prologue := some "a\n", interlude := some "b\n", epilogue := some "c\n/*CODE*/\n" }) ∧
      ∃ diagnostic, read headless none = .error diagnostic ∧
        ¬ IsLaidOut (Text.lines headless) ∧ diagnostic.site.line = some 6 := by
  have accepted := read_grammar markedTwice none
  have refused := read_grammar headless none
  have sections : read markedTwice none = .ok
      { template := { prologue := some "a\n", interlude := some "b\n",
                      epilogue := some "c\n/*CODE*/\n" } } := by decide +kernel
  have diagnostic : read headless none = .error ⟨.bodyWithoutHeader, { line := some 6 }⟩ := by
    decide +kernel
  rw [sections] at accepted
  rw [diagnostic] at refused
  exact ⟨⟨_, sections, accepted.2, rfl⟩, _, diagnostic, refused.1, rfl⟩

end Source

end ThreadedCode
