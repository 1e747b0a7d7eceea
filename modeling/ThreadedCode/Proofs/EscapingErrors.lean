import ThreadedCode.Proofs.CommandOutcome
import ThreadedCode.Proofs.Spelling

/-!
# Errors that escape a command

What can go wrong with a command is not all handled. A source may be compiled without a fault and
still have no binary form; the name of a variable, which may be as long as it likes, is enough for
that (`ofVariable_escapes`).
-/

namespace ThreadedCode

namespace Text

theorem unifyNewlinesFrom_plain {text : List Char} (plain : '\r' ∉ text) (done : List Char) :
    unifyNewlinesFrom done text = done.reverse ++ text := by
  induction text generalizing done with
  | nil => simp [unifyNewlinesFrom]
  | cons c text ih =>
    obtain ⟨other, rest⟩ := List.ne_and_not_mem_of_not_mem_cons plain
    rw [unifyNewlinesFrom.eq_3 _ _ _ fun _ first _ => other first.symm, if_neg other.symm, ih rest]
    simp

theorem unifyNewlines_plain {text : String} (plain : '\r' ∉ text.toList) :
    unifyNewlines text = text := by
  rw [unifyNewlines, unifyNewlinesFrom_plain plain, List.reverse_nil, List.nil_append,
    String.ofList_toList]

theorem isLineBreak_of_visible {c : Char} (visible : isBlank c = false) :
    isLineBreak c = false := by
  simp only [isBlank, isLineBreak, Bool.or_eq_false_iff, Bool.and_eq_false_imp, decide_eq_true_eq,
    decide_eq_false_iff_not, beq_eq_false_iff_ne, ne_eq] at visible ⊢
  omega

theorem IsField.strip_eq {text : String} (field : IsField text) : strip text = text := by
  have whole := @trim_visible [] text.toList (by simp) field.visible
  rw [strip, ← List.nil_append text.toList, whole, String.ofList_toList]

end Text

namespace Source

/-- A source that has one variable and nothing else. -/
def ofVariable (name : String) : String :=
  String.join ([constantsMarker, codeMarker, delimiter, name, delimiter, delimiter].map (· ++ "\n"))

theorem read_ofVariable {name : String} (field : Text.IsField name) (other : name ≠ delimiter)
    (filename : Option String) :
    read (ofVariable name) filename = .ok { variableNames := some [name] } := by
  have lines : Text.lines (ofVariable name) =
      [constantsMarker, codeMarker, delimiter, name, delimiter, delimiter] := by
    have plain : ∀ c ∈ name.toList, Text.isLineBreak c = false := fun c member =>
      Text.isLineBreak_of_visible (field.visible c member)
    refine Text.lines_join ?_
    simpa [constantsMarker, codeMarker, delimiter, Text.isLineBreak] using plain
  have parts : ([constantsMarker, codeMarker, delimiter, name, delimiter, delimiter].zipIdx
      1).splitOnP (fun line => line.1 == delimiter) =
        [[(constantsMarker, 1), (codeMarker, 2)], [(name, 4)], [], []] := by
    have marks : constantsMarker ≠ delimiter ∧ codeMarker ≠ delimiter := by decide
    simp [List.zipIdx_cons, List.splitOnP_cons_eq_if_modifyHead, other, marks]
  have markers : readTemplate [(constantsMarker, 1), (codeMarker, 2)] = .ok {} := rfl
  have visible : isBlankLine (name, 4) = false := by
    obtain ⟨c, rest, letters⟩ := List.exists_cons_of_ne_nil
      fun empty => field.present (String.toList_inj.mp empty)
    simp [isBlankLine, letters, field.visible c (letters ▸ List.mem_cons_self)]
  unfold read
  rw [lines, parts]
  simp [markers, readNatives, readVariables, visible, field.strip_eq, definitionsFrom]

end Source

theorem Compilation.ofText_ofVariable {name : String} (field : Text.IsField name)
    (other : name ≠ Source.delimiter) (filename : Option String) (order : Order) :
    ∃ compilation, (ofText (Source.ofVariable name) filename order).outcome = .ok compilation ∧
      compilation.table = { variableNames := #[name] } := by
  rw [ofText, Source.read_ofVariable field other]
  refine ⟨_, rfl, ?_⟩
  have noWord : Bootstrap.ofCatalog {} {} = {} := by decide +kernel
  simp [tableOf, Table.assemble, Catalog.size, catalogOf, Variables.ofList, noWord]

theorem Table.encode_variable {name : String} (long : 65535 < name.utf8ByteSize) :
    ({ variableNames := #[name] } : Table).encode = .error .fieldOutOfRange := by
  have fits {values : List Int} (words : ∀ value ∈ values, 0 ≤ value ∧ value ≤ 65535) :
      ∃ bytes, values.mapM encodeField = .ok bytes :=
    mapM_isOk_iff.mpr fun value member => encodeField_isOk_iff.mpr (words value member)
  have counts : ({ variableNames := #[name] } : Table).headerFields = [0, 0, 0, 1] := rfl
  obtain ⟨_, header⟩ := @fits [0, 0, 0, 1] (by simp)
  obtain ⟨_, bootstrap⟩ : ∃ bytes, ({} : Bootstrap).toList.mapM
      (fun index => encodeField (index.getD noIndex)) = .ok bytes := by
    rw [mapM_isOk_iff]
    intro index member
    obtain rfl : index = none := by simpa [Bootstrap.toList] using member
    exact encodeField_isOk_iff.mpr (by decide)
  have slots : [name].mapM encodeText = .error .fieldOutOfRange := by
    have tooLong : isWord ((Text.utf8Bytes name.toList).length : Int) = false := by
      rw [length_utf8Bytes, Bool.eq_false_iff, Ne, isWord_iff]
      omega
    rw [List.mapM_cons, encodeText, encodeField, tooLong]
    rfl
  rw [encode, counts, header]
  simp only [bootstrap, slots]
  rfl

namespace CommandLine

open Build (isPossiblePath)

/-- A variable whose name does not fit the binary form ends a command that is asked for one. -/
theorem ofVariable_escapes {name : String} (field : Text.IsField name)
    (long : 65535 < name.utf8ByteSize) :
    ((run FileStore.disk ["--binary", "bin", "source"]).run
        { nodes :=
          [(["source"], .file (Text.utf8Bytes (Source.ofVariable name).toList))] }).1.outcome =
      .escaped (.build (.encode .fieldOutOfRange)) := by
  have other : name ≠ Source.delimiter := by
    rintro rfl
    exact absurd long (by decide)
  have accepted : parse ["--binary", "bin", "source"] =
      .run "source" { source := some "source", binary := some (.text "bin") } := by decide +kernel
  obtain ⟨compilation, returned, table⟩ :=
    Compilation.ofText_ofVariable field other (some "source") .shadowing
  have unified : Text.unifyNewlines (Source.ofVariable name) = Source.ofVariable name := by
    refine Text.unifyNewlines_plain ?_
    have inName : '\r' ∉ name.toList := fun member => absurd (field.visible _ member) (by decide)
    simp [Source.ofVariable, Source.constantsMarker, Source.codeMarker, Source.delimiter, inName]
  have built (bytes : List UInt8) (whole : bytes = Text.utf8Bytes (Source.ofVariable name).toList) :
      buildOf { nodes := [(["source"], .file bytes)] } .shadowing "source" =
        .ok { source := Source.ofVariable name, filename := some "source", compilation } := by
    have read : FileStore.read { nodes := [(["source"], .file bytes)] } "source" = .ok bytes := rfl
    have possible : isPossiblePath "source" = true := by decide
    rw [buildOf, sourceText, if_pos possible, read]
    dsimp only
    rw [whole, Table.ofUtf8?_utf8Bytes]
    dsimp only
    rw [unified, returned]
  unfold run runWith
  rw [accepted]
  dsimp only
  generalize whole : Text.utf8Bytes (Source.ofVariable name).toList = bytes
  obtain ⟨response, final, ran, outcome⟩ := compileAndDeliver_run
    { nodes := [(["source"], .file bytes)] } _ .shadowing "source"
  rw [ran]
  rw [built bytes whole.symm] at outcome
  obtain ⟨text, -, outcome⟩ := outcome
  simpa [put, putBinary, table, Table.encode_variable long] using outcome

/-- A byte that is no text, a directory in place of the output and a name with one letter too many
for the binary form are not handled. -/
theorem unhandled_errors_escape :
    ((run FileStore.disk ["source"]).run
        { nodes := [(["source"], .file [0xff])] }).1.outcome = .escaped (.build .invalidText) ∧
      ((run FileStore.disk ["-o", ".", "source"]).run
        { nodes := [(["source"], .file (Text.utf8Bytes
            "/*CONSTS*/\n/*CODE*/\n========\n========\n========\n".toList))] }).1.outcome =
        .escaped (.build (.file .isDirectory)) ∧
      ((run FileStore.disk ["--binary", "bin", "source"]).run
        { nodes := [(["source"], .file (Text.utf8Bytes
            (Source.ofVariable (String.ofList (List.replicate 65536 'x'))).toList))] }).1.outcome =
        .escaped (.build (.encode .fieldOutOfRange)) := by
  refine ⟨by decide +kernel, by decide +kernel, ofVariable_escapes ⟨?_, ?_⟩ ?_⟩
  · intro empty
    exact List.cons_ne_nil 'x' (List.replicate 65535 'x') (String.ofList_injective empty)
  · intro c member
    rw [String.toList_ofList] at member
    rw [List.eq_of_mem_replicate member]
    decide
  · have one : (String.utf8EncodeChar 'x').length = 1 := by decide
    rw [← Table.length_utf8Bytes, String.toList_ofList, Text.utf8Bytes, List.length_flatMap,
      List.map_replicate, one, List.sum_replicate_nat]
    decide

end CommandLine

end ThreadedCode
