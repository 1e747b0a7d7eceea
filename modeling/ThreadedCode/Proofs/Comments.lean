import ThreadedCode.Proofs.Joining

/-!
# Comments do not change code

A comment that is put between two tokens of a body adds its own tokens and moves those behind it. Its
tokens leave nothing but doc text in the draft (`addTokens_group`), and where a token stands shows
only in the places of problems. So the word is compiled as before (`compile_commented`), unless a
problem is moved to a place that cannot be written.
-/

namespace ThreadedCode

open Token (IsGroup ReadInComment nesting?)

namespace Compiler

/-! ### The tokens of a comment -/

namespace Draft

variable {state : State} {draft : Draft} {token : Token}

theorem addTokens_append (state : State) (draft : Draft) (early rest : List Token) :
    addTokens state draft (early ++ rest) =
      match addTokens state draft early with
      | (middle, none) => addTokens state middle rest
      | (middle, some failure) => (middle, some failure) := by
  induction early generalizing draft with
  | nil => rfl
  | cons token early ih =>
    rw [List.cons_append, addTokens, addTokens]
    cases effect? state draft token with
    | error failure => rfl
    | ok effect => exact ih _

theorem effect?_opening (kind : token.kind = .commentOpen) :
    effect? state draft token = .ok .openComment := by
  unfold effect? commentEffect codeEffect?
  rw [kind]
  split <;> rfl

theorem effect?_closing (inside : 0 < draft.commentDepth) (kind : token.kind = .commentClose) :
    effect? state draft token = .ok .closeComment := by
  unfold effect? commentEffect
  rw [if_pos inside, kind]

/-- Inside a comment a token that is no parenthesis and names no constant adds at most to the doc
text. -/
theorem effect?_other (inside : 0 < draft.commentDepth)
    (kind : token.kind = (Token.classify token.lexeme.toList).inComment)
    (left : token.lexeme.toList ≠ ['(']) (right : token.lexeme.toList ≠ [')'])
    (unnamed : token.hint? = none) :
    effect? state draft token =
      .ok (if !draft.firstCommentDone && draft.commentDepth == 1 then .document token.lexeme
        else .nothing) := by
  have level := Token.depthAfter_other left right 1
  rw [← Token.depthAfter_inComment, ← kind] at level
  unfold effect? commentEffect
  rw [if_pos inside, unnamed]
  cases is : token.kind with
  | commentOpen | commentClose => simp [is, Token.Kind.depthAfter] at level
  | _ => rfl

/-- A draft at a depth of comments, with a doc text. -/
def noting (draft : Draft) (depth : Nat) (doc : Array String) (done : Bool) : Draft :=
  { draft with commentDepth := depth, doc := doc, firstCommentDone := done }

/-- The fields of a comment change the doc text at most, and the depth by the parentheses they leave
open. -/
theorem addTokens_fields {fields : List (List Char)} {tokens : List Token}
    (read : ReadInComment fields tokens) {inner outer : Nat}
    (nested : nesting? inner fields = some outer)
    (unnamed : ∀ field ∈ fields, Token.hintOf? field = none) (draft : Draft) (depth : Nat)
    (doc : Array String) (done : Bool) (rest : List Token) :
    ∃ doc' done', addTokens state (draft.noting (depth + inner + 1) doc done) (tokens ++ rest) =
      addTokens state (draft.noting (depth + outer + 1) doc' done') rest := by
  -- As long as no parenthesis is closed that is not open, the depth stays above that of the text
  -- around the comment, so every token is one of the comment.
  induction fields generalizing tokens inner doc done with
  | nil =>
    obtain rfl := List.map_eq_nil_iff.mp read.1
    obtain rfl := Option.some.inj nested
    exact ⟨doc, done, rfl⟩
  | cons field fields ih =>
    obtain ⟨token, tokens, rfl, rfl, lexemes⟩ := List.map_eq_cons_iff.mp read.1
    obtain ⟨kind, kinds⟩ := List.forall_mem_cons.mp read.2
    obtain ⟨plain, unnamed⟩ := List.forall_mem_cons.mp unnamed
    have inside : 0 < (draft.noting (depth + inner + 1) doc done).commentDepth := Nat.succ_pos _
    rw [List.cons_append, addTokens]
    unfold nesting? at nested
    split at nested
    · rename_i left
      rw [effect?_opening (by rw [kind, left]; rfl)]
      exact ih ⟨lexemes, kinds⟩ nested unnamed doc done
    · rename_i left
      split at nested
      · rename_i right
        rw [effect?_closing inside (by rw [kind, right]; rfl)]
        split at nested
        · cases nested
        · exact ih ⟨lexemes, kinds⟩ nested unnamed doc _
      · rename_i right
        rw [effect?_other inside kind left right plain]
        dsimp only
        split
        · exact ih ⟨lexemes, kinds⟩ nested unnamed _ done
        · exact ih ⟨lexemes, kinds⟩ nested unnamed doc done

/-- A comment leaves nothing but doc text. -/
theorem addTokens_group {group : List Token} (comment : IsGroup group) (state : State)
    (draft : Draft) (rest : List Token) :
    ∃ doc done, addTokens state draft (group ++ rest) =
      addTokens state (draft.noting draft.commentDepth doc done) rest := by
  obtain ⟨opening, fields, inner, closing, rfl, first, last, read, balanced, unnamed⟩ := comment
  obtain ⟨doc, done, passed⟩ := addTokens_fields read balanced unnamed draft draft.commentDepth
    draft.doc draft.firstCommentDone (closing :: rest)
  refine ⟨doc, done || draft.commentDepth + 0 + 1 == 1, ?_⟩
  have inside : 0 < (draft.noting (draft.commentDepth + 0 + 1) doc done).commentDepth :=
    Nat.succ_pos _
  rw [List.cons_append, List.append_assoc, addTokens, effect?_opening first]
  refine Eq.trans passed ?_
  rw [addTokens, effect?_closing inside last]
  rfl

/-- A body that is added in full is added with a comment in it as well, but for the places that the
comment moves. -/
theorem addBody_commented {name : String} {early late group moved : List Token} {final : Draft}
    (comment : IsGroup group) (alike : moved.map Token.unplaced = late.map Token.unplaced)
    (added : addBody state (state.newDraft name) (early ++ late) = (final, none)) :
    ∃ reached,
      (Likeness.relocated ((early ++ late).zip (early ++ moved))).Drafts final reached ∧
      Reaches (addBody state (state.newDraft name) (early ++ (group ++ moved))) (reached, none) := by
  have fresh := Likeness.drafts_newDraft
    (rfl : (Likeness.relocated ((early ++ late).zip (early ++ moved))).file = id) state name
  have silent := newDraft_isWritable state name
  have pairs : (early ++ late).zip (early ++ moved) = early.zip early ++ late.zip moved :=
    List.zip_append rfl
  obtain ⟨before, behind⟩ : early.zip early ⊆ (early ++ late).zip (early ++ moved) ∧
      late.zip moved ⊆ (early ++ late).zip (early ++ moved) := by
    rw [pairs]
    exact ⟨List.subset_append_left _ _, List.subset_append_right _ _⟩
  rw [addBody, addTokens_append] at added
  rw [addBody, addTokens_append]
  have passes := Likeness.addTokens_follows (.refl state) fresh
    (Likeness.tokens_relocated rfl before)
  rcases passed : addTokens state (state.newDraft name) early with ⟨middle, _ | failure⟩
  · rw [passed] at added passes
    obtain ⟨reached, mirrors, reaches⟩ := passes.of_done silent silent
    obtain ⟨rfl, -⟩ := Prod.mk.inj reaches.of_done
    obtain ⟨doc, done, skipped⟩ := addTokens_group comment state reached moved
    have mirrored : (Likeness.relocated ((early ++ late).zip (early ++ moved))).Drafts reached
        (reached.noting reached.commentDepth doc done) :=
      { mirrors with doc := False.elim, done := False.elim }
    have follows := Likeness.addBody_follows (.refl state) mirrored
      (Likeness.tokens_relocated alike behind)
    unfold addBody at follows
    rw [added] at follows
    dsimp only
    rw [skipped]
    exact follows.of_done (passes.writable silent) (passes.writable silent)
  · rw [passed] at added
    cases added

end Draft

end Compiler

/-! ### Headers -/

namespace Text

theorem nextField_append (text : List Char) :
    text.takeWhile isBlank ++ (nextField text).1 ++ (nextField text).2 = text := by
  rw [List.append_assoc, nextField, field, afterField, List.takeWhile_append_dropWhile, trimLeft,
    List.takeWhile_append_dropWhile]

/-- Behind its first field a text may go on in any other way, as long as the field ends there. -/
theorem nextField_replace {text : List Char} (present : (nextField text).1 ≠ []) :
    ∃ front, text = front ++ (nextField text).2 ∧
      ∀ rest, (∀ c, rest.head? = some c → isBlank c = true) →
        nextField (front ++ rest) = ((nextField text).1, rest) := by
  obtain ⟨c, others, start⟩ : ∃ c others, (nextField text).1 = c :: others :=
    List.exists_cons_of_ne_nil present
  have visible : ∀ c ∈ (nextField text).1, isBlank c = false := fun c member => by
    simpa using List.mem_takeWhile_imp member
  refine ⟨text.takeWhile isBlank ++ (nextField text).1, (nextField_append text).symm,
    fun rest ends => ?_⟩
  have starts : ∀ d, ((nextField text).1 ++ rest).head? = some d → isBlank d = false := by
    intro d first
    refine visible d ?_
    rw [start] at first ⊢
    simp_all
  have trimmed : trimLeft (text.takeWhile isBlank ++ ((nextField text).1 ++ rest)) =
      (nextField text).1 ++ rest := trimLeft_append (fun c => List.mem_takeWhile_imp) starts
  rw [List.append_assoc]
  generalize (nextField text).1 = letters at visible trimmed
  rw [nextField, trimmed, field_append visible ends, afterField_append visible ends]

theorem nextField_eq_nil {text : List Char} (absent : (nextField text).1 = []) :
    (nextField text).2 = [] := by
  have first := head?_trimLeft text
  rw [nextField, field] at absent
  cases same : trimLeft text with
  | nil => simp [nextField, same, afterField]
  | cons c rest => simp [same, first c (by rw [same]; rfl)] at absent

end Text

namespace Compiler

/-- A source starts with the same marker and name as another, and its body on the same line. -/
structure SameHeader (source other : String) : Prop where
  marker : (Text.nextField other.toList).1 = (Text.nextField source.toList).1
  name : definedName other = definedName source
  line (number : Int) : bodyLine other number = bodyLine source number

theorem SameHeader.refl {source : String} : SameHeader source source :=
  ⟨rfl, rfl, fun _ => rfl⟩

/-- A definition that has a name may be given another body. -/
theorem sameHeader {source other : String} {header body : List Char}
    (named : definedName source ≠ "") (text : source.toList = header ++ bodyText source)
    (replaced : other.toList = header ++ body)
    (ends : ∀ c, body.head? = some c → Text.isBlank c = true) :
    SameHeader source other ∧ bodyText other = body := by
  have name : (Text.nextField (Text.nextField source.toList).2).1 ≠ [] := fun empty =>
    named (by rw [definedName, empty])
  have marker : (Text.nextField source.toList).1 ≠ [] := fun absent => by
    rw [Text.nextField_eq_nil absent] at name
    exact name rfl
  obtain ⟨first, whole, markers⟩ := Text.nextField_replace marker
  obtain ⟨second, tail, names⟩ := Text.nextField_replace name
  have shape : header = first ++ second := by
    rw [whole, tail, ← List.append_assoc] at text
    exact (List.append_cancel_right text).symm
  have apart : ∀ c, (second ++ body).head? = some c → Text.isBlank c = true := by
    cases front : second with
    | nil =>
      have nothing := congrArg Prod.fst (names [] (by simp))
      rw [front] at nothing
      exact absurd nothing.symm name
    | cons d later =>
      intro c start
      refine Text.head?_afterField (Text.trimLeft source.toList) c ?_
      change (Text.nextField source.toList).2.head? = some c
      rw [tail, front]
      exact start
  have after : Text.nextField other.toList = ((Text.nextField source.toList).1, second ++ body) := by
    rw [replaced, shape, List.append_assoc]
    exact markers _ apart
  have rest : bodyText other = body := by rw [bodyText, after, names body ends]
  refine ⟨⟨by rw [after], ?_, fun number => ?_⟩, rest⟩
  · rw [definedName, after, names body ends, definedName]
  · have lines : ∀ text : List Char, (header ++ text).count '\n' - text.count '\n' =
        header.count '\n' := fun text => by
      rw [List.count_append]
      omega
    rw [bodyLine, bodyLine, rest, replaced, lines, text, lines]

theorem head?_bodyText (source : String) :
    ∀ c, (bodyText source).head? = some c → Text.isBlank c = true :=
  Text.head?_afterField _

/-- What is read from the body of a definition that starts on a line. -/
def BodyScan (source : String) (line : Int) (scan : Token.Scan) : Prop :=
  Token.scanFrom (some (definedName source)) #[] 0 ⟨some (bodyLine source line), 1⟩
    (bodyText source) = .ok scan

theorem BodyScan.bodyTokens {source : String} {line : Int} {scan : Token.Scan}
    (scanned : BodyScan source line scan) :
    bodyTokens? source line = some ((dropTerminator? scan.tokens).getD scan.tokens) := by
  unfold bodyTokens?
  rw [scan_some, scanned]
  rfl

namespace State

variable {state after : State} {source other : String} {line : Int} {scan : Token.Scan}
  {word : CompiledWord}

theorem absent_name_iff (source : String) :
    ((Text.nextField (Text.nextField source.toList).2).1.isEmpty ||
      (Text.nextField (Text.nextField source.toList).2).1 == definitionTerminator) = true ↔
      definedName source = "" ∨ definedName source = ";" := by
  rw [Bool.or_eq_true, List.isEmpty_iff, beq_iff_eq, definedName, ← String.toList_inj,
    ← String.toList_inj, String.toList_ofList]
  rfl

theorem named_of_compile (compiled : state.compile source (some line) = (after, .ok (some word))) :
    definedName source ≠ "" ∧ definedName source ≠ ";" := by
  have nameless : ∀ reported, state.afterReport reported (fun state => (state, .ok none)) ≠
      (after, .ok (some word)) := by
    intro reported same
    cases reported <;> cases same
  unfold compile at compiled
  dsimp only at compiled
  split at compiled
  · exact absurd compiled (nameless _)
  · rename_i present
    exact not_or.mp (mt (absent_name_iff source).mpr present)

/-- A definition that has a name is compiled by its tokens behind two checks of its header. -/
theorem compile_eq (named : definedName source ≠ "" ∧ definedName source ≠ ";")
    (scanned : BodyScan source line scan) (state : State) :
    let site : Site := { word := definedName source, line, filename := state.filename }
    state.compile source (some line) =
      state.afterReport (state.checkMarker (Text.nextField source.toList).1 site) fun marked =>
        marked.afterReport
          (if (dropTerminator? scan.tokens).isSome then .ok marked
            else marked.report .unterminatedDefinition site) fun ready =>
          ready.compileTokens (definedName source)
            ((dropTerminator? scan.tokens).getD scan.tokens) := by
  intro site
  unfold compile
  dsimp only
  rw [if_neg (mt (absent_name_iff source).mp (not_or.mpr named))]
  congr 1
  funext marked
  change marked.compileBody (definedName source) site (bodyText source) (bodyLine source line) = _
  unfold compileBody
  rw [scan_some, scanned]
  cases dropped : dropTerminator? scan.tokens with
  | none => simp [dropped, Except.mapError]
  | some kept => simp [dropped, Except.mapError, afterReport]

theorem afterReport_ok {α : Type} {reported : Except Text.TooManyDigits State} {value : α}
    {next : State → State × Except Failure α}
    (done : state.afterReport reported next = (after, .ok value)) :
    ∃ ready, reported = .ok ready ∧ next ready = (after, .ok value) := by
  cases reported with
  | error limit => cases done
  | ok ready => exact ⟨ready, rfl, done⟩

theorem check_ok {passed : Prop} [Decidable passed] {problem : Problem} {site : Site}
    (checked : (if passed then .ok state else state.report problem site) = .ok after) :
    ∃ reports, after = state.reporting reports := by
  split at checked
  · exact ⟨#[], by rw [reporting_empty, Except.ok.inj checked]⟩
  · exact ⟨_, report_ok checked⟩

/-- The checks of the header have the same outcome for a definition with another body. -/
theorem compile_header (compiled : state.compile source (some line) = (after, .ok (some word)))
    (scanned : BodyScan source line scan) :
    ∃ reports, ∀ {other : String} {read : Token.Scan}, SameHeader source other →
      BodyScan other line read →
      (dropTerminator? read.tokens).isSome = (dropTerminator? scan.tokens).isSome →
      state.compile other (some line) =
        (state.reporting reports).compileTokens (definedName source)
          ((dropTerminator? read.tokens).getD read.tokens) := by
  have named := named_of_compile compiled
  rw [compile_eq named scanned] at compiled
  obtain ⟨marked, checked, compiled⟩ := afterReport_ok compiled
  obtain ⟨ready, ended, -⟩ := afterReport_ok compiled
  obtain ⟨first, rfl⟩ := check_ok checked
  obtain ⟨second, rfl⟩ := check_ok ended
  refine ⟨first ++ second, fun {other read} same body terminated => ?_⟩
  rw [← same.name] at named checked ended ⊢
  rw [compile_eq named body, same.marker, checked]
  simp only [afterReport, terminated, ended, reporting_reporting]

end State

/-! ### Bodies with a comment -/

/-- A definition with a comment put into its body. -/
def commented (header front comment back : String) : String :=
  header ++ front ++ " ( " ++ comment ++ " ) " ++ back

/-- A definition is cut in its body, between two tokens in front of the terminator: what is read from
the part of the body before the cut are the first tokens of the body. -/
structure CutBetween (line : Int) (header front back : String) : Prop where
  body : bodyText (header ++ front ++ back) = front.toList ++ back.toList
  boundary : ∃ scan tokens,
    Token.scan front.toList (some (definedName (header ++ front ++ back)))
      (some (bodyLine (header ++ front ++ back) line)) = .ok scan ∧
    bodyTokens? (header ++ front ++ back) line = some tokens ∧ scan.tokens <+: tokens

theorem dropTerminator?_isPrefix (tokens : List Token) :
    (dropTerminator? tokens).getD tokens <+: tokens := by
  unfold dropTerminator?
  repeat' split
  · exact List.dropLast_prefix _
  all_goals exact List.prefix_refl _

theorem dropTerminator?_concat (tokens : List Token) (last : Token) :
    dropTerminator? (tokens ++ [last]) =
      if last.kind = .word ∧ last.lexeme.toList = definitionTerminator then some tokens
      else none := by
  simp [dropTerminator?]

/-- The terminator is found with a comment in front of it as it is without. -/
theorem dropTerminator?_commented {early late group moved : List Token} (comment : IsGroup group)
    (alike : moved.map Token.unplaced = late.map Token.unplaced)
    (before : early <+: (dropTerminator? (early ++ late)).getD (early ++ late)) :
    (dropTerminator? (early ++ (group ++ moved))).isSome = (dropTerminator? (early ++ late)).isSome ∧
      ∃ kept others, (dropTerminator? (early ++ late)).getD (early ++ late) = early ++ kept ∧
        (dropTerminator? (early ++ (group ++ moved))).getD (early ++ (group ++ moved)) =
          early ++ (group ++ others) ∧
        others.map Token.unplaced = kept.map Token.unplaced := by
  -- With no token behind the comment there was no terminator, and the comment does not end in one.
  rcases List.eq_nil_or_concat' late with rfl | ⟨kept, last, rfl⟩
  · obtain rfl := List.map_eq_nil_iff.mp alike
    have unended : dropTerminator? early = none := by
      rcases List.eq_nil_or_concat' early with rfl | ⟨rest, last, rfl⟩
      · rfl
      · rw [List.append_nil, dropTerminator?_concat] at before
        rw [dropTerminator?_concat]
        split at before
        · have longer := before.length_le
          simp only [Option.getD_some, List.length_append, List.length_singleton] at longer
          omega
        · rename_i other
          rw [if_neg other]
    have closed : dropTerminator? (early ++ group) = none := by
      obtain ⟨opening, fields, inner, closing, rfl, -, kind, -⟩ := comment
      rw [← List.cons_append, ← List.append_assoc, dropTerminator?_concat, kind]
      simp
    simp only [List.append_nil] at before ⊢
    rw [unended, closed]
    exact ⟨rfl, [], [], by simp, by simp, rfl⟩
  · rw [List.map_append] at alike
    obtain ⟨others, ending, rfl, earlier, same⟩ := List.map_eq_append_iff.mp alike
    obtain ⟨final, rfl, here⟩ := List.map_eq_singleton_iff.mp same
    have kinds : final.kind = last.kind := (congrArg Token.kind here :)
    have lexemes : final.lexeme = last.lexeme := (congrArg Token.lexeme here :)
    rw [← List.append_assoc early kept, dropTerminator?_concat, ← List.append_assoc group,
      ← List.append_assoc early, dropTerminator?_concat, kinds, lexemes]
    split
    · exact ⟨rfl, kept, others, rfl, by simp, earlier⟩
    · exact ⟨rfl, kept ++ [last], others ++ [final], by simp, by simp, by simpa using alike⟩

section

variable {header front comment back : String} {line : Int}

theorem CutBetween.sameHeader (cut : CutBetween line header front back)
    (named : definedName (header ++ front ++ back) ≠ "") (comment : String) :
    SameHeader (header ++ front ++ back) (commented header front comment back) ∧
      bodyText (commented header front comment back) =
        front.toList ++ (" ( ".toList ++ comment.toList ++ " ) ".toList ++ back.toList) := by
  refine Compiler.sameHeader named (?_ : _ = header.toList ++ _) ?_ ?_
  · rw [cut.body]
    simp
  · simp [commented]
  · intro c start
    cases text : front.toList with
    | nil =>
      obtain rfl : ' ' = c := by simpa [text] using start
      decide
    | cons d rest =>
      obtain rfl : d = c := by simpa [text] using start
      exact head?_bodyText (header ++ front ++ back) d (by rw [cut.body, text]; rfl)

theorem CutBetween.scans (cut : CutBetween line header front back)
    (balanced : nesting? 0 (Text.fields comment.toList) = some 0)
    (unnamed : ∀ field ∈ Text.fields comment.toList, Token.hintOf? field = none)
    (same : SameHeader (header ++ front ++ back) (commented header front comment back))
    (body : bodyText (commented header front comment back) =
      front.toList ++ (" ( ".toList ++ comment.toList ++ " ) ".toList ++ back.toList)) :
    ∃ scan read early late group moved,
      BodyScan (header ++ front ++ back) line scan ∧
      BodyScan (commented header front comment back) line read ∧
      scan.tokens = early ++ late ∧ read.tokens = early ++ (group ++ moved) ∧
      IsGroup group ∧ moved.map Token.unplaced = late.map Token.unplaced ∧
      early <+: (dropTerminator? scan.tokens).getD scan.tokens := by
  obtain ⟨first, tokens, read, listed, boundary⟩ := cut.boundary
  obtain ⟨scan, scanned, rfl, -⟩ := bodyTokens?_scanned listed
  have opened := scan_ok read
  have blank : ∀ c, (" ( ".toList ++ comment.toList ++ " ) ".toList ++ back.toList).head? = some c →
      Text.isBlank c = true := by
    intro c start
    obtain rfl : ' ' = c := by simpa using start
    decide
  have whole := scanned
  rw [cut.body, Token.scanFrom_append opened
    (.inr ⟨scan, cut.body ▸ scanned, boundary.trans (dropTerminator?_isPrefix _)⟩)] at whole
  obtain ⟨group, isGroup, through⟩ := Token.scanFrom_group balanced unnamed back.toList first.depth
    first.tokens.toArray (Place.advance ⟨some (bodyLine (header ++ front ++ back) line), 1⟩
      front.toList)
  obtain ⟨late, moved, last, listed, behind, alike⟩ := Token.scanFrom_elsewhere whole
    (first.tokens.toArray ++ group.toArray) _
  refine ⟨scan, ⟨(first.tokens.toArray ++ group.toArray).toList ++ moved, scan.depth, last⟩,
    first.tokens, late, group, moved, scanned, ?_, listed, ?_, isGroup, alike, boundary⟩
  · rw [BodyScan, same.name, same.line, body, Token.scanFrom_append opened (.inl blank), through]
    exact behind
  · simp

/-- A word and the references it leaves pending are those of another, apart from documentation and
places. -/
structure SameWord (state after final : State) (word entry : CompiledWord) : Prop where
  name : entry.name = word.name
  constant : entry.constant = word.constant
  flags : entry.flags = word.flags
  code : entry.code = word.code
  pending : ∃ fresh others, after.pending = state.pending ++ fresh ∧
    final.pending = state.pending ++ others ∧
    others.map PendingReference.unplaced = fresh.map PendingReference.unplaced

theorem addDraft_sameWord {state : State} {draft other : Draft} {word : CompiledWord}
    {shifts : List (Token × Token)} (drafts : (Likeness.relocated shifts).Drafts draft other)
    (appended : (state.addDraft draft).newest? = some word) :
    ∃ entry, (state.addDraft other).newest? = some entry ∧
      SameWord state (state.addDraft draft) (state.addDraft other) word entry := by
  have symbols : (state.appending other).symbols = (state.appending draft).symbols := by
    have words := drafts.toWord
    simp [State.symbols, State.appending, words.name, words.constant]
  obtain ⟨first, entry, fresh, later, words, pendings, left, right⟩ :=
    Likeness.addDraft_alike drafts (State.resolve?_congr rfl symbols) rfl
  rw [left, State.newest?_adding] at appended
  obtain rfl := Option.some.inj appended
  refine ⟨entry, by rw [right, State.newest?_adding], words.name, words.constant, words.flags,
    words.code, fresh, later, by rw [left, State.adding], by rw [right, State.adding], ?_⟩
  rw [← Array.toList_inj, Array.toList_map, Array.toList_map]
  exact Likeness.map_eq_map_of_forall₂ pendings fun _ _ => Likeness.Pendings.unplaced

theorem compileTokens_commented {state after : State} {name : String} {word : CompiledWord}
    {early late group moved : List Token} (isGroup : IsGroup group)
    (alike : moved.map Token.unplaced = late.map Token.unplaced)
    (compiled : state.compileTokens name (early ++ late) = (after, .ok (some word))) :
    ∃ draft reached, after = state.addDraft draft ∧
      (Likeness.relocated ((early ++ late).zip (early ++ moved))).Drafts draft reached ∧
      (reached.IsWritable → ∃ entry,
        state.compileTokens name (early ++ (group ++ moved)) =
          (state.addDraft reached, .ok (some entry)) ∧
        SameWord state after (state.addDraft reached) word entry) ∧
      (¬ reached.IsWritable →
        (state.compileTokens name (early ++ (group ++ moved))).2 = .error (.tooManyDigits {})) := by
  unfold State.compileTokens at compiled ⊢
  split at compiled
  · cases compiled
  · rename_i draft added
    obtain ⟨rfl, appended⟩ := Prod.mk.inj compiled
    obtain ⟨reached, drafts, whole, stopped⟩ := Draft.addBody_commented isGroup alike added
    refine ⟨draft, reached, rfl, drafts, fun writable => ?_, fun unsaid => ?_⟩
    · obtain ⟨entry, last, same⟩ := addDraft_sameWord drafts (Except.ok.inj appended)
      rw [whole writable]
      exact ⟨entry, by dsimp only; rw [last], same⟩
    · have stopped := stopped unsaid
      generalize Draft.addBody state _ (early ++ (group ++ moved)) = result at stopped ⊢
      obtain ⟨stuck, failure⟩ := result
      obtain rfl := stopped
      rfl

/-- A comment between two tokens of a body, whose parentheses are balanced and that names no
constant, changes neither the word nor its pending references nor the problems, apart from
documentation and places. Problems of the header stay in their places, and those of tokens are at the
same tokens, some of which the comment has moved. The definition fails exactly if the place of one of
them can no longer be written. -/
theorem compile_commented {state after : State} {word : CompiledWord}
    (compiled : state.compile (header ++ front ++ back) (some line) = (after, .ok (some word)))
    (cut : CutBetween line header front back)
    (balanced : nesting? 0 (Text.fields comment.toList) = some 0)
    (unnamed : ∀ field ∈ Text.fields comment.toList, Token.hintOf? field = none) :
    ∃ early late group moved checks reports others,
      bodyTokens? (header ++ front ++ back) line = some (early ++ late) ∧
      bodyTokens? (commented header front comment back) line = some (early ++ (group ++ moved)) ∧
      moved.map Token.unplaced = late.map Token.unplaced ∧
      after.diagnostics = state.diagnostics ++ checks ++ reports ∧
      others.map Diagnostic.unplaced = reports.map Diagnostic.unplaced ∧
      List.Forall₂ (Draft.Moved ((early ++ late).zip (early ++ moved)))
        (reports.toList.map Diagnostic.spot) (others.toList.map Diagnostic.spot) ∧
      ((∀ report ∈ others, report.site.isWritable = true) →
        ∃ final entry,
          state.compile (commented header front comment back) (some line) =
            (final, .ok (some entry)) ∧
          SameWord state after final word entry ∧
          final.diagnostics = state.diagnostics ++ checks ++ others) ∧
      ((∃ report ∈ others, report.site.isWritable = false) →
        (state.compile (commented header front comment back) (some line)).2 =
          .error (.tooManyDigits {})) := by
  obtain ⟨same, body⟩ := cut.sameHeader (State.named_of_compile compiled).1 comment
  obtain ⟨scan, read, early, behind, group, shifted, scanned, again, first, second, isGroup, alike,
    boundary⟩ := cut.scans balanced unnamed same body
  rw [first] at boundary
  obtain ⟨terminated, late, moved, tokens, rest, alike⟩ :=
    dropTerminator?_commented isGroup alike boundary
  rw [← first, ← second] at terminated
  obtain ⟨checks, equation⟩ := State.compile_header compiled scanned
  rw [equation .refl scanned rfl, first, tokens] at compiled
  rw [equation same again terminated, second, rest]
  obtain ⟨draft, reached, rfl, drafts, whole, stopped⟩ :=
    compileTokens_commented isGroup alike compiled
  refine ⟨early, late, group, moved, checks, draft.diagnostics, reached.diagnostics, ?_, ?_, alike,
    State.diagnostics_addDraft _ _, drafts.unplaced_reports, drafts.moved_reports,
    fun writable => ?_, ?_⟩
  · rw [scanned.bodyTokens, first, tokens]
  · rw [again.bodyTokens, second, rest]
  · obtain ⟨entry, result, name, constant, flags, code, pending⟩ := whole writable
    exact ⟨_, entry, result, ⟨name, constant, flags, code, pending⟩, State.diagnostics_addDraft _ _⟩
  · rintro ⟨report, member, unsaid⟩
    refine stopped fun writable => ?_
    simp [writable report member] at unsaid

end

/-- A comment with most of what means something outside comments. -/
def sampleComment : String :=
  ".\" ; ( HIDDEN %x )\n:A A: recurse"

theorem compile_commented_sample :
    CutBetween 2 ": w" " dup" " %late nope ;" ∧
      ∃ after final word entry,
        sampleState.compile (": w" ++ " dup" ++ " %late nope ;") (some 2) =
          (after, .ok (some word)) ∧
        word.code = #[0, 0, 0, 0] ∧
        sampleState.compile (commented ": w" " dup" sampleComment " %late nope ;") (some 2) =
          (final, .ok (some entry)) ∧
        SameWord sampleState after final word entry := by
  have cut : CutBetween 2 ": w" " dup" " %late nope ;" := by
    refine ⟨by decide +kernel, ⟨[⟨.word, "dup", some 2, some 2⟩], 0, some 2⟩,
      [⟨.word, "dup", some 2, some 2⟩, ⟨.reference (some "late"), "%late", some 2, some 6⟩,
        ⟨.word, "nope", some 2, some 12⟩], ?_⟩
    decide +kernel
  have compiled : sampleState.compile (": w" ++ " dup" ++ " %late nope ;") (some 2) =
      ((sampleState.compile (": w" ++ " dup" ++ " %late nope ;") (some 2)).1,
        .ok (some { sampleWord with flags := {}, code := #[0, 0, 0, 0], doc := none })) :=
    Prod.ext rfl (by decide +kernel)
  have balanced : nesting? 0 (Text.fields sampleComment.toList) = some 0 := by decide +kernel
  have unnamed : ∀ field ∈ Text.fields sampleComment.toList, Token.hintOf? field = none := by
    decide +kernel
  have returns : (sampleState.compile (commented ": w" " dup" sampleComment " %late nope ;")
      (some 2)).2 ≠ .error (.tooManyDigits {}) := by decide +kernel
  obtain ⟨-, -, -, -, checks, -, others, -, -, -, -, -, -, whole, stopped⟩ :=
    compile_commented compiled cut balanced unnamed
  obtain ⟨final, entry, again, same, -⟩ := whole fun report member => by
    by_contra unsaid
    exact returns (stopped ⟨report, member, Bool.eq_false_iff.mpr unsaid⟩)
  exact ⟨cut, _, final, _, entry, compiled, rfl, again, same⟩

/-- A comment of two lines moves an unknown word to a line of 4301 digits. -/
theorem comment_beyond_digits :
    CutBetween (10 ^ Text.maxDigits - 1) ": w" "" " x ;" ∧
      nesting? 0 (Text.fields "a\nb".toList) = some 0 ∧
      (∀ field ∈ Text.fields "a\nb".toList, Token.hintOf? field = none) ∧
      (∃ after word, sampleStart.compile (": w" ++ "" ++ " x ;") (some (10 ^ Text.maxDigits - 1)) =
        (after, .ok (some word))) ∧
      (sampleStart.compile (commented ": w" "" "a\nb" " x ;") (some (10 ^ Text.maxDigits - 1))).2 =
        .error (.tooManyDigits {}) := by
  refine ⟨⟨by decide +kernel, ⟨[], 0, some (10 ^ Text.maxDigits - 1)⟩,
    [⟨.word, "x", some (10 ^ Text.maxDigits - 1), some 2⟩], ?_⟩, ?_, ?_, ⟨_, ?_, Prod.ext rfl ?_⟩, ?_⟩
  · decide +kernel
  · decide +kernel
  · decide +kernel
  · exact { sampleWord with flags := {}, code := #[0, 0], doc := none }
  · decide +kernel
  · decide +kernel

end Compiler

end ThreadedCode
