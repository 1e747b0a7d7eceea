import ThreadedCode.Proofs.Definition
import ThreadedCode.Source

/-!
# What reading a source can give

Tokens that are read from a text carry what their kind asks for, and no line or column of theirs is
beyond the length of the text. A text is refused for one reason only, a string that is not closed.
-/

namespace ThreadedCode

/-! ### Places -/

/-- A line and a column, as far as they are known, of at most `bound`. -/
def Near (bound : Nat) (line column : Option Int) : Prop :=
  (∀ number, line = some number → number.natAbs ≤ bound) ∧
    ∀ number, column = some number → number.natAbs ≤ bound

theorem Near.mono {bound wider : Nat} {line column : Option Int} (near : Near bound line column)
    (less : bound ≤ wider) : Near wider line column :=
  ⟨fun number known => Nat.le_trans (near.1 number known) less,
    fun number known => Nat.le_trans (near.2 number known) less⟩

namespace Place

/-- A place whose line and column, and those of all places within the next `length` characters, are
at most `bound`. -/
def Within (bound : Nat) (place : Place) (length : Nat) : Prop :=
  (∀ line, place.line = some line → line.natAbs + length ≤ bound) ∧ place.column + length ≤ bound

theorem Within.next {bound length : Nat} {place : Place} (within : place.Within bound (length + 1))
    (c : Char) : (place.next c).Within bound length := by
  obtain ⟨lines, columns⟩ := within
  unfold Place.next
  split
  · refine ⟨fun line following => ?_, ?_⟩
    · obtain ⟨start, known, rfl⟩ := Option.map_eq_some_iff.mp following
      have bounded := lines start known
      omega
    · dsimp only
      omega
  · refine ⟨fun line same => ?_, ?_⟩
    · have bounded := lines line same
      omega
    · dsimp only
      omega

theorem Within.advance {bound length : Nat} {place : Place} (text : List Char)
    (within : place.Within bound (text.length + length)) :
    (place.advance text).Within bound length := by
  induction text generalizing place with
  | nil => simpa [Place.advance] using within
  | cons c rest ih =>
    have step : place.Within bound (rest.length + length + 1) := by
      rw [List.length_cons, Nat.add_right_comm] at within
      exact within
    exact ih (step.next c)

theorem Within.near {bound length : Nat} {place : Place} (within : place.Within bound length) :
    Near bound place.line (some (place.column : Int)) := by
  refine ⟨fun number known => Nat.le_trans (Nat.le_add_right _ _) (within.1 number known), ?_⟩
  intro number known
  obtain rfl := Option.some.inj known
  exact Nat.le_trans (Nat.le_add_right _ _) within.2

theorem Within.mono {bound length shorter : Nat} {place : Place} (within : place.Within bound length)
    (less : shorter ≤ length) : place.Within bound shorter := by
  obtain ⟨lines, columns⟩ := within
  refine ⟨fun line known => ?_, by omega⟩
  have bounded := lines line known
  omega

end Place

/-! ### Tokens -/

namespace Text

variable {letters rest : List Char}

theorem field_append (visible : ∀ c ∈ letters, isBlank c = false)
    (ends : ∀ c, rest.head? = some c → isBlank c = true) : field (letters ++ rest) = letters := by
  unfold field
  rw [List.takeWhile_append_of_pos (by simpa using visible)]
  cases rest with
  | nil => simp
  | cons c rest => simp [ends c rfl]

theorem afterField_append (visible : ∀ c ∈ letters, isBlank c = false)
    (ends : ∀ c, rest.head? = some c → isBlank c = true) : afterField (letters ++ rest) = rest := by
  unfold afterField
  rw [List.dropWhile_append_of_pos (by simpa using visible)]
  cases rest with
  | nil => simp
  | cons c rest => simp [ends c rfl]

end Text

namespace Token

/-- The kinds of tokens that are read. -/
def Kind.IsRead : Kind → Prop
  | .flag mask => mask = some 1 ∨ mask = some 2 ∨ mask = some 4
  | .reference name => name.isSome = true
  | .stringIntro | .unknown => False
  | _ => True

theorem flagOf?_bits {text : List Char} {flags : Flags} (found : flagOf? text = some flags) :
    flags.bits = 1 ∨ flags.bits = 2 ∨ flags.bits = 4 := by
  unfold flagOf? at found
  split at found
  · exact .inl (congrArg Flags.bits (Option.some.inj found).symm)
  · split at found
    · exact .inr (.inl (congrArg Flags.bits (Option.some.inj found).symm))
    · split at found
      · exact .inr (.inr (congrArg Flags.bits (Option.some.inj found).symm))
      · cases found

theorem classify_isRead (text : List Char) : (classify text).inComment.IsRead := by
  unfold classify
  split
  · trivial
  · split
    · trivial
    · split
      · rename_i flags found
        rcases flagOf?_bits found with bits | bits | bits <;> simp [Kind.inComment, Kind.IsRead, bits]
      · repeat' split
        all_goals trivial

theorem length_takeWhile_add_dropWhile {α : Type} (p : α → Bool) (xs : List α) :
    (xs.takeWhile p).length + (xs.dropWhile p).length = xs.length := by
  rw [← List.length_append, List.takeWhile_append_dropWhile]

theorem mem_or_of_push {P : Token → Prop} {done : Array Token} {token : Token} {tokens : List Token}
    (rest : ∀ other ∈ tokens, other ∈ done.push token ∨ P other) (here : P token) :
    ∀ other ∈ tokens, other ∈ done ∨ P other := by
  intro other member
  rcases rest other member with pushed | later
  · rcases Array.mem_push.mp pushed with old | rfl
    · exact .inl old
    · exact .inr here
  · exact .inr later

/-- The text behind a token is what is left of the whole. -/
theorem length_lexeme_add (c : Char) (rest : List Char) :
    (c :: Text.field rest).length + (Text.afterField rest).length = (c :: rest).length := by
  have fields := length_takeWhile_add_dropWhile (fun c => !Text.isBlank c) rest
  simp only [Text.field, Text.afterField, List.length_cons] at *
  omega

/-- The text behind a string literal is what is left of the whole. -/
theorem length_literal_add (c : Char) (rest : List Char)
    (closed : ¬ ((Text.trimLeft (Text.afterField rest)).dropWhile (· ≠ '"')).isEmpty = true) :
    ((c :: Text.field rest) ++ (Text.afterField rest).takeWhile Text.isBlank ++
        (Text.trimLeft (Text.afterField rest)).takeWhile (· ≠ '"') ++ ['"']).length +
      (((Text.trimLeft (Text.afterField rest)).dropWhile (· ≠ '"')).drop 1).length =
        (c :: rest).length := by
  have whole := length_lexeme_add c rest
  have blanks := length_takeWhile_add_dropWhile Text.isBlank (Text.afterField rest)
  have quoted := length_takeWhile_add_dropWhile (fun c => c ≠ '"')
    (Text.trimLeft (Text.afterField rest))
  have quote := List.length_pos_iff.mpr (mt List.isEmpty_iff.mpr closed)
  simp only [Text.trimLeft, List.length_append, List.length_cons, List.length_drop,
    List.length_nil] at *
  omega

/-- Tokens are read at places within the text, and their kinds are those that are read. -/
theorem scanFrom_tokens {word : Option String} {done : Array Token} {depth bound : Nat}
    {place : Place} {text : List Char} {scan : Scan}
    (scanned : scanFrom word done depth place text = .ok scan)
    (within : place.Within bound text.length) :
    ∀ token ∈ scan.tokens, token ∈ done ∨
      token.kind.IsRead ∧ Near bound token.line token.column := by
  fun_induction scanFrom word done depth place text with
  | case1 done depth place =>
    obtain rfl := Except.ok.inj scanned
    exact fun token member => .inl (Array.mem_toList_iff.mp member)
  | case2 done depth place c rest blank ih => exact ih scanned (within.next c)
  | case3 => cases scanned
  | case4 done depth place c rest visible lexeme afterLexeme kind string body literal closing closed
      consumed ih =>
    have size := length_literal_add c rest closed
    refine mem_or_of_push (ih scanned ((within.mono (Nat.le_of_eq size)).advance consumed)) ?_
    exact ⟨trivial, within.near⟩
  | case5 done depth place c rest visible lexeme afterLexeme kind other ih =>
    have size := length_lexeme_add c rest
    refine mem_or_of_push (ih scanned ((within.mono (Nat.le_of_eq size)).advance lexeme)) ?_
    exact ⟨classify_isRead lexeme, within.near⟩

/-- What a text is refused for is a string that is not closed, at a place within the text. -/
theorem scanFrom_error {word : Option String} {done : Array Token} {depth : Nat} {place : Place}
    {text : List Char} {diagnostic : Diagnostic}
    (refused : scanFrom word done depth place text = .error diagnostic) :
    ∃ start : Place, diagnostic =
        ⟨.unterminatedString, { word, line := start.line, column := some start.column }⟩ ∧
      ∀ bound, place.Within bound text.length → Near bound start.line (some start.column) := by
  fun_induction scanFrom word done depth place text with
  | case1 => cases refused
  | case2 done depth place c rest blank ih =>
    obtain ⟨start, same, near⟩ := ih refused
    exact ⟨start, same, fun bound within => near bound (within.next c)⟩
  | case3 done depth place =>
    exact ⟨place, (Except.error.inj refused).symm, fun bound within => within.near⟩
  | case4 done depth place c rest visible lexeme afterLexeme kind string body literal closing closed
      consumed ih =>
    obtain ⟨start, same, near⟩ := ih refused
    have size := length_literal_add c rest closed
    exact ⟨start, same, fun bound within =>
      near bound ((within.mono (Nat.le_of_eq size)).advance consumed)⟩
  | case5 done depth place c rest visible lexeme afterLexeme kind other ih =>
    obtain ⟨start, same, near⟩ := ih refused
    have size := length_lexeme_add c rest
    exact ⟨start, same, fun bound within =>
      near bound ((within.mono (Nat.le_of_eq size)).advance lexeme)⟩

theorem scanFrom_blank {word : Option String} {done : Array Token} {depth : Nat} {place : Place}
    {c : Char} {rest : List Char} (blank : Text.isBlank c = true) :
    scanFrom word done depth place (c :: rest) = scanFrom word done depth (place.next c) rest := by
  rw [scanFrom.eq_def]
  exact if_pos blank

/-- A token is read up to the blank behind it, unless it opens a string. -/
theorem scanFrom_lexeme {word : Option String} {done : Array Token} {depth : Nat} {place : Place}
    {lexeme rest : List Char} (visible : ∀ c ∈ lexeme, Text.isBlank c = false)
    (present : lexeme ≠ []) (ends : ∀ c, rest.head? = some c → Text.isBlank c = true)
    (other : classify lexeme = .stringIntro → depth ≠ 0) :
    scanFrom word done depth place (lexeme ++ rest) =
      scanFrom word (done.push (ofText place (classify lexeme).inComment lexeme))
        ((classify lexeme).depthAfter depth) (place.advance lexeme) rest := by
  obtain ⟨c, letters, rfl⟩ := List.exists_cons_of_ne_nil present
  obtain ⟨first, others⟩ := List.forall_mem_cons.mp visible
  have field := Text.field_append others ends
  have after := Text.afterField_append others ends
  rw [List.cons_append, scanFrom.eq_def]
  simp only [first, field, after, Bool.false_eq_true, if_false]
  rw [if_neg fun string => other string.1 string.2]

theorem scanFrom_word {word : Option String} {done : Array Token} {depth : Nat} {place : Place}
    {lexeme rest : List Char} (visible : ∀ c ∈ lexeme, Text.isBlank c = false)
    (kind : classify lexeme = .word) (present : lexeme ≠ [])
    (ends : ∀ c, rest.head? = some c → Text.isBlank c = true) :
    scanFrom word done depth place (lexeme ++ rest) =
      scanFrom word (done.push (ofText place .word lexeme)) depth (place.advance lexeme) rest := by
  rw [scanFrom_lexeme visible present ends (by simp [kind]), kind]
  rfl

end Token

/-! ### Bodies -/

namespace Compiler

theorem bodyText_suffix (source : String) : bodyText source <:+ source.toList := by
  unfold bodyText Text.nextField Text.afterField Text.trimLeft
  exact ((List.dropWhile_suffix _).trans (List.dropWhile_suffix _)).trans
    ((List.dropWhile_suffix _).trans (List.dropWhile_suffix _))

/-- The first place of the body, and all places in it, are within the line of the definition and the
length of its text. -/
theorem bodyPlace_within (source : String) (number : Int) :
    Place.Within (number.natAbs + source.length + 1) ⟨some (bodyLine source number), 1⟩
      (bodyText source).length := by
  obtain ⟨header, text⟩ := bodyText_suffix source
  have lengths := congrArg List.length text
  have newlines := congrArg (List.count '\n') text
  have few := List.count_le_length (a := '\n') (l := header)
  rw [List.length_append, String.length_toList] at lengths
  rw [List.count_append] at newlines
  refine ⟨fun line known => ?_, by dsimp only; omega⟩
  obtain rfl := Option.some.inj known
  unfold bodyLine
  omega

theorem mem_of_dropTerminator? {tokens kept : List Token}
    (dropped : dropTerminator? tokens = some kept) {token : Token} (member : token ∈ kept) : token ∈ tokens := by
  unfold dropTerminator? at dropped
  split at dropped
  · split at dropped
    · obtain rfl := Option.some.inj dropped
      exact (List.dropLast_sublist _).subset member
    · cases dropped
  · cases dropped

theorem scan_some (text : List Char) (word : Option String) (line : Int) :
    Token.scan text word (some line) =
      (Token.scanFrom word #[] 0 ⟨some line, 1⟩ text).mapError
        (Diagnostic.raised .fault .tooManyDigits) :=
  rfl

theorem scan_ok {text : List Char} {word : Option String} {line : Int} {scan : Token.Scan}
    (read : Token.scan text word (some line) = .ok scan) :
    Token.scanFrom word #[] 0 ⟨some line, 1⟩ text = .ok scan := by
  rw [scan_some] at read
  cases scanned : Token.scanFrom word #[] 0 ⟨some line, 1⟩ text with
  | error diagnostic =>
    rw [scanned] at read
    cases read
  | ok other =>
    rw [scanned] at read
    rw [show other = scan from Except.ok.inj read]

theorem scan_error {text : List Char} {word : Option String} {line : Int}
    {reason : Token.ScanError} (refused : Token.scan text word (some line) = .error reason) :
    ∃ start : Place, reason = Diagnostic.raised .fault .tooManyDigits
        ⟨.unterminatedString, { word, line := start.line, column := some start.column }⟩ ∧
      ∀ bound, Place.Within bound ⟨some line, 1⟩ text.length →
        Near bound start.line (some start.column) := by
  rw [scan_some] at refused
  cases scanned : Token.scanFrom word #[] 0 ⟨some line, 1⟩ text with
  | ok scan =>
    rw [scanned] at refused
    cases refused
  | error diagnostic =>
    rw [scanned] at refused
    obtain ⟨start, rfl, near⟩ := Token.scanFrom_error scanned
    exact ⟨start, (Except.error.inj refused).symm, near⟩

theorem bodyTokens?_scanned {source : String} {number : Int} {tokens : List Token}
    (body : bodyTokens? source number = some tokens) :
    ∃ scan, Token.scanFrom (some (definedName source)) #[] 0 ⟨some (bodyLine source number), 1⟩
        (bodyText source) = .ok scan ∧ (dropTerminator? scan.tokens).getD scan.tokens = tokens ∧
      tokens ⊆ scan.tokens := by
  unfold bodyTokens? at body
  split at body
  · rename_i scan scanned
    obtain rfl : (dropTerminator? scan.tokens).getD scan.tokens = tokens :=
      Option.some.inj body
    refine ⟨scan, scan_ok scanned, rfl, fun token member => ?_⟩
    cases dropped : dropTerminator? scan.tokens with
    | none => simpa [dropped] using member
    | some kept => exact mem_of_dropTerminator? dropped (by simpa [dropped] using member)
  · cases body

theorem bodyTokens?_read {source : String} {number : Int} {tokens : List Token}
    (body : bodyTokens? source number = some tokens) :
    ∀ token ∈ tokens, token.kind.IsRead ∧
      Near (number.natAbs + source.length + 1) token.line token.column := by
  obtain ⟨scan, scanned, -, listed⟩ := bodyTokens?_scanned body
  have all := Token.scanFrom_tokens scanned (bodyPlace_within source number)
  exact fun token member => (all token (listed member)).resolve_left (by simp)

end Compiler

/-! ### Definitions -/

namespace Text

/-- The number of characters of some lines, with one for the end of each. -/
def extent : List String → Nat
  | [] => 0
  | line :: rest => line.length + 1 + extent rest

theorem extent_concat (lines : List String) (last : String) :
    extent (lines ++ [last]) = extent lines + last.length + 1 := by
  induction lines with
  | nil => simp [extent]
  | cons line rest ih =>
    rw [List.cons_append, extent, extent, ih]
    omega

theorem extent_push (done : Array String) (line : List Char) :
    extent (done.push (String.ofList line.reverse)).toList =
      extent done.toList + line.length + 1 := by
  simp [extent_concat]

theorem extent_linesFrom (done : Array String) (line text : List Char) :
    extent (linesFrom done line text) ≤ extent done.toList + line.length + text.length + 1 := by
  fun_induction linesFrom done line text with
  | case1 done line empty => omega
  | case2 done line nonempty =>
    rw [extent_push]
    simp
  | case3 done line rest ih =>
    rw [extent_push] at ih
    simp only [List.length_cons, List.length_nil] at ih ⊢
    omega
  | case4 done line c rest other breaks ih =>
    rw [extent_push] at ih
    simp only [List.length_cons, List.length_nil] at ih ⊢
    omega
  | case5 done line c rest other plain ih =>
    simp only [List.length_cons] at ih ⊢
    omega

theorem extent_lines (source : String) : extent (lines source) ≤ source.length + 1 := by
  have bound := extent_linesFrom #[] [] source.toList
  rw [String.length_toList] at bound
  simpa [extent, lines] using bound

theorem length_le_extent (texts : List String) : texts.length ≤ extent texts := by
  induction texts with
  | nil => simp [extent]
  | cons text rest ih =>
    simp only [extent, List.length_cons] at ih ⊢
    omega

theorem extent_le_of_sublist {texts others : List String} (part : texts.Sublist others) :
    extent texts ≤ extent others := by
  induction part with
  | slnil => exact Nat.le_refl _
  | cons other part ih =>
    simp only [extent] at ih ⊢
    omega
  | cons_cons text part ih =>
    simp only [extent] at ih ⊢
    omega

theorem length_intercalate_le (texts : List String) :
    ("\n".intercalate texts).length ≤ extent texts := by
  induction texts with
  | nil => simp
  | cons text rest ih =>
    cases rest with
    | nil => simp [extent]
    | cons next rest =>
      simp only [extent] at ih ⊢
      rw [String.intercalate_cons_cons, String.length_append, String.length_append]
      have newline : "\n".length = 1 := rfl
      omega

theorem length_strip_le (text : String) : (strip text).length ≤ text.length := by
  have left := length_dropWhile_le isBlank text.toList
  have right := length_dropWhile_le isBlank (text.toList.dropWhile isBlank).reverse
  simp only [strip, trim, trimRight, trimLeft, String.length_ofList, List.length_reverse,
    String.length_toList] at left right ⊢
  omega

theorem linesFrom_line {text : List Char} (plain : ∀ c ∈ text, isLineBreak c = false)
    (done : Array String) (line rest : List Char) :
    linesFrom done line (text ++ '\n' :: rest) =
      linesFrom (done.push (String.ofList (line.reverse ++ text))) [] rest := by
  induction text generalizing line with
  | nil => simp [linesFrom, isLineBreak]
  | cons c text ih =>
    obtain ⟨first, others⟩ := List.forall_mem_cons.mp plain
    have step : linesFrom done line (c :: (text ++ '\n' :: rest)) =
        linesFrom done (c :: line) (text ++ '\n' :: rest) := by
      rw [linesFrom.eq_3 _ _ _ _ fun rest other _ => by simp [other, isLineBreak] at first, first]
      rfl
    rw [List.cons_append, step, ih others]
    simp

/-- Lines that are put together are read back. -/
theorem lines_join {texts : List String}
    (plain : ∀ text ∈ texts, ∀ c ∈ text.toList, isLineBreak c = false) :
    lines (String.join (texts.map (· ++ "\n"))) = texts := by
  have grown : ∀ done : Array String,
      linesFrom done [] (String.join (texts.map (· ++ "\n"))).toList = done.toList ++ texts := by
    induction texts with
    | nil => simp [linesFrom]
    | cons text rest ih =>
      intro done
      obtain ⟨first, others⟩ := List.forall_mem_cons.mp plain
      have newline : (String.join ((text :: rest).map (· ++ "\n"))).toList =
          text.toList ++ '\n' :: (String.join (rest.map (· ++ "\n"))).toList := by
        simp
      rw [newline, linesFrom_line first, ih others]
      simp
  exact (grown #[]).trans (List.nil_append _)

end Text

namespace Source

/-- A definition is made of lines that follow one another, the first of which is not blank and gives
its line. -/
theorem mem_definitionsFrom {done : Array Definition} {lines : List Line} {definition : Definition}
    (member : definition ∈ definitionsFrom done lines) :
    definition ∈ done ∨ ∃ first rest, first :: rest <:+: lines ∧ isBlankLine first = false ∧
      definition = readDefinition (first :: rest) first.2 := by
  fun_induction definitionsFrom done lines with
  | case1 done => exact .inl (Array.mem_toList_iff.mp member)
  | case2 done first rest blank ih =>
    refine (ih member).imp id fun ⟨other, later, part, found⟩ => ?_
    exact ⟨other, later, part.trans (List.suffix_cons _ _).isInfix, found⟩
  | case3 done first rest visible unfinished closing ih =>
    have whole : unfinished ++ closing = first :: rest := List.takeWhile_append_dropWhile
    rcases ih member with pushed | ⟨other, later, part, found⟩
    · rcases Array.mem_push.mp pushed with old | rfl
      · exact .inl old
      · obtain ⟨others, same⟩ : ∃ others, unfinished ++ closing.take 1 = first :: others := by
          cases front : unfinished with
          | nil => exact ⟨[], by rw [front, List.nil_append] at whole; simp [whole]⟩
          | cons line lines =>
            rw [front] at whole
            exact ⟨lines ++ closing.take 1, by rw [(List.cons.inj whole).1]; rfl⟩
        refine .inr ⟨first, others, ?_, Bool.eq_false_iff.mpr visible, by rw [same]⟩
        rw [← same, ← whole]
        exact ((List.prefix_append_right_inj _).mpr (List.take_prefix _ _)).isInfix
    · have rest : closing.drop 1 <:+ unfinished ++ closing :=
        (List.drop_suffix _ _).trans (List.suffix_append _ _)
      rw [whole] at rest
      exact .inr ⟨other, later, part.trans rest.isInfix, found⟩

theorem infix_of_mem_splitOnP {α : Type} {p : α → Bool} {xs part : List α}
    (member : part ∈ xs.splitOnP p) : part <:+: xs := by
  -- The first part is a prefix, and this is what the next element is put in front of.
  have parts : ∃ first others, xs.splitOnP p = first :: others ∧ first <+: xs ∧
      ∀ other ∈ others, other <:+: xs := by
    clear member
    induction xs with
    | nil => exact ⟨[], [], by simp, List.nil_prefix, by simp⟩
    | cons x xs ih =>
      obtain ⟨first, others, same, front, rest⟩ := ih
      have later : ∀ other ∈ others, other <:+: x :: xs := fun other listed =>
        (rest other listed).trans (List.suffix_cons _ _).isInfix
      rw [List.splitOnP_cons_eq_if_modifyHead, same]
      split
      · refine ⟨[], first :: others, rfl, List.nil_prefix, List.forall_mem_cons.mpr ⟨?_, later⟩⟩
        exact front.isInfix.trans (List.suffix_cons _ _).isInfix
      · exact ⟨x :: first, others, rfl, (List.prefix_cons_inj _).mpr front, later⟩
  obtain ⟨first, others, same, front, rest⟩ := parts
  rw [same] at member
  rcases List.mem_cons.mp member with rfl | later
  · exact front.isInfix
  · exact rest part later

theorem mem_definitions {source : String} {filename : Option String} {sections : Sections}
    (done : read source filename = .ok sections) {definition : Definition}
    (member : definition ∈ sections.definitions) :
    ∃ first rest, first :: rest <:+: (Text.lines source).zipIdx 1 ∧ isBlankLine first = false ∧
      definition = readDefinition (first :: rest) first.2 := by
  unfold read at done
  dsimp only at done
  split at done
  · rename_i templateLines variableLines nativeLines definitionLines parts
    have part : definitionLines <:+: (Text.lines source).zipIdx 1 :=
      infix_of_mem_splitOnP (by rw [parts]; simp)
    have listed : definition ∈ definitionsFrom #[] definitionLines := by
      split at done
      · cases done
      · split at done
        · cases done
        · obtain rfl := Except.ok.inj done
          exact member
    obtain ⟨first, rest, within, found⟩ := (mem_definitionsFrom listed).resolve_left (by simp)
    exact ⟨first, rest, within.trans part, found⟩
  · cases done

/-- A definition that is read starts on a line of the source and has no more characters than it. -/
theorem read_definitions {source : String} {filename : Option String} {sections : Sections}
    (done : read source filename = .ok sections) {definition : Definition}
    (member : definition ∈ sections.definitions) :
    ∃ start : Nat, definition.line = some (start : Int) ∧
      start + definition.text.length ≤ 2 * source.length + 2 := by
  obtain ⟨first, rest, part, -, rfl⟩ := mem_definitions done member
  refine ⟨first.2, rfl, ?_⟩
  have number := (List.mem_zipIdx (part.subset List.mem_cons_self)).2.1
  have lines := Text.length_le_extent (Text.lines source)
  have all := Text.extent_lines source
  have some : Text.extent ((first :: rest).map (·.1)) ≤ Text.extent (Text.lines source) := by
    have texts := part.sublist.map Prod.fst
    rw [List.zipIdx_map_fst] at texts
    exact Text.extent_le_of_sublist texts
  have joined := Text.length_intercalate_le ((first :: rest).map (·.1))
  have stripped := Text.length_strip_le ("\n".intercalate ((first :: rest).map (·.1)))
  change first.2 + (Text.strip ("\n".intercalate ((first :: rest).map (·.1)))).length ≤ _
  omega

theorem definitionsFrom_line {line : Line} (visible : isBlankLine line = false)
    (ends : endsDefinition line = true) :
    definitionsFrom #[] [line] = [readDefinition [line] line.2] := by
  rw [definitionsFrom, if_neg (by simp [visible])]
  simp [ends, definitionsFrom]

/-- A source that has one definition, on its last line, and nothing else. -/
def ofDefinition (text : String) : String :=
  String.join (([constantsMarker, codeMarker, delimiter, delimiter, delimiter] ++ [text]).map
    (· ++ "\n"))

theorem read_ofDefinition {text : String} (plain : ∀ c ∈ text.toList, Text.isLineBreak c = false)
    (other : text ≠ delimiter) (visible : isBlankLine (text, 6) = false)
    (ends : endsDefinition (text, 6) = true) (filename : Option String) :
    ∃ template, read (ofDefinition text) filename =
      .ok { template, definitions := [⟨Text.strip text, some 6⟩] } := by
  have lines : Text.lines (ofDefinition text) =
      [constantsMarker, codeMarker, delimiter, delimiter, delimiter] ++ [text] := by
    refine Text.lines_join (List.forall_mem_append.mpr ⟨?_, by simpa using plain⟩)
    simp [constantsMarker, codeMarker, delimiter, Text.isLineBreak]
  have parts : (([constantsMarker, codeMarker, delimiter, delimiter, delimiter] ++
      [text]).zipIdx 1).splitOnP (fun line => line.1 == delimiter) =
        [[(constantsMarker, 1), (codeMarker, 2)], [], [], [(text, 6)]] := by
    have marks : constantsMarker ≠ delimiter ∧ codeMarker ≠ delimiter := by decide
    simp [List.zipIdx_cons, List.splitOnP_cons_eq_if_modifyHead, other, marks]
  have markers : ∃ template, readTemplate [(constantsMarker, 1), (codeMarker, 2)] = .ok template :=
    ⟨_, rfl⟩
  obtain ⟨template, markers⟩ := markers
  refine ⟨template, ?_⟩
  unfold read
  rw [lines, parts]
  simp [markers, readNatives, readVariables, definitionsFrom_line visible ends, readDefinition]

end Source

end ThreadedCode
