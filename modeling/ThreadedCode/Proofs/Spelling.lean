import Mathlib.Data.List.Induction
import ThreadedCode.Proofs.Failures

/-!
# How a text spells its tokens

A text is blanks and tokens in turn. A token is written as its lexeme, and a string literal as the
mark, blanks, its text and the closing quote. `scan_spelling` shows that reading a text loses and
invents nothing: the written tokens and the blanks between them are the text, and every token has
the line and the column of its first character. Only a string mark outside comments without a quote
behind it stops the reader.
-/

namespace ThreadedCode

namespace Text

theorem head?_afterField (text : List Char) :
    ∀ c, (afterField text).head? = some c → isBlank c = true := by
  intro c first
  have stops := List.head?_dropWhile_not (fun c => !isBlank c) text
  rw [← afterField, first] at stops
  simpa using stops

theorem head?_trimLeft (text : List Char) :
    ∀ c, (trimLeft text).head? = some c → isBlank c = false := by
  intro c first
  have stops := List.head?_dropWhile_not isBlank text
  rw [← trimLeft, first] at stops
  simpa using stops

theorem field_append_afterField (c : Char) (text : List Char) :
    (c :: field text) ++ afterField text = c :: text := by
  rw [List.cons_append, field, afterField, List.takeWhile_append_dropWhile]

theorem visible_field {c : Char} (visible : ¬ isBlank c = true) {text : List Char} :
    ∀ d ∈ c :: field text, isBlank d = false := by
  refine List.forall_mem_cons.mpr ⟨by simpa using visible, fun d member => ?_⟩
  simpa using List.mem_takeWhile_imp member

variable {gap rest : List Char}

theorem takeWhile_isBlank_append (blank : ∀ c ∈ gap, isBlank c = true)
    (starts : ∀ c, rest.head? = some c → isBlank c = false) :
    (gap ++ rest).takeWhile isBlank = gap := by
  rw [List.takeWhile_append_of_pos blank]
  cases rest with
  | nil => simp
  | cons c rest => simp [starts c rfl]

theorem trimLeft_append (blank : ∀ c ∈ gap, isBlank c = true)
    (starts : ∀ c, rest.head? = some c → isBlank c = false) : trimLeft (gap ++ rest) = rest := by
  rw [trimLeft, List.dropWhile_append_of_pos blank]
  cases rest with
  | nil => simp
  | cons c rest => simp [starts c rfl]

/-- A text without blanks is what trimming leaves of it. -/
theorem trim_visible {text : List Char} (blank : ∀ c ∈ gap, isBlank c = true)
    (visible : ∀ c ∈ text, isBlank c = false) : trim (gap ++ text) = text := by
  have start := trimLeft_append blank fun c first => visible c (List.mem_of_head? first)
  have ending : text.reverse.dropWhile isBlank = text.reverse := by
    cases last : text.reverse with
    | nil => rfl
    | cons c front =>
      have member : c ∈ text := List.mem_reverse.mp (last ▸ List.mem_cons_self)
      exact List.dropWhile_cons_of_neg (by simp [visible c member])
  rw [trim, start, trimRight, ending, List.reverse_reverse]

/-- What follows a string mark up to the next quote: blanks and a text that does not start with
one. -/
theorem quoted_append {after : List Char} (ends : ∀ c, after.head? = some c → isBlank c = true)
    (closed : ¬ ((trimLeft after).dropWhile (· ≠ '"')).isEmpty = true) :
    after.takeWhile isBlank ≠ [] ∧ '"' ∉ (trimLeft after).takeWhile (· ≠ '"') ∧
      (∀ c, ((trimLeft after).takeWhile (· ≠ '"')).head? = some c → isBlank c = false) ∧
      after = after.takeWhile isBlank ++ (trimLeft after).takeWhile (· ≠ '"') ++ ['"'] ++
        ((trimLeft after).dropWhile (· ≠ '"')).drop 1 := by
  have body : (trimLeft after).takeWhile (· ≠ '"') ++ (trimLeft after).dropWhile (· ≠ '"') =
      trimLeft after := List.takeWhile_append_dropWhile
  have whole : after.takeWhile isBlank ++ trimLeft after = after := List.takeWhile_append_dropWhile
  have quote : (trimLeft after).dropWhile (· ≠ '"') =
      ['"'] ++ ((trimLeft after).dropWhile (· ≠ '"')).drop 1 := by
    have stops := List.head?_dropWhile_not (fun c => decide (c ≠ '"')) (trimLeft after)
    cases found : (trimLeft after).dropWhile (· ≠ '"') with
    | nil => exact absurd (by rw [found]; rfl) closed
    | cons c later =>
      rw [found] at stops
      obtain rfl : c = '"' := by simpa using stops
      rfl
  refine ⟨fun tight => ?_, fun quoted => ?_, fun c first => ?_, ?_⟩
  · -- The text would start with a character that is blank and is not.
    rw [tight, List.nil_append] at whole
    cases text : after with
    | nil => simp [text, trimLeft] at closed
    | cons c later =>
      have visible := head?_trimLeft after c (by rw [whole, text]; rfl)
      rw [ends c (by rw [text]; rfl)] at visible
      cases visible
  · simpa using List.mem_takeWhile_imp quoted
  · refine head?_trimLeft after c ?_
    rw [← body, List.head?_append, first, Option.some_or]
  · rw [List.append_assoc, ← quote, List.append_assoc, body, whole]

theorem quoted_whole (c : Char) {text : List Char}
    (closed : ¬ ((trimLeft (afterField text)).dropWhile (· ≠ '"')).isEmpty = true) :
    (c :: field text) ++ (afterField text).takeWhile isBlank ++
        (trimLeft (afterField text)).takeWhile (· ≠ '"') ++ ['"'] ++
      ((trimLeft (afterField text)).dropWhile (· ≠ '"')).drop 1 = c :: text := by
  obtain ⟨-, -, -, after⟩ := quoted_append (head?_afterField text) closed
  have parts := congrArg ((c :: field text) ++ ·) after
  simp only [field_append_afterField] at parts
  simp only [parts, List.append_assoc]

theorem unquoted {after : List Char}
    (unclosed : ((trimLeft after).dropWhile (· ≠ '"')).isEmpty = true) : '"' ∉ after := by
  have whole : after.takeWhile isBlank ++ trimLeft after = after := List.takeWhile_append_dropWhile
  rw [List.isEmpty_iff, List.dropWhile_eq_nil_iff] at unclosed
  rw [← whole, List.mem_append, not_or]
  refine ⟨fun blank => ?_, fun body => ?_⟩
  · exact absurd (List.mem_takeWhile_imp blank) (by decide)
  · simpa using unclosed _ body

end Text

/-- The line behind a text that starts on a line. -/
def lineBehind (line : Int) (text : List Char) : Int :=
  line + text.count '\n'

/-- The column behind a text, counted from its last newline or its start. -/
def columnBehind (text : List Char) : Nat :=
  (text.reverse.takeWhile (· ≠ '\n')).length + 1

namespace Place

theorem advance_append (place : Place) (first second : List Char) :
    place.advance (first ++ second) = (place.advance first).advance second :=
  List.foldl_append

theorem advance_start (line : Int) (text : List Char) :
    advance ⟨some line, 1⟩ text = ⟨some (lineBehind line text), columnBehind text⟩ := by
  unfold lineBehind columnBehind
  induction text using List.reverseRecOn with
  | nil => simp [advance]
  | append_singleton text c ih =>
    rw [advance_append, ih, List.count_append, List.reverse_append]
    by_cases newline : c = '\n'
    · simp [advance, next, newline]
      omega
    · simp [advance, next, newline]

end Place

namespace Token

/-! ### Pieces of a text -/

/-- A token with the text it is written as and the blanks behind it. -/
structure Piece where
  token : Token
  written : List Char
  blanks : List Char

namespace Piece

def text (piece : Piece) : List Char :=
  piece.written ++ piece.blanks

/-- Whether the token ends by itself, so that another one may follow it directly. -/
def isString (piece : Piece) : Bool :=
  match piece.token.kind with
  | .stringLiteral _ => true
  | _ => false

/-- A token is written as its lexeme, which has no blanks and gives it its kind. A string literal,
which only stands outside comments, is written as the mark, blanks, its text and a quote. -/
def IsWritten (depth : Nat) (piece : Piece) : Prop :=
  match piece.token.kind with
  | .stringLiteral text =>
    depth = 0 ∧ piece.token.lexeme.toList = stringMark ∧
      '"' ∉ text.toList ∧ (∀ c, text.toList.head? = some c → Text.isBlank c = false) ∧
      ∃ gap, gap ≠ [] ∧ (∀ c ∈ gap, Text.isBlank c = true) ∧
        piece.written = stringMark ++ gap ++ text.toList ++ ['"']
  | kind =>
    piece.written = piece.token.lexeme.toList ∧ piece.written ≠ [] ∧
      (∀ c ∈ piece.written, Text.isBlank c = false) ∧
      kind = (classify piece.written).inComment ∧
      (classify piece.written = .stringIntro → depth ≠ 0)

/-- The line and the column of a token are those behind the text before it. -/
def IsPlaced (line : Int) (before : List Char) (piece : Piece) : Prop :=
  piece.token.line = some (lineBehind line before) ∧
    piece.token.column = some (columnBehind before : Int)

end Piece

/-- Pieces that stand behind `before`, at a comment depth, and in front of `rest`. Two tokens have
blanks between them unless the first is a string literal. -/
def Follows (line : Int) (rest : List Char) : List Char → Nat → List Piece → Prop
  | _, _, [] => True
  | before, depth, piece :: later =>
    piece.IsWritten depth ∧ piece.IsPlaced line before ∧
      (∀ c ∈ piece.blanks, Text.isBlank c = true) ∧
      (piece.blanks = [] → piece.isString = true ∨ (later = [] ∧ rest = [])) ∧
      Follows line rest (before ++ piece.text) (piece.token.kind.depthAfter depth) later

/-- A text that stands behind `before`, at a comment depth, is blanks, then pieces and then
`rest`. -/
def Spelled (line : Int) (before : List Char) (depth : Nat) (text : List Char) (pieces : List Piece)
    (rest : List Char) : Prop :=
  ∃ first, (∀ c ∈ first, Text.isBlank c = true) ∧
    text = first ++ pieces.flatMap Piece.text ++ rest ∧
    Follows line rest (before ++ first) depth pieces

/-- The comment depth behind some tokens. -/
def depthBehind (depth : Nat) (tokens : List Token) : Nat :=
  tokens.foldl (fun depth token => token.kind.depthAfter depth) depth

/-- A string mark outside comments, behind `before` and in front of `rest`, has no quote behind
it. -/
def Unclosed (line : Int) (text before rest : List Char) : Prop :=
  ∃ pieces, Spelled line [] 0 text pieces (stringMark ++ rest) ∧
    text = before ++ (stringMark ++ rest) ∧ depthBehind 0 (pieces.map Piece.token) = 0 ∧
    (∀ c, rest.head? = some c → Text.isBlank c = true) ∧ '"' ∉ rest

/-! ### Reading what is spelled -/

theorem classify_eq_stringIntro {lexeme : List Char} (kind : classify lexeme = .stringIntro) :
    lexeme = stringMark := by
  unfold classify at kind
  repeat' split at kind
  all_goals first
    | assumption
    | cases kind

theorem depthAfter_inComment (kind : Kind) (depth : Nat) :
    kind.inComment.depthAfter depth = kind.depthAfter depth := by
  cases kind <;> rfl

section

variable {word : Option String} {done : Array Token} {place : Place} {rest : List Char}

/-- A string literal outside comments is read up to its closing quote. -/
theorem scanFrom_string {gap text : List Char} (present : gap ≠ [])
    (blank : ∀ c ∈ gap, Text.isBlank c = true) (unquoted : '"' ∉ text)
    (starts : ∀ c, text.head? = some c → Text.isBlank c = false) :
    scanFrom word done 0 place (stringMark ++ gap ++ text ++ ['"'] ++ rest) =
      scanFrom word (done.push (ofText place (.stringLiteral (String.ofList text)) stringMark)) 0
        (place.advance (stringMark ++ gap ++ text ++ ['"'])) rest := by
  have shape : stringMark ++ gap ++ text ++ ['"'] ++ rest =
      '.' :: (['"'] ++ (gap ++ (text ++ '"' :: rest))) := by
    simp [stringMark]
  have ends : ∀ c, (gap ++ (text ++ '"' :: rest)).head? = some c → Text.isBlank c = true := by
    obtain ⟨first, others, rfl⟩ := List.exists_cons_of_ne_nil present
    simpa using blank first List.mem_cons_self
  have body : ∀ c, (text ++ '"' :: rest).head? = some c → Text.isBlank c = false := by
    cases text with
    | nil => simp [Text.isBlank]
    | cons c letters => simpa using starts
  have unblank : ∀ c ∈ ['"'], Text.isBlank c = false := by simp [Text.isBlank]
  have field := Text.field_append unblank ends
  have after := Text.afterField_append unblank ends
  have plain : ∀ c ∈ text, decide (c ≠ '"') = true := fun c member => by
    simpa using fun same : c = '"' => unquoted (same ▸ member)
  have literal : (text ++ '"' :: rest).takeWhile (· ≠ '"') = text := by
    rw [List.takeWhile_append_of_pos plain]
    simp
  have closing : (text ++ '"' :: rest).dropWhile (· ≠ '"') = '"' :: rest := by
    rw [List.dropWhile_append_of_pos plain]
    simp
  have visible : Text.isBlank '.' = false := by decide
  have kind : classify ['.', '"'] = .stringIntro := by decide
  rw [shape, scanFrom.eq_def]
  simp only [visible, field, after, kind, Text.trimLeft_append blank body,
    Text.takeWhile_isBlank_append blank body, literal, closing, Bool.false_eq_true, if_false,
    and_self, if_true, List.isEmpty_cons, List.drop_one, List.tail_cons]
  simp [stringMark]

/-- A string mark outside comments that no quote follows stops the reader. -/
theorem scanFrom_unclosed (ends : ∀ c, rest.head? = some c → Text.isBlank c = true)
    (unquoted : '"' ∉ rest) :
    scanFrom word done 0 place (stringMark ++ rest) =
      .error ⟨.unterminatedString, { word, line := place.line, column := some place.column }⟩ := by
  have shape : stringMark ++ rest = '.' :: (['"'] ++ rest) := by simp [stringMark]
  have unblank : ∀ c ∈ ['"'], Text.isBlank c = false := by simp [Text.isBlank]
  have field := Text.field_append unblank ends
  have after := Text.afterField_append unblank ends
  have closing : (Text.trimLeft rest).dropWhile (· ≠ '"') = [] := by
    rw [List.dropWhile_eq_nil_iff]
    intro c member
    have inside : c ∈ rest := (List.dropWhile_sublist _).subset member
    simpa using fun same : c = '"' => unquoted (same ▸ inside)
  have visible : Text.isBlank '.' = false := by decide
  have kind : classify ['.', '"'] = .stringIntro := by decide
  rw [shape, scanFrom.eq_def]
  simp only [visible, field, after, kind, closing, Bool.false_eq_true, if_false, and_self, if_true,
    List.isEmpty_nil]

theorem scanFrom_blanks {depth : Nat} {gap : List Char} (blank : ∀ c ∈ gap, Text.isBlank c = true) :
    scanFrom word done depth place (gap ++ rest) =
      scanFrom word done depth (place.advance gap) rest := by
  induction gap generalizing place with
  | nil => rfl
  | cons c gap ih =>
    obtain ⟨first, others⟩ := List.forall_mem_cons.mp blank
    rw [List.cons_append, scanFrom_blank first, ih others]
    rfl

end

theorem Piece.token_eq {piece : Piece} {line : Int} {before : List Char}
    (placed : piece.IsPlaced line before) :
    piece.token = ofText (Place.advance ⟨some line, 1⟩ before) piece.token.kind
      piece.token.lexeme.toList := by
  obtain ⟨lines, columns⟩ := placed
  rw [Place.advance_start, ofText, String.ofList_toList, ← lines, ← columns]

theorem scanFrom_piece {word : Option String} {done : Array Token} {depth : Nat} {line : Int}
    {before rest : List Char} {piece : Piece} (written : piece.IsWritten depth)
    (placed : piece.IsPlaced line before)
    (ends : piece.isString = true ∨ ∀ c, rest.head? = some c → Text.isBlank c = true) :
    scanFrom word done depth (Place.advance ⟨some line, 1⟩ before) (piece.written ++ rest) =
      scanFrom word (done.push piece.token) (piece.token.kind.depthAfter depth)
        (Place.advance ⟨some line, 1⟩ (before ++ piece.written)) rest := by
  have token := Piece.token_eq placed
  rw [Place.advance_append, token]
  unfold Piece.IsWritten at written
  split at written
  · rename_i text kind
    obtain ⟨rfl, lexeme, unquoted, starts, gap, present, blank, spelled⟩ := written
    rw [spelled, scanFrom_string present blank unquoted starts, kind, lexeme,
      String.ofList_toList]
    rfl
  · rename_i other
    obtain ⟨lexeme, present, visible, kind, string⟩ := written
    have ends : ∀ c, rest.head? = some c → Text.isBlank c = true := by
      refine ends.resolve_left fun literal => ?_
      unfold Piece.isString at literal
      split at literal
      · rename_i text same
        exact other text same
      · cases literal
    rw [scanFrom_lexeme visible present ends string, ← kind, ← lexeme, ofText,
      ← depthAfter_inComment, ← kind]

/-- The reader follows the pieces of a text. -/
theorem scanFrom_follows {word : Option String} {done : Array Token} {depth : Nat} {line : Int}
    {before rest : List Char} {pieces : List Piece} (follows : Follows line rest before depth pieces) :
    scanFrom word done depth (Place.advance ⟨some line, 1⟩ before)
        (pieces.flatMap Piece.text ++ rest) =
      scanFrom word (done ++ (pieces.map Piece.token).toArray)
        (depthBehind depth (pieces.map Piece.token))
        (Place.advance ⟨some line, 1⟩ (before ++ pieces.flatMap Piece.text)) rest := by
  induction pieces generalizing done depth before with
  | nil => simp [depthBehind]
  | cons piece later ih =>
    obtain ⟨written, placed, blank, spaced, follows⟩ := follows
    have ends : piece.isString = true ∨ ∀ c,
        (piece.blanks ++ (later.flatMap Piece.text ++ rest)).head? = some c →
          Text.isBlank c = true := by
      cases gap : piece.blanks with
      | nil =>
        refine (spaced gap).imp id fun ⟨last, ended⟩ => ?_
        simp [last, ended]
      | cons c blanks =>
        refine .inr fun d first => ?_
        obtain rfl : c = d := by simpa using first
        exact blank c (by simp [gap])
    rw [List.flatMap_cons, Piece.text, List.append_assoc, List.append_assoc,
      scanFrom_piece written placed ends, scanFrom_blanks blank, ← Place.advance_append,
      List.append_assoc, ← Piece.text, ih follows]
    simp [Piece.text, depthBehind]

theorem scanFrom_spelled {depth : Nat} {line : Int} {before text rest : List Char}
    {pieces : List Piece} (spelled : Spelled line before depth text pieces rest)
    (word : Option String) (done : Array Token) :
    ∃ front, text = front ++ rest ∧
      scanFrom word done depth (Place.advance ⟨some line, 1⟩ before) text =
        scanFrom word (done ++ (pieces.map Piece.token).toArray)
          (depthBehind depth (pieces.map Piece.token))
          (Place.advance ⟨some line, 1⟩ (before ++ front)) rest := by
  obtain ⟨first, blank, rfl, follows⟩ := spelled
  refine ⟨first ++ pieces.flatMap Piece.text, rfl, ?_⟩
  rw [List.append_assoc, scanFrom_blanks blank, ← Place.advance_append, scanFrom_follows follows,
    List.append_assoc]

/-! ### Spelling what is read -/

theorem Piece.IsWritten.head {piece : Piece} {depth : Nat} (written : piece.IsWritten depth) :
    ∃ c rest, piece.written = c :: rest ∧ Text.isBlank c = false := by
  unfold Piece.IsWritten at written
  split at written
  · obtain ⟨-, -, -, -, gap, -, -, spelled⟩ := written
    exact ⟨'.', '"' :: (gap ++ _ ++ ['"']), by simpa [stringMark] using spelled, by decide⟩
  · obtain ⟨-, present, visible, -⟩ := written
    obtain ⟨c, rest, same⟩ := List.exists_cons_of_ne_nil present
    exact ⟨c, rest, same, visible c (by simp [same])⟩

theorem classify_ne_stringLiteral (lexeme : List Char) (text : String) :
    (classify lexeme).inComment ≠ .stringLiteral text := by
  intro kind
  unfold classify at kind
  repeat' split at kind
  all_goals cases kind

namespace Spelled

variable {line : Int} {before text rest : List Char} {depth : Nat} {pieces : List Piece}

theorem nil (line : Int) (before rest : List Char) (depth : Nat) :
    Spelled line before depth rest [] rest :=
  ⟨[], by simp, by simp, trivial⟩

theorem blank {c : Char} (blank : Text.isBlank c = true)
    (spelled : Spelled line (before ++ [c]) depth text pieces rest) :
    Spelled line before depth (c :: text) pieces rest := by
  obtain ⟨first, blanks, rfl, follows⟩ := spelled
  refine ⟨c :: first, List.forall_mem_cons.mpr ⟨blank, blanks⟩, by simp, ?_⟩
  simpa using follows

/-- A token in front of a text that is spelled: the blanks at the front of that text are those behind
the token. -/
theorem cons {token : Token} {written : List Char}
    (spelled : Spelled line (before ++ written) (token.kind.depthAfter depth) text pieces rest)
    (here : ∀ blanks, Piece.IsWritten depth ⟨token, written, blanks⟩)
    (placed : ∀ blanks, Piece.IsPlaced line before ⟨token, written, blanks⟩)
    (ends : Piece.isString ⟨token, written, []⟩ = true ∨
      ∀ c, text.head? = some c → Text.isBlank c = true)
    (starts : ∀ c, rest.head? = some c → Text.isBlank c = false) :
    ∃ blanks, Spelled line before depth (written ++ text) (⟨token, written, blanks⟩ :: pieces)
      rest := by
  obtain ⟨first, blank, rfl, follows⟩ := spelled
  refine ⟨first, [], by simp, by simp [Piece.text], ?_⟩
  rw [List.append_nil]
  refine ⟨here first, placed first, blank, fun tight => ?_, by simpa [Piece.text] using follows⟩
  -- Without blanks the next token would start with one, as what follows a lexeme does.
  obtain rfl : first = [] := tight
  refine ends.imp id fun ends => ?_
  cases pieces with
  | nil =>
    cases rest with
    | nil => exact ⟨rfl, rfl⟩
    | cons c rest =>
      have visible := starts c rfl
      have blank := ends c (by simp)
      rw [visible] at blank
      cases blank
  | cons next later =>
    obtain ⟨c, letters, same, visible⟩ := follows.1.head
    have blank := ends c (by simp [Piece.text, same])
    rw [visible] at blank
    cases blank

theorem isPlaced_ofText (line : Int) (before : List Char) (kind : Kind)
    (lexeme written blanks : List Char) :
    Piece.IsPlaced line before
      ⟨ofText (Place.advance ⟨some line, 1⟩ before) kind lexeme, written, blanks⟩ := by
  rw [Place.advance_start]
  exact ⟨rfl, rfl⟩

section

variable {c : Char} {later : List Char}

/-- A token that opens no string, in front of what follows its lexeme. -/
theorem lexeme (visible : ¬ Text.isBlank c = true)
    (other : ¬ (classify (c :: Text.field later) = .stringIntro ∧ depth = 0))
    (starts : ∀ c, rest.head? = some c → Text.isBlank c = false)
    (spelled : Spelled line (before ++ (c :: Text.field later))
      ((classify (c :: Text.field later)).depthAfter depth) (Text.afterField later) pieces rest) :
    ∃ blanks, Spelled line before depth (c :: later)
      (⟨ofText (Place.advance ⟨some line, 1⟩ before) (classify (c :: Text.field later)).inComment
        (c :: Text.field later), c :: Text.field later, blanks⟩ :: pieces) rest := by
  rw [← depthAfter_inComment] at spelled
  rw [← Text.field_append_afterField c later]
  refine Spelled.cons spelled (fun blanks => ?_) (fun blanks => isPlaced_ofText _ _ _ _ _ blanks)
    (.inr (Text.head?_afterField later)) starts
  unfold Piece.IsWritten
  split
  · rename_i text kind
    exact absurd kind (classify_ne_stringLiteral _ text)
  · exact ⟨by simp [ofText], List.cons_ne_nil _ _, Text.visible_field visible, rfl,
      fun string outside => other ⟨string, outside⟩⟩

/-- A string literal in front of what follows its closing quote. -/
theorem string (kind : classify (c :: Text.field later) = .stringIntro)
    (closed : ¬ ((Text.trimLeft (Text.afterField later)).dropWhile (· ≠ '"')).isEmpty = true)
    (starts : ∀ c, rest.head? = some c → Text.isBlank c = false) {written : List Char}
    (consumed : written = (c :: Text.field later) ++ (Text.afterField later).takeWhile Text.isBlank ++
      (Text.trimLeft (Text.afterField later)).takeWhile (· ≠ '"') ++ ['"'])
    (spelled : Spelled line (before ++ written) 0
      (((Text.trimLeft (Text.afterField later)).dropWhile (· ≠ '"')).drop 1) pieces rest) :
    ∃ blanks, Spelled line before 0 (c :: later)
      (⟨ofText (Place.advance ⟨some line, 1⟩ before) (.stringLiteral (String.ofList
        ((Text.trimLeft (Text.afterField later)).takeWhile (· ≠ '"')))) (c :: Text.field later),
        written, blanks⟩ :: pieces) rest := by
  obtain ⟨present, unquoted, first, -⟩ := Text.quoted_append (Text.head?_afterField later) closed
  have mark : c :: Text.field later = stringMark := classify_eq_stringIntro kind
  have whole : written ++ ((Text.trimLeft (Text.afterField later)).dropWhile (· ≠ '"')).drop 1 =
      c :: later := by
    rw [consumed]
    exact Text.quoted_whole c closed
  rw [← whole]
  refine Spelled.cons ?_ (fun blanks => ?_)
    (fun blanks => isPlaced_ofText _ _ _ _ _ blanks) (.inl rfl) starts
  · exact spelled
  · refine ⟨rfl, by simp [ofText, mark], by simpa using unquoted, by simpa using first, _, present,
      fun c => List.mem_takeWhile_imp, ?_⟩
    simp [consumed, mark]

end

end Spelled

/-- What is read in full is spelled by the tokens that are read. -/
theorem spelled_of_scanFrom {word : Option String} {done : Array Token} {depth : Nat} {place : Place}
    {line : Int} {text : List Char} {scan : Scan}
    (scanned : scanFrom word done depth place text = .ok scan) (before : List Char)
    (here : place = Place.advance ⟨some line, 1⟩ before) :
    ∃ pieces, scan.tokens = done.toList ++ pieces.map Piece.token ∧
      Spelled line before depth text pieces [] := by
  fun_induction scanFrom word done depth place text generalizing before with
  | case1 done depth place =>
    obtain rfl := Except.ok.inj scanned
    exact ⟨[], by simp, .nil line before [] depth⟩
  | case2 done depth place c rest blank ih =>
    obtain ⟨pieces, tokens, spelled⟩ := ih scanned (before ++ [c])
      (by rw [here, Place.advance_append]; rfl)
    exact ⟨pieces, tokens, spelled.blank blank⟩
  | case3 => cases scanned
  | case4 done depth place c rest visible lexeme afterLexeme kind string body literal closing closed
      consumed =>
    rename_i ih
    obtain ⟨opening, rfl⟩ := string
    subst here
    obtain ⟨pieces, tokens, spelled⟩ := ih scanned _ (Place.advance_append _ before consumed).symm
    obtain ⟨blanks, spelled⟩ := Spelled.string opening closed (by simp) rfl spelled
    exact ⟨_, by rw [tokens, Array.toList_push, List.append_assoc]; rfl, spelled⟩
  | case5 done depth place c rest visible lexeme afterLexeme kind other =>
    rename_i ih
    subst here
    obtain ⟨pieces, tokens, spelled⟩ := ih scanned _ (Place.advance_append _ before lexeme).symm
    obtain ⟨blanks, spelled⟩ := Spelled.lexeme visible other (by simp) spelled
    exact ⟨_, by rw [tokens, Array.toList_push, List.append_assoc]; rfl, spelled⟩

/-- A text is refused at a string mark outside comments that no quote follows. -/
theorem unclosed_of_scanFrom {word : Option String} {done : Array Token} {depth : Nat}
    {place : Place} {line : Int} {text : List Char} {diagnostic : Diagnostic}
    (refused : scanFrom word done depth place text = .error diagnostic) (before : List Char)
    (here : place = Place.advance ⟨some line, 1⟩ before) :
    ∃ pieces rest, Spelled line before depth text pieces (stringMark ++ rest) ∧
      depthBehind depth (pieces.map Piece.token) = 0 ∧
      (∀ c, rest.head? = some c → Text.isBlank c = true) ∧ '"' ∉ rest := by
  have starts : ∀ rest c, (stringMark ++ rest).head? = some c → Text.isBlank c = false := by
    simp [stringMark, Text.isBlank]
  fun_induction scanFrom word done depth place text generalizing before with
  | case1 => cases refused
  | case2 done depth place c rest blank ih =>
    obtain ⟨pieces, tail, spelled, found⟩ := ih refused (before ++ [c])
      (by rw [here, Place.advance_append]; rfl)
    exact ⟨pieces, tail, spelled.blank blank, found⟩
  | case3 done depth place c rest visible lexeme afterLexeme kind string body closing =>
    rename_i unclosed
    obtain ⟨opening, rfl⟩ := string
    have mark : c :: Text.field rest = stringMark := classify_eq_stringIntro opening
    refine ⟨[], afterLexeme, ?_, rfl, Text.head?_afterField rest, Text.unquoted unclosed⟩
    rw [← Text.field_append_afterField, mark]
    exact .nil line before _ 0
  | case4 done depth place c rest visible lexeme afterLexeme kind string body literal closing closed
      consumed =>
    rename_i ih
    obtain ⟨opening, rfl⟩ := string
    subst here
    obtain ⟨pieces, tail, spelled, depth, found⟩ :=
      ih refused _ (Place.advance_append _ before consumed).symm
    obtain ⟨blanks, spelled⟩ := Spelled.string opening closed (starts tail) rfl spelled
    exact ⟨_, tail, spelled, depth, found⟩
  | case5 done depth place c rest visible lexeme afterLexeme kind other =>
    rename_i ih
    subst here
    obtain ⟨pieces, tail, spelled, depth, found⟩ :=
      ih refused _ (Place.advance_append _ before lexeme).symm
    obtain ⟨blanks, spelled⟩ := Spelled.lexeme visible other (starts tail) spelled
    refine ⟨_, tail, spelled, ?_, found⟩
    rw [← depthAfter_inComment] at depth
    exact depth

/-! ### Whole texts -/

theorem isWritable_place (word : Option String) (line : Int) (column : Nat) :
    Site.isWritable { word, line := some line, column := some (column : Int) } = true ↔
      line.natAbs < 10 ^ Text.maxDigits ∧ column < 10 ^ Text.maxDigits := by
  simp only [Site.isWritable, Bool.and_eq_true, Option.all_some, Compiler.State.isWritable_iff,
    Int.natAbs_natCast]

theorem Unclosed.refused {line : Int} {text before rest : List Char}
    (unclosed : Unclosed line text before rest) (word : Option String) :
    scanFrom word #[] 0 ⟨some line, 1⟩ text = .error ⟨.unterminatedString,
      { word, line := some (lineBehind line before), column := some (columnBehind before) }⟩ := by
  obtain ⟨pieces, spelled, whole, depth, ends, unquoted⟩ := unclosed
  obtain ⟨front, same, scanned⟩ := scanFrom_spelled spelled word #[]
  obtain rfl : front = before := List.append_cancel_right (same.symm.trans whole)
  rw [depth, scanFrom_unclosed ends unquoted, List.nil_append,
    Place.advance_start line front] at scanned
  exact scanned

/-- Whatever the text, reading it ends. Unless a string mark outside comments has no quote behind it,
the text is blanks and the tokens that are read, each with the line and the column of its first
character. The first such mark is otherwise what is refused, and its place is given if its line and
column have few enough digits to be written. -/
theorem scan_spelling (text : List Char) (word : Option String) (line : Int) :
    match scan text word (some line) with
    | .ok scan =>
      (∃ pieces, scan.tokens = pieces.map Piece.token ∧ Spelled line [] 0 text pieces []) ∧
        ∀ before rest, ¬ Unclosed line text before rest
    | .error reason =>
      ∃ before rest, Unclosed line text before rest ∧
        reason =
          if (lineBehind line before).natAbs < 10 ^ Text.maxDigits ∧
              columnBehind before < 10 ^ Text.maxDigits then
            .fault ⟨.unterminatedString,
              { word, line := some (lineBehind line before), column := some (columnBehind before) }⟩
          else .tooManyDigits {} := by
  cases result : scanFrom word #[] 0 ⟨some line, 1⟩ text with
  | ok scan =>
    rw [Compiler.scan_some, result]
    refine ⟨spelled_of_scanFrom result [] rfl, fun before rest unclosed => ?_⟩
    rw [unclosed.refused word] at result
    cases result
  | error diagnostic =>
    obtain ⟨pieces, rest, spelled, depth, ends, unquoted⟩ := unclosed_of_scanFrom result [] rfl
    obtain ⟨first, blank, whole, follows⟩ := spelled
    have unclosed : Unclosed line text (first ++ pieces.flatMap Piece.text) rest :=
      ⟨pieces, ⟨first, blank, whole, follows⟩, whole, depth, ends, unquoted⟩
    rw [Compiler.scan_some, unclosed.refused word]
    refine ⟨_, rest, unclosed, ?_⟩
    simp only [Diagnostic.raised, isWritable_place]

/-- A string mark without a quote on a line of one digit too many. -/
theorem unclosed_string_beyond_digits :
    (∃ before rest, Unclosed (10 ^ Text.maxDigits - 1) "\n.\" x".toList before rest) ∧
      scan "\n.\" x".toList none (some (10 ^ Text.maxDigits - 1)) = .error (.tooManyDigits {}) ∧
      ∀ diagnostic, scan "\n.\" x".toList none (some (10 ^ Text.maxDigits - 1)) ≠
        .error (.fault diagnostic) := by
  have refused : scan "\n.\" x".toList none (some (10 ^ Text.maxDigits - 1)) =
      .error (.tooManyDigits {}) := by decide +kernel
  refine ⟨⟨['\n'], [' ', 'x'], [], ?_, rfl, rfl, ?_, by decide⟩, refused, ?_⟩
  · exact ⟨['\n'], List.forall_mem_singleton.mpr rfl, rfl, trivial⟩
  · intro c start
    obtain rfl : ' ' = c := by simpa using start
    decide
  · rw [refused]
    simp

end Token

end ThreadedCode
