import ThreadedCode.Proofs.Spelling
import ThreadedCode.Proofs.Unplaced

/-!
# Reading a text in parts

A text that is cut between two tokens may be read part by part: behind the first part the reader goes
on at the depth and the place it has reached (`scanFrom_append`). What it reads there does not depend
on the place, but for the places of the tokens, nor on the tokens read before. Inside a comment it
reads the fields of a text, whatever they are, as long as parentheses are balanced.
-/

namespace ThreadedCode

namespace Token

variable {word : Option String} {done : Array Token} {depth : Nat} {place : Place}
  {text front rest : List Char} {scan : Scan}

/-! ### Going on -/

theorem scanFrom_token {c : Char} (visible : ¬ Text.isBlank c = true)
    (other : ¬ (classify (c :: Text.field text) = .stringIntro ∧ depth = 0)) :
    scanFrom word done depth place (c :: text) =
      scanFrom word (done.push (ofText place (classify (c :: Text.field text)).inComment
          (c :: Text.field text)))
        ((classify (c :: Text.field text)).depthAfter depth) (place.advance (c :: Text.field text))
        (Text.afterField text) := by
  rw [scanFrom.eq_def]
  simp only [visible, Bool.false_eq_true, if_false]
  rw [if_neg other]

theorem scanFrom_literal {c : Char} (visible : ¬ Text.isBlank c = true)
    (string : classify (c :: Text.field text) = .stringIntro ∧ depth = 0)
    (closed : ¬ ((Text.trimLeft (Text.afterField text)).dropWhile (· ≠ '"')).isEmpty = true) :
    scanFrom word done depth place (c :: text) =
      scanFrom word (done.push (ofText place (.stringLiteral (String.ofList
          ((Text.trimLeft (Text.afterField text)).takeWhile (· ≠ '"')))) (c :: Text.field text))) 0
        (place.advance ((c :: Text.field text) ++ (Text.afterField text).takeWhile Text.isBlank ++
          (Text.trimLeft (Text.afterField text)).takeWhile (· ≠ '"') ++ ['"']))
        (((Text.trimLeft (Text.afterField text)).dropWhile (· ≠ '"')).drop 1) := by
  rw [scanFrom.eq_def]
  simp only [visible, Bool.false_eq_true, if_false]
  rw [if_pos string, if_neg closed]

/-- From another place and behind other tokens the same tokens are read, but for their places. -/
theorem scanFrom_elsewhere (scanned : scanFrom word done depth place text = .ok scan)
    (others : Array Token) (elsewhere : Place) :
    ∃ tokens moved line, scan.tokens = done.toList ++ tokens ∧
      scanFrom word others depth elsewhere text = .ok ⟨others.toList ++ moved, scan.depth, line⟩ ∧
      moved.map unplaced = tokens.map unplaced := by
  fun_induction scanFrom word done depth place text generalizing others elsewhere with
  | case1 done depth place =>
    obtain rfl := Except.ok.inj scanned
    exact ⟨[], [], elsewhere.line, by simp, by rw [scanFrom.eq_def]; simp, rfl⟩
  | case2 done depth place c rest blank ih =>
    rw [scanFrom_blank blank]
    exact ih scanned others (elsewhere.next c)
  | case3 => cases scanned
  | case4 done depth place c rest visible lexeme afterLexeme kind string body literal closing closed
      consumed ih =>
    obtain ⟨tokens, moved, line, same, read, alike⟩ := ih scanned
      (others.push (ofText elsewhere (.stringLiteral (String.ofList literal)) lexeme))
      (elsewhere.advance consumed)
    rw [Array.toList_push, List.append_assoc] at same read
    refine ⟨_, _, line, same, (scanFrom_literal visible string closed).trans read, ?_⟩
    rw [List.map_append, List.map_append, alike]
    rfl
  | case5 done depth place c rest visible lexeme afterLexeme kind other ih =>
    obtain ⟨tokens, moved, line, same, read, alike⟩ := ih scanned
      (others.push (ofText elsewhere kind.inComment lexeme)) (elsewhere.advance lexeme)
    rw [Array.toList_push, List.append_assoc] at same read
    refine ⟨_, _, line, same, (scanFrom_token visible other).trans read, ?_⟩
    rw [List.map_append, List.map_append, alike]
    rfl

/-- The first token that is read has as its lexeme the first field of the text. -/
theorem scanFrom_first {c : Char} (visible : ¬ Text.isBlank c = true)
    (scanned : scanFrom word done depth place (c :: text) = .ok scan) :
    ∃ token tokens, scan.tokens = done.toList ++ token :: tokens ∧
      token.lexeme.toList = c :: Text.field text := by
  have first : ∀ {token : Token} {depth : Nat} {place : Place} {rest : List Char},
      scanFrom word (done.push token) depth place rest = .ok scan →
        ∃ tokens, scan.tokens = done.toList ++ token :: tokens := by
    intro token depth place rest scanned
    obtain ⟨tokens, -, -, same, -⟩ := scanFrom_elsewhere scanned #[] place
    exact ⟨tokens, by rw [same]; simp⟩
  by_cases string : classify (c :: Text.field text) = .stringIntro ∧ depth = 0
  · by_cases closed : ((Text.trimLeft (Text.afterField text)).dropWhile (· ≠ '"')).isEmpty = true
    · rw [scanFrom.eq_def] at scanned
      simp only [visible, Bool.false_eq_true, if_false] at scanned
      rw [if_pos string, if_pos closed] at scanned
      cases scanned
    · rw [scanFrom_literal visible string closed] at scanned
      obtain ⟨tokens, same⟩ := first scanned
      exact ⟨_, tokens, same, String.toList_ofList⟩
  · rw [scanFrom_token visible string] at scanned
    obtain ⟨tokens, same⟩ := first scanned
    exact ⟨_, tokens, same, String.toList_ofList⟩

/-- A string literal is read in the same way with more behind it. -/
theorem scanFrom_literal_append {c : Char} (string : classify (c :: Text.field text) = .stringIntro)
    (closed : ¬ ((Text.trimLeft (Text.afterField text)).dropWhile (· ≠ '"')).isEmpty = true)
    (rest : List Char) :
    scanFrom word done 0 place ((c :: text) ++ rest) =
      scanFrom word (done.push (ofText place (.stringLiteral (String.ofList
          ((Text.trimLeft (Text.afterField text)).takeWhile (· ≠ '"')))) (c :: Text.field text))) 0
        (place.advance ((c :: Text.field text) ++ (Text.afterField text).takeWhile Text.isBlank ++
          (Text.trimLeft (Text.afterField text)).takeWhile (· ≠ '"') ++ ['"']))
        (((Text.trimLeft (Text.afterField text)).dropWhile (· ≠ '"')).drop 1 ++ rest) := by
  obtain ⟨present, unquoted, first, -⟩ := Text.quoted_append (Text.head?_afterField text) closed
  have mark : c :: Text.field text = stringMark := classify_eq_stringIntro string
  have whole := Text.quoted_whole c closed
  rw [mark] at whole ⊢
  rw [← scanFrom_string present (fun c => List.mem_takeWhile_imp) unquoted first, ← whole]
  simp only [List.append_assoc]

/-- A token that is the first part of a field is not read from the whole field. -/
theorem not_prefix_of_longer {c d : Char} (visible : ¬ Text.isBlank c = true)
    (letters : Text.field front = front) (further : ¬ Text.isBlank d = true)
    (scanned : scanFrom word done depth place ((c :: front) ++ d :: rest) = .ok scan) {token : Token}
    (lexeme : token.lexeme.toList = c :: Text.field front) :
    ¬ done.toList ++ [token] <+: scan.tokens := by
  intro boundary
  obtain ⟨first, tokens, same, longer⟩ := scanFrom_first visible scanned
  rw [same, List.prefix_append_right_inj] at boundary
  obtain rfl : token = first := by simpa using boundary
  have field : Text.field (front ++ d :: rest) = front ++ d :: Text.field rest := by
    have all := List.takeWhile_eq_self_iff.mp letters
    rw [Text.field, List.takeWhile_append_of_pos all,
      List.takeWhile_cons_of_pos (by simpa using further), Text.field]
  have sizes := congrArg List.length (List.cons.inj (lexeme.symm.trans longer)).2
  change (Text.field front).length = (Text.field (front ++ d :: rest)).length at sizes
  rw [letters, field, List.length_append, List.length_cons] at sizes
  omega

/-- Behind a part of a text that ends between two tokens the reader goes on at the depth and the place
it has reached. That is so if a blank follows, or if the tokens of the part are tokens of the text. -/
theorem scanFrom_append (scanned : scanFrom word done depth place front = .ok scan)
    (apart : (∀ c, rest.head? = some c → Text.isBlank c = true) ∨
      ∃ whole, scanFrom word done depth place (front ++ rest) = .ok whole ∧
        scan.tokens <+: whole.tokens) :
    scanFrom word done depth place (front ++ rest) =
      scanFrom word scan.tokens.toArray scan.depth (place.advance front) rest := by
  fun_induction scanFrom word done depth place front with
  | case1 done depth place =>
    obtain rfl := Except.ok.inj scanned
    simp [Place.advance]
  | case2 done depth place c front blank ih =>
    rw [List.cons_append, scanFrom_blank blank] at apart ⊢
    exact ih scanned apart
  | case3 => cases scanned
  | case4 done depth place c front visible lexeme afterLexeme kind string body literal closing closed
      consumed ih =>
    obtain ⟨opening, rfl⟩ := string
    rw [scanFrom_literal_append opening closed rest] at apart ⊢
    rw [ih scanned apart, ← Place.advance_append, Text.quoted_whole c closed]
  | case5 done depth place c front visible lexeme afterLexeme kind other ih =>
    have shape : (c :: front) ++ rest = lexeme ++ (afterLexeme ++ rest) := by
      rw [← List.append_assoc, Text.field_append_afterField]
    by_cases ends : ∀ d, (afterLexeme ++ rest).head? = some d → Text.isBlank d = true
    · rw [shape, scanFrom_lexeme (Text.visible_field visible) (List.cons_ne_nil _ _) ends
        (fun string outside => other ⟨string, outside⟩)] at apart ⊢
      rw [ih scanned apart, ← Place.advance_append, Text.field_append_afterField]
    · -- The last lexeme of the part would go on behind it, and be another token in the whole text.
      obtain ⟨d, next, further⟩ : ∃ d, (afterLexeme ++ rest).head? = some d ∧
          ¬ Text.isBlank d = true := by simpa using ends
      have last : afterLexeme = [] := by
        cases after : afterLexeme with
        | nil => rfl
        | cons e later =>
          rw [after] at next
          have blank : afterLexeme.head? = some d := by rw [after, ← next]; rfl
          exact absurd (Text.head?_afterField front d blank) further
      rw [last, List.nil_append] at next
      obtain ⟨later, rfl⟩ := List.head?_eq_some_iff.mp next
      obtain ⟨whole, read, boundary⟩ := apart.resolve_left fun blank => further (blank d next)
      rw [last, scanFrom.eq_def] at scanned
      obtain rfl := Except.ok.inj scanned
      have letters : Text.field front = front := by
        have parts := Text.field_append_afterField c front
        rw [show Text.afterField front = [] from last, List.append_nil] at parts
        exact (List.cons.inj parts).2
      refine absurd boundary ?_
      rw [Array.toList_push]
      exact not_prefix_of_longer visible letters further read String.toList_ofList

end Token

/-! ### Comments -/

/-- The fields of a text, which blanks separate. -/
def Text.fields (text : List Char) : List (List Char) :=
  match text with
  | [] => []
  | c :: rest =>
    if isBlank c then fields rest else (c :: field rest) :: fields (afterField rest)
termination_by text.length
decreasing_by
  · simp
  · have := length_afterField_le rest
    simp only [List.length_cons]
    omega

namespace Token

/-- How many parentheses are left open behind some fields, where `inner` are open before them; none
if one is closed that is not open. -/
def nesting? (inner : Nat) : List (List Char) → Option Nat
  | [] => some inner
  | field :: rest =>
    if field = ['('] then nesting? (inner + 1) rest
    else if field = [')'] then
      match inner with
      | 0 => none
      | inner + 1 => nesting? inner rest
    else nesting? inner rest

/-- The tokens that are read from some fields inside a comment. -/
def ReadInComment (fields : List (List Char)) (tokens : List Token) : Prop :=
  tokens.map (·.lexeme.toList) = fields ∧
    ∀ token ∈ tokens, token.kind = (classify token.lexeme.toList).inComment

/-- The tokens of a comment whose parentheses are balanced and that names no constant. -/
def IsGroup (tokens : List Token) : Prop :=
  ∃ opening fields inner closing, tokens = opening :: (inner ++ [closing]) ∧
    opening.kind = .commentOpen ∧ closing.kind = .commentClose ∧ ReadInComment fields inner ∧
    nesting? 0 fields = some 0 ∧ ∀ field ∈ fields, hintOf? field = none

theorem depthAfter_other {field : List Char} (left : field ≠ ['(']) (right : field ≠ [')'])
    (depth : Nat) : (classify field).depthAfter depth = depth := by
  unfold classify
  rw [if_neg left, if_neg right]
  repeat' split
  all_goals rfl

variable {word : Option String} {rest : List Char}

/-- Inside a comment the fields of a text are read, and parentheses are counted. -/
theorem scanFrom_fields {text : List Char} {inner outer : Nat}
    (nested : nesting? inner (Text.fields text) = some outer)
    (ends : ∀ c, rest.head? = some c → Text.isBlank c = true) (depth : Nat) (done : Array Token)
    (place : Place) :
    ∃ tokens, ReadInComment (Text.fields text) tokens ∧
      scanFrom word done (depth + inner + 1) place (text ++ rest) =
        scanFrom word (done ++ tokens.toArray) (depth + outer + 1) (place.advance text) rest := by
  fun_induction Text.fields text generalizing inner done place with
  | case1 =>
    obtain rfl := Option.some.inj nested
    exact ⟨[], ⟨rfl, by simp⟩, by simp [Place.advance]⟩
  | case2 c text blank ih =>
    obtain ⟨tokens, fields, read⟩ := ih nested done (place.next c)
    refine ⟨tokens, fields, ?_⟩
    rw [List.cons_append, scanFrom_blank blank, read]
    rfl
  | case3 c text visible ih =>
    have behind : ∀ d, (Text.afterField text ++ rest).head? = some d → Text.isBlank d = true := by
      intro d first
      cases after : Text.afterField text with
      | nil => exact ends d (by rw [← first, after]; rfl)
      | cons e later => exact Text.head?_afterField text d (by rw [← first, after]; rfl)
    have step : ∀ deeper, nesting? deeper (Text.fields (Text.afterField text)) = some outer →
        (classify (c :: Text.field text)).depthAfter (depth + inner + 1) = depth + deeper + 1 →
        ∃ tokens,
          ReadInComment ((c :: Text.field text) :: Text.fields (Text.afterField text)) tokens ∧
          scanFrom word done (depth + inner + 1) place (c :: text ++ rest) =
            scanFrom word (done ++ tokens.toArray) (depth + outer + 1) (place.advance (c :: text))
              rest := by
      intro deeper nested after
      obtain ⟨tokens, ⟨lexemes, kinds⟩, read⟩ := ih nested
        (done.push (ofText place (classify (c :: Text.field text)).inComment (c :: Text.field text)))
        (place.advance (c :: Text.field text))
      refine ⟨ofText place (classify (c :: Text.field text)).inComment (c :: Text.field text) ::
        tokens, ⟨?_, List.forall_mem_cons.mpr ⟨?_, kinds⟩⟩, ?_⟩
      · rw [List.map_cons, lexemes]
        simp [ofText]
      · simp [ofText]
      · have shape : c :: text ++ rest = (c :: Text.field text) ++ (Text.afterField text ++ rest) := by
          rw [← List.append_assoc, Text.field_append_afterField]
        rw [shape, scanFrom_lexeme (Text.visible_field visible) (List.cons_ne_nil _ _) behind
          (fun _ => Nat.succ_ne_zero _), after, read, ← Place.advance_append,
          Text.field_append_afterField]
        simp
    unfold nesting? at nested
    split at nested
    · rename_i left
      exact step _ nested (by rw [left]; rfl)
    · rename_i left
      split at nested
      · rename_i right
        split at nested
        · cases nested
        · exact step _ nested (by rw [right]; rfl)
      · rename_i right
        exact step _ nested (depthAfter_other left right _)

/-- A token that is set off by spaces and opens no string. -/
theorem scanFrom_spaced {lexeme : List Char} (visible : ∀ c ∈ lexeme, Text.isBlank c = false)
    (present : lexeme ≠ []) (other : classify lexeme ≠ .stringIntro) {done : Array Token}
    {depth : Nat} {place : Place} :
    scanFrom word done depth place (' ' :: lexeme ++ ' ' :: rest) =
      scanFrom word (done.push (ofText (place.next ' ') (classify lexeme).inComment lexeme))
        ((classify lexeme).depthAfter depth) (place.advance (' ' :: lexeme ++ [' '])) rest := by
  have blank : Text.isBlank ' ' = true := by decide
  rw [List.cons_append, scanFrom_blank blank, scanFrom_lexeme visible present (by simp [blank])
    (fun string => absurd string other), scanFrom_blank blank, Place.advance_append]
  rfl

/-- A comment is read at any depth, and behind it the depth is as before. -/
theorem scanFrom_group {comment : List Char}
    (balanced : nesting? 0 (Text.fields comment) = some 0)
    (unnamed : ∀ field ∈ Text.fields comment, hintOf? field = none) (rest : List Char) (depth : Nat)
    (done : Array Token) (place : Place) :
    ∃ group, IsGroup group ∧
      scanFrom word done depth place (" ( ".toList ++ comment ++ " ) ".toList ++ rest) =
        scanFrom word (done ++ group.toArray) depth
          (place.advance (" ( ".toList ++ comment ++ " ) ".toList)) rest := by
  have ends : ∀ c, (" ) ".toList ++ rest).head? = some c → Text.isBlank c = true := by
    intro c first
    obtain rfl : ' ' = c := by simpa using first
    decide
  have left : ∀ c ∈ ['('], Text.isBlank c = false := by simp [Text.isBlank]
  have right : ∀ c ∈ [')'], Text.isBlank c = false := by simp [Text.isBlank]
  have opening : scanFrom word done depth place (" ( ".toList ++ (comment ++ (" ) ".toList ++ rest))) =
      scanFrom word (done.push (ofText (place.next ' ') .commentOpen ['('])) (depth + 0 + 1)
        (place.advance " ( ".toList) (comment ++ (" ) ".toList ++ rest)) :=
    scanFrom_spaced left (by decide) (by decide)
  have closing : ∀ (done : Array Token) (place : Place),
      scanFrom word done (depth + 0 + 1) place (" ) ".toList ++ rest) =
        scanFrom word (done.push (ofText (place.next ' ') .commentClose [')'])) depth
          (place.advance " ) ".toList) rest :=
    fun _ _ => scanFrom_spaced right (by decide) (by decide)
  obtain ⟨inner, fields, read⟩ : ∃ inner, ReadInComment (Text.fields comment) inner ∧
      scanFrom word (done.push (ofText (place.next ' ') .commentOpen ['('])) (depth + 0 + 1)
          (place.advance " ( ".toList) (comment ++ (" ) ".toList ++ rest)) =
        scanFrom word (done.push (ofText (place.next ' ') .commentOpen ['(']) ++ inner.toArray)
          (depth + 0 + 1) ((place.advance " ( ".toList).advance comment) (" ) ".toList ++ rest) :=
    scanFrom_fields balanced ends depth _ _
  refine ⟨ofText (place.next ' ') .commentOpen ['('] :: (inner ++
      [ofText (((place.advance " ( ".toList).advance comment).next ' ') .commentClose [')']]),
    ⟨_, _, inner, _, rfl, rfl, rfl, fields, balanced, unnamed⟩, ?_⟩
  rw [List.append_assoc, List.append_assoc, opening, read, closing, ← Place.advance_append,
    ← Place.advance_append]
  simp

end Token

end ThreadedCode
