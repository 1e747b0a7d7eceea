import ThreadedCode.Proofs.AcceptedWords
import ThreadedCode.Proofs.SourceLines

/-!
# The nesting of comments

The depth of comments is counted twice: by the reader of a text, which has to know whether a string
mark opens a string, and by the draft, which has to know whether a token is code. The two never
disagree (`nesting_agrees`), so a string literal is always taken as one, a string mark is never
looked up, and a closing parenthesis is looked up exactly where it closes nothing.
-/

namespace ThreadedCode

namespace Token

/-- Having read `front`, which gives it some tokens and a comment depth, the reader goes on with
`rest` at that depth. -/
def GoesOn (word : Option String) (line : Int) (front : List Char) (tokens : List Token)
    (depth : Nat) (rest : List Char) : Prop :=
  ∃ place : Place, scan front word (some line) = .ok ⟨tokens, depth, place.line⟩ ∧
    scanFrom word #[] 0 ⟨some line, 1⟩ (front ++ rest) =
      scanFrom word tokens.toArray depth place rest

variable {line : Int} {rest : List Char} {earlier later : List Piece} {piece : Piece}

/-- Pieces that others follow may be followed by anything else: the last of them ends by itself or
has blanks behind it. -/
theorem Follows.front {before : List Char} {depth : Nat}
    (follows : Follows line rest before depth (earlier ++ piece :: later)) (other : List Char) :
    Follows line other before depth earlier := by
  induction earlier generalizing before depth with
  | nil => trivial
  | cons first earlier ih =>
    obtain ⟨written, placed, blank, spaced, follows⟩ := follows
    refine ⟨written, placed, blank, ?_, ih follows⟩
    intro tight
    rcases spaced tight with string | ⟨last, -⟩
    · exact .inl string
    · simp at last

/-- The reader comes to every token of a text at the depth that the tokens before it leave. -/
theorem Spelled.goesOn {text : List Char} (word : Option String)
    (spelled : Spelled line [] 0 text (earlier ++ piece :: later) []) :
    ∃ front rest, text = front ++ (piece.token.lexeme.toList ++ rest) ∧
      GoesOn word line front (earlier.map Piece.token)
        (depthBehind 0 (earlier.map Piece.token)) (piece.token.lexeme.toList ++ rest) ∧
      piece.IsWritten (depthBehind 0 (earlier.map Piece.token)) := by
  obtain ⟨first, blank, rfl, follows⟩ := spelled
  obtain ⟨written, -⟩ := follows.split
  obtain ⟨⟨tail, shape⟩, -⟩ := written.lexeme
  have front : ∀ other, Spelled line [] 0 (first ++ earlier.flatMap Piece.text ++ other) earlier
      other := fun other => ⟨first, blank, rfl, follows.front other⟩
  -- The text in front of the token is read by itself and in front of what follows it.
  obtain ⟨read, same, alone⟩ := scanFrom_spelled (front []) word #[]
  obtain ⟨again, same', within⟩ := scanFrom_spelled (front (piece.token.lexeme.toList ++
    (tail ++ piece.blanks ++ later.flatMap Piece.text))) word #[]
  obtain rfl := List.append_cancel_right same
  obtain rfl := List.append_cancel_right same'
  refine ⟨first ++ earlier.flatMap Piece.text, tail ++ piece.blanks ++ later.flatMap Piece.text, ?_,
    ⟨Place.advance ⟨some line, 1⟩ (first ++ earlier.flatMap Piece.text), ?_, ?_⟩, written⟩
  · rw [List.flatMap_append, List.flatMap_cons, Piece.text, ← shape]
    simp
  · have ended : ∀ done depth place, scanFrom word done depth place [] =
        .ok ⟨done.toList, depth, place.line⟩ := by
      intro done depth place
      rw [scanFrom.eq_def]
    show (scanFrom word #[] 0 (Place.advance ⟨some line, 1⟩ []) _).mapError _ = _
    rw [List.append_nil, ended] at alone
    rw [alone]
    simp [Except.mapError]
  · show scanFrom word #[] 0 (Place.advance ⟨some line, 1⟩ []) _ = _
    rw [within]
    simp

/-- What a token is written as tells whether it stands in a comment: a string literal does not, a
string mark that opens none does, and a closing parenthesis is one at any depth. -/
theorem Piece.IsWritten.nesting {depth : Nat} (written : piece.IsWritten depth) :
    (piece.token.kind.label = "STRING_LITERAL" → depth = 0) ∧
      (piece.token.lexeme = ".\"" →
        (depth = 0 ∧ ∃ literal, piece.token.kind = .stringLiteral literal) ∨ depth ≠ 0) ∧
      (piece.token.lexeme = ")" → piece.token.kind = .commentClose) := by
  unfold Piece.IsWritten at written
  split at written
  case h_1 literal kind =>
    obtain ⟨outside, mark, -⟩ := written
    refine ⟨fun _ => outside, fun _ => .inl ⟨outside, literal, kind⟩, ?_⟩
    intro closing
    rw [closing] at mark
    exact absurd mark (by decide)
  case h_2 other =>
    obtain ⟨lexeme, -, -, kind, inside⟩ := written
    refine ⟨?_, ?_, ?_⟩
    · intro string
      cases shape : classify piece.written with
      | stringLiteral text => exact absurd (kind.trans (by rw [shape]; rfl)) (other text)
      | _ =>
        rw [kind, shape] at string
        exact absurd string (by simp [Kind.inComment, Kind.label])
    · intro mark
      rw [mark] at lexeme
      exact .inr (inside (by rw [lexeme]; decide))
    · intro closing
      rw [closing] at lexeme
      rw [kind, lexeme]
      decide

end Token

namespace Compiler

variable {state : State} {draft final : Draft}

/-- One token moves the depth of the draft as it moves that of the reader, so all of them do. -/
theorem Passes.commentDepth {turns : List Turn} (passes : Passes state draft turns final) :
    final.commentDepth = Token.depthBehind draft.commentDepth (turns.map Turn.token) := by
  induction passes with
  | nil draft => rfl
  | @cons draft final token effect turns found rest ih =>
    rw [ih, Draft.commentDepth_apply found]
    rfl

theorem commentDepth_addTokens {tokens : List Token}
    (added : Draft.addTokens state draft tokens = (final, none)) :
    final.commentDepth = Token.depthBehind draft.commentDepth tokens := by
  obtain ⟨turns, rfl, passes⟩ := passes_of_addTokens added
  exact passes.commentDepth

/-- The tokens of a text that is read come to a new draft one after another, up to the first that
fails. Whenever the turn comes to a token, the draft is at the comment depth at which the reader
came to it. So a string literal only comes outside comments, a string mark starts a literal or is
part of a comment, and a closing parenthesis is looked up as a word exactly if the reader came to it
outside comments. -/
theorem nesting_agrees {text : List Char} {word : Option String} {line : Int} {scan : Token.Scan}
    (scanned : Token.scan text word (some line) = .ok scan) {earlier later : List Token}
    {token : Token} (read : scan.tokens = earlier ++ token :: later) {name : String} {index : Nat}
    {filename : Option String}
    (fed : Draft.addTokens state { word := name, index, filename } earlier = (draft, none)) :
    ∃ front rest depth, text = front ++ (token.lexeme.toList ++ rest) ∧
      Token.GoesOn word line front earlier depth (token.lexeme.toList ++ rest) ∧
      draft.commentDepth = depth ∧
      (token.kind.label = "STRING_LITERAL" → depth = 0) ∧
      (token.lexeme = ".\"" →
        (depth = 0 ∧ ∃ literal, token.kind = .stringLiteral literal) ∨
          (depth ≠ 0 ∧ Draft.effect? state draft token = .ok (draft.commentEffect token))) ∧
      (token.lexeme = ")" → Draft.effect? state draft token =
        if depth = 0 then Draft.plainEffect? state draft token else .ok .closeComment) := by
  have result := scan_ok scanned
  obtain ⟨pieces, tokens, spelled⟩ := Token.spelled_of_scanFrom result [] rfl
  rw [tokens, List.nil_append, List.map_eq_append_iff] at read
  obtain ⟨before, behind, rfl, rfl, pieces⟩ := read
  obtain ⟨piece, after, rfl, rfl, rfl⟩ := List.map_eq_cons_iff.mp pieces
  obtain ⟨front, rest, whole, goesOn, written⟩ := spelled.goesOn word
  have depth : draft.commentDepth = Token.depthBehind 0 (before.map Token.Piece.token) :=
    commentDepth_addTokens fed
  rw [← depth] at goesOn written
  obtain ⟨string, mark, closing⟩ := written.nesting
  refine ⟨front, rest, draft.commentDepth, whole, goesOn, rfl, string, ?_, ?_⟩
  · intro lexeme
    refine (mark lexeme).imp_right fun inside => ⟨inside, ?_⟩
    exact if_pos (Nat.pos_of_ne_zero inside)
  · intro lexeme
    have kind := closing lexeme
    by_cases outside : draft.commentDepth = 0
    · simp [Draft.effect?, Draft.codeEffect?, kind, outside]
    · simp [Draft.effect?, Draft.commentEffect, kind, outside, Nat.pos_of_ne_zero outside]

/-- A parenthesis that closes nothing, and a comment inside a comment. -/
def nestedFront : List Token :=
  [⟨.commentClose, ")", some 1, some 1⟩, ⟨.commentOpen, "(", some 1, some 3⟩,
    ⟨.word, "a", some 1, some 5⟩, ⟨.commentOpen, "(", some 1, some 7⟩]

def nestedRest : List Token :=
  [⟨.word, "b", some 1, some 12⟩, ⟨.commentClose, ")", some 1, some 14⟩,
    ⟨.commentClose, ")", some 1, some 16⟩, ⟨.commentClose, ")", some 1, some 18⟩]

theorem nesting_agrees_sample :
    ∃ scan, Token.scan ") ( a ( .\" b ) ) )".toList none (some 1) = .ok scan ∧
      scan.tokens = nestedFront ++ ⟨.word, ".\"", some 1, some 9⟩ :: nestedRest ∧
      ∃ draft, Draft.addTokens sampleStart { word := "w", index := 1 } nestedFront = (draft, none) ∧
        draft.diagnostics.size = 1 ∧ draft.commentDepth = 2 ∧
        ∃ front rest, Token.GoesOn none 1 front nestedFront 2 rest := by
  have scanned : Token.scan ") ( a ( .\" b ) ) )".toList none (some 1) =
      .ok ⟨nestedFront ++ ⟨.word, ".\"", some 1, some 9⟩ :: nestedRest, 0, some 1⟩ := by
    decide +kernel
  obtain ⟨draft, fed, problems, depth⟩ : ∃ draft,
      Draft.addTokens sampleStart { word := "w", index := 1 } nestedFront = (draft, none) ∧
        draft.diagnostics.size = 1 ∧ draft.commentDepth = 2 :=
    ⟨_, Prod.ext rfl (by decide +kernel), by decide +kernel, by decide +kernel⟩
  obtain ⟨front, rest, _, -, goesOn, rfl, -⟩ := nesting_agrees scanned rfl fed
  rw [depth] at goesOn
  exact ⟨_, scanned, rfl, draft, fed, problems, depth, front, _, goesOn⟩

end Compiler

end ThreadedCode
