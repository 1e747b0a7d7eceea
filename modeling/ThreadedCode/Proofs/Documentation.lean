import ThreadedCode.Proofs.AcceptedWords
import ThreadedCode.Proofs.SourceLines

/-!
# Docs and constants from comments

The comments of a definition do two things. Each token `'NAME` in them gives the word a constant, at
any depth and in any comment, and the last one counts. The other tokens make up the doc text, but
only those that stand directly in the first comment. `compile_commentary` reads both off the tokens
of the body and the depths at which they stand.
-/

namespace ThreadedCode

namespace Token

/-- Tokens, the first of which is at a comment depth, each with the depth in front of it. -/
def atDepths : Nat → List Token → List (Nat × Token)
  | _, [] => []
  | depth, token :: rest => (depth, token) :: atDepths (token.kind.depthAfter depth) rest

def isParenthesis (token : Token) : Bool :=
  token.kind = .commentOpen ∨ token.kind = .commentClose

/-- The tokens that stand in comments, at any depth, parentheses aside. -/
def commented (depth : Nat) (tokens : List Token) : List Token :=
  ((atDepths depth tokens).filter fun entry => entry.1 ≠ 0 ∧ ¬ entry.2.isParenthesis).map Prod.snd

/-- The tokens of the first comment with their depths: those behind the parenthesis that opens it,
up to the one that closes it or to the end of the body. -/
def firstComment (depth : Nat) (tokens : List Token) : List (Nat × Token) :=
  ((atDepths depth tokens).dropWhile fun entry => entry.1 = 0).takeWhile fun entry => entry.1 ≠ 0

/-- Whether a token at a depth of the first comment belongs to the doc text. -/
def isDocAt (depth : Nat) (token : Token) : Bool :=
  depth = 1 ∧ ¬ token.isParenthesis ∧ token.hint? = none

/-- The tokens of the doc text: those that stand directly in the first comment, except for
parentheses and the names of constants. -/
def docTokens (depth : Nat) (tokens : List Token) : List Token :=
  ((firstComment depth tokens).filter fun entry => entry.2.isDocAt entry.1).map Prod.snd

theorem mem_of_atDepths {depth : Nat} {tokens : List Token} {entry : Nat × Token}
    (member : entry ∈ atDepths depth tokens) : entry.2 ∈ tokens := by
  induction tokens generalizing depth with
  | nil => cases member
  | cons token rest ih =>
    rcases List.mem_cons.mp member with rfl | later
    · exact List.mem_cons_self
    · exact List.mem_cons_of_mem _ (ih later)

theorem mem_of_docTokens {depth : Nat} {tokens : List Token} {token : Token}
    (member : token ∈ docTokens depth tokens) : token ∈ tokens := by
  obtain ⟨entry, kept, rfl⟩ := List.mem_map.mp member
  have inside := (List.takeWhile_sublist _).mem (List.mem_filter.mp kept).1
  exact mem_of_atDepths ((List.dropWhile_sublist _).mem inside)

theorem hints_eq_commented (depth : Nat) (tokens : List Token) :
    hints depth tokens = (commented depth tokens).filterMap Token.hint? := by
  induction tokens generalizing depth with
  | nil => rfl
  | cons token rest ih =>
    have same : (depth ≠ 0 ∧ ¬ token.isParenthesis) ↔
        ¬ (depth = 0 ∨ token.kind = .commentOpen ∨ token.kind = .commentClose) := by
      simp [isParenthesis, not_or]
    rw [hints, ih, commented, commented, atDepths, List.filter_cons]
    by_cases inside : depth ≠ 0 ∧ ¬ token.isParenthesis
    · rw [if_pos (by simpa using inside), hintAt?, if_neg (same.mp inside), List.map_cons,
        List.filterMap_cons]
      cases token.hint? <;> rfl
    · rw [if_neg (by simpa using inside), hintAt?, if_pos (by tauto)]
      rfl

theorem firstComment_inside {depth : Nat} (inside : depth ≠ 0) (tokens : List Token) :
    firstComment depth tokens = (atDepths depth tokens).takeWhile fun entry => entry.1 ≠ 0 := by
  cases tokens with
  | nil => rfl
  | cons token rest =>
    rw [firstComment, atDepths, List.dropWhile_cons_of_neg (by simpa using inside)]

/-- Outside comments the first one is still to come, and a comment goes on until it is closed. -/
theorem firstComment_cons (depth : Nat) (token : Token) (rest : List Token) :
    firstComment depth (token :: rest) =
      if depth = 0 then firstComment (token.kind.depthAfter depth) rest
      else (depth, token) ::
        if token.kind.depthAfter depth = 0 then []
        else firstComment (token.kind.depthAfter depth) rest := by
  split
  · rename_i outside
    rw [firstComment, atDepths, List.dropWhile_cons_of_pos (by simpa using outside), firstComment]
  · rename_i inside
    rw [firstComment_inside inside, atDepths, List.takeWhile_cons_of_pos (by simpa using inside)]
    congr 1
    split
    · rename_i closed
      rw [closed]
      cases rest <;> rfl
    · rename_i stays
      rw [firstComment_inside stays]

theorem docTokens_cons (depth : Nat) (token : Token) (rest : List Token) :
    docTokens depth (token :: rest) =
      if depth = 0 then docTokens (token.kind.depthAfter depth) rest
      else (if token.isDocAt depth then [token] else []) ++
        if token.kind.depthAfter depth = 0 then []
        else docTokens (token.kind.depthAfter depth) rest := by
  rw [docTokens, firstComment_cons]
  split
  · rfl
  · rw [List.filter_cons]
    split <;> split <;> rfl

end Token

namespace Compiler

namespace Draft

variable {state : State} {draft : Draft} {token : Token} {effect : Effect}

/-- What a token adds to the doc text, and whether the first comment is over behind it. -/
structure Documents (draft : Draft) (token : Token) (next : Draft) : Prop where
  doc : next.doc.toList = draft.doc.toList ++
    if !draft.firstCommentDone && token.isDocAt draft.commentDepth then [token.lexeme] else []
  done : next.firstCommentDone = (draft.firstCommentDone ||
    (draft.commentDepth ≠ 0 && token.kind.depthAfter draft.commentDepth = 0))

theorem CodeEffect.documents (cases : CodeEffect state draft token effect)
    (outside : draft.commentDepth = 0) : Documents draft token (draft.apply token effect) := by
  constructor
  · have silent : token.isDocAt draft.commentDepth = false := by simp [Token.isDocAt, outside]
    cases cases <;> simp [apply, emit_eq, silent]
  · cases cases <;> simp [apply, emit_eq, outside]

theorem CommentEffect.documents (cases : CommentEffect draft token effect) :
    Documents draft token (draft.apply token effect) := by
  have plain (inner : token.kind ≠ .commentOpen ∧ token.kind ≠ .commentClose) :
      token.isParenthesis = false ∧
        token.kind.depthAfter draft.commentDepth = draft.commentDepth := by
    refine ⟨by simpa [Token.isParenthesis] using inner, ?_⟩
    unfold Token.Kind.depthAfter
    split <;> simp_all
  cases cases with
  | opening kind =>
    constructor <;> simp [apply, Token.isDocAt, Token.isParenthesis, Token.Kind.depthAfter, kind]
  | closing kind =>
    constructor
    · simp [apply, Token.isDocAt, Token.isParenthesis, kind]
    · have closed : (draft.commentDepth == 1) =
          (decide (draft.commentDepth ≠ 0) && decide (draft.commentDepth - 1 = 0)) := by
        rw [Bool.eq_iff_iff]
        simp only [beq_iff_eq, Bool.and_eq_true, decide_eq_true_eq]
        omega
      rw [kind, Token.Kind.depthAfter, ← closed]
      rfl
  | naming inner named =>
    constructor <;> simp [apply, Token.isDocAt, named, plain inner]
  | documenting inner unnamed first =>
    have outermost : draft.firstCommentDone = false ∧ draft.commentDepth = 1 := by
      simpa using first
    obtain ⟨inside, level⟩ := plain inner
    rw [outermost.2] at level
    constructor <;> simp [apply, Token.isDocAt, unnamed, inside, level, outermost]
  | skipped inner unnamed later =>
    constructor
    · simp_all [apply, Token.isDocAt]
    · simp [apply, plain inner]

theorem documents_apply (found : effect? state draft token = .ok effect) :
    Documents draft token (draft.apply token effect) := by
  obtain ⟨outside, cases⟩ | ⟨-, cases⟩ := effect?_ok found
  · exact cases.documents outside
  · exact cases.documents

end Draft

/-- The doc text is made of the tokens of the first comment, as long as it is not over. -/
theorem Passes.doc {state : State} {draft final : Draft} {turns : List Turn}
    (passes : Passes state draft turns final) :
    final.doc.toList = draft.doc.toList ++ if draft.firstCommentDone then [] else
      (Token.docTokens draft.commentDepth (turns.map Turn.token)).map Token.lexeme := by
  induction passes with
  | nil draft => simp [Token.docTokens, Token.firstComment, Token.atDepths]
  | @cons draft final token effect turns found rest ih =>
    obtain ⟨doc, done⟩ := Draft.documents_apply found
    rw [ih, doc, done, Draft.commentDepth_apply found, List.append_assoc, List.map_cons]
    congr 1
    cases finished : draft.firstCommentDone with
    | true => simp
    | false =>
      have alone : (if token.isDocAt draft.commentDepth then [token] else []).map Token.lexeme =
          if token.isDocAt draft.commentDepth then [token.lexeme] else [] := by
        split <;> rfl
      rw [Token.docTokens_cons]
      by_cases outside : draft.commentDepth = 0
      · simp [outside, Token.isDocAt]
      · by_cases closed : token.kind.depthAfter draft.commentDepth = 0 <;>
          simp [outside, closed, alone]

/-- A word is documented by what is left in the draft when all tokens of its body have passed. -/
theorem compile_doc {state after : State} {source : String} {line : Option Int}
    {word : CompiledWord} (compiled : state.compile source line = (after, .ok (some word))) :
    ∃ number turns draft, line = some number ∧
      bodyTokens? source number = some (turns.map Turn.token) ∧ word.name = definedName source ∧
      Passes state (state.newDraft word.name) turns draft ∧
      word.constant = draft.hint.getD word.name ∧ word.doc = draft.docText? := by
  obtain ⟨turns, draft, final, reports, yields, passes, -, named, added, -, rfl⟩ :=
    compile_trace compiled
  obtain ⟨number, start, body⟩ := yields.body
  refine ⟨number, turns, draft, start, body, yields.name, yields.name ▸ passes, named, ?_⟩
  obtain ⟨code, there, -⟩ := State.addDraft_word (state.reporting reports) final
  obtain rfl := Option.some.inj (yields.place.symm.trans there)
  obtain ⟨turns', middle, code', diagnostics, read, passes', left, -⟩ := Draft.addBody_none added
  obtain ⟨-, rfl⟩ := passes.unique passes' read
  show final.docText? = middle.docText?
  rw [left]
  rfl

/-- Without empty tokens, a doc text is empty only if there are no tokens. -/
theorem Draft.docText?_eq {draft : Draft} (present : ∀ text ∈ draft.doc.toList, text ≠ "") :
    draft.docText? = if draft.doc.toList = [] then none
      else some (" ".intercalate draft.doc.toList) := by
  have empty : " ".intercalate draft.doc.toList = "" ↔ draft.doc.toList = [] := by
    match draft.doc.toList, present with
    | [], _ => simp
    | [text], present => simpa using present
    | text :: next :: rest, _ => simp [String.intercalate_cons_cons]
  rw [docText?]
  simp only [empty]

/-- The constant of a word is the one that the last token of the form `'NAME` in a comment names, at
whatever depth it stands, or else the name of the word. Its doc text is made of the other tokens
that stand directly in the first comment; without any there is none. -/
theorem compile_commentary {state after : State} {source : String} {line : Option Int}
    {word : CompiledWord} (compiled : state.compile source line = (after, .ok (some word))) :
    ∃ number tokens, line = some number ∧ bodyTokens? source number = some tokens ∧
      word.name = definedName source ∧
      word.constant =
        ((Token.commented 0 tokens).filterMap Token.hint?).getLast?.getD word.name ∧
      word.doc = if Token.docTokens 0 tokens = [] then none
        else some (" ".intercalate ((Token.docTokens 0 tokens).map Token.lexeme)) := by
  obtain ⟨number, turns, draft, start, body, name, passes, named, documented⟩ :=
    compile_doc compiled
  refine ⟨number, _, start, body, name, ?_, ?_⟩
  · rw [named, passes.hint, ← Token.hints_eq_commented]
    exact congrArg (Option.getD · word.name) (Option.or_none ..)
  · have doc : draft.doc.toList =
        (Token.docTokens 0 (turns.map Turn.token)).map Token.lexeme := passes.doc
    have present : ∀ text ∈ draft.doc.toList, text ≠ "" := by
      intro text member empty
      rw [doc] at member
      obtain ⟨token, listed, rfl⟩ := List.mem_map.mp member
      obtain ⟨front, behind⟩ := tokenBehind_of_bodyTokens body (Token.mem_of_docTokens listed)
      exact behind.line.2.2.1 (by rw [empty]; rfl)
    rw [documented, Draft.docText?_eq present, doc]
    simp only [List.map_eq_nil_iff]

/-- A definition with a parenthesis that closes nothing, constants at two depths and in a later
comment, and a last comment that is left open. -/
def commentedText : String :=
  ": w ) ( a ( b 'IN ) 'OWN c ) ( d 'LAST ) ( e ;"

def commentedWord : CompiledWord where
  name := "w"
  constant := "LAST"
  flags := {}
  code := #[0, 0]
  doc := some "a c"

theorem compile_commentary_sample :
    ∃ after tokens, sampleStart.compile commentedText (some 1) = (after, .ok (some commentedWord)) ∧
      bodyTokens? commentedText 1 = some tokens ∧
      (Token.commented 0 tokens).filterMap Token.hint? = ["IN", "OWN", "LAST"] ∧
      (Token.docTokens 0 tokens).map Token.lexeme = ["a", "c"] ∧
      commentedWord.constant =
        ((Token.commented 0 tokens).filterMap Token.hint?).getLast?.getD commentedWord.name ∧
      commentedWord.doc = if Token.docTokens 0 tokens = [] then none
        else some (" ".intercalate ((Token.docTokens 0 tokens).map Token.lexeme)) := by
  have compiled : sampleStart.compile commentedText (some 1) =
      ((sampleStart.compile commentedText (some 1)).1, .ok (some commentedWord)) :=
    Prod.ext rfl (by decide +kernel)
  obtain ⟨number, tokens, start, body, -, constant, doc⟩ := compile_commentary compiled
  obtain rfl : 1 = number := Option.some.inj start
  have read : (bodyTokens? commentedText 1).map (fun tokens =>
      ((Token.commented 0 tokens).filterMap Token.hint?,
        (Token.docTokens 0 tokens).map Token.lexeme)) =
      some (["IN", "OWN", "LAST"], ["a", "c"]) := by decide +kernel
  rw [body] at read
  obtain ⟨hints, lexemes⟩ := Prod.mk.inj (Option.some.inj read)
  exact ⟨_, tokens, compiled, body, hints, lexemes, constant, doc⟩

end Compiler

end ThreadedCode
