import ThreadedCode.Proofs.FailedDefinitions
import ThreadedCode.Proofs.Reading
import ThreadedCode.Proofs.References

/-!
# The words that definitions become

`Becomes` says what a definition leaves in the state when it becomes a word: its constant is
appended to those of the dictionary, and the references that name no word yet are pending. The
constant is the one that a comment names last, so comments that agree decide it from the first of
them on. Whatever fails in a run, its compiled words are those that its definitions have become.
-/

namespace ThreadedCode

open Compiler

/-! ### Constants named in comments -/

/-- The constant that a token names at a comment depth. -/
def Token.hintAt? (depth : Nat) (token : Token) : Option String :=
  if depth = 0 ∨ token.kind = .commentOpen ∨ token.kind = .commentClose then none else token.hint?

/-- The constants that the comments of a body name, which starts at a comment depth. -/
def Token.hints : Nat → List Token → List String
  | _, [] => []
  | depth, token :: rest =>
    (token.hintAt? depth).toList ++ hints (token.kind.depthAfter depth) rest

namespace Compiler

namespace Draft

variable {state : State} {draft : Draft} {token : Token} {effect : Effect}

theorem commentDepth_apply (found : effect? state draft token = .ok effect) :
    (draft.apply token effect).commentDepth = token.kind.depthAfter draft.commentDepth := by
  obtain ⟨start, cases⟩ | ⟨-, cases⟩ := effect?_ok found
  · rw [cases.depth start, start]
    cases token.kind <;> rfl
  · exact cases.depth

theorem CodeEffect.hint (cases : CodeEffect state draft token effect) :
    (draft.apply token effect).hint = draft.hint := by
  cases cases <;> simp [apply, emit_eq]

theorem CommentEffect.hint (cases : CommentEffect draft token effect)
    (inside : draft.commentDepth ≠ 0) :
    (draft.apply token effect).hint = (token.hintAt? draft.commentDepth).or draft.hint := by
  have outer (inner : token.kind ≠ .commentOpen ∧ token.kind ≠ .commentClose) :
      token.hintAt? draft.commentDepth = token.hint? :=
    if_neg fun
      | .inl outside => inside outside
      | .inr (.inl opens) => inner.1 opens
      | .inr (.inr closes) => inner.2 closes
  cases cases with
  | opening kind | closing kind => simp [Token.hintAt?, kind, apply]
  | naming inner named =>
    rw [outer inner, named]
    rfl
  | documenting inner unnamed | skipped inner unnamed =>
    rw [outer inner, unnamed]
    rfl

theorem hint_apply (found : effect? state draft token = .ok effect) :
    (draft.apply token effect).hint = (token.hintAt? draft.commentDepth).or draft.hint := by
  obtain ⟨start, cases⟩ | ⟨inside, cases⟩ := effect?_ok found
  · rw [cases.hint, Token.hintAt?, if_pos (.inl start), Option.none_or]
  · exact cases.hint (Nat.ne_of_gt inside)

end Draft

namespace Passes

variable {state : State} {draft final : Draft} {turns : List Turn}

/-- The constant that a comment names last counts. -/
theorem hint (passes : Passes state draft turns final) :
    final.hint =
      (Token.hints draft.commentDepth (turns.map Turn.token)).getLast?.or draft.hint := by
  induction passes with
  | nil draft => rfl
  | @cons draft final token effect turns found rest ih =>
    rw [ih, Draft.hint_apply found, Draft.commentDepth_apply found, List.map_cons, Token.hints,
      List.getLast?_append, Option.or_assoc]
    cases token.hintAt? draft.commentDepth <;> rfl

/-- If the comments name one constant only, it counts from the first of them on. -/
theorem hint_stays (passes : Passes state draft turns final)
    (agree : ∀ first ∈ draft.hint.toList ++
        Token.hints draft.commentDepth (turns.map Turn.token),
      ∀ second ∈ draft.hint.toList ++ Token.hints draft.commentDepth (turns.map Turn.token),
        first = second)
    {turn : Turn} (member : turn ∈ turns) {name : String}
    (hinted : turn.before.hint = some name) : final.hint = some name := by
  induction passes with
  | nil draft => simp at member
  | @cons draft final token effect turns found rest ih =>
    rcases List.mem_cons.mp member with rfl | later
    · have known : draft.hint = some name := hinted
      rw [(Passes.cons found rest).hint]
      cases last : (Token.hints draft.commentDepth
          ((Turn.mk token draft effect :: turns).map Turn.token)).getLast? with
      | none => rw [Option.none_or, known]
      | some other =>
        have same := agree name (by simp [known]) other
          (List.mem_append_right _ (List.mem_of_getLast? last))
        rw [Option.some_or, same]
    · refine ih ?_ later
      -- What the rest can name, with what is named so far, is among what the whole can name.
      have fewer : ∀ constant ∈ (draft.apply token effect).hint.toList ++
          Token.hints (draft.apply token effect).commentDepth (turns.map Turn.token),
          constant ∈ draft.hint.toList ++ Token.hints draft.commentDepth
            ((Turn.mk token draft effect :: turns).map Turn.token) := by
        intro constant listed
        rw [Draft.hint_apply found, Draft.commentDepth_apply found] at listed
        rw [List.map_cons, Token.hints]
        cases named : token.hintAt? draft.commentDepth with
        | none => simpa [named] using listed
        | some other =>
          simp only [named, Option.some_or, Option.toList_some] at listed ⊢
          exact List.mem_append_right _ listed
      intro first listed second listed'
      exact agree first (fewer first listed) second (fewer second listed')

end Passes

end Compiler

/-! ### The constants of a dictionary -/

namespace Compiler.State

variable {state later : State} {constant : String}

/-- The constants of the dictionary, native words first. -/
def constants (state : State) : List String :=
  state.symbols.toList.map Prod.snd

theorem length_constants (state : State) : state.constants.length = state.nextIndex := by
  simp [constants, size_symbols]

theorem places_constants (state : State) (constant : String) :
    places state.symbols (fun symbol => symbol.2 == constant) =
      {place | state.constants[place]? = some constant} := by
  ext place
  simp only [places, constants, Set.mem_ofPred_eq, Option.any_eq_true, beq_iff_eq,
    List.getElem?_map, Array.getElem?_toList, Option.map_eq_some_iff]

theorem resolve?_eq_none_iff :
    state.resolve? (some constant) = none ↔ constant ∉ state.constants := by
  rw [resolve?, Option.bind_some, findConstant?, search_eq_none_iff, places_constants,
    Set.eq_empty_iff_forall_notMem, List.mem_iff_getElem?, not_exists]
  rfl

theorem prefix_constants (setup : later.setup = state.setup)
    {spots : Nat → Nat → Prop} (kept : Keeps spots state later) :
    state.constants <+: later.constants := by
  have grown := symbols_prefix setup kept
  exact grown.map Prod.snd

theorem resolve?_isNone_of_grown (grown : state.constants <+: later.constants)
    {name : Option String} (absent : (later.resolve? name).isNone = true) :
    (state.resolve? name).isNone = true := by
  cases name with
  | none => rfl
  | some constant =>
    rw [Option.isNone_iff_eq_none, resolve?_eq_none_iff] at absent ⊢
    intro listed
    exact absent (grown.subset listed)

end Compiler.State

/-! ### The words of a run -/

/-- The tokens of the body of a definition, as far as it can be read. -/
def Source.Definition.tokens (definition : Source.Definition) : List Token :=
  (definition.line.bind (bodyTokens? definition.text)).getD []

/-- No two comments of a definition name different constants. -/
def Source.Definition.HintsAgree (definition : Source.Definition) : Prop :=
  ∀ first ∈ Token.hints 0 definition.tokens, ∀ second ∈ Token.hints 0 definition.tokens,
    first = second

instance (definition : Source.Definition) : Decidable definition.HintsAgree :=
  inferInstanceAs (Decidable (∀ first ∈ Token.hints 0 definition.tokens,
    ∀ second ∈ Token.hints 0 definition.tokens, first = second))

namespace Compiler

/-- A definition that has become a word of `after`: its tokens took their turns, it has appended its
constant, and those of its references that name no word yet are pending. -/
structure Becomes (state : State) (definition : Source.Definition) (after : State)
    (word : CompiledWord) (turns : List Turn) (draft : Draft) : Prop where
  read : turns.map Turn.token = definition.tokens
  yields : Yields state definition.text definition.line after word definition.tokens turns
  passes : Passes state (state.newDraft word.name) turns draft
  named : word.constant = draft.hint.getD word.name
  setup : after.setup = state.setup
  size : after.compiled.size = state.compiled.size + 1
  constants : after.constants = state.constants ++ [word.constant]
  pending : after.pending.toList = state.pending.toList ++
    (draft.references.toList.filter fun note => (after.resolve? note.name).isNone).map
      (State.pendingOf state.compiled.size)

theorem compile_becomes {state after : State} {definition : Source.Definition}
    {word : CompiledWord}
    (compiled : state.compile definition.text definition.line = (after, .ok (some word))) :
    ∃ turns draft, Becomes state definition after word turns draft := by
  obtain ⟨turns, draft, final, reports, yields, passes, -, named, -, references, rfl⟩ :=
    compile_trace compiled
  have filled := State.addDraft_filled (state.reporting reports) final
  obtain ⟨number, line, body⟩ := yields.body
  have read : turns.map Turn.token = definition.tokens := by
    simp [Source.Definition.tokens, line, body]
  obtain ⟨code, there, -⟩ := State.addDraft_word (state.reporting reports) final
  obtain rfl := Option.some.inj (yields.place.symm.trans there)
  refine ⟨turns, draft, read, read ▸ yields, yields.name ▸ passes, named, filled.setup,
    State.size_addDraft _ final, ?_, ?_⟩
  · rw [State.constants, filled.symbols]
    simp [State.constants, State.symbols, State.appending, State.reporting]
  · rw [filled.pending, State.resolve?_congr filled.setup filled.symbols, references]
    rfl

namespace Becomes

variable {state after final : State} {definition : Source.Definition} {word : CompiledWord}
  {turns : List Turn} {draft : Draft}

theorem mem_constants (becomes : Becomes state definition after word turns draft) :
    word.constant ∈ after.constants := by
  rw [becomes.constants]
  exact List.mem_append_right _ (List.mem_singleton_self _)

/-- A reference that is bound to the word being defined names the constant that the word has in the
end, if its comments agree. -/
theorem own_constant (becomes : Becomes state definition after word turns draft)
    (agree : definition.HintsAgree) {turn : Turn} (member : turn ∈ turns) {constant : String}
    (hinted : turn.before.hint = some constant) : word.constant = constant := by
  have kept : draft.hint = some constant := by
    refine becomes.passes.hint_stays ?_ member hinted
    rw [becomes.read]
    exact agree
  rw [becomes.named, kept]
  rfl

theorem reference_name (becomes : Becomes state definition after word turns draft) {turn : Turn}
    (member : turn ∈ turns) {name : Option String} (kind : turn.token.kind = .reference name) :
    ∃ constant, name = some constant := by
  obtain ⟨number, -, body⟩ := becomes.yields.body
  have listed : turn.token ∈ definition.tokens := by
    rw [← becomes.read]
    exact List.mem_map_of_mem member
  have read := (bodyTokens?_read body turn.token listed).1
  rw [kind] at read
  exact Option.isSome_iff_exists.mp read

end Becomes

namespace State

theorem attempt_frame (state : State) (definitions : List Source.Definition) :
    (state.attempt definitions).setup = state.setup ∧
      Keeps state.Awaits state (state.attempt definitions) :=
  run_frame state _

/-- The first of some definitions becomes a word, or it adds to the problems and nothing else; the
others are compiled after that. -/
theorem accepted_cases (state : State) (definition : Source.Definition) :
    (∃ after word turns draft,
      state.compile definition.text definition.line = (after, .ok (some word)) ∧
      Becomes state definition after word turns draft ∧
      ∀ rest, state.attempt (definition :: rest) = after.attempt rest ∧
        state.accepted (definition :: rest) =
          (definition, state.nextIndex, word) :: after.accepted rest) ∨
    ∃ reports, ∀ rest,
      state.attempt (definition :: rest) = (state.reporting reports).attempt rest ∧
        state.accepted (definition :: rest) = (state.reporting reports).accepted rest := by
  rcases compiled : state.compile definition.text definition.line with ⟨after, outcome⟩
  by_cases worded : ∃ word, outcome = .ok (some word)
  · obtain ⟨word, rfl⟩ := worded
    obtain ⟨turns, draft, becomes⟩ := compile_becomes compiled
    refine .inl ⟨after, word, turns, draft, rfl, becomes, fun rest => ⟨?_, ?_⟩⟩
    · rw [attempt_cons, compiled]
    · rw [accepted, compiled]
  · have wordless : ∀ word, outcome ≠ .ok (some word) := not_exists.mp worded
    obtain ⟨reports, rfl⟩ := compile_wordless compiled wordless
    refine .inr ⟨reports, fun rest => ⟨?_, ?_⟩⟩
    · rw [attempt_cons, compiled]
    · rw [accepted, compiled]
      split
      · rename_i word same
        exact absurd (Prod.mk.inj same).2 (wordless word)
      · rename_i same
        rw [(Prod.mk.inj same).1]

theorem length_accepted (state : State) (definitions : List Source.Definition) :
    (state.attempt definitions).compiled.size =
      state.compiled.size + (state.accepted definitions).length := by
  induction definitions generalizing state with
  | nil => rfl
  | cons definition rest ih =>
    obtain ⟨after, word, turns, draft, -, becomes, through⟩ | ⟨reports, through⟩ :=
      accepted_cases state definition
    · obtain ⟨attempted, accepted⟩ := through rest
      rw [attempted, accepted, ih, becomes.size, List.length_cons]
      omega
    · obtain ⟨attempted, accepted⟩ := through rest
      rw [attempted, accepted, ih]
      rfl

/-- The word at a place is that of a definition, which was compiled when the words before it were
there. -/
theorem accepted_getElem? {state : State} {definitions : List Source.Definition} {place index : Nat}
    {definition : Source.Definition} {word : CompiledWord}
    (there : (state.accepted definitions)[place]? = some (definition, index, word)) :
    ∃ earlier later after, definitions = earlier ++ definition :: later ∧
      (state.attempt earlier).compile definition.text definition.line = (after, .ok (some word)) ∧
      (state.attempt earlier).compiled.size = state.compiled.size + place := by
  induction definitions generalizing state place with
  | nil => simp [accepted] at there
  | cons first rest ih =>
    obtain ⟨after, word', turns, draft, compiled, becomes, through⟩ | ⟨reports, through⟩ :=
      accepted_cases state first
    · rw [(through rest).2] at there
      cases place with
      | zero =>
        obtain ⟨rfl, -, rfl⟩ : first = definition ∧ state.nextIndex = index ∧ word' = word := by
          simpa using there
        exact ⟨[], rest, after, rfl, compiled, rfl⟩
      | succ place =>
        obtain ⟨earlier, later, last, rfl, found, size⟩ := ih there
        refine ⟨first :: earlier, later, last, rfl, ?_, ?_⟩
        · rw [(through earlier).1, found]
        · rw [(through earlier).1, size, becomes.size]
          omega
    · rw [(through rest).2] at there
      obtain ⟨earlier, later, last, rfl, found, size⟩ := ih there
      refine ⟨first :: earlier, later, last, rfl, ?_, ?_⟩
      · rw [(through earlier).1, found]
      · rw [(through earlier).1, size]
        rfl

end State

end Compiler

end ThreadedCode
