import ThreadedCode.Compiler.Definition

/-!
# The turns of a body

The tokens of a definition take turns at its draft. `Passes` is the trace of a body that does not
fail: for each token the draft it found and the effect it had. What the draft is at the end is then
read off the turns: its code is the units of the tokens outside comments, one block after another,
and its notes stand at the positions of the blocks that are filled in later.
-/

namespace ThreadedCode

/-- The tokens that stand outside comments, in a body that starts at a comment depth. The
parentheses of a comment belong to it. -/
def Token.outside : Nat → List Token → List Token
  | _, [] => []
  | 0, token :: rest =>
    if token.kind = .commentOpen then outside 1 rest else token :: outside 0 rest
  | depth + 1, token :: rest => outside (token.kind.depthAfter (depth + 1)) rest

def Token.flagBits (token : Token) : Nat :=
  match token.kind with
  | .flag (some mask) => (Flags.ofMask mask).bits
  | _ => 0

namespace Compiler

/-! ### What an effect leaves in the draft -/

namespace Effect

/-- The units that an effect appends to the code. -/
def units : Effect → List Int
  | .emit block => block.values.map Code.toUnit
  | .useLabel _ | .awaitConstant _ => [0]
  | _ => []

/-- Whether the unit of an effect is filled in later. -/
def isOpen : Effect → Bool
  | .useLabel _ | .awaitConstant _ => true
  | _ => false

def flags : Effect → Flags
  | .setFlags flags => flags
  | _ => {}

theorem length_units_of_isOpen {effect : Effect} (pending : effect.isOpen = true) :
    effect.units = [0] := by
  cases effect <;> simp_all [isOpen, units]

end Effect

namespace Draft

theorem foldl_report (draft : Draft) (site : Site) (problems : List Problem) :
    problems.foldl (fun draft problem => draft.report site problem) draft =
      { draft with
        diagnostics := draft.diagnostics ++ (problems.map (Diagnostic.mk · site)).toArray } := by
  induction problems generalizing draft with
  | nil => simp
  | cons problem rest ih =>
    rw [List.foldl_cons, ih]
    simp [report]

theorem emit_eq (draft : Draft) (token : Token) (block : Block) :
    draft.emit token block =
      { draft with
        code := draft.code.emitAll block.values
        lastWord := block.lastWord
        diagnostics := draft.diagnostics ++
          (block.problems.map (Diagnostic.mk · (draft.site token))).toArray } :=
  foldl_report _ _ _

theorem units_apply (draft : Draft) (token : Token) (effect : Effect) :
    (draft.apply token effect).code.units = draft.code.units ++ effect.units.toArray := by
  cases effect with
  | emit block => simp [apply, emit_eq, Effect.units]
  | useLabel name => simp [apply, Effect.units, Code.Buffer.emitPlaceholder, Code.toUnit]
  | awaitConstant name => simp [apply, Effect.units, Code.Buffer.emitPlaceholder, Code.toUnit]
  | _ => simp [apply, Effect.units]

theorem flags_apply (draft : Draft) (token : Token) (effect : Effect) :
    (draft.apply token effect).flags = draft.flags.union effect.flags := by
  cases effect with
  | emit block => simp [apply, emit_eq, Effect.flags, Flags.union]
  | _ => simp [apply, Effect.flags, Flags.union]

theorem apply_fixed (draft : Draft) (token : Token) (effect : Effect) :
    (draft.apply token effect).word = draft.word ∧
      (draft.apply token effect).index = draft.index ∧
      (draft.apply token effect).filename = draft.filename := by
  cases effect with
  | emit block => simp [apply, emit_eq]
  | _ => simp [apply]

end Draft

/-! ### Turns -/

/-- A token whose turn has come: the draft it finds and the effect it has. -/
structure Turn where
  token : Token
  before : Draft
  effect : Effect

namespace Turn

def after (turn : Turn) : Draft :=
  turn.before.apply turn.token turn.effect

/-- The units that a turn appends to the code. -/
def units (turn : Turn) : List Int :=
  turn.after.code.units.toList.drop turn.before.code.offset

/-- Whether the token stands outside comments. -/
def inCode (turn : Turn) : Bool :=
  turn.before.commentDepth = 0 ∧ turn.token.kind ≠ .commentOpen

/-- Whether the single unit of a turn is filled in later: the token is the use of a label, or a
reference that at its turn names neither a word nor the word being defined. -/
def IsOpen (state : State) (turn : Turn) : Prop :=
  match turn.token.kind with
  | .labelUse _ => True
  | .reference name => name.bind state.findConstant? = none ∧ turn.before.hint ≠ name
  | _ => False

def labelNote? (turn : Turn) : Option Fixup :=
  match turn.effect with
  | .useLabel name => some (turn.before.fixup turn.token name)
  | _ => none

def referenceNote? (turn : Turn) : Option Fixup :=
  match turn.effect with
  | .awaitConstant name => some (turn.before.fixup turn.token name)
  | _ => none

theorem units_eq (turn : Turn) : turn.units = turn.effect.units := by
  simp [units, after, Draft.units_apply, Code.Buffer.offset]

end Turn

/-- The trace of a body: every token finds the draft that the one before has left. -/
inductive Passes (state : State) : Draft → List Turn → Draft → Prop where
  | nil (draft : Draft) : Passes state draft [] draft
  | cons {draft final : Draft} {token : Token} {effect : Effect} {turns : List Turn}
      (found : Draft.effect? state draft token = .ok effect)
      (rest : Passes state (draft.apply token effect) turns final) :
      Passes state draft (⟨token, draft, effect⟩ :: turns) final

def codeTurns (turns : List Turn) : List Turn :=
  turns.filter Turn.inCode

/-- A turn outside comments splits the whole body where it splits the part outside comments. -/
theorem codeTurns_split {turns earlier later : List Turn} {turn : Turn}
    (split : codeTurns turns = earlier ++ turn :: later) :
    ∃ front back, turns = front ++ turn :: back ∧ codeTurns front = earlier ∧
      codeTurns back = later ∧ turn.inCode = true := by
  obtain ⟨first, rest, rfl, before, behind⟩ := List.filter_eq_append_iff.mp split
  obtain ⟨comment, back, rfl, inside, outside, after⟩ := List.filter_eq_cons_iff.mp behind
  have skipped : comment.filter Turn.inCode = [] := List.filter_eq_nil_iff.mpr inside
  refine ⟨first ++ comment, back, by simp, ?_, after, outside⟩
  rw [codeTurns, List.filter_append, skipped, List.append_nil, before]

/-- Either some turn is the last that satisfies `p`, or none does. -/
theorem exists_last_turn (p : Turn → Prop) [DecidablePred p] (turns : List Turn) :
    (∃ earlier turn later, turns = earlier ++ turn :: later ∧ p turn ∧ ∀ other ∈ later, ¬ p other) ∨
      ∀ turn ∈ turns, ¬ p turn := by
  cases last : turns.reverse.find? fun turn => p turn with
  | none =>
    right
    intro turn member
    simpa using List.find?_eq_none.mp last turn (List.mem_reverse.mpr member)
  | some turn =>
    left
    obtain ⟨holds, later, earlier, whole, others⟩ := List.find?_eq_some_iff_append.mp last
    refine ⟨earlier.reverse, turn, later.reverse, ?_, of_decide_eq_true holds, ?_⟩
    · simpa using congrArg List.reverse whole
    · intro other member
      simpa using others other (List.mem_reverse.mp member)

theorem passes_of_addTokens {state : State} {draft final : Draft} {tokens : List Token}
    (added : Draft.addTokens state draft tokens = (final, none)) :
    ∃ turns : List Turn, turns.map Turn.token = tokens ∧ Passes state draft turns final := by
  induction tokens generalizing draft with
  | nil =>
    obtain ⟨rfl, -⟩ := Prod.mk.inj added
    exact ⟨[], rfl, .nil _⟩
  | cons token rest ih =>
    rw [Draft.addTokens] at added
    cases found : Draft.effect? state draft token with
    | error failure => simp [found] at added
    | ok effect =>
      rw [found] at added
      obtain ⟨turns, same, passes⟩ := ih added
      exact ⟨_ :: turns, by simp [same], .cons found passes⟩

theorem Passes.split {state : State} {draft final : Draft} {earlier later : List Turn} {turn : Turn}
    (passes : Passes state draft (earlier ++ turn :: later) final) :
    Passes state draft earlier turn.before ∧
      Draft.effect? state turn.before turn.token = .ok turn.effect ∧
      Passes state turn.after later final := by
  induction earlier generalizing draft with
  | nil =>
    cases passes with
    | cons found rest => exact ⟨.nil _, found, rest⟩
  | cons first earlier ih =>
    cases passes with
    | cons found rest =>
      obtain ⟨before, effect, after⟩ := ih rest
      exact ⟨.cons found before, effect, after⟩

theorem Passes.effect {state : State} {draft final : Draft} {turns : List Turn}
    (passes : Passes state draft turns final) {turn : Turn} (member : turn ∈ turns) :
    Draft.effect? state turn.before turn.token = .ok turn.effect := by
  obtain ⟨earlier, later, rfl⟩ := List.append_of_mem member
  exact passes.split.2.1

/-! ### What the effect of a token can be -/

/-- A token that is looked up as a word or an integer: a plain one, a closing parenthesis outside
comments or a variable that is not declared. -/
def IsPlain (state : State) (token : Token) : Prop :=
  token.kind = .word ∨ token.kind = .commentClose ∨
    ∃ name, token.kind = .variableRef name ∧ name.bind state.slots.find? = none

namespace Draft

theorem emitEffect?_ok {draft : Draft} {token : Token} {block : Block} {effect : Effect}
    (found : draft.emitEffect? token block = .ok effect) : effect = .emit block := by
  unfold emitEffect? at found
  split at found
  · exact (Except.ok.inj found).symm
  · cases found

/-- The effects that a token can have outside comments. -/
inductive CodeEffect (state : State) (draft : Draft) (token : Token) : Effect → Prop where
  | opening (kind : token.kind = .commentOpen) : CodeEffect state draft token .openComment
  | flag {mask : Int} (kind : token.kind = .flag (some mask)) :
      CodeEffect state draft token (.setFlags (.ofMask mask))
  | recurse (kind : token.kind = .recurse) :
      CodeEffect state draft token (.emit (.ofWord draft.index))
  | known {name : Option String} {index : Nat} (kind : token.kind = .reference name)
      (resolved : name.bind state.findConstant? = some index) :
      CodeEffect state draft token (.emit (.ofWord index))
  | own {name : Option String} (kind : token.kind = .reference name)
      (unresolved : name.bind state.findConstant? = none) (hinted : draft.hint = name) :
      CodeEffect state draft token (.emit (.ofWord draft.index))
  | waiting {name : Option String} (kind : token.kind = .reference name)
      (unresolved : name.bind state.findConstant? = none) (other : draft.hint ≠ name) :
      CodeEffect state draft token (.awaitConstant name)
  | slot {name : Option String} {slot : Nat} (kind : token.kind = .variableRef name)
      (declared : name.bind state.slots.find? = some slot) :
      CodeEffect state draft token (.emit (variableBlock state slot))
  | labelDef {name : Option String} (kind : token.kind = .labelDef name) :
      CodeEffect state draft token (.defineLabel name)
  | labelUse {name : Option String} (kind : token.kind = .labelUse name) :
      CodeEffect state draft token (.useLabel name)
  | string {text : String} {block : Block} (kind : token.kind = .stringLiteral text)
      (packed : stringBlock state (draft.site token) text = .ok block) :
      CodeEffect state draft token (.emit block)
  | plain {block : Block} (kind : IsPlain state token)
      (resolved : plainBlock state draft.lastWord token.lexeme = .ok block) :
      CodeEffect state draft token (.emit block)

theorem codeEffect_of_plain {state : State} {draft : Draft} {token : Token} {effect : Effect}
    (kind : IsPlain state token) (found : plainEffect? state draft token = .ok effect) :
    CodeEffect state draft token effect := by
  unfold plainEffect? at found
  split at found
  · cases found
  · rename_i block resolved
    obtain rfl := emitEffect?_ok found
    exact .plain kind resolved

theorem codeEffect?_ok {state : State} {draft : Draft} {token : Token} {effect : Effect}
    (found : codeEffect? state draft token = .ok effect) : CodeEffect state draft token effect := by
  unfold codeEffect? at found
  cases kind : token.kind with
  | commentOpen =>
    obtain rfl : .openComment = effect := by simpa [kind] using found
    exact .opening kind
  | flag mask =>
    cases mask with
    | none => simp [kind] at found
    | some mask =>
      obtain rfl : .setFlags (.ofMask mask) = effect := by simpa [kind] using found
      exact .flag kind
  | recurse =>
    obtain rfl : .emit (.ofWord draft.index) = effect := by simpa [kind] using found
    exact .recurse kind
  | reference name =>
    obtain rfl : referenceEffect state draft name = effect := by simpa [kind] using found
    unfold referenceEffect
    split
    · exact .known kind ‹_›
    · split
      · exact .own kind ‹_› ‹_›
      · exact .waiting kind ‹_› ‹_›
  | variableRef name =>
    simp only [kind] at found
    split at found
    · obtain rfl := emitEffect?_ok found
      exact .slot kind ‹_›
    · exact codeEffect_of_plain (.inr (.inr ⟨name, kind, ‹_›⟩)) found
  | labelDef name =>
    obtain rfl : .defineLabel name = effect := by simpa [kind] using found
    exact .labelDef kind
  | labelUse name =>
    obtain rfl : .useLabel name = effect := by simpa [kind] using found
    exact .labelUse kind
  | stringLiteral text =>
    simp only [kind] at found
    split at found
    · cases found
    · obtain rfl := emitEffect?_ok found
      exact .string kind ‹_›
  | word => exact codeEffect_of_plain (.inl kind) (by simpa [kind] using found)
  | commentClose => exact codeEffect_of_plain (.inr (.inl kind)) (by simpa [kind] using found)
  | stringIntro | unknown => simp [kind] at found

/-- The effects that a token can have inside a comment. -/
inductive CommentEffect (draft : Draft) (token : Token) : Effect → Prop where
  | opening (kind : token.kind = .commentOpen) : CommentEffect draft token .openComment
  | closing (kind : token.kind = .commentClose) : CommentEffect draft token .closeComment
  | naming {constant : String} (inner : token.kind ≠ .commentOpen ∧ token.kind ≠ .commentClose)
      (named : token.hint? = some constant) : CommentEffect draft token (.nameConstant constant)
  | documenting (inner : token.kind ≠ .commentOpen ∧ token.kind ≠ .commentClose)
      (unnamed : token.hint? = none)
      (first : (!draft.firstCommentDone && draft.commentDepth == 1) = true) :
      CommentEffect draft token (.document token.lexeme)
  | skipped (inner : token.kind ≠ .commentOpen ∧ token.kind ≠ .commentClose)
      (unnamed : token.hint? = none)
      (later : (!draft.firstCommentDone && draft.commentDepth == 1) = false) :
      CommentEffect draft token .nothing

theorem commentEffect_cases (draft : Draft) (token : Token) :
    CommentEffect draft token (draft.commentEffect token) := by
  unfold commentEffect
  split
  · exact .opening ‹_›
  · exact .closing ‹_›
  · rename_i opens closes
    split
    · exact .naming ⟨opens, closes⟩ ‹_›
    · split
      · exact .documenting ⟨opens, closes⟩ ‹_› ‹_›
      · exact .skipped ⟨opens, closes⟩ ‹_› (Bool.eq_false_iff.mpr ‹_›)

/-- The effect of a token that does not fail, by the place of the token. -/
theorem effect?_ok {state : State} {draft : Draft} {token : Token} {effect : Effect}
    (found : effect? state draft token = .ok effect) :
    (draft.commentDepth = 0 ∧ CodeEffect state draft token effect) ∨
      (0 < draft.commentDepth ∧ CommentEffect draft token effect) := by
  unfold effect? at found
  split at found
  · obtain rfl := Except.ok.inj found
    exact .inr ⟨‹_›, commentEffect_cases draft token⟩
  · exact .inl ⟨Nat.eq_zero_of_not_pos ‹_›, codeEffect?_ok found⟩

/-- Inside a comment the code, the notes and the flags stay as they are. -/
theorem CommentEffect.silent {draft : Draft} {token : Token} {effect : Effect}
    (cases : CommentEffect draft token effect) :
    effect.units = [] ∧ effect.isOpen = false ∧ effect.flags = {} := by
  cases cases <;> exact ⟨rfl, rfl, rfl⟩

theorem CodeEffect.depth {state : State} {draft : Draft} {token : Token} {effect : Effect}
    (cases : CodeEffect state draft token effect) (start : draft.commentDepth = 0) :
    (draft.apply token effect).commentDepth = if token.kind = .commentOpen then 1 else 0 := by
  cases cases with
  | plain kind resolved =>
    obtain kind | kind | ⟨name, kind, -⟩ := kind <;> simp [apply, emit_eq, start, kind]
  | _ => simp_all [apply, emit_eq]

theorem CodeEffect.isOpen_iff {state : State} {draft : Draft} {token : Token} {effect : Effect}
    (cases : CodeEffect state draft token effect) :
    Turn.IsOpen state ⟨token, draft, effect⟩ ↔ effect.isOpen = true := by
  unfold Turn.IsOpen
  cases cases with
  | plain kind resolved =>
    obtain kind | kind | ⟨name, kind, -⟩ := kind <;> simp [kind, Effect.isOpen]
  | _ => simp_all [Effect.isOpen]

theorem CodeEffect.awaits {state : State} {draft : Draft} {token : Token} {effect : Effect}
    {name : Option String} (cases : CodeEffect state draft token effect)
    (kind : token.kind = .reference name) (pending : Turn.IsOpen state ⟨token, draft, effect⟩) :
    effect = .awaitConstant name := by
  have filled := cases.isOpen_iff.mp pending
  cases cases with
  | waiting other => rw [Token.Kind.reference.inj (other.symm.trans kind)]
  | labelUse other => simp [kind] at other
  | _ => simp [Effect.isOpen] at filled

theorem CodeEffect.flags {state : State} {draft : Draft} {token : Token} {effect : Effect}
    (cases : CodeEffect state draft token effect) : effect.flags.bits = token.flagBits := by
  unfold Token.flagBits
  cases cases with
  | plain kind resolved =>
    obtain kind | kind | ⟨name, kind, -⟩ := kind <;> simp [kind, Effect.flags]
  | _ => simp_all [Effect.flags]

theorem CommentEffect.depth {draft : Draft} {token : Token} {effect : Effect}
    (cases : CommentEffect draft token effect) :
    (draft.apply token effect).commentDepth = token.kind.depthAfter draft.commentDepth := by
  cases cases with
  | opening kind | closing kind => rw [kind]; rfl
  | naming inner | documenting inner | skipped inner =>
    unfold Token.Kind.depthAfter
    split <;> first | rfl | simp_all

end Draft

namespace Turn

variable {state : State}

theorem codeEffect (turn : Turn)
    (found : Draft.effect? state turn.before turn.token = .ok turn.effect)
    (outside : turn.inCode = true) :
    Draft.CodeEffect state turn.before turn.token turn.effect := by
  obtain ⟨start, -⟩ := of_decide_eq_true outside
  unfold Draft.effect? at found
  rw [if_neg (by omega)] at found
  exact Draft.codeEffect?_ok found

theorem commentEffect (turn : Turn)
    (found : Draft.effect? state turn.before turn.token = .ok turn.effect)
    (inside : turn.inCode = false) :
    turn.effect = .openComment ∨ Draft.CommentEffect turn.before turn.token turn.effect := by
  rcases Draft.effect?_ok found with ⟨start, cases⟩ | ⟨-, cases⟩
  · have opening : turn.token.kind = .commentOpen := by
      simpa [inCode, start] using inside
    have same : .openComment = turn.effect := by
      simpa [Draft.effect?, Draft.codeEffect?, start, opening] using found
    exact .inl same.symm
  · exact .inr cases

/-- Comments emit nothing, set no flag and leave no note. -/
theorem silent (turn : Turn)
    (found : Draft.effect? state turn.before turn.token = .ok turn.effect)
    (inside : turn.inCode = false) :
    turn.units = [] ∧ turn.effect.isOpen = false ∧ turn.effect.flags = {} := by
  rw [units_eq]
  rcases turn.commentEffect found inside with same | cases
  · rw [same]
    exact ⟨rfl, rfl, rfl⟩
  · exact cases.silent

theorem isOpen_iff (turn : Turn)
    (found : Draft.effect? state turn.before turn.token = .ok turn.effect)
    (outside : turn.inCode = true) : turn.IsOpen state ↔ turn.effect.isOpen = true :=
  (turn.codeEffect found outside).isOpen_iff

theorem inCode_of_isOpen (turn : Turn)
    (found : Draft.effect? state turn.before turn.token = .ok turn.effect)
    (pending : turn.effect.isOpen = true) : turn.inCode = true := by
  cases outside : turn.inCode with
  | true => rfl
  | false =>
    have silent := (turn.silent found outside).2.1
    rw [pending] at silent
    cases silent

end Turn

/-! ### What a trace leaves behind -/

namespace Passes

variable {state : State} {draft final : Draft} {turns : List Turn}

/-- The turns outside comments are those of the tokens outside comments. -/
theorem outside (passes : Passes state draft turns final) :
    (codeTurns turns).map Turn.token =
      Token.outside draft.commentDepth (turns.map Turn.token) := by
  induction passes with
  | nil draft => simp [codeTurns, Token.outside]
  | @cons draft final token effect turns found rest ih =>
    simp only [codeTurns, List.map_cons] at ih ⊢
    cases depth : draft.commentDepth with
    | zero =>
      have cases := Draft.codeEffect?_ok (by simpa [Draft.effect?, depth] using found)
      rw [cases.depth depth] at ih
      by_cases opening : token.kind = .commentOpen
      · rw [if_pos opening] at ih
        simpa [Turn.inCode, depth, opening, Token.outside] using ih
      · rw [if_neg opening] at ih
        simpa [Turn.inCode, depth, opening, Token.outside] using ih
    | succ depth' =>
      obtain ⟨outside, -⟩ | ⟨-, cases⟩ := Draft.effect?_ok found
      · omega
      rw [cases.depth, depth] at ih
      simpa [Turn.inCode, depth, Token.outside] using ih

/-- The code grows by the units of the turns outside comments, in order. -/
theorem code (passes : Passes state draft turns final) :
    final.code.units.toList =
      draft.code.units.toList ++ (codeTurns turns).flatMap Turn.units := by
  induction passes with
  | nil draft => simp [codeTurns]
  | @cons draft final token effect turns found rest ih =>
    rw [ih, Draft.units_apply]
    cases outside : Turn.inCode ⟨token, draft, effect⟩ with
    | true => simp [codeTurns, outside, Turn.units_eq]
    | false =>
      have silent := (Turn.silent ⟨token, draft, effect⟩ found outside).1
      rw [Turn.units_eq] at silent
      simp [codeTurns, outside, silent]

theorem flags (passes : Passes state draft turns final) :
    final.flags.bits =
      ((codeTurns turns).map Turn.token).foldl (fun bits token => bits ||| token.flagBits)
        draft.flags.bits := by
  induction passes with
  | nil draft => simp [codeTurns]
  | @cons draft final token effect turns found rest ih =>
    rw [ih, Draft.flags_apply]
    cases outside : Turn.inCode ⟨token, draft, effect⟩ with
    | true =>
      have own := (Turn.codeEffect ⟨token, draft, effect⟩ found outside).flags
      simp [codeTurns, outside, Flags.union, own]
    | false =>
      have silent := (Turn.silent ⟨token, draft, effect⟩ found outside).2.2
      simp [codeTurns, outside, Flags.union, silent]

theorem labelUses (passes : Passes state draft turns final) :
    final.labelUses.toList = draft.labelUses.toList ++ turns.filterMap Turn.labelNote? := by
  induction passes with
  | nil draft => simp
  | @cons draft final token effect turns found rest ih =>
    rw [ih]
    cases effect <;> simp [Draft.apply, Draft.emit_eq, List.filterMap_cons, Turn.labelNote?]

theorem references (passes : Passes state draft turns final) :
    final.references.toList = draft.references.toList ++ turns.filterMap Turn.referenceNote? := by
  induction passes with
  | nil draft => simp
  | @cons draft final token effect turns found rest ih =>
    rw [ih]
    cases effect <;> simp [Draft.apply, Draft.emit_eq, List.filterMap_cons, Turn.referenceNote?]

/-- The notes for references are those of the turns at which a reference names no word yet. -/
theorem mem_references_iff (passes : Passes state draft turns final) (fresh : draft.references = #[])
    {note : Fixup} : note ∈ final.references.toList ↔
      ∃ turn ∈ codeTurns turns, ∃ name, turn.token.kind = .reference name ∧ turn.IsOpen state ∧
        note = turn.before.fixup turn.token name := by
  rw [passes.references, fresh, List.nil_append, List.mem_filterMap]
  constructor
  · rintro ⟨turn, member, left⟩
    have found := passes.effect member
    unfold Turn.referenceNote? at left
    split at left
    · rename_i name effect
      obtain rfl := Option.some.inj left
      have outside := turn.inCode_of_isOpen found (by simp [effect, Effect.isOpen])
      have cases := turn.codeEffect found outside
      have pending := cases.isOpen_iff.mpr (by simp [effect, Effect.isOpen])
      rw [effect] at cases
      cases cases with
      | waiting kind => exact ⟨turn, List.mem_filter.mpr ⟨member, outside⟩, name, kind, pending, rfl⟩
    · cases left
  · rintro ⟨turn, member, name, kind, pending, rfl⟩
    obtain ⟨inside, outside⟩ := List.mem_filter.mp member
    have awaits := (turn.codeEffect (passes.effect inside) outside).awaits kind pending
    exact ⟨turn, inside, by simp [Turn.referenceNote?, awaits]⟩

theorem fixed (passes : Passes state draft turns final) :
    final.word = draft.word ∧ final.index = draft.index ∧ final.filename = draft.filename := by
  induction passes with
  | nil draft => exact ⟨rfl, rfl, rfl⟩
  | @cons draft final token effect turns found rest ih =>
    obtain ⟨word, index, filename⟩ := Draft.apply_fixed draft token effect
    exact ⟨ih.1.trans word, ih.2.1.trans index, ih.2.2.trans filename⟩

end Passes

/-- What every token and every label keeps, a whole body keeps, wherever it fails. -/
theorem Draft.addBody_invariant {P : Draft → Prop} (state : State)
    (token : ∀ {draft token effect}, P draft → effect? state draft token = .ok effect →
      P (draft.apply token effect))
    (label : ∀ {draft next : Draft} {note}, P draft → draft.patchLabel note = .ok next → P next)
    {draft : Draft} (start : P draft) (tokens : List Token) :
    P (addBody state draft tokens).1 := by
  have passed : P (addTokens state draft tokens).1 := by
    induction tokens generalizing draft with
    | nil => exact start
    | cons first rest ih =>
      rw [addTokens]
      split
      · exact start
      · rename_i effect found
        exact ih (token start found)
  have patched : ∀ (notes : List Fixup) {draft : Draft}, P draft → P (draft.patchLabels notes).1 := by
    intro notes
    induction notes with
    | nil => exact id
    | cons note rest ih =>
      intro draft start
      rw [patchLabels]
      split
      · exact start
      · rename_i next filled
        exact ih (label start filled)
  unfold addBody
  split
  · rename_i failed
    rwa [failed] at passed
  · rename_i middle added
    rw [added] at passed
    exact patched _ passed

end Compiler

end ThreadedCode
