import ThreadedCode.Proofs.Session

/-!
# The layout of compiled code

The code of a word is its flags followed by one block of units per token outside comments. Labels
are filled in when the body ends, references when the word is appended or later in the session, and
`compile_layout` shows that none of the three ever touches a unit other than the single one of a
label's use or of a reference that had to wait.
-/

namespace ThreadedCode.Compiler

/-! ### The number of units of a token -/

def PlainSize (state : State) (lexeme : String) (count : Nat) : Prop :=
  match state.findWord? lexeme, Text.parseInt32 lexeme.toList with
  | none, .ok (some _) => count = 1 ∨ count = 2
  | _, _ => count = 1

/-- The number of units of a token outside comments. -/
def TokenSize (state : State) (token : Token) (count : Nat) : Prop :=
  match token.kind with
  | .flag _ | .labelDef _ => count = 0
  | .labelUse _ | .reference _ | .recurse => count = 1
  | .variableRef name =>
    match name.bind state.slots.find? with
    | some slot => count = if slot ≤ 1 then 2 else 3
    | none => PlainSize state token.lexeme count
  | .stringLiteral text =>
    ∃ bytes, state.encode text = some bytes ∧
      (count : Int) = 1 + Code.packedLength bytes.length
  | .word | .commentClose => PlainSize state token.lexeme count
  | .commentOpen | .stringIntro | .unknown => False

theorem length_pairBytes (bytes : List UInt8) :
    (Code.pairBytes bytes).length = (bytes.length + 1) / 2 := by
  fun_induction Code.pairBytes bytes with
  | case1 => rfl
  | case2 high => simp
  | case3 high low rest ih =>
    simp only [List.length_cons, ih]
    omega

theorem length_pack {bytes : List UInt8} {units : List Int} (packed : Code.pack bytes = .ok units) :
    (units.length : Int) = Code.packedLength bytes.length := by
  unfold Code.pack at packed
  split at packed
  · cases packed
  · obtain rfl := Except.ok.inj packed
    rw [length_pairBytes, Code.packedLength, List.length_cons]
    omega

theorem length_ofBootstrap (index : Option Int) (name : Option String) :
    (Block.ofBootstrap index name).values.length = 1 := by
  cases index <;> rfl

theorem length_variableBlock (state : State) (slot : Nat) :
    (variableBlock state slot).values.length = if slot ≤ 1 then 2 else 3 := by
  match slot with
  | 0 | 1 => simp [variableBlock, Block.append, length_ofBootstrap]
  | slot + 2 => simp [variableBlock, Block.append, Block.ofValue, length_ofBootstrap]

theorem length_stringBlock {state : State} {site : Site} {text : String} {block : Block}
    (packed : stringBlock state site text = .ok block) :
    ∃ bytes, state.encode text = some bytes ∧
      (block.values.length : Int) = 1 + Code.packedLength bytes.length := by
  unfold stringBlock at packed
  split at packed
  · cases packed
  · rename_i bytes encoded
    split at packed
    · cases packed
    · rename_i units fits
      obtain rfl := Except.ok.inj packed
      refine ⟨bytes, encoded, ?_⟩
      have size := length_pack fits
      simp only [Block.append, List.length_append, length_ofBootstrap]
      omega

theorem plainSize_plainBlock {state : State} {lastWord : Option Int} {lexeme : String}
    {block : Block} (resolved : plainBlock state lastWord lexeme = .ok block) :
    PlainSize state lexeme block.values.length := by
  unfold plainBlock at resolved
  unfold PlainSize
  split at resolved
  · rename_i index found
    obtain rfl := Except.ok.inj resolved
    simp [found, Block.ofWord]
  · rename_i absent
    split at resolved
    · cases resolved
    · rename_i unread
      obtain rfl := Except.ok.inj resolved
      simp [absent, unread]
    · rename_i value read
      simp only [absent, read]
      split at resolved
      · obtain rfl := Except.ok.inj resolved
        exact .inr rfl
      · obtain rfl := Except.ok.inj resolved
        exact .inl rfl

theorem tokenSize_of_codeEffect {state : State} {draft : Draft} {token : Token} {effect : Effect}
    (cases : Draft.CodeEffect state draft token effect) (other : token.kind ≠ .commentOpen) :
    TokenSize state token effect.units.length := by
  unfold TokenSize
  cases cases with
  | opening kind => exact absurd kind other
  | slot kind declared =>
    simp only [kind, declared, Effect.units, List.length_map]
    exact length_variableBlock state _
  | string kind packed =>
    simp only [kind, Effect.units, List.length_map]
    exact length_stringBlock packed
  | plain kind resolved =>
    have size := plainSize_plainBlock resolved
    obtain kind | kind | ⟨name, kind, undeclared⟩ := kind
    · simpa [kind, Effect.units] using size
    · simpa [kind, Effect.units] using size
    · simpa [kind, undeclared, Effect.units] using size
  | recurse kind | known kind | own kind | waiting kind | labelUse kind =>
    simp [kind, Effect.units, Block.ofWord]
  | flag kind | labelDef kind => simp [kind, Effect.units]

/-! ### Blocks -/

/-- The units of some turns, one block after another. A block is what the token emitted at its turn,
unless its unit is filled in later: then only its length is fixed. -/
inductive Fills (state : State) : List Turn → List Int → Prop where
  | nil : Fills state [] []
  | cons {turn : Turn} {turns : List Turn} {block body : List Int}
      (size : block.length = turn.units.length)
      (kept : ¬ turn.IsOpen state → block = turn.units) (rest : Fills state turns body) :
      Fills state (turn :: turns) (block ++ body)

/-- The positions, in the units of some turns, of the blocks that are filled in later. -/
def OpenAt (state : State) : List Turn → Nat → Prop
  | [], _ => False
  | turn :: turns, position =>
    (turn.IsOpen state ∧ position < turn.units.length) ∨
      (turn.units.length ≤ position ∧ OpenAt state turns (position - turn.units.length))

theorem fills_emitted (state : State) (turns : List Turn) :
    Fills state turns (turns.flatMap Turn.units) := by
  induction turns with
  | nil => exact .nil
  | cons turn turns ih => exact .cons rfl (fun _ => rfl) ih

/-- Units that agree with a layout outside its open positions have the same layout. -/
theorem Fills.of_agree {state : State} {turns : List Turn} {body other : List Int}
    (filled : Fills state turns body) (size : other.length = body.length)
    (agree : ∀ position, ¬ OpenAt state turns position → other[position]? = body[position]?) :
    Fills state turns other := by
  induction filled generalizing other with
  | nil =>
    rw [List.length_nil, List.length_eq_zero_iff] at size
    subst size
    exact .nil
  | @cons turn turns block body blockSize kept rest ih =>
    -- `other` is cut where the first block ends; both halves agree with their parts of the layout.
    rw [List.length_append] at size
    have front : (other.take block.length).length = block.length := by
      rw [List.length_take]
      omega
    rw [← List.take_append_drop block.length other]
    refine .cons (front.trans blockSize) (fun closed => ?_) (ih ?_ ?_)
    · rw [← kept closed]
      apply List.ext_getElem?
      intro position
      by_cases inside : position < block.length
      · have same := agree position fun hit => by
          rcases hit with ⟨pending, -⟩ | ⟨beyond, -⟩
          · exact closed pending
          · omega
        rw [List.getElem?_take_of_lt inside, same, List.getElem?_append_left inside]
      · rw [List.getElem?_eq_none (by omega), List.getElem?_eq_none (by omega)]
    · rw [List.length_drop]
      omega
    · intro position closed
      have same := agree (block.length + position) fun hit => by
        rcases hit with ⟨-, before⟩ | ⟨-, hit⟩
        · omega
        · rw [blockSize, Nat.add_sub_cancel_left] at hit
          exact closed hit
      rw [List.getElem?_drop, same, List.getElem?_append_right (by omega), Nat.add_sub_cancel_left]

theorem openAt_append {state : State} {turn : Turn} (earlier later : List Turn)
    (pending : turn.IsOpen state) (emits : 0 < turn.units.length) :
    OpenAt state (earlier ++ turn :: later) (earlier.flatMap Turn.units).length := by
  induction earlier with
  | nil => exact .inl ⟨pending, emits⟩
  | cons first earlier ih =>
    refine .inr ⟨by simp, ?_⟩
    simpa using ih

theorem Passes.offset {state : State} {draft final : Draft} {earlier later : List Turn}
    {turn : Turn} (passes : Passes state draft (earlier ++ turn :: later) final)
    (fresh : draft.code.units = #[]) :
    turn.before.code.offset = ((codeTurns earlier).flatMap Turn.units).length := by
  have code := congrArg List.length passes.split.1.code
  simpa [fresh, Code.Buffer.offset] using code

theorem Passes.openAt {state : State} {draft final : Draft} {turns : List Turn} {turn : Turn}
    (passes : Passes state draft turns final) (fresh : draft.code.units = #[])
    (member : turn ∈ turns) (pending : turn.effect.isOpen = true) :
    OpenAt state (codeTurns turns) turn.before.code.offset := by
  obtain ⟨earlier, later, rfl⟩ := List.append_of_mem member
  obtain ⟨-, found, -⟩ := passes.split
  have outside := turn.inCode_of_isOpen found pending
  have units : turn.units = [0] := by
    rw [turn.units_eq, Effect.length_units_of_isOpen pending]
  rw [passes.offset fresh, codeTurns, List.filter_append, List.filter_cons_of_pos outside]
  exact openAt_append _ _ ((turn.isOpen_iff found outside).mpr pending) (by simp [units])

/-! ### Labels -/

namespace Draft

theorem patchLabel_ok {draft next : Draft} {note : Fixup} (patched : draft.patchLabel note = .ok next) :
    ∃ offset diagnostics, next =
      { draft with code := draft.code.put note.position offset, diagnostics := diagnostics } := by
  unfold patchLabel at patched
  dsimp only at patched
  split at patched
  · split at patched
    · exact ⟨_, _, (Except.ok.inj patched).symm⟩
    · cases patched
  · exact ⟨_, _, (Except.ok.inj patched).symm⟩

/-- Filling in labels overwrites units at the given notes and nothing else of the word. -/
theorem patchLabels_none {draft final : Draft} {notes : List Fixup}
    (patched : draft.patchLabels notes = (final, none)) :
    ∃ code diagnostics, final = { draft with code := code, diagnostics := diagnostics } ∧
      code.units.size = draft.code.units.size ∧
      ∀ position, (∀ note ∈ notes, note.position ≠ position) →
        code.units[position]? = draft.code.units[position]? := by
  induction notes generalizing draft with
  | nil =>
    obtain ⟨rfl, -⟩ := Prod.mk.inj patched
    exact ⟨_, _, rfl, rfl, fun _ _ => rfl⟩
  | cons note notes ih =>
    rw [patchLabels] at patched
    cases step : draft.patchLabel note with
    | error limit => simp [step] at patched
    | ok next =>
      rw [step] at patched
      obtain ⟨code, diagnostics, rfl, size, agree⟩ := ih patched
      obtain ⟨offset, reports, rfl⟩ := patchLabel_ok step
      refine ⟨code, diagnostics, rfl, by simpa using size, fun position outside => ?_⟩
      rw [agree position fun other member => outside other (List.mem_cons_of_mem _ member)]
      exact Array.getElem?_setIfInBounds_ne (outside note List.mem_cons_self)

/-- A body that is added in full has a trace, after which its labels are filled in. -/
theorem addBody_passes {state : State} {draft final : Draft} {tokens : List Token}
    (added : addBody state draft tokens = (final, none)) :
    ∃ turns middle, turns.map Turn.token = tokens ∧ Passes state draft turns middle ∧
      middle.patchLabels middle.labelUses.toList = (final, none) := by
  unfold addBody at added
  split at added
  · simp at added
  · rename_i middle passed
    obtain ⟨turns, read, passes⟩ := passes_of_addTokens passed
    exact ⟨turns, middle, read, passes, added⟩

/-- After the trace of a body only uses of labels are filled in. -/
theorem addBody_none {state : State} {draft final : Draft} {tokens : List Token}
    (added : addBody state draft tokens = (final, none)) :
    ∃ turns middle code diagnostics, turns.map Turn.token = tokens ∧
      Passes state draft turns middle ∧
      final = { middle with code := code, diagnostics := diagnostics } ∧
      code.units.size = middle.code.units.size ∧
      ∀ position, (∀ note ∈ middle.labelUses.toList, note.position ≠ position) →
        code.units[position]? = middle.code.units[position]? := by
  obtain ⟨turns, middle, read, passes, patched⟩ := addBody_passes added
  obtain ⟨code, diagnostics, same, size, agree⟩ := patchLabels_none patched
  exact ⟨turns, middle, code, diagnostics, read, passes, same, size, agree⟩

end Draft

/-! ### The whole word -/

/-- Code that has the flags in front and then the blocks of the turns outside comments. -/
def LaidOut (state : State) (turns : List Turn) (flags : Flags) (code : Array Int) : Prop :=
  ∃ body, code.toList = (flags.bits : Int) :: body ∧ Fills state (codeTurns turns) body

theorem LaidOut.of_agree {state : State} {turns : List Turn} {flags : Flags} {code other : Array Int}
    (laid : LaidOut state turns flags code) (size : other.size = code.size)
    (agree : ∀ position, (∀ spot, position = spot + 1 → ¬ OpenAt state (codeTurns turns) spot) →
      other[position]? = code[position]?) : LaidOut state turns flags other := by
  obtain ⟨body, units, filled⟩ := laid
  have first : other[0]? = some (flags.bits : Int) := by
    rw [agree 0 (by omega), ← Array.getElem?_toList, units, List.getElem?_cons_zero]
  have front : ∃ rest, other.toList = (flags.bits : Int) :: rest := by
    rw [← Array.getElem?_toList] at first
    cases list : other.toList with
    | nil => simp [list] at first
    | cons unit rest =>
      rw [list, List.getElem?_cons_zero] at first
      exact ⟨rest, by rw [Option.some.inj first]⟩
  obtain ⟨rest, front⟩ := front
  refine ⟨rest, front, filled.of_agree ?_ fun position closed => ?_⟩
  · have lengths := congrArg List.length front
    have total := congrArg List.length units
    simp only [Array.length_toList, List.length_cons] at lengths total
    omega
  · have same := agree (position + 1) fun spot here => by
      obtain rfl : position = spot := by omega
      exact closed
    rwa [← Array.getElem?_toList, ← Array.getElem?_toList, units, front, List.getElem?_cons_succ,
      List.getElem?_cons_succ] at same

def Turn.unitsIn (turn : Turn) (code : Array Int) : List Int :=
  (code.toList.drop (turn.before.code.offset + 1)).take turn.units.length

theorem Fills.block {state : State} {earlier later : List Turn} {turn : Turn} {body : List Int}
    (filled : Fills state (earlier ++ turn :: later) body) (closed : ¬ turn.IsOpen state) :
    (body.drop (earlier.flatMap Turn.units).length).take turn.units.length = turn.units := by
  induction earlier generalizing body with
  | nil =>
    cases filled with
    | cons size kept rest => simp [kept closed]
  | cons first earlier ih =>
    cases filled with
    | @cons _ _ block body size kept rest =>
      rw [List.flatMap_cons, List.length_append, ← size, List.drop_append,
        List.drop_eq_nil_of_le (by omega), List.nil_append, Nat.add_sub_cancel_left]
      exact ih rest

theorem LaidOut.unitsIn {state : State} {draft final : Draft} {turns : List Turn} {flags : Flags}
    {code : Array Int} {turn : Turn} (laid : LaidOut state turns flags code)
    (passes : Passes state draft turns final) (fresh : draft.code.units = #[])
    (member : turn ∈ codeTurns turns) (closed : ¬ turn.IsOpen state) :
    turn.unitsIn code = turn.units := by
  obtain ⟨body, units, filled⟩ := laid
  obtain ⟨inside, outside⟩ := List.mem_filter.mp member
  obtain ⟨earlier, later, rfl⟩ := List.append_of_mem inside
  rw [codeTurns, List.filter_append, List.filter_cons_of_pos outside] at filled
  rw [Turn.unitsIn, units, List.drop_succ_cons, passes.offset fresh]
  exact filled.block closed

theorem Turn.labelNote?_eq_some {turn : Turn} {note : Fixup} (left : turn.labelNote? = some note) :
    turn.effect.isOpen = true ∧ turn.before.code.offset = note.position := by
  unfold labelNote? at left
  split at left
  · rename_i name effect
    obtain rfl := Option.some.inj left
    exact ⟨by simp [effect, Effect.isOpen], rfl⟩
  · cases left

theorem Turn.referenceNote?_eq_some {turn : Turn} {note : Fixup}
    (left : turn.referenceNote? = some note) :
    turn.effect.isOpen = true ∧ turn.before.code.offset = note.position := by
  unfold referenceNote? at left
  split at left
  · rename_i name effect
    obtain rfl := Option.some.inj left
    exact ⟨by simp [effect, Effect.isOpen], rfl⟩
  · cases left

theorem openAt_of_note {state : State} {name : String} {draft : Draft} {turns : List Turn}
    {note : Fixup} (passes : Passes state (state.newDraft name) turns draft)
    (noted : note ∈ draft.labelUses.toList ∨ note ∈ draft.references.toList) :
    OpenAt state (codeTurns turns) note.position := by
  have found : ∃ turn ∈ turns, turn.effect.isOpen = true ∧
      turn.before.code.offset = note.position := by
    rcases noted with label | reference
    · rw [passes.labelUses] at label
      obtain ⟨turn, member, left⟩ := List.mem_filterMap.mp (by simpa [State.newDraft] using label)
      exact ⟨turn, member, Turn.labelNote?_eq_some left⟩
    · rw [passes.references] at reference
      obtain ⟨turn, member, left⟩ :=
        List.mem_filterMap.mp (by simpa [State.newDraft] using reference)
      exact ⟨turn, member, Turn.referenceNote?_eq_some left⟩
  obtain ⟨turn, member, pending, offset⟩ := found
  rw [← offset]
  exact passes.openAt rfl member pending

/-- The word of a body is laid out by its turns, and its references wait at open positions. -/
theorem addBody_layout {state : State} {name : String} {draft : Draft} {tokens : List Token}
    (added : Draft.addBody state (state.newDraft name) tokens = (draft, none)) :
    ∃ turns middle, turns.map Turn.token = tokens ∧
      Passes state (state.newDraft name) turns middle ∧
      draft.flags = middle.flags ∧ draft.word = name ∧
      LaidOut state turns draft.flags draft.toWord.code ∧
      ∀ note ∈ draft.references.toList, OpenAt state (codeTurns turns) note.position := by
  obtain ⟨turns, middle, code, diagnostics, read, passes, rfl, size, agree⟩ :=
    Draft.addBody_none added
  have emitted : middle.code.units.toList = (codeTurns turns).flatMap Turn.units := by
    simpa [State.newDraft] using passes.code
  refine ⟨turns, middle, read, passes, rfl, passes.fixed.1, ?_,
    fun note member => openAt_of_note passes (.inr member)⟩
  refine ⟨code.units.toList, by simp [Draft.toWord], ?_⟩
  refine (fills_emitted state (codeTurns turns)).of_agree ?_ fun position closed => ?_
  · rw [← emitted, Array.length_toList, Array.length_toList, size]
  · rw [← emitted, Array.getElem?_toList, Array.getElem?_toList]
    refine agree position fun note member here => closed ?_
    rw [← here]
    exact openAt_of_note passes (.inl member)

/-- A definition that has become a word of `after`, by its tokens and their turns. -/
structure Yields (state : State) (source : String) (line : Option Int) (after : State)
    (word : CompiledWord) (tokens : List Token) (turns : List Turn) : Prop where
  body : ∃ number, line = some number ∧ bodyTokens? source number = some tokens
  read : turns.map Turn.token = tokens
  passes : ∃ draft, Passes state (state.newDraft (definedName source)) turns draft ∧
    word.flags = draft.flags
  name : word.name = definedName source
  place : after.compiled[state.compiled.size]? = some word
  laid : LaidOut state turns word.flags word.code
  waits : ∀ position, after.Awaits state.compiled.size position →
    state.Awaits state.compiled.size position ∨
      ∃ spot, position = spot + 1 ∧ OpenAt state (codeTurns turns) spot

theorem compile_yields {state after : State} {source : String} {line : Option Int}
    {word : CompiledWord} (compiled : state.compile source line = (after, .ok (some word))) :
    ∃ tokens turns, Yields state source line after word tokens turns := by
  generalize result : (.ok (some word) : Except Failure (Option CompiledWord)) = outcome at compiled
  cases State.compile_cases compiled with
  | nothing reports wordless => exact absurd result.symm (wordless word)
  | @word number tokens draft reports named start body added =>
    obtain ⟨turns, middle, read, passes, flags, name, laid, notes⟩ := addBody_layout added
    obtain ⟨code, there, size, agree⟩ := State.addDraft_word (state.reporting reports) draft
    have newest := Except.ok.inj result
    rw [State.newest?_addDraft, there] at newest
    obtain rfl := Option.some.inj newest
    refine ⟨tokens, turns, ⟨number, start, body⟩, read, ⟨middle, passes, flags⟩, name, there, ?_, ?_⟩
    · refine laid.of_agree size fun position closed => agree position ?_
      rintro ⟨note, member, rfl⟩
      exact closed note.position rfl (notes note (by simpa using member))
    · rintro position ⟨reference, member, here, rfl⟩
      rw [← Array.mem_toList_iff, (State.addDraft_filled _ draft).pending, List.mem_append] at member
      rcases member with old | fresh
      · exact .inl ⟨reference, Array.mem_toList_iff.mp old, here, rfl⟩
      · obtain ⟨note, waiting, rfl⟩ := List.mem_map.mp fresh
        exact .inr ⟨note.position, rfl, notes note (List.mem_filter.mp waiting).1⟩

namespace Yields

variable {state after : State} {source : String} {line : Option Int} {word : CompiledWord}
  {tokens : List Token} {turns : List Turn}

theorem outside (yields : Yields state source line after word tokens turns) :
    (codeTurns turns).map Turn.token = Token.outside 0 tokens := by
  obtain ⟨draft, passes, -⟩ := yields.passes
  rw [passes.outside, yields.read]
  rfl

theorem effect (yields : Yields state source line after word tokens turns) {turn : Turn}
    (member : turn ∈ codeTurns turns) :
    Draft.CodeEffect state turn.before turn.token turn.effect ∧ turn.token.kind ≠ .commentOpen := by
  obtain ⟨draft, passes, -⟩ := yields.passes
  obtain ⟨inside, outside⟩ := List.mem_filter.mp member
  exact ⟨turn.codeEffect (passes.effect inside) outside, (of_decide_eq_true outside).2⟩

theorem flags (yields : Yields state source line after word tokens turns) :
    word.flags.bits =
      (Token.outside 0 tokens).foldl (fun bits token => bits ||| token.flagBits) 0 := by
  obtain ⟨draft, passes, flags⟩ := yields.passes
  rw [flags, passes.flags, yields.outside]
  rfl

/-- Whatever comes later in the session, the word keeps its layout. -/
theorem run (yields : Yields state source line after word tokens turns)
    (anchored : ∀ reference ∈ state.pending, reference.word < state.compiled.size)
    (commands : List Command) :
    ∃ code, (after.run commands).compiled[state.compiled.size]? = some { word with code := code } ∧
      LaidOut state turns word.flags code := by
  obtain ⟨code, there, size, agree⟩ :=
    (State.run_frame after commands).2 state.compiled.size word yields.place
  refine ⟨code, there, yields.laid.of_agree size fun position closed => agree position ?_⟩
  intro waits
  rcases yields.waits position waits with ⟨reference, member, here, -⟩ | ⟨spot, here, pending⟩
  · have bound := anchored reference member
    omega
  · exact closed spot here pending

end Yields

/-- Compiled code is the flags of the tokens outside comments followed by one block for each of
them, of the length that the token's kind gives. Labels and references are filled in at three
different times, and the last of them may come after any further calls; none touches a unit that
was final when its token was compiled, as long as references are pending in words that exist. -/
theorem compile_layout {state after : State} {source : String} {line : Option Int}
    {word : CompiledWord} (compiled : state.compile source line = (after, .ok (some word))) :
    ∃ number tokens turns draft,
      line = some number ∧ bodyTokens? source number = some tokens ∧
      Passes state (state.newDraft (definedName source)) turns draft ∧
      turns.map Turn.token = tokens ∧
      (codeTurns turns).map Turn.token = Token.outside 0 tokens ∧
      (∀ turn ∈ codeTurns turns, TokenSize state turn.token turn.units.length) ∧
      word.flags.bits =
        (Token.outside 0 tokens).foldl (fun bits token => bits ||| token.flagBits) 0 ∧
      (∃ body, word.code.toList = (word.flags.bits : Int) :: body ∧
        Fills state (codeTurns turns) body) ∧
      ((∀ reference ∈ state.pending, reference.word < state.compiled.size) →
        ∀ commands, ∃ code body,
          (after.run commands).compiled[state.compiled.size]? = some { word with code := code } ∧
          code.toList = (word.flags.bits : Int) :: body ∧
          Fills state (codeTurns turns) body) := by
  obtain ⟨tokens, turns, yields⟩ := compile_yields compiled
  obtain ⟨number, start, body⟩ := yields.body
  obtain ⟨draft, passes, -⟩ := yields.passes
  refine ⟨number, tokens, turns, draft, start, body, passes, yields.read, yields.outside, ?_,
    yields.flags, yields.laid, fun anchored commands => ?_⟩
  · intro turn member
    obtain ⟨cases, other⟩ := yields.effect member
    rw [turn.units_eq]
    exact tokenSize_of_codeEffect cases other
  · obtain ⟨code, there, body, units, filled⟩ := yields.run anchored commands
    exact ⟨code, body, there, units, filled⟩

def sampleStart : State where
  catalog := ({} : Catalog).register "dup" none none none
  slots := {}
  bootstrap := {}

/-- A dictionary in which an earlier word waits for the constant `late`. -/
def sampleState : State :=
  sampleStart.run [.compile ": early %late ;" (some 1)]

/-- A definition with a flag, a label, a reference that has to wait, a string and a comment. -/
def sampleText : String :=
  ": w IMMEDIATE :A dup A: %late .\" hi\" ( HIDDEN ) ;"

def sampleWord : CompiledWord where
  name := "w"
  constant := "w"
  flags := .immediate
  code := #[1, 0, 65535, 0, 0, 616, 26880]
  doc := some "HIDDEN"

theorem compile_layout_sample :
    (∀ reference ∈ sampleState.pending, reference.word < sampleState.compiled.size) ∧
      ∃ after turns,
        sampleState.compile sampleText (some 2) = (after, .ok (some sampleWord)) ∧
        (codeTurns turns).length = 6 ∧
        ∀ commands, ∃ code body,
          (after.run commands).compiled[sampleState.compiled.size]? =
            some { sampleWord with code := code } ∧
          code.toList = 1 :: body ∧ Fills sampleState (codeTurns turns) body := by
  have anchored : ∀ reference ∈ sampleState.pending,
      reference.word < sampleState.compiled.size := by decide +kernel
  have compiled : sampleState.compile sampleText (some 2) =
      ((sampleState.compile sampleText (some 2)).1, .ok (some sampleWord)) :=
    Prod.ext rfl (by decide +kernel)
  obtain ⟨number, tokens, turns, draft, start, body, -, -, outside, -, -, -, later⟩ :=
    compile_layout compiled
  refine ⟨anchored, _, turns, compiled, ?_, later anchored⟩
  obtain rfl : 2 = number := Option.some.inj start
  have read : (bodyTokens? sampleText 2).map (fun tokens => (Token.outside 0 tokens).length) =
      some 6 := by decide +kernel
  rw [body, Option.map_some, ← outside, List.length_map] at read
  exact Option.some.inj read

end ThreadedCode.Compiler
