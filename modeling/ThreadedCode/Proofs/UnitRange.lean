import ThreadedCode.Proofs.Pending
import ThreadedCode.Proofs.Reading

/-!
# The range of code units

Emitting a value and filling in a label store the residue of a number, and flags have three bits.
The index of a word that a reference waited for is stored as it is, so in a dictionary of more than
65536 words the unit of such a reference can be out of range, and no other unit can.
-/

namespace ThreadedCode

namespace Code

def IsUnit (unit : Int) : Prop :=
  0 ≤ unit ∧ unit ≤ 65535

theorem isUnit_toUnit (value : Int) : IsUnit (toUnit value) :=
  ⟨toUnit_nonneg value, Int.le_of_lt_add_one (toUnit_lt value)⟩

end Code

namespace Compiler

/-! ### Drafts -/

theorem Effect.isUnit_of_mem_units {effect : Effect} {unit : Int} (member : unit ∈ effect.units) :
    Code.IsUnit unit := by
  cases effect with
  | emit block =>
    obtain ⟨value, -, rfl⟩ := List.mem_map.mp member
    exact Code.isUnit_toUnit value
  | useLabel name | awaitConstant name =>
    obtain rfl := List.mem_singleton.mp member
    exact ⟨by decide, by decide⟩
  | _ => cases member

namespace Draft

def InRange (draft : Draft) : Prop :=
  ∀ unit ∈ draft.code.units, Code.IsUnit unit

theorem apply_inRange {state : State} {draft : Draft} {token : Token} {effect : Effect}
    (ranged : draft.InRange) (_ : effect? state draft token = .ok effect) :
    (draft.apply token effect).InRange := by
  intro unit member
  rw [units_apply] at member
  rcases Array.mem_append.mp member with old | new
  · exact ranged unit old
  · exact Effect.isUnit_of_mem_units (List.mem_toArray.mp new)

theorem patchLabel_inRange {draft next : Draft} {note : Fixup} (ranged : draft.InRange)
    (patched : draft.patchLabel note = .ok next) : next.InRange := by
  obtain ⟨offset, diagnostics, rfl⟩ := patchLabel_ok patched
  intro unit member
  rcases Array.mem_or_eq_of_mem_setIfInBounds member with old | rfl
  · exact ranged unit old
  · exact Code.isUnit_toUnit offset

theorem addBody_inRange {state : State} {name : String} {draft : Draft} {tokens : List Token}
    (added : addBody state (state.newDraft name) tokens = (draft, none)) : draft.InRange := by
  have empty : (state.newDraft name).InRange := by simp [InRange, State.newDraft]
  have ranged := addBody_invariant state apply_inRange patchLabel_inRange empty tokens
  rwa [added] at ranged

end Draft

theorem flagBits_lt {token : Token} (read : token.kind.IsRead) : token.flagBits < 2 ^ 3 := by
  unfold Token.flagBits
  split
  · rename_i mask kind
    rw [kind] at read
    rcases read with bits | bits | bits
    all_goals
      obtain rfl := Option.some.inj bits
      decide
  · decide

theorem foldl_flagBits_lt {tokens : List Token} {bits : Nat} (start : bits < 2 ^ 3)
    (read : ∀ token ∈ tokens, token.kind.IsRead) :
    tokens.foldl (fun bits token => bits ||| token.flagBits) bits < 2 ^ 3 := by
  induction tokens generalizing bits with
  | nil => exact start
  | cons token rest ih =>
    obtain ⟨first, others⟩ := List.forall_mem_cons.mp read
    exact ih (Nat.or_lt_two_pow start (flagBits_lt first)) others

/-- The units of a word that is just appended are in range. -/
theorem addBody_isUnit {state : State} {source : String} {number : Int} {tokens : List Token}
    {draft : Draft} (body : bodyTokens? source number = some tokens)
    (added : Draft.addBody state (state.newDraft (definedName source)) tokens = (draft, none)) :
    ∀ unit ∈ draft.toWord.code, Code.IsUnit unit := by
  have ranged := Draft.addBody_inRange added
  obtain ⟨turns, middle, code, diagnostics, same, passes, rfl, -⟩ := Draft.addBody_none added
  have flags : middle.flags.bits < 2 ^ 3 := by
    rw [passes.flags]
    refine foldl_flagBits_lt (Nat.two_pow_pos 3) fun token member => ?_
    obtain ⟨turn, listed, rfl⟩ := List.mem_map.mp member
    refine (bodyTokens?_read body _ ?_).1
    rw [← same]
    exact List.mem_map_of_mem (List.mem_filter.mp listed).1
  intro unit member
  rcases Array.mem_append.mp member with first | rest
  · obtain rfl : unit = middle.flags.bits := by simpa using first
    exact ⟨by omega, by omega⟩
  · exact ranged unit rest

/-! ### Sessions -/

namespace State

theorem resolve?_lt {state : State} {name : Option String} {index : Nat}
    (resolved : state.resolve? name = some index) : index < state.nextIndex := by
  obtain ⟨constant, -, found⟩ := Option.bind_eq_some_iff.mp resolved
  rw [← size_symbols]
  exact lt_size_of_mem_places (search_eq_some_iff.mp found).mem

/-- Every unit is in the range of units or, if the dictionary is larger, of its indices. -/
def Bounded (state : State) : Prop :=
  ∀ word ∈ state.compiled, ∀ unit ∈ word.code, 0 ≤ unit ∧ unit < max 65536 (state.nextIndex : Int)

theorem setUnit_bounded {state : State} {name : Option String} {index : Nat} (word position : Nat)
    (bounded : state.Bounded) (resolved : state.resolve? name = some index) :
    (state.setUnit word position (index : Nat)).Bounded := by
  have below := resolve?_lt resolved
  have size : (state.setUnit word position (index : Nat)).nextIndex = state.nextIndex := by
    simp [nextIndex, setUnit]
  intro entry member unit stored
  rw [size]
  obtain ⟨place, there⟩ := Array.mem_iff_getElem?.mp member
  rw [compiled_setUnit] at there
  split at there
  · obtain ⟨old, present, rfl⟩ := Option.map_eq_some_iff.mp there
    rcases Array.mem_or_eq_of_mem_setIfInBounds stored with kept | rfl
    · exact bounded old (Array.mem_of_getElem? present) unit kept
    · omega
  · exact bounded entry (Array.mem_of_getElem? there) unit stored

theorem appending_bounded {state : State} {source : String} {number : Int} {tokens : List Token}
    {draft : Draft} (bounded : state.Bounded) (body : bodyTokens? source number = some tokens)
    (added : Draft.addBody state (state.newDraft (definedName source)) tokens = (draft, none)) :
    (state.appending draft).Bounded := by
  have grown : (state.appending draft).nextIndex = state.nextIndex + 1 := by
    simp [nextIndex, appending, Nat.add_assoc]
  intro word member unit stored
  rw [grown]
  rcases Array.mem_push.mp member with old | rfl
  · have range := bounded word old unit stored
    omega
  · have range := addBody_isUnit body added unit stored
    unfold Code.IsUnit at range
    omega

theorem execute_bounded {state : State} (command : Command) (bounded : state.Bounded) :
    (state.execute command).Bounded :=
  execute_invariant (fun _ bounded => bounded) (fun _ bounded => bounded) setUnit_bounded
    (fun bounded _ body added => appending_bounded bounded body added) bounded command

theorem run_bounded {state : State} (bounded : state.Bounded) (commands : List Command) :
    (state.run commands).Bounded :=
  run_invariant execute_bounded bounded commands

/-- A word comes of one of the calls of a session. -/
theorem run_origin {state : State} {commands : List Command} {place : Nat}
    (new : state.compiled.size ≤ place) (there : place < (state.run commands).compiled.size) :
    ∃ earlier source number later reports tokens draft,
      commands = earlier ++ .compile source (some number) :: later ∧
      (state.run earlier).compiled.size = place ∧
      bodyTokens? source number = some tokens ∧
      Draft.addBody (state.run earlier) ((state.run earlier).newDraft (definedName source)) tokens =
        (draft, none) ∧
      state.run commands = (((state.run earlier).reporting reports).addDraft draft).run later := by
  induction commands generalizing state with
  | nil => exact absurd there (Nat.not_lt.mpr new)
  | cons command rest ih =>
    by_cases here : place < (state.execute command).compiled.size
    · cases command with
      | finish =>
        have settled := finish_settled state
        have size : (state.execute .finish).compiled.size = state.compiled.size :=
          size_compiled_congr settled.setup settled.symbols
        omega
      | compile source line =>
        rcases compiled : state.compile source line with ⟨after, outcome⟩
        have step : state.execute (.compile source line) = after := by simp [execute, compiled]
        rw [step] at here
        cases compile_cases compiled with
        | nothing reports wordless => exact absurd here (Nat.not_lt.mpr new)
        | @word number tokens draft reports named begins body added =>
          rw [size_addDraft] at here
          have size : (state.reporting reports).compiled.size = state.compiled.size := rfl
          subst begins
          refine ⟨[], source, number, rest, reports, tokens, draft, rfl, ?_, body, added, ?_⟩
          · simp only [run, List.foldl_nil]
            omega
          · rw [run, List.foldl_cons, step]
            rfl
    · obtain ⟨earlier, source, number, later, reports, tokens, draft, rfl, found⟩ :=
        ih (Nat.le_of_not_lt here) there
      exact ⟨command :: earlier, source, number, later, reports, tokens, draft, rfl, found⟩

end State

/-- The word at a place comes of one of the calls, and at a position of its code stands a reference
that named no word when it was compiled. -/
def DeferredAt (start : State) (commands : List Command) (place position : Nat) : Prop :=
  ∃ earlier source number later tokens turns draft turn name,
    commands = earlier ++ .compile source (some number) :: later ∧
    (start.run earlier).compiled.size = place ∧
    bodyTokens? source number = some tokens ∧ turns.map Turn.token = tokens ∧
    Passes (start.run earlier) ((start.run earlier).newDraft (definedName source)) turns draft ∧
    turn ∈ codeTurns turns ∧ turn.token.kind = .reference name ∧ turn.IsOpen (start.run earlier) ∧
    position = turn.before.code.offset + 1

namespace State

/-- What is not in range has been stored for a reference that had to wait. -/
theorem deferredAt_of_not_isUnit {start : State} {commands : List Command} {place position : Nat}
    {unit : Int} (fresh : start.Fresh)
    (stored : (start.run commands).unitAt place position = some unit) (wild : ¬ Code.IsUnit unit) :
    DeferredAt start commands place position := by
  obtain ⟨word, there, here⟩ := Option.bind_eq_some_iff.mp stored
  obtain ⟨earlier, source, number, later, reports, tokens, draft, rfl, size, body, added, reached⟩ :=
    run_origin (by simp [fresh.compiled]) (Array.getElem?_eq_some_iff.mp there).1
  have anchored : ∀ reference ∈ (start.run earlier).pending,
      reference.word < (start.run earlier).compiled.size := fun reference member =>
    ((run_pendingSound fresh.pendingSound earlier).unitAt (Array.mem_toList_iff.mpr member)).1
  have noted : ∃ note ∈ draft.references, position = note.position + 1 := by
    by_contra unnoted
    obtain ⟨code, kept, agree⟩ :=
      @run_addDraft ((start.run earlier).reporting reports) anchored draft later
    rw [reached, ← size] at there
    obtain rfl := Option.some.inj (there.symm.trans kept)
    rw [agree position unnoted] at here
    exact wild (addBody_isUnit body added unit (Array.mem_of_getElem? here))
  obtain ⟨note, member, rfl⟩ := noted
  obtain ⟨turns, middle, code, diagnostics, same, passes, rfl, -⟩ := Draft.addBody_none added
  obtain ⟨turn, listed, name, kind, pending, rfl⟩ :=
    (passes.mem_references_iff rfl).mp (Array.mem_toList_iff.mpr member)
  exact ⟨earlier, source, number, later, tokens, turns, middle, turn, name, rfl, size, body, same,
    passes, listed, kind, pending, rfl⟩

end State

/-- Whatever calls a session makes, a unit is in range, or it is the index of a word that is beyond
the range, and then it stands where a reference had to wait for its word. -/
theorem session_unit_range {start state : State} {commands : List Command} {place position : Nat}
    {word : CompiledWord} {unit : Int} (fresh : start.Fresh) (reached : start.run commands = state)
    (there : state.compiled[place]? = some word) (stored : word.code[position]? = some unit) :
    Code.IsUnit unit ∨
      65536 ≤ unit ∧ unit < state.nextIndex ∧ DeferredAt start commands place position := by
  subst reached
  have bounded : start.Bounded := by simp [State.Bounded, fresh.compiled]
  have range := State.run_bounded bounded commands word (Array.mem_of_getElem? there) unit
    (Array.mem_of_getElem? stored)
  refine or_iff_not_imp_left.mpr fun wild => ⟨?_, ?_, ?_⟩
  · unfold Code.IsUnit at wild
    omega
  · unfold Code.IsUnit at wild
    omega
  · exact State.deferredAt_of_not_isUnit fresh (by simp [State.unitAt, there, stored]) wild

/-- A dictionary with one native word more than there are units. -/
def crowdedStart : State where
  catalog := ⟨(Array.range 65537).map fun place =>
    { name := "n" ++ toString place, constant := "n" ++ toString place }⟩
  slots := {}
  bootstrap := {}

theorem crowdedStart_fresh : crowdedStart.Fresh :=
  ⟨rfl, rfl, rfl⟩

theorem findConstant?_crowdedStart : crowdedStart.findConstant? "late" = none := by
  rw [State.findConstant?, State.search_eq_none_iff, Set.eq_empty_iff_forall_notMem]
  intro place member
  obtain ⟨symbol, there, same⟩ := (Option.any_eq_true _ _).mp member
  have listed := Array.mem_of_getElem? there
  simp only [State.symbols, crowdedStart, Array.map_map, Array.map_empty, Array.append_empty,
    Array.mem_map] at listed
  obtain ⟨number, -, rfl⟩ := listed
  have first := congrArg (fun text => text.toList.head?) (beq_iff_eq.mp same)
  simp at first

/-- A word that refers to itself before a comment gives it its constant. -/
def lateText : String :=
  ": w %late ( 'late ) ;"

def lateTokens : List Token :=
  [⟨.reference (some "late"), "%late", some 1, some 2⟩, ⟨.commentOpen, "(", some 1, some 8⟩,
    ⟨.word, "'late", some 1, some 10⟩, ⟨.commentClose, ")", some 1, some 16⟩]

def lateDraft (state : State) : Draft :=
  { state.newDraft "w" with
    code := ⟨#[0]⟩
    references := #[⟨0, some "late", some 1, some 2⟩]
    firstCommentDone := true
    hint := some "late" }

theorem addBody_lateTokens {state : State} (absent : state.findConstant? "late" = none) :
    Draft.addBody state (state.newDraft "w") lateTokens = (lateDraft state, none) := by
  have hint : Token.hintOf? ['\x27', 'l', 'a', 't', 'e'] = some "late" := by decide +kernel
  simp [Draft.addBody, Draft.addTokens, lateTokens, Draft.effect?, Draft.codeEffect?,
    Draft.referenceEffect, absent, State.newDraft, Draft.apply, Draft.commentEffect, lateDraft,
    Token.hint?, hint, Draft.patchLabels, Draft.fixup, Code.Buffer.emitPlaceholder,
    Code.Buffer.offset, Code.Buffer.emit, Code.toUnit]

theorem compile_lateText (state : State) :
    state.compile lateText (some 1) = state.compileTokens "w" lateTokens := by
  have scanned : Token.scan (bodyText lateText) (some (definedName lateText))
      (some (bodyLine lateText 1)) =
        .ok ⟨lateTokens ++ [⟨.word, ";", some 1, some 18⟩], 0, some 1⟩ := by decide +kernel
  have name : definedName lateText = "w" := by decide +kernel
  rw [← name]
  exact State.compile_terminated (by decide +kernel) (by decide +kernel) scanned (by decide +kernel)
    state

theorem findConstant?_lateDraft {state : State} (order : state.order = .shadowing) :
    (state.appending (lateDraft state)).findConstant? "late" = some state.nextIndex := by
  simp [State.findConstant?, State.search, State.appending, order, lastIndex?, lastIndexBelow?,
    Draft.toWord, lateDraft, State.nextIndex]

theorem unitAt_lateText {state : State} (order : state.order = .shadowing)
    (absent : state.findConstant? "late" = none) :
    (state.run [.compile lateText (some 1)]).unitAt state.compiled.size 1 =
      some (state.nextIndex : Int) := by
  have reached : state.run [.compile lateText (some 1)] = state.addDraft (lateDraft state) := by
    simp [State.run, State.execute, compile_lateText, State.compileTokens,
      addBody_lateTokens absent]
  have notes : (lateDraft state).references.toList = [⟨0, some "late", some 1, some 2⟩] := rfl
  have waiting : (state.appending (lateDraft state)).unitAt state.compiled.size 1 = some 0 := by
    simp [State.unitAt, State.appending, Draft.toWord, lateDraft]
  rw [reached, State.addDraft_eq, notes, List.foldl_cons, List.foldl_nil, State.fillReference,
    Option.bind_some, findConstant?_lateDraft order]
  exact State.unitAt_setUnit _ (by simp [waiting])

theorem nextIndex_crowdedStart : crowdedStart.nextIndex = 65537 := by
  have natives : crowdedStart.catalog.words.size = 65537 := by
    rw [crowdedStart, Array.size_map, Array.size_range]
  rw [State.nextIndex, Catalog.size, natives, crowdedStart_fresh.compiled, Array.size_empty]

theorem unitAt_crowdedStart :
    (crowdedStart.run [.compile lateText (some 1)]).unitAt 0 1 = some 65537 := by
  have stored := unitAt_lateText rfl findConstant?_crowdedStart
  rw [nextIndex_crowdedStart] at stored
  exact stored

/-- The word is the one at index 65537, and that is stored for its reference to itself. -/
theorem late_reference_beyond_range :
    crowdedStart.Fresh ∧
      (crowdedStart.run [.compile lateText (some 1)]).unitAt 0 1 = some 65537 ∧
      ¬ Code.IsUnit 65537 :=
  ⟨crowdedStart_fresh, unitAt_crowdedStart, by simp [Code.IsUnit]⟩

theorem session_unit_range_sample :
    crowdedStart.Fresh ∧ ∃ word,
      (crowdedStart.run [.compile lateText (some 1)]).compiled[0]? = some word ∧
      word.code[1]? = some 65537 ∧ DeferredAt crowdedStart [.compile lateText (some 1)] 0 1 := by
  obtain ⟨word, there, stored⟩ := Option.bind_eq_some_iff.mp unitAt_crowdedStart
  have range := session_unit_range crowdedStart_fresh rfl there stored
  exact ⟨crowdedStart_fresh, word, there, stored,
    (range.resolve_left (by simp [Code.IsUnit])).2.2⟩

end Compiler

end ThreadedCode
