import ThreadedCode.Proofs.AcceptedWords
import ThreadedCode.Proofs.Extension

/-!
# References under first match

When the oldest word with a constant is meant, a search that finds a word finds the same one in
every longer dictionary, and a search that finds none excludes every word so far. It therefore makes
no difference when a reference is bound: at its turn, by the constant that a comment gives the word
being defined, when that word is appended or when the run is finished. Only two comments of one
definition that name different constants could tell.
-/

namespace ThreadedCode

open Compiler

/-! ### Growing dictionaries -/

/-- The first place of a value stays the first when more is appended. -/
theorem isLeast_of_grown {α : Type} {xs ys : List α} {x : α} {place : Nat} (grown : xs <+: ys)
    (least : IsLeast {place | xs[place]? = some x} place) :
    IsLeast {place | ys[place]? = some x} place := by
  obtain ⟨rest, rfl⟩ := grown
  have there : xs[place]? = some x := least.1
  have inside := (List.getElem?_eq_some_iff.mp there).1
  refine ⟨?_, ?_⟩
  · show (xs ++ rest)[place]? = some x
    rw [List.getElem?_append_left inside, there]
  · intro other found
    by_cases early : other < xs.length
    · have found : (xs ++ rest)[other]? = some x := found
      rw [List.getElem?_append_left early] at found
      exact least.2 found
    · omega

namespace Compiler.State

variable {state : State} {constant : String}

theorem resolve?_eq_some_iff (order : state.order = .firstMatch) {index : Nat} :
    state.resolve? (some constant) = some index ↔
      IsLeast {place | state.constants[place]? = some constant} index := by
  rw [resolve?, Option.bind_some, findConstant?, search_eq_some_iff, places_constants, order]
  rfl

end Compiler.State

namespace Compiler

/-- The word being defined is the first with its constant if there was none before. -/
theorem Becomes.resolve?_own {state after : State} {definition : Source.Definition}
    {word : CompiledWord} {turns : List Turn} {draft : Draft}
    (becomes : Becomes state definition after word turns draft)
    (order : state.order = .firstMatch) (unknown : word.constant ∉ state.constants) :
    after.resolve? (some word.constant) = some state.nextIndex := by
  have same : after.order = .firstMatch := (congrArg Setup.order becomes.setup).trans order
  rw [State.resolve?_eq_some_iff same, becomes.constants, ← State.length_constants]
  refine ⟨by simp, ?_⟩
  intro other found
  by_contra early
  have found : (state.constants ++ [word.constant])[other]? = some word.constant := found
  rw [List.getElem?_append_left (Nat.lt_of_not_le early)] at found
  exact unknown (List.mem_of_getElem? found)

/-! ### What is said at the end -/

namespace State

/-- What is said at the end of a run about a token of a word that refers to a constant which no word
has. -/
def unanswered? (final : State) (word : String) (token : Token) : Option Diagnostic :=
  match token.kind with
  | .reference (some constant) =>
    if constant ∈ final.constants then none
    else
      some ⟨.unresolvedReference (some constant),
        { word := some word
          line := token.line
          column := token.column
          filename := final.filename }⟩
  | _ => none

/-- What is said at the end of a run about the words that its definitions have become, token by
token. -/
def unanswered (final : State) (words : List (Source.Definition × Nat × CompiledWord)) :
    List Diagnostic :=
  words.flatMap fun entry =>
    (Token.outside 0 entry.1.tokens).filterMap (final.unanswered? entry.2.2.name)

/-- The pending references of a state that name no word of a later one. -/
def stranded (final state : State) : List PendingReference :=
  state.pending.toList.filter fun reference => (final.resolve? reference.name).isNone

theorem complaint_pendingOf {final : State} {place : Nat} {word : CompiledWord}
    (there : final.compiled[place]?.map (·.name) = some word.name) (before : Draft) (token : Token)
    (constant : Option String) :
    final.complaint (pendingOf place (before.fixup token constant)) =
      ⟨.unresolvedReference constant,
        { word := some word.name
          line := token.line
          column := token.column
          filename := final.filename }⟩ := by
  simp only [complaint, holder, pendingOf, Draft.fixup, there]

end State

namespace Becomes

variable {state after final : State} {definition : Source.Definition} {word : CompiledWord}
  {turns : List Turn} {draft : Draft}

/-- At its turn a token leaves a note that stays without a word exactly if it refers to a constant
that no word has at the end. -/
theorem stranded_turn (becomes : Becomes state definition after word turns draft)
    (agree : definition.HintsAgree) (grown : after.constants <+: final.constants) {place : Nat}
    (there : final.compiled[place]?.map (·.name) = some word.name) {turn : Turn}
    (member : turn ∈ turns) :
    (turn.referenceNote?.filter fun note => (final.resolve? note.name).isNone).map
        (fun note => final.complaint (State.pendingOf place note)) =
      if turn.inCode then final.unanswered? word.name turn.token else none := by
  have found := becomes.passes.effect member
  have earlier : ∀ constant ∈ state.constants, constant ∈ final.constants := by
    intro constant listed
    apply grown.subset
    rw [becomes.constants]
    exact List.mem_append_left _ listed
  cases outside : turn.inCode with
  | false =>
    have silent := (turn.silent found outside).2.1
    unfold Turn.referenceNote?
    split
    · rename_i name effect
      rw [effect] at silent
      cases silent
    · rfl
  | true =>
    have cases := turn.codeEffect found outside
    generalize effect : turn.effect = had at cases
    rw [if_pos rfl]
    cases cases with
    -- The first two are bound at once, to a word that still has the constant at the end.
    | @known name index kind resolved =>
      obtain ⟨constant, rfl, resolved⟩ := Option.bind_eq_some_iff.mp resolved
      have listed : constant ∈ state.constants := by
        by_contra absent
        have unresolved := State.resolve?_eq_none_iff.mpr absent
        simp [State.resolve?, resolved] at unresolved
      simp [Turn.referenceNote?, effect, State.unanswered?, kind, earlier constant listed]
    | @own name kind unresolved hinted =>
      obtain ⟨constant, rfl⟩ := becomes.reference_name member kind
      have listed : constant ∈ final.constants := by
        rw [← becomes.own_constant agree member hinted]
        exact grown.subset becomes.mem_constants
      simp [Turn.referenceNote?, effect, State.unanswered?, kind, listed]
    | @waiting name kind unresolved other =>
      obtain ⟨constant, rfl⟩ := becomes.reference_name member kind
      by_cases listed : constant ∈ final.constants
      · have resolved : final.resolve? (some constant) ≠ none := by
          rwa [ne_eq, State.resolve?_eq_none_iff, not_not]
        simp [Turn.referenceNote?, effect, State.unanswered?, kind, listed, Draft.fixup, resolved]
      · have absent := State.resolve?_eq_none_iff.mpr listed
        have said := State.complaint_pendingOf there turn.before turn.token (some constant)
        simpa [Turn.referenceNote?, effect, State.unanswered?, kind, listed, Draft.fixup, absent]
          using said
    | plain kind resolved =>
      obtain kind | kind | ⟨name, kind, -⟩ := kind <;>
        simp [Turn.referenceNote?, effect, State.unanswered?, kind]
    | opening kind | flag kind | recurse kind | slot kind | string kind | labelDef kind
    | labelUse kind =>
      simp [Turn.referenceNote?, effect, State.unanswered?, kind]

/-- Those references of a word that name no word at the end are its tokens that refer to a constant
which no word has. -/
theorem stranded_word (becomes : Becomes state definition after word turns draft)
    (agree : definition.HintsAgree) (grown : after.constants <+: final.constants)
    (there : final.compiled[state.compiled.size]?.map (·.name) = some word.name) :
    (final.stranded after).map final.complaint =
      (final.stranded state).map final.complaint ++
        (Token.outside 0 definition.tokens).filterMap (final.unanswered? word.name) := by
  have notes : draft.references.toList = turns.filterMap Turn.referenceNote? := by
    simpa [State.newDraft] using becomes.passes.references
  have fresh : ((draft.references.toList.filter fun note =>
        (final.resolve? note.name).isNone).map fun note =>
          final.complaint (State.pendingOf state.compiled.size note)) =
      (Token.outside 0 definition.tokens).filterMap (final.unanswered? word.name) := by
    rw [← becomes.yields.outside, notes, codeTurns, List.filterMap_map, List.filterMap_filter,
      List.filter_filterMap, List.map_filterMap]
    exact List.filterMap_congr fun turn member => becomes.stranded_turn agree grown there member
  rw [← fresh, State.stranded, becomes.pending, List.filter_append, List.map_append,
    List.filter_map, List.filter_filter, List.map_map]
  -- What names no word at the end named none when it was noted, so one filter does for both.
  have same : (draft.references.toList.filter fun note =>
      ((fun reference : PendingReference => (final.resolve? reference.name).isNone) ∘
        State.pendingOf state.compiled.size) note && (after.resolve? note.name).isNone) =
      draft.references.toList.filter fun note => (final.resolve? note.name).isNone := by
    refine List.filter_congr fun note _ => ?_
    show ((final.resolve? note.name).isNone && (after.resolve? note.name).isNone) =
      (final.resolve? note.name).isNone
    cases absent : (final.resolve? note.name).isNone with
    | false => rfl
    | true => rw [State.resolve?_isNone_of_grown grown absent, Bool.and_self]
  rw [same]
  rfl

end Becomes

namespace State

/-- The references that name no word at the end are, in order, the tokens of the words that refer to
a constant which no word has. -/
theorem attempt_stranded {state : State} {definitions : List Source.Definition}
    (agreeing : ∀ definition ∈ definitions, definition.HintsAgree) :
    let final := state.attempt definitions
    (final.stranded final).map final.complaint =
      (final.stranded state).map final.complaint ++
        final.unanswered (state.accepted definitions) := by
  intro final
  induction definitions generalizing state with
  | nil => simp [final, attempt, run, accepted, unanswered]
  | cons definition rest ih =>
    obtain ⟨agree, agreeing⟩ := List.forall_mem_cons.mp agreeing
    obtain ⟨after, word, turns, draft, -, becomes, through⟩ | ⟨reports, through⟩ :=
      accepted_cases state definition
    · obtain ⟨attempted, accepted⟩ := through rest
      have same : final = after.attempt rest := attempted
      have later := @ih after agreeing
      obtain ⟨setup, kept⟩ := attempt_frame after rest
      rw [← same] at later setup kept
      obtain ⟨code, there, -⟩ := kept _ _ becomes.yields.place
      have here := becomes.stranded_word agree (prefix_constants setup kept) (by simp [there])
      rw [later, here, accepted, List.append_assoc]
      rfl
    · obtain ⟨attempted, accepted⟩ := through rest
      have same : final = (state.reporting reports).attempt rest := attempted
      have later := @ih (state.reporting reports) agreeing
      rw [← same] at later
      rw [later, accepted]
      rfl

/-! ### The units of references -/

/-- What the unit of a reference by constant is at the end of a run: the first index that has the
constant, up to the size of a unit, or zero if there is none. -/
def Answers (final : State) (constant : String) (unit : Int) : Prop :=
  (∃ index : Nat, IsLeast {place | final.constants[place]? = some constant} index ∧
    unit % 65536 = index % 65536) ∨ (constant ∉ final.constants ∧ unit = 0)

variable {state : State} {definitions : List Source.Definition}

/-- What names a word under first match names the same word when more is compiled. -/
theorem attempt_resolve? (order : state.order = .firstMatch) {name : Option String} {index : Nat}
    (resolved : state.resolve? name = some index) :
    (state.attempt definitions).resolve? name = some index := by
  obtain ⟨setup, kept⟩ := attempt_frame state definitions
  have same : (state.attempt definitions).order = .firstMatch :=
    (congrArg Setup.order setup).trans order
  cases name with
  | none => cases resolved
  | some constant =>
    rw [resolve?_eq_some_iff order] at resolved
    exact (resolve?_eq_some_iff same).mpr
      (isLeast_of_grown (prefix_constants setup kept) resolved)

/-- A reference that is noted ends up as the word that it names at the end, be it bound when its
word was appended or when the run is finished, and as zero if it names none. -/
theorem attempt_binds (order : state.order = .firstMatch)
    (sound : (state.attempt definitions).PendingSound)
    (finished : (state.attempt definitions).finish.2 = none) {word : Nat} {note : Fixup}
    (binds : state.Binds word note) :
    (state.attempt definitions).finish.1.unitAt word (note.position + 1) =
      some (((state.attempt definitions).resolve? note.name).getD 0 : Int) := by
  unfold Binds at binds
  split at binds
  · rename_i index resolved
    obtain ⟨stored, free⟩ := binds
    rw [attempt_resolve? order resolved,
      (attempt_finish_keeps state definitions).2.unitAt (lt_size_of_unitAt stored) free, stored]
    rfl
  · have listed := (attempt_pending state definitions).subset (Array.mem_toList_iff.mpr binds)
    have finishes := finish_finishes sound
    have settled := listed
    rw [← finishes.complete.mp finished] at settled
    cases resolved : (state.attempt definitions).resolve? note.name with
    | none => exact finishes.zero _ listed fun _ => resolved
    | some index => exact finishes.stores _ settled index resolved

end State

namespace Becomes

variable {state after : State} {definition : Source.Definition} {word : CompiledWord}
  {turns : List Turn} {draft : Draft} {later : List Source.Definition} {code : Array Int}

/-- The unit of a reference, whenever it was bound. -/
theorem answers (becomes : Becomes state definition after word turns draft)
    (compiled : state.compile definition.text definition.line = (after, .ok (some word)))
    (order : state.order = .firstMatch) (agree : definition.HintsAgree)
    (anchored : ∀ reference ∈ state.pending, reference.word < state.compiled.size)
    (sound : (after.attempt later).PendingSound) (finished : (after.attempt later).finish.2 = none)
    (there : (after.attempt later).finish.1.compiled[state.compiled.size]? =
      some { word with code := code })
    (laid : LaidOut state turns word.flags code) {turn : Turn} (member : turn ∈ codeTurns turns)
    {constant : String} (kind : turn.token.kind = .reference (some constant)) :
    ∃ unit, turn.unitsIn code = [unit] ∧ (after.attempt later).Answers constant unit := by
  obtain ⟨inside, outside⟩ := List.mem_filter.mp member
  have found := becomes.passes.effect inside
  have effect := Turn.referenceEffect found outside kind
  have same : after.order = .firstMatch := (congrArg Setup.order becomes.setup).trans order
  have last : (after.attempt later).order = .firstMatch :=
    (congrArg Setup.order (State.attempt_frame after later).1).trans same
  -- A token that is emitted as an index answers, if the constant stands for that index in the end.
  have emitted : ∀ index : Nat, turn.effect = .emit (.ofWord index) →
      (after.attempt later).resolve? (some constant) = some index →
      ∃ unit, turn.unitsIn code = [unit] ∧ (after.attempt later).Answers constant unit := by
    intro index effect resolved
    refine ⟨_, laid.emitted becomes.passes rfl member effect, .inl ⟨index, ?_, by omega⟩⟩
    exact (State.resolve?_eq_some_iff last).mp resolved
  unfold Draft.referenceEffect at effect
  split at effect
  · -- The constant was known at the turn.
    rename_i index resolved
    have again := @State.attempt_resolve? state (definition :: later) order (some constant) index
      resolved
    rw [State.attempt_cons, compiled] at again
    exact emitted index effect again
  · rename_i unknown
    split at effect
    · -- It is the constant of the word being defined.
      rename_i hinted
      obtain rfl := becomes.own_constant agree inside hinted
      have index : turn.before.index = state.nextIndex := by
        obtain ⟨earlier, rest, rfl⟩ := List.append_of_mem inside
        exact becomes.passes.split.1.fixed.2.1
      rw [index] at effect
      exact emitted _ effect (State.attempt_resolve? same
        (becomes.resolve?_own order (State.resolve?_eq_none_iff.mp unknown)))
    · -- It waits.
      have pending : turn.effect.isOpen = true := by rw [effect]; rfl
      have waits : turn.IsOpen state := (turn.isOpen_iff found outside).mpr pending
      have noted := (becomes.passes.mem_references_iff rfl).mpr
        ⟨turn, member, some constant, kind, waits, rfl⟩
      obtain ⟨number, line, body⟩ := becomes.yields.body
      have binds := State.compile_binds compiled anchored becomes.passes
        ⟨number, line, becomes.read ▸ body⟩ noted
      have stored := State.attempt_binds same sound finished binds
      rw [State.unitAt, there] at stored
      refine ⟨_, Turn.unitsIn_of_isOpen pending stored, ?_⟩
      show (after.attempt later).Answers constant
        (((after.attempt later).resolve? (some constant)).getD 0 : Int)
      cases resolved : (after.attempt later).resolve? (some constant) with
      | none => exact .inr ⟨State.resolve?_eq_none_iff.mp resolved, rfl⟩
      | some index => exact .inl ⟨index, (State.resolve?_eq_some_iff last).mp resolved, rfl⟩

end Becomes

/-! ### Whole runs -/

namespace State

/-- Finishing stops exactly at what it cannot say. -/
theorem finish_eq_none_iff (final : State) :
    final.finish.2 = none ↔
      ∀ diagnostic ∈ (final.stranded final).map final.complaint,
        diagnostic.site.isWritable = true := by
  have settled := (finish_settled final).stopped
  rw [settled, List.forall_mem_map]
  constructor
  · intro settleable reference stranded
    obtain ⟨listed, absent⟩ := List.mem_filter.mp stranded
    have said : (final.resolve? reference.name).isSome ||
        (final.complaint reference).site.isWritable := settleable reference listed
    simpa [Option.isNone_iff_eq_none.mp absent] using said
  · intro writable reference listed
    show ((final.resolve? reference.name).isSome ||
      (final.complaint reference).site.isWritable) = true
    cases absent : final.resolve? reference.name with
    | some index => rfl
    | none =>
      have stranded : reference ∈ final.stranded final :=
        List.mem_filter.mpr ⟨listed, by simp [absent]⟩
      exact writable reference stranded

/-- The problems with references that a fresh run ends with are those that finishing reports. -/
theorem finish_unresolved {start : State} (fresh : start.Fresh)
    (definitions : List Source.Definition)
    (finished : (start.attempt definitions).finish.2 = none) :
    (start.attempt definitions).finish.1.diagnostics.toList.filter
        (fun diagnostic => diagnostic.problem.kind = .unresolvedReference) =
      ((start.attempt definitions).stranded (start.attempt definitions)).map
        (start.attempt definitions).complaint := by
  obtain ⟨reports, met, kinds⟩ := attempt_records start definitions
  rw [fresh.diagnostics, List.nil_append] at met
  have early : reports.filter
      (fun diagnostic => diagnostic.problem.kind = .unresolvedReference) = [] := by
    refine List.filter_eq_nil_iff.mpr fun diagnostic member late => ?_
    have kind := kinds diagnostic member
    rw [of_decide_eq_true late] at kind
    cases kind
  rw [finish_diagnostics finished, met, List.filter_append, early, List.nil_append, stranded,
    List.filter_eq_self]
  intro diagnostic member
  obtain ⟨reference, -, rfl⟩ := List.mem_map.mp member
  rfl

/-- Under first match a reference by constant does not depend on its place in the run, as long as
the comments of no definition name two constants. Finishing stops only at a reference that no word
answers and whose site cannot be written. If it does not stop, every reference outside comments is
the least index that has the constant, up to the size of a unit, or zero if no word has it, and each
of the latter is reported once, in order. -/
theorem firstMatch_references {start : State} {definitions : List Source.Definition}
    (fresh : start.Fresh) (order : start.order = .firstMatch)
    (agreeing : ∀ definition ∈ definitions, definition.HintsAgree) :
    let final := start.attempt definitions
    let words := start.accepted definitions
    (final.finish.2 = none ↔
      ∀ diagnostic ∈ final.unanswered words, diagnostic.site.isWritable = true) ∧
    final.finish.1.symbols = final.symbols ∧ final.finish.1.compiled.size = words.length ∧
    (final.finish.2 = none →
      final.finish.1.diagnostics.toList.filter
          (fun diagnostic => diagnostic.problem.kind = .unresolvedReference) =
        final.unanswered words ∧
      ∀ (place : Nat) definition index word, words[place]? = some (definition, index, word) →
        ∃ earlier later turns draft code,
          definitions = earlier ++ definition :: later ∧
          Passes (start.attempt earlier) ((start.attempt earlier).newDraft word.name) turns draft ∧
          turns.map Turn.token = definition.tokens ∧
          (codeTurns turns).map Turn.token = Token.outside 0 definition.tokens ∧
          final.finish.1.compiled[place]? = some { word with code := code } ∧
          LaidOut (start.attempt earlier) turns word.flags code ∧
          ∀ turn ∈ codeTurns turns, ∀ constant, turn.token.kind = .reference (some constant) →
            ∃ unit, turn.unitsIn code = [unit] ∧ final.Answers constant unit) := by
  intro final words
  have settled := finish_settled final
  have said : (final.stranded final).map final.complaint = final.unanswered words := by
    have stranded := @attempt_stranded start definitions agreeing
    have nothing : final.stranded start = [] := by simp [State.stranded, fresh.pending]
    rw [stranded, nothing]
    rfl
  refine ⟨?_, settled.symbols, ?_, fun finished => ⟨?_, ?_⟩⟩
  · rw [← said]
    exact finish_eq_none_iff final
  · have size := length_accepted start definitions
    rw [fresh.compiled] at size
    rw [size_compiled_congr settled.setup settled.symbols]
    simpa using size
  · rw [← said]
    exact finish_unresolved fresh definitions finished
  · intro place definition index word there
    obtain ⟨earlier, later, after, split, compiled, size⟩ := accepted_getElem? there
    obtain ⟨turns, draft, becomes⟩ := compile_becomes compiled
    have same : final = after.attempt later := by
      simp only [final, split, attempt_append, attempt_cons, compiled]
    have sound : (start.attempt earlier).PendingSound :=
      run_pendingSound fresh.pendingSound _
    have anchored : ∀ reference ∈ (start.attempt earlier).pending,
        reference.word < (start.attempt earlier).compiled.size :=
      fun reference member => (sound.unitAt (Array.mem_toList_iff.mpr member)).1
    have known : (start.attempt earlier).order = .firstMatch :=
      (congrArg Setup.order (attempt_frame start earlier).1).trans order
    obtain ⟨code, kept, laid⟩ := becomes.yields.run anchored
      (later.map (fun definition => .compile definition.text definition.line) ++ [.finish])
    rw [← attempt_finish_eq, ← same] at kept
    have here : (start.attempt earlier).compiled.size = place := by
      rw [size, fresh.compiled]
      simp
    refine ⟨earlier, later, turns, draft, code, split, becomes.passes, becomes.read,
      becomes.yields.outside, here ▸ kept, laid, ?_⟩
    intro turn member constant kind
    have agree : definition.HintsAgree := agreeing definition (by simp [split])
    have ends : final.PendingSound := run_pendingSound fresh.pendingSound _
    rw [same] at ends finished kept ⊢
    exact becomes.answers compiled known agree anchored ends finished kept laid member kind

end State

def firstMatchStart : State :=
  { sampleStart with order := .firstMatch }

/-- A word with references of every sort: to a later word that is declared twice, to its own
constant before and after the comment that names it, to a native word and to no word at all. -/
def firstMatchDefinitions : List Source.Definition :=
  [⟨": w %late %OWN ( 'OWN ) %OWN %dup %never ;", some 1⟩, ⟨": broken %late .\" open ;", some 2⟩,
    ⟨": late %OWN ;", some 3⟩, ⟨": late %late ;", some 4⟩]

theorem firstMatch_references_sample :
    let final := firstMatchStart.attempt firstMatchDefinitions
    firstMatchStart.Fresh ∧ firstMatchStart.order = .firstMatch ∧
      (∀ definition ∈ firstMatchDefinitions, definition.HintsAgree) ∧
      final.finish.2 = none ∧ final.constants = ["dup", "OWN", "late", "late"] ∧
      final.finish.1.compiled.toList.map CompiledWord.code =
        [#[0, 2, 1, 1, 0, 0], #[0, 1], #[0, 2]] ∧
      final.finish.1.diagnostics.toList.filter
          (fun diagnostic => diagnostic.problem.kind = .unresolvedReference) =
        [⟨.unresolvedReference (some "never"),
          { word := some "w", line := some 1, column := some 32 }⟩] ∧
      ∃ earlier later turns code, ∃ word : CompiledWord,
        firstMatchDefinitions = earlier ++ ⟨": late %late ;", some 4⟩ :: later ∧
        (codeTurns turns).map (fun turn => turn.token.kind) = [.reference (some "late")] ∧
        final.finish.1.compiled[2]? = some { word with code := code } ∧
        ∀ turn ∈ codeTurns turns, ∃ unit, turn.unitsIn code = [unit] ∧
          final.Answers "late" unit := by
  have fresh : firstMatchStart.Fresh := ⟨rfl, rfl, rfl⟩
  have agreeing : ∀ definition ∈ firstMatchDefinitions, definition.HintsAgree := by decide +kernel
  have evaluated : (firstMatchStart.attempt firstMatchDefinitions).unanswered
        (firstMatchStart.accepted firstMatchDefinitions) =
        [⟨.unresolvedReference (some "never"),
          { word := some "w", line := some 1, column := some 32 }⟩] ∧
      (firstMatchStart.accepted firstMatchDefinitions)[2]?.map Prod.fst =
        some ⟨": late %late ;", some 4⟩ ∧
      (firstMatchStart.attempt firstMatchDefinitions).constants =
        ["dup", "OWN", "late", "late"] ∧
      (firstMatchStart.attempt firstMatchDefinitions).finish.1.compiled.toList.map
        CompiledWord.code = [#[0, 2, 1, 1, 0, 0], #[0, 1], #[0, 2]] := by decide +kernel
  obtain ⟨said, third, constants, codes⟩ := evaluated
  have last : (Token.outside 0 (Source.Definition.tokens ⟨": late %late ;", some 4⟩)).map
      Token.kind = [.reference (some "late")] := by decide +kernel
  obtain ⟨returns, -, -, finished⟩ := State.firstMatch_references fresh rfl agreeing
  have done : (firstMatchStart.attempt firstMatchDefinitions).finish.2 = none := by
    rw [returns, said]
    decide +kernel
  obtain ⟨problems, words⟩ := finished done
  obtain ⟨⟨definition, index, word⟩, listed, rfl⟩ := Option.map_eq_some_iff.mp third
  obtain ⟨earlier, later, turns, draft, code, split, -, -, outside, there, -, answers⟩ :=
    words 2 _ index word listed
  have kinds : (codeTurns turns).map (fun turn => turn.token.kind) =
      [.reference (some "late")] := by
    rw [← last, ← outside, List.map_map]
    rfl
  refine ⟨fresh, rfl, agreeing, done, constants, codes, problems.trans said, earlier, later, turns,
    code, word, split, kinds, there, ?_⟩
  intro turn member
  refine answers turn member "late" (List.mem_singleton.mp ?_)
  rw [← kinds]
  exact List.mem_map_of_mem member

/-- A reference that finds no word, at a line of 4301 digits, before one that finds its word in the
end. -/
def farDefinitions : List Source.Definition :=
  [⟨": w\n%zz ;", some (10 ^ Text.maxDigits - 1)⟩, ⟨": v %late ;", some 1⟩, ⟨": late ;", some 2⟩]

theorem reference_left_behind_digits :
    let final := firstMatchStart.attempt farDefinitions
    firstMatchStart.Fresh ∧ firstMatchStart.order = .firstMatch ∧
      (∀ definition ∈ farDefinitions, definition.HintsAgree) ∧
      farDefinitions.map (fun definition =>
          (Token.outside 0 definition.tokens).map Token.kind) =
        [[.reference (some "zz")], [.reference (some "late")], []] ∧
      final.finish.1.compiled.toList.map (fun word => (word.name, word.code)) =
        [("w", #[0, 0]), ("v", #[0, 0]), ("late", #[0])] ∧
      final.finish.1.diagnostics = #[] ∧
      ¬ final.finish.1.Answers "late" 0 := by
  intro final
  have evaluated : final.finish.1.constants = ["dup", "w", "v", "late"] ∧
      final.finish.1.compiled.toList.map (fun word => (word.name, word.code)) =
        [("w", #[0, 0]), ("v", #[0, 0]), ("late", #[0])] ∧
      final.finish.1.diagnostics = #[] := by decide +kernel
  obtain ⟨constants, codes, silent⟩ := evaluated
  refine ⟨⟨rfl, rfl, rfl⟩, rfl, by decide +kernel, by decide +kernel, codes, silent, ?_⟩
  rintro (⟨index, least, unit⟩ | ⟨absent, -⟩)
  · rw [constants] at least
    have bound := least.2 (show ["dup", "w", "v", "late"][3]? = some "late" from rfl)
    obtain rfl : index = 0 := by omega
    exact absurd least.1 (by decide)
  · exact absent (by simp [constants])

end Compiler

end ThreadedCode
