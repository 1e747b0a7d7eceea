import ThreadedCode.Proofs.Definition
import ThreadedCode.Proofs.Symbols
import ThreadedCode.Source

/-!
# Sessions

A session compiles definitions one after another and settles pending references now and then, in any
order and whatever fails. What was set up before the first call never changes, and of the words
compiled before a call nothing changes but the units at which a reference is pending.
-/

namespace ThreadedCode.Compiler

/-- A call in a session. -/
inductive Command where
  | compile (source : String) (line : Option Int)
  | finish

/-- What a state is set up with. -/
structure Setup where
  catalog : Catalog
  slots : Variables
  bootstrap : Bootstrap
  order : Order
  names : BootstrapNames
  encode : Text.Codec
  filename : Option String

namespace State

/-- The state after a call, be it a word that comes of it, nothing or a failure. -/
def execute (state : State) : Command → State
  | .compile source line => (state.compile source line).1
  | .finish => state.finish.1

def run (state : State) (commands : List Command) : State :=
  commands.foldl execute state

/-- The state after some definitions have been compiled in turn, whether they fail or not. -/
def attempt (state : State) (definitions : List Source.Definition) : State :=
  state.run (definitions.map fun definition => .compile definition.text definition.line)

def setup (state : State) : Setup :=
  { catalog := state.catalog
    slots := state.slots
    bootstrap := state.bootstrap
    order := state.order
    names := state.names
    encode := state.encode
    filename := state.filename }

def unitAt (state : State) (word position : Nat) : Option Int :=
  state.compiled[word]?.bind fun entry => entry.code[position]?

/-- Whether a pending reference waits at a unit. -/
def Awaits (state : State) (word position : Nat) : Prop :=
  ∃ reference ∈ state.pending, reference.word = word ∧ reference.position = position

/-- Every compiled word of `state` is at the same place in `later`, and of its code only units at
the given spots may differ. -/
def Keeps (spots : Nat → Nat → Prop) (state later : State) : Prop :=
  ∀ place word, state.compiled[place]? = some word →
    ∃ code, later.compiled[place]? = some { word with code := code } ∧
      code.size = word.code.size ∧
      ∀ position, ¬ spots place position → code[position]? = word.code[position]?

/-! ### Words that are kept -/

theorem Keeps.of_eq {spots : Nat → Nat → Prop} {state later : State}
    (same : later.compiled = state.compiled) : Keeps spots state later := by
  intro place word present
  exact ⟨word.code, by rw [same, present], rfl, fun _ _ => rfl⟩

theorem Keeps.mono {spots wider : Nat → Nat → Prop} {state later : State}
    (kept : Keeps spots state later)
    (included : ∀ place < state.compiled.size, ∀ position, spots place position →
      wider place position) : Keeps wider state later := by
  intro place word present
  obtain ⟨code, there, size, agree⟩ := kept place word present
  have inside := (Array.getElem?_eq_some_iff.mp present).1
  exact ⟨code, there, size,
    fun position outside => agree position fun spot => outside (included place inside position spot)⟩

theorem Keeps.trans {spots : Nat → Nat → Prop} {state middle later : State}
    (first : Keeps spots state middle) (second : Keeps spots middle later) :
    Keeps spots state later := by
  intro place word present
  obtain ⟨code, there, size, agree⟩ := first place word present
  obtain ⟨code', there', size', agree'⟩ := second place _ there
  exact ⟨code', there', size'.trans size,
    fun position outside => (agree' position outside).trans (agree position outside)⟩

theorem Keeps.unitAt {spots : Nat → Nat → Prop} {state later : State}
    (kept : Keeps spots state later) {word position : Nat} (inside : word < state.compiled.size)
    (outside : ¬ spots word position) :
    later.unitAt word position = state.unitAt word position := by
  obtain ⟨code, there, -, agree⟩ := kept word _ (Array.getElem?_eq_getElem inside)
  simp [State.unitAt, there, Array.getElem?_eq_getElem inside, agree position outside]

theorem Keeps.unitAt_isSome {spots : Nat → Nat → Prop} {state later : State}
    (kept : Keeps spots state later) {word position : Nat}
    (present : (state.unitAt word position).isSome) : (later.unitAt word position).isSome := by
  obtain ⟨unit, found⟩ := Option.isSome_iff_exists.mp present
  obtain ⟨entry, there, within⟩ := Option.bind_eq_some_iff.mp found
  obtain ⟨code, there', size, -⟩ := kept word entry there
  have inside := (Array.getElem?_eq_some_iff.mp within).1
  simp [State.unitAt, there', size, inside]

theorem Keeps.prefix_map {β : Type} {spots : Nat → Nat → Prop} {state later : State}
    (kept : Keeps spots state later) (f : CompiledWord → β)
    (codeless : ∀ (word : CompiledWord) code, f { word with code := code } = f word) :
    (state.compiled.map f).toList <+: (later.compiled.map f).toList := by
  rw [List.prefix_iff_getElem?]
  intro place inside
  have bound : place < state.compiled.size := by simpa using inside
  obtain ⟨code, there, -⟩ := kept place _ (Array.getElem?_eq_getElem bound)
  simp [there, codeless]

/-! ### Overwriting one unit -/

theorem compiled_setUnit (state : State) (word position place : Nat) (value : Int) :
    (state.setUnit word position value).compiled[place]? =
      if word = place then
        state.compiled[place]?.map fun entry =>
          { entry with code := entry.code.setIfInBounds position value }
      else state.compiled[place]? := by
  simp [setUnit, Array.getElem?_modify]

theorem symbols_setUnit (state : State) (word position : Nat) (value : Int) :
    (state.setUnit word position value).symbols = state.symbols := by
  unfold symbols
  congr 1
  apply Array.ext_getElem?
  intro place
  rw [Array.getElem?_map, compiled_setUnit, Array.getElem?_map]
  split
  · cases state.compiled[place]? <;> rfl
  · rfl

theorem keeps_setUnit (state : State) (word position : Nat) (value : Int) :
    Keeps (fun place spot => place = word ∧ spot = position) state
      (state.setUnit word position value) := by
  intro place entry present
  by_cases same : word = place
  · refine ⟨entry.code.setIfInBounds position value, ?_, by simp, fun spot outside => ?_⟩
    · rw [compiled_setUnit, if_pos same, present]
      rfl
    · exact Array.getElem?_setIfInBounds_ne fun hit => outside ⟨same.symm, hit.symm⟩
  · exact ⟨entry.code, by rw [compiled_setUnit, if_neg same, present], rfl, fun _ _ => rfl⟩

theorem unitAt_setUnit {state : State} {word position : Nat} (value : Int)
    (present : (state.unitAt word position).isSome) :
    (state.setUnit word position value).unitAt word position = some value := by
  obtain ⟨unit, found⟩ := Option.isSome_iff_exists.mp present
  obtain ⟨entry, there, within⟩ := Option.bind_eq_some_iff.mp found
  have inside := (Array.getElem?_eq_some_iff.mp within).1
  simp [unitAt, compiled_setUnit, there, inside]

/-! ### The references of a new word -/

/-- The word that a reference names, if any word has the constant. -/
def resolve? (state : State) (name : Option String) : Option Nat :=
  name.bind state.findConstant?

theorem resolve?_congr {state other : State} (setup : other.setup = state.setup)
    (symbols : other.symbols = state.symbols) : other.resolve? = state.resolve? := by
  funext name
  have same := search_congr (congrArg Setup.order setup) symbols
  cases name with
  | none => rfl
  | some name => simp [resolve?, findConstant?, same]

theorem size_compiled_congr {state other : State} (setup : other.setup = state.setup)
    (symbols : other.symbols = state.symbols) : other.compiled.size = state.compiled.size := by
  have catalog : other.catalog = state.catalog := congrArg Setup.catalog setup
  have sizes := congrArg Array.size symbols
  simp only [size_symbols, nextIndex, catalog] at sizes
  omega

/-- The pending reference of a note in the code of a word, which has the flags in front. -/
def pendingOf (word : Nat) (note : Fixup) : PendingReference where
  word := word
  position := note.position + 1
  name := note.name
  line := note.line
  column := note.column

/-- What filling in notes of one word does: those that name a word are overwritten, and the others
are pending. -/
structure Filled (word : Nat) (notes : List Fixup) (state later : State) : Prop where
  setup : later.setup = state.setup
  symbols : later.symbols = state.symbols
  diagnostics : later.diagnostics = state.diagnostics
  pending : later.pending.toList = state.pending.toList ++
    (notes.filter fun note => (state.resolve? note.name).isNone).map (pendingOf word)
  keeps : Keeps (fun place spot => place = word ∧
    ∃ note ∈ notes, (state.resolve? note.name).isSome ∧ spot = note.position + 1) state later

theorem filled_cons {word : Nat} {note : Fixup} {notes : List Fixup} {state later : State}
    (rest : Filled word notes (fillReference word state note) later) :
    Filled word (note :: notes) state later := by
  obtain ⟨setup, symbols, diagnostics, pending, keeps⟩ := rest
  cases resolved : state.resolve? note.name with
  | some index =>
    have step : fillReference word state note = state.setUnit word (note.position + 1) index := by
      unfold resolve? at resolved
      simp [fillReference, resolved]
    have unchanged := symbols_setUnit state word (note.position + 1) index
    have same : (state.setUnit word (note.position + 1) index).resolve? = state.resolve? :=
      resolve?_congr rfl unchanged
    rw [step] at setup symbols diagnostics pending keeps
    rw [same] at pending keeps
    refine ⟨setup, symbols.trans unchanged, diagnostics, ?_, ?_⟩
    · rw [pending, List.filter_cons_of_neg (by simp [resolved])]
      rfl
    · refine (Keeps.mono (keeps_setUnit state word (note.position + 1) index) ?_).trans
        (Keeps.mono keeps ?_)
      · rintro place - spot ⟨rfl, rfl⟩
        exact ⟨rfl, note, List.mem_cons_self, by simp [resolved], rfl⟩
      · rintro place - spot ⟨rfl, other, member, found, rfl⟩
        exact ⟨rfl, other, List.mem_cons_of_mem _ member, found, rfl⟩
  | none =>
    have step : fillReference word state note =
        { state with pending := state.pending.push (pendingOf word note) } := by
      unfold resolve? at resolved
      simp [fillReference, resolved, pendingOf]
    have same : (fillReference word state note).resolve? = state.resolve? := by
      rw [step]
      exact resolve?_congr rfl rfl
    rw [same] at pending keeps
    rw [step] at setup symbols diagnostics pending keeps
    refine ⟨setup, symbols, diagnostics, ?_, ?_⟩
    · rw [pending, List.filter_cons_of_pos (by simp [resolved])]
      simp
    · refine (Keeps.of_eq rfl).trans (Keeps.mono keeps ?_)
      rintro place - spot ⟨rfl, other, member, found, rfl⟩
      exact ⟨rfl, other, List.mem_cons_of_mem _ member, found, rfl⟩

theorem filled_foldl (word : Nat) (notes : List Fixup) (state : State) :
    Filled word notes state (notes.foldl (fillReference word) state) := by
  induction notes generalizing state with
  | nil => exact ⟨rfl, rfl, rfl, by simp, Keeps.of_eq rfl⟩
  | cons note notes ih => exact filled_cons (ih _)

def appending (state : State) (draft : Draft) : State :=
  { state with
    compiled := state.compiled.push draft.toWord
    diagnostics := state.diagnostics ++ draft.diagnostics }

theorem addDraft_eq (state : State) (draft : Draft) :
    state.addDraft draft =
      draft.references.toList.foldl (fillReference state.compiled.size) (state.appending draft) := by
  simp [addDraft, appending]

theorem addDraft_filled (state : State) (draft : Draft) :
    Filled state.compiled.size draft.references.toList (state.appending draft)
      (state.addDraft draft) := by
  rw [addDraft_eq]
  exact filled_foldl _ _ _

theorem addDraft_keeps (state : State) (draft : Draft) :
    Keeps (fun _ _ => False) state (state.addDraft draft) := by
  have appended : Keeps (fun place _ => place = state.compiled.size) state
      (state.appending draft) := by
    intro place word present
    have inside := (Array.getElem?_eq_some_iff.mp present).1
    exact ⟨word.code, by simp [appending, Array.getElem?_push_lt inside, present.symm], rfl,
      fun _ _ => rfl⟩
  have filled := Keeps.mono (addDraft_filled state draft).keeps
    (fun place _ spot hit => show place = state.compiled.size from hit.1)
  exact Keeps.mono (appended.trans filled) fun place inside spot hit => by omega

/-- The word that compiling appends has the name, constant, flags and doc of its draft, and of the
draft's code only references that wait may differ. -/
theorem addDraft_word (state : State) (draft : Draft) :
    ∃ code, (state.addDraft draft).compiled[state.compiled.size]? =
        some { draft.toWord with code := code } ∧
      code.size = draft.toWord.code.size ∧
      ∀ position, (¬ ∃ note ∈ draft.references, position = note.position + 1) →
        code[position]? = draft.toWord.code[position]? := by
  obtain ⟨code, there, size, agree⟩ :=
    (addDraft_filled state draft).keeps state.compiled.size draft.toWord (by simp [appending])
  refine ⟨code, there, size, fun position outside => agree position ?_⟩
  rintro ⟨-, note, member, -, same⟩
  exact outside ⟨note, by simpa using member, same⟩

theorem size_addDraft (state : State) (draft : Draft) :
    (state.addDraft draft).compiled.size = state.compiled.size + 1 := by
  have filled := addDraft_filled state draft
  rw [size_compiled_congr filled.setup filled.symbols, appending, Array.size_push]

theorem newest?_addDraft (state : State) (draft : Draft) :
    (state.addDraft draft).newest? =
      (state.addDraft draft).compiled[state.compiled.size]? := by
  rw [newest?, Array.back?_eq_getElem?, size_addDraft, Nat.add_sub_cancel]

/-! ### Settling pending references -/

/-- What is said about a pending reference that names no word. -/
def complaint (state : State) (reference : PendingReference) : Diagnostic where
  problem := .unresolvedReference reference.name
  site :=
    { word := state.holder reference
      line := reference.line
      column := reference.column
      filename := state.filename }

/-- Whether a reference names a word or, if it does not, that can be said. -/
def isSettleable (state : State) (reference : PendingReference) : Bool :=
  (state.resolve? reference.name).isSome || (state.complaint reference).site.isWritable

/-- What settling references does, up to the first that is not settleable: those that name a word
are overwritten, and the others are reported. -/
structure Settled (references : List PendingReference) (state later : State)
    (stopped : Option Text.TooManyDigits) : Prop where
  setup : later.setup = state.setup
  symbols : later.symbols = state.symbols
  pending : later.pending = state.pending
  diagnostics : later.diagnostics.toList = state.diagnostics.toList ++
    ((references.takeWhile state.isSettleable).filter fun reference =>
      (state.resolve? reference.name).isNone).map state.complaint
  keeps : Keeps (fun place spot => ∃ reference ∈ references.takeWhile state.isSettleable,
    (state.resolve? reference.name).isSome ∧ reference.word = place ∧ reference.position = spot)
    state later
  stopped : stopped = none ↔ ∀ reference ∈ references, state.isSettleable reference = true

theorem holder_eq (state : State) (reference : PendingReference) :
    state.holder reference =
      state.symbols[state.catalog.size + reference.word]?.map Prod.fst := by
  have place : state.symbols[state.catalog.size + reference.word]? =
      state.compiled[reference.word]?.map fun word => (word.name, word.constant) := by
    rw [symbols, Array.getElem?_append_right (by simp [Catalog.size])]
    simp [Catalog.size]
  rw [place, holder, Option.map_map]
  rfl

theorem complaint_congr {state other : State} (setup : other.setup = state.setup)
    (symbols : other.symbols = state.symbols) : other.complaint = state.complaint := by
  funext reference
  have catalog : other.catalog = state.catalog := congrArg Setup.catalog setup
  have filename : other.filename = state.filename := congrArg Setup.filename setup
  simp [complaint, filename, holder_eq, catalog, symbols]

theorem isSettleable_congr {state other : State} (setup : other.setup = state.setup)
    (symbols : other.symbols = state.symbols) : other.isSettleable = state.isSettleable := by
  funext reference
  simp [isSettleable, resolve?_congr setup symbols, complaint_congr setup symbols]

theorem settle_ok {state next : State} {reference : PendingReference}
    (settled : state.settle reference = .ok next) :
    state.isSettleable reference = true ∧
      match state.resolve? reference.name with
      | some index => next = state.setUnit reference.word reference.position index
      | none => next = state.reporting #[state.complaint reference] := by
  cases resolved : state.resolve? reference.name with
  | some index =>
    refine ⟨by simp [isSettleable, resolved], ?_⟩
    unfold resolve? at resolved
    simpa [settle, resolved] using settled.symm
  | none =>
    have reported : state.report (.unresolvedReference reference.name)
        (state.complaint reference).site = .ok next := by
      unfold resolve? at resolved
      simpa [settle, resolved, complaint] using settled
    refine ⟨?_, report_ok reported⟩
    by_contra unsaid
    have silent : (state.complaint reference).site.isWritable = false := by
      simpa [isSettleable, resolved] using unsaid
    simp [report, silent] at reported

theorem settle_alike {state next : State} {reference : PendingReference}
    (settled : state.settle reference = .ok next) :
    next.setup = state.setup ∧ next.symbols = state.symbols ∧ next.pending = state.pending ∧
      Keeps (fun _ _ => True) state next := by
  obtain ⟨-, step⟩ := settle_ok settled
  split at step
  · subst step
    exact ⟨rfl, symbols_setUnit _ _ _ _, rfl,
      Keeps.mono (keeps_setUnit _ _ _ _) fun _ _ _ _ => trivial⟩
  · subst step
    exact ⟨rfl, rfl, rfl, Keeps.of_eq rfl⟩

theorem settle_error {state : State} {reference : PendingReference} {limit : Text.TooManyDigits}
    (failed : state.settle reference = .error limit) : state.isSettleable reference = false := by
  unfold settle at failed
  split at failed
  · cases failed
  · rename_i unresolved
    unfold report at failed
    split at failed
    · cases failed
    · rename_i silent
      simp only [isSettleable, resolve?, unresolved]
      simpa [complaint] using silent

theorem settled_cons {reference : PendingReference} {references : List PendingReference}
    {state next later : State} {stopped : Option Text.TooManyDigits}
    (settled : state.settle reference = .ok next) (rest : Settled references next later stopped) :
    Settled (reference :: references) state later stopped := by
  obtain ⟨first, step⟩ := settle_ok settled
  obtain ⟨sameSetup, sameSymbols, -, -⟩ := settle_alike settled
  obtain ⟨setup, symbols, pending, diagnostics, keeps, ends⟩ := rest
  rw [isSettleable_congr sameSetup sameSymbols] at diagnostics keeps ends
  rw [resolve?_congr sameSetup sameSymbols] at diagnostics keeps
  rw [complaint_congr sameSetup sameSymbols] at diagnostics
  have tail : Keeps (fun place spot => ∃ other ∈
      (reference :: references).takeWhile state.isSettleable,
      (state.resolve? other.name).isSome ∧ other.word = place ∧ other.position = spot)
      next later := by
    refine Keeps.mono keeps ?_
    rintro place - spot ⟨other, member, found⟩
    exact ⟨other, by simp [List.takeWhile_cons_of_pos first, member], found⟩
  have stops : stopped = none ↔
      ∀ other ∈ reference :: references, state.isSettleable other = true := by
    rw [ends, List.forall_mem_cons]
    exact ⟨fun others => ⟨first, others⟩, And.right⟩
  cases resolved : state.resolve? reference.name with
  | some index =>
    rw [resolved] at step
    subst step
    refine ⟨setup, symbols.trans sameSymbols, pending, ?_, ?_, stops⟩
    · rw [diagnostics, List.takeWhile_cons_of_pos first,
        List.filter_cons_of_neg (by simp [resolved])]
      rfl
    · refine (Keeps.mono (keeps_setUnit state reference.word reference.position index) ?_).trans
        tail
      rintro place - spot ⟨rfl, rfl⟩
      exact ⟨reference, by simp [List.takeWhile_cons_of_pos first], by simp [resolved], rfl, rfl⟩
  | none =>
    rw [resolved] at step
    subst step
    refine ⟨setup, symbols, pending, ?_, (Keeps.of_eq rfl).trans tail, stops⟩
    rw [diagnostics, List.takeWhile_cons_of_pos first, List.filter_cons_of_pos (by simp [resolved])]
    simp [reporting]

theorem settleAll_settled (state : State) (references : List PendingReference) :
    Settled references state (state.settleAll references).1 (state.settleAll references).2 := by
  induction references generalizing state with
  | nil => exact ⟨rfl, rfl, rfl, by simp [settleAll], Keeps.of_eq rfl, by simp [settleAll]⟩
  | cons reference references ih =>
    rw [settleAll]
    cases settled : state.settle reference with
    | ok next => exact settled_cons settled (ih next)
    | error limit =>
      have first := settle_error settled
      refine ⟨rfl, rfl, rfl, ?_, Keeps.of_eq rfl, ?_⟩
      · rw [List.takeWhile_cons_of_neg (by simp [first])]
        simp
      · simp [first]

theorem finish_settled (state : State) :
    Settled state.pending.toList { state with pending := #[] } state.finish.1 state.finish.2 :=
  settleAll_settled _ _

/-! ### Whole sessions -/

theorem finish_keeps (state : State) : Keeps state.Awaits state state.finish.1 := by
  have emptied : Keeps state.Awaits state { state with pending := #[] } := Keeps.of_eq rfl
  refine emptied.trans (Keeps.mono (finish_settled state).keeps ?_)
  rintro place - spot ⟨reference, member, -, same⟩
  exact ⟨reference, by simpa using (List.takeWhile_sublist _).subset member, same⟩

/-- Compiling is opened by its two cases: problems recorded and nothing else, or the word of a draft
appended. -/
@[elab_as_elim]
theorem execute_compile_cases {motive : State → Prop} {state : State} {source : String}
    {line : Option Int} (nothing : ∀ reports, motive (state.reporting reports))
    (word : ∀ reports tokens draft, definedName source ≠ "" →
      Draft.addBody state (state.newDraft (definedName source)) tokens = (draft, none) →
      motive ((state.reporting reports).addDraft draft)) :
    motive (state.execute (.compile source line)) := by
  rcases compiled : state.compile source line with ⟨after, outcome⟩
  have step : state.execute (.compile source line) = after := by simp [execute, compiled]
  rw [step]
  cases compile_cases compiled with
  | nothing reports wordless => exact nothing reports
  | word reports named start body added => exact word reports _ _ named added

theorem addDraft_invariant {P : State → Prop}
    (waiting : ∀ {state : State} pending, P state → P { state with pending := pending })
    (stores : ∀ {state : State} {name index} word position, P state →
      state.resolve? name = some index → P (state.setUnit word position (index : Nat)))
    {state : State} {draft : Draft} (start : P (state.appending draft)) :
    P (state.addDraft draft) := by
  have filled : ∀ (notes : List Fixup) (word : Nat) {state : State}, P state →
      P (notes.foldl (fillReference word) state) := by
    intro notes word
    induction notes with
    | nil => exact id
    | cons note rest ih =>
      intro state start
      rw [List.foldl_cons]
      refine ih ?_
      unfold fillReference
      split
      · rename_i resolved
        exact stores _ _ start resolved
      · exact waiting _ start
  rw [addDraft_eq]
  exact filled _ _ start

/-- What holds of a state and survives problems, changes of what is pending, the storing of an index
that a name has, and the appending of a word, survives a call. -/
theorem execute_invariant {P : State → Prop}
    (problems : ∀ {state : State} reports, P state → P (state.reporting reports))
    (waiting : ∀ {state : State} pending, P state → P { state with pending := pending })
    (stores : ∀ {state : State} {name index} word position, P state →
      state.resolve? name = some index → P (state.setUnit word position (index : Nat)))
    (appends : ∀ {state : State} {source number tokens draft}, P state → definedName source ≠ "" →
      bodyTokens? source number = some tokens →
      Draft.addBody state (state.newDraft (definedName source)) tokens = (draft, none) →
      P (state.appending draft))
    {state : State} (start : P state) (command : Command) : P (state.execute command) := by
  cases command with
  | finish =>
    have settled : ∀ (references : List PendingReference) {state : State}, P state →
        P (state.settleAll references).1 := by
      intro references
      induction references with
      | nil => exact id
      | cons reference rest ih =>
        intro state start
        rw [settleAll]
        cases settled : state.settle reference with
        | error limit => exact start
        | ok next =>
          obtain ⟨-, step⟩ := settle_ok settled
          refine ih ?_
          split at step
          · rename_i resolved
            exact step ▸ stores _ _ start resolved
          · exact step ▸ problems _ start
    exact settled _ (waiting #[] start)
  | compile source line =>
    rcases compiled : state.compile source line with ⟨after, outcome⟩
    rw [execute, compiled]
    cases compile_cases compiled with
    | nothing reports wordless => exact problems reports start
    | word reports named begins body added =>
      refine addDraft_invariant waiting stores (appends (problems reports start) named body ?_)
      rw [addBody_reporting]
      exact added

theorem run_invariant {P : State → Prop}
    (step : ∀ {state} command, P state → P (state.execute command))
    {state : State} (start : P state) (commands : List Command) : P (state.run commands) := by
  induction commands generalizing state with
  | nil => exact start
  | cons command rest ih => exact ih (step command start)

/-- One call leaves the setup and all words alone, but for units at which a reference is
pending, and no reference comes to be pending in a word that was there before. -/
theorem execute_frame (state : State) (command : Command) :
    (state.execute command).setup = state.setup ∧
      Keeps state.Awaits state (state.execute command) ∧
      ∀ word < state.compiled.size, ∀ position,
        (state.execute command).Awaits word position → state.Awaits word position := by
  cases command with
  | finish =>
    refine ⟨(finish_settled state).setup, finish_keeps state, ?_⟩
    rintro word - position ⟨reference, member, -⟩
    simp [execute, (finish_settled state).pending] at member
  | compile source line =>
    refine execute_compile_cases (fun reports => ?_) fun reports tokens draft named added => ?_
    · exact ⟨rfl, Keeps.of_eq rfl, fun _ _ _ waits => waits⟩
    · have filled := addDraft_filled (state.reporting reports) draft
      have kept := addDraft_keeps (state.reporting reports) draft
      refine ⟨filled.setup, Keeps.mono kept (fun _ _ _ hit => hit.elim), ?_⟩
      rintro word inside position ⟨reference, member, rfl, rfl⟩
      have listed : reference ∈ state.pending.toList ∨ reference.word = state.compiled.size := by
        rw [← Array.mem_toList_iff, filled.pending, List.mem_append] at member
        refine member.imp (fun old => old) fun fresh => ?_
        obtain ⟨note, -, rfl⟩ := List.mem_map.mp fresh
        rfl
      rcases listed with old | fresh
      · exact ⟨reference, by simpa using old, rfl, rfl⟩
      · omega

/-- Of the words of a state a session only ever changes units at which a reference is pending. -/
theorem run_frame (state : State) (commands : List Command) :
    (state.run commands).setup = state.setup ∧
      Keeps state.Awaits state (state.run commands) := by
  induction commands generalizing state with
  | nil => exact ⟨rfl, Keeps.of_eq rfl⟩
  | cons command commands ih =>
    obtain ⟨setup, keeps, older⟩ := execute_frame state command
    obtain ⟨laterSetup, laterKeeps⟩ := ih (state.execute command)
    refine ⟨laterSetup.trans setup, ?_⟩
    -- What is pending after the first call may be in its new word, so `Keeps.trans` does not apply.
    intro place word present
    have inside := (Array.getElem?_eq_some_iff.mp present).1
    obtain ⟨code, there, size, agree⟩ := keeps place word present
    obtain ⟨code', there', size', agree'⟩ := laterKeeps place _ there
    refine ⟨code', there', size'.trans size, fun position outside => ?_⟩
    exact (agree' position fun waits => outside (older place inside position waits)).trans
      (agree position outside)

/-- Of a word that is appended a session only ever changes the units of references that its draft
has noted. -/
theorem run_addDraft {state : State}
    (anchored : ∀ reference ∈ state.pending, reference.word < state.compiled.size) (draft : Draft)
    (commands : List Command) :
    ∃ code, ((state.addDraft draft).run commands).compiled[state.compiled.size]? =
        some { draft.toWord with code := code } ∧
      ∀ position, (¬ ∃ note ∈ draft.references, position = note.position + 1) →
        code[position]? = draft.toWord.code[position]? := by
  obtain ⟨code, there, -, agree⟩ := addDraft_word state draft
  obtain ⟨code', kept, -, agree'⟩ := (run_frame (state.addDraft draft) commands).2 _ _ there
  refine ⟨code', kept, fun position unnoted => ?_⟩
  rw [← agree position unnoted]
  refine agree' position ?_
  rintro ⟨reference, member, inWord, rfl⟩
  rw [← Array.mem_toList_iff, (addDraft_filled state draft).pending, List.mem_append] at member
  rcases member with old | fresh
  · have bound := anchored reference (Array.mem_toList_iff.mp old)
    omega
  · obtain ⟨note, waiting, rfl⟩ := List.mem_map.mp fresh
    exact unnoted ⟨note, by simpa using (List.mem_filter.mp waiting).1, rfl⟩

end State

end ThreadedCode.Compiler
