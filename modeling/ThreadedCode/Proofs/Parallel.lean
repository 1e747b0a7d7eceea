import ThreadedCode.Proofs.Simulation

/-!
# Two calls side by side

A call adds a word, reports and pending references to a state, and leaves alone what is there
(`State.adding`). In two states that look up alike before the call and after it, it adds the same,
apart from the file that reports are in (`compile_parallel`).
-/

namespace ThreadedCode

def Site.refile (file : Option String → Option String) (site : Site) : Site :=
  { site with filename := file site.filename }

def Diagnostic.refile (file : Option String → Option String) (diagnostic : Diagnostic) :
    Diagnostic :=
  { diagnostic with site := diagnostic.site.refile file }

namespace Compiler

def Failure.refile (file : Option String → Option String) : Failure → Failure
  | .fault diagnostic => .fault (diagnostic.refile file)
  | failure => failure

def Draft.refile (file : Option String → Option String) (draft : Draft) : Draft :=
  { draft with
    filename := file draft.filename
    diagnostics := draft.diagnostics.map (Diagnostic.refile file) }

/-! ### Words -/

namespace State

variable {state twin : State}

/-- The state with what a call adds to it. -/
def adding (state : State) (words : Array CompiledWord) (reports : Array Diagnostic)
    (fresh : Array PendingReference) : State :=
  { state with
    compiled := state.compiled ++ words
    diagnostics := state.diagnostics ++ reports
    pending := state.pending ++ fresh }

/-- The code of a word with the references that name a word filled in. -/
def bindNotes (resolve : Option String → Option Nat) (notes : List Fixup) (code : Array Int) :
    Array Int :=
  notes.foldl (fun code note =>
    match resolve note.name with
    | some index => code.setIfInBounds (note.position + 1) index
    | none => code) code

theorem setUnit_adding (state : State) (word : CompiledWord) (reports : Array Diagnostic)
    (fresh : Array PendingReference) (position : Nat) (value : Int) :
    (state.adding #[word] reports fresh).setUnit state.compiled.size position value =
      state.adding #[{ word with code := word.code.setIfInBounds position value }] reports
        fresh := by
  have compiled : ((state.adding #[word] reports fresh).setUnit state.compiled.size position
      value).compiled =
        state.compiled ++ #[{ word with code := word.code.setIfInBounds position value }] := by
    apply Array.ext_getElem?
    intro place
    rw [compiled_setUnit]
    simp only [adding, Array.getElem?_append]
    grind
  simp only [adding, setUnit] at compiled ⊢
  rw [compiled]

theorem foldl_fillReference_adding {resolve : Option String → Option Nat} (notes : List Fixup)
    {word : CompiledWord} {reports : Array Diagnostic} {fresh : Array PendingReference}
    (resolves : (state.adding #[word] reports fresh).resolve? = resolve) :
    notes.foldl (fillReference state.compiled.size) (state.adding #[word] reports fresh) =
      state.adding #[{ word with code := bindNotes resolve notes word.code }] reports
        (fresh ++ ((notes.filter fun note => (resolve note.name).isNone).map
          (pendingOf state.compiled.size)).toArray) := by
  induction notes generalizing word fresh with
  | nil => simp [bindNotes]
  | cons note notes ih =>
    have step : fillReference state.compiled.size (state.adding #[word] reports fresh) note =
        match resolve note.name with
        | some index => (state.adding #[word] reports fresh).setUnit state.compiled.size
            (note.position + 1) index
        | none =>
          state.adding #[word] reports (fresh.push (pendingOf state.compiled.size note)) := by
      rw [fillReference, ← resolves, resolve?]
      cases note.name.bind (state.adding #[word] reports fresh).findConstant? with
      | some index => rfl
      | none => simp [adding, pendingOf, Array.push_append]
    rw [List.foldl_cons, step]
    cases found : resolve note.name with
    | some index =>
      dsimp only
      have same : (state.adding #[{ word with
          code := word.code.setIfInBounds (note.position + 1) index }] reports fresh).resolve? =
            resolve := by
        rw [← resolves]
        exact resolve?_congr rfl (by simp [symbols, adding])
      rw [setUnit_adding, ih same]
      simp [bindNotes, found]
    | none =>
      dsimp only
      rw [ih (by rw [← resolves]; exact resolve?_congr rfl rfl)]
      simp [bindNotes, found]

/-- What a draft adds: its word, with the references that name a word filled in, its reports, and the
other references. -/
theorem addDraft_adding (state : State) (draft : Draft) :
    state.addDraft draft =
      state.adding
        #[{ draft.toWord with
            code := bindNotes (state.appending draft).resolve? draft.references.toList
              draft.toWord.code }]
        draft.diagnostics
        ((draft.references.toList.filter fun note =>
          ((state.appending draft).resolve? note.name).isNone).map
            (pendingOf state.compiled.size)).toArray := by
  have start : state.appending draft = state.adding #[draft.toWord] draft.diagnostics #[] := by
    simp [appending, adding]
  rw [addDraft_eq, start, foldl_fillReference_adding _ rfl, Array.empty_append]

end State

namespace Likeness

variable {like : Likeness} {state twin : State} {draft other : Draft}

structure Words (like : Likeness) (word other : CompiledWord) : Prop where
  name : other.name = word.name
  constant : other.constant = word.constant
  flags : other.flags = word.flags
  code : other.code = word.code
  doc : like.documented → other.doc = word.doc

structure Pendings (like : Likeness) (reference other : PendingReference) : Prop where
  word : other.word = reference.word
  position : other.position = reference.position
  name : other.name = reference.name
  spot : like.spots (reference.line, reference.column) (other.line, other.column)

theorem Drafts.toWord (drafts : like.Drafts draft other) :
    like.Words draft.toWord other.toWord where
  name := drafts.word
  constant := by rw [Draft.toWord, Draft.toWord, drafts.hint, drafts.word]
  flags := drafts.flags
  code := by rw [Draft.toWord, Draft.toWord, drafts.flags, drafts.code]
  doc compared := by
    rw [Draft.toWord, Draft.toWord, Draft.docText?, Draft.docText?, drafts.doc compared]

theorem bindNotes_congr {notes others : List Fixup} (alike : List.Forall₂ like.Notes notes others)
    (resolve : Option String → Option Nat) (code : Array Int) :
    State.bindNotes resolve others code = State.bindNotes resolve notes code := by
  induction alike generalizing code with
  | nil => rfl
  | @cons note other notes others here rest ih =>
    rw [State.bindNotes, State.bindNotes, List.foldl_cons, List.foldl_cons, here.name,
      here.position]
    exact ih _

theorem filter_notes {notes others : List Fixup} (alike : List.Forall₂ like.Notes notes others)
    (p : Option String → Bool) :
    List.Forall₂ like.Notes (notes.filter (p ·.name)) (others.filter (p ·.name)) := by
  induction alike with
  | nil => exact .nil
  | @cons note other notes others here rest ih =>
    rw [List.filter_cons, List.filter_cons, here.name]
    split
    · exact .cons here ih
    · exact ih

/-- Like drafts add like words and references to two states that look constants up alike. -/
theorem addDraft_alike (drafts : like.Drafts draft other)
    (resolves : (twin.appending other).resolve? = (state.appending draft).resolve?)
    (size : twin.compiled.size = state.compiled.size) :
    ∃ word entry fresh later, like.Words word entry ∧
      List.Forall₂ like.Pendings fresh.toList later.toList ∧
      state.addDraft draft = state.adding #[word] draft.diagnostics fresh ∧
      twin.addDraft other = twin.adding #[entry] other.diagnostics later := by
  have words := drafts.toWord
  refine ⟨_, _, _, _, ?_, ?_, State.addDraft_adding state draft, State.addDraft_adding twin other⟩
  · refine ⟨words.name, words.constant, words.flags, ?_, words.doc⟩
    dsimp only
    rw [resolves, words.code, bindNotes_congr drafts.references]
  · rw [resolves, size, List.toList_toArray, List.toList_toArray, List.forall₂_map_left_iff,
      List.forall₂_map_right_iff]
    refine (filter_notes drafts.references fun name =>
      ((state.appending draft).resolve? name).isNone).imp fun note other notes => ?_
    exact ⟨rfl, congrArg (· + 1) notes.position, notes.name, notes.spot⟩

end Likeness

/-! ### The same places -/

/-- Everything stands where it did, but the file may have another name. -/
def Likeness.refiled (file : Option String → Option String) (unfiled : file none = none) :
    Likeness where
  spots := Eq
  file := file
  unfiled := unfiled
  documented := True

namespace Likeness

variable {file : Option String → Option String} {unfiled : file none = none} {state twin : State}
  {draft other : Draft}

theorem eq_map_of_forall₂ {α β : Type} {R : α → β → Prop} {f : α → β} {xs : List α} {ys : List β}
    (related : List.Forall₂ R xs ys) (graph : ∀ x y, R x y → y = f x) : ys = xs.map f := by
  induction related with
  | nil => rfl
  | cons here _ ih => rw [List.map_cons, ← graph _ _ here, ← ih]

theorem Reports.eq_refile {report other : Diagnostic}
    (reports : (refiled file unfiled).Reports report other) : other = report.refile file := by
  obtain ⟨problem, word, spot, filename⟩ := reports
  obtain ⟨line, column⟩ := Prod.mk.inj spot
  obtain ⟨_, _, _, _, _⟩ := other
  cases problem
  cases word
  cases line
  cases column
  cases filename
  rfl

theorem Notes.eq {note other : Fixup} (notes : (refiled file unfiled).Notes note other) :
    other = note := by
  obtain ⟨position, name, spot⟩ := notes
  obtain ⟨line, column⟩ := Prod.mk.inj spot
  obtain ⟨_, _, _, _⟩ := other
  cases position
  cases name
  cases line
  cases column
  rfl

theorem Pendings.eq {reference other : PendingReference}
    (pendings : (refiled file unfiled).Pendings reference other) : other = reference := by
  obtain ⟨word, position, name, spot⟩ := pendings
  obtain ⟨line, column⟩ := Prod.mk.inj spot
  obtain ⟨_, _, _, _, _⟩ := other
  cases word
  cases position
  cases name
  cases line
  cases column
  rfl

theorem Words.eq {word other : CompiledWord} (words : (refiled file unfiled).Words word other) :
    other = word := by
  obtain ⟨name, constant, flags, code, doc⟩ := words
  have doc := doc trivial
  cases other
  simp_all

theorem Drafts.eq_refile (drafts : (refiled file unfiled).Drafts draft other) :
    other = draft.refile file := by
  have reports : other.diagnostics = draft.diagnostics.map (Diagnostic.refile file) := by
    rw [← Array.toList_inj, Array.toList_map]
    exact eq_map_of_forall₂ drafts.reports fun _ _ => Reports.eq_refile
  have uses : other.labelUses = draft.labelUses := by
    rw [← Array.toList_inj, ← List.map_id draft.labelUses.toList]
    exact eq_map_of_forall₂ drafts.labelUses fun _ _ => Notes.eq
  have references : other.references = draft.references := by
    rw [← Array.toList_inj, ← List.map_id draft.references.toList]
    exact eq_map_of_forall₂ drafts.references fun _ _ => Notes.eq
  obtain ⟨word, index, filename, code, flags, labels, -, -, depth, hint, lastWord, -, doc, done⟩ :=
    drafts
  have doc := doc trivial
  have done := done trivial
  have filename : other.filename = file draft.filename := filename
  cases other
  cases draft
  simp_all [Draft.refile]

theorem drafts_refile (file : Option String → Option String) (unfiled : file none = none)
    (draft : Draft) : (refiled file unfiled).Drafts draft (draft.refile file) where
  word := rfl
  index := rfl
  filename := rfl
  code := rfl
  flags := rfl
  labels := rfl
  labelUses := List.forall₂_same.mpr fun _ _ => ⟨rfl, rfl, rfl⟩
  references := List.forall₂_same.mpr fun _ _ => ⟨rfl, rfl, rfl⟩
  depth := rfl
  hint := rfl
  lastWord := rfl
  reports := by
    rw [Draft.refile, Array.toList_map, List.forall₂_map_right_iff, List.forall₂_same]
    exact fun _ _ => ⟨rfl, rfl, rfl, rfl⟩
  doc _ := rfl
  done _ := rfl

theorem Failures.eq_refile {failure reason : Failure}
    (failures : (refiled file unfiled).Failures failure reason) :
    reason = failure.refile file := by
  cases failures with
  | unsited unsited =>
    cases failure with
    | fault report => exact absurd rfl (unsited report)
    | _ => rfl
  | @raised report other reports =>
    obtain rfl := reports.eq_refile
    unfold Failure.ofDiagnostic Diagnostic.raised
    rw [Site.isWritable_congr (show (report.refile file).site.spot = report.site.spot from rfl)]
    split <;> rfl

/-- A body goes the same way in a state that looks up alike, with another file in its reports. -/
theorem addBody_refile (unfiled : file none = none) (sees : State.SeesAlike state twin)
    (silent : draft.IsWritable) (tokens : List Token) :
    Draft.addBody twin (draft.refile file) tokens =
      (Draft.addBody state draft tokens).map (Draft.refile file)
        (Option.map (Failure.refile file)) := by
  have even : ¬ (refiled file unfiled).Uneven := not_uneven fun _ _ => Eq.symm
  have stands : List.Forall₂ (refiled file unfiled).Tokens tokens tokens :=
    List.forall₂_same.mpr fun _ _ => ⟨rfl, rfl, rfl⟩
  have writable : ∀ {draft : Draft}, draft.IsWritable → (draft.refile file).IsWritable := by
    intro draft before report member
    obtain ⟨old, there, rfl⟩ := Array.mem_map.mp member
    exact (before old there : _)
  obtain ⟨said, goesOn⟩ := addBody_follows sees (drafts_refile file unfiled draft) stands
  generalize Draft.addBody state draft tokens = first at said goesOn ⊢
  obtain ⟨final, failure⟩ := first
  obtain ⟨uneven, -⟩ | ⟨⟨reached, reason⟩, finals, failures, -, reaches⟩ := goesOn silent
  · exact absurd uneven even
  · obtain rfl := finals.eq_refile
    rw [(reaches (writable silent)).whole (writable (said silent))]
    cases failures with
    | some failures => rw [failures.eq_refile]; rfl
    | none => rfl

end Likeness

/-! ### Definitions -/

namespace State

variable {turn : Order → Order} {file : Option String → Option String} {state twin : State}

/-- Two states have the same settings and the same names and constants, natives and compiled words
each in their order. -/
structure SameSymbols (state other : State) : Prop where
  natives : other.catalog.words.map (fun word => (word.name, word.constant)) =
    state.catalog.words.map fun word => (word.name, word.constant)
  compiled : other.compiled.map (fun word => (word.name, word.constant)) =
    state.compiled.map fun word => (word.name, word.constant)
  slots : other.slots = state.slots
  bootstrap : other.bootstrap = state.bootstrap
  names : other.names = state.names
  order : other.order = state.order
  encode : other.encode = state.encode

/-- The state with its order of resolution turned. -/
def turned (turn : Order → Order) (state : State) : State :=
  { state with order := turn state.order }

/-- No lookup notices that the order of resolution is turned. -/
structure Steady (turn : Order → Order) (state : State) : Prop where
  words : (state.turned turn).findWord? = state.findWord?
  constants : (state.turned turn).findConstant? = state.findConstant?

/-- The second state has the symbols and settings of the first, with its order of resolution turned
and another name of its file. -/
structure Alike (turn : Order → Order) (file : Option String → Option String) (state twin : State) :
    Prop extends SameSymbols (state.turned turn) twin where
  filename : twin.filename = file state.filename

theorem SameSymbols.symm {other : State} (same : SameSymbols state other) :
    SameSymbols other state :=
  ⟨same.natives.symm, same.compiled.symm, same.slots.symm, same.bootstrap.symm, same.names.symm,
    same.order.symm, same.encode.symm⟩

theorem SameSymbols.trans {other third : State} (first : SameSymbols state other)
    (second : SameSymbols other third) : SameSymbols state third :=
  ⟨second.natives.trans first.natives, second.compiled.trans first.compiled,
    second.slots.trans first.slots, second.bootstrap.trans first.bootstrap,
    second.names.trans first.names, second.order.trans first.order,
    second.encode.trans first.encode⟩

theorem SameSymbols.symbols {other : State} (same : SameSymbols state other) :
    other.symbols = state.symbols := by
  rw [State.symbols, State.symbols, same.natives, same.compiled]

theorem SameSymbols.sees {other : State} (same : SameSymbols state other) :
    SeesAlike state other := by
  have search : other.search = state.search := search_congr same.order same.symbols
  refine ⟨?_, ?_, same.slots, same.bootstrap, same.names, same.encode⟩
  · funext name
    rw [findWord?, findWord?, search]
  · funext name
    rw [findConstant?, findConstant?, search]

theorem Steady.congr {other : State} (steady : Steady turn state)
    (setup : other.setup = state.setup) (symbols : other.symbols = state.symbols) :
    Steady turn other := by
  have order : other.order = state.order := congrArg Setup.order setup
  have same : other.search = state.search := search_congr order symbols
  have turned : (other.turned turn).search = (state.turned turn).search :=
    search_congr (congrArg turn order) symbols
  refine ⟨?_, ?_⟩
  · funext name
    have words := congrFun steady.words name
    simp only [findWord?, same, turned] at words ⊢
    exact words
  · funext name
    have constants := congrFun steady.constants name
    simp only [findConstant?, same, turned] at constants ⊢
    exact constants

theorem steady_id (state : State) : Steady id state := ⟨rfl, rfl⟩

theorem Alike.sees (alike : Alike turn file state twin) (steady : Steady turn state) :
    SeesAlike state twin := by
  obtain ⟨words, constants, slots, bootstrap, names, encode⟩ := alike.toSameSymbols.sees
  exact ⟨words.trans steady.words, constants.trans steady.constants, slots, bootstrap, names,
    encode⟩

theorem Alike.size_compiled (alike : Alike turn file state twin) :
    twin.compiled.size = state.compiled.size := by
  have sizes := congrArg Array.size alike.compiled
  rwa [Array.size_map, Array.size_map] at sizes

theorem Alike.newDraft (alike : Alike turn file state twin) (word : String) :
    twin.newDraft word = (state.newDraft word).refile file := by
  have next : twin.nextIndex = state.nextIndex := by
    rw [← size_symbols, ← size_symbols, alike.symbols]
    rfl
  simp [State.newDraft, Draft.refile, next, alike.filename]

theorem Alike.adding (alike : Alike turn file state twin) (words : Array CompiledWord)
    (reports others : Array Diagnostic) (fresh later : Array PendingReference) :
    Alike turn file (state.adding words reports fresh) (twin.adding words others later) where
  natives := alike.natives
  compiled := by
    have before := alike.compiled
    simp only [State.adding, turned, Array.map_append] at before ⊢
    rw [before]
  slots := alike.slots
  bootstrap := alike.bootstrap
  names := alike.names
  order := alike.order
  encode := alike.encode
  filename := alike.filename

/-- Two calls, in two states, go the same way but for the name of the file: they add the same to
both, and return the same or fail for the same reason. -/
def Parallel {α : Type} (file : Option String → Option String) (state twin : State)
    (first second : State × Except Failure α) : Prop :=
  ∃ words reports fresh, first.1 = state.adding words reports fresh ∧
    second.1 = twin.adding words (reports.map (Diagnostic.refile file)) fresh ∧
    second.2 = first.2.mapError (Failure.refile file)

theorem Parallel.quiet {α : Type} {outcome : Except Failure α} (state twin : State) :
    Parallel file state twin (state, outcome) (twin, outcome.mapError (Failure.refile file)) :=
  ⟨#[], #[], #[], by simp [State.adding], by simp [State.adding], rfl⟩

theorem newest?_adding (state : State) (word : CompiledWord) (reports : Array Diagnostic)
    (fresh : Array PendingReference) :
    (state.adding #[word] reports fresh).newest? = some word := by
  simp [newest?, adding]

theorem addDraft_parallel (alike : Alike turn file state twin) (unfiled : file none = none)
    {draft : Draft} (after : Steady turn (state.addDraft draft)) :
    Parallel file state twin (state.addDraft draft, .ok (state.addDraft draft).newest?)
      (twin.addDraft (draft.refile file), .ok (twin.addDraft (draft.refile file)).newest?) := by
  have drafts := Likeness.drafts_refile file unfiled draft
  have filled := addDraft_filled state draft
  have appended : Alike turn file (state.appending draft) (twin.appending (draft.refile file)) := by
    have grown :=
      alike.adding #[draft.toWord] draft.diagnostics (draft.refile file).diagnostics #[] #[]
    have word : (draft.refile file).toWord = draft.toWord := rfl
    simpa [State.adding, State.appending, word] using grown
  have resolves : (twin.appending (draft.refile file)).resolve? =
      (state.appending draft).resolve? := by
    have steady := after.congr filled.setup.symm filled.symbols.symm
    funext name
    rw [resolve?, resolve?, (appended.sees steady).constants]
  obtain ⟨word, entry, fresh, later, words, pendings, left, right⟩ :=
    Likeness.addDraft_alike drafts resolves alike.size_compiled
  obtain rfl := words.eq
  obtain rfl : later = fresh := by
    rw [← Array.toList_inj, ← List.map_id fresh.toList]
    exact Likeness.eq_map_of_forall₂ pendings fun _ _ => Likeness.Pendings.eq
  exact ⟨#[entry], draft.diagnostics, later, left, right, by
    rw [left, right, newest?_adding, newest?_adding]
    rfl⟩

theorem compileTokens_parallel (unfiled : file none = none) (alike : Alike turn file state twin)
    {word : String} {tokens : List Token} (before : Steady turn state)
    (after : Steady turn (state.compileTokens word tokens).1) :
    Parallel file state twin (state.compileTokens word tokens)
      (twin.compileTokens word tokens) := by
  have silent := Draft.newDraft_isWritable state word
  unfold compileTokens at after ⊢
  rw [alike.newDraft, Likeness.addBody_refile unfiled (alike.sees before) silent]
  generalize Draft.addBody state (state.newDraft word) tokens = result at after ⊢
  obtain ⟨draft, _ | failure⟩ := result
  · exact addDraft_parallel alike unfiled after
  · exact ⟨#[], draft.diagnostics, #[], by simp [State.adding],
      by simp [State.adding, Draft.refile], rfl⟩

/-- A call that goes on behind reports goes the same way if what follows does. -/
theorem Parallel.behind {α : Type} {first second : State × Except Failure α}
    (said : Array Diagnostic)
    (parallel : Parallel file (state.reporting said)
      (twin.reporting (said.map (Diagnostic.refile file))) first second) :
    Parallel file state twin first second := by
  obtain ⟨words, reports, fresh, left, right, outcome⟩ := parallel
  refine ⟨words, said ++ reports, fresh, ?_, ?_, outcome⟩
  · rw [left]
    simp [State.adding, reporting]
  · rw [right]
    simp [State.adding, reporting]

theorem Alike.reporting (alike : Alike turn file state twin) (reports others : Array Diagnostic) :
    Alike turn file (state.reporting reports) (twin.reporting others) := by
  simpa [State.adding, State.reporting] using alike.adding #[] reports others #[] #[]

theorem Steady.reporting (steady : Steady turn state) (reports : Array Diagnostic) :
    Steady turn (state.reporting reports) :=
  steady.congr rfl rfl

/-- What follows a report goes the same way if it does so in states that are alike again. -/
theorem afterReport_parallel {α : Type} (alike : Alike turn file state twin) {problem : Problem}
    {site : Site} {next next' : State → State × Except Failure α} (before : Steady turn state)
    (after : Steady turn (state.afterReport (state.report problem site) next).1)
    (goesOn : ∀ state twin, Alike turn file state twin → Steady turn state →
      Steady turn (next state).1 → Parallel file state twin (next state) (next' twin)) :
    Parallel file state twin (state.afterReport (state.report problem site) next)
      (twin.afterReport (twin.report problem (site.refile file)) next') := by
  have same : (site.refile file).isWritable = site.isWritable :=
    Site.isWritable_congr (show (site.refile file).spot = site.spot from rfl)
  have reported (state : State) (site : Site) : state.report problem site =
      if site.isWritable then .ok (state.reporting #[⟨problem, site⟩]) else .error {} := by
    simp [report, State.reporting]
  rw [reported] at after ⊢
  rw [reported, same]
  by_cases writable : site.isWritable = true
  · rw [if_pos writable] at after ⊢
    rw [if_pos writable]
    have said := goesOn _ _ (alike.reporting #[⟨problem, site⟩] #[⟨problem, site.refile file⟩])
      (before.reporting _) after
    exact Parallel.behind #[⟨problem, site⟩] (by simpa [afterReport, Diagnostic.refile] using said)
  · rw [if_neg writable, if_neg writable]
    exact .quiet state twin

theorem checkMarker_parallel {α : Type} (alike : Alike turn file state twin) {marker : List Char}
    {site : Site} {next next' : State → State × Except Failure α} (before : Steady turn state)
    (after : Steady turn (state.afterReport (state.checkMarker marker site) next).1)
    (goesOn : ∀ state twin, Alike turn file state twin → Steady turn state →
      Steady turn (next state).1 → Parallel file state twin (next state) (next' twin)) :
    Parallel file state twin (state.afterReport (state.checkMarker marker site) next)
      (twin.afterReport (twin.checkMarker marker (site.refile file)) next') := by
  unfold checkMarker at after ⊢
  by_cases marked : marker = definitionMarker
  · rw [if_pos marked] at after ⊢
    rw [if_pos marked]
    exact goesOn state twin alike before after
  · rw [if_neg marked] at after ⊢
    rw [if_neg marked]
    exact afterReport_parallel alike before after goesOn

/-- The reader of tokens does not know which file it reads. -/
theorem scan_unfiled (unfiled : file none = none) {text : List Char} {word : Option String}
    {line : Int} {reason : Token.ScanError}
    (refused : Token.scan text word (some line) = .error reason) :
    (Failure.ofScan reason).refile file = .ofScan reason := by
  obtain ⟨start, rfl, -⟩ := scan_error refused
  unfold Diagnostic.raised
  split
  · simp [Failure.ofScan, Failure.refile, Diagnostic.refile, Site.refile, unfiled]
  · rfl

theorem compileBody_parallel (unfiled : file none = none) (alike : Alike turn file state twin)
    {word : String} {site : Site} {body : List Char} {line : Int} (before : Steady turn state)
    (after : Steady turn (state.compileBody word site body line).1) :
    Parallel file state twin (state.compileBody word site body line)
      (twin.compileBody word (site.refile file) body line) := by
  unfold compileBody at after ⊢
  cases scanned : Token.scan body (some word) (some line) with
  | error reason =>
    exact ⟨#[], #[], #[], by simp [State.adding], by simp [State.adding],
      congrArg Except.error (scan_unfiled unfiled scanned).symm⟩
  | ok scan =>
    rw [scanned] at after
    dsimp only at after ⊢
    cases ended : dropTerminator? scan.tokens with
    | some tokens =>
      rw [ended] at after
      exact compileTokens_parallel unfiled alike before after
    | none =>
      rw [ended] at after
      exact afterReport_parallel alike before after fun _ _ alike before after =>
        compileTokens_parallel unfiled alike before after

/-- A definition goes the same way in two states that look up alike, before it and behind it. -/
theorem compile_parallel (unfiled : file none = none) (alike : Alike turn file state twin)
    {source : String} {line : Option Int} (before : Steady turn state)
    (after : Steady turn (state.compile source line).1) :
    Parallel file state twin (state.compile source line) (twin.compile source line) := by
  unfold compile at after ⊢
  dsimp only at after ⊢
  rw [alike.filename]
  split
  · rename_i nameless
    rw [if_pos nameless] at after
    exact afterReport_parallel alike before after fun state twin _ _ _ => .quiet state twin
  · rename_i named
    rw [if_neg named] at after
    refine checkMarker_parallel alike before after fun state twin alike before after => ?_
    cases line with
    | none => exact .quiet state twin
    | some line => exact compileBody_parallel unfiled alike before after

end State

end Compiler

end ThreadedCode
