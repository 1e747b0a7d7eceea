import ThreadedCode.Proofs.Columns

/-!
# The displacements of labels

The use of a label holds the distance from its own position to the position of the last token of the
body that defines the label, as a signed 16-bit number. Where no token does, or the distance does
not fit, it holds zero and that is said once, at the token (`compile_label_displacement`). Positions
count the units of the tokens outside comments, whatever their sizes.
-/

namespace ThreadedCode

open Compiler

theorem Code.signed_toUnit {value : Int} (fits : Code.fitsSigned value = true) :
    Code.signed (Code.toUnit value) = value := by
  obtain ⟨least, most⟩ : -32768 ≤ value ∧ value ≤ 32767 := by
    simpa [Code.fitsSigned] using fits
  unfold Code.signed Code.toUnit
  split <;> omega

namespace Compiler

/-! ### What a label stands for -/

/-- A label stands for a position: the number of units in front of the last token that defines it. -/
def LabelAt (turns : List Turn) (name : Option String) (target : Nat) : Prop :=
  ∃ earlier turn later, turns = earlier ++ turn :: later ∧ turn.token.kind = .labelDef name ∧
    (∀ other ∈ later, other.token.kind ≠ .labelDef name) ∧
    target = (earlier.flatMap Turn.units).length

theorem Draft.CodeEffect.defineLabel {state : State} {draft : Draft} {token : Token}
    {effect : Effect} {name : Option String} (cases : Draft.CodeEffect state draft token effect)
    (kind : token.kind = .labelDef name) : effect = .defineLabel name := by
  cases cases with
  | labelDef other => rw [Token.Kind.labelDef.inj (other.symm.trans kind)]
  | plain plain => obtain other | other | ⟨name, other, -⟩ := plain <;> simp_all
  | _ => simp_all

theorem Turn.defines_iff {state : State} {turn : Turn} {name : Option String}
    (found : Draft.effect? state turn.before turn.token = .ok turn.effect) :
    turn.effect = .defineLabel name ↔ turn.inCode = true ∧ turn.token.kind = .labelDef name := by
  cases outside : turn.inCode with
  | true =>
    have cases := turn.codeEffect found outside
    refine ⟨fun defines => ⟨rfl, ?_⟩, fun defines => cases.defineLabel defines.2⟩
    rw [defines] at cases
    cases cases with
    | labelDef kind => exact kind
  | false =>
    refine ⟨fun defines => ?_, fun defines => by cases defines.1⟩
    rcases turn.commentEffect found outside with opening | cases
    · simp [defines] at opening
    · rw [defines] at cases
      cases cases

namespace Draft

theorem lookup_apply {draft : Draft} {token : Token} {effect : Effect} {name : Option String}
    (other : effect ≠ .defineLabel name) :
    (draft.apply token effect).labels.lookup name = draft.labels.lookup name := by
  cases effect with
  | emit block => simp [apply, emit_eq]
  | defineLabel label =>
    have differs : (name == label) = false := by
      simpa using fun same : name = label => other (by rw [same])
    simp [apply, List.lookup_cons, differs]
  | _ => rfl

end Draft

namespace Passes

variable {state : State} {draft final : Draft} {turns : List Turn} {name : Option String}

theorem lookup_undefined (passes : Passes state draft turns final)
    (undefined : ∀ turn ∈ codeTurns turns, turn.token.kind ≠ .labelDef name) :
    final.labels.lookup name = draft.labels.lookup name := by
  have silent : ∀ turn ∈ turns, turn.effect ≠ .defineLabel name := by
    intro turn member defines
    obtain ⟨outside, kind⟩ := (Turn.defines_iff (passes.effect member)).mp defines
    exact undefined turn (List.mem_filter.mpr ⟨member, outside⟩) kind
  clear undefined
  induction passes with
  | nil draft => rfl
  | @cons draft final token effect turns found rest ih =>
    obtain ⟨here, later⟩ := List.forall_mem_cons.mp silent
    rw [ih later, Draft.lookup_apply here]

/-- The labels of a body are those that its tokens outside comments define, the last one counts. -/
theorem lookup_labels {word : String} (passes : Passes state (state.newDraft word) turns final)
    {target : Nat} :
    final.labels.lookup name = some target ↔ LabelAt (codeTurns turns) name target := by
  have defined : ∀ {target}, LabelAt (codeTurns turns) name target →
      final.labels.lookup name = some target := by
    rintro target ⟨earlier, turn, later, split, kind, others, rfl⟩
    obtain ⟨front, back, rfl, rfl, rfl, outside⟩ := codeTurns_split split
    obtain ⟨-, found, rest⟩ := passes.split
    have defines : turn.effect = .defineLabel name :=
      (Turn.defines_iff found).mpr ⟨outside, kind⟩
    rw [rest.lookup_undefined others, Turn.after, defines, Draft.apply, List.lookup_cons_self,
      passes.offset rfl]
  refine ⟨fun found => ?_, defined⟩
  -- If some token defines the label, the last one that does is what has been found.
  rcases exists_last_turn (fun turn => turn.token.kind = .labelDef name) (codeTurns turns) with
    ⟨earlier, turn, later, split, kind, others⟩ | undefined
  · have there : LabelAt (codeTurns turns) name (earlier.flatMap Turn.units).length :=
      ⟨earlier, turn, later, split, kind, others, rfl⟩
    rw [defined there] at found
    rw [← Option.some.inj found]
    exact there
  · rw [passes.lookup_undefined undefined] at found
    cases found

end Passes

/-! ### Filling in uses -/

namespace Draft

theorem patchLabels_stores {draft final : Draft} {notes : List Fixup}
    (patched : draft.patchLabels notes = (final, none))
    (sorted : notes.Pairwise fun first second => first.position < second.position) {note : Fixup}
    (member : note ∈ notes) (inside : note.position < draft.code.units.size) :
    final.code.units[note.position]? = some (Code.toUnit (draft.labelOffset note).1) := by
  induction notes generalizing draft with
  | nil => cases member
  | cons first rest ih =>
    obtain ⟨before, sorted⟩ := List.pairwise_cons.mp sorted
    rw [patchLabels, patchLabel_eq] at patched
    split at patched
    · cases patched
    · rename_i next step
      split at step
      · obtain rfl := Except.ok.inj step
        rcases List.mem_cons.mp member with rfl | later
        · -- The uses behind are at other positions.
          obtain ⟨code, diagnostics, rfl, -, agree⟩ := patchLabels_none patched
          rw [agree _ fun other listed => Nat.ne_of_gt (before other listed)]
          simp [Draft.patched, Code.Buffer.put, inside]
        · have stored := ih patched sorted later (by simpa [Draft.patched] using inside)
          exact stored
      · cases step

theorem apply_labelUses_sorted {draft : Draft} (token : Token) (effect : Effect)
    (sound : NotesSound draft)
    (sorted : draft.labelUses.toList.Pairwise fun first second =>
      first.position < second.position) :
    (draft.apply token effect).labelUses.toList.Pairwise fun first second =>
      first.position < second.position := by
  cases effect with
  | emit block => simpa [apply, emit_eq] using sorted
  | useLabel name =>
    simp only [apply, Array.toList_push]
    refine List.pairwise_append.mpr ⟨sorted, List.pairwise_singleton _ _, ?_⟩
    intro note old other new
    rw [List.mem_singleton.mp new]
    exact sound.labels note old
  | _ => exact sorted

end Draft

namespace Passes

variable {state : State} {draft final : Draft} {turns : List Turn}

theorem labelUses_sorted (passes : Passes state draft turns final) (sound : draft.NotesSound)
    (sorted : draft.labelUses.toList.Pairwise fun first second =>
      first.position < second.position) :
    final.labelUses.toList.Pairwise fun first second => first.position < second.position := by
  induction passes with
  | nil draft => exact sorted
  | @cons draft final token effect turns found rest ih =>
    exact ih (Draft.apply_notesSound token effect sound)
      (Draft.apply_labelUses_sorted token effect sound sorted)

end Passes

/-! ### What is said at a token -/

/-- What is said at the place of a token. -/
def reportsAt (token : Token) (reports : List Diagnostic) : List Diagnostic :=
  reports.filter fun report => report.spot = token.spot

theorem Turn.spot_reports {turn : Turn} {report : Diagnostic} (said : report ∈ turn.reports) :
    report.spot = turn.token.spot := by
  unfold Turn.reports at said
  split at said
  · obtain ⟨problem, -, rfl⟩ := List.mem_map.mp said
    rfl
  · cases said

theorem Turn.spot_labelReport? {turn : Turn} {draft : Draft} {note : Fixup} {report : Diagnostic}
    (left : turn.labelNote? = some note) (said : draft.labelReport? note = some report) :
    report.spot = turn.token.spot := by
  obtain ⟨problem, -, rfl⟩ := Option.map_eq_some_iff.mp said
  unfold Turn.labelNote? at left
  split at left
  · rw [← Option.some.inj left]
    rfl
  · cases left

theorem reportsAt_elsewhere {token : Token} {turns : List Turn}
    (elsewhere : ∀ turn ∈ turns, turn.token.spot ≠ token.spot) (draft : Draft) :
    reportsAt token (turns.flatMap Turn.reports) = [] ∧
      reportsAt token ((turns.filterMap Turn.labelNote?).filterMap draft.labelReport?) = [] := by
  constructor
  · refine List.filter_eq_nil_iff.mpr fun report member here => ?_
    obtain ⟨turn, listed, said⟩ := List.mem_flatMap.mp member
    exact elsewhere turn listed ((Turn.spot_reports said).symm.trans (of_decide_eq_true here))
  · refine List.filter_eq_nil_iff.mpr fun report member here => ?_
    obtain ⟨note, noted, said⟩ := List.mem_filterMap.mp member
    obtain ⟨turn, listed, left⟩ := List.mem_filterMap.mp noted
    exact elsewhere turn listed
      ((Turn.spot_labelReport? left said).symm.trans (of_decide_eq_true here))

/-- At the use of a label nothing is said but what is wrong with the label. -/
theorem reportsAt_use {front back : List Turn} {use : Turn} {name : Option String}
    (distinct : ((front ++ use :: back).map fun turn => turn.token.spot).Nodup)
    (used : use.effect = .useLabel name) (draft : Draft) :
    reportsAt use.token ((front ++ use :: back).flatMap Turn.reports ++
        ((front ++ use :: back).filterMap Turn.labelNote?).filterMap draft.labelReport?) =
      (draft.labelReport? (use.before.fixup use.token name)).toList := by
  rw [List.map_append, List.map_cons, List.nodup_middle, List.nodup_cons, ← List.map_append]
    at distinct
  have elsewhere : ∀ turn ∈ front ++ back, turn.token.spot ≠ use.token.spot :=
    fun turn listed same => distinct.1 (List.mem_map.mpr ⟨turn, listed, same⟩)
  obtain ⟨before, behind⟩ := List.forall_mem_append.mp elsewhere
  obtain ⟨turnsBefore, labelsBefore⟩ := reportsAt_elsewhere before draft
  obtain ⟨turnsBehind, labelsBehind⟩ := reportsAt_elsewhere behind draft
  have silent : use.reports = [] := by rw [Turn.reports, used]
  have note : use.labelNote? = some (use.before.fixup use.token name) := by
    rw [Turn.labelNote?, used]
  unfold reportsAt at *
  cases said : draft.labelReport? (use.before.fixup use.token name) with
  | none => simp [turnsBefore, turnsBehind, labelsBefore, labelsBehind, silent, note, said]
  | some report =>
    have here := Turn.spot_labelReport? note said
    simp [turnsBefore, turnsBehind, labelsBefore, labelsBehind, silent, note, said, here]

theorem reportsAt_columnless {source : String} {number : Int} {tokens : List Token} {token : Token}
    (body : bodyTokens? source number = some tokens) (member : token ∈ tokens)
    {header : List Diagnostic} (columnless : ∀ report ∈ header, report.site.column = none)
    (reports : List Diagnostic) : reportsAt token (header ++ reports) = reportsAt token reports := by
  obtain ⟨front, behind⟩ := tokenBehind_of_bodyTokens body member
  have elsewhere : reportsAt token header = [] := by
    refine List.filter_eq_nil_iff.mpr fun report listed here => ?_
    have columns := congrArg Prod.snd (of_decide_eq_true here)
    simp [Diagnostic.spot, Site.spot, Token.spot, columnless report listed, behind.column] at columns
  unfold reportsAt at *
  rw [List.filter_append, elsewhere, List.nil_append]

/-! ### Definitions -/

/-- The unit of a label's use, at a position of the body, and what is said at its token are those
that the last token defining the label calls for. -/
structure Displaced (turns : List Turn) (name : Option String) (place : Nat) (unit : Int)
    (site : Site) (said : List Diagnostic) : Prop where
  reached : ∀ target, LabelAt turns name target → -32768 ≤ (target : Int) - place →
    (target : Int) - place ≤ 32767 → place + Code.signed unit = target ∧ said = []
  missed : (∀ target, LabelAt turns name target →
      ¬ (-32768 ≤ (target : Int) - place ∧ (target : Int) - place ≤ 32767)) →
    unit = 0 ∧ ∃ problem, problem.kind = .unresolvedLabel ∧ said = [⟨problem, site⟩]

theorem Passes.displaced {state : State} {draft : Draft} {word : String} {turns : List Turn}
    (passes : Passes state (state.newDraft word) turns draft) (note : Fixup) (site : Site) :
    Displaced (codeTurns turns) note.name note.position
      (Code.toUnit (draft.labelOffset note).1) site
      ((draft.labelOffset note).2.map fun problem => ⟨problem, site⟩).toList := by
  have range : ∀ value : Int,
      Code.fitsSigned value = true ↔ -32768 ≤ value ∧ value ≤ 32767 := by
    simp [Code.fitsSigned]
  constructor
  · intro target there least most
    have fits := (range (target - note.position)).mpr ⟨least, most⟩
    rw [Draft.labelOffset, passes.lookup_labels.mpr there]
    simp only [fits, if_true, Option.map_none, Option.toList_none, Code.signed_toUnit fits, and_true]
    omega
  · intro beyond
    cases found : draft.labels.lookup note.name with
    | none =>
      rw [Draft.labelOffset, found]
      exact ⟨rfl, _, rfl, rfl⟩
    | some target =>
      have far : ¬ Code.fitsSigned (target - note.position) = true := fun fits =>
        beyond target (passes.lookup_labels.mp found) ((range _).mp fits)
      rw [Draft.labelOffset, found]
      simp only [far]
      exact ⟨rfl, _, rfl, rfl⟩

/-- What filling in the labels of a body leaves at the use of one of them. -/
theorem Passes.filled_use {state : State} {draft final : Draft} {word : String}
    {turns earlier later : List Turn} {use : Turn} {name : Option String}
    (passes : Passes state (state.newDraft word) turns draft)
    (patched : draft.patchLabels draft.labelUses.toList = (final, none))
    (distinct : (turns.map fun turn => turn.token.spot).Nodup)
    (split : codeTurns turns = earlier ++ use :: later) (kind : use.token.kind = .labelUse name) :
    ∃ unit, final.code.units[(earlier.flatMap Turn.units).length]? = some unit ∧
      (∀ note ∈ final.references.toList, note.position ≠ (earlier.flatMap Turn.units).length) ∧
      Displaced (codeTurns turns) name (earlier.flatMap Turn.units).length unit
        (draft.site use.token) (reportsAt use.token final.diagnostics.toList) := by
  obtain ⟨front, back, rfl, rfl, rfl, outside⟩ := codeTurns_split split
  have offset := passes.offset rfl
  have member : use ∈ front ++ use :: back := by simp
  have used := (use.codeEffect (passes.effect member) outside).useLabel kind
  have noted : use.before.fixup use.token name ∈ draft.labelUses.toList := by
    rw [passes.labelUses]
    refine List.mem_append_right _ (List.mem_filterMap.mpr ⟨use, member, ?_⟩)
    rw [Turn.labelNote?, used]
  have sound := passes.notesSound (State.newDraft_notesSound state word)
  have sorted := passes.labelUses_sorted (State.newDraft_notesSound state word) List.Pairwise.nil
  have stored := Draft.patchLabels_stores patched sorted noted (sound.labels _ noted)
  have displaced := passes.displaced (use.before.fixup use.token name) (draft.site use.token)
  have said : reportsAt use.token final.diagnostics.toList =
      (draft.labelReport? (use.before.fixup use.token name)).toList := by
    rw [← reportsAt_use distinct used draft, Draft.patchLabels_reports patched, passes.diagnostics,
      passes.labelUses]
    rfl
  refine ⟨_, by rw [← offset]; exact stored, fun note waiting => ?_, ?_⟩
  · obtain ⟨code, diagnostics, rfl, -⟩ := Draft.patchLabels_none patched
    rw [← offset]
    exact (sound.apart _ noted note waiting).symm
  · rw [said, ← offset]
    exact displaced

/-- In a word that is compiled every use of a label outside comments holds the distance to the last
token of the same body that defines the label, and nothing is said at the use; where there is no such
token, or it is too far away, the use holds zero and that alone is said there. -/
theorem compile_label_displacement {state after : State} {source : String} {line : Option Int}
    {word : CompiledWord} (compiled : state.compile source line = (after, .ok (some word))) :
    ∃ number tokens turns draft reports,
      line = some number ∧ bodyTokens? source number = some tokens ∧
      turns.map Turn.token = tokens ∧
      (codeTurns turns).map Turn.token = Token.outside 0 tokens ∧
      Passes state (state.newDraft (definedName source)) turns draft ∧
      after.diagnostics.toList = state.diagnostics.toList ++ reports ∧
      ∀ earlier use later name, codeTurns turns = earlier ++ use :: later →
        use.token.kind = .labelUse name →
        ∃ unit, word.code[(earlier.flatMap Turn.units).length + 1]? = some unit ∧
          Displaced (codeTurns turns) name (earlier.flatMap Turn.units).length unit
            (draft.site use.token) (reportsAt use.token reports) := by
  generalize result : (.ok (some word) : Except Failure (Option CompiledWord)) = outcome at compiled
  cases State.compile_cases compiled with
  | nothing reports wordless => exact absurd result.symm (wordless word)
  | @word number tokens final header named start body added columnless =>
    obtain ⟨turns, draft, read, passes, patched⟩ := Draft.addBody_passes added
    obtain ⟨code, there, -, agree⟩ := State.addDraft_word (state.reporting header) final
    have newest := Except.ok.inj result
    rw [State.newest?_addDraft, there] at newest
    obtain rfl := Option.some.inj newest
    refine ⟨number, tokens, turns, draft, header.toList ++ final.diagnostics.toList, start, body,
      read, ?_, passes, ?_, ?_⟩
    · rw [passes.outside, read]
      rfl
    · simp [State.diagnostics_addDraft, State.reporting]
    · intro earlier use later name split kind
      have distinct := bodyTokens?_spots_nodup body
      rw [← read, List.map_map] at distinct
      obtain ⟨unit, stored, apart, displaced⟩ := passes.filled_use patched distinct split kind
      refine ⟨unit, ?_, ?_⟩
      · rw [agree, Draft.toWord, Array.getElem?_append_right (by simp)]
        · simpa using stored
        · -- References to the word itself are filled in at last, at positions of their own.
          rintro ⟨note, waiting, same⟩
          exact apart note (by simpa using waiting) (by omega)
      · have inside : use ∈ codeTurns turns := by simp [split]
        have listed : use.token ∈ tokens := by
          rw [← read]
          exact List.mem_map_of_mem (List.mem_filter.mp inside).1
        rw [reportsAt_columnless body listed (by simpa using columnless)]
        exact displaced

/-- A definition that uses a label in front of both its tokens and behind them, one that only the end
of the body defines, and one that nothing defines. -/
def labelText : String :=
  ": w :A A: :A dup A: ( :C ) B: C: :B ;"

def labelWord : CompiledWord where
  name := "w"
  constant := "w"
  flags := {}
  code := #[0, 1, 0, 65535, 2, 0]
  doc := some ":C"

theorem compile_label_displacement_sample :
    ∃ after turns draft,
      sampleStart.compile labelText (some 1) = (after, .ok (some labelWord)) ∧
      after.diagnostics = #[⟨.undefinedLabel (some "C"),
        { word := some "w", line := some 1, column := some 28 }⟩] ∧
      Passes sampleStart (sampleStart.newDraft "w") turns draft ∧
      ((codeTurns turns).map Turn.token).map Token.kind =
        [.labelDef (some "A"), .labelUse (some "A"), .labelDef (some "A"), .word,
          .labelUse (some "A"), .labelUse (some "B"), .labelUse (some "C"), .labelDef (some "B")] ∧
      ∀ earlier use later name, codeTurns turns = earlier ++ use :: later →
        use.token.kind = .labelUse name →
        ∃ unit, labelWord.code[(earlier.flatMap Turn.units).length + 1]? = some unit ∧
          Displaced (codeTurns turns) name (earlier.flatMap Turn.units).length unit
            (draft.site use.token) (reportsAt use.token after.diagnostics.toList) := by
  have compiled : sampleStart.compile labelText (some 1) =
      ((sampleStart.compile labelText (some 1)).1, .ok (some labelWord)) :=
    Prod.ext rfl (by decide +kernel)
  obtain ⟨number, tokens, turns, draft, reports, start, body, -, outside, passes, grown, uses⟩ :=
    compile_label_displacement compiled
  obtain rfl : 1 = number := Option.some.inj start
  obtain rfl : _ = reports := grown
  refine ⟨_, turns, draft, compiled, by decide +kernel, passes, ?_, uses⟩
  have kinds : (bodyTokens? labelText 1).map (fun tokens =>
      (Token.outside 0 tokens).map Token.kind) =
      some [.labelDef (some "A"), .labelUse (some "A"), .labelDef (some "A"), .word,
        .labelUse (some "A"), .labelUse (some "B"), .labelUse (some "C"), .labelDef (some "B")] := by
    decide +kernel
  rw [body, Option.map_some, ← outside] at kinds
  exact Option.some.inj kinds

end Compiler

end ThreadedCode
