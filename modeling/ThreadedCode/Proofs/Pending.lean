import Mathlib.Algebra.Order.Ring.Int
import Mathlib.Data.List.Nodup
import Mathlib.Data.List.TakeWhile
import ThreadedCode.Proofs.Layout

/-!
# Pending references

Along every session each pending reference waits at a unit of a compiled word that is zero and not
the flags, and no two wait at the same one. `finish` therefore stores the index of every reference
that names a word by then, reports the others in order, and touches nothing else; it ends early only
at a reference that names no word and whose line has too many digits to be written.
-/

namespace ThreadedCode.Compiler

/-! ### The notes of a draft -/

namespace Draft

/-- References wait at zero units, one behind the other, and no label is used at any of them. -/
structure NotesSound (draft : Draft) : Prop where
  zero : ∀ note ∈ draft.references.toList, draft.code.units[note.position]? = some 0
  sorted : draft.references.toList.Pairwise fun first second => first.position < second.position
  labels : ∀ label ∈ draft.labelUses.toList, label.position < draft.code.units.size
  apart : ∀ label ∈ draft.labelUses.toList, ∀ note ∈ draft.references.toList,
    label.position ≠ note.position

theorem NotesSound.lt {draft : Draft} (sound : NotesSound draft) {note : Fixup}
    (member : note ∈ draft.references.toList) : note.position < draft.code.units.size :=
  (Array.getElem?_eq_some_iff.mp (sound.zero note member)).1

theorem NotesSound.append {draft next : Draft} (sound : NotesSound draft) {units : Array Int}
    (code : next.code.units = draft.code.units ++ units)
    (references : next.references = draft.references) (labels : next.labelUses = draft.labelUses) :
    NotesSound next := by
  refine ⟨?_, ?_, ?_, ?_⟩
  · intro note member
    rw [references] at member
    rw [code, Array.getElem?_append_left (sound.lt member), sound.zero note member]
  · rw [references]
    exact sound.sorted
  · intro label member
    rw [labels] at member
    have bound := sound.labels label member
    rw [code, Array.size_append]
    omega
  · rw [references, labels]
    exact sound.apart

theorem apply_notesSound {draft : Draft} (token : Token) (effect : Effect)
    (sound : NotesSound draft) : NotesSound (draft.apply token effect) := by
  have code := units_apply draft token effect
  cases effect with
  | useLabel name =>
    have fresh : (draft.apply token (.useLabel name)).labelUses.toList =
        draft.labelUses.toList ++ [draft.fixup token name] := by simp [apply]
    refine ⟨fun note member => ?_, sound.sorted, fun label member => ?_,
      fun label member note other => ?_⟩
    · rw [code, Array.getElem?_append_left (sound.lt member), sound.zero note member]
    · rw [code, Array.size_append]
      rcases List.mem_append.mp (fresh ▸ member) with old | new
      · have bound := sound.labels label old
        omega
      · obtain rfl := List.mem_singleton.mp new
        simp [fixup, Code.Buffer.offset, Effect.units]
    · rcases List.mem_append.mp (fresh ▸ member) with old | new
      · exact sound.apart label old note other
      · obtain rfl := List.mem_singleton.mp new
        have bound := sound.lt other
        simp only [fixup, Code.Buffer.offset]
        omega
  | awaitConstant name =>
    have fresh : (draft.apply token (.awaitConstant name)).references.toList =
        draft.references.toList ++ [draft.fixup token name] := by simp [apply]
    refine ⟨fun note member => ?_, ?_, fun label member => ?_, fun label member note other => ?_⟩
    · rw [code]
      rcases List.mem_append.mp (fresh ▸ member) with old | new
      · rw [Array.getElem?_append_left (sound.lt old), sound.zero note old]
      · obtain rfl := List.mem_singleton.mp new
        simp [fixup, Code.Buffer.offset, Effect.units]
    · rw [fresh, List.pairwise_append]
      refine ⟨sound.sorted, List.pairwise_singleton _ _, fun note old other new => ?_⟩
      obtain rfl := List.mem_singleton.mp new
      exact sound.lt old
    · have bound := sound.labels label member
      rw [code, Array.size_append]
      omega
    · rcases List.mem_append.mp (fresh ▸ other) with old | new
      · exact sound.apart label member note old
      · obtain rfl := List.mem_singleton.mp new
        have bound := sound.labels label member
        simp only [fixup, Code.Buffer.offset]
        omega
  | emit block => exact sound.append code (by simp [apply, emit_eq]) (by simp [apply, emit_eq])
  | _ => exact sound.append code rfl rfl

end Draft

theorem Passes.notesSound {state : State} {draft final : Draft} {turns : List Turn}
    (passes : Passes state draft turns final) (sound : draft.NotesSound) : final.NotesSound := by
  induction passes with
  | nil draft => exact sound
  | @cons draft final token effect turns found rest ih =>
    exact ih (Draft.apply_notesSound token effect sound)

theorem State.newDraft_notesSound (state : State) (name : String) :
    (state.newDraft name).NotesSound := by
  refine ⟨?_, ?_, ?_, ?_⟩ <;> simp [State.newDraft]

/-- After the labels are filled in, the references still wait at zero units. -/
theorem addBody_notes {state : State} {name : String} {draft : Draft} {tokens : List Token}
    (added : Draft.addBody state (state.newDraft name) tokens = (draft, none)) :
    (∀ note ∈ draft.references.toList, draft.code.units[note.position]? = some 0) ∧
      draft.references.toList.Pairwise fun first second => first.position < second.position := by
  obtain ⟨turns, middle, code, diagnostics, -, passes, rfl, -, agree⟩ := Draft.addBody_none added
  have sound := passes.notesSound (State.newDraft_notesSound state name)
  refine ⟨fun note member => ?_, sound.sorted⟩
  rw [← sound.zero note member]
  exact agree note.position fun label used => sound.apart label used note member

/-! ### The invariant of a session -/

namespace State

/-- Every pending reference waits at a zero unit of a compiled word, behind the flags, and no two at
the same one. -/
structure PendingSound (state : State) : Prop where
  waits : ∀ reference ∈ state.pending.toList, 1 ≤ reference.position ∧
    ∃ word, state.compiled[reference.word]? = some word ∧
      reference.position < word.code.size ∧ word.code[reference.position]? = some 0
  distinct : state.pending.toList.Pairwise fun first second =>
    (first.word, first.position) ≠ (second.word, second.position)

theorem PendingSound.unitAt {state : State} (sound : PendingSound state)
    {reference : PendingReference} (member : reference ∈ state.pending.toList) :
    reference.word < state.compiled.size ∧
      state.unitAt reference.word reference.position = some 0 := by
  obtain ⟨-, word, there, -, zero⟩ := sound.waits reference member
  exact ⟨(Array.getElem?_eq_some_iff.mp there).1, by simp [State.unitAt, there, zero]⟩

theorem addDraft_pendingSound {state : State} {draft : Draft} (sound : PendingSound state)
    (zero : ∀ note ∈ draft.references.toList, draft.code.units[note.position]? = some 0)
    (sorted : draft.references.toList.Pairwise fun first second =>
      first.position < second.position) : PendingSound (state.addDraft draft) := by
  have filled := addDraft_filled state draft
  have waiting : state.pending.toList ++ (draft.references.toList.filter fun note =>
      ((state.appending draft).resolve? note.name).isNone).map (pendingOf state.compiled.size) =
      (state.addDraft draft).pending.toList := filled.pending.symm
  refine ⟨fun reference member => ?_, ?_⟩
  · rw [← waiting] at member
    rcases List.mem_append.mp member with old | fresh
    · obtain ⟨positive, word, there, inside, unit⟩ := sound.waits reference old
      obtain ⟨code, kept, size, agree⟩ := addDraft_keeps state draft reference.word word there
      exact ⟨positive, _, kept, size ▸ inside, (agree _ id).trans unit⟩
    · obtain ⟨note, listed, rfl⟩ := List.mem_map.mp fresh
      obtain ⟨member, unresolved⟩ := List.mem_filter.mp listed
      obtain ⟨code, there, size, agree⟩ := filled.keeps state.compiled.size draft.toWord
        (by simp [appending])
      have unit : code[note.position + 1]? = some 0 := by
        rw [agree (note.position + 1)]
        · simpa [Draft.toWord, Array.getElem?_append_right] using zero note member
        -- What was overwritten belongs to another note, since notes have distinct positions.
        · rintro ⟨-, other, present, resolved, same⟩
          have positions : (draft.references.toList.map Fixup.position).Nodup :=
            List.pairwise_map.mpr (sorted.imp Nat.ne_of_lt)
          have equal := List.inj_on_of_nodup_map positions present member (by omega)
          rw [equal] at resolved
          simp [Option.isNone_iff_eq_none.mp unresolved] at resolved
      exact ⟨Nat.le_add_left 1 _, _, there, (Array.getElem?_eq_some_iff.mp unit).1, unit⟩
  · rw [← waiting, List.pairwise_append]
    refine ⟨sound.distinct, ?_, fun first old second fresh => ?_⟩
    · refine List.Pairwise.map _ (fun first second before => ?_) (sorted.filter _)
      simp only [pendingOf, ne_eq, Prod.mk.injEq, true_and]
      omega
    · obtain ⟨note, -, rfl⟩ := List.mem_map.mp fresh
      have bound := (sound.unitAt old).1
      simp only [pendingOf, ne_eq, Prod.mk.injEq]
      omega

theorem execute_pendingSound {state : State} (sound : PendingSound state) (command : Command) :
    PendingSound (state.execute command) := by
  cases command with
  | finish =>
    have settled : (state.execute .finish).pending = #[] := (finish_settled state).pending
    exact ⟨by simp [settled], by simp [settled]⟩
  | compile source line =>
    refine execute_compile_cases (fun reports => ?_) fun reports tokens draft named added => ?_
    · exact ⟨sound.waits, sound.distinct⟩
    · obtain ⟨zero, sorted⟩ := addBody_notes added
      have before : PendingSound (state.reporting reports) := ⟨sound.waits, sound.distinct⟩
      exact addDraft_pendingSound before zero sorted

theorem run_pendingSound {state : State} (sound : PendingSound state) (commands : List Command) :
    PendingSound (state.run commands) :=
  run_invariant (P := PendingSound) (fun command before => execute_pendingSound before command) sound
    commands

/-- A state in which nothing has been compiled yet. -/
structure Fresh (state : State) : Prop where
  compiled : state.compiled = #[]
  pending : state.pending = #[]
  diagnostics : state.diagnostics = #[]

theorem Fresh.pendingSound {state : State} (fresh : state.Fresh) : PendingSound state :=
  ⟨by simp [fresh.pending], by simp [fresh.pending]⟩

/-! ### What finishing does -/

/-- A reference that names a word gets its index, also when others are settled after it. -/
theorem settleAll_stores {state : State} {references : List PendingReference}
    (present : ∀ reference ∈ references,
      (state.unitAt reference.word reference.position).isSome)
    (distinct : references.Pairwise fun first second =>
      (first.word, first.position) ≠ (second.word, second.position))
    {reference : PendingReference} (member : reference ∈ references.takeWhile state.isSettleable)
    {index : Nat} (resolved : state.resolve? reference.name = some index) :
    (state.settleAll references).1.unitAt reference.word reference.position =
      some (index : Int) := by
  induction references generalizing state with
  | nil => simp at member
  | cons first references ih =>
    have settleable : state.isSettleable first = true := by
      by_contra stuck
      simp [List.takeWhile_cons_of_neg stuck] at member
    rw [List.takeWhile_cons_of_pos settleable] at member
    obtain ⟨apart, distinct⟩ := List.pairwise_cons.mp distinct
    rw [settleAll]
    cases settled : state.settle first with
    | error limit => simp [settle_error settled] at settleable
    | ok next =>
      have later := settleAll_settled next references
      obtain ⟨-, step⟩ := settle_ok settled
      obtain ⟨setup, symbols, -, kept⟩ := settle_alike settled
      rcases List.mem_cons.mp member with rfl | member
      · rw [resolved] at step
        subst step
        have stored := unitAt_setUnit (index : Int) (present reference List.mem_cons_self)
        have inside : reference.word < (state.setUnit reference.word reference.position
            index).compiled.size := by
          obtain ⟨entry, there, -⟩ := Option.bind_eq_some_iff.mp stored
          exact (Array.getElem?_eq_some_iff.mp there).1
        -- The references that are settled after this one wait at other units.
        rw [later.keeps.unitAt inside, stored]
        rintro ⟨other, listed, -, word, position⟩
        exact apart other ((List.takeWhile_sublist _).subset listed) (by rw [word, position])
      · refine ih (fun other listed => ?_) distinct ?_ ?_
        · exact kept.unitAt_isSome (present other (List.mem_cons_of_mem _ listed))
        · rwa [isSettleable_congr setup symbols]
        · rwa [resolve?_congr setup symbols]

theorem resolve?_isSome_iff {state : State} {name : Option String} :
    (state.resolve? name).isSome ↔ ∃ symbol ∈ state.symbols, name = some symbol.2 := by
  cases name with
  | none => simp [resolve?]
  | some constant =>
    rw [← not_iff_not, Option.not_isSome_iff_eq_none]
    simp only [resolve?, Option.bind_some, findConstant?, search_eq_none_iff,
      Set.eq_empty_iff_forall_notMem, Option.some.injEq, not_exists, not_and]
    constructor
    · rintro absent symbol member rfl
      obtain ⟨place, inside, rfl⟩ := Array.mem_iff_getElem.mp member
      exact absent place (by simp [places, Array.getElem?_eq_getElem inside])
    · intro absent place member
      obtain ⟨symbol, there, same⟩ := (Option.any_eq_true _ _).mp member
      exact absent symbol (Array.mem_of_getElem? there) (beq_iff_eq.mp same).symm

theorem isWritable_iff {value : Int} :
    Text.isWritable value = true ↔ value.natAbs < 10 ^ Text.maxDigits := by
  rw [Text.isWritable, decide_eq_true_iff]
  exact Nat.length_toDigits_le_iff (by decide) (by decide)

/-- A reference is settled unless no word has the constant it names and its line or column has too
many digits. -/
theorem isSettleable_iff {state : State} {reference : PendingReference} :
    state.isSettleable reference = true ↔
      (state.resolve? reference.name).isSome ∨
        ∀ line, reference.line = some line → line.natAbs < 10 ^ Text.maxDigits ∧
          ∀ column, reference.column = some column → column.natAbs < 10 ^ Text.maxDigits := by
  rw [isSettleable, Bool.or_eq_true]
  refine or_congr Iff.rfl ?_
  simp only [complaint, Site.isWritable]
  cases reference.line with
  | none => simp
  | some line =>
    cases reference.column with
    | none => simp [isWritable_iff]
    | some column => simp [isWritable_iff]

theorem finish_of_pending_eq_empty {state : State} (empty : state.pending = #[]) :
    state.finish = (state, none) := by
  have same : { state with pending := #[] } = state := by rw [← empty]
  rw [finish, same, empty]
  rfl

/-- What finishing does when it settles the references `settled` of those that are pending. -/
structure Finishes (settled : List PendingReference) (state later : State)
    (stopped : Option Text.TooManyDigits) : Prop where
  complete : stopped = none ↔ settled = state.pending.toList
  stores : ∀ reference ∈ settled, ∀ index, state.resolve? reference.name = some index →
    later.unitAt reference.word reference.position = some (index : Int)
  zero : ∀ reference ∈ state.pending.toList,
    (reference ∈ settled → state.resolve? reference.name = none) →
      later.unitAt reference.word reference.position = some 0
  reports : later.diagnostics.toList = state.diagnostics.toList ++
    (settled.filter fun reference => (state.resolve? reference.name).isNone).map state.complaint
  keeps : Keeps state.Awaits state later
  size : later.compiled.size = state.compiled.size
  pending : later.pending = #[]
  again : later.finish = (later, none)

theorem finish_finishes {state : State} (sound : PendingSound state) :
    Finishes (state.pending.toList.takeWhile state.isSettleable) state state.finish.1
      state.finish.2 := by
  have settled := finish_settled state
  have emptied : (state.finish).1.pending = #[] := settled.pending
  refine ⟨?_, ?_, ?_, settled.diagnostics, finish_keeps state, ?_, emptied, ?_⟩
  · rw [settled.stopped, List.takeWhile_eq_self_iff]
    rfl
  · intro reference member index resolved
    refine @settleAll_stores { state with pending := #[] } _ ?_ sound.distinct _ member _ resolved
    intro other listed
    exact Option.isSome_of_eq_some (sound.unitAt listed).2
  · intro reference member unresolved
    obtain ⟨inside, zero⟩ := sound.unitAt member
    rw [← zero]
    refine settled.keeps.unitAt inside ?_
    rintro ⟨other, listed, resolved, word, position⟩
    have spots := List.pairwise_map.mpr sound.distinct
    have listed' := (List.takeWhile_sublist _).subset listed
    have same := List.inj_on_of_nodup_map spots listed' member (by rw [word, position])
    subst same
    have found : (state.resolve? other.name).isSome := resolved
    simp [unresolved listed] at found
  · exact size_compiled_congr settled.setup settled.symbols
  · exact finish_of_pending_eq_empty emptied

/-- Whatever calls a session makes, pending references wait at distinct zero units behind the flags
of their words, and finishing settles them in order: all of them, or those before the first that
names no word and whose line or column has too many digits. -/
theorem session_pending {start state : State} {commands : List Command} (fresh : start.Fresh)
    (reached : start.run commands = state) :
    PendingSound state ∧
      (∀ reference ∈ state.pending.toList,
        ((state.resolve? reference.name).isSome ↔
          ∃ symbol ∈ state.symbols, reference.name = some symbol.2) ∧
        (state.isSettleable reference = true ↔
          (state.resolve? reference.name).isSome ∨
            ∀ line, reference.line = some line → line.natAbs < 10 ^ Text.maxDigits ∧
              ∀ column, reference.column = some column →
                column.natAbs < 10 ^ Text.maxDigits)) ∧
      Finishes (state.pending.toList.takeWhile state.isSettleable) state state.finish.1
        state.finish.2 := by
  subst reached
  have sound := run_pendingSound fresh.pendingSound commands
  exact ⟨sound, fun reference _ => ⟨resolve?_isSome_iff, isSettleable_iff⟩, finish_finishes sound⟩

end State

theorem sampleStart_fresh : sampleStart.Fresh :=
  ⟨rfl, rfl, rfl⟩

def sampleCommands : List Command :=
  [.compile ": early %late %never ;" (some 1), .compile ": late dup ;" (some 2)]

theorem session_pending_sample :
    sampleStart.Fresh ∧ ∃ state, sampleStart.run sampleCommands = state ∧
      state.pending.size = 2 ∧ state.PendingSound ∧ state.finish.2 = none ∧
      state.finish.1.unitAt 0 1 = some 2 ∧ state.finish.1.unitAt 0 2 = some 0 := by
  have size : (sampleStart.run sampleCommands).pending.size = 2 := by decide +kernel
  have found : (sampleStart.run sampleCommands).pending.toList.map (fun reference =>
      (reference.word, reference.position,
        (sampleStart.run sampleCommands).resolve? reference.name)) =
      [(0, 1, some 2), (0, 2, none)] := by decide +kernel
  have writable : (sampleStart.run sampleCommands).pending.toList.takeWhile
      (sampleStart.run sampleCommands).isSettleable =
        (sampleStart.run sampleCommands).pending.toList := by decide +kernel
  obtain ⟨sound, -, finishes⟩ := State.session_pending sampleStart_fresh rfl
  rw [writable] at finishes
  refine ⟨sampleStart_fresh, _, rfl, size, sound, finishes.complete.mpr rfl, ?_, ?_⟩
  · have first : (0, 1, some 2) ∈ [(0, 1, some 2), (0, 2, (none : Option Nat))] := by simp
    rw [← found] at first
    obtain ⟨reference, member, same⟩ := List.mem_map.mp first
    simp only [Prod.mk.injEq] at same
    have stored := finishes.stores reference member 2 same.2.2
    rwa [same.1, same.2.1] at stored
  · have second : (0, 2, none) ∈ [(0, 1, some 2), (0, 2, (none : Option Nat))] := by simp
    rw [← found] at second
    obtain ⟨reference, member, same⟩ := List.mem_map.mp second
    simp only [Prod.mk.injEq] at same
    have kept := finishes.zero reference member fun _ => same.2.2
    rwa [same.1, same.2.1] at kept

/-- A session in which two references never find a word, the first at a line of 4301 digits. -/
def farCommands : List Command :=
  [.compile ": w\n%zz ;" (some (10 ^ Text.maxDigits - 1)), .compile ": v %yy ;" (some 1)]

theorem finish_silent_beyond_digits :
    sampleStart.Fresh ∧ (sampleStart.run farCommands).pending.size = 2 ∧
      (∀ reference ∈ (sampleStart.run farCommands).pending,
        (sampleStart.run farCommands).resolve? reference.name = none) ∧
      (sampleStart.run farCommands).finish.1.diagnostics.size = 0 ∧
      (sampleStart.run farCommands).finish.2.isSome :=
  ⟨sampleStart_fresh, by decide +kernel⟩

end ThreadedCode.Compiler
