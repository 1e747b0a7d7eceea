import ThreadedCode.Proofs.Resolution

/-!
# Dictionaries that a source can give

Every word of a compiled source has a constant, which is a field of the source, no unit of its code
is negative, and the bootstrap words are native ones. Nothing of this is checked anywhere; it follows
from how names are read and how units are made.
-/

namespace ThreadedCode

open Compiler

/-! ### Names that are read -/

namespace Text

/-- A text that can stand as a field of a line. -/
structure IsField (text : String) : Prop where
  present : text ≠ ""
  visible : ∀ c ∈ text.toList, isBlank c = false

theorem isField_nextField {text : List Char} (present : (nextField text).1 ≠ []) :
    IsField (String.ofList (nextField text).1) := by
  refine ⟨fun empty => present (String.ofList_injective empty), fun c member => ?_⟩
  rw [String.toList_ofList] at member
  simpa using List.mem_takeWhile_imp member

theorem nextField_ne_nil {text : List Char} (visible : text.all Text.isBlank = false) :
    (Text.nextField text).1 ≠ [] := by
  obtain ⟨c, member, shown⟩ := List.all_eq_false.mp visible
  unfold nextField field trimLeft
  cases stopped : text.dropWhile isBlank with
  | nil =>
    rw [List.dropWhile_eq_nil_iff] at stopped
    exact absurd (stopped c member) shown
  | cons first rest =>
    have stop := List.head_dropWhile_not isBlank (stopped ▸ List.cons_ne_nil first rest)
    simp only [stopped, List.head_cons] at stop
    simp [stop]

end Text

theorem Token.isField_of_hintOf? {text : List Char} {name : String}
    (found : Token.hintOf? text = some name) : Text.IsField name := by
  unfold hintOf? at found
  split at found
  · dsimp only at found
    split at found
    · rename_i named
      obtain rfl := Option.some.inj found
      obtain ⟨present, visible⟩ := Bool.and_eq_true_iff.mp named
      refine ⟨fun empty => ?_, fun c member => ?_⟩
      · simp [String.ofList_injective empty] at present
      · rw [String.toList_ofList] at member
        simpa using List.all_eq_true.mp visible c member
    · cases found
  · cases found

namespace Source

theorem mem_nativesFrom {done : Array Native} {lines : List Line} {native : Native}
    (member : native ∈ nativesFrom done lines) :
    native ∈ done ∨ ∃ header ∈ lines, ∃ body, native = readNative header body := by
  fun_induction nativesFrom done lines with
  | case1 done => exact .inl (Array.mem_toList_iff.mp member)
  | case2 done header rest ih =>
    rcases ih member with pushed | ⟨other, listed, body, rfl⟩
    · rcases Array.mem_push.mp pushed with old | rfl
      · exact .inl old
      · exact .inr ⟨header, List.mem_cons_self, _, rfl⟩
    · have sublist := List.dropWhile_sublist isIndented (l := rest)
      exact .inr ⟨other, List.mem_cons_of_mem _ (sublist.subset listed), body, rfl⟩

/-- The names that a native word is given are fields. -/
structure Native.Named (native : Native) : Prop where
  name : Text.IsField native.name
  constant : ∀ constant, native.constant = some constant → Text.IsField constant

theorem named_readNative {header : Line} (body : List Line)
    (visible : header.1.toList.all Text.isBlank = false) : (readNative header body).Named := by
  refine ⟨Text.isField_nextField (Text.nextField_ne_nil visible), fun constant given => ?_⟩
  obtain ⟨present, rfl⟩ : (Text.nextField (Text.nextField header.1.toList).2).1 ≠ [] ∧
      String.ofList (Text.nextField (Text.nextField header.1.toList).2).1 = constant := by
    simpa [readNative, nonempty?] using given
  exact Text.isField_nextField present

theorem readNatives_named {lines : List Line} {natives : List Native}
    (read : readNatives lines = .ok natives) : ∀ native ∈ natives, native.Named := by
  intro native member
  unfold readNatives at read
  split at read
  · obtain rfl := Except.ok.inj read
    cases member
  · rename_i first rest shown
    split at read
    · cases read
    · obtain rfl := Except.ok.inj read
      rcases mem_nativesFrom member with old | ⟨header, listed, body, rfl⟩
      · simp at old
      · rw [← shown] at listed
        exact named_readNative body (by simpa [isBlankLine] using (List.mem_filter.mp listed).2)

theorem read_named {source : String} {filename : Option String} {sections : Sections}
    (done : read source filename = .ok sections) :
    ∀ native ∈ sections.natives, native.Named := by
  unfold read at done
  dsimp only at done
  split at done
  · split at done
    · cases done
    · split at done
      · cases done
      · rename_i natives natively
        obtain rfl := Except.ok.inj done
        exact readNatives_named natively
  · cases done

end Source

/-! ### Bootstrap words -/

theorem Catalog.findName?_lt {catalog : Catalog} {name : String} {index : Nat}
    (found : catalog.findName? name = some index) : index < catalog.size :=
  lastIndex?_lt found

theorem Catalog.findConstant?_lt {catalog : Catalog} {constant : String} {index : Nat}
    (found : catalog.findConstant? constant = some index) : index < catalog.size :=
  lt_size_of_mem_places (firstIndex?_eq_some_iff.mp found).1

/-- The bootstrap words are native words. -/
theorem Bootstrap.find_lt {catalog : Catalog} {names : BootstrapNames} {bootstrap : Bootstrap}
    (found : Bootstrap.find catalog names = .ok bootstrap) {index : Int}
    (member : some index ∈ bootstrap.toList) : 0 ≤ index ∧ index < catalog.size := by
  unfold find at found
  split at found
  · cases found
  · obtain rfl := Except.ok.inj found
    have inside : ∀ {name : Option String} {search : String → Option Nat},
        (∀ text place, search text = some place → place < catalog.size) →
        some index = (name.bind search).map Int.ofNat → 0 ≤ index ∧ index < catalog.size := by
      intro name search bounded same
      obtain ⟨place, located, rfl⟩ := Option.map_eq_some_iff.mp same.symm
      obtain ⟨text, -, here⟩ := Option.bind_eq_some_iff.mp located
      have bound := bounded text place here
      exact ⟨Int.natCast_nonneg place, Int.ofNat_lt.mpr bound⟩
    simp only [toList, ofCatalog, List.mem_cons, List.not_mem_nil, or_false] at member
    rcases member with same | same | same | same | same
    · exact inside (fun _ _ => Catalog.findConstant?_lt) same
    all_goals exact inside (fun _ _ => Catalog.findName?_lt) same

theorem Catalog.duplicateFrom_eq_none_iff {seen : Std.HashMap String Nat} {index : Nat}
    {words : List NativeWord} :
    duplicateFrom seen index words = none ↔
      (∀ word ∈ words, word.constant ∉ seen) ∧ (words.map (·.constant)).Nodup := by
  induction words generalizing seen index with
  | nil => simp [duplicateFrom]
  | cons word rest ih =>
    rw [duplicateFrom, List.forall_mem_cons, List.map_cons, List.nodup_cons]
    cases known : seen[word.constant]? with
    | some earlier =>
      have present : word.constant ∈ seen := by
        rw [Std.HashMap.mem_iff_isSome_getElem?, known]
        rfl
      simp [present]
    | none =>
      have absent : word.constant ∉ seen := by
        rw [Std.HashMap.mem_iff_isSome_getElem?, known]
        simp
      simp only [ih, Std.HashMap.mem_insert, beq_iff_eq, not_or, forall_and, List.mem_map,
        not_exists, not_and]
      constructor
      · rintro ⟨⟨apart, unseen⟩, distinct⟩
        exact ⟨⟨absent, unseen⟩, fun other member same => apart other member same.symm, distinct⟩
      · rintro ⟨⟨-, unseen⟩, apart, distinct⟩
        exact ⟨⟨fun other member same => apart other member same.symm, unseen⟩, distinct⟩

/-- Bootstrap words are found exactly where no two native words share a constant. -/
theorem Bootstrap.find_eq_ok_iff {catalog : Catalog} {names : BootstrapNames}
    {bootstrap : Bootstrap} :
    Bootstrap.find catalog names = .ok bootstrap ↔
      (catalog.words.toList.map (·.constant)).Nodup ∧ ofCatalog catalog names = bootstrap := by
  have distinct : catalog.duplicate? = none ↔ (catalog.words.toList.map (·.constant)).Nodup := by
    simp [Catalog.duplicate?, Catalog.duplicateFrom_eq_none_iff]
  rw [← distinct, find]
  cases catalog.duplicate? with
  | some problem => simp
  | none => simp

/-! ### Drafts -/

/-- A word that has a constant and no negative unit. -/
structure CompiledWord.Regular (word : CompiledWord) : Prop where
  constant : Text.IsField word.constant
  units : ∀ unit ∈ word.code, 0 ≤ unit

namespace Compiler

namespace Draft

structure Regular (draft : Draft) : Prop where
  name : Text.IsField draft.word
  hint : ∀ name, draft.hint = some name → Text.IsField name
  units : ∀ unit ∈ draft.code.units, 0 ≤ unit

theorem effect?_nameConstant {state : State} {draft : Draft} {token : Token} {name : String}
    (found : effect? state draft token = .ok (.nameConstant name)) : Text.IsField name := by
  obtain ⟨-, cases⟩ | ⟨-, cases⟩ := effect?_ok found
  · cases cases
  · cases cases with
    | naming inner hinted => exact Token.isField_of_hintOf? hinted

theorem units_nonneg (effect : Effect) : ∀ unit ∈ effect.units, 0 ≤ unit := by
  intro unit member
  cases effect with
  | emit block =>
    obtain ⟨value, -, rfl⟩ := List.mem_map.mp member
    exact Code.toUnit_nonneg value
  | _ => simp_all [Effect.units]

theorem apply_regular {state : State} {draft : Draft} {token : Token} {effect : Effect}
    (regular : draft.Regular) (found : effect? state draft token = .ok effect) :
    (draft.apply token effect).Regular := by
  refine ⟨?_, ?_, ?_⟩
  · rw [(apply_fixed draft token effect).1]
    exact regular.name
  · cases effect with
    | nameConstant name =>
      intro other named
      obtain rfl := Option.some.inj named
      exact effect?_nameConstant found
    | emit block =>
      rw [apply, emit_eq]
      exact regular.hint
    | _ => exact regular.hint
  · intro unit member
    rw [units_apply, Array.mem_append] at member
    rcases member with old | new
    · exact regular.units unit old
    · exact units_nonneg effect unit (List.mem_toArray.mp new)

theorem patchLabel_regular {draft next : Draft} {note : Fixup} (regular : draft.Regular)
    (patched : draft.patchLabel note = .ok next) : next.Regular := by
  obtain ⟨offset, diagnostics, rfl⟩ := patchLabel_ok patched
  refine ⟨regular.name, regular.hint, fun unit member => ?_⟩
  rcases Array.mem_or_eq_of_mem_setIfInBounds member with old | rfl
  · exact regular.units unit old
  · exact Code.toUnit_nonneg offset

theorem Regular.toWord {draft : Draft} (regular : draft.Regular) : draft.toWord.Regular := by
  refine ⟨?_, fun unit member => ?_⟩
  · cases hint : draft.hint with
    | none => simpa [Draft.toWord, hint] using regular.name
    | some constant => simpa [Draft.toWord, hint] using regular.hint constant hint
  · simp only [Draft.toWord, Array.mem_append, List.mem_toArray, List.mem_singleton] at member
    rcases member with rfl | inside
    · exact Int.natCast_nonneg _
    · exact regular.units unit inside

end Draft

/-! ### Sessions -/

namespace State

/-- Every word has a constant, no unit is negative and the bootstrap words are native words. -/
structure Regular (state : State) : Prop where
  natives : ∀ word ∈ state.catalog.words, Text.IsField word.constant
  bootstrap : ∀ index : Int, some index ∈ state.bootstrap.toList →
    0 ≤ index ∧ index < state.catalog.size
  words : ∀ word ∈ state.compiled, word.Regular

theorem setUnit_regular {state : State} (regular : state.Regular) (word position index : Nat) :
    (state.setUnit word position index).Regular := by
  refine ⟨regular.natives, regular.bootstrap, fun entry member => ?_⟩
  obtain ⟨place, there⟩ := Array.getElem?_of_mem member
  rw [compiled_setUnit] at there
  split at there
  · obtain ⟨old, present, rfl⟩ := Option.map_eq_some_iff.mp there
    have before := regular.words old (Array.mem_of_getElem? present)
    refine ⟨before.constant, fun unit inside => ?_⟩
    rcases Array.mem_or_eq_of_mem_setIfInBounds inside with kept | rfl
    · exact before.units unit kept
    · exact Int.natCast_nonneg index
  · exact regular.words entry (Array.mem_of_getElem? there)

theorem appending_regular {state : State} {draft : Draft} (regular : state.Regular)
    (drafted : draft.Regular) : (state.appending draft).Regular := by
  refine ⟨regular.natives, regular.bootstrap, fun word member => ?_⟩
  rcases Array.mem_push.mp member with old | rfl
  · exact regular.words word old
  · exact drafted.toWord

theorem execute_regular {state : State} (regular : state.Regular) (command : Command) :
    (state.execute command).Regular := by
  refine execute_invariant ?_ ?_ ?_ ?_ regular command
  · exact fun _ before => ⟨before.natives, before.bootstrap, before.words⟩
  · exact fun _ before => ⟨before.natives, before.bootstrap, before.words⟩
  · exact fun word position before _ => setUnit_regular before word position _
  · intro state source number tokens draft before named body added
    have field : Text.IsField (definedName source) :=
      Text.isField_nextField fun absent => named (by rw [definedName, absent])
    have fresh : (state.newDraft (definedName source)).Regular :=
      ⟨field, by simp [newDraft], by simp [newDraft]⟩
    have drafted :=
      Draft.addBody_invariant state Draft.apply_regular Draft.patchLabel_regular fresh tokens
    rw [added] at drafted
    exact appending_regular before drafted

theorem run_regular {state : State} (regular : state.Regular) (commands : List Command) :
    (state.run commands).Regular :=
  run_invariant (P := Regular) (fun command before => execute_regular before command) regular
    commands

end State

end Compiler

theorem Compilation.isField_registered {native : Source.Native} (named : native.Named) :
    Text.IsField (registered native).constant := by
  unfold registered
  cases kept : native.constant.filter (· ≠ "") with
  | none => exact named.name
  | some constant => exact named.constant constant (Option.filter_eq_some_iff.mp kept).1

theorem Compilation.initialState_of_nodup {sections : Source.Sections} {order : Order}
    {names : BootstrapNames} {filename : Option String}
    (distinct : (sections.natives.map fun native => (registered native).constant).Nodup) :
    initialState sections order names filename =
      .ok
        { catalog := catalogOf sections.natives
          slots := Variables.ofList (sections.variableNames.getD [])
          bootstrap := Bootstrap.ofCatalog (catalogOf sections.natives) names
          order, names, filename } := by
  have found : Bootstrap.find (catalogOf sections.natives) names =
      .ok (Bootstrap.ofCatalog (catalogOf sections.natives) names) := by
    rw [Bootstrap.find_eq_ok_iff, words_catalogOf, List.map_map]
    exact ⟨distinct, rfl⟩
  rw [initialState, found]

theorem Runs.regular {source : String} {filename : Option String} {sections : Source.Sections}
    {order : Order} {names : BootstrapNames} {start final : State} {log : Log}
    (runs : Runs start log final) (read : Source.read source filename = .ok sections)
    (started : Compilation.initialState sections order names filename = .ok start) :
    final.finish.1.Regular := by
  obtain ⟨fresh, catalog, -, -, bootstrap⟩ := Compilation.initialState_ok started
  have regular : start.Regular := by
    refine ⟨fun word member => ?_, fun index member => Bootstrap.find_lt bootstrap member, ?_⟩
    · rw [catalog, ← Array.mem_toList_iff, Compilation.words_catalogOf] at member
      obtain ⟨native, listed, rfl⟩ := List.mem_map.mp member
      exact Compilation.isField_registered (Source.read_named read native listed)
    · simp [fresh.compiled]
  rw [runs.eq_run]
  exact State.execute_regular (State.run_regular regular _) .finish

/-- The table of a compiled source is that of a regular dictionary. -/
theorem Compilation.ofText_regular {source : String} {filename : Option String} {order : Order}
    {compilation : Compilation}
    (returned : (ofText source filename order).outcome = .ok compilation) :
    ∃ state : State, compilation.table = tableOf state ∧ state.Regular := by
  obtain ⟨start, log, final, read, started, runs, -, -, table, -⟩ := ofText_ok returned
  exact ⟨final.finish.1, table, runs.regular read started⟩

end ThreadedCode
