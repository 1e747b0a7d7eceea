import ThreadedCode.Proofs.OrderIndependence
import ThreadedCode.Proofs.WideLiterals

/-!
# Bootstrap words and the order of resolution

The catalog has searches of its own, which the order of resolution does not change: a name is looked
up from its end and a constant from its start. What they find is what a token finds in a dictionary
without compiled words, with one exception. If several native words share a name, a token under the
order that takes the oldest finds the first of them and the catalog the last (`bootstrap_lookup`).
-/

namespace ThreadedCode

open Compiler

/-- The first place is the last one exactly where there is at most one. -/
theorem firstIndex?_eq_lastIndex?_iff {α : Type} {xs : Array α} {p : α → Bool} :
    firstIndex? xs p = lastIndex? xs p ↔ (places xs p).Subsingleton := by
  constructor
  · intro same
    cases found : lastIndex? xs p with
    | none =>
      rw [lastIndex?_eq_none_iff.mp found]
      exact Set.subsingleton_empty
    | some index =>
      have greatest := lastIndex?_eq_some_iff.mp found
      have least := firstIndex?_eq_some_iff.mp (same.trans found)
      have all : ∀ place ∈ places xs p, place = index := fun place member =>
        Nat.le_antisymm (greatest.2 member) (least.2 member)
      intro place here other there
      rw [all place here, all other there]
  · intro unique
    apply Option.ext
    intro index
    have least : Order.firstMatch.Takes (places xs p) index ↔ _ := Order.takes_iff unique
    have greatest : Order.shadowing.Takes (places xs p) index ↔ _ := Order.takes_iff unique
    rw [firstIndex?_eq_some_iff, lastIndex?_eq_some_iff]
    exact least.trans greatest.symm

/-- At most one native word has a name. -/
def Catalog.NamedOnce (catalog : Catalog) (name : Option String) : Prop :=
  {index : Nat | ∃ word, catalog.words[index]? = some word ∧ some word.name = name}.Subsingleton

theorem Catalog.namedOnce_iff {catalog : Catalog} {name : String} :
    catalog.NamedOnce (some name) ↔
      (places catalog.words fun word => word.name == name).Subsingleton := by
  have same : places catalog.words (fun word => word.name == name) =
      {index : Nat | ∃ word, catalog.words[index]? = some word ∧ some word.name = some name} := by
    ext index
    simp [places, Option.any_eq_true]
  rw [NamedOnce, same]

/-- The bootstrap words that are found by a name, with their names. -/
def Bootstrap.named (bootstrap : Bootstrap) (names : BootstrapNames) :
    List (Option Int × Option String) :=
  [(bootstrap.pushVariable, names.pushVariable), (bootstrap.falseWord, names.falseWord),
    (bootstrap.oneWord, names.oneWord), (bootstrap.wideInt, names.wideInt)]

theorem Bootstrap.named_ofCatalog {catalog : Catalog} {names : BootstrapNames}
    {index : Option Int} {name : Option String}
    (member : (index, name) ∈ (ofCatalog catalog names).named names) :
    index = (name.bind catalog.findName?).map Int.ofNat := by
  simp only [named, List.mem_cons, List.not_mem_nil, or_false, Prod.mk.injEq] at member
  rcases member with ⟨rfl, rfl⟩ | ⟨rfl, rfl⟩ | ⟨rfl, rfl⟩ | ⟨rfl, rfl⟩ <;> rfl

namespace Compiler

namespace State

variable {state : State}

/-! ### Names that only native words have -/

theorem search_of_absent {accepts : String → String → Bool}
    (absent : ∀ word ∈ state.compiled, accepts word.name word.constant = false) :
    state.search accepts =
      match state.order with
      | .shadowing => lastIndex? state.catalog.words fun word => accepts word.name word.constant
      | .firstMatch =>
        firstIndex? state.catalog.words fun word => accepts word.name word.constant := by
  have nowhere : places state.compiled (fun word => accepts word.name word.constant) = ∅ := by
    rw [Set.eq_empty_iff_forall_notMem]
    intro place member
    obtain ⟨word, there, accepted⟩ := (Option.any_eq_true _ _).mp member
    rw [absent word (Array.mem_of_getElem? there)] at accepted
    cases accepted
  unfold search
  cases state.order with
  | shadowing => simp only [lastIndex?_eq_none_iff.mpr nowhere]
  | firstMatch =>
    simp only [firstIndex?_eq_none_iff.mpr nowhere, Option.map_none]
    cases firstIndex? state.catalog.words fun word => accepts word.name word.constant <;> rfl

theorem findWord?_eq_findName?_iff {name : String}
    (absent : ∀ word ∈ state.compiled, word.name ≠ name) :
    state.findWord? name = state.catalog.findName? name ↔
      state.order = .shadowing ∨ state.catalog.NamedOnce (some name) := by
  rw [findWord?, search_of_absent (by simpa using absent), Catalog.findName?, Catalog.namedOnce_iff]
  cases order : state.order with
  | shadowing => simp
  | firstMatch => simpa using firstIndex?_eq_lastIndex?_iff

theorem findConstant?_eq_catalog {constant : String}
    (distinct : (state.catalog.words.toList.map (·.constant)).Nodup)
    (absent : ∀ word ∈ state.compiled, word.constant ≠ constant) :
    state.findConstant? constant = state.catalog.findConstant? constant := by
  rw [findConstant?, search_of_absent (by simpa using absent), Catalog.findConstant?]
  cases state.order with
  | shadowing =>
    exact (firstIndex?_eq_lastIndex?_iff.mpr (places_subsingleton distinct constant)).symm
  | firstMatch => rfl

end State

/-! ### Integers behind the wide-integer word -/

variable {state : State}

/-- A word that is given by its name is the last word when the next token outside comments comes. -/
theorem Passes.lastWord_between {draft final : Draft} {turns earlier later : List Turn}
    {named next : Turn} (passes : Passes state draft turns final)
    (split : codeTurns turns = earlier ++ named :: next :: later)
    (plain : IsPlain state named.token) :
    next.before.lastWord = (state.findWord? named.token.lexeme).map Int.ofNat := by
  obtain ⟨front, back, rfl, -, behind, outside⟩ := codeTurns_split split
  obtain ⟨-, found, rest⟩ := passes.split
  -- Only turns inside comments lie between the two, and they leave the last word as it is.
  have behind : codeTurns back = [] ++ next :: later := behind
  obtain ⟨comments, back, rfl, silent, -, -⟩ := codeTurns_split behind
  obtain ⟨between, -⟩ := rest.split
  obtain ⟨block, resolved, emitted⟩ := (named.codeEffect found outside).plainBlock plain
  rw [between.lastWord_of_silent (by simp [silent]), Spells.lastWord_emit emitted,
    lastWord_plainBlock resolved]

/-- An integer that is the name of no word takes two units exactly if the last word is the
wide-integer word, and the units of its word are the ones it appends. -/
theorem Yields.literal_unitsIn {after : State} {source : String} {line : Option Int}
    {word : CompiledWord} {tokens : List Token} {turns : List Turn} {literal : Turn} {value : Int}
    (yields : Yields state source line after word tokens turns)
    (member : literal ∈ codeTurns turns) (plain : IsPlain state literal.token)
    (unknown : state.findWord? literal.token.lexeme = none)
    (number : Text.parseInt32 literal.token.lexeme.toList = .ok (some value))
    (present : state.bootstrap.wideInt.isSome = true) :
    literal.unitsIn word.code =
      if literal.before.lastWord = state.bootstrap.wideInt then Code.splitWide value
      else [Code.toUnit value] := by
  obtain ⟨draft, passes, -⟩ := yields.passes
  obtain ⟨inside, outside⟩ := List.mem_filter.mp member
  have found := passes.effect inside
  obtain ⟨block, resolved, emitted⟩ := (literal.codeEffect found outside).plainBlock plain
  have closed : ¬ literal.IsOpen state := by
    rw [literal.isOpen_iff found outside, emitted]
    exact Bool.false_ne_true
  rw [yields.laid.unitsIn passes rfl member closed, literal.units_eq, emitted]
  simp only [plainBlock, unknown, number, present, Bool.true_and, beq_iff_eq] at resolved
  split at resolved
  · rename_i wide
    rw [if_pos wide, ← Except.ok.inj resolved]
    simp [Effect.units, Code.splitWide, Code.toUnit]
  · rename_i narrow
    rw [if_neg narrow, ← Except.ok.inj resolved]
    rfl

/-- In a dictionary without compiled words, the bootstrap words are the ones that tokens find under
the same names and constants, unless the oldest word is taken and several native words share the
name. So, in whatever definition of a session, an integer right behind the name of the wide-integer
word takes two units as long as no definition has taken the name, and one unit in the case
excepted. -/
theorem bootstrap_lookup {start : State} (empty : start.compiled = #[])
    (found : Bootstrap.find start.catalog start.names = .ok start.bootstrap) :
    start.bootstrap.litstring =
        (start.names.litstringConstant.bind start.findConstant?).map Int.ofNat ∧
      (∀ index name, (index, name) ∈ start.bootstrap.named start.names →
        (index = (name.bind start.findWord?).map Int.ofNat ↔
          start.order = .shadowing ∨ start.catalog.NamedOnce name)) ∧
      ∀ commands source line after word,
        (start.run commands).compile source line = (after, .ok (some word)) →
        start.bootstrap.wideInt.isSome = true →
        (∀ entry ∈ (start.run commands).compiled, some entry.name ≠ start.names.wideInt) →
        ∃ tokens turns, Yields (start.run commands) source line after word tokens turns ∧
          ∀ earlier wide literal later value,
            codeTurns turns = earlier ++ wide :: literal :: later →
            IsPlain (start.run commands) wide.token →
            some wide.token.lexeme = start.names.wideInt →
            IsPlain (start.run commands) literal.token →
            (start.run commands).findWord? literal.token.lexeme = none →
            Text.parseInt32 literal.token.lexeme.toList = .ok (some value) →
            (start.order = .shadowing ∨ start.catalog.NamedOnce start.names.wideInt →
              literal.unitsIn word.code = Code.splitWide value) ∧
            (¬ (start.order = .shadowing ∨ start.catalog.NamedOnce start.names.wideInt) →
              literal.unitsIn word.code = [Code.toUnit value]) := by
  obtain ⟨distinct, looked⟩ := Bootstrap.find_eq_ok_iff.mp found
  refine ⟨?_, ?_, ?_⟩
  · have same : start.findConstant? = start.catalog.findConstant? := by
      funext constant
      exact State.findConstant?_eq_catalog distinct (by simp [empty])
    rw [same, ← looked]
    rfl
  · intro index name member
    rw [← looked] at member
    rw [Bootstrap.named_ofCatalog member]
    cases name with
    | none => simp [Catalog.NamedOnce]
    | some name =>
      rw [Option.bind_some, Option.bind_some,
        (Option.map_injective Int.ofNat_injective).eq_iff, eq_comm]
      exact State.findWord?_eq_findName?_iff (by simp [empty])
  · intro commands source line after word compiled present absent
    obtain ⟨tokens, turns, yields⟩ := compile_yields compiled
    refine ⟨tokens, turns, yields, ?_⟩
    intro earlier wide literal later value split named lexeme plain unknown number
    -- The commands before add words and nothing else that the two lookups see.
    obtain ⟨setup, -⟩ := State.run_frame start commands
    simp only [State.setup, Setup.mk.injEq] at setup
    obtain ⟨catalog, -, bootstrap, order, -⟩ := setup
    rw [← lexeme] at absent ⊢
    obtain ⟨draft, passes, -⟩ := yields.passes
    have units := yields.literal_unitsIn (by rw [split]; simp) plain unknown number
      (by rw [bootstrap, present])
    have wideInt : start.bootstrap.wideInt =
        (start.catalog.findName? wide.token.lexeme).map Int.ofNat := by
      rw [← looked, Bootstrap.ofCatalog, ← lexeme]
      rfl
    have agree : literal.before.lastWord = start.bootstrap.wideInt ↔
        start.order = .shadowing ∨ start.catalog.NamedOnce (some wide.token.lexeme) := by
      rw [passes.lastWord_between split named, wideInt,
        (Option.map_injective Int.ofNat_injective).eq_iff, ← order, ← catalog]
      exact State.findWord?_eq_findName?_iff fun entry member same =>
        absent entry member (congrArg some same)
    rw [bootstrap] at units
    rw [units, ← agree]
    exact ⟨fun here => if_pos here, fun other => if_neg other⟩

/-- The words of `wideStart`, of which the oldest is taken. -/
def oldestStart : State :=
  { wideStart with order := .firstMatch }

def wideText : String :=
  ": w int ( a ) 70000 ;"

def wideWord : CompiledWord where
  name := "w"
  constant := "w"
  flags := {}
  code := #[0, 0, 1, 4464]
  doc := some "a"

theorem bootstrap_lookup_sample :
    oldestStart.compiled = #[] ∧
      Bootstrap.find oldestStart.catalog oldestStart.names = .ok oldestStart.bootstrap ∧
      oldestStart.order = .firstMatch ∧ oldestStart.findWord? "int" = some 0 ∧
      oldestStart.bootstrap.wideInt = some 0 ∧
      ∃ after, (oldestStart.run [.compile ": a int ;" (some 1)]).compile wideText (some 2) =
          (after, .ok (some wideWord)) ∧
        ∃ literal : Turn, literal.token.lexeme = "70000" ∧
          literal.unitsIn wideWord.code = [1, 4464] := by
  have found : Bootstrap.find oldestStart.catalog oldestStart.names = .ok oldestStart.bootstrap :=
    Bootstrap.find_eq_ok_iff.mpr ⟨by decide, rfl⟩
  have once : oldestStart.catalog.NamedOnce oldestStart.names.wideInt := by
    refine Catalog.namedOnce_iff.mpr (firstIndex?_eq_lastIndex?_iff.mp ?_)
    decide +kernel
  have compiled : (oldestStart.run [.compile ": a int ;" (some 1)]).compile wideText (some 2) =
      (((oldestStart.run [.compile ": a int ;" (some 1)]).compile wideText (some 2)).1,
        .ok (some wideWord)) := Prod.ext rfl (by decide +kernel)
  obtain ⟨-, -, session⟩ := bootstrap_lookup (show oldestStart.compiled = #[] from rfl) found
  obtain ⟨tokens, turns, yields, literals⟩ := session _ _ _ _ _ compiled rfl (by decide +kernel)
  have outside := yields.outside
  obtain ⟨number, line, body⟩ := yields.body
  obtain rfl : 2 = number := Option.some.inj line
  have read : (bodyTokens? wideText 2).map (Token.outside 0) =
      some [⟨.word, "int", some 2, some 2⟩, ⟨.word, "70000", some 2, some 12⟩] := by decide +kernel
  rw [body] at read
  rw [Option.some.inj read] at outside
  obtain ⟨wide, later, split, first, rest⟩ := List.map_eq_cons_iff.mp outside
  obtain ⟨literal, later, rfl, second, last⟩ := List.map_eq_cons_iff.mp rest
  obtain ⟨stored, -⟩ := literals [] wide literal later 70000 split (.inl (by rw [first]))
    (by rw [first]; rfl) (.inl (by rw [second])) (by rw [second]; decide +kernel)
    (by rw [second]; decide +kernel)
  exact ⟨rfl, found, rfl, by decide +kernel, by decide +kernel, _, compiled, literal,
    by rw [second], stored (.inr once)⟩

def twoIntCatalog : Catalog :=
  (({} : Catalog).register "int" (some "a") none none).register "int" (some "b") none none

/-- Two native words share the name of the wide-integer word, and the oldest word is taken. -/
def twoIntStart : State where
  catalog := twoIntCatalog
  slots := {}
  bootstrap := .ofCatalog twoIntCatalog {}
  order := .firstMatch

/-- The integer loses its upper half, and nothing is reported. -/
theorem shared_name_narrows_literal :
    twoIntStart.compiled = #[] ∧
      Bootstrap.find twoIntStart.catalog twoIntStart.names = .ok twoIntStart.bootstrap ∧
      twoIntStart.names.wideInt = some "int" ∧
      twoIntStart.bootstrap.wideInt = some 1 ∧ twoIntStart.findWord? "int" = some 0 ∧
      (twoIntStart.compile ": w int 70000 ;" (some 1)).2 = .ok (some
        { name := "w", constant := "w", flags := {}, code := #[0, 0, 4464], doc := none }) ∧
      (twoIntStart.compile ": w int 70000 ;" (some 1)).1.diagnostics = #[] := by
  refine ⟨rfl, Bootstrap.find_eq_ok_iff.mpr ⟨by decide, rfl⟩, ?_⟩
  decide +kernel

end Compiler

end ThreadedCode
