import Mathlib.Order.Bounds.Basic
import ThreadedCode.Compiler.State

/-!
# The symbols of a dictionary

The names and constants of the native and the compiled words form one sequence, in which a word's
place is its index. `search_eq` shows that resolving a name is a search of that sequence from one
end, so it finds the greatest or the least index and does not see anything but symbols.
-/

namespace ThreadedCode

/-! ### Searching from either end -/

variable {α β : Type}

/-- The places of an array whose elements satisfy `p`. -/
def places (xs : Array α) (p : α → Bool) : Set Nat :=
  {place | xs[place]?.any p = true}

theorem lt_size_of_mem_places {xs : Array α} {p : α → Bool} {place : Nat}
    (member : place ∈ places xs p) : place < xs.size := by
  by_contra beyond
  simp [places, Array.getElem?_eq_none (Nat.le_of_not_lt beyond)] at member

theorem lastIndexBelow?_eq_some_iff {xs : Array α} {p : α → Bool} {bound place : Nat} :
    lastIndexBelow? xs p bound = some place ↔
      IsGreatest {place | place < bound ∧ place ∈ places xs p} place := by
  induction bound with
  | zero => simp [lastIndexBelow?, IsGreatest]
  | succ bound ih =>
    rw [lastIndexBelow?]
    split
    · rename_i holds
      constructor
      · intro found
        obtain rfl := Option.some.inj found
        exact ⟨⟨Nat.lt_succ_self _, holds⟩, fun other member => Nat.le_of_lt_succ member.1⟩
      · rintro ⟨⟨below, -⟩, greatest⟩
        have least := greatest ⟨Nat.lt_succ_self bound, holds⟩
        rw [Nat.le_antisymm least (Nat.le_of_lt_succ below)]
    · rename_i fails
      have same : {place | place < bound + 1 ∧ place ∈ places xs p} =
          {place | place < bound ∧ place ∈ places xs p} := by
        ext other
        constructor
        · rintro ⟨below, member⟩
          refine ⟨Nat.lt_of_le_of_ne (Nat.le_of_lt_succ below) ?_, member⟩
          rintro rfl
          exact fails member
        · rintro ⟨below, member⟩
          exact ⟨Nat.lt_succ_of_lt below, member⟩
      rw [ih, same]

theorem lastIndex?_eq_some_iff {xs : Array α} {p : α → Bool} {place : Nat} :
    lastIndex? xs p = some place ↔ IsGreatest (places xs p) place := by
  have same : {place | place < xs.size ∧ place ∈ places xs p} = places xs p := by
    ext other
    exact ⟨And.right, fun member => ⟨lt_size_of_mem_places member, member⟩⟩
  rw [lastIndex?, lastIndexBelow?_eq_some_iff, same]

theorem firstIndex?_eq_some_iff {xs : Array α} {p : α → Bool} {place : Nat} :
    firstIndex? xs p = some place ↔ IsLeast (places xs p) place := by
  rw [firstIndex?, Array.findIdx?_eq_some_iff_getElem]
  constructor
  · rintro ⟨inside, holds, before⟩
    refine ⟨by simpa [places, Array.getElem?_eq_getElem inside] using holds, fun other member => ?_⟩
    by_contra smaller
    have below : other < place := Nat.lt_of_not_le smaller
    refine before other below ?_
    simpa [places, Array.getElem?_eq_getElem (Nat.lt_trans below inside)] using member
  · rintro ⟨member, least⟩
    have inside := lt_size_of_mem_places member
    refine ⟨inside, by simpa [places, Array.getElem?_eq_getElem inside] using member, ?_⟩
    intro other below holds
    have bound := least (show other ∈ places xs p by
      simpa [places, Array.getElem?_eq_getElem (Nat.lt_trans below inside)] using holds)
    omega

theorem lastIndexBelow?_eq_none_iff {xs : Array α} {p : α → Bool} {bound : Nat} :
    lastIndexBelow? xs p bound = none ↔ ∀ place < bound, place ∉ places xs p := by
  induction bound with
  | zero => simp [lastIndexBelow?]
  | succ bound ih =>
    rw [lastIndexBelow?]
    split
    · rename_i holds
      simp only [reduceCtorEq, false_iff, not_forall]
      exact ⟨bound, Nat.lt_succ_self _, fun absent => absent holds⟩
    · rename_i fails
      rw [ih]
      constructor
      · intro absent place below
        rcases Nat.lt_succ_iff_lt_or_eq.mp below with below | rfl
        · exact absent place below
        · exact fails
      · intro absent place below
        exact absent place (Nat.lt_succ_of_lt below)

theorem lastIndex?_eq_none_iff {xs : Array α} {p : α → Bool} :
    lastIndex? xs p = none ↔ places xs p = ∅ := by
  rw [lastIndex?, lastIndexBelow?_eq_none_iff, Set.eq_empty_iff_forall_notMem]
  exact ⟨fun absent place member => absent place (lt_size_of_mem_places member) member,
    fun absent place _ => absent place⟩

theorem firstIndex?_eq_none_iff {xs : Array α} {p : α → Bool} :
    firstIndex? xs p = none ↔ places xs p = ∅ := by
  rw [firstIndex?, Array.findIdx?_eq_none_iff, Set.eq_empty_iff_forall_notMem]
  constructor
  · intro absent place member
    have inside := lt_size_of_mem_places member
    have holds : p xs[place] = true := by
      simpa [places, Array.getElem?_eq_getElem inside] using member
    simp [absent _ (Array.getElem_mem inside)] at holds
  · intro absent x member
    obtain ⟨place, inside, rfl⟩ := Array.getElem_of_mem member
    simpa [places, Array.getElem?_eq_getElem inside] using absent place

theorem lastIndexBelow?_congr {xs : Array α} {ys : Array β} {p : α → Bool} {q : β → Bool}
    {bound : Nat} (same : ∀ place < bound, xs[place]?.any p = ys[place]?.any q) :
    lastIndexBelow? xs p bound = lastIndexBelow? ys q bound := by
  induction bound with
  | zero => rfl
  | succ bound ih =>
    rw [lastIndexBelow?, lastIndexBelow?, same bound (Nat.lt_succ_self _),
      ih fun place below => same place (Nat.lt_succ_of_lt below)]

theorem lastIndex?_map (xs : Array α) (f : α → β) (p : β → Bool) :
    lastIndex? (xs.map f) p = lastIndex? xs fun x => p (f x) := by
  rw [lastIndex?, lastIndex?, Array.size_map]
  refine lastIndexBelow?_congr fun place below => ?_
  simp [Array.getElem?_eq_getElem below]

theorem lastIndexBelow?_append (xs ys : Array α) (p : α → Bool) (bound : Nat) :
    lastIndexBelow? (xs ++ ys) p (xs.size + bound) =
      match lastIndexBelow? ys p bound with
      | some place => some (xs.size + place)
      | none => lastIndex? xs p := by
  induction bound with
  | zero =>
    refine lastIndexBelow?_congr fun place below => ?_
    rw [Array.getElem?_append_left below]
  | succ bound ih =>
    rw [← Nat.add_assoc, lastIndexBelow?, lastIndexBelow?,
      Array.getElem?_append_right (Nat.le_add_right _ _), Nat.add_sub_cancel_left]
    by_cases holds : ys[bound]?.any p = true
    · rw [if_pos holds, if_pos holds]
    · rw [if_neg holds, if_neg holds, ih]

theorem lastIndex?_append (xs ys : Array α) (p : α → Bool) :
    lastIndex? (xs ++ ys) p =
      match lastIndex? ys p with
      | some place => some (xs.size + place)
      | none => lastIndex? xs p := by
  rw [lastIndex?, Array.size_append, lastIndexBelow?_append]
  rfl

/-! ### Resolving a name -/

namespace Order

/-- The index among the candidates that an order of resolution takes. -/
def Takes (order : Order) (candidates : Set Nat) (index : Nat) : Prop :=
  match order with
  | .shadowing => IsGreatest candidates index
  | .firstMatch => IsLeast candidates index

theorem Takes.mem {order : Order} {candidates : Set Nat} {index : Nat}
    (taken : order.Takes candidates index) : index ∈ candidates := by
  cases order with
  | shadowing => exact taken.1
  | firstMatch => exact taken.1

end Order

namespace Compiler.State

/-- The name and the constant of every word, native words first. -/
def symbols (state : State) : Array (String × String) :=
  state.catalog.words.map (fun word => (word.name, word.constant)) ++
    state.compiled.map fun word => (word.name, word.constant)

theorem size_symbols (state : State) : state.symbols.size = state.nextIndex := by
  simp [symbols, nextIndex, Catalog.size]

/-- A search goes through the symbols from one end. -/
theorem search_eq (state : State) (accepts : String → String → Bool) :
    state.search accepts =
      match state.order with
      | .shadowing => lastIndex? state.symbols fun symbol => accepts symbol.1 symbol.2
      | .firstMatch => firstIndex? state.symbols fun symbol => accepts symbol.1 symbol.2 := by
  unfold search symbols
  cases state.order with
  | shadowing =>
    simp only [lastIndex?_append, lastIndex?_map, Array.size_map]
    rfl
  | firstMatch =>
    simp only [firstIndex?, Array.findIdx?_append, Array.findIdx?_map, Array.size_map,
      Function.comp_def]
    cases state.catalog.words.findIdx? fun word => accepts word.name word.constant with
    | some place => rfl
    | none => simp [Catalog.size, Nat.add_comm]

theorem search_eq_some_iff {state : State} {accepts : String → String → Bool} {index : Nat} :
    state.search accepts = some index ↔
      state.order.Takes (places state.symbols fun symbol => accepts symbol.1 symbol.2) index := by
  rw [search_eq]
  cases state.order with
  | shadowing => exact lastIndex?_eq_some_iff
  | firstMatch => exact firstIndex?_eq_some_iff

theorem search_eq_none_iff {state : State} {accepts : String → String → Bool} :
    state.search accepts = none ↔
      places state.symbols (fun symbol => accepts symbol.1 symbol.2) = ∅ := by
  rw [search_eq]
  cases state.order with
  | shadowing => exact lastIndex?_eq_none_iff
  | firstMatch => exact firstIndex?_eq_none_iff

theorem search_congr {state other : State} (order : other.order = state.order)
    (symbols : other.symbols = state.symbols) : other.search = state.search := by
  funext accepts
  rw [search_eq, search_eq, order, symbols]

end Compiler.State

end ThreadedCode
