/-!
# Positions counted from either end

A position in a sequence is an integer: from zero on it counts from the front, and a negative one
counts back from the end, `-1` being the last element.
-/

namespace ThreadedCode.Position

/-- The place in a sequence of `size` elements that an integer names, if there is one. -/
def resolve? (size : Nat) (position : Int) : Option Nat :=
  if 0 ≤ position then
    if position < size then some position.toNat else none
  else if 0 ≤ size + position then some (size + position).toNat
  else none

/-- The element of an array at a position counted from either end. -/
def get? {α : Type} (xs : Array α) (position : Int) : Option α :=
  match resolve? xs.size position with
  | some i => xs[i]?
  | none => none

/-- The boundary between elements that an integer names; beyond an end it is that end. -/
def cut (size : Nat) (position : Int) : Nat :=
  if position < 0 then (size + position).toNat else min size position.toNat

/-- The elements before a boundary counted from either end. -/
def before {α : Type} (xs : Array α) (position : Int) : Array α :=
  xs.extract 0 (cut xs.size position)

/-- The elements after a boundary counted from either end. -/
def after {α : Type} (xs : Array α) (position : Int) : Array α :=
  xs.extract (cut xs.size position) xs.size

/-- The integers from `first` up to but not including `last`, in order. -/
def span (first last : Int) : List Int :=
  (List.range (last - first).toNat).map fun (k : Nat) => first + k

/-- The results of `f` on the `count` integers from `first` on, after those in `done`. The first
error ends it, however many integers are left. -/
def collect {ε α : Type} (f : Int → Except ε α) (done : Array α) (first : Int) :
    Nat → Except ε (List α)
  | 0 => .ok done.toList
  | count + 1 =>
    match f first with
    | .ok result => collect f (done.push result) (first + 1) count
    | .error reason => .error reason

theorem collect_eq {ε α : Type} (f : Int → Except ε α) (done : Array α) (first : Int)
    (count : Nat) :
    collect f done first count =
      (((List.range count).map fun (k : Nat) => first + k).mapM f).map (done.toList ++ ·) := by
  induction count generalizing done first with
  | zero => simp [collect, Except.map, pure, Except.pure]
  | succ count ih =>
    have shift : (fun (k : Nat) => first + ((k + 1 : Nat) : Int)) = fun (k : Nat) =>
        first + 1 + k := by
      funext k; omega
    rw [collect, List.range_succ_eq_map]
    simp only [List.map_cons, List.map_map, List.mapM_cons, Function.comp_def, Nat.succ_eq_add_one,
      shift, Int.natCast_zero, Int.add_zero]
    cases f first with
    | error reason => rfl
    | ok result =>
      simp only [ih, bind, Except.bind]
      cases ((List.range count).map fun (k : Nat) => first + 1 + k).mapM f <;>
        simp [Except.map, pure, Except.pure]

/-- The results of `f` on the integers from `first` up to but not including `last`. -/
def mapSpan {ε α : Type} (f : Int → Except ε α) (first last : Int) : Except ε (List α) :=
  collect f #[] first (last - first).toNat

theorem mapSpan_eq {ε α : Type} (f : Int → Except ε α) (first last : Int) :
    mapSpan f first last = (span first last).mapM f := by
  rw [mapSpan, collect_eq, span]
  cases ((List.range (last - first).toNat).map fun (k : Nat) => first + k).mapM f <;>
    simp [Except.map]

/-- The result of `f`, started with `state`, on the `count` integers from `first` on. The first
error ends it. -/
def follow {ε σ : Type} (f : σ → Int → Except ε σ) (state : σ) (first : Int) : Nat → Except ε σ
  | 0 => .ok state
  | count + 1 =>
    match f state first with
    | .ok state => follow f state (first + 1) count
    | .error reason => .error reason

theorem follow_eq {ε σ : Type} (f : σ → Int → Except ε σ) (state : σ) (first : Int) (count : Nat) :
    follow f state first count =
      ((List.range count).map fun (k : Nat) => first + k).foldlM f state := by
  induction count generalizing state first with
  | zero => rfl
  | succ count ih =>
    have shift : (fun (k : Nat) => first + ((k + 1 : Nat) : Int)) = fun (k : Nat) =>
        first + 1 + k := by
      funext k; omega
    rw [follow, List.range_succ_eq_map]
    simp only [List.map_cons, List.map_map, List.foldlM_cons, Function.comp_def,
      Nat.succ_eq_add_one, shift, Int.natCast_zero, Int.add_zero]
    cases f state first with
    | error reason => rfl
    | ok next => exact ih next (first + 1)

def foldSpan {ε σ : Type} (f : σ → Int → Except ε σ) (state : σ) (first last : Int) :
    Except ε σ :=
  follow f state first (last - first).toNat

theorem foldSpan_eq {ε σ : Type} (f : σ → Int → Except ε σ) (state : σ) (first last : Int) :
    foldSpan f state first last = (span first last).foldlM f state :=
  follow_eq f state first (last - first).toNat

end ThreadedCode.Position
