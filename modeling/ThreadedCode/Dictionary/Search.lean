/-!
# Searching a sequence of words

Later declarations may repeat the name of earlier ones, so a search goes from either end.
-/

namespace ThreadedCode

/-- The greatest place below `bound` whose element satisfies `p`. -/
def lastIndexBelow? {α : Type} (xs : Array α) (p : α → Bool) : Nat → Option Nat
  | 0 => none
  | bound + 1 => if xs[bound]?.any p then some bound else lastIndexBelow? xs p bound

theorem lastIndexBelow?_lt {α : Type} {xs : Array α} {p : α → Bool} {bound place : Nat}
    (found : lastIndexBelow? xs p bound = some place) : place < bound := by
  induction bound with
  | zero => simp [lastIndexBelow?] at found
  | succ bound ih =>
    rw [lastIndexBelow?] at found
    split at found
    · obtain rfl := Option.some.inj found
      exact Nat.lt_succ_self _
    · exact Nat.lt_succ_of_lt (ih found)

def lastIndex? {α : Type} (xs : Array α) (p : α → Bool) : Option Nat :=
  lastIndexBelow? xs p xs.size

theorem lastIndex?_lt {α : Type} {xs : Array α} {p : α → Bool} {place : Nat}
    (found : lastIndex? xs p = some place) : place < xs.size :=
  lastIndexBelow?_lt found

def firstIndex? {α : Type} (xs : Array α) (p : α → Bool) : Option Nat :=
  xs.findIdx? p

end ThreadedCode
