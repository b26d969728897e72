/-
Binary search in an ascending array of numbers.

* **`Search.inArray`** — where a number stands in an array, or where it would have to be put
  in.
-/

namespace Retrace

/-- What a search comes to: the index of the number, or the index at which it would stand. -/
inductive Search
  | found (index : Nat)
  | missing (index : Nat)
  deriving DecidableEq, Repr

namespace Search

/-- Searches the indices from `low` up to but not including `high`. -/
def between (xs : Array Nat) (x low high : Nat) (inside : high ≤ xs.size) : Search :=
  if some_left : low < high then
    let middle := low + (high - low) / 2
    if xs[middle] = x then .found middle
    else if xs[middle] < x then between xs x (middle + 1) high inside
    else between xs x low middle (by omega)
  else .missing low
termination_by high - low

/-- Searches a whole array. -/
def inArray (xs : Array Nat) (x : Nat) : Search :=
  between xs x 0 xs.size (Nat.le_refl _)

end Search

end Retrace
