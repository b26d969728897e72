/-
Classes of characters, given as closed ranges of code points.

* **`Ranges.holds`** — membership of a character.

Design notes:
* A class is data and its test is one fold over that data, so that two classes
  can be compared by comparing their end points.
-/

namespace Retrace.Text

/-- Closed ranges of code points in ascending order. -/
abbrev Ranges := List (Nat × Nat)

/-- Whether the code point of a character lies in one of the ranges. -/
def Ranges.holds (ranges : Ranges) (c : Char) : Bool :=
  ranges.any fun (low, high) => low ≤ c.toNat && c.toNat ≤ high

end Retrace.Text
