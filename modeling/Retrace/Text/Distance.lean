/-
The edit distance between two texts: the least number of characters to insert, delete
or replace.

* `fillFrom` — one row filled in from left to right, over the row before it.
* **`distance`** — the distance, computed row by row.

Design notes:
* The row of a prefix of the first text holds its distances to all prefixes of the
  second text, from the empty one on. Only one row is kept, and a cell takes the place
  of the one above it. The cell that is up and to the left is then gone, so it is
  carried along.
* A row is as long as its type says, so no cell is ever asked for that is not there.
-/

namespace Retrace.Text

/-- What it costs that a character stands in the place of another. -/
def mismatch (a b : Char) : Nat :=
  if a = b then 0 else 1

/-- The row after a further character `a`, where the cells up to the one at `j` have
been filled in. -/
def fillFrom (a : Char) (bs : Array Char) (row : Vector Nat (bs.size + 1))
    (diagonal j : Nat) : Vector Nat (bs.size + 1) :=
  if h : j < bs.size then
    let above := row[j + 1]
    let cell := min (min (above + 1) (row[j] + 1)) (diagonal + mismatch a bs[j])
    fillFrom a bs (row.set (j + 1) cell) above (j + 1)
  else
    row
termination_by bs.size - j

/-- The row after a further character, which has `i` characters before it. -/
def nextRow (bs : Array Char) (row : Vector Nat (bs.size + 1)) (next : Char × Nat) :
    Vector Nat (bs.size + 1) :=
  fillFrom next.1 bs (row.set 0 (next.2 + 1)) row[0] 0

/-- The least number of edits that turn one text into the other. -/
def distance (a b : String) : Nat :=
  let bs := b.toList.toArray
  let last := a.toList.zipIdx.foldl (nextRow bs) (Vector.range (bs.size + 1))
  last[bs.size]

end Retrace.Text
