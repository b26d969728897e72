/-
Suggestions for a name that is not known.

* **`similar`** — the known names that are close to it.
* **`suggestions`** — the sentence that offers them.

Design notes:
* The closest names come first, and names of one distance in the order of their
  characters. At most three are offered.
* A name is never offered for itself.
-/
import Retrace.Report.Style
import Retrace.Text.Distance

namespace Retrace.Report

/-- A candidate with its distance comes no later than another. -/
def noLater (a b : Nat × String) : Bool :=
  a.1 < b.1 || (a.1 == b.1 && a.2 ≤ b.2)

/-- Up to three of the candidates that are not the name but within a distance of it. -/
def similar (name : String) (candidates : List String) (within : Nat) : List String :=
  let scored := candidates.map fun c => (Text.distance name c, c)
  let near := scored.filter fun (d, _) => 0 < d && d ≤ within
  ((near.mergeSort noLater).eraseReps.take 3).map (·.2)

/-- The sentence that offers some names, with the empty line before it. -/
def suggestions (names : List String) (style : Style) : String :=
  match names.map (style.paint .bold) with
  | [] => ""
  | [name] => "\n\nDid you mean " ++ name ++ "?"
  | names => "\n\nDid you mean one of: " ++ ", ".intercalate names ++ "?"

end Retrace.Report
