/-
Blanks: the characters with the White_Space property.

* **`isBlank`** — membership in the class.

Design notes:
* The class is short enough for one table that covers ASCII too: tab to carriage
  return, and the space.
-/
import Retrace.Text.Ranges

namespace Retrace.Text

/-- The blanks, as ranges of code points. -/
def blankRanges : Ranges :=
  [(0x9, 0xd), (0x20, 0x20), (0x85, 0x85), (0xa0, 0xa0), (0x1680, 0x1680), (0x2000, 0x200a),
   (0x2028, 0x2029), (0x202f, 0x202f), (0x205f, 0x205f), (0x3000, 0x3000)]

/-- A character that separates tokens and is otherwise skipped. -/
def isBlank (c : Char) : Bool :=
  blankRanges.holds c

end Retrace.Text
