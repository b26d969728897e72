/-
The parts that reports are put together from.

* **`header`** — the line that names the class of an error.
* **`location`** — file, line and column.
* **`snippet`** — the line of the source with a part of it underlined.

Design notes:
* A header is filled up with dashes to sixty bytes.
* Only a part within one line is underlined in full. Of a part that runs over several
  lines, and of an empty one, one character is.
* A part that begins or ends inside a character has no place in the lines of a source,
  and nothing is said of it.
-/
import Retrace.Report.Style
import Retrace.Source.Basic

namespace Retrace.Report

/-- A character a number of times. -/
def repeated (c : Char) (n : Nat) : String :=
  String.ofList (List.replicate n c)

/-- The line that names the class of an error. -/
def header (kind : String) (style : Style) : String :=
  let dashes := repeated '-' (60 - (Text.width kind.toList + 4))
  style.paint .cyan ("-- " ++ kind ++ " " ++ dashes)

/-- Where a part of a source begins, unless that is inside a character. -/
def location? (file : Option String) (span : Span) (src : Source) (style : Style) :
    Option String := do
  let start ← src.position? span.start
  return style.paint .bold (file.getD "<input>" ++ ":" ++ start.text)

/-- Where a part of a source begins. -/
def location (file : Option String) (span : Span) (src : Source) (style : Style) : String :=
  (location? file span src style).getD ""

/-- The line in which a part of a source begins, and carets under that part, unless it begins or
ends inside a character. -/
def snippet? (src : Source) (span : Span) (style : Style) : Option String := do
  let start ← src.position? span.start
  let stop ← src.position? span.stop
  let gutter := toString start.line
  let carets := if start.line = stop.line then max 1 (stop.column - start.column) else 1
  let padding := gutter.length + 3 + start.column - 1
  return style.paint .cyan (gutter ++ " |") ++ " " ++ (src.line? start.line).getD "" ++ "\n"
    ++ repeated ' ' padding ++ style.paint .red (repeated '^' carets)

/-- The line in which a part of a source begins, and carets under that part. -/
def snippet (src : Source) (span : Span) (style : Style) : String :=
  (snippet? src span style).getD ""

end Retrace.Report
