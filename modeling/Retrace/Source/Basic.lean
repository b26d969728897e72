/-
Source texts and the positions in them.

* **`Source.position?`** — the line and column of a byte offset.
* **`Source.line?`** — the text of a line, without its end.
* **`Source.spanText`** — the text of a span.

Design notes:
* A position is found in the table of the offsets at which lines begin, by binary search.
  Lines and columns count from one, and columns count characters.
* A line ends at a line feed. The carriage returns just before that end are not part of
  its text.
* Text is sliced at offsets, and an offset inside a character has no position. The
  functions without a question mark have a value there too, which means nothing.
-/
import Retrace.Source.Search
import Retrace.Source.Span
import Retrace.Text.Bytes

namespace Retrace

/-- A place in a text as a reader counts it. -/
structure Position where
  line : Nat
  column : Nat
  deriving DecidableEq, Repr

namespace Position

/-- The place of the first character. -/
def origin : Position :=
  ⟨1, 1⟩

/-- Line and column with a colon between them. -/
def text (p : Position) : String :=
  toString p.line ++ ":" ++ toString p.column

end Position

/-- A source text. -/
structure Source where
  text : String
  deriving DecidableEq, Repr

namespace Source

/-- The characters of the text. -/
def chars (src : Source) : List Char :=
  src.text.toList

/-- The length of the text in bytes. -/
def size (src : Source) : Nat :=
  Text.width src.chars

/-- The offsets behind the line feeds of a text that begins at an offset. -/
def startsFrom (offset : Nat) : List Char → List Nat
  | [] => []
  | c :: cs =>
    if c = '\n' then (offset + 1) :: startsFrom (offset + 1) cs
    else startsFrom (offset + c.utf8Size) cs

/-- The offsets at which the lines begin, in ascending order. -/
def lineStarts (src : Source) : Array Nat :=
  (0 :: startsFrom 0 src.chars).toArray

/-- The number of lines; a text without line feeds has one. -/
def lineCount (src : Source) : Nat :=
  src.lineStarts.size

/-- The index of the line that an offset is in: the last one that begins no later. -/
def lineIndex? (src : Source) (offset : Nat) : Option Nat :=
  match Search.inArray src.lineStarts offset with
  | .found index => some index
  | .missing 0 => none
  | .missing (index + 1) => some index

/-- The line and column of a byte offset that is not inside a character. Offsets past the end count
as the end. -/
def position? (src : Source) (offset : Nat) : Option Position := do
  let offset := min offset src.size
  let index ← src.lineIndex? offset
  let start ← src.lineStarts[index]?
  let before ← Text.slice? start offset src.chars
  return ⟨index + 1, before.length + 1⟩

/-- The line and column of a byte offset. -/
def position (src : Source) (offset : Nat) : Position :=
  (src.position? offset).getD .origin

/-- A piece without the carriage returns at its end. -/
def trimReturns (line : List Char) : List Char :=
  (line.reverse.dropWhile (· = '\r')).reverse

/-- The text of a line, counted from one. -/
def line? (src : Source) (n : Nat) : Option String :=
  if n = 0 ∨ src.lineCount < n then none
  else do
    let start ← src.lineStarts[n - 1]?
    let stop := (src.lineStarts[n]?.map (· - 1)).getD src.size
    let text ← Text.slice? start stop src.chars
    return String.ofList (trimReturns text)

/-- The text of a span. A span that ends past the text is cut at its end, and one that
starts after its own end is empty. -/
def spanText (src : Source) (span : Span) : String :=
  String.ofList (Text.dropBytes span.start (Text.takeBytes span.stop src.chars))

/-- The same for a span that begins and ends between characters. -/
def spanText? (src : Source) (span : Span) : Option String := do
  let stop := min span.stop src.size
  let text ← Text.slice? (min span.start stop) stop src.chars
  return String.ofList text

end Source

end Retrace
