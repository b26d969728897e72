/-
Readers: programs one statement at a time.

* **`Reader.read`** — the next statement.
* **`Reader.readAll`** — all statements that are left.
* **`Reader.skip`** — the way on after an error.

Design notes:
* A reader looks no further than the statement it reads, so what is wrong later in the
  text is found later.
* Errors are returned, and besides written to a transcript, after the warnings of the
  operators that were registered.
-/
import Retrace.Reader.Grammar
import Retrace.Report.Diagnostic

namespace Retrace

/-- The operators of a reader, how it reports, and the warnings to begin with. -/
structure ReaderConfig where
  operators : OperatorTable
  style : Style
  file : Option String
  warnings : List Warning

namespace ReaderConfig

/-- The built-in operators and reports in a style. -/
def standard (style : Style) (file : Option String) : ReaderConfig :=
  ⟨.builtins, style, file, []⟩

/-- Enters an operator and keeps the warning that this gives. -/
def register (config : ReaderConfig) (op : String) (level : Nat) (side : Side) :
    ReaderConfig × Option Warning :=
  let (operators, warning) := config.operators.register op level side
  ({ config with operators, warnings := config.warnings ++ warning.toList }, warning)

end ReaderConfig

/-- A reader in the middle of a text, with all that it has reported. -/
structure Reader where
  source : Source
  cursor : Cursor
  config : ReaderConfig
  transcript : String

namespace Reader

/-- A reader before a text. It reports its warnings at once. -/
def ofText (text : String) (config : ReaderConfig) : Reader :=
  let lines := config.warnings.map fun w => Report.warning w config.style ++ "\n"
  ⟨⟨text⟩, .ofText text, config, String.join lines⟩

/-- A reader with the built-in operators that reports in plain text. -/
def plain (text : String) : Reader :=
  .ofText text (.standard .plain none)

/-- Runs a parser from where the reader is. -/
def parse {α : Type} (r : Reader) (p : Parser α) : Except ReadError α × Reader :=
  match p r.cursor with
  | .ok a cursor => (.ok a, { r with cursor })
  | .error error cursor => (.error error, { r with cursor })

/-- Consumes semicolons as long as they come next. -/
def skipSemicolons : (bound : Nat) → Parser Unit
  | 0 => Parser.spent
  | bound + 1 => do
    if ← Parser.accept (.mark .semicolon) then
      skipSemicolons bound

/-- The next statement with the semicolon after it, which may be missing after a block. -/
def nextStatement (table : OperatorTable) : Parser (Option Node) := do
  skipSemicolons (← Parser.bound)
  if ← Parser.atEnd then
    return none
  let node ← Parser.statement table
  if node.endsWithBlock then
    let _ ← Parser.accept (.mark .semicolon)
  else
    let _ ← Parser.consume (.mark .semicolon)
  return some node

/-- Writes an error to the transcript. -/
def report (r : Reader) (error : ReadError) : Reader :=
  let text := Report.readError error r.source r.config.file r.config.style
  { r with transcript := r.transcript ++ text ++ "\n" }

/-- The next statement, or none at the end of the text. After an error the reader stands at
the token that is wrong. -/
def read (r : Reader) : Except ReadError (Option Node) × Reader :=
  match r.parse (nextStatement r.config.operators) with
  | (.ok node, r) => (.ok node, r)
  | (.error error, r) => (.error error, r.report error)

/-- At most `bound` statements, up to the first error. -/
def readWithin (r : Reader) : (bound : Nat) → Except ReadError (List Node) × Reader
  | 0 => (.ok [], r)
  | bound + 1 =>
    match r.read with
    | (.error error, r) => (.error error, r)
    | (.ok none, r) => (.ok [], r)
    | (.ok (some node), r) =>
      let (nodes, r) := r.readWithin bound
      (nodes.map (node :: ·), r)

/-- All statements that are left, or the first error. -/
def readAll (r : Reader) : Except ReadError (List Node) × Reader :=
  r.readWithin (r.cursor.remaining + 1)

/-- Gives up on the text through the next semicolon. -/
def skip (r : Reader) : Reader :=
  { r with cursor := r.cursor.skipPastSemicolon }

end Reader

end Retrace
