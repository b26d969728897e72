/-
Reports of errors and warnings.

* **`readError`** — an error in the text of a program.
* **`evalError`** — an error in its evaluation.
* **`warning`** — what is worth telling besides.
-/
import Retrace.Operator.Table
import Retrace.Reader.Error
import Retrace.Report.Layout
import Retrace.Report.Suggestion
import Retrace.Value.Error

namespace Retrace.Report

/-- The class of a reading error. -/
def readErrorClass : ReadError → String
  | .lexical _ => "LEXICAL ERROR"
  | .unexpectedToken _ _ _ | .unexpectedEnd _ _ => "SYNTAX ERROR"

/-- A reading error with its place and the line it is in, unless that place is inside a
character. -/
def readError? (error : ReadError) (src : Source) (file : Option String) (style : Style) :
    Option String := do
  let place ← location? file error.span src style
  let lines ← snippet? src error.span style
  return header (readErrorClass error) style ++ "\n" ++ place ++ "\n\n" ++ error.message ++ "\n\n"
    ++ lines

/-- A reading error with its place and the line it is in. -/
def readError (error : ReadError) (src : Source) (file : Option String) (style : Style) :
    String :=
  (readError? error src file style).getD ""

/-- An evaluation error, and the names that may have been meant. -/
def evalError (error : EvalError) (names : List String) (style : Style) : String :=
  header "RUNTIME ERROR" style ++ "\n\n" ++ error.message ++ suggestions names style

/-- A warning on one line. -/
def warning (w : Warning) (style : Style) : String :=
  style.paint .yellow "warning:" ++ " " ++ w.message

end Retrace.Report
