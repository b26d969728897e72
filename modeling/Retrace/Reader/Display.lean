/-
Programs as they are read: the trees of a text in prefix form.

* **`displays`** — all statements of a text.
* **`firstDisplay`** — its first statement.
* **`diagnostics`** — what reading a text reports.
-/
import Retrace.Reader.Basic

namespace Retrace

/-- Why a statement cannot be shown. -/
inductive DisplayError
  | read (error : ReadError)
  | noStatement
  deriving DecidableEq, Repr

/-- The wording of an error. -/
def DisplayError.message : DisplayError → String
  | read error => "Parse error: " ++ error.message
  | noStatement => "no statement"

/-- All statements of a text in prefix form. -/
def displays (text : String) : Except DisplayError (List String) :=
  match (Reader.plain text).readAll.1 with
  | .ok nodes => .ok (nodes.map Node.text)
  | .error error => .error (.read error)

/-- The first statement of a text in prefix form. -/
def firstDisplay (text : String) : Except DisplayError String :=
  match (Reader.plain text).read.1 with
  | .ok (some node) => .ok node.text
  | .ok none => .error .noStatement
  | .error error => .error (.read error)

/-- What reading a text reports, and the first error. -/
def diagnostics (text : String) : String × Option ReadError :=
  match (Reader.plain text).readAll with
  | (.ok _, r) => (r.transcript, none)
  | (.error error, r) => (r.transcript, some error)

end Retrace
