/-
Sessions: programs run one after the other in one global frame.

* **`Session.evaluate`** — one statement.
* **`Session.run`** — a program, up to its first error.
* **`Session.runEach`** — a program, going on after errors.
* **`Session.describe`** — the report of an evaluation error.

Design notes:
* A session starts with the primitives bound in its global frame. What a program
  defines stays for the programs after it.
* Statements are read one at a time and evaluated before the next is read, so an error
  in the text does not take back what came before it.
* The limit on moves is one for each statement, and so is the counter that shows them.
* Every evaluation takes fuel. Without a result the fuel of a statement ran out.
-/
import Retrace.Machine.Run
import Retrace.Reader.Basic

namespace Retrace

/-- Why a program has no value. -/
inductive RunError
  | read (error : ReadError)
  | eval (error : EvalError)
  deriving DecidableEq, Repr

/-- The wording of an error. -/
def RunError.message : RunError → String
  | read error => error.message
  | eval error => error.message

/-- A global frame with the store around it, the limit on the moves of a statement, and the
moves that the last statement made. -/
structure Session where
  store : Store
  global : Env
  limit : Option Nat
  steps : Nat

/-- What came of a statement, the moves it made, and the number of frames after it. -/
structure StatementReport where
  result : Except EvalError Value
  steps : Nat
  frames : Nat

namespace Session

/-- A session before its first statement. -/
def start (limit : Option Nat) : Session :=
  let (root, store) := Store.empty.addRoot
  let (global, store) := store.extend root Primitive.bindings
  ⟨store, global, limit, 0⟩

/-- The number of frames made so far. -/
def frames (session : Session) : Nat :=
  session.store.created session.global

/-- What the counter of moves shows after the last statement. -/
def count (session : Session) : UInt64 :=
  .ofNat session.steps

/-- Evaluates a statement in the global frame. With every alternative tried in vain the
error is that there are no more. -/
def evaluate (session : Session) (fuel : Nat) (node : Node) :
    Option (Except EvalError Value × Session) :=
  let ⟨store, global, limit, _⟩ := session
  let (promise, store) := Machine.eval node global [] [] store
  match Machine.run fuel (.start limit) promise store with
  | some ending => some (ending.value, ⟨ending.store, global, limit, ending.meter.steps⟩)
  | none => none

/-- Evaluates at most `bound` statements up to the first error. The result is the value of
the last of them. -/
def runWithin (fuel : Nat) (last : Value) (session : Session) (reader : Reader) :
    (bound : Nat) → Option (Except RunError Value × Session × Reader)
  | 0 => some (.ok last, session, reader)
  | bound + 1 =>
    match reader.read with
    | (.error error, reader) => some (.error (.read error), session, reader)
    | (.ok none, reader) => some (.ok last, session, reader)
    | (.ok (some node), reader) =>
      match session.evaluate fuel node with
      | none => none
      | some (.error error, session) => some (.error (.eval error), session, reader)
      | some (.ok value, session) => runWithin fuel value session reader bound

/-- Runs a program up to its first error. The result is the value of its last statement, or
the empty list if it has none. The reader has what was reported. -/
def run (session : Session) (fuel : Nat) (text : String) :
    Option (Except RunError Value × Session × Reader) :=
  let reader := Reader.plain text
  runWithin fuel (.list []) session reader (reader.cursor.remaining + 1)

/-- Evaluates at most `bound` statements, with or without errors, skipping what cannot be
read. -/
def eachWithin (fuel : Nat) (session : Session) (reader : Reader) :
    (bound : Nat) → Option (List (Except ReadError StatementReport) × Session)
  | 0 => some ([], session)
  | bound + 1 =>
    match reader.read with
    | (.ok none, _) => some ([], session)
    | (.error error, reader) =>
      match eachWithin fuel session reader.skip bound with
      | none => none
      | some (reports, session) => some (.error error :: reports, session)
    | (.ok (some node), reader) =>
      match session.evaluate fuel node with
      | none => none
      | some (result, session) =>
        let report := ⟨result, session.steps, session.frames⟩
        match eachWithin fuel session reader bound with
        | none => none
        | some (reports, session) => some (.ok report :: reports, session)

/-- Evaluates every statement of a program that can be read, whatever comes of it. -/
def runEach (session : Session) (fuel : Nat) (text : String) :
    Option (List (Except ReadError StatementReport) × Session) :=
  let reader := Reader.plain text
  eachWithin fuel session reader (reader.cursor.remaining + 1)

/-- The report of an evaluation error. For a name that is not bound it offers the names that
are close to it. -/
def describe (session : Session) (error : EvalError) (style : Style) : String :=
  let names :=
    match error with
    | .symbolNotFound name => Report.similar name (session.store.visible session.global) 2
    | _ => []
  Report.evalError error names style

end Session

/-- Runs a program in a session of its own. -/
def runProgram (fuel : Nat) (text : String) : Option (Except RunError Value) :=
  ((Session.start none).run fuel text).map (·.1)

end Retrace
