/-
Single operations on names, run to their end.

* **`lookupValue`** — the value of a name.
* **`defineValue`** — a definition, and the trail that undoes it.
* **`undo`** — an undoing.

Design notes:
* The trail below each operation ends with the value `false`, so that an undoing shows
  that it came to its end.
* A lookup makes at most one move for each frame of a chain, and one to deliver the
  value. Frame numbers fall along a chain, so the number of the first is bound enough.
-/
import Retrace.Machine.Run

namespace Retrace.Machine

/-- The trail that ends with the value `false`. -/
def falseTrail : Trail :=
  [.plan (.done (.bool false))]

/-- The value of a name as seen from an environment. -/
def lookupValue (s : Store) (env : Env) (name : String) : Except EvalError Value :=
  match run (env.number + 2) (.start none) (lookup name env [] falseTrail s) s with
  | some ending => ending.value
  | none => .error (.symbolNotFound name)

/-- Binds a name in a frame, and gives the trail that sets it free again. -/
def defineValue (s : Store) (env : Env) (name : String) (value : Value) :
    Except EvalError Trail × Store :=
  let (promise, s) := define name value env [] falseTrail s
  match run 1 (.start none) promise s with
  | some ending => (ending.result.map fun (_, trail) => trail.getD [], ending.store)
  | none => (.error .noMoreAlternatives, s)

/-- Goes back along a trail. -/
def undo (fuel : Nat) (s : Store) (trail : Trail) : Option Ending :=
  run fuel (.start none) (retreat trail) s

end Retrace.Machine
