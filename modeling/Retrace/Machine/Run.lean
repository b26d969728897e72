/-
Running the evaluation machine.

* **`Meter`** — a count of moves, with a limit or without.
* **`run`** — moves until there is a value or an error.

Design notes:
* A program need not end, so a run takes fuel. No result means that the fuel ran out.
* The limit is part of the program's world and its excess is an error. It is looked at
  before each move, so a run that needs exactly as many moves as it has left ends well.
* A meter holds the number of moves itself. What is shown of it is a counter of 64 bits
  (`Meter.count`), to which each move adds one and which wraps, as additions do where overflow
  is not checked. No result of a run depends on that: without a limit nothing looks at the
  counter, and with a limit of 64 bits it does not pass the limit.
-/
import Retrace.Machine.Step

namespace Retrace.Machine

/-- The number of moves made so far, and how many may be made. -/
structure Meter where
  limit : Option Nat
  steps : Nat
  deriving DecidableEq, Repr

namespace Meter

/-- A meter before the first move. -/
def start (limit : Option Nat) : Meter :=
  ⟨limit, 0⟩

/-- The limit, if it is used up. -/
def spent? (meter : Meter) : Option Nat :=
  meter.limit.filter (· ≤ meter.steps)

/-- A meter after one move more. -/
def tick (meter : Meter) : Meter :=
  { meter with steps := meter.steps + 1 }

/-- What the counter of moves shows. -/
def count (meter : Meter) : UInt64 :=
  .ofNat meter.steps

@[simp] theorem count_start (limit : Option Nat) : (start limit).count = 0 :=
  rfl

/-- The counter wraps. -/
@[simp] theorem count_tick (meter : Meter) : meter.tick.count = meter.count + 1 :=
  UInt64.ofNat_add meter.steps 1

end Meter

/-- How a run ended, the meter after it, and the store. -/
structure Ending where
  result : Except EvalError (Value × Option Trail)
  meter : Meter
  store : Store

/-- The value of a run, without the choices left open. -/
def Ending.value (ending : Ending) : Except EvalError Value :=
  ending.result.map (·.1)

/-- The choices left open by a value that was delivered as the result. -/
def Ending.trail? (ending : Ending) : Option Trail :=
  match ending.result with
  | .ok (_, trail) => trail
  | .error _ => none

/-- Moves until there is a value or an error. -/
def run (fuel : Nat) (meter : Meter) (promise : Promise) (s : Store) : Option Ending :=
  match promise with
  | .error error => some ⟨.error error, meter, s⟩
  | .done value trail => some ⟨.ok (value, trail), meter, s⟩
  | .next move =>
    match meter.spent? with
    | some limit => some ⟨.error (.stepLimitExceeded limit), meter, s⟩
    | none =>
      match fuel with
      | 0 => none
      | fuel + 1 =>
        let (promise, s) := bounce move s
        run fuel meter.tick promise s

end Retrace.Machine
