/-
The states of the evaluation machine.

* **`Task`**, **`Cont`** — what is still to be done with a value.
* **`Choice`**, **`Trail`** — what is still to be tried when a branch fails.
* **`Promise`** — where an evaluation stands: at an error, at a value, or before its
  next move.

Design notes:
* A continuation is a list of tasks and a trail is a list of choices, so two
  evaluations can be compared by what they have left to do.
* A trail holds the choices that were left open and, between them, the definitions
  that have to be undone on the way back to them.
* A plan is a promise written out in full. It drives the machine without a program.
-/
import Retrace.Value.Basic

namespace Retrace.Machine

/-- What the values of some nodes are collected for. -/
inductive Goal
  | list
  | call (function : Value)

/-- One thing to do with a value that arrives. -/
inductive Task
  /-- Keep the value, evaluate the nodes after it, and hand all values to the goal. -/
  | collect (goal : Goal) (done : List Value) (todo : List Node) (env : Env)
  /-- Drop the value and go on with the statements after it. -/
  | sequence (next : Node) (others : List Node) (env : Env)
  /-- Bind the value to a name. -/
  | bind (name : String) (env : Env)
  /-- Go on with one of two nodes, as the value is true or false. -/
  | choose (consequent alternative : Node) (env : Env)
  /-- Take the value as the left operand of a junction. -/
  | junction (kind : Junction) (right : Node) (env : Env)
  /-- Take the value as the right operand of a junction. -/
  | check (kind : Junction)
  /-- Take the value as a function and evaluate its operands. -/
  | operands (args : List Node) (env : Env)
  /-- Drop the value and fail. -/
  | reject

/-- All that is to be done with a value, the first thing first. With nothing to do, the value
is the result. -/
abbrev Cont := List Task

/-- A promise written out in full. -/
inductive Plan
  /-- Ends with a value. -/
  | done (value : Value)
  /-- Ends with an error. -/
  | raise (error : EvalError)
  /-- Goes through a number of empty moves to another plan. -/
  | suspended (times : Nat) (plan : Plan)
  /-- Delivers a value as the result. -/
  | resume (value : Value)
  /-- Fails with no choice left. -/
  | exhaust
  /-- Fails into another plan. -/
  | backtrack (plan : Plan)
  /-- Delivers a value that is rejected in favour of another plan. -/
  | reject (value : Value) (plan : Plan)
  deriving Inhabited

/-- One thing to do when a branch fails. -/
inductive Choice
  /-- Set a name free and fail further. -/
  | undo (name : String) (env : Env)
  /-- Evaluate the other alternative of a choice. -/
  | retry (node : Node) (env : Env) (k : Cont)
  /-- Follow a plan. -/
  | plan (plan : Plan)

/-- All that is to be tried when a branch fails, the latest choice first. -/
abbrev Trail := List Choice

/-- What an evaluation does next. -/
inductive Move
  /-- Hands a value to a continuation. -/
  | deliver (value : Value) (k : Cont) (trail : Trail)
  /-- Goes back to the latest choice. -/
  | retreat (trail : Trail)
  /-- Looks a name up from an environment outwards. -/
  | seek (name : String) (env : Env) (k : Cont) (trail : Trail)
  /-- Hands collected values to their goal. -/
  | gather (goal : Goal) (values : List Value) (k : Cont) (trail : Trail)
  /-- Goes on with a plan. -/
  | follow (plan : Plan)

/-- Where an evaluation stands. A value that was delivered as the result comes with the
choices that were open then. -/
inductive Promise
  | error (error : EvalError)
  | done (value : Value) (trail : Option Trail)
  | next (move : Move)

end Retrace.Machine
