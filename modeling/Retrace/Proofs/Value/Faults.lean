/-
The errors of primitives.

* `EvalError.IsFault` — a wrong operand: one of the wrong type, one too many or too
  few, or a divisor that is zero.
* **`Primitive.apply_faults`** — a primitive ends with no other error.

Design notes: a search that is exhausted and a limit that is exceeded are errors of the
machine. That no primitive gives them is what makes them tell how a run ended.
-/
import Retrace.Value.Primitive

namespace Retrace

/-- The errors of wrong operands. -/
def EvalError.IsFault : EvalError → Prop
  | .type _ | .arity .. | .divisionByZero => True
  | .symbolNotFound _ | .symbolAlreadyDefined _ | .noMoreAlternatives
  | .stepLimitExceeded _ => False

/-- A result whose error, if it is one, is that of a wrong operand. -/
def Faults {α : Type} (result : Except EvalError α) : Prop :=
  ∀ e, result = .error e → e.IsFault

namespace Faults

variable {α β : Type} {result : Except EvalError α} {f : α → Except EvalError β}

theorem ok (a : α) : Faults (.ok a) := fun _ h => nomatch h

theorem error {e : EvalError} (fault : e.IsFault) : Faults (.error e : Except EvalError α) := by
  intro e' h
  obtain rfl := Except.error.inj h
  exact fault

theorem bind (first : Faults result) (next : ∀ a, Faults (f a)) : Faults (result >>= f) := by
  cases result with
  | ok a => exact next a
  | error e => exact error (first e rfl)

end Faults

namespace Value

variable (value : Value)

theorem asInt_faults : Faults value.asInt := by
  cases value <;> first | exact .ok _ | exact .error trivial

theorem asBool_faults : Faults value.asBool := by
  cases value <;> first | exact .ok _ | exact .error trivial

theorem asList_faults : Faults value.asList := by
  cases value <;> first | exact .ok _ | exact .error trivial

theorem asDivisor_faults : Faults value.asDivisor := by
  refine .bind value.asInt_faults fun n => ?_
  split
  · exact .error trivial
  · exact .ok _

end Value

namespace Primitive

variable (a b : Value)

theorem arithmetic_faults (op : Int64 → Int64 → Int64) : Faults (arithmetic op a b) :=
  .bind a.asInt_faults fun _ => .bind b.asInt_faults fun _ => .ok _

theorem comparison_faults (op : Int64 → Int64 → Bool) : Faults (comparison op a b) :=
  .bind a.asInt_faults fun _ => .bind b.asInt_faults fun _ => .ok _

theorem division_faults (op : Int64 → Int64 → Int64) : Faults (division op a b) := by
  refine .bind a.asInt_faults fun x => .bind b.asDivisor_faults fun y => ?_
  split
  · exact .error trivial
  · exact .ok _

theorem applyTwo_faults (p : Primitive) : Faults (p.applyTwo a b) := by
  cases p with
  | add | sub | mul => exact arithmetic_faults a b _
  | div | mod => exact division_faults a b _
  | lt | gt | le | ge => exact comparison_faults a b _
  | eq | ne => exact .ok _
  | cons => exact .bind b.asList_faults fun _ => .ok _
  | append => exact .bind a.asList_faults fun _ => .bind b.asList_faults fun _ => .ok _
  | xor => exact .bind a.asBool_faults fun _ => .bind b.asBool_faults fun _ => .ok _
  | not | head | tail | length => exact .error trivial

/-- A primitive ends with a value, or with the error of a wrong operand. -/
theorem apply_faults (p : Primitive) (args : List Value) : Faults (p.apply args) := by
  unfold apply
  split
  · exact .bind (Value.asInt_faults _) fun _ => .ok _
  · exact .bind (Value.asBool_faults _) fun _ => .ok _
  · refine .bind (Value.asList_faults _) fun items => ?_
    split
    · exact .error trivial
    · exact .ok _
  · refine .bind (Value.asList_faults _) fun items => ?_
    split
    · exact .error trivial
    · exact .ok _
  · exact .bind (Value.asList_faults _) fun _ => .ok _
  · exact applyTwo_faults _ _ p
  · exact .error trivial

end Primitive

end Retrace
