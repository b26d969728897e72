/-
The primitives at work.

* **`Primitive.apply`** — a primitive applied to values.
* **`Primitive.bindings`** — the names that an interpreter starts with.

Design notes:
* Integers have 64 bits. Sums, differences and products wrap around; a quotient or
  remainder that does not fit is an error.
* Operands are looked at from left to right, and the first that is wrong makes the
  error. A divisor is looked at before it is divided by.
-/
import Retrace.Value.Basic

namespace Retrace

namespace Value

/-- The integer of an operand. -/
def asInt : Value → Except EvalError Int64
  | int n => .ok n
  | other => .error (.type (.expectedInteger other.kind))

/-- The integer of a divisor. -/
def asDivisor (value : Value) : Except EvalError Int64 := do
  let n ← value.asInt
  if n = 0 then .error .divisionByZero else return n

/-- The truth value of an operand. -/
def asBool : Value → Except EvalError Bool
  | bool b => .ok b
  | other => .error (.type (.expectedBoolean other.kind))

/-- The items of an operand. -/
def asList : Value → Except EvalError (List Value)
  | list items => .ok items
  | other => .error (.type (.expectedList other.kind))

end Value

namespace Primitive

/-- All primitives. -/
def all : List Primitive :=
  [add, sub, mul, div, mod, eq, ne, lt, gt, le, ge, cons, append, xor, not, head, tail, length]

/-- The number of operands a primitive is said to expect. The minus sign takes a single
operand as well. -/
def arity : Primitive → Nat
  | not | head | tail | length => 1
  | _ => 2

/-- A wrapping operation on integers. -/
def arithmetic (op : Int64 → Int64 → Int64) (a b : Value) : Except EvalError Value := do
  let x ← a.asInt
  let y ← b.asInt
  return .int (op x y)

/-- A division on integers. The only quotient that does not fit is that of the least integer
by minus one. -/
def division (op : Int64 → Int64 → Int64) (a b : Value) : Except EvalError Value := do
  let x ← a.asInt
  let y ← b.asDivisor
  if x = Int64.minValue ∧ y = -1 then .error (.type .overflow) else return .int (op x y)

/-- A comparison of integers. -/
def comparison (op : Int64 → Int64 → Bool) (a b : Value) : Except EvalError Value := do
  let x ← a.asInt
  let y ← b.asInt
  return .bool (op x y)

/-- A primitive applied to two values. -/
def applyTwo (p : Primitive) (a b : Value) : Except EvalError Value :=
  match p with
  | add => arithmetic (· + ·) a b
  | sub => arithmetic (· - ·) a b
  | mul => arithmetic (· * ·) a b
  | div => division (· / ·) a b
  | mod => division (· % ·) a b
  | eq => .ok (.bool (a.same b))
  | ne => .ok (.bool (!a.same b))
  | lt => comparison (fun x y => x < y) a b
  | gt => comparison (fun x y => y < x) a b
  | le => comparison (fun x y => x ≤ y) a b
  | ge => comparison (fun x y => y ≤ x) a b
  | cons => do
    let items ← b.asList
    return .list (a :: items)
  | append => do
    let front ← a.asList
    let back ← b.asList
    return .list (front ++ back)
  | xor => do
    let x ← a.asBool
    let y ← b.asBool
    return .bool (x != y)
  | not | head | tail | length => .error (.arity p.name p.arity 2)

/-- A primitive applied to values. -/
def apply (p : Primitive) (args : List Value) : Except EvalError Value :=
  match p, args with
  | sub, [a] => do
    let n ← a.asInt
    return .int (-n)
  | not, [a] => do
    let b ← a.asBool
    return .bool !b
  | head, [a] => do
    match ← a.asList with
    | [] => .error (.type .headOfEmpty)
    | first :: _ => return first
  | tail, [a] => do
    match ← a.asList with
    | [] => .error (.type .tailOfEmpty)
    | _ :: others => return .list others
  | length, [a] => do
    let items ← a.asList
    return .int (Int64.ofNat items.length)
  | _, [a, b] => p.applyTwo a b
  | _, _ => .error (.arity p.name p.arity args.length)

/-- Every primitive under its name. -/
def bindings : List (String × Value) :=
  all.map fun p => (p.name, .primitive p)

end Primitive

end Retrace
