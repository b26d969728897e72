/-
Arithmetic on integers of 64 bits.

* `Arithmetic` — the operators of sums, differences, products, quotients and remainders.
* `Arithmetic.direct`, `Arithmetic.fault?` — what an operation comes to, and why it fails, said of
  integers without a bound.
* `Formula` — operations on operations on literals.
* `Formula.value?`, `Formula.failures` — what a formula comes to, and which operations in it fail.
* **`Arithmetic.apply_ints`** — the primitives do what is said.
* `Formula.value?_eq_none` — a formula has no value when some operation in it fails.

Design notes:
* Sums, differences and products are taken modulo 2 ^ 64 to the integer from -2 ^ 63 up to 2 ^ 63
  exclusive. Quotients are truncated, and a remainder has the sign of what is divided.
* An operation fails for its operands. Where an operand has no value, the operation is not carried
  out and does not fail itself.
-/
import Mathlib
import Retrace.Token.Basic
import Retrace.Value.Primitive

namespace Retrace

/-- The operators of arithmetic. -/
inductive Arithmetic
  | add
  | sub
  | mul
  | div
  | mod

namespace Arithmetic

/-- The operator as it is written. -/
def operator : Arithmetic → Operator
  | add => .add
  | sub => .sub
  | mul => .mul
  | div => .div
  | mod => .mod

/-- The function that the operator is the name of. -/
def primitive : Arithmetic → Primitive
  | add => .add
  | sub => .sub
  | mul => .mul
  | div => .div
  | mod => .mod

/-- What an operation comes to. -/
def direct (op : Arithmetic) (x y : Int) : Int :=
  match op with
  | add => (x + y).bmod (2 ^ 64)
  | sub => (x - y).bmod (2 ^ 64)
  | mul => (x * y).bmod (2 ^ 64)
  | div => x.tdiv y
  | mod => x.tmod y

/-- Why an operation fails. -/
def fault? (op : Arithmetic) (x y : Int) : Option EvalError :=
  match op with
  | div | mod =>
    if y = 0 then some .divisionByZero
    else if x = -2 ^ 63 ∧ y = -1 then some (.type .overflow)
    else none
  | add | sub | mul => none

theorem text_operator (op : Arithmetic) : op.operator.text = op.primitive.name := by
  cases op <;> rfl

variable {a b : Int64}

theorem toInt_eq_zero : a.toInt = 0 ↔ a = 0 :=
  Int64.toInt_inj (y := 0)

theorem toInt_eq_neg_one : a.toInt = -1 ↔ a = -1 :=
  Int64.toInt_inj (y := -1)

theorem toInt_eq_least : a.toInt = -2 ^ 63 ↔ a = Int64.minValue :=
  Int64.toInt_inj (y := Int64.minValue)

theorem division_ints (f : Int64 → Int64 → Int64) :
    Primitive.division f (.int a) (.int b) =
      if b = 0 then .error .divisionByZero
      else if a = Int64.minValue ∧ b = -1 then .error (.type .overflow)
      else .ok (.int (f a b)) := by
  by_cases zero : b = 0
  · rw [if_pos zero, zero]
    rfl
  · have divisor : Value.asDivisor (.int b) = .ok b := if_neg zero
    rw [if_neg zero, Primitive.division, divisor]
    rfl

/-- A quotient that fits is the truncated one. -/
theorem toInt_div (fits : ¬(a = Int64.minValue ∧ b = -1)) :
    (a / b).toInt = a.toInt.tdiv b.toInt := by
  by_cases least : a = Int64.minValue
  · exact Int64.toInt_div_of_ne_right a b fun same => fits ⟨least, same⟩
  · exact Int64.toInt_div_of_ne_left a b least

/-- **The primitives do what is said.** -/
theorem apply_ints (op : Arithmetic) (a b : Int64) :
    op.primitive.apply [.int a, .int b] =
      match op.fault? a.toInt b.toInt with
      | some e => .error e
      | none => .ok (.int (.ofInt (op.direct a.toInt b.toInt))) := by
  have fits (c : Int64) : Int64.ofInt c.toInt = c := c.ofInt_toInt
  cases op with
  | add => rw [direct, ← Int64.toInt_add, fits]; rfl
  | sub => rw [direct, ← Int64.toInt_sub, fits]; rfl
  | mul => rw [direct, ← Int64.toInt_mul, fits]; rfl
  | div =>
    show Primitive.division _ _ _ = _
    rw [division_ints, fault?, direct]
    simp only [toInt_eq_zero, toInt_eq_least, toInt_eq_neg_one]
    split_ifs with zero large
    · rfl
    · rfl
    · rw [← toInt_div large, fits]
  | mod =>
    show Primitive.division _ _ _ = _
    rw [division_ints, fault?, direct, ← Int64.toInt_mod, fits]
    simp only [toInt_eq_zero, toInt_eq_least, toInt_eq_neg_one]
    split_ifs <;> rfl

/-- What an operation comes to has 64 bits. -/
theorem toInt_ofInt_direct {op : Arithmetic} (works : op.fault? a.toInt b.toInt = none) :
    (Int64.ofInt (op.direct a.toInt b.toInt)).toInt = op.direct a.toInt b.toInt := by
  have fits (c : Int64) : (Int64.ofInt c.toInt).toInt = c.toInt := by rw [c.ofInt_toInt]
  cases op with
  | add => rw [direct, ← Int64.toInt_add, fits]
  | sub => rw [direct, ← Int64.toInt_sub, fits]
  | mul => rw [direct, ← Int64.toInt_mul, fits]
  | div =>
    have large : ¬(a = Int64.minValue ∧ b = -1) := by
      rintro ⟨rfl, rfl⟩
      cases works
    rw [direct, ← toInt_div large, fits]
  | mod => rw [direct, ← Int64.toInt_mod, fits]

end Arithmetic

/-! ### Formulas -/

/-- Operations on operations on literals, which have no sign. -/
inductive Formula
  | literal (n : Int64) (natural : 0 ≤ n)
  | binary (op : Arithmetic) (left right : Formula)

namespace Formula

/-- What a formula comes to, if no operation in it fails. -/
def value? : Formula → Option Int
  | literal n _ => some n.toInt
  | binary op left right =>
    match left.value?, right.value? with
    | some x, some y => if (op.fault? x y).isNone then some (op.direct x y) else none
    | _, _ => none

/-- The errors of the operations that fail: those on the left first, and inner ones before those
that they are operands of. -/
def failures : Formula → List EvalError
  | literal _ _ => []
  | binary op left right =>
    let own :=
      match left.value?, right.value? with
      | some x, some y => (op.fault? x y).toList
      | _, _ => []
    left.failures ++ right.failures ++ own

variable {f left right : Formula} {op : Arithmetic} {v : Int}

/-- An operation has a value when both operands have one and it does not fail for them. -/
theorem value?_binary : (binary op left right).value? = some v ↔
    ∃ x y, left.value? = some x ∧ right.value? = some y ∧ op.fault? x y = none ∧
      op.direct x y = v := by
  rw [value?]
  cases left.value? with
  | none => simp
  | some x =>
    cases right.value? with
    | none => simp
    | some y => simp

/-- A formula has no value when some operation in it fails. -/
theorem value?_eq_none (f : Formula) : f.value? = none ↔ f.failures ≠ [] := by
  induction f with
  | literal => simp [value?, failures]
  | binary op left right ihl ihr =>
    cases hl : left.value? with
    | none => simp [value?, failures, hl, ihl.mp hl]
    | some x =>
      cases hr : right.value? with
      | none => simp [value?, failures, hl, hr, ihr.mp hr]
      | some y =>
        have noneLeft : left.failures = [] := by simpa [hl] using ihl
        have noneRight : right.failures = [] := by simpa [hr] using ihr
        cases fault : op.fault? x y <;> simp [value?, failures, hl, hr, noneLeft, noneRight, fault]

theorem exists_value (h : f.failures = []) : ∃ v, f.value? = some v :=
  Option.ne_none_iff_exists'.mp fun none => (value?_eq_none f).mp none h

/-- What a formula comes to has 64 bits. -/
theorem toInt_value (h : f.value? = some v) : (Int64.ofInt v).toInt = v := by
  induction f generalizing v with
  | literal n =>
    obtain rfl := Option.some.inj h
    rw [n.ofInt_toInt]
  | binary op left right ihl ihr =>
    obtain ⟨x, y, hl, hr, works, rfl⟩ := value?_binary.mp h
    rw [← ihl hl, ← ihr hr] at works ⊢
    exact Arithmetic.toInt_ofInt_direct works

end Formula

end Retrace
