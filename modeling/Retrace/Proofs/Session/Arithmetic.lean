/-
Formulas as programs.

* `Formula.text`, `Formula.prefixForm` — a formula as it is written, and as it is shown.
* `Formula.feed_text` — the text of a formula is read as the tokens of its expression.
* `Formula.comes`, `Formula.raises` — the expression comes to the value of the formula, or to the
  error of the first operation that fails.
* **`formula_computed`** — the text of a formula, with a semicolon behind it, is a program that
  comes to what the formula comes to.

Design notes:
* Operations that are operands stand in parentheses, so how tightly operators bind does not matter.
* What a formula comes to is said of integers without a bound, and which error is the first is said
  of the list of all of them, apart from how programs are evaluated.
-/
import Retrace.Proofs.Machine.Applications
import Retrace.Proofs.Node.Places
import Retrace.Proofs.Session.Statements
import Retrace.Proofs.Value.Arithmetic
import Retrace.Reader.Display

namespace Retrace

/-- All operators of arithmetic are built in. -/
theorem Arithmetic.known (op : Arithmetic) : OperatorTable.builtins.contains op.operator.text := by
  cases op <;> decide

namespace Formula

open Node

/-- A formula as it is written, in parentheses itself or not. An operation that is an operand is. -/
def text (enclosed : Bool) : Formula → String
  | literal n _ => toString n.toInt
  | binary op left right =>
    let inside := left.text true ++ " " ++ op.operator.text ++ " " ++ right.text true
    if enclosed then "(" ++ inside ++ ")" else inside

/-- A formula in prefix form. -/
def prefixForm : Formula → String
  | literal n _ => toString n.toInt
  | binary op left right =>
    op.operator.text ++ "[" ++ left.prefixForm ++ ", " ++ right.prefixForm ++ "]"

/-- The expression that a formula is written as. -/
def expr (enclosed : Bool) : Formula → Expr .builtins
  | literal n natural => .int n natural
  | binary op left right =>
    let inside := .binary op.operator op.known (left.expr true) (right.expr true)
    if enclosed then .parenthesized inside else inside

/-- The tree of a formula, without places. -/
def node : Formula → Node
  | literal n _ => .atom (.int n) default
  | binary op left right => call (named op.primitive.name) [left.node, right.node]

variable {c : Char} {v : Int} {e : EvalError}

/-! ### Reading formulas -/

theorem isCompound_expr (f : Formula) : (f.expr true).isCompound = false := by
  cases f <;> rfl

theorem node_expr (f : Formula) (enclosed : Bool) : (f.expr enclosed).node = f.node := by
  induction f generalizing enclosed with
  | literal => rfl
  | binary op left right ihl ihr =>
    have inside : (Expr.binary op.operator op.known (left.expr true) (right.expr true)).node =
        (binary op left right).node := by
      rw [Expr.node, ihl, ihr, op.text_operator, node]
    cases enclosed <;> exact inside

/-- The tree of a formula is shown in prefix form. -/
theorem text_node (f : Formula) : f.node.text = f.prefixForm := by
  induction f with
  | literal => rfl
  | binary op left right ihl ihr =>
    rw [node, call, Node.text, joined, joined, ihl, ihr, prefixForm, op.text_operator]
    simp only [String.append_assoc]
    rfl

/-- An operation is read as its operands with the operator between them. -/
theorem feed_operation {left right : String} {first second : List Token} {rest : List Char}
    (op : Operator)
    (before : ∀ rest, Lexer.feed (left.toList ++ ' ' :: rest) =
      Feed.inFront first (Lexer.feed (' ' :: rest)))
    (behind : Lexer.feed (right.toList ++ rest) = Feed.inFront second (Lexer.feed rest)) :
    Lexer.feed ((left ++ " " ++ op.text ++ " " ++ right).toList ++ rest) =
      Feed.inFront (first ++ .op op :: second) (Lexer.feed rest) := by
  have split : (left ++ " " ++ op.text ++ " " ++ right).toList ++ rest =
      left.toList ++ ' ' :: (op.text.toList ++ ' ' :: (right.toList ++ rest)) := by
    simp only [String.toList_append, List.append_assoc]
    rfl
  have blank (rest : List Char) : Lexer.feed (' ' :: rest) = Lexer.feed rest :=
    Lexer.feed_blank (by decide) rest
  have operator : Lexer.Ends (' ' :: (right.toList ++ rest)) := .inr ⟨' ', by decide, _, rfl⟩
  rw [split, before, blank, (Lexer.scans_operator op).feed operator, blank, behind,
    Feed.inFront_append, Feed.inFront_cons]

/-- **The text of a formula is read as the tokens of its expression** where no letter or digit
goes on. -/
theorem feed_text (f : Formula) (enclosed : Bool) (digit : c.isDigit = false)
    (other : Lexer.isNameRest c = false) (rest : List Char) :
    Lexer.feed ((f.text enclosed).toList ++ c :: rest) =
      Feed.inFront (f.expr enclosed).tokens (Lexer.feed (c :: rest)) := by
  induction f generalizing enclosed c rest with
  | literal n natural => exact Lexer.feed_number natural digit other rest
  | binary op left right ihl ihr =>
    have tokens : ((binary op left right).expr false).tokens =
        (left.expr true).tokens ++ .op op.operator :: (right.expr true).tokens := by
      show Token.enclosed _ _ ++ .op op.operator :: Token.enclosed _ _ = _
      rw [isCompound_expr, isCompound_expr]
      rfl
    -- what stands in the parentheses, if there are any
    have inside {c : Char} (digit : c.isDigit = false) (other : Lexer.isNameRest c = false)
        (rest : List Char) :
        Lexer.feed (((binary op left right).text false).toList ++ c :: rest) =
          Feed.inFront ((binary op left right).expr false).tokens (Lexer.feed (c :: rest)) := by
      rw [tokens]
      exact feed_operation _ (fun rest => ihl true (by decide) (by decide) rest)
        (ihr true digit other rest)
    cases enclosed with
    | false => exact inside digit other rest
    | true =>
      have split : ((binary op left right).text true).toList ++ c :: rest =
          '(' :: (((binary op left right).text false).toList ++ ')' :: c :: rest) := by
        show ("(" ++ (binary op left right).text false ++ ")").toList ++ _ = _
        rw [String.toList_append, String.toList_append, List.append_assoc, List.append_assoc]
        rfl
      rw [split, Lexer.feed_single rfl (by decide) (by decide), inside (by decide) (by decide),
        Lexer.feed_single rfl (by decide) (by decide)]
      exact (Feed.inFront_between ..).symm

/-- A formula is shown in prefix form. -/
theorem firstDisplay_text (f : Formula) (enclosed : Bool) :
    firstDisplay (f.text enclosed ++ ";") = .ok f.prefixForm := by
  obtain ⟨node, _, _, read, same, _⟩ :=
    read_statement (f.feed_text enclosed (c := ';') (by decide) (by decide) [])
  rw [firstDisplay, read]
  show Except.ok node.text = _
  rw [← Node.text_bare, same, node_expr, text_node]

/-! ### Evaluating formulas -/

section

open Machine

variable {s : Store} {env : Env}

/-- The tree of a formula comes to the value of the formula. -/
theorem comes (found : ∀ p : Primitive, Finds s env p.name (.primitive p) 0) {f : Formula}
    (value : f.value? = some v) : ∃ m, Comes s env f.node (.int (.ofInt v)) m := by
  induction f generalizing v with
  | literal n =>
    obtain rfl := Option.some.inj value
    rw [n.ofInt_toInt]
    exact ⟨0, .int n⟩
  | binary op left right ihl ihr =>
    obtain ⟨x, y, hl, hr, works, rfl⟩ := value?_binary.mp value
    obtain ⟨m, first⟩ := ihl hl
    obtain ⟨n, second⟩ := ihr hr
    refine ⟨_, .binary (found op.primitive) first second ?_⟩
    rw [op.apply_ints, toInt_value hl, toInt_value hr, works]

/-- The tree of a formula comes to the error of the first operation that fails. -/
theorem raises (found : ∀ p : Primitive, Finds s env p.name (.primitive p) 0) {f : Formula}
    (failure : f.failures.head? = some e) : ∃ m, Raises s env f.node e m := by
  induction f with
  | literal => cases failure
  | binary op left right ihl ihr =>
    rw [failures, List.head?_append, List.head?_append] at failure
    cases hl : left.failures with
    | cons e' others =>
      rw [hl] at failure
      obtain ⟨m, first⟩ := ihl (by rw [hl]; exact failure)
      exact ⟨_, .first (found op.primitive) first⟩
    | nil =>
      obtain ⟨x, leftValue⟩ := exists_value hl
      obtain ⟨m, first⟩ := comes found leftValue
      cases hr : right.failures with
      | cons e' others =>
        rw [hl, hr] at failure
        obtain ⟨n, second⟩ := ihr (by rw [hr]; exact failure)
        exact ⟨_, .second (found op.primitive) first second⟩
      | nil =>
        -- no operand fails, so it is the operation itself
        obtain ⟨y, rightValue⟩ := exists_value hr
        obtain ⟨n, second⟩ := comes found rightValue
        rw [hl, hr, leftValue, rightValue] at failure
        have fault : op.fault? x y = some e := by
          simpa using failure
        refine ⟨_, .binary (found op.primitive) first second ?_⟩
        rw [op.apply_ints, toInt_value leftValue, toInt_value rightValue, fault]

end

end Formula

/-- **The text of a formula is a program that comes to what the formula comes to.** It is shown in
prefix form. When no operation fails, the program has the value of the formula, and otherwise it
stops with the error of the first operation that fails. -/
theorem formula_computed (f : Formula) (enclosed : Bool) :
    firstDisplay (f.text enclosed ++ ";") = .ok f.prefixForm ∧
    (∀ v, f.value? = some v → (Int64.ofInt v).toInt = v ∧
      ∃ enough, ∀ fuel ≥ enough,
        runProgram fuel (f.text enclosed ++ ";") = some (.ok (.int (.ofInt v)))) ∧
    (∀ e, f.failures.head? = some e →
      ∃ enough, ∀ fuel ≥ enough,
        runProgram fuel (f.text enclosed ++ ";") = some (.error (.eval e))) ∧
    (f.value? = none ↔ f.failures ≠ []) := by
  have feed := f.feed_text enclosed (c := ';') (by decide) (by decide) []
  have found (p : Primitive) : Machine.Finds (Session.start none).store.bare
      (Session.start none).global p.name (.primitive p) 0 := by
    rw [Session.store_start_bare]
    cases p <;> exact .here rfl rfl
  refine ⟨f.firstDisplay_text enclosed, fun v value => ⟨Formula.toInt_value value, ?_⟩,
    fun e failure => ?_, f.value?_eq_none⟩
  · obtain ⟨m, comes⟩ := Formula.comes found value
    refine ⟨m + 1, fun fuel enough => ?_⟩
    have steps := comes [] []
    rw [← f.node_expr enclosed] at steps
    obtain ⟨_, _, run, _⟩ := Session.run_data (.int _) feed rfl steps enough
    rw [runProgram, run]
    rfl
  · obtain ⟨m, raises⟩ := Formula.raises found failure
    refine ⟨m, fun fuel enough => ?_⟩
    have steps := raises [] []
    rw [← f.node_expr enclosed] at steps
    obtain ⟨result, _, _, run, same, _⟩ := Session.run_statement feed rfl steps rfl enough
    rw [runProgram, run]
    cases result with
    | error error =>
      obtain rfl := Except.error.inj same
      rfl
    | ok v => cases same

open Formula in
/-- A sum that wraps around to the least integer, which is then divided by minus one, on the left of
a remainder by zero: of the two errors it is the one on the left. -/
theorem formula_computed_least_quotient :
    let sum := binary .add (.literal Int64.maxValue (by decide)) (.literal 1 (by decide))
    let minusOne := binary .sub (.literal 0 (by decide)) (.literal 1 (by decide))
    let remainder := binary .mod (.literal 7 (by decide)) (.literal 0 (by decide))
    let f := binary .mul (binary .div sum minusOne) remainder
    sum.value? = some (-2 ^ 63) ∧ f.failures = [.type .overflow, .divisionByZero] ∧
    f.text false = "((9223372036854775807 + 1) / (0 - 1)) * (7 % 0)" ∧
    f.prefixForm = "*[/[+[9223372036854775807, 1], -[0, 1]], %[7, 0]]" ∧
    ∃ enough, ∀ fuel ≥ enough,
      runProgram fuel (f.text false ++ ";") = some (.error (.eval (.type .overflow))) := by
  intro sum minusOne remainder f
  have failures : f.failures = [.type .overflow, .divisionByZero] := by decide
  exact ⟨by decide, failures, by decide, by decide,
    (formula_computed f false).2.2.1 _ (by rw [failures]; rfl)⟩

end Retrace
