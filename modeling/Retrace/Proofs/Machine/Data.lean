/-
Evaluating shown data.

* `Machine.Subtracts` — an environment in which the minus sign has its meaning.
* `evalAll_steps` — the items of a list come to the list of their values.
* **`Written.steps`** — the expression that a value is shown as comes to that value, and
  changes nothing on the way.

Design notes: the steps are counted nowhere, and what is left to do and to try is
whatever it is, so the parts of a list fit together.
-/
import Retrace.Proofs.Machine.Runs
import Retrace.Proofs.Value.Display

namespace Retrace

namespace Machine

variable {table : OperatorTable} {env : Env} {k : Cont} {trail : Trail} {s : Store} {n : Int64}

/-- The minus sign is bound to the subtraction in the frame of an environment. -/
def Subtracts (s : Store) (env : Env) : Prop :=
  ∃ frame, s.frame? env = some frame ∧
    frame.bindings.lookup Operator.sub.text = some (.primitive .sub)

/-- A number with a sign comes to its negative. -/
theorem eval_signed (subtracts : Subtracts s env) (natural : 0 ≤ n) :
    Steps 3 (eval (Expr.unary .minus (.int n natural) : Expr table).node env k trail s)
      (deliver (.int (-n)) k trail, s) := by
  obtain ⟨frame, found, bound⟩ := subtracts
  have begins : eval (Expr.unary .minus (.int n natural) : Expr table).node env k trail s =
      (deliver (.primitive .sub) (.operands [.atom (.int n) default] env :: k) trail, s) := by
    show (lookup Operator.sub.text env _ trail s, s) = _
    rw [lookup, found]
    simp only [bound]
    rfl
  rw [begins]
  -- the sign is looked up, its operand is evaluated, and the two are put together
  exact .move (.move (.move (.refl _)))

/-- Nodes that come to values come to the list of these. -/
theorem evalAll_steps {pairs : List (Value × Expr table)} (done : List Value)
    (each : ∀ pair ∈ pairs, ∀ k trail, ∃ m,
      Steps m (eval pair.2.node env k trail s) (deliver pair.1 k trail, s)) :
    ∃ m, Steps m (evalAll .list done (pairs.map (·.2.node)) env k trail s)
      (deliver (.list (done.reverse ++ pairs.map (·.1))) k trail, s) := by
  induction pairs generalizing done with
  | nil =>
    rw [List.map_nil, List.map_nil, List.append_nil]
    exact ⟨1, .single _ _⟩
  | cons pair pairs ih =>
    obtain ⟨first, others⟩ := List.forall_mem_cons.mp each
    obtain ⟨m, item⟩ := first (.collect .list done (pairs.map (·.2.node)) env :: k) trail
    obtain ⟨m', rest⟩ := ih (pair.1 :: done) others
    rw [List.reverse_cons, List.append_assoc, List.singleton_append] at rest
    exact ⟨_, item.trans (.move rest)⟩

end Machine

open Machine in
/-- **The expression that a value is shown as comes to the value.** -/
theorem Value.Written.steps {table : OperatorTable} {v : Value} {e : Expr table}
    (h : Written table v e) {env : Env} {s : Store} (subtracts : Subtracts s env) (k : Cont)
    (trail : Trail) : ∃ m, Steps m (eval e.node env k trail s) (deliver v k trail, s) := by
  induction h generalizing k trail with
  | natural | str | bool => exact ⟨0, .refl _⟩
  | negative natural => exact ⟨3, eval_signed subtracts natural⟩
  | list pairs _ ih =>
    rw [Expr.node, nodes_eq_map, List.map_map, Node.listOf, eval_list]
    exact evalAll_steps [] ih

end Retrace
