/-
Values in which every function is well-formed.

* `Closure.WellFormed` — a function whose parameters are identifiers, and whose body is
  well-formed.
* `Value.WellFormed`, `Store.WellFormed` — values, and stores of them.
* **`Primitive.apply_results`** — a primitive makes well-formed values of well-formed
  values, and its errors are ordinary.

Design notes: functions keep their bodies for as long as they can be called, so a tree
that is evaluated late is one that a value kept. To be well-formed is a property of the
functions inside a value, and so what primitives and stores do to it is known.
-/
import Retrace.Proofs.Reader.WellFormed
import Retrace.Proofs.Value.Closures

namespace Retrace

/-! ### Values and stores -/

/-- A function whose parameters are identifiers and whose body is well-formed. -/
def Closure.WellFormed (c : Closure) : Prop :=
  (∀ name ∈ c.params, Lexer.isIdentifier name) ∧ Node.AllWellFormed .statement c.body

namespace Value

mutual

/-- A value in which every function is well-formed. -/
def WellFormed : Value → Prop
  | list items => AllWellFormed items
  | closure c => c.WellFormed
  | int _ | str _ | bool _ | symbol _ | primitive _ => True

/-- Values in which every function is well-formed. -/
def AllWellFormed : List Value → Prop
  | [] => True
  | value :: values => value.WellFormed ∧ AllWellFormed values

end

theorem allWellFormed_iff {values : List Value} :
    AllWellFormed values ↔ ∀ value ∈ values, value.WellFormed := by
  induction values with
  | nil => simp [AllWellFormed]
  | cons value values ih => rw [AllWellFormed, ih, List.forall_mem_cons]

theorem wellFormed_ofLiteral (literal : Literal) : (ofLiteral literal).WellFormed := by
  cases literal with
  | int | str | bool | symbol => trivial

mutual

/-- To be well-formed is a property of the functions inside. -/
theorem wellFormed_iff_each (value : Value) : value.WellFormed ↔ value.Each Closure.WellFormed := by
  cases value with
  | list items => exact allWellFormed_iff_eachAll items
  | closure | int | str | bool | symbol | primitive => exact Iff.rfl

theorem allWellFormed_iff_eachAll (values : List Value) :
    AllWellFormed values ↔ EachAll Closure.WellFormed values := by
  match values with
  | [] => exact Iff.rfl
  | value :: values =>
    exact and_congr (wellFormed_iff_each value) (allWellFormed_iff_eachAll values)

end

theorem wellFormed_eq_each : WellFormed = Each Closure.WellFormed :=
  funext fun value => propext value.wellFormed_iff_each

end Value

/-- Bindings to well-formed values. -/
def Bindings.WellFormed (bindings : Bindings) : Prop :=
  ∀ binding ∈ bindings, binding.2.WellFormed

/-- A store in which every value is well-formed. -/
def Store.WellFormed (s : Store) : Prop :=
  ∀ env frame, s.frame? env = some frame → frame.bindings.WellFormed

theorem Bindings.wellFormed_eq_each : WellFormed = Each Closure.WellFormed := by
  unfold WellFormed Each
  rw [Value.wellFormed_eq_each]

theorem Store.wellFormed_eq_each : WellFormed = Each Closure.WellFormed := by
  unfold WellFormed Each
  rw [Bindings.wellFormed_eq_each]

namespace Bindings.WellFormed

variable {bindings : Bindings} {name : String} {value : Value}

theorem lookup (h : bindings.WellFormed) (found : bindings.lookup name = some value) :
    value.WellFormed := by
  rw [wellFormed_eq_each] at h
  rw [Value.wellFormed_eq_each]
  exact h.lookup found

end Bindings.WellFormed

namespace Store.WellFormed

variable {s : Store} {env : Env} {name : String} {value : Value}

theorem bind (h : s.WellFormed) (here : value.WellFormed) : (s.bind env name value).WellFormed := by
  rw [wellFormed_eq_each] at h ⊢
  exact h.bind (value.wellFormed_iff_each.mp here)

theorem unbind (h : s.WellFormed) : (s.unbind env name).WellFormed := by
  rw [wellFormed_eq_each] at h ⊢
  exact h.unbind

theorem extend {bindings : Bindings} (h : s.WellFormed) (here : bindings.WellFormed) :
    (s.extend env bindings).2.WellFormed := by
  rw [wellFormed_eq_each] at h ⊢
  rw [Bindings.wellFormed_eq_each] at here
  exact h.extend here

end Store.WellFormed

/-- A primitive makes well-formed values of well-formed values, and its errors are ordinary. -/
theorem Primitive.apply_results (p : Primitive) {args : List Value}
    (h : ∀ arg ∈ args, arg.WellFormed) : Results Value.WellFormed (p.apply args) := by
  rw [Value.wellFormed_eq_each] at h ⊢
  exact p.apply_each h

end Retrace
