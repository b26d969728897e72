/-
Applications, move by move.

* `Finds` — a lookup finds a value after a number of moves, one for each frame that it passes.
* `Comes`, `Raises` — the evaluation of a node comes to a value, or to an error, after a number of
  moves, and leaves the store as it is.
* **`Comes.binary`**, `Raises.binary` — a primitive applied to two nodes, from its lookup and from
  the evaluations of the nodes.
* `conditional_steps`, `enter_steps` — how a conditional goes on, and how the body of a function of
  one parameter begins.

Design notes: the number of moves is part of what is said, because programs are told it. Apart from
the lookup and the operands, a primitive between two operands takes four moves: to go on with the
primitive and with each operand, and to apply the one to the others.
-/
import Retrace.Proofs.Machine.Runs
import Retrace.Proofs.Reader.Phrase

namespace Retrace.Machine

open Node

/-- A lookup finds a value after a number of moves. -/
def Finds (s : Store) (env : Env) (name : String) (value : Value) (moves : Nat) : Prop :=
  ∀ k trail, Steps moves (lookup name env k trail s, s) (deliver value k trail, s)

/-- The evaluation of a node comes to a value after a number of moves. -/
def Comes (s : Store) (env : Env) (node : Node) (value : Value) (moves : Nat) : Prop :=
  ∀ k trail, Steps moves (eval node env k trail s) (deliver value k trail, s)

/-- The evaluation of a node comes to an error after a number of moves. -/
def Raises (s : Store) (env : Env) (node : Node) (error : EvalError) (moves : Nat) : Prop :=
  ∀ k trail, Steps moves (eval node env k trail s) (.error error, s)

variable {s : Store} {env : Env} {p : Primitive} {left right : Node} {x y value : Value}
  {e : EvalError} {d m n : Nat} {frame : Frame} {name : String}

/-! ### Names and numbers -/

/-- A name that the innermost frame binds is found at once. -/
theorem Finds.here (inner : s.frame? env = some frame)
    (bound : frame.bindings.lookup name = some value) : Finds s env name value 0 := by
  intro k trail
  simp only [lookup, inner, bound]
  exact .refl _

/-- A frame that does not bind the name is passed with the next move. -/
theorem lookup_passes (inner : s.frame? env = some frame) (free : frame.bindings.lookup name = none)
    (k : Cont) (trail : Trail) :
    lookup name env k trail s = .next (.seek name ⟨env.tree, frame.parent⟩ k trail) := by
  simp only [lookup, inner, free]

theorem Finds.outside (inner : s.frame? env = some frame)
    (free : frame.bindings.lookup name = none)
    (found : Finds s ⟨env.tree, frame.parent⟩ name value d) : Finds s env name value (d + 1) := by
  intro k trail
  rw [lookup_passes inner free]
  exact .move (found k trail)

/-- A number comes to itself at once. -/
theorem Comes.int (n : Int64) : Comes s env (.atom (.int n) default) (.int n) 0 :=
  fun _ _ => .refl _

theorem Finds.comes (found : Finds s env name value d) (other : name ≠ backName) :
    Comes s env (named name) value d := by
  intro k trail
  rw [named, Node.symbol, eval, if_neg other]
  exact found k trail

/-! ### Primitives between two operands -/

/-- The application of a name that is no special form begins with the lookup of the name. -/
theorem eval_call (plain : (named name).form? = none) (other : name ≠ backName)
    (args : List Node) (k : Cont) (trail : Trail) :
    eval (call (named name) args) env k trail s =
      (lookup name env (.operands args env :: k) trail s, s) := by
  rw [call, eval.eq_def]
  simp only [plain]
  rw [named, Node.symbol, eval, if_neg other]

theorem form?_primitive (p : Primitive) : (named p.name).form? = none := by
  cases p <;> rfl

theorem primitive_ne_back (p : Primitive) : p.name ≠ backName := by
  cases p <;> decide

/-- A primitive that is found goes on with its first operand. -/
theorem Finds.operand (found : Finds s env p.name (.primitive p) d) (k : Cont) (trail : Trail) :
    Steps (d + 1) (eval (call (named p.name) [left, right]) env k trail s)
      (eval left env (.collect (.call (.primitive p)) [] [right] env :: k) trail s) := by
  rw [eval_call (form?_primitive p) (primitive_ne_back p)]
  exact (found _ trail).trans (.single _ s)

/-- **A primitive is applied to what its operands come to.** -/
theorem binary_steps (found : Finds s env p.name (.primitive p) d) (first : Comes s env left x m)
    (second : Comes s env right y n) (k : Cont) (trail : Trail) :
    Steps (d + m + n + 4) (eval (call (named p.name) [left, right]) env k trail s)
      (apply (.primitive p) [x, y] k trail s) := by
  have goOn : Steps 1 (deliver x (.collect (.call (.primitive p)) [] [right] env :: k) trail, s)
      (eval right env (.collect (.call (.primitive p)) [x] [] env :: k) trail s) := .single _ s
  have apply : Steps 2 (deliver y (.collect (.call (.primitive p)) [x] [] env :: k) trail, s)
      (apply (.primitive p) [x, y] k trail s) := .move (.single _ s)
  have moves : d + m + n + 4 = d + 1 + (m + (1 + (n + 2))) := by omega
  rw [moves]
  exact (found.operand k trail).trans
    ((first _ trail).trans (goOn.trans ((second _ trail).trans apply)))

/-- An operation that works comes to its result. -/
theorem Comes.binary (found : Finds s env p.name (.primitive p) d) (first : Comes s env left x m)
    (second : Comes s env right y n) (works : p.apply [x, y] = .ok value) :
    Comes s env (call (named p.name) [left, right]) value (d + m + n + 4) := by
  intro k trail
  have steps := binary_steps found first second k trail
  rwa [apply, works] at steps

/-- An operation that fails comes to its error. -/
theorem Raises.binary (found : Finds s env p.name (.primitive p) d) (first : Comes s env left x m)
    (second : Comes s env right y n) (fails : p.apply [x, y] = .error e) :
    Raises s env (call (named p.name) [left, right]) e (d + m + n + 4) := by
  intro k trail
  have steps := binary_steps found first second k trail
  rwa [apply, fails] at steps

/-- An error of the first operand is the error of the operation. -/
theorem Raises.first (found : Finds s env p.name (.primitive p) d)
    (first : Raises s env left e m) :
    Raises s env (call (named p.name) [left, right]) e (d + 1 + m) :=
  fun k trail => (found.operand k trail).trans (first _ trail)

/-- An error of the second operand is the error of the operation when the first has a value. -/
theorem Raises.second (found : Finds s env p.name (.primitive p) d) (first : Comes s env left x m)
    (second : Raises s env right e n) :
    Raises s env (call (named p.name) [left, right]) e (d + 1 + (m + (1 + n))) :=
  fun k trail => (found.operand k trail).trans
    ((first _ trail).trans ((Steps.single _ s).trans (second _ trail)))

/-! ### Conditionals and functions -/

/-- A conditional goes on with the branch that its condition chooses, with nothing more to do
after it. -/
theorem conditional_steps {b : Bool} {condition : Node} (comes : Comes s env condition (.bool b) m)
    (consequent alternative : Node) (k : Cont) (trail : Trail) :
    Steps (m + 1) (eval (special .conditional [condition, consequent, alternative]) env k trail s)
      (eval (if b then consequent else alternative) env k trail s) := by
  have goOn : Steps 1 (deliver (.bool b) (.choose consequent alternative env :: k) trail, s)
      (eval (if b then consequent else alternative) env k trail s) := by
    cases b <;> exact .single _ s
  exact (comes _ trail).trans goOn

/-- The body of a function of one parameter begins in a new frame, in which the parameter is bound
to what the operand comes to. -/
theorem enter_steps {id : Nat} {param : String} {body : List Node} {around : Env} {operand : Node}
    (plain : (named name).form? = none) (other : name ≠ backName)
    (found : Finds s env name (.closure ⟨id, [param], body, around⟩) d)
    (argument : Comes s env operand x m) (k : Cont) (trail : Trail) :
    Steps (d + m + 3) (eval (call (named name) [operand]) env k trail s)
      (evalSequence body (s.extend around [(param, x)]).1 k trail
        (s.extend around [(param, x)]).2) := by
  rw [eval_call plain other]
  have apply : Steps 2
      (deliver x (.collect (.call (.closure ⟨id, [param], body, around⟩)) [] [] env :: k) trail, s)
      (evalSequence body (s.extend around [(param, x)]).1 k trail
        (s.extend around [(param, x)]).2) := .move (.single _ s)
  have moves : d + m + 3 = d + (1 + (m + 2)) := by omega
  rw [moves]
  exact (found _ trail).trans ((Steps.single _ s).trans ((argument _ trail).trans apply))

end Retrace.Machine
