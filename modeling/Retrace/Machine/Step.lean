/-
The moves of the evaluation machine.

* **`eval`** — how the evaluation of a node begins.
* **`apply`** — how the application of a function begins.
* **`define`**, **`lookup`** — the operations on names.
* **`bounce`** — one move.
* **`eval_list`**, **`eval_block`** — lists and blocks evaluate their parts in order.

Design notes:
* A node is evaluated with a continuation and a trail. What begins at once and what
  takes a move of its own is part of the meaning, because moves are counted: handing
  over a value, going back to a choice, and each step outwards of a lookup are moves.
* Errors end the evaluation. They never go back to a choice.
* `then` opens a choice, `back` goes back to the latest one, and a definition leaves
  its undoing on the trail. The names bound after a choice are therefore free again
  when its alternative begins.
-/
import Retrace.Machine.State
import Retrace.Scope.Store
import Retrace.Value.Primitive

namespace Retrace.Machine

/-- Hands a value to a continuation with the next move. -/
def deliver (value : Value) (k : Cont) (trail : Trail) : Promise :=
  .next (.deliver value k trail)

/-- Goes back to the latest choice with the next move. -/
def retreat (trail : Trail) : Promise :=
  .next (.retreat trail)

/-- Ends with a type error. -/
def typeError (fault : TypeFault) : Promise :=
  .error (.type fault)

/-- Looks a name up. The first frame is looked at here and now, each further one takes a
move, and a name that no frame binds is an error. -/
def lookup (name : String) (env : Env) (k : Cont) (trail : Trail) (s : Store) : Promise :=
  match s.frame? env with
  | none => .error (.symbolNotFound name)
  | some frame =>
    match frame.bindings.lookup name with
    | some value => deliver value k trail
    | none => .next (.seek name ⟨env.tree, frame.parent⟩ k trail)

/-- Binds a name in a frame and delivers the name. A name that the frame binds already is an
error. At a root nothing is bound. -/
def define (name : String) (value : Value) (env : Env) (k : Cont) (trail : Trail) (s : Store) :
    Promise × Store :=
  match s.frame? env with
  | none => (deliver (.symbol name) k trail, s)
  | some frame =>
    match frame.bindings.lookup name with
    | some _ => (.error (.symbolAlreadyDefined name), s)
    | none => (deliver (.symbol name) k (.undo name env :: trail), s.bind env name value)

/-- Begins the evaluation of a node. -/
def eval (node : Node) (env : Env) (k : Cont) (trail : Trail) (s : Store) : Promise × Store :=
  match node with
  | .atom (.symbol name) _ =>
    if name = Node.backName then (retreat trail, s) else (lookup name env k trail s, s)
  | .atom literal _ => (deliver (.ofLiteral literal) k trail, s)
  | .list [] _ => (.next (.gather .list [] k trail), s)
  | .list (first :: others) _ => eval first env (.collect .list [] others env :: k) trail s
  | .block [] _ => (deliver (.list []) k trail, s)
  | .block [last] _ => eval last env k trail s
  | .block (first :: next :: others) _ =>
    eval first env (.sequence next others env :: k) trail s
  | .apply op args _ =>
    match op.form? with
    | some .define =>
      match args with
      | [.atom (.symbol name) _, value] => eval value env (.bind name env :: k) trail s
      | _ => (typeError (.malformed .define), s)
    | some .function =>
      match args with
      | [.list params _, .block body _] =>
        match params.mapM Node.symbol? with
        | some names =>
          let (function, s) := s.makeClosure names body env
          (deliver function k trail, s)
        | none => (typeError (.malformed .function), s)
      | _ => (typeError (.malformed .function), s)
    | some .conditional =>
      match args with
      | [condition, consequent, alternative] =>
        eval condition env (.choose consequent alternative env :: k) trail s
      | _ => (typeError (.malformed .conditional), s)
    | some .choice =>
      match args with
      | [first, second] => eval first env k (.retry second env k :: trail) s
      | _ => (typeError (.malformed .choice), s)
    | some .and =>
      match args with
      | [left, right] => eval left env (.junction .and right env :: k) trail s
      | _ => (typeError (.malformed .and), s)
    | some .or =>
      match args with
      | [left, right] => eval left env (.junction .or right env :: k) trail s
      | _ => (typeError (.malformed .or), s)
    | none => eval op env (.operands args env :: k) trail s

/-- Begins the evaluation of nodes from left to right, after those whose values are given,
the last one first. -/
def evalAll (goal : Goal) (done : List Value) (todo : List Node) (env : Env) (k : Cont)
    (trail : Trail) (s : Store) : Promise × Store :=
  match todo with
  | [] => (.next (.gather goal done.reverse k trail), s)
  | node :: todo => eval node env (.collect goal done todo env :: k) trail s

/-- Begins the evaluation of statements in order. The value of the last one is the value of
all, and that of no statement is the empty list. -/
def evalSequence (statements : List Node) (env : Env) (k : Cont) (trail : Trail) (s : Store) :
    Promise × Store :=
  match statements with
  | [] => (deliver (.list []) k trail, s)
  | [last] => eval last env k trail s
  | first :: next :: others => eval first env (.sequence next others env :: k) trail s

/-- A list evaluates its items from left to right. -/
theorem eval_list (items : List Node) (span : Span) (env : Env) (k : Cont) (trail : Trail)
    (s : Store) :
    eval (.list items span) env k trail s = evalAll .list [] items env k trail s := by
  cases items <;> rfl

/-- A block evaluates its statements in order. -/
theorem eval_block (statements : List Node) (span : Span) (env : Env) (k : Cont)
    (trail : Trail) (s : Store) :
    eval (.block statements span) env k trail s = evalSequence statements env k trail s := by
  rcases statements with _ | ⟨_, _ | ⟨_, _⟩⟩ <;> rfl

/-- Begins the application of a function to values. The body of a function runs in a new
frame inside the environment that the function was made in. -/
def apply (function : Value) (args : List Value) (k : Cont) (trail : Trail) (s : Store) :
    Promise × Store :=
  match function with
  | .closure c =>
    if c.params.length = args.length then
      let (env, s) := s.extend c.env (c.params.zip args)
      evalSequence c.body env k trail s
    else (.error (.arity function.text c.params.length args.length), s)
  | .primitive p =>
    match p.apply args with
    | .ok value => (deliver value k trail, s)
    | .error error => (.error error, s)
  | _ => (typeError (.notApplicable function.kind), s)

/-- The promise that a plan writes out. -/
def follow : Plan → Promise
  | .done value => .done value none
  | .raise error => .error error
  | .suspended 0 plan => follow plan
  | .suspended (n + 1) plan => .next (.follow (.suspended n plan))
  | .resume value => deliver value [] []
  | .exhaust => retreat []
  | .backtrack plan => retreat [.plan plan]
  | .reject value plan => deliver value [.reject] [.plan plan]

/-- Goes back to the latest choice. -/
def fail (trail : Trail) (s : Store) : Promise × Store :=
  match trail with
  | [] => (.error .noMoreAlternatives, s)
  | .undo name env :: trail => (retreat trail, s.unbind env name)
  | .retry node env k :: trail => eval node env k trail s
  | .plan plan :: _ => (follow plan, s)

/-- Does one thing with a value. -/
def perform (task : Task) (value : Value) (k : Cont) (trail : Trail) (s : Store) :
    Promise × Store :=
  match task with
  | .collect goal done todo env => evalAll goal (value :: done) todo env k trail s
  | .sequence next others env => evalSequence (next :: others) env k trail s
  | .bind name env => define name value env k trail s
  | .choose consequent alternative env =>
    match value with
    | .bool true => eval consequent env k trail s
    | .bool false => eval alternative env k trail s
    | _ => (typeError (.condition value.kind), s)
  | .junction kind right env =>
    match value with
    | .bool b =>
      if b = kind.decisive then (deliver value k trail, s)
      else eval right env (.check kind :: k) trail s
    | _ => (typeError (.junction kind value.kind), s)
  | .check kind =>
    match value with
    | .bool _ => (deliver value k trail, s)
    | _ => (typeError (.junction kind value.kind), s)
  | .operands args env => evalAll (.call value) [] args env k trail s
  | .reject => fail trail s

/-- Makes a move. -/
def bounce (move : Move) (s : Store) : Promise × Store :=
  match move with
  | .deliver value [] trail => (.done value (some trail), s)
  | .deliver value (task :: k) trail => perform task value k trail s
  | .retreat trail => fail trail s
  | .seek name env k trail => (lookup name env k trail s, s)
  | .gather .list values k trail => (deliver (.list values) k trail, s)
  | .gather (.call function) values k trail => apply function values k trail s
  | .follow plan => (follow plan, s)

end Retrace.Machine
