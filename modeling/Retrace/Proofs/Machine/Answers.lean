/-
What programs mean: a node has a sequence of answers.

`solve` maps a node to its answers, without continuations, trails or moves:

* a literal has one answer, and `back` has none;
* `then` has the answers of its first alternative and after them those of its second,
  both started from the definitions that were made before the choice;
* everything else chains the answers of its parts: each answer of the first part is
  followed by the answers of what comes after it, so the last part varies fastest;
* an error ends the whole sequence.

Design notes:
* A world is a store in two parts. Frames and the identities of functions are numbered
  in the order of execution and last. Definitions belong to a branch.
* The sequence is found on demand. What comes after an answer depends on the frames
  that were made by whoever used the answer, so the rest of a sequence is a function
  of the lasting part of the store. It starts from the definitions of its own branch,
  and nothing has to be undone.
* A program need not end. The meaning at depth `n` follows calls nested up to `n`
  deep and chains of frames up to `n` long, and beyond that it is unknown.
-/
import Retrace.Machine.Run
import Retrace.Proofs.Scope.Definitions

namespace Retrace

/-- A store in two parts: frames as they were made, and the definitions of the current
branch. -/
structure World where
  base : Store
  definitions : List Definition

/-- The store of a world. -/
def World.store (w : World) : Store :=
  w.base.withDefinitions w.definitions

/-- The answers of a search, in order. Each answer comes with its world, and with the search
for the answers after it. -/
inductive Answers (α : Type)
  /-- Nothing is known at this depth. -/
  | unknown
  /-- The search ends with an error. -/
  | failed (error : EvalError) (w : World)
  /-- There are no more answers. -/
  | exhausted (base : Store)
  /-- An answer, and the answers after it. -/
  | found (answer : α) (w : World) (next : Store → Answers α)

namespace Answers

variable {α β γ : Type}

/-- A single answer. -/
def one (answer : α) (w : World) : Answers α :=
  .found answer w .exhausted

/-- The answers of one search, and after them those of another. -/
def orElse (other : Store → Answers α) : Answers α → Answers α
  | unknown => unknown
  | failed error w => failed error w
  | exhausted base => other base
  | found answer w next => found answer w fun base => (next base).orElse other

/-- The answers of what follows, for one answer after the other. -/
def bind (f : α → World → Answers β) : Answers α → Answers β
  | unknown => unknown
  | failed error w => failed error w
  | exhausted base => exhausted base
  | found answer w next => (f answer w).orElse fun base => (next base).bind f

theorem orElse_exhausted (t : Answers α) : t.orElse .exhausted = t := by
  induction t with
  | unknown => rfl
  | failed => rfl
  | exhausted => rfl
  | found answer w next ih =>
    rw [orElse]
    congr 1
    funext base
    exact ih base

theorem orElse_assoc (t : Answers α) (f g : Store → Answers α) :
    (t.orElse f).orElse g = t.orElse fun base => (f base).orElse g := by
  induction t with
  | unknown => rfl
  | failed => rfl
  | exhausted => rfl
  | found answer w next ih =>
    rw [orElse, orElse, orElse]
    congr 1
    funext base
    exact ih base

@[simp] theorem one_bind (answer : α) (w : World) (f : α → World → Answers β) :
    (one answer w).bind f = f answer w :=
  orElse_exhausted (f answer w)

theorem orElse_bind (t : Answers α) (other : Store → Answers α) (f : α → World → Answers β) :
    (t.orElse other).bind f = (t.bind f).orElse fun base => (other base).bind f := by
  induction t with
  | unknown => rfl
  | failed => rfl
  | exhausted => rfl
  | found answer w next ih =>
    rw [orElse, bind, bind, orElse_assoc]
    congr 1
    funext base
    exact ih base

theorem bind_assoc (t : Answers α) (f : α → World → Answers β) (g : β → World → Answers γ) :
    (t.bind f).bind g = t.bind fun answer w => (f answer w).bind g := by
  induction t with
  | unknown => rfl
  | failed => rfl
  | exhausted => rfl
  | found answer w next ih =>
    rw [bind, orElse_bind, bind]
    congr 1
    funext base
    exact ih base

/-- The first answers with their stores, and how the search ended if it ended before it had as
many. A search that is exhausted ends with the error that there are no more alternatives. -/
def take : (count : Nat) → Answers α → Option (List (α × Store) × Option (EvalError × Store))
  | 0, _ => some ([], none)
  | _ + 1, unknown => none
  | _ + 1, failed error w => some ([], some (error, w.store))
  | _ + 1, exhausted base => some ([], some (.noMoreAlternatives, base))
  | count + 1, found answer w next =>
    ((next w.base).take count).map fun (answers, ending) => ((answer, w.store) :: answers, ending)

end Answers

namespace Meaning

open Answers

/-- A name has the value that the innermost frame around it gives it, and without one it is
an error. At most `reach` frames are looked at. -/
def find : (reach : Nat) → String → Env → World → Answers Value
  | 0, _, _, _ => .unknown
  | reach + 1, name, env, w =>
    match w.store.frame? env with
    | none => .failed (.symbolNotFound name) w
    | some frame =>
      match frame.bindings.lookup name with
      | some value => one value w
      | none => find reach name ⟨env.tree, frame.parent⟩ w

/-- A definition has its name as its answer. It belongs to the branch from there on. In a
frame that binds the name it is an error, and at a root it defines nothing. -/
def define (name : String) (value : Value) (env : Env) (w : World) : Answers Value :=
  match w.store.frame? env with
  | none => one (.symbol name) w
  | some frame =>
    match frame.bindings.lookup name with
    | some _ => .failed (.symbolAlreadyDefined name) w
    | none => one (.symbol name) { w with definitions := ⟨env, name, value⟩ :: w.definitions }

/-- What follows a condition. -/
def branch (consequent alternative : World → Answers Value) (condition : Value) (w : World) :
    Answers Value :=
  match condition with
  | .bool true => consequent w
  | .bool false => alternative w
  | _ => .failed (.type (.condition condition.kind)) w

/-- A truth value, as an operand of a junction has to be. -/
def truth (kind : Junction) (value : Value) (w : World) : Answers Value :=
  match value with
  | .bool b => one (.bool b) w
  | _ => .failed (.type (.junction kind value.kind)) w

/-- A junction after its left operand. The right one is looked at only if it matters. -/
def join (kind : Junction) (right : World → Answers Value) (left : Value) (w : World) :
    Answers Value :=
  match left with
  | .bool b => if b = kind.decisive then one left w else (right w).bind (truth kind)
  | _ => .failed (.type (.junction kind left.kind)) w

section

variable (call : Value → List Value → World → Answers Value) (reach : Nat) (env : Env)

mutual

/-- The answers of a node, given those of calls. -/
def solveNode : Node → World → Answers Value
  | .atom (.symbol name) _, w =>
    if name = Node.backName then .exhausted w.base else find reach name env w
  | .atom literal _, w => one (.ofLiteral literal) w
  | .list items _, w => (solveAll items w).bind fun values => one (.list values)
  | .block statements _, w => solveEach statements w
  | .apply op args _, w =>
    match op.form? with
    | some .define =>
      match args with
      | [.atom (.symbol name) _, value] => (solveNode value w).bind (define name · env)
      | _ => .failed (.type (.malformed .define)) w
    | some .function =>
      match args with
      | [.list params _, .block body _] =>
        match params.mapM Node.symbol? with
        | some names =>
          let (function, base) := w.base.makeClosure names body env
          one function { w with base }
        | none => .failed (.type (.malformed .function)) w
      | _ => .failed (.type (.malformed .function)) w
    | some .conditional =>
      match args with
      | [condition, consequent, alternative] =>
        (solveNode condition w).bind (branch (solveNode consequent) (solveNode alternative))
      | _ => .failed (.type (.malformed .conditional)) w
    | some .choice =>
      match args with
      | [first, second] =>
        (solveNode first w).orElse fun base => solveNode second { w with base }
      | _ => .failed (.type (.malformed .choice)) w
    | some .and =>
      match args with
      | [left, right] => (solveNode left w).bind (join .and (solveNode right))
      | _ => .failed (.type (.malformed .and)) w
    | some .or =>
      match args with
      | [left, right] => (solveNode left w).bind (join .or (solveNode right))
      | _ => .failed (.type (.malformed .or)) w
    | none =>
      (solveNode op w).bind fun function w =>
        (solveAll args w).bind fun values => call function values

/-- The values of nodes from left to right. -/
def solveAll : List Node → World → Answers (List Value)
  | [], w => one [] w
  | node :: nodes, w =>
    (solveNode node w).bind fun value w =>
      (solveAll nodes w).bind fun values => one (value :: values)

/-- The answers of statements in order: those of the last, for each way through the others. -/
def solveEach : List Node → World → Answers Value
  | [], w => one (.list []) w
  | [last], w => solveNode last w
  | first :: next :: others, w => (solveNode first w).bind fun _ => solveEach (next :: others)

end

end

/-- The answers of a call, with calls nested up to a depth. The body of a function has a frame
of its own inside the environment that the function was made in. -/
def call : (depth : Nat) → Value → List Value → World → Answers Value
  | 0, _, _, _ => .unknown
  | depth + 1, function, args, w =>
    match function with
    | .closure c =>
      if c.params.length = args.length then
        let (env, base) := w.base.extend c.env (c.params.zip args)
        solveEach (call depth) depth env c.body { w with base }
      else .failed (.arity function.text c.params.length args.length) w
    | .primitive p =>
      match p.apply args with
      | .ok value => one value w
      | .error error => .failed error w
    | _ => .failed (.type (.notApplicable function.kind)) w

/-- The answers of a node in an environment, up to a depth. -/
def solve (depth : Nat) (env : Env) (node : Node) (s : Store) : Answers Value :=
  solveNode (call depth) depth env node ⟨s, []⟩

end Meaning

end Retrace
