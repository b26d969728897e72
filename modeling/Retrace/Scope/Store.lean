/-
Stores: the frames in which names are bound.

* **`Store.frame?`** — the frame of an environment.
* **`Store.extend`** — a new frame inside an environment.
* **`Store.bind`**, **`Store.unbind`** — a name bound in a frame, and set free again.
* **`Store.visible`** — the names that can be looked up from an environment.

Design notes:
* Frames form trees. A tree has a root, in which nothing can be bound, and numbers its
  frames from one in the order in which they were made. A frame is made after its
  parent, so parents have smaller numbers.
* Frames are never removed. A name is bound at most once in a frame.
* The number of frames made is the size of their array. It is taken to stay below the word
  size of the machine, at which a counter of its own would wrap.
-/
import Retrace.Value.Basic

namespace Retrace

/-- Names with the values they are bound to. -/
abbrev Bindings := List (String × Value)

namespace Bindings

/-- Binds a name, in place of what it was bound to. -/
def put (bindings : Bindings) (name : String) (value : Value) : Bindings :=
  (name, value) :: bindings.filter (·.1 ≠ name)

/-- Sets a name free. -/
def remove (bindings : Bindings) (name : String) : Bindings :=
  bindings.filter (·.1 ≠ name)

/-- The names in ascending order. -/
def names (bindings : Bindings) : List String :=
  (bindings.map (·.1)).mergeSort

end Bindings

/-- A frame: the number of the frame around it, and the names bound in it. -/
structure Frame where
  parent : Nat
  bindings : Bindings
  deriving Repr

/-- All frames, tree by tree, and the number of functions made so far. -/
structure Store where
  trees : Array (Array Frame)
  closures : Nat
  deriving Repr

/-- The root of a tree, where nothing is bound. -/
def Env.isRoot (env : Env) : Bool :=
  env.number == 0

namespace Store

/-- The store without trees. -/
def empty : Store :=
  ⟨#[], 0⟩

/-- The frames of the tree that an environment belongs to. -/
def framesOf (s : Store) (env : Env) : Array Frame :=
  s.trees[env.tree]?.getD #[]

/-- The number of frames made so far in the tree of an environment. -/
def created (s : Store) (env : Env) : Nat :=
  (s.framesOf env).size

/-- The frame of an environment. A root has none. -/
def frame? (s : Store) (env : Env) : Option Frame :=
  match env.number with
  | 0 => none
  | n + 1 => (s.framesOf env)[n]?

/-- A new tree, and its root. -/
def addRoot (s : Store) : Env × Store :=
  (⟨s.trees.size, 0⟩, { s with trees := s.trees.push #[] })

/-- A new frame inside an environment. Of several values for one name the last counts. -/
def extend (s : Store) (env : Env) (bindings : Bindings) : Env × Store :=
  let frame := ⟨env.number, bindings.foldl (fun bs (name, value) => bs.put name value) []⟩
  (⟨env.tree, s.created env + 1⟩, { s with trees := s.trees.modify env.tree (·.push frame) })

/-- A function with an identity of its own. -/
def makeClosure (s : Store) (params : List String) (body : List Node) (env : Env) :
    Value × Store :=
  (.closure ⟨s.closures, params, body, env⟩, { s with closures := s.closures + 1 })

/-- Changes the bindings of a frame. -/
def update (s : Store) (env : Env) (f : Bindings → Bindings) : Store :=
  match env.number with
  | 0 => s
  | n + 1 =>
    let change := fun frame : Frame => { frame with bindings := f frame.bindings }
    { s with trees := s.trees.modify env.tree (·.modify n change) }

/-- Binds a name in a frame. -/
def bind (s : Store) (env : Env) (name : String) (value : Value) : Store :=
  s.update env (·.put name value)

/-- Sets a name free in a frame. -/
def unbind (s : Store) (env : Env) (name : String) : Store :=
  s.update env (·.remove name)

/-- The value that a name is bound to in the frame of an environment itself. -/
def local? (s : Store) (env : Env) (name : String) : Option Value :=
  (s.frame? env).bind (·.bindings.lookup name)

/-- The environment around an environment. A root has none. -/
def parent? (s : Store) (env : Env) : Option Env :=
  (s.frame? env).map fun frame => ⟨env.tree, frame.parent⟩

/-- The environments from one to the root of its tree, the innermost first. -/
def chain (s : Store) (env : Env) : List Env :=
  match s.parent? env with
  | none => [env]
  | some parent => if parent.number < env.number then env :: s.chain parent else [env]
termination_by env.number

/-- The names that can be looked up from an environment, without duplicates: those of the
innermost frame first, and those of one frame in ascending order. -/
def visible (s : Store) (env : Env) : List String :=
  ((s.chain env).flatMap fun e => ((s.frame? e).map (·.bindings.names)).getD []).eraseDups

/-- An environment as the numbers of its chain. -/
def envText (s : Store) (env : Env) : String :=
  " -> ".intercalate ((s.chain env).map fun e => "<" ++ toString e.number ++ ">")

/-- A value with what is known about it. A function is shown with its environment. -/
def describe (s : Store) (value : Value) : String :=
  match value with
  | .closure c => value.text ++ " in " ++ s.envText c.env
  | _ => value.text

end Store

end Retrace
