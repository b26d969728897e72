/-
Values: what programs compute with.

* **`Value`** — data, functions that programs define, and primitives.
* **`Value.same`** — equality as programs see it.
* **`Value.text`** — a value as it is shown.

Design notes:
* A function remembers the environment it was made in by the numbers of its tree and
  frame. The frame itself lives in a store.
* Making a function twice makes two functions: each has an identity of its own, and is
  the same as itself alone.
-/
import Retrace.Node.Basic
import Retrace.Value.Error

namespace Retrace

/-- The functions that exist before any program runs. -/
inductive Primitive
  | add
  | sub
  | mul
  | div
  | mod
  | eq
  | ne
  | lt
  | gt
  | le
  | ge
  | cons
  | append
  | xor
  | not
  | head
  | tail
  | length
  deriving DecidableEq, Repr

/-- The name that a primitive is bound to. -/
def Primitive.name : Primitive → String
  | .add => "+"
  | .sub => "-"
  | .mul => "*"
  | .div => "/"
  | .mod => "%"
  | .eq => "=="
  | .ne => "!="
  | .lt => "<"
  | .gt => ">"
  | .le => "<="
  | .ge => ">="
  | .cons => "@"
  | .append => "@@"
  | .xor => "xor"
  | .not => "not"
  | .head => "head"
  | .tail => "tail"
  | .length => "length"

/-- An environment: the number of a frame, and of the tree that the frame belongs to. The
root of a tree has the number zero. -/
structure Env where
  tree : Nat
  number : Nat
  deriving DecidableEq, Repr

/-- A function that a program made. -/
structure Closure where
  identity : Nat
  params : List String
  body : List Node
  env : Env
  deriving Repr

/-- What programs compute with. -/
inductive Value
  | int (n : Int64)
  | str (s : String)
  | bool (b : Bool)
  | symbol (name : String)
  | list (items : List Value)
  | closure (c : Closure)
  | primitive (p : Primitive)
  deriving Repr, Inhabited

namespace Value

/-- The kind of a value. -/
def kind : Value → Kind
  | int _ => .integer
  | str _ => .string
  | bool _ => .boolean
  | symbol _ => .symbol
  | list _ => .list
  | closure _ | primitive _ => .function

/-- The value of a literal. -/
def ofLiteral : Literal → Value
  | .int n => int n
  | .str s => str s
  | .bool b => bool b
  | .symbol name => symbol name

mutual

/-- Equality as programs see it. Values of different kinds differ, lists are compared item
by item, and functions by their identity. -/
def same : Value → Value → Bool
  | int a, int b => a = b
  | str a, str b => a = b
  | bool a, bool b => a = b
  | symbol a, symbol b => a = b
  | list a, list b => sameList a b
  | closure a, closure b => a.identity = b.identity
  | primitive a, primitive b => a = b
  | _, _ => false

/-- Equality of lists, item by item. -/
def sameList : List Value → List Value → Bool
  | [], [] => true
  | a :: as, b :: bs => same a b && sameList as bs
  | _, _ => false

end

mutual

/-- A value as it is shown. -/
def text : Value → String
  | int n => toString n.toInt
  | str s => Text.quoted s
  | bool b => toString b
  | symbol name => name
  | list items => "[" ++ joined items ++ "]"
  | closure c => "fn (" ++ ", ".intercalate c.params ++ ")"
  | primitive p => "<builtin " ++ p.name ++ ">"

/-- Values with commas between them. -/
def joined : List Value → String
  | [] => ""
  | [value] => value.text
  | value :: next :: values => value.text ++ ", " ++ joined (next :: values)

end

end Value

end Retrace
