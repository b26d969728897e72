/-
Syntax trees.

* **`Node`** — atoms, applications, lists and blocks, each with its span.
* **`Node.text`** — the prefix form `op[a, b]` in which trees are shown.
* **`Node.endsWithBlock`** — trees after which a statement may go without a
  semicolon.
* **`Form.ofOperator?`** — which applications are special forms.

Design notes:
* The tree is uniform: special forms, operators and calls are all applications, and
  the operator's symbol tells them apart.
* Nothing in the type keeps a special form from having the wrong operands. Whoever
  evaluates a tree answers for that.
-/
import Retrace.Source.Span
import Retrace.Text.Escape

namespace Retrace

/-- The data that a program can write down directly. -/
inductive Literal
  | int (n : Int64)
  | str (s : String)
  | bool (b : Bool)
  | symbol (name : String)
  deriving DecidableEq, Repr

/-- A literal as trees and values show it. -/
def Literal.text : Literal → String
  | int n => toString n.toInt
  | str s => Text.quoted s
  | bool b => toString b
  | symbol name => name

/-- A syntax tree. -/
inductive Node
  | atom (literal : Literal) (span : Span)
  | apply (op : Node) (args : List Node) (span : Span)
  | list (items : List Node) (span : Span)
  | block (statements : List Node) (span : Span)
  deriving Repr, Inhabited

/-- The operators whose operands are not simply evaluated in order. -/
inductive Form
  | define
  | function
  | conditional
  | choice
  | and
  | or
  deriving DecidableEq, Repr

namespace Form

/-- The symbol of a special form. -/
def name : Form → String
  | define => "define"
  | function => "fn"
  | conditional => "if"
  | choice => "then"
  | and => "and"
  | or => "or"

/-- The special form that a symbol names. -/
def ofName? (s : String) : Option Form :=
  [define, function, conditional, choice, and, or].find? (·.name = s)

end Form

namespace Node

/-- The symbol that means "try the next alternative". -/
def backName : String :=
  "back"

/-- A symbol as a tree. -/
def symbol (name : String) (span : Span) : Node :=
  .atom (.symbol name) span

/-- The part of the source that a tree was read from. -/
def span : Node → Span
  | atom _ span | apply _ _ span | list _ span | block _ span => span

/-- The name of a tree that is a bare symbol. -/
def symbol? : Node → Option String
  | atom (.symbol name) _ => some name
  | _ => none

/-- The special form that an application with this operator is. -/
def form? (op : Node) : Option Form :=
  op.symbol?.bind Form.ofName?

/-- The forms whose last operand may be a block that ends the statement. -/
def isBlockForm (op : Node) : Bool :=
  op.form? = some .define || op.form? = some .function || op.form? = some .conditional

mutual

/-- Whether the text of a tree ends in a closing brace, so that a statement needs no
semicolon after it. -/
def endsWithBlock : Node → Bool
  | block _ _ => true
  | apply op args _ => op.isBlockForm && lastEndsWithBlock args
  | atom _ _ | list _ _ => false

/-- Whether the last of some trees ends with a block. -/
def lastEndsWithBlock : List Node → Bool
  | [] => false
  | [node] => node.endsWithBlock
  | _ :: next :: nodes => lastEndsWithBlock (next :: nodes)

end

mutual

/-- A tree in prefix form. -/
def text : Node → String
  | atom literal _ => literal.text
  | apply op args _ => op.text ++ "[" ++ joined ", " args ++ "]"
  | list items _ => "[" ++ joined ", " items ++ "]"
  | block statements _ => "\x7b" ++ joined "; " statements ++ "\x7d"

/-- Trees in prefix form with a separator between them. -/
def joined (separator : String) : List Node → String
  | [] => ""
  | [node] => node.text
  | node :: next :: nodes => node.text ++ separator ++ joined separator (next :: nodes)

end

end Node

end Retrace
