/-
Operator tables: how tightly the operators between two operands bind.

* **`OperatorTable.find?`** — the entry of an operator.
* **`OperatorTable.register`** — a new entry, and the warning it gives rise to.
* **`Binding.right`** — how tightly the right operand has to bind.

Design notes:
* A table is a list of entries, and the first entry of a name counts.
* Operators that stand before a single operand are in no table: they bind more
  tightly than every entry. So do argument lists.
* Levels run up to 255. The level of a right operand is a plain number, because at
  the tightest level it lies one above.
-/

namespace Retrace

/-- To which side a chain of operators of one level groups. A chain without a side groups
to the left. -/
inductive Side
  | left
  | right
  | none
  deriving DecidableEq, Repr

/-- How an operator binds. A higher level binds tighter. -/
structure Binding where
  level : Nat
  side : Side
  builtin : Bool
  deriving DecidableEq, Repr

/-- The least level of an operator inside the right operand. -/
def Binding.right (b : Binding) : Nat :=
  match b.side with
  | .right => b.level
  | .left | .none => b.level + 1

/-- What is worth telling about a registration that nevertheless took place. -/
inductive Warning
  | replacesBuiltin (op : String)
  deriving DecidableEq, Repr

/-- The wording of a warning. -/
def Warning.message : Warning → String
  | .replacesBuiltin op => "operator '" ++ op ++ "' replaces a built-in operator"

/-- The operators that may stand between two operands. -/
structure OperatorTable where
  entries : List (String × Binding)
  deriving DecidableEq, Repr

namespace OperatorTable

/-- The table in which every operator ends the expression before it. -/
def empty : OperatorTable :=
  ⟨[]⟩

/-- The built-in operators, from the choice between alternatives to the arithmetic of
factors. -/
def builtins : OperatorTable :=
  ⟨[("then", 1, Side.right), ("and", 2, .left), ("or", 2, .left), ("xor", 2, .left),
    ("==", 3, .none), ("!=", 3, .none), ("<", 3, .none), (">", 3, .none), ("<=", 3, .none),
    (">=", 3, .none), ("@", 4, .right), ("@@", 4, .right), ("+", 5, .left), ("-", 5, .left),
    ("*", 6, .left), ("/", 6, .left), ("%", 6, .left)].map
      fun (op, level, side) => (op, ⟨level, side, true⟩)⟩

/-- How an operator binds, if the table has it. -/
def find? (table : OperatorTable) (op : String) : Option Binding :=
  table.entries.lookup op

/-- Whether the table has an operator. -/
def contains (table : OperatorTable) (op : String) : Bool :=
  (table.find? op).isSome

/-- Enters an operator at a level, in place of any entry it had. The entry is no longer a
built-in one, and replacing one that was gives a warning. -/
def register (table : OperatorTable) (op : String) (level : Nat) (side : Side) :
    OperatorTable × Option Warning :=
  let warning :=
    match table.find? op with
    | some old => if old.builtin then some (.replacesBuiltin op) else none
    | none => none
  (⟨(op, ⟨level, side, false⟩) :: table.entries.filter (·.1 ≠ op)⟩, warning)

end OperatorTable

end Retrace
