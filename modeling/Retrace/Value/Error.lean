/-
Evaluation errors: why a program has no value.

* **`EvalError.message`** — the wording of an error.

Design notes:
* Every error is a cause with the data that its wording needs. The kind of a value
  stands for the value, so that an error can be told without it.
-/
import Retrace.Node.Basic

namespace Retrace

/-- The kinds of values that programs can tell apart. -/
inductive Kind
  | integer
  | string
  | boolean
  | symbol
  | list
  | function
  deriving DecidableEq, Repr

/-- The word for a kind. -/
def Kind.text : Kind → String
  | .integer => "integer"
  | .string => "string"
  | .boolean => "boolean"
  | .symbol => "symbol"
  | .list => "list"
  | .function => "function"

/-- The two operators that evaluate their right operand only if it matters. -/
inductive Junction
  | and
  | or
  deriving DecidableEq, Repr

namespace Junction

/-- The special form of a junction. -/
def form : Junction → Form
  | and => .and
  | or => .or

/-- The left operand that settles the value. -/
def decisive : Junction → Bool
  | and => false
  | or => true

end Junction

/-- The ways in which data can be of the wrong type. `stated` is a fault that someone else
found, in their own words. -/
inductive TypeFault
  | malformed (form : Form)
  | expectedInteger (found : Kind)
  | expectedBoolean (found : Kind)
  | expectedList (found : Kind)
  | condition (found : Kind)
  | junction (kind : Junction) (found : Kind)
  | notApplicable (found : Kind)
  | headOfEmpty
  | tailOfEmpty
  | overflow
  | stated (text : String)
  deriving DecidableEq, Repr

/-- The wording of a fault. -/
def TypeFault.message : TypeFault → String
  | malformed form => "malformed " ++ form.name ++ " form"
  | expectedInteger found => "expected an integer, found " ++ found.text
  | expectedBoolean found => "expected a boolean, found " ++ found.text
  | expectedList found => "expected a list, found " ++ found.text
  | condition found => "if condition must be a boolean, found " ++ found.text
  | junction kind found => kind.form.name ++ " expects booleans, found " ++ found.text
  | notApplicable found => "cannot apply a " ++ found.text
  | headOfEmpty => "head of empty list"
  | tailOfEmpty => "tail of empty list"
  | overflow => "integer overflow"
  | stated text => text

/-- The reasons for which evaluation stops without a value. -/
inductive EvalError
  | symbolNotFound (name : String)
  | symbolAlreadyDefined (name : String)
  | type (fault : TypeFault)
  | arity (name : String) (expected found : Nat)
  | divisionByZero
  | noMoreAlternatives
  | stepLimitExceeded (limit : Nat)
  deriving DecidableEq, Repr

/-- The wording of an error. -/
def EvalError.message : EvalError → String
  | symbolNotFound name => "symbol not found: " ++ name
  | symbolAlreadyDefined name => "symbol already defined: " ++ name
  | type fault => "type error: " ++ fault.message
  | arity name expected found =>
    name ++ " expects " ++ toString expected ++ " argument(s), got " ++ toString found
  | divisionByZero => "division by zero"
  | noMoreAlternatives => "no more alternatives"
  | stepLimitExceeded limit => "evaluation exceeded " ++ toString limit ++ " steps"

end Retrace
