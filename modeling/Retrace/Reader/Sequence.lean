/-
Parsers of sequences.

* **`Parser.delimited`** — items between brackets with a separator between them.
* **`Parser.terminated`** — items each followed by a terminator.

Design notes:
* A sequence takes a bound on the number of its items. An item consumes at least one
  token, so the number of tokens left is bound enough. A sequence that used up its bound
  would stop with an error of its own.
-/
import Retrace.Reader.Cursor

namespace Retrace.Parser

variable {α : Type}

/-- Stops for want of an expression. -/
def missing : Parser α :=
  unexpected "expression"

/-- What is expected where a bound is used up. Nothing else is called so. -/
def boundWanted : String :=
  "a larger bound"

/-- Stops because a bound is used up. Bounds are taken from the number of tokens that are left, so
it does not come to this. -/
def spent : Parser α :=
  unexpected boundWanted

/-- One or more items with a separator between them. -/
def separated (item : Parser α) (separator : Token) : (bound : Nat) → Parser (List α)
  | 0 => spent
  | bound + 1 => do
    let first ← item
    if ← accept separator then
      let others ← separated item separator bound
      return first :: others
    else
      return [first]

/-- Items between brackets, possibly none. No separator follows the last item. -/
def delimited (opening : Token) (item : Parser α) (separator closing : Token) (bound : Nat) :
    Parser (List α) := do
  let _ ← consume opening
  if ← accept closing then
    return []
  let items ← separated item separator bound
  let _ ← consume closing
  return items

/-- Items up to a closing token, which is not consumed. A terminator follows each of them,
except that it may be left out after an item that ends itself. -/
def terminated (item : Parser α) (terminator closing : Token) (endsItself : α → Bool) :
    (bound : Nat) → Parser (List α)
  | 0 => spent
  | bound + 1 => do
    if ← check closing then
      return []
    let first ← item
    if !(← accept terminator) && !endsItself first then
      unexpected terminator.describe
    let others ← terminated item terminator closing endsItself bound
    return first :: others

end Retrace.Parser
