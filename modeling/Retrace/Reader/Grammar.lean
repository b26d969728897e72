/-
The grammar of statements and expressions.

* **`Grammar.upTo`** — the parsers of statements and expressions whose nesting is
  bounded.
* **`Parser.statement`**, **`Parser.expression`** — the same without a bound.

Design notes:
* Each production is a parser made from the parsers of what may stand inside it. The
  knot is tied once, by recursion on the depth of nesting.
* What stands inside a production comes after its first token, so neither the depth of
  nesting nor the length of a sequence exceeds the number of tokens left. That number
  is the bound from which reading starts.
* Operators are grouped by climbing: an operand on the right takes the operators that
  bind at least as tightly as its place allows, and the loop takes the others.
-/
import Retrace.Node.Basic
import Retrace.Operator.Table
import Retrace.Reader.Sequence

namespace Retrace

/-- The parsers of what may stand inside brackets or beside an operator. The number given to
`expression` is the least level of the operators that it takes. -/
structure Grammar where
  statement : Parser Node
  expression : (least : Nat) → Parser Node

namespace Grammar

open Retrace.Parser

/-- Whether a token is a name. -/
def isName : Token → Bool
  | .name _ => true
  | _ => false

/-- A name as a symbol. -/
def name : Parser Node := do
  match ← peek with
  | .name s =>
    let lexeme ← advance
    return .symbol s lexeme.span
  | _ => unexpected "identifier"

/-- Statements between braces. A statement that ends with a block needs no semicolon. -/
def block (inner : Grammar) (bound : Nat) : Parser Node := do
  let opening ← consume (.mark .openBrace)
  let statements ←
    terminated inner.statement (.mark .semicolon) (.mark .closeBrace) Node.endsWithBlock bound
  let closing ← consume (.mark .closeBrace)
  return .block statements (opening.span.join closing.span)

/-- Expressions between parentheses, with commas between them. -/
def arguments (inner : Grammar) (bound : Nat) : Parser (List Node) :=
  delimited (.mark .openParen) (inner.expression 0) (.mark .comma) (.mark .closeParen) bound

/-- Expressions between square brackets, with commas between them. -/
def list (inner : Grammar) (bound : Nat) : Parser Node := do
  let start ← currentSpan
  let items ←
    delimited (.mark .openBracket) (inner.expression 0) (.mark .comma) (.mark .closeBracket) bound
  return .list items (start.join (← previousSpan))

/-- The parameters and the body of a function, after its keyword and its name. -/
def functionRest (inner : Grammar) (bound : Nat) (keyword : Span) : Parser Node := do
  let start ← currentSpan
  let params ←
    delimited (.mark .openParen) name (.mark .comma) (.mark .closeParen) bound
  let paramsSpan := start.join (← previousSpan)
  let body ← block inner bound
  return .apply (.symbol Form.function.name keyword) [.list params paramsSpan, body]
    (keyword.join body.span)

/-- A conditional. Another conditional or a block follows `else`; without one, the
alternative is an empty block behind the consequent. -/
def conditional (inner : Grammar) : (bound : Nat) → Parser Node
  | 0 => spent
  | bound + 1 => do
    let keyword ← consume (.keyword .conditional)
    let _ ← consume (.mark .openParen)
    let condition ← inner.expression 0
    let _ ← consume (.mark .closeParen)
    let consequent ← block inner bound
    let alternative ←
      if ← accept (.keyword .alternative) then
        if ← check (.keyword .conditional) then conditional inner bound else block inner bound
      else
        pure (.block [] (.emptyAt consequent.span.stop))
    return .apply (.symbol Form.conditional.name keyword.span)
      [condition, consequent, alternative] (keyword.span.join alternative.span)

/-- An operand without operators and argument lists around it. Parentheses leave no trace in
the tree. -/
def primary (inner : Grammar) (bound : Nat) : Parser Node := do
  match ← peek with
  | .int n =>
    let lexeme ← advance
    return .atom (.int n) lexeme.span
  | .str s =>
    let lexeme ← advance
    return .atom (.str s) lexeme.span
  | .bool b =>
    let lexeme ← advance
    return .atom (.bool b) lexeme.span
  | .name _ => name
  | .keyword .back =>
    let lexeme ← advance
    return .symbol Node.backName lexeme.span
  | .keyword .function =>
    let keyword ← advance
    functionRest inner bound keyword.span
  | .keyword .conditional => conditional inner bound
  | .mark .openParen =>
    let _ ← advance
    let node ← inner.expression 0
    let _ ← consume (.mark .closeParen)
    return node
  | .mark .openBracket => list inner bound
  | .mark .openBrace => block inner bound
  | _ => missing

/-- Applies a tree to as many argument lists as follow it. -/
def applied (inner : Grammar) (function : Node) : (bound : Nat) → Parser Node
  | 0 => spent
  | bound + 1 => do
    if ← check (.mark .openParen) then
      let args ← arguments inner bound
      let span := function.span.join (← previousSpan)
      applied inner (.apply function args span) bound
    else
      return function

/-- An operand, with the operators that lead it. -/
def operand (inner : Grammar) : (bound : Nat) → Parser Node
  | 0 => spent
  | bound + 1 => do
    match (← peek).before? with
    | some op =>
      let sign ← advance
      let node ← operand inner bound
      return .apply (.symbol op sign.span) [node] (sign.span.join node.span)
    | none =>
      let function ← primary inner bound
      applied inner function (bound + 1)

/-- The next token as an operator of the table, with its binding. -/
def nextOperator (table : OperatorTable) : Parser (Option (String × Binding)) := do
  match (← peek).between? with
  | some op => return (table.find? op).map (op, ·)
  | none => return none

/-- Takes the operators from a level on, with the operands to their right, and groups them
with the tree to their left. -/
def climb (table : OperatorTable) (inner : Grammar) (least : Nat) (left : Node) :
    (bound : Nat) → Parser Node
  | 0 => spent
  | bound + 1 => do
    match ← nextOperator table with
    | none => return left
    | some (op, binding) =>
      if binding.level < least then
        return left
      else
        let sign ← advance
        let right ← inner.expression binding.right
        let span := left.span.join right.span
        climb table inner least (.apply (.symbol op sign.span) [left, right] span) bound

/-- An expression of operators from a level on. -/
def expressionWith (table : OperatorTable) (inner : Grammar) (bound : Nat) (least : Nat) :
    Parser Node := do
  let left ← operand inner bound
  climb table inner least left bound

/-- A definition of a name. -/
def definition (inner : Grammar) : Parser Node := do
  let keyword ← consume (.keyword .define)
  let target ← name
  let _ ← consume (.mark .assign)
  let value ← inner.expression 0
  return .apply (.symbol Form.define.name keyword.span) [target, value]
    (keyword.span.join value.span)

/-- A function with a name, which is a definition of that name. -/
def namedFunction (inner : Grammar) (bound : Nat) : Parser Node := do
  let keyword ← consume (.keyword .function)
  let target ← name
  let function ← functionRest inner bound keyword.span
  return .apply (.symbol Form.define.name keyword.span) [target, function]
    (keyword.span.join function.span)

/-- A statement without the semicolon after it. -/
def statementWith (table : OperatorTable) (inner : Grammar) (bound : Nat) : Parser Node := do
  match ← peek with
  | .keyword .define => definition inner
  | .keyword .function =>
    if isName (← peekAt 1) then namedFunction inner bound
    else expressionWith table inner bound 0
  | .keyword .conditional => conditional inner bound
  | .mark .openBrace => block inner bound
  | _ => expressionWith table inner bound 0

/-- The parsers of what is nested no deeper than a bound. -/
def upTo (table : OperatorTable) : (bound : Nat) → Grammar
  | 0 => ⟨spent, fun _ => spent⟩
  | bound + 1 =>
    ⟨fun c => statementWith table (upTo table bound) (bound + 1) c,
     fun least c => expressionWith table (upTo table bound) (bound + 1) least c⟩

end Grammar

namespace Parser

/-- A bound on the depth of nesting and on the length of the sequences that are left. -/
def bound : Parser Nat :=
  return (← get).remaining + 2

/-- A statement without the semicolon after it. -/
def statement (table : OperatorTable) : Parser Node := do
  (Grammar.upTo table (← bound)).statement

/-- An expression of operators from a level on. -/
def expression (table : OperatorTable) (least : Nat) : Parser Node := do
  (Grammar.upTo table (← bound)).expression least

/-- Expressions between brackets, with a separator between them. -/
def expressionsBetween (table : OperatorTable) (opening separator closing : Token) :
    Parser (List Node) := do
  delimited opening (expression table 0) separator closing (← bound)

/-- Expressions up to a closing token, with a terminator after each that does not end with a
block. -/
def expressionsUntil (table : OperatorTable) (terminator closing : Token) :
    Parser (List Node) := do
  terminated (expression table 0) terminator closing Node.endsWithBlock (← bound)

end Parser

end Retrace
