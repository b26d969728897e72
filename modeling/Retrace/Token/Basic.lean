/-
Tokens: the words and marks that a program is written in.

* **`Token.spelling?`** — the fixed text of a token that has one.
* **`Token.between?`**, **`Token.before?`** — the operator symbols that a token can
  stand for between two operands, and before one.
* **`Token.describe`** — a token as messages name it.

Design notes:
* `not` and the minus sign are the operators that can lead an operand. Only the
  minus sign is an operator in both places.
* A literal has no sign: a negative number is a minus sign and a literal.
-/
import Retrace.Text.Escape

namespace Retrace

/-- Words with a meaning of their own. The operator words are not among them, except for
`not`, which takes a single operand. -/
inductive Keyword
  | define
  | function
  | conditional
  | alternative
  | back
  | not
  deriving DecidableEq, Repr

/-- The spelling of a keyword. -/
def Keyword.text : Keyword → String
  | .define => "define"
  | .function => "fn"
  | .conditional => "if"
  | .alternative => "else"
  | .back => "back"
  | .not => "not"

/-- Operators that stand between two operands. -/
inductive Operator
  | choice
  | and
  | or
  | xor
  | eq
  | ne
  | lt
  | gt
  | le
  | ge
  | add
  | sub
  | mul
  | div
  | mod
  | cons
  | append
  deriving DecidableEq, Repr

/-- The spelling of an operator, which is also the symbol it is read as. -/
def Operator.text : Operator → String
  | .choice => "then"
  | .and => "and"
  | .or => "or"
  | .xor => "xor"
  | .eq => "=="
  | .ne => "!="
  | .lt => "<"
  | .gt => ">"
  | .le => "<="
  | .ge => ">="
  | .add => "+"
  | .sub => "-"
  | .mul => "*"
  | .div => "/"
  | .mod => "%"
  | .cons => "@"
  | .append => "@@"

/-- Brackets, separators and the sign of a definition. -/
inductive Mark
  | openParen
  | closeParen
  | openBracket
  | closeBracket
  | openBrace
  | closeBrace
  | comma
  | semicolon
  | assign
  deriving DecidableEq, Repr

/-- The character of a mark. -/
def Mark.char : Mark → Char
  | .openParen => '('
  | .closeParen => ')'
  | .openBracket => '['
  | .closeBracket => ']'
  | .openBrace => '{'
  | .closeBrace => '}'
  | .comma => ','
  | .semicolon => ';'
  | .assign => '='

/-- The smallest parts of a program. `eof` stands behind the last of them. -/
inductive Token
  | int (n : Int64)
  | str (s : String)
  | bool (b : Bool)
  | name (s : String)
  | keyword (k : Keyword)
  | op (o : Operator)
  | mark (m : Mark)
  | eof
  deriving DecidableEq, Repr

namespace Token

/-- Whether a token is a number shows in its constructor. Without this instance the decision is a
search through all numbers wherever `Int64` is known to be finite. -/
instance (t : Token) : Decidable (∀ n, t = int n → False) :=
  match t with
  | int n => isFalse fun other => other n rfl
  | str _ | bool _ | name _ | keyword _ | op _ | mark _ | eof => isTrue nofun

/-- The text of a token that is always written the same way. -/
def spelling? : Token → Option String
  | bool b => some (toString b)
  | keyword k => some k.text
  | op o => some o.text
  | mark m => some (String.singleton m.char)
  | _ => none

/-- The symbol of a token that can stand between two operands. -/
def between? : Token → Option String
  | op o => some o.text
  | _ => none

/-- The symbol of a token that can stand before a single operand. -/
def before? : Token → Option String
  | keyword .not => some Keyword.not.text
  | op .sub => some Operator.sub.text
  | _ => none

/-- A token as messages name it. -/
def describe (t : Token) : String :=
  match t with
  | int n => "number " ++ toString n.toInt
  | str s => "string " ++ Text.quoted s
  | name s => "identifier '" ++ s ++ "'"
  | eof => "end of input"
  | _ => "'" ++ t.spelling?.getD "" ++ "'"

end Token

end Retrace
