/-
Reading errors: why a text is no program.

* **`ReadError.message`** — the wording of an error.
* **`ReadError.span`** — where it is reported.

Design notes:
* What was expected is kept as words, because it can be a token as well as a notion
  such as an expression.
-/
import Retrace.Token.Lexer

namespace Retrace

/-- Why reading stopped: text that is no token, a token that does not fit, or the end of the
text in the middle of a statement. -/
inductive ReadError
  | lexical (error : LexError)
  | unexpectedToken (expected : String) (found : Token) (span : Span)
  | unexpectedEnd (expected : String) (span : Span)
  deriving DecidableEq, Repr

namespace ReadError

/-- The wording of an error. -/
def message : ReadError → String
  | lexical error => error.fault.message
  | unexpectedToken expected found _ =>
    "unexpected token: expected " ++ expected ++ ", found " ++ found.describe
  | unexpectedEnd expected _ => "unexpected end of input: expected " ++ expected

/-- The part of the text that an error is about. -/
def span : ReadError → Span
  | lexical error => error.span
  | unexpectedToken _ _ span => span
  | unexpectedEnd _ span => span

end ReadError

end Retrace
