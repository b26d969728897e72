/-
Lexical errors: text that is no token.

* **`LexFault.message`** — the wording of each cause.
-/
import Retrace.Source.Span
import Retrace.Text.Escape

namespace Retrace

/-- The causes for which a piece of text is no token. -/
inductive LexFault
  | unexpectedChar (c : Char)
  | unterminatedString
  | invalidEscape (c : Char)
  | invalidNumber (text : String)
  deriving DecidableEq, Repr

/-- The wording of a cause. An unexpected character is shown between quotes, the character
of an unknown escape as it stands. -/
def LexFault.message : LexFault → String
  | .unexpectedChar c => "unexpected character: " ++ Text.quotedChar c
  | .unterminatedString => "unterminated string"
  | .invalidEscape c => "invalid escape sequence: \\" ++ String.singleton c
  | .invalidNumber text => "invalid number: " ++ text

/-- A piece of text that is no token, with its place. -/
structure LexError where
  fault : LexFault
  span : Span
  deriving DecidableEq, Repr

end Retrace
