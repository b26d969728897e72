/-
A cursor over the tokens of a text.

* **`Cursor.ofText`** — the cursor before the first token.
* **`peek`**, **`advance`**, **`accept`**, **`consume`** — the steps that parsers are
  made of.
* **`skipPastSemicolon`** — the step that gives up on a statement.

Design notes:
* Tokens are looked at no sooner than they are needed, so a lexical error is met where
  reading comes to it. It is met once: the next look goes on behind it.
* The end of input is never consumed. It can be looked at, and advanced to, any number
  of times.
* A parser that fails keeps the cursor where it stopped.
-/
import Retrace.Reader.Error

namespace Retrace

/-- A place between two tokens: the tokens that were looked at but not consumed, what comes
after them, and the token consumed last. -/
structure Cursor where
  ahead : List Lexeme
  upcoming : List LexItem
  eof : Lexeme
  previous : Option Lexeme

namespace Cursor

/-- The cursor before the first token of a text. -/
def ofText (text : String) : Cursor :=
  ⟨[], lex text, eofOf text, none⟩

/-- The number of tokens and lexical errors that are left. -/
def remaining (c : Cursor) : Nat :=
  (c.ahead.filter (·.token ≠ .eof)).length + c.upcoming.length

/-- The span of the next token if it was looked at, and else the empty span behind the token
consumed last. -/
def currentSpan (c : Cursor) : Span :=
  match c.ahead, c.previous with
  | lexeme :: _, _ => lexeme.span
  | [], some previous => .emptyAt previous.span.stop
  | [], none => .emptyAt 0

/-- The span of the token consumed last. -/
def previousSpan (c : Cursor) : Span :=
  match c.previous with
  | some previous => previous.span
  | none => .emptyAt 0

/-- The error of finding the next token in place of what is expected. -/
def unexpected (c : Cursor) (expected : String) : ReadError :=
  match c.ahead with
  | [] => .unexpectedEnd expected c.currentSpan
  | lexeme :: _ =>
    if lexeme.token = .eof then .unexpectedEnd expected c.currentSpan
    else .unexpectedToken expected lexeme.token lexeme.span

end Cursor

/-- Steps over the tokens of a text that give a result or stop with an error. -/
abbrev Parser := EStateM ReadError Cursor

namespace Parser

/-- Stops because the next token is not what is expected. -/
def unexpected {α : Type} (expected : String) : Parser α :=
  fun c => .error (c.unexpected expected) c

/-- Looks at one token more. -/
def lookFurther : Parser Unit := fun c =>
  match c.upcoming with
  | [] => .ok () { c with ahead := c.ahead ++ [c.eof] }
  | .ok lexeme :: upcoming => .ok () { c with ahead := c.ahead ++ [lexeme], upcoming }
  | .error error :: upcoming => .error (.lexical error) { c with upcoming }

/-- Looks at a number of tokens more. -/
def lookFurtherBy : Nat → Parser Unit
  | 0 => pure ()
  | n + 1 => do
    lookFurther
    lookFurtherBy n

/-- The token at a distance from the next one. -/
def peekAt (n : Nat) : Parser Token := do
  lookFurtherBy (n + 1 - (← get).ahead.length)
  let c ← get
  return (c.ahead[n]?.getD c.eof).token

/-- The next token. -/
def peek : Parser Token :=
  peekAt 0

/-- Consumes the next token. -/
def advance : Parser Lexeme := do
  lookFurtherBy (1 - (← get).ahead.length)
  let c ← get
  let lexeme := c.ahead.head?.getD c.eof
  let ahead := if lexeme.token = .eof then c.ahead else c.ahead.tail
  set { c with ahead, previous := some lexeme }
  return lexeme

/-- Whether a token comes next. -/
def check (token : Token) : Parser Bool :=
  return (← peek) = token

/-- Consumes a token if it comes next, and tells whether it did. -/
def accept (token : Token) : Parser Bool := do
  if ← check token then
    let _ ← advance
    return true
  else
    return false

/-- Consumes a token that has to come next. -/
def consume (token : Token) : Parser Lexeme := do
  if ← check token then
    advance
  else
    unexpected token.describe

/-- Whether the end of input comes next. -/
def atEnd : Parser Bool :=
  check .eof

/-- The span of the next token if it was looked at. -/
def currentSpan : Parser Span :=
  return (← get).currentSpan

/-- The span of the token consumed last. -/
def previousSpan : Parser Span :=
  return (← get).previousSpan

/-- Consumes up to `fuel` tokens, through the first semicolon. -/
def skipWithin (fuel : Nat) (c : Cursor) : Cursor :=
  match fuel with
  | 0 => c
  | fuel + 1 =>
    match advance c with
    | .ok lexeme c =>
      if lexeme.token = .mark .semicolon ∨ lexeme.token = .eof then c else skipWithin fuel c
    | .error _ c => skipWithin fuel c

end Parser

/-- The cursor behind the next semicolon, or at the end. Lexical errors on the way are
passed over. -/
def Cursor.skipPastSemicolon (c : Cursor) : Cursor :=
  Parser.skipWithin (c.remaining + 1) c

end Retrace
