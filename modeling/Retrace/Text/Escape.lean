/-
Escaped text: how strings and single characters are shown.

* **`escape`** — the body of a quoted string.
* **`quoted`** — a string between double quotes.
* **`quotedChar`** — a single character between single quotes.

Design notes:
* Four control characters, the backslash and the quotes have an escape of their own.
  Every other hidden character is written by its code point in hexadecimal.
* A combining character is escaped only where it would be drawn onto a quote:
  at the head of a string, and always when it stands alone.
-/
import Retrace.Text.Combining
import Retrace.Text.Hidden

namespace Retrace.Text

/-- A character by its code point, in lower case hexadecimal without leading zeros. -/
def codePoint (c : Char) : List Char :=
  ['\\', 'u', '{'] ++ Nat.toDigits 16 c.toNat ++ ['}']

/-- The letter that stands for a control character after a backslash. -/
def controlLetter? (c : Char) : Option Char :=
  if c = '\x00' then some '0'
  else if c = '\t' then some 't'
  else if c = '\r' then some 'r'
  else if c = '\n' then some 'n'
  else none

/-- One character of a shown text. The quotes to escape are given, and `first` says that
nothing stands before the character for it to combine with. -/
def escapeChar (quotes : List Char) (first : Bool) (c : Char) : List Char :=
  match controlLetter? c with
  | some letter => ['\\', letter]
  | none =>
    if c = '\\' || quotes.contains c then ['\\', c]
    else if (first && isCombining c) || isHidden c then codePoint c
    else [c]

/-- The body of a quoted string. Both kinds of quotes are escaped in it. -/
def escape : List Char → List Char
  | [] => []
  | c :: cs => escapeChar ['"', '\''] true c ++ cs.flatMap (escapeChar ['"', '\''] false)

/-- A string between double quotes. -/
def quoted (s : String) : String :=
  String.ofList ('"' :: escape s.toList ++ ['"'])

/-- A character between single quotes. A double quote needs no escape there. -/
def quotedChar (c : Char) : String :=
  String.ofList ('\'' :: escapeChar ['\''] true c ++ ['\''])

end Retrace.Text
