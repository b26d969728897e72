/-
From text to tokens.

* **`lex`** — the tokens and lexical errors of a text, in order, each with its span.
* **`tokenize`** — the tokens of a text without lexical errors.
* **`scan_rest_length`** — what is left after one token is shorter than the text.

Design notes:
* Scanning goes on after an error: the text that is no token has a span like a
  token, and the next token begins after it.
* A scan returns the text it used beside the rest, so that the two together are
  the text it was given and spans are sums of widths.
* The end of the text is not among the items of `lex`. A reader that asks for more
  sees the end of input as often as it asks.
-/
import Retrace.Text.Blank
import Retrace.Text.Bytes
import Retrace.Text.Letter
import Retrace.Text.Numeral
import Retrace.Token.Basic
import Retrace.Token.Error

namespace Retrace

/-- A token with its place in the source. -/
structure Lexeme where
  token : Token
  span : Span
  deriving DecidableEq, Repr

/-- What stands at one place of a text: a token, or text that is none. -/
abbrev LexItem := Except LexError Lexeme

namespace Lexer

/-- What was found at the head of a text, the text it was written in, and the text after
it. -/
structure Scan (α : Type) where
  found : Except LexFault α
  used : List Char
  rest : List Char

/-- Characters that begin a name. -/
def isNameStart (c : Char) : Bool :=
  Text.isLetter c || c = '_'

/-- Characters that continue a name. -/
def isNameRest (c : Char) : Bool :=
  Text.isLetter c || Text.isNumeral c || c = '_'

/-- Splits a text after its leading blanks and comments. A comment runs from two slashes
through the next line feed, or to the end of the text; the flag says that the text begins
inside one. -/
def splitTrivia : (comment : Bool) → List Char → List Char × List Char
  | _, [] => ([], [])
  | true, c :: cs =>
    let (skipped, rest) := splitTrivia (c != '\n') cs
    (c :: skipped, rest)
  | false, c :: cs =>
    if Text.isBlank c then
      let (skipped, rest) := splitTrivia false cs
      (c :: skipped, rest)
    else if c = '/' ∧ cs.head? = some '/' then
      let (skipped, rest) := splitTrivia true cs
      (c :: skipped, rest)
    else ([], c :: cs)

/-- Tokens of one character that no longer token begins with. -/
def single? : Char → Option Token
  | '(' => some (.mark .openParen)
  | ')' => some (.mark .closeParen)
  | '[' => some (.mark .openBracket)
  | ']' => some (.mark .closeBracket)
  | '{' => some (.mark .openBrace)
  | '}' => some (.mark .closeBrace)
  | ',' => some (.mark .comma)
  | ';' => some (.mark .semicolon)
  | '+' => some (.op .add)
  | '-' => some (.op .sub)
  | '*' => some (.op .mul)
  | '/' => some (.op .div)
  | '%' => some (.op .mod)
  | _ => none

/-- Characters that begin a token of two: the second character, the token of both, and
what the first is alone. -/
def double? : Char → Option (Char × Token × Except LexFault Token)
  | '=' => some ('=', .op .eq, .ok (.mark .assign))
  | '!' => some ('=', .op .ne, .error (.unexpectedChar '!'))
  | '<' => some ('=', .op .le, .ok (.op .lt))
  | '>' => some ('=', .op .ge, .ok (.op .gt))
  | '@' => some ('@', .op .append, .ok (.op .cons))
  | _ => none

/-- The character that a letter stands for after a backslash. -/
def unescape? : Char → Option Char
  | 'n' => some '\n'
  | 't' => some '\t'
  | 'r' => some '\r'
  | '\\' => some '\\'
  | '"' => some '"'
  | _ => none

/-- The body of a string literal through its closing quote. An unknown escape ends the
scan right after it. -/
def scanString : List Char → Scan (List Char)
  | [] => ⟨.error .unterminatedString, [], []⟩
  | c :: cs =>
    if c = '"' then ⟨.ok [], [c], cs⟩
    else if c = '\\' then
      match cs with
      | [] => ⟨.error .unterminatedString, [c], []⟩
      | e :: es =>
        match unescape? e with
        | none => ⟨.error (.invalidEscape e), [c, e], es⟩
        | some d =>
          let tail := scanString es
          ⟨tail.found.map (d :: ·), c :: e :: tail.used, tail.rest⟩
    else
      let tail := scanString cs
      ⟨tail.found.map (c :: ·), c :: tail.used, tail.rest⟩

/-- The number that ASCII digits write in base ten. -/
def decimal (digits : List Char) : Nat :=
  digits.foldl (fun n c => 10 * n + (c.toNat - '0'.toNat)) 0

/-- The least number that does not fit 64 bits with a sign. -/
def tooLarge : Nat :=
  0x8000000000000000

/-- A number that begins with a digit. It must fit 64 bits with a sign, and no letter may
follow it directly: such text is one piece, and no number. -/
def scanNumber (c : Char) (cs : List Char) : Scan Token :=
  let digits := c :: cs.takeWhile Char.isDigit
  let after := cs.dropWhile Char.isDigit
  let letters := after.takeWhile isNameRest
  let text := digits ++ letters
  let n := decimal digits
  let found :=
    if letters.isEmpty ∧ n < tooLarge then .ok (.int (Int64.ofNat n))
    else .error (.invalidNumber (String.ofList text))
  ⟨found, text, after.dropWhile isNameRest⟩

/-- The words that are no names. -/
def reserved : List (String × Token) :=
  [("define", .keyword .define), ("fn", .keyword .function), ("if", .keyword .conditional),
   ("else", .keyword .alternative), ("back", .keyword .back), ("then", .op .choice),
   ("and", .op .and), ("or", .op .or), ("xor", .op .xor), ("not", .keyword .not),
   ("true", .bool true), ("false", .bool false)]

/-- The token of a word. -/
def word (s : String) : Token :=
  (reserved.lookup s).getD (.name s)

/-- What stands at the head of a text that begins with neither blank nor comment. -/
def scan (c : Char) (cs : List Char) : Scan Token :=
  match single? c, double? c with
  | some token, _ => ⟨.ok token, [c], cs⟩
  | none, some (second, both, alone) =>
    if cs.head? = some second then ⟨.ok both, [c, second], cs.tail⟩
    else ⟨alone, [c], cs⟩
  | none, none =>
    if c = '"' then
      let body := scanString cs
      ⟨body.found.map (.str <| String.ofList ·), c :: body.used, body.rest⟩
    else if c.isDigit then scanNumber c cs
    else if isNameStart c then
      let text := c :: cs.takeWhile isNameRest
      ⟨.ok (word (String.ofList text)), text, cs.dropWhile isNameRest⟩
    else ⟨.error (.unexpectedChar c), [c], cs⟩

/-- The text that was used and the rest are the text that was given. -/
theorem scanString_append (cs : List Char) :
    (scanString cs).used ++ (scanString cs).rest = cs := by
  fun_induction scanString cs <;> simp_all +zetaDelta

/-- A scan splits its text in two. -/
theorem scan_append (c : Char) (cs : List Char) :
    (scan c cs).used ++ (scan c cs).rest = c :: cs := by
  unfold scan
  split
  · rfl
  · split
    · cases cs <;> simp_all
    · rfl
  · split
    · simp [scanString_append]
    · split
      · simp [scanNumber, List.takeWhile_append_dropWhile]
      · split
        · simp [List.takeWhile_append_dropWhile]
        · rfl

/-- A scan uses at least one character. -/
theorem used_ne_nil (c : Char) (cs : List Char) : (scan c cs).used ≠ [] := by
  unfold scan
  split
  · simp
  · split <;> simp
  · split
    · simp
    · split
      · simp [scanNumber]
      · split <;> simp

/-- The text after a token is shorter than the text the token was scanned from. -/
theorem scan_rest_length (c : Char) (cs : List Char) :
    (scan c cs).rest.length < (c :: cs).length := by
  have split := congrArg List.length (scan_append c cs)
  have used := List.length_pos_iff.2 (used_ne_nil c cs)
  rw [List.length_append] at split
  omega

/-- Skipping blanks and comments splits the text in two. -/
theorem splitTrivia_append (comment : Bool) (cs : List Char) :
    (splitTrivia comment cs).1 ++ (splitTrivia comment cs).2 = cs := by
  fun_induction splitTrivia comment cs <;> simp_all

/-- Skipping blanks and comments never makes a text longer. -/
theorem splitTrivia_length (comment : Bool) (cs : List Char) :
    (splitTrivia comment cs).2.length ≤ cs.length := by
  have split := congrArg List.length (splitTrivia_append comment cs)
  rw [List.length_append] at split
  omega

/-- The items of a text that begins at a byte offset. -/
def itemsFrom (offset : Nat) (cs : List Char) : List LexItem :=
  match h : (splitTrivia false cs).2 with
  | [] => []
  | c :: rest =>
    let start := offset + Text.width (splitTrivia false cs).1
    let piece := scan c rest
    let span := ⟨start, start + Text.width piece.used⟩
    let item :=
      match piece.found with
      | .ok token => .ok ⟨token, span⟩
      | .error fault => .error ⟨fault, span⟩
    item :: itemsFrom span.stop piece.rest
termination_by cs.length
decreasing_by
  have skipped := splitTrivia_length false cs
  rw [h] at skipped
  exact Nat.lt_of_lt_of_le (scan_rest_length c rest) skipped

end Lexer

/-- The tokens and lexical errors of a text. -/
def lex (text : String) : List LexItem :=
  Lexer.itemsFrom 0 text.toList

/-- The end of input, which stands behind the last character of a text. -/
def eofOf (text : String) : Lexeme :=
  ⟨.eof, .emptyAt (Text.width text.toList)⟩

/-- The tokens of a text and the end of input, or the first lexical error. -/
def tokenize (text : String) : Except LexError (List Lexeme) := do
  let lexemes ← (lex text).mapM id
  return lexemes ++ [eofOf text]

end Retrace
