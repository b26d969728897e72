/-
Byte offsets into text: the width of characters in UTF-8, and cutting a text at a
byte offset.

* **`width`** — the number of bytes of a text.
* **`takeBytes`**, **`dropBytes`** — the text before and after an offset.
* **`slice?`** — the text between two offsets.

Design notes:
* Text is a list of characters, so a cut never falls inside one. To take or to drop
  bytes, an offset inside a character counts as the offset after it, and an offset
  past the end as the end. A slice is not so lenient: its offsets have to be between
  characters.
-/

namespace Retrace.Text

/-- The number of bytes of a text in UTF-8. -/
def width : List Char → Nat
  | [] => 0
  | c :: cs => c.utf8Size + width cs

/-- The characters that begin before a byte offset. -/
def takeBytes : Nat → List Char → List Char
  | _, [] => []
  | 0, _ :: _ => []
  | n + 1, c :: cs => c :: takeBytes (n + 1 - c.utf8Size) cs

/-- The characters that begin at or after a byte offset. -/
def dropBytes : Nat → List Char → List Char
  | _, [] => []
  | 0, c :: cs => c :: cs
  | n + 1, c :: cs => dropBytes (n + 1 - c.utf8Size) cs

/-- A text cut in two at a byte offset, unless that is inside a character or past the end. -/
def cut? : Nat → List Char → Option (List Char × List Char)
  | 0, cs => some ([], cs)
  | _ + 1, [] => none
  | n + 1, c :: cs =>
    if n + 1 < c.utf8Size then none
    else (cut? (n + 1 - c.utf8Size) cs).map fun (front, back) => (c :: front, back)

/-- The text from one byte offset up to another, unless one of them is inside a character or past
the end, or they are in the wrong order. -/
def slice? (start stop : Nat) (cs : List Char) : Option (List Char) := do
  let (front, _) ← cut? stop cs
  let (_, middle) ← cut? start front
  return middle

end Retrace.Text
