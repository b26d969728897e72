/-
The style of reports: with or without color.

* **`Style.paint`** — a piece of text in a color.

Design notes:
* Color is switched on before a piece of text and off after it, so pieces never nest.
-/

namespace Retrace

/-- The colors and weights that reports use. -/
inductive Ink
  | red
  | cyan
  | yellow
  | bold
  deriving DecidableEq, Repr

/-- The terminal code that switches to an ink. -/
def Ink.code : Ink → String
  | .red => "\x1b[31m"
  | .cyan => "\x1b[36m"
  | .yellow => "\x1b[33m"
  | .bold => "\x1b[1m"

/-- How reports are written. -/
structure Style where
  color : Bool
  deriving DecidableEq, Repr

namespace Style

/-- Reports as plain text. -/
def plain : Style :=
  ⟨false⟩

/-- A piece of text in an ink, if there is color. -/
def paint (style : Style) (ink : Ink) (text : String) : String :=
  if style.color then ink.code ++ text ++ "\x1b[0m" else text

end Style

end Retrace
