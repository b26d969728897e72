/-
Spans: ranges of byte offsets in a source text.

* **`Span.join`** — the smallest span that holds two others.
-/

namespace Retrace

/-- The bytes from `start` up to but not including `stop`. -/
structure Span where
  start : Nat
  stop : Nat
  deriving DecidableEq, Repr, Inhabited

namespace Span

/-- The empty span at an offset. -/
def emptyAt (offset : Nat) : Span :=
  ⟨offset, offset⟩

/-- The smallest span that holds both. -/
def join (a b : Span) : Span :=
  ⟨min a.start b.start, max a.stop b.stop⟩

end Span

end Retrace
