/-
Spans that can be used to cut a text.

* `Span.Usable` — a span that begins and ends between characters of a text.
* `Span.usable_iff` — such a span is the middle of a text in three parts.
* `Span.Within`, `Span.Upto` — a span inside another, and one that begins and ends no later than
  another.
* `Source.spanText_split` — the text of the middle part.
* **`Source.spanText?_usable`** — a usable span has a text.
-/
import Mathlib.Order.MinMax
import Retrace.Proofs.Source.Lines

namespace Retrace

open Text

variable {span a b : Span} {text : String} {src : Source} {n : Nat} {front middle back : List Char}

namespace Span

/-- A span that begins and ends between characters of a text. -/
structure Usable (text : String) (span : Span) : Prop where
  order : span.start ≤ span.stop
  inside : span.stop ≤ text.utf8ByteSize
  start : String.Pos.Raw.IsValid text ⟨span.start⟩
  stop : String.Pos.Raw.IsValid text ⟨span.stop⟩

/-- A span inside another. -/
structure Within (a b : Span) : Prop where
  start : b.start ≤ a.start
  stop : a.stop ≤ b.stop

theorem Within.refl (a : Span) : a.Within a :=
  ⟨Nat.le_refl _, Nat.le_refl _⟩

theorem join_join (a b : Span) : a.join (a.join b) = a.join b := by
  simp only [join, mk.injEq]
  omega

/-- A span that begins no later than another and ends no later. -/
structure Upto (a b : Span) : Prop where
  start : a.start ≤ b.start
  stop : a.stop ≤ b.stop

theorem Upto.refl (a : Span) : a.Upto a :=
  ⟨Nat.le_refl _, Nat.le_refl _⟩

theorem Upto.trans {a b c : Span} (first : a.Upto b) (second : b.Upto c) : a.Upto c :=
  ⟨first.start.trans second.start, first.stop.trans second.stop⟩

theorem usable_of_valid (order : span.start ≤ span.stop)
    (start : String.Pos.Raw.IsValid text ⟨span.start⟩)
    (stop : String.Pos.Raw.IsValid text ⟨span.stop⟩) : span.Usable text :=
  ⟨order, stop.le_rawEndPos, start, stop⟩

/-- A usable span is the middle of a text in three parts. -/
theorem usable_iff : span.Usable text ↔ ∃ front middle back,
    text.toList = front ++ middle ++ back ∧ span = ⟨width front, width front + width middle⟩ := by
  constructor
  · rintro ⟨order, _, start, stop⟩
    obtain ⟨front, rest, split, first⟩ := isValid_iff.mp start
    obtain ⟨longer, back, split', last⟩ := isValid_iff.mp stop
    rw [← first, ← last] at order
    obtain ⟨middle, rfl⟩ := width_mono (split.symm.trans split') order
    refine ⟨front, middle, back, split', ?_⟩
    rw [← width_append, last, first]
  · rintro ⟨front, middle, back, split, rfl⟩
    refine usable_of_valid (Nat.le_add_right _ _) ?_ ?_
    · exact isValid_iff.mpr ⟨front, middle ++ back, by rw [split, List.append_assoc], rfl⟩
    · exact isValid_iff.mpr ⟨front ++ middle, back, split, width_append front middle⟩

/-- An empty span where a usable span ends. -/
theorem Usable.emptyAt (h : span.Usable text) : (emptyAt span.stop).Usable text :=
  usable_of_valid (Nat.le_refl _) h.stop h.stop

/-- The smallest span that holds two usable spans. -/
theorem Usable.join (ha : a.Usable text) (hb : b.Usable text) : (a.join b).Usable text := by
  obtain ⟨order, _, start, stop⟩ := ha
  obtain ⟨_, _, start', stop'⟩ := hb
  have ordered : (a.join b).start ≤ (a.join b).stop :=
    (Nat.min_le_left _ _).trans (order.trans (Nat.le_max_left _ _))
  refine usable_of_valid ordered ?_ ?_
  · rcases min_choice a.start b.start with same | same
    · rwa [Span.join, same]
    · rwa [Span.join, same]
  · rcases max_choice a.stop b.stop with same | same
    · rwa [Span.join, same]
    · rwa [Span.join, same]

end Span

namespace Source

/-- The text of a span that is cut out of the middle of a text. -/
theorem spanText_split (split : src.chars = front ++ middle ++ back) :
    src.spanText ⟨width front, width front + width middle⟩ = String.ofList middle := by
  rw [spanText, split, ← width_append, takeBytes_width, dropBytes_width]

theorem spanText_middle (front middle back : List Char) :
    spanText ⟨String.ofList (front ++ middle ++ back)⟩
      ⟨width front, width front + width middle⟩ = String.ofList middle :=
  spanText_split String.toList_ofList

/-- **A usable span has a text.** -/
theorem spanText?_usable (usable : span.Usable src.text) :
    src.spanText? span = some (src.spanText span) := by
  obtain ⟨front, middle, back, split, rfl⟩ := Span.usable_iff.mp usable
  have split : src.chars = front ++ middle ++ back := split
  have stop : min (width front + width middle) src.size = width front + width middle := by
    rw [size, split, width_append, width_append]
    exact Nat.min_eq_left (Nat.le_add_right _ _)
  have start : min (width front) (width front + width middle) = width front :=
    Nat.min_eq_left (Nat.le_add_right _ _)
  have slice : slice? (width front) (width front + width middle) src.chars = some middle := by
    rw [split]
    exact slice?_width front middle back
  simp only [spanText?, stop, start, slice, spanText_split split, Option.bind_eq_bind,
    Option.bind_some, Option.pure_def]

/-- An offset between characters has a position. -/
theorem position?_valid (valid : String.Pos.Raw.IsValid src.text ⟨n⟩) :
    src.position? n = some (src.position n) := by
  rw [position, position?_eq (.inl valid), Option.getD_some]

end Source

end Retrace
