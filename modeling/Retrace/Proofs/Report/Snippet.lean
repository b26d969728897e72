/-
A part of a line is underlined by as many carets as it has characters.

* **`readError?_usable`** — an error can be reported if its span begins and ends between characters.
* `Source.OnLine` — a span in the text that is shown of a line.
* `OnLine.parts` — it parts the text of the line in three.
* `snippet?_parts` — the snippet of a line in three parts.
* **`snippet_underlines`** — the carets stand under the characters of the span.

Design notes: a span is in bytes and carets are in characters. Both are widths of the same parts of
the line, so no offset is ever turned into a column. What is in front of the line has three
characters more than the number of the line.
-/
import Retrace.Proofs.Source.Spans
import Retrace.Report.Diagnostic

namespace Retrace

open Text

variable {src : Source} {span : Span} {lead piece back left middle right : List Char}
  {line : String}

namespace Report

theorem location?_valid (file : Option String) (style : Style)
    (valid : String.Pos.Raw.IsValid src.text ⟨span.start⟩) :
    location? file span src style = some (location file span src style) := by
  simp only [location, location?, Source.position?_valid valid, Option.bind_eq_bind,
    Option.bind_some, Option.pure_def, Option.getD_some]

theorem snippet?_usable (style : Style) (usable : span.Usable src.text) :
    snippet? src span style = some (snippet src span style) := by
  simp only [snippet, snippet?, Source.position?_valid usable.start,
    Source.position?_valid usable.stop, Option.bind_eq_bind, Option.bind_some, Option.pure_def,
    Option.getD_some]

/-- **An error with a usable span can be reported.** -/
theorem readError?_usable {error : ReadError} (file : Option String) (style : Style)
    (usable : error.span.Usable src.text) :
    readError? error src file style = some (readError error src file style) := by
  simp only [readError, readError?, location?_valid file style usable.start,
    snippet?_usable style usable, Option.bind_eq_bind, Option.bind_some, Option.pure_def,
    Option.getD_some]

end Report

namespace Source

/-- A span in a line of a text, which ends no later than what is shown of that line. -/
structure OnLine (src : Source) (span : Span) (lead piece back : List Char) (line : String) :
    Prop where
  here : LineIn src.chars lead piece back
  shown : src.line? (lead.count '\n' + 1) = some line
  begins : width lead ≤ span.start
  ends : span.stop ≤ width lead + line.utf8ByteSize

/-- What is shown of a line begins the line. -/
theorem LineIn.shown (here : LineIn src.chars lead piece back)
    (shown : src.line? (lead.count '\n' + 1) = some line) :
    ∃ returns, piece = line.toList ++ returns := by
  rw [line?_split here] at shown
  obtain rfl := Option.some.inj shown
  rw [String.toList_ofList]
  exact ⟨_, (List.rdropWhile_append_rtakeWhile).symm⟩

/-- **A span on a line parts what is shown of it in three.** -/
theorem OnLine.parts (on : OnLine src span lead piece back line) (usable : span.Usable src.text) :
    ∃ left middle right returns, line.toList = left ++ middle ++ right ∧
      piece = line.toList ++ returns ∧
      span = ⟨width (lead ++ left), width (lead ++ left) + width middle⟩ := by
  obtain ⟨front, middle, rest, split, rfl⟩ := Span.usable_iff.mp usable
  obtain ⟨returns, cut⟩ := on.here.shown on.shown
  have whole : front ++ (middle ++ rest) = lead ++ (piece ++ back) := by
    rw [← List.append_assoc, ← split, ← List.append_assoc]
    exact on.here.split
  obtain ⟨left, rfl⟩ := width_mono whole.symm on.begins
  have line_whole : lead ++ left ++ middle ++ rest = lead ++ line.toList ++ (returns ++ back) := by
    rw [← split, ← List.append_assoc, List.append_assoc lead, ← cut]
    exact on.here.split
  have upTo : width (lead ++ left ++ middle) ≤ width (lead ++ line.toList) := by
    rw [width_append _ middle, width_append lead line.toList, width_toList]
    exact on.ends
  obtain ⟨right, longer⟩ := width_mono line_whole upTo
  refine ⟨left, middle, right, returns, ?_, cut, rfl⟩
  rw [List.append_assoc lead, List.append_assoc lead] at longer
  exact List.append_cancel_left longer

end Source

namespace Report

/-- What is in front of a line in a snippet. -/
def margin (n : Nat) : String :=
  toString n ++ " | "

theorem length_margin (n : Nat) : (margin n).length = (toString n).length + 3 := by
  rw [margin, String.length_append]
  rfl

theorem feed_notMem_margin (n : Nat) : '\n' ∉ (margin n).toList := by
  intro member
  rw [margin, String.toList_append, List.mem_append] at member
  rcases member with digit | bar
  · have isDigit : ('\n').isDigit = true :=
      @Nat.isDigit_of_mem_toDigits 10 n '\n' (by decide) (by decide) (by simpa using digit)
    exact absurd isDigit (by decide)
  · exact absurd bar (by decide)

/-- **The snippet of a part of a line** that has text to both its sides. -/
theorem snippet?_parts
    (here : Source.LineIn src.chars lead (left ++ middle ++ right) back)
    (shown : src.line? (lead.count '\n' + 1) = some line) (filled : middle ≠ []) :
    snippet? src ⟨width (lead ++ left), width (lead ++ left) + width middle⟩ .plain =
      some (margin (lead.count '\n' + 1) ++ line ++ "\n" ++
        repeated ' ' ((margin (lead.count '\n' + 1)).length + left.length) ++
        repeated '^' middle.length) := by
  have inside : '\n' ∉ left ++ middle := fun member => here.inside (List.mem_append_left _ member)
  have start : src.position? (width (lead ++ left)) =
      some ⟨lead.count '\n' + 1, left.length + 1⟩ := by
    refine @Source.position?_split src lead left (middle ++ right ++ back) ?_ here.head
      fun member => inside (List.mem_append_left _ member)
    rw [here.split]
    simp only [List.append_assoc]
  have stop : src.position? (width (lead ++ left) + width middle) =
      some ⟨lead.count '\n' + 1, (left ++ middle).length + 1⟩ := by
    rw [← width_append, List.append_assoc]
    refine @Source.position?_split src lead (left ++ middle) (right ++ back) ?_ here.head inside
    rw [here.split]
    simp only [List.append_assoc]
  have carets : max 1 ((left ++ middle).length + 1 - (left.length + 1)) = middle.length := by
    have := List.length_pos_iff.mpr filled
    rw [List.length_append]
    omega
  have padding : (toString (lead.count '\n' + 1)).length + 3 + (left.length + 1) - 1 =
      (margin (lead.count '\n' + 1)).length + left.length := by
    rw [length_margin, ← Nat.add_assoc, Nat.add_sub_cancel]
  have bar : toString (lead.count '\n' + 1) ++ " |" ++ " " = margin (lead.count '\n' + 1) := by
    rw [String.append_assoc]
    rfl
  simp only [snippet?, start, stop, shown, Style.paint, Style.plain, Bool.false_eq_true, if_true,
    if_false, carets, padding, bar, Option.bind_eq_bind, Option.bind_some, Option.pure_def,
    Option.getD_some]

/-- **The carets stand under the span.** The first line of a snippet is what is shown of the line
behind its number, and the carets are under the characters of the span, which are those of the line
from the byte on at which the span begins. -/
theorem snippet_underlines (src : Source) (span : Span) (lead piece back : List Char)
    (line : String) (on : src.OnLine span lead piece back line)
    (start : String.Pos.Raw.IsValid src.text ⟨span.start⟩)
    (stop : String.Pos.Raw.IsValid src.text ⟨span.stop⟩) (filled : span.start < span.stop) :
    ∃ k m, let first := margin (lead.count '\n' + 1) ++ line
      let n := (margin (lead.count '\n' + 1)).length + k
      snippet? src span .plain = some (first ++ "\n" ++ repeated ' ' n ++ repeated '^' m) ∧
        snippet src span .plain = first ++ "\n" ++ repeated ' ' n ++ repeated '^' m ∧
        '\n' ∉ first.toList ∧
        m = (src.spanText span).length ∧ 0 < m ∧
        (first.toList.drop n).take m = (src.spanText span).toList ∧
        width lead + width (line.toList.take k) = span.start := by
  have usable : span.Usable src.text := Span.usable_of_valid filled.le start stop
  obtain ⟨left, middle, right, returns, cut, whole, rfl⟩ := on.parts usable
  have wide : middle ≠ [] := by
    rintro rfl
    exact absurd filled (Nat.lt_irrefl _)
  rw [cut, List.append_assoc _ right] at whole
  have here : Source.LineIn src.chars lead (left ++ middle ++ (right ++ returns)) back :=
    whole ▸ on.here
  have found := snippet?_parts here on.shown wide
  have text : src.spanText ⟨width (lead ++ left), width (lead ++ left) + width middle⟩ =
      String.ofList middle := by
    refine @Source.spanText_split src (lead ++ left) middle (right ++ returns ++ back) ?_
    rw [here.split]
    simp only [List.append_assoc]
  refine ⟨left.length, middle.length, found, ?_, ?_, ?_, List.length_pos_iff.mpr wide, ?_, ?_⟩
  · rw [snippet, found, Option.getD_some]
  · rw [String.toList_append, List.mem_append, cut]
    rintro (member | member)
    · exact feed_notMem_margin _ member
    · exact here.inside (by simp only [List.mem_append] at member ⊢; tauto)
  · rw [text, String.length_ofList]
  · rw [text, String.toList_ofList, String.toList_append, cut, ← String.length_toList,
      List.drop_length_add_append, List.append_assoc, List.drop_left, List.take_left]
  · rw [cut, List.append_assoc, List.take_left, width_append]

/-- On a line with two characters of two bytes each, three carets stand under five bytes. -/
theorem snippet_underlines_umlauts :
    let src : Source := ⟨"a\nfä=ö\r\nb"⟩
    src.OnLine ⟨3, 8⟩ ['a', '\n'] ['f', 'ä', '=', 'ö', '\r'] ['\n', 'b'] "fä=ö" ∧
      String.Pos.Raw.IsValid src.text ⟨3⟩ ∧ String.Pos.Raw.IsValid src.text ⟨8⟩ ∧
      snippet? src ⟨3, 8⟩ .plain = some "2 | fä=ö\n     ^^^" := by
  intro src
  have chars : src.chars = ['a', '\n', 'f', 'ä', '=', 'ö', '\r', '\n', 'b'] := by decide
  have here : Source.LineIn src.chars ['a', '\n'] ['f', 'ä', '=', 'ö', '\r'] ['\n', 'b'] :=
    ⟨chars, .inr ⟨['a'], rfl⟩, by decide, .inr ⟨['b'], rfl⟩⟩
  have on : src.OnLine ⟨3, 8⟩ ['a', '\n'] ['f', 'ä', '=', 'ö', '\r'] ['\n', 'b'] "fä=ö" :=
    ⟨here, Source.line?_split here, by decide, by decide⟩
  have start : String.Pos.Raw.IsValid src.text ⟨3⟩ :=
    isValid_iff.mpr ⟨['a', '\n', 'f'], ['ä', '=', 'ö', '\r', '\n', 'b'], chars, rfl⟩
  have stop : String.Pos.Raw.IsValid src.text ⟨8⟩ :=
    isValid_iff.mpr ⟨['a', '\n', 'f', 'ä', '=', 'ö'], ['\r', '\n', 'b'], chars, rfl⟩
  refine ⟨on, start, stop, ?_⟩
  obtain ⟨k, m, found, _, _, length, _, _, column⟩ :=
    snippet_underlines src ⟨3, 8⟩ _ _ _ _ on start stop (by decide)
  have three : (src.spanText ⟨3, 8⟩).length = 3 := by decide
  obtain rfl : m = 3 := length.trans three
  obtain rfl : k = 1 := by
    match k with
    | 0 => exact absurd column (by decide)
    | 1 => rfl
    | k + 2 =>
      have behind : width (['f', 'ä', '=', 'ö'].take (k + 2)) = 1 := Nat.add_left_cancel column
      rw [List.take_succ_cons, List.take_succ_cons, width, width] at behind
      have : ('ä').utf8Size = 2 := by decide
      omega
  exact found

end Report

end Retrace
