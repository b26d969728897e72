/-
Positions and lines of a source.

* `Search.Places` — what a search says of an array, and `inArray_places`: in an array in
  ascending order it is so.
* `Source.lineStarts_sorted` — the table of the offsets at which lines begin is in order.
* `Source.IsHead` — a first part of a text, up to where a line begins.
* `lineStarts_head` — the offset at which that line begins is in the table, at the number of
  line feeds before it.
* `position?_split` — the position behind a first part of a text, of which the last line is
  known.
* `line?_split` — the text of a line, given what is before it and behind it.
* **`positions_exact`** — the position of every offset between characters, and the text of every
  line.

Design notes: everything is said of the characters before an offset. A text is cut where its last
line begins, and the table is only used at such cuts.
-/
import Mathlib.Data.List.DropRight
import Retrace.Proofs.Text.Bytes
import Retrace.Source.Basic

namespace Retrace

/-! ### Binary search -/

namespace Search

variable {xs : Array Nat} {x low high : Nat}

/-- What a search says of an array: the number is at an index, or it is between those before the
index and those behind it. -/
def Places (xs : Array Nat) (x : Nat) : Search → Prop
  | found index => xs[index]? = some x
  | missing index => index ≤ xs.size ∧ (∀ (i : Nat) (h : i < xs.size), i < index → xs[i] < x) ∧
      ∀ (i : Nat) (h : i < xs.size), index ≤ i → x < xs[i]

/-- In an array in ascending order, what is before the indices that are searched is smaller than
the number, and what is behind them is larger. -/
theorem between_places (sorted : ∀ (i j : Nat) (h : j < xs.size) (less : i < j), xs[i] < xs[j])
    (order : low ≤ high) (below : ∀ (i : Nat) (h : i < xs.size), i < low → xs[i] < x)
    (above : ∀ (i : Nat) (h : i < xs.size), high ≤ i → x < xs[i]) (inside : high ≤ xs.size) :
    (between xs x low high inside).Places xs x := by
  fun_induction between xs x low high inside with
  | case1 low high inside left middle same =>
    exact Array.getElem?_eq_some_iff.mpr ⟨by omega, same⟩
  | case2 low high inside left middle other smaller ih =>
    refine ih (by omega) (fun i h before => ?_) above
    rcases Nat.lt_or_eq_of_le (Nat.le_of_lt_succ before) with less | rfl
    · exact Nat.lt_trans (sorted i middle (by omega) less) smaller
    · exact smaller
  | case3 low high inside left middle other larger ih =>
    refine ih (by omega) below (fun i h behind => ?_)
    have here : x < xs[middle] := by omega
    rcases Nat.lt_or_eq_of_le behind with less | rfl
    · exact Nat.lt_trans here (sorted middle i h less)
    · exact here
  | case4 low high inside done =>
    obtain rfl : low = high := by omega
    exact ⟨inside, below, above⟩

/-- **A search in an array in ascending order finds the place of the number.** -/
theorem inArray_places
    (sorted : ∀ (i j : Nat) (h : j < xs.size) (less : i < j), xs[i] < xs[j]) :
    (inArray xs x).Places xs x :=
  between_places sorted (Nat.zero_le _) (fun _ _ before => absurd before (Nat.not_lt_zero _))
    (fun _ h behind => absurd h (Nat.not_lt_of_le behind)) (Nat.le_refl _)

end Search

/-- A position before another: on an earlier line, or further left on the same line. -/
def Position.Before (p q : Position) : Prop :=
  p.line < q.line ∨ p.line = q.line ∧ p.column < q.column

namespace Source

open Text

variable {src : Source} {cs lead piece back : List Char} {offset : Nat}

/-! ### The table -/

theorem startsFrom_append (offset : Nat) (front back : List Char) :
    startsFrom offset (front ++ back) =
      startsFrom offset front ++ startsFrom (offset + width front) back := by
  fun_induction startsFrom offset front with
  | case1 offset => rw [List.nil_append, List.nil_append, width, Nat.add_zero]
  | case2 offset cs ih =>
    rw [List.cons_append, startsFrom, if_pos rfl, ih, List.cons_append, width, ← Nat.add_assoc]
    rfl
  | case3 offset c cs other ih =>
    rw [List.cons_append, startsFrom, if_neg other, ih, width, ← Nat.add_assoc]

theorem length_startsFrom (offset : Nat) (cs : List Char) :
    (startsFrom offset cs).length = cs.count '\n' := by
  fun_induction startsFrom offset cs with
  | case1 offset => rfl
  | case2 offset cs ih => rw [List.length_cons, ih, List.count_cons_self]
  | case3 offset c cs other ih => rw [ih, List.count_cons_of_ne other]

theorem startsFrom_eq_nil (inside : '\n' ∉ cs) : startsFrom offset cs = [] := by
  rw [← List.length_eq_zero_iff, length_startsFrom, List.count_eq_zero]
  exact inside

/-- A line begins behind a character of the text before it. -/
theorem startsFrom_range (offset : Nat) (cs : List Char) :
    ∀ start ∈ startsFrom offset cs, offset < start ∧ start ≤ offset + width cs := by
  fun_induction startsFrom offset cs with
  | case1 offset => nofun
  | case2 offset cs ih =>
    intro start member
    have wide : width ('\n' :: cs) = 1 + width cs := rfl
    rcases List.mem_cons.mp member with rfl | later
    · omega
    · have := ih start later
      omega
  | case3 offset c cs other ih =>
    have size := c.utf8Size_pos
    intro start member
    have := ih start member
    rw [width]
    omega

theorem startsFrom_pairwise (offset : Nat) (cs : List Char) :
    (startsFrom offset cs).Pairwise (· < ·) := by
  fun_induction startsFrom offset cs with
  | case1 offset => exact .nil
  | case2 offset cs ih =>
    exact List.pairwise_cons.mpr ⟨fun start member => (startsFrom_range _ cs start member).1, ih⟩
  | case3 offset c cs other ih => exact ih

/-- **The table is in order.** -/
theorem lineStarts_sorted (src : Source) (i j : Nat) (h : j < src.lineStarts.size) (less : i < j) :
    src.lineStarts[i] < src.lineStarts[j] := by
  have all : (0 :: startsFrom 0 src.chars).Pairwise (· < ·) :=
    List.pairwise_cons.mpr ⟨fun start member => (startsFrom_range 0 _ start member).1,
      startsFrom_pairwise 0 _⟩
  exact List.pairwise_iff_getElem.mp all i j (Nat.lt_trans less h) h less

theorem lineCount_eq (src : Source) : src.lineCount = src.chars.count '\n' + 1 := by
  rw [lineCount, lineStarts, List.size_toArray, List.length_cons, length_startsFrom]

/-! ### Where lines begin -/

/-- What is before a line: nothing, or text that ends with a line feed. -/
def IsHead (lead : List Char) : Prop :=
  lead = [] ∨ ∃ front, lead = front ++ ['\n']

/-- The offset at which a line begins is in the table. -/
theorem lineStarts_head (split : src.chars = lead ++ back) (head : IsHead lead) :
    src.lineStarts[lead.count '\n']? = some (width lead) := by
  rw [lineStarts, List.getElem?_toArray, split, startsFrom_append]
  rcases head with rfl | ⟨front, rfl⟩
  · rfl
  · have last : startsFrom 0 (front ++ ['\n']) = startsFrom 0 front ++ [width front + 1] := by
      rw [startsFrom_append, Nat.zero_add]
      rfl
    have count : (front ++ ['\n']).count '\n' = (startsFrom 0 front).length + 1 := by
      rw [List.count_append, length_startsFrom]
      rfl
    rw [last, count, List.getElem?_cons_succ, List.append_assoc,
      List.getElem?_append_right (Nat.le_refl _), Nat.sub_self, width_append]
    rfl

/-- A line that begins no later than an offset is the one that it is in, if all others that do
begin before it. -/
theorem lineIndex?_eq {index : Nat} (bound : index < src.lineStarts.size)
    (begun : src.lineStarts[index] ≤ offset)
    (later : ∀ (i : Nat) (h : i < src.lineStarts.size), index < i → offset < src.lineStarts[i]) :
    src.lineIndex? offset = some index := by
  have sorted := src.lineStarts_sorted
  have places : (Search.inArray src.lineStarts offset).Places src.lineStarts offset :=
    Search.inArray_places sorted
  unfold lineIndex?
  cases result : Search.inArray src.lineStarts offset with
  | found i =>
    rw [result] at places
    obtain ⟨h, same⟩ := Array.getElem?_eq_some_iff.mp places
    rcases Nat.lt_trichotomy i index with less | rfl | more
    · have := sorted i index bound less
      omega
    · rfl
    · have := later i h more
      omega
  | missing i =>
    rw [result] at places
    obtain ⟨limit, before, behind⟩ := places
    have past : index < i := Nat.lt_of_not_le fun le => by
      have := behind index bound le
      omega
    have next : i ≤ index + 1 := Nat.le_of_not_lt fun more => by
      have := before (index + 1) (by omega) more
      have := later (index + 1) (by omega) (Nat.lt_succ_self _)
      omega
    obtain rfl : i = index + 1 := by omega
    rfl

/-! ### Positions -/

/-- **The position behind a first part of a text**, of which the last line is known. -/
theorem position?_split (split : src.chars = lead ++ piece ++ back) (head : IsHead lead)
    (inside : '\n' ∉ piece) :
    src.position? (width (lead ++ piece)) = some ⟨lead.count '\n' + 1, piece.length + 1⟩ := by
  have size : min (width (lead ++ piece)) src.size = width (lead ++ piece) := by
    rw [Source.size, split, width_append (lead ++ piece)]
    exact Nat.min_eq_left (Nat.le_add_right _ _)
  have start := lineStarts_head (split.trans (List.append_assoc ..)) head
  have wide : width (lead ++ piece) = width lead + width piece := width_append lead piece
  have table : src.lineStarts =
      ((0 :: startsFrom 0 lead) ++ startsFrom (width (lead ++ piece)) back).toArray := by
    rw [lineStarts, split, startsFrom_append, startsFrom_append, startsFrom_eq_nil inside,
      List.append_nil, Nat.zero_add]
    rfl
  have index : src.lineIndex? (width (lead ++ piece)) = some (lead.count '\n') := by
    obtain ⟨bound, here⟩ := Array.getElem?_eq_some_iff.mp start
    refine lineIndex?_eq bound (by omega) fun i h more => ?_
    -- the lines behind this one begin in what is behind the offset
    have later : src.lineStarts[i] ∈ startsFrom (width (lead ++ piece)) back := by
      simp only [table, List.getElem_toArray]
      rw [List.getElem_append_right (by rw [List.length_cons, length_startsFrom]; exact more)]
      exact List.getElem_mem _
    exact (startsFrom_range _ _ _ later).1
  have slice : slice? (width lead) (width (lead ++ piece)) src.chars = some piece := by
    rw [split, wide]
    exact slice?_width lead piece back
  simp only [position?, size, index, start, slice, Option.bind_eq_bind, Option.bind_some,
    Option.pure_def]

/-- What is before the last line of a text. -/
theorem isHead_rdropWhile (cs : List Char) : IsHead (cs.rdropWhile (· ≠ '\n')) := by
  have last := List.rdropWhile_last_not (· ≠ '\n') cs
  rcases List.eq_nil_or_concat' (cs.rdropWhile (· ≠ '\n')) with nothing | ⟨front, c, split⟩
  · exact .inl nothing
  · rw [split] at last ⊢
    have feed : c = '\n' := by simpa using last
    exact .inr ⟨front, by rw [feed]⟩

/-- The position behind a first part of a text. -/
theorem position?_before {before : List Char} (split : src.chars = before ++ back) :
    src.position? (width before) =
      some ⟨1 + before.count '\n', 1 + (before.rtakeWhile (· ≠ '\n')).length⟩ := by
  have parts : before.rdropWhile (· ≠ '\n') ++ before.rtakeWhile (· ≠ '\n') = before :=
    List.rdropWhile_append_rtakeWhile
  have inside : '\n' ∉ before.rtakeWhile (· ≠ '\n') := fun member => by
    simpa using List.mem_rtakeWhile_imp member
  have found := position?_split (parts.symm ▸ split) (isHead_rdropWhile before) inside
  have count : (before.rdropWhile (· ≠ '\n')).count '\n' = before.count '\n' := by
    conv_rhs => rw [← parts, List.count_append, List.count_eq_zero_of_not_mem inside, Nat.add_zero]
  rw [parts, count] at found
  rw [found, Nat.add_comm 1, Nat.add_comm 1]

/-! ### Lines -/

/-- A line of a text, with what is before it and behind it. -/
structure LineIn (cs lead piece back : List Char) : Prop where
  split : cs = lead ++ piece ++ back
  head : IsHead lead
  inside : '\n' ∉ piece
  tail : back = [] ∨ ∃ rest, back = '\n' :: rest

/-- There is a line behind every number of line feeds that a text has. -/
theorem exists_lineIn {n : Nat} (le : n ≤ cs.count '\n') :
    ∃ lead piece back, LineIn cs lead piece back ∧ lead.count '\n' = n := by
  induction n generalizing cs with
  | zero =>
    by_cases feed : '\n' ∈ cs
    · obtain ⟨piece, rest, rfl, inside⟩ := List.eq_append_cons_of_mem feed
      exact ⟨[], piece, '\n' :: rest, ⟨rfl, .inl rfl, inside, .inr ⟨rest, rfl⟩⟩, rfl⟩
    · exact ⟨[], cs, [], ⟨(List.append_nil cs).symm, .inl rfl, feed, .inl rfl⟩, rfl⟩
  | succ n ih =>
    have feed : '\n' ∈ cs := List.count_pos_iff.mp (by omega)
    obtain ⟨first, rest, rfl, inside⟩ := List.eq_append_cons_of_mem feed
    have first_none := List.count_eq_zero_of_not_mem inside
    rw [List.count_append, List.count_cons_self, first_none] at le
    have fewer : n ≤ rest.count '\n' := by omega
    obtain ⟨lead, piece, back, ⟨rfl, head, inside', tail⟩, count⟩ := ih fewer
    refine ⟨first ++ '\n' :: lead, piece, back, ⟨by simp, ?_, inside', tail⟩, ?_⟩
    · rcases head with rfl | ⟨front, rfl⟩
      · exact .inr ⟨first, rfl⟩
      · exact .inr ⟨first ++ '\n' :: front, by simp⟩
    · rw [List.count_append, List.count_cons_self, first_none, count, Nat.zero_add]

/-- The slice of a line is the line, without the carriage returns at its end. -/
theorem line?_split (line : LineIn src.chars lead piece back) :
    src.line? (lead.count '\n' + 1) =
      some (String.ofList (piece.rdropWhile (· = '\r'))) := by
  obtain ⟨split, head, inside, tail⟩ := line
  have start := lineStarts_head (split.trans (List.append_assoc ..)) head
  have inRange : ¬(lead.count '\n' + 1 = 0 ∨ src.lineCount < lead.count '\n' + 1) := by
    obtain ⟨bound, _⟩ := Array.getElem?_eq_some_iff.mp start
    rw [lineCount]
    omega
  have stop : (src.lineStarts[lead.count '\n' + 1]?.map (· - 1)).getD src.size =
      width lead + width piece := by
    rcases tail with rfl | ⟨rest, rfl⟩
    · -- behind the last line there is none
      have past : src.lineStarts[lead.count '\n' + 1]? = none := by
        rw [Array.getElem?_eq_none_iff, ← lineCount, lineCount_eq, split, List.append_nil,
          List.count_append, List.count_eq_zero_of_not_mem inside, Nat.add_zero]
      rw [past, size, split, List.append_nil, ← width_append]
      rfl
    · have next := @lineStarts_head src (lead ++ piece ++ ['\n']) rest
        (by rw [split, List.append_assoc _ _ rest]; rfl) (.inr ⟨_, rfl⟩)
      have count : (lead ++ piece ++ ['\n']).count '\n' = lead.count '\n' + 1 := by
        rw [List.count_append, List.count_append, List.count_eq_zero_of_not_mem inside]
        rfl
      rw [count] at next
      rw [next, width_append, width_append]
      rfl
  have slice : slice? (width lead) (width lead + width piece) src.chars = some piece := by
    rw [split]
    exact slice?_width lead piece back
  simp only [line?, if_neg inRange, Nat.add_sub_cancel, start, stop, slice, Option.bind_eq_bind,
    Option.bind_some, Option.pure_def]
  rfl

theorem length_splitOn (cs : List Char) : (cs.splitOn '\n').length = cs.count '\n' + 1 := by
  induction cs with
  | nil => rfl
  | cons c cs ih =>
    rw [List.splitOn_cons_eq_if_modifyHead, List.count_cons]
    split
    · next feed => rw [List.length_cons, ih]
    · next other => rw [List.length_modifyHead, ih, Nat.add_zero]

/-- A line is a piece of the text between its line feeds. -/
theorem splitOn_line (line : LineIn cs lead piece back) :
    (cs.splitOn '\n')[lead.count '\n']? = some piece := by
  obtain ⟨rfl, head, inside, tail⟩ := line
  have first : ((piece ++ back).splitOn '\n')[0]? = some piece := by
    rcases tail with rfl | ⟨rest, rfl⟩
    · rw [List.append_nil, List.splitOn_eq_singleton inside]
      rfl
    · rw [List.splitOn_append_cons_self_of_not_mem inside]
      rfl
  rcases head with rfl | ⟨front, rfl⟩
  · exact first
  · have count : (front ++ ['\n']).count '\n' = (front.splitOn '\n').length := by
      rw [List.count_append, length_splitOn]
      rfl
    have split : front ++ ['\n'] ++ piece ++ back = front ++ '\n' :: (piece ++ back) := by simp
    rw [count, split, List.splitOn_append_cons_self, List.getElem?_append_right (Nat.le_refl _),
      Nat.sub_self, first]

/-! ### Positions in order -/

/-- The characters before an offset that is between characters, or past the end. -/
theorem before_cases (between : String.Pos.Raw.IsValid src.text ⟨offset⟩ ∨ src.size ≤ offset) :
    ∃ back, src.chars = takeBytes offset src.chars ++ back ∧
      min offset src.size = width (takeBytes offset src.chars) := by
  rcases between with valid | past
  · obtain ⟨front, back, split, rfl⟩ := isValid_iff.mp valid
    have split : src.chars = front ++ back := split
    have inRange : width front ≤ src.size := by
      rw [size, split, width_append]
      exact Nat.le_add_right _ _
    rw [split, takeBytes_width]
    exact ⟨back, rfl, Nat.min_eq_left inRange⟩
  · rw [takeBytes_all past]
    exact ⟨[], (List.append_nil _).symm, Nat.min_eq_right past⟩

theorem position?_clamped (src : Source) (offset : Nat) :
    src.position? (min offset src.size) = src.position? offset := by
  rw [position?, position?, Nat.min_assoc, Nat.min_self]

/-- The position of an offset that is between characters, or past the end. -/
theorem position?_eq (between : String.Pos.Raw.IsValid src.text ⟨offset⟩ ∨ src.size ≤ offset) :
    src.position? offset = some ⟨1 + (takeBytes offset src.chars).count '\n',
      1 + ((takeBytes offset src.chars).rtakeWhile (· ≠ '\n')).length⟩ := by
  obtain ⟨back, split, clamped⟩ := before_cases between
  rw [← position?_clamped, clamped]
  exact position?_before split

/-- With more text before it, a place is further on. -/
theorem before_append (front : List Char) {more : List Char} (filled : more ≠ []) :
    Position.Before ⟨1 + front.count '\n', 1 + (front.rtakeWhile (· ≠ '\n')).length⟩
      ⟨1 + (front ++ more).count '\n', 1 + ((front ++ more).rtakeWhile (· ≠ '\n')).length⟩ := by
  rw [List.count_append]
  by_cases feed : '\n' ∈ more
  · have := List.count_pos_iff.mpr feed
    exact .inl (by simp only; omega)
  · have longer : (front ++ more).rtakeWhile (· ≠ '\n') = front.rtakeWhile (· ≠ '\n') ++ more := by
      have all : ∀ c ∈ more.reverse, decide (c ≠ '\n') = true := fun c member =>
        decide_eq_true fun same => feed (same ▸ List.mem_reverse.mp member)
      rw [List.rtakeWhile, List.rtakeWhile, List.reverse_append,
        List.takeWhile_append_of_pos all, List.reverse_append, List.reverse_reverse]
    have := List.length_pos_iff.mpr filled
    refine .inr ⟨?_, ?_⟩
    · simp only [List.count_eq_zero_of_not_mem feed, Nat.add_zero]
    · simp only [longer, List.length_append]
      omega

/-- Offsets between characters are in the order of their positions. -/
theorem position_increasing {a b : Nat} (first : String.Pos.Raw.IsValid src.text ⟨a⟩)
    (second : String.Pos.Raw.IsValid src.text ⟨b⟩) (less : a < b) :
    (src.position a).Before (src.position b) := by
  rw [position, position, position?_eq (.inl first), position?_eq (.inl second), Option.getD_some,
    Option.getD_some]
  obtain ⟨front, rest, split, rfl⟩ := isValid_iff.mp first
  obtain ⟨front', rest', split', rfl⟩ := isValid_iff.mp second
  obtain ⟨more, rfl⟩ := width_mono (split.symm.trans split') (Nat.le_of_lt less)
  have filled : more ≠ [] := by
    rintro rfl
    rw [List.append_nil] at less
    exact Nat.lt_irrefl _ less
  have chars : src.chars = front ++ rest := split
  have chars' : src.chars = front ++ more ++ rest' := split'
  rw [chars, takeBytes_width, ← chars, chars', takeBytes_width]
  exact before_append front filled

/-- **Positions are exact, and lines are the pieces of the text between its line feeds.** An offset
that is between characters or past the end is on the line that the line feeds before it count, in
the column that the characters behind the last of them count. -/
theorem positions_exact (src : Source) :
    (∀ offset, String.Pos.Raw.IsValid src.text ⟨offset⟩ ∨ src.size ≤ offset →
      let before := takeBytes offset src.chars
      src.position? offset = some (src.position offset) ∧
        src.position offset =
          ⟨1 + before.count '\n', 1 + (before.rtakeWhile (· ≠ '\n')).length⟩) ∧
    (∀ a b, String.Pos.Raw.IsValid src.text ⟨a⟩ → String.Pos.Raw.IsValid src.text ⟨b⟩ → a < b →
      (src.position a).Before (src.position b)) ∧
    src.lineCount = 1 + src.chars.count '\n' ∧
    (∀ n, 1 ≤ n → n ≤ src.lineCount → ∃ piece, (src.chars.splitOn '\n')[n - 1]? = some piece ∧
      src.line? n = some (String.ofList (piece.rdropWhile (· = '\r')))) ∧
    ∀ n, n = 0 ∨ src.lineCount < n → src.line? n = none := by
  refine ⟨fun offset between => ?_, fun a b => position_increasing, ?_, fun n low high => ?_,
    fun n out => if_pos out⟩
  · have found := position?_eq between
    rw [position, found]
    exact ⟨rfl, rfl⟩
  · rw [lineCount_eq, Nat.add_comm]
  · rw [lineCount_eq] at high
    have before : n - 1 ≤ src.chars.count '\n' := by omega
    obtain ⟨lead, piece, back, line, count⟩ := exists_lineIn before
    have here : n = lead.count '\n' + 1 := by omega
    subst here
    exact ⟨piece, splitOn_line line, line?_split line⟩

/-- Two bytes are one character, and what is behind a carriage return is on the same line. -/
theorem positions_exact_umlaut :
    let src : Source := ⟨"ä\r\nö"⟩
    String.Pos.Raw.IsValid src.text ⟨2⟩ ∧ String.Pos.Raw.IsValid src.text ⟨6⟩ ∧ src.size ≤ 9 ∧
      src.position? 2 = some ⟨1, 2⟩ ∧ src.position? 9 = some ⟨2, 2⟩ ∧
      (src.position 2).Before (src.position 6) ∧ src.lineCount = 2 ∧ src.line? 1 = some "ä" ∧
      src.line? 3 = none := by
  intro src
  have chars : src.chars = ['ä', '\r', '\n', 'ö'] := by decide
  have second : String.Pos.Raw.IsValid src.text ⟨2⟩ :=
    isValid_iff.mpr ⟨['ä'], ['\r', '\n', 'ö'], chars, rfl⟩
  have sixth : String.Pos.Raw.IsValid src.text ⟨6⟩ :=
    isValid_iff.mpr ⟨['ä', '\r', '\n', 'ö'], [], chars, rfl⟩
  have small : src.size ≤ 9 := by decide
  obtain ⟨exact, increasing, count, lines, none⟩ := positions_exact src
  simp only [chars] at exact lines count
  obtain ⟨piece, split, first⟩ := lines 1 (Nat.le_refl 1) (by rw [count]; decide)
  obtain rfl : ['ä', '\r'] = piece := Option.some.inj split
  obtain ⟨found, here⟩ := exact 2 (.inl second)
  obtain ⟨found', here'⟩ := exact 9 (.inr small)
  refine ⟨second, sixth, small, found.trans (congrArg some (here.trans rfl)),
    found'.trans (congrArg some (here'.trans rfl)), increasing 2 6 second sixth (by decide),
    count.trans rfl, first.trans rfl, none 3 (.inr ?_)⟩
  rw [count]
  decide

end Source

end Retrace
