/-
Shown data, as text to be read.

* `Value.IsData` — integers, strings, truth values, and lists of data.
* `Value.Legible`, `Value.Flawed` — data that is shown as an expression, and data that is
  not: the least integer is in it, or a string that is shown with a flawed piece.
* `Value.IsData.cases` — data is one or the other.
* **`Value.Written`** — a value, and the expression that it is shown as.
* **`Written.feed`** — the text of a value is read as the tokens of the expression.
* **`Flawed.broken`** — where there is none, the text has something in it that is no
  token, behind what can be read.

Design notes:
* A negative number is shown with a sign, which is a token of its own and an operator
  when it is read. The least integer is the only one whose digits are too large.
* A value is followed by a comma, a closing bracket or a semicolon, so its text ends
  where it does.
-/
import Retrace.Proofs.Reader.Broken
import Retrace.Proofs.Token.Shown
import Retrace.Value.Basic

namespace Retrace

namespace Value

/-- Integers, strings, truth values, and lists of data. -/
inductive IsData : Value → Prop
  | int (n) : IsData (.int n)
  | str (s) : IsData (.str s)
  | bool (b) : IsData (.bool b)
  | list {items} (each : ∀ item ∈ items, IsData item) : IsData (.list items)

/-- Data in which every integer has a negative, and in which every string is shown with plain
characters and the escapes of line feeds, tabs, carriage returns, backslashes and double quotes
only. -/
inductive Legible : Value → Prop
  | int {n} (large : Int64.minValue < n) : Legible (.int n)
  | str {s} (each : ∀ piece ∈ Text.pieces s.toList, Text.Legible piece) : Legible (.str s)
  | bool (b) : Legible (.bool b)
  | list {items} (each : ∀ item ∈ items, Legible item) : Legible (.list items)

/-- Data in which the least integer is, or a string that is shown with the escape of a single
quote, the escape of the character zero, or a character by its code point. -/
inductive Flawed : Value → Prop
  | int : Flawed (.int Int64.minValue)
  | str {s piece} (member : piece ∈ Text.pieces s.toList) (here : Text.Flawed piece) :
      Flawed (.str s)
  | list {items item} (member : item ∈ items) (here : Flawed item) : Flawed (.list items)

variable {v : Value} {table : OperatorTable}

/-- No value is both. -/
theorem Flawed.not_legible (h : v.Flawed) : ¬v.Legible := by
  induction h with
  | int =>
    rintro ⟨large⟩
    exact absurd large (by decide)
  | str member here =>
    rintro ⟨⟩
    next each => exact here.not_legible (each _ member)
  | list member _ ih =>
    rintro ⟨⟩
    next each => exact ih (each _ member)

/-- Data is legible or flawed. -/
theorem IsData.cases (h : v.IsData) : v.Legible ∨ v.Flawed := by
  induction h with
  | int n =>
    by_cases large : Int64.minValue < n
    · exact .inl (.int large)
    · have least : n = Int64.minValue :=
        Int64.le_antisymm (Int64.not_lt.mp large) (Int64.minValue_le n)
      exact .inr (least ▸ .int)
  | str s =>
    by_cases each : ∀ piece ∈ Text.pieces s.toList, Text.Legible piece
    · exact .inl (.str each)
    · obtain ⟨piece, others⟩ := Classical.not_forall.mp each
      obtain ⟨member, illegible⟩ := Classical.not_imp.mp others
      have flawed := (Lexer.pieces_legible_or_flawed piece member).resolve_left illegible
      exact .inr (.str member flawed)
  | bool b => exact .inl (.bool b)
  | @list items _ ih =>
    by_cases each : ∀ item ∈ items, item.Legible
    · exact .inl (.list each)
    · obtain ⟨item, others⟩ := Classical.not_forall.mp each
      obtain ⟨member, illegible⟩ := Classical.not_imp.mp others
      exact .inr (.list member ((ih item member).resolve_left illegible))

/-- Data that is not legible is flawed. -/
theorem IsData.flawed_iff (h : v.IsData) : v.Flawed ↔ ¬v.Legible :=
  ⟨Flawed.not_legible, h.cases.resolve_left⟩

/-- A value, and the expression that it is shown as. -/
inductive Written (table : OperatorTable) : Value → Expr table → Prop
  | natural {n} (natural : 0 ≤ n) : Written table (.int n) (.int n natural)
  | negative {n} (natural : 0 ≤ n) (positive : 0 < n) :
      Written table (.int (-n)) (.unary .minus (.int n natural))
  | str {s} (each : ∀ piece ∈ Text.pieces s.toList, Text.Legible piece) :
      Written table (.str s) (.str s)
  | bool (b) : Written table (.bool b) (.bool b)
  | list (items : List (Value × Expr table)) (each : ∀ item ∈ items, Written table item.1 item.2) :
      Written table (.list (items.map (·.1))) (.list (items.map (·.2)))

/-! ### Integers -/

/-- Every integer but the least has a negative. -/
theorem toInt_neg {n : Int64} (large : Int64.minValue < n) : (-n).toInt = -n.toInt := by
  have above := Int64.lt_iff_toInt_lt.mp large
  have below := n.toInt_lt
  rw [Int64.toInt_minValue] at above
  rw [Int64.toInt_neg]
  exact Int.bmod_eq_of_le (by omega) (by omega)

/-- A negative number is shown with a sign. -/
theorem text_neg {n : Int64} (positive : 0 < n) :
    (int (-n)).text.toList = '-' :: (int n).text.toList := by
  have above : (0 : Int) < n.toInt := Int64.lt_iff_toInt_lt.mp positive
  obtain ⟨k, same⟩ : ∃ k : Nat, n.toInt = k + 1 := ⟨(n.toInt - 1).toNat, by omega⟩
  have large : Int64.minValue < n := by
    rw [Int64.lt_iff_toInt_lt, Int64.toInt_minValue]
    omega
  rw [text, text, toInt_neg large, same]
  show ("-" ++ Nat.repr (k + 1)).toList = '-' :: (Nat.repr (k + 1)).toList
  rw [String.toList_append]
  rfl

/-! ### Legible values -/

theorem exists_written {items : List Value}
    (each : ∀ item ∈ items, ∃ e : Expr table, Written table item e) :
    ∃ pairs : List (Value × Expr table), pairs.map (·.1) = items ∧
      ∀ pair ∈ pairs, Written table pair.1 pair.2 := by
  induction items with
  | nil => exact ⟨[], rfl, fun pair member => absurd member List.not_mem_nil⟩
  | cons item items ih =>
    obtain ⟨first, others⟩ := List.forall_mem_cons.mp each
    obtain ⟨e, here⟩ := first
    obtain ⟨pairs, rfl, there⟩ := ih others
    exact ⟨(item, e) :: pairs, rfl, List.forall_mem_cons.mpr ⟨here, there⟩⟩

/-- **Legible values are shown as expressions.** -/
theorem Legible.written (h : v.Legible) : ∃ e : Expr table, Written table v e := by
  induction h with
  | @int n large =>
    by_cases natural : 0 ≤ n
    · exact ⟨_, .natural natural⟩
    · have negative := toInt_neg large
      have below : n.toInt < 0 := by
        rw [Int64.le_iff_toInt_le] at natural
        exact Int.not_le.mp natural
      have positive : 0 < -n := by
        rw [Int64.lt_iff_toInt_lt, negative]
        show (0 : Int) < _
        omega
      have shown : Written table (.int (- -n)) _ :=
        .negative (Int64.le_of_lt positive) positive
      rw [Int64.neg_neg] at shown
      exact ⟨_, shown⟩
  | str each => exact ⟨_, .str each⟩
  | bool b => exact ⟨_, .bool b⟩
  | list _ ih =>
    obtain ⟨pairs, rfl, each⟩ := exists_written ih
    exact ⟨_, .list pairs each⟩

/-! ### The text of lists -/

section

open Lexer (Ends feed)
open Feed

variable {e : Expr table} {items : List Value} {rest : List Char}

/-- The text of a list ends where its closing bracket stands. -/
theorem text_list (items : List Value) (rest : List Char) :
    (list items).text.toList ++ rest = '[' :: ((joined items).toList ++ ']' :: rest) := by
  rw [text, String.toList_append, String.toList_append, List.append_assoc, List.append_assoc]
  rfl

theorem ends_bracket (rest : List Char) : Ends (']' :: rest) :=
  .inr ⟨']', by decide, rest, rfl⟩

/-- An item of a list is followed by a comma and the items after it. -/
theorem joined_next (v next : Value) (values : List Value) (rest : List Char) :
    ∃ more, Ends more ∧ (joined (v :: next :: values)).toList ++ rest = v.text.toList ++ more ∧
      feed more = some (.mark .comma) :: feed ((joined (next :: values)).toList ++ rest) := by
  refine ⟨',' :: ' ' :: ((joined (next :: values)).toList ++ rest), ?_, ?_, ?_⟩
  · exact .inr ⟨',', by decide, _, rfl⟩
  · rw [joined, String.toList_append, String.toList_append, List.append_assoc, List.append_assoc]
    rfl
  · rw [Lexer.feed_single rfl (by decide) (by decide), Lexer.feed_blank (by decide)]

/-- Items whose texts are read as expressions are read as these with commas between them. -/
theorem feed_joined {pairs : List (Value × Expr table)}
    (each : ∀ pair ∈ pairs, ∀ rest, Ends rest →
      feed (pair.1.text.toList ++ rest) = inFront pair.2.tokens (feed rest)) (ends : Ends rest) :
    feed ((joined (pairs.map (·.1))).toList ++ rest) =
      inFront ([.mark .comma].intercalate (pairs.map (·.2.tokens))) (feed rest) := by
  induction pairs with
  | nil => rfl
  | cons pair pairs ih =>
    obtain ⟨first, others⟩ := List.forall_mem_cons.mp each
    cases pairs with
    | nil =>
      rw [List.map_singleton, List.map_singleton, List.intercalate_singleton]
      exact first rest ends
    | cons next pairs =>
      obtain ⟨more, ends', split, comma⟩ := joined_next pair.1 next.1 (pairs.map (·.1)) rest
      have inside : feed ((joined (next.1 :: pairs.map (·.1))).toList ++ rest) = _ := ih others
      rw [List.map_cons, List.map_cons, split, first more ends', comma, inside, List.map_cons,
        List.map_cons, List.map_cons, List.intercalate_cons_cons, List.append_assoc,
        inFront_append, List.singleton_append, inFront_cons]

/-- **The text of a value is read as the tokens of its expression.** -/
theorem Written.feed (h : Written table v e) (ends : Ends rest) :
    feed (v.text.toList ++ rest) = inFront e.tokens (feed rest) := by
  induction h generalizing rest with
  | @natural n natural => exact (Lexer.scans_spelling (t := .int n) natural).feed ends
  | @negative n natural positive =>
    rw [text_neg positive, List.cons_append, Lexer.feed_single rfl (by decide) (by decide)]
    exact congrArg _ ((Lexer.scans_spelling (t := .int n) natural).feed ends)
  | @str s each =>
    rw [text, Text.quoted, String.toList_ofList, Lexer.escape_of_legible each]
    exact (Lexer.scans_string s).feed ends
  | bool b => exact (Lexer.scans_bool b).feed ends
  | list pairs _ ih =>
    have inside := feed_joined (fun pair member rest ends => ih pair member ends)
      (ends_bracket rest)
    rw [text_list, Lexer.feed_single rfl (by decide) (by decide), inside,
      Lexer.feed_single rfl (by decide) (by decide), Expr.tokens, tokensEach_eq_map, List.map_map,
      Token.series, inFront_between]
    rfl

/-! ### Flawed values -/

/-- Items of which one is flawed are read up to that item. -/
theorem joined_broken (each : ∀ item ∈ items, item.IsData ∧
      (item.Flawed → ∀ rest, Ends rest → Broken table (feed (item.text.toList ++ rest))))
    (flawed : ∃ item ∈ items, item.Flawed) (ends : Ends rest) :
    ∃ (before : List (Expr table)) (z : Feed), Broken table z ∧
      feed ((joined items).toList ++ rest) = behind before z := by
  induction items with
  | nil =>
    obtain ⟨item, member, _⟩ := flawed
    exact absurd member List.not_mem_nil
  | cons item items ih =>
    obtain ⟨⟨data, broken⟩, others⟩ := List.forall_mem_cons.mp each
    by_cases here : item.Flawed
    · -- what is behind the first item is not looked at
      obtain ⟨more, ends', split⟩ : ∃ more, Ends more ∧
          (joined (item :: items)).toList ++ rest = item.text.toList ++ more := by
        cases items with
        | nil => exact ⟨rest, ends, rfl⟩
        | cons next items =>
          obtain ⟨more, ends', split, _⟩ := joined_next item next items rest
          exact ⟨more, ends', split⟩
      exact ⟨[], _, broken here more ends', congrArg feed split⟩
    · have behind : ∃ item ∈ items, item.Flawed := by
        obtain ⟨other, member, there⟩ := flawed
        rcases List.mem_cons.mp member with rfl | member
        · exact absurd there here
        · exact ⟨other, member, there⟩
      obtain ⟨before, z, inside, read⟩ := ih others behind
      obtain ⟨e, written⟩ : ∃ e : Expr table, Written table item e :=
        (data.cases.resolve_right here).written
      cases items with
      | nil =>
        obtain ⟨_, member, _⟩ := behind
        exact absurd member List.not_mem_nil
      | cons next items =>
        obtain ⟨more, ends', split, comma⟩ := joined_next item next items rest
        refine ⟨e :: before, z, inside, ?_⟩
        rw [split, written.feed ends', comma, read]
        rfl

/-- **The text of a flawed value is broken.** -/
theorem IsData.broken (data : v.IsData) (flawed : v.Flawed) (ends : Ends rest) :
    Broken table (feed (v.text.toList ++ rest)) := by
  induction data generalizing rest with
  | int n =>
    cases flawed
    obtain ⟨z, digits⟩ := Lexer.feed_tooLarge (Nat.le_refl Lexer.tooLarge) ends
    have shown : (Value.int Int64.minValue).text.toList =
        '-' :: Nat.toDigits 10 Lexer.tooLarge := by decide
    rw [shown, List.cons_append, Lexer.feed_single rfl (by decide) (by decide), digits]
    exact .signed .here
  | str s =>
    cases flawed with
    | str member here =>
      obtain ⟨z, shown⟩ := Lexer.feed_flawed ⟨_, member, here⟩ ('"' :: rest)
      rw [text, Text.quoted, String.toList_ofList, List.append_assoc, List.singleton_append, shown]
      exact .here
  | bool b => cases flawed
  | list each ih =>
    cases flawed with
    | list member here =>
      obtain ⟨before, z, broken, inside⟩ := joined_broken
        (fun item member => ⟨each item member, fun flawed rest ends => ih item member flawed ends⟩)
        ⟨_, member, here⟩ (ends_bracket rest)
      rw [text_list, Lexer.feed_single rfl (by decide) (by decide), inside]
      exact .list before broken

end

end Value

end Retrace
