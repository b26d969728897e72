/-
Scanning shown text.

* `Text.pieces` — what the characters of a string are shown as, one by one.
* `Text.Legible`, `Text.Flawed` — pieces that a string literal can have, and pieces with
  an escape that string literals do not have.
* **`escapeChar_cases`** — every character is shown as one or the other.
* `scanString_legible`, `scanString_flawed` — so a shown string is scanned as itself, or
  as text that is no token.
* **`Lexer.feed`** — what is read of a text, and how it begins where the text begins with
  a token, with a mark or with a blank.

Design notes:
* Strings are shown by one table of escapes and scanned by another. Legible pieces are
  those that the two have in common.
* What is read of a text does not depend on where the text begins, so nothing here is
  about places.
-/
import Retrace.Proofs.Token.Items

namespace Retrace

/-! ### Pieces of shown strings -/

namespace Text

/-- What the characters of a string are shown as between its quotes, one by one. -/
def pieces : List Char → List (List Char)
  | [] => []
  | c :: cs => escapeChar ['"', '\''] true c :: cs.map (escapeChar ['"', '\''] false)

theorem escape_eq_flatten (cs : List Char) : escape cs = (pieces cs).flatten := by
  cases cs with
  | nil => rfl
  | cons c cs => rw [escape, pieces, List.flatten_cons, List.flatMap_def]

/-- A plain character, or the escape of a line feed, a tab, a carriage return, a backslash or a
double quote. -/
def Legible (piece : List Char) : Prop :=
  (∃ c, piece = [c]) ∨
    piece ∈ [['\\', 'n'], ['\\', 't'], ['\\', 'r'], ['\\', '\\'], ['\\', '"']]

/-- The escape of a single quote or of the character zero, or a character by its code point. -/
def Flawed (piece : List Char) : Prop :=
  piece = ['\\', '\''] ∨ piece = ['\\', '0'] ∨ ∃ c, piece = codePoint c

/-- A flawed piece begins with an escape that string literals do not have. -/
theorem Flawed.unknown {piece : List Char} (h : Flawed piece) :
    ∃ e more, piece = '\\' :: e :: more ∧ Lexer.unescape? e = none := by
  rcases h with rfl | rfl | ⟨c, rfl⟩
  · exact ⟨'\'', [], rfl, rfl⟩
  · exact ⟨'0', [], rfl, rfl⟩
  · exact ⟨'u', _, rfl, rfl⟩

/-- No piece is both. -/
theorem Flawed.not_legible {piece : List Char} (h : Flawed piece) : ¬Legible piece := by
  obtain ⟨e, more, rfl, unknown⟩ := h.unknown
  rintro (⟨c, same⟩ | known)
  · exact absurd (congrArg List.length same) (by simp)
  · simp only [List.mem_cons, List.cons.injEq, true_and, List.not_mem_nil, or_false] at known
    rcases known with ⟨rfl, _⟩ | ⟨rfl, _⟩ | ⟨rfl, _⟩ | ⟨rfl, _⟩ | ⟨rfl, _⟩ <;> cases unknown

end Text

open Text in
/-- **A character is shown as a string literal spells it, or by a flawed piece.** -/
theorem Lexer.escapeChar_cases (first : Bool) (c : Char) :
    (Legible (escapeChar ['"', '\''] first c) ∧
      escapeChar ['"', '\''] first c = Lexer.escaped c) ∨
    Flawed (escapeChar ['"', '\''] first c) := by
  by_cases special : c ∈ ['\x00', '\'', '\n', '\t', '\r', '\\', '"']
  · simp only [List.mem_cons, List.not_mem_nil, or_false] at special
    rcases special with rfl | rfl | rfl | rfl | rfl | rfl | rfl
    · exact .inr (.inr (.inl rfl))
    · exact .inr (.inl rfl)
    all_goals exact .inl ⟨.inr (by cases first <;> decide), rfl⟩
  · simp only [List.mem_cons, List.not_mem_nil, or_false, not_or] at special
    obtain ⟨zero, single, feed, tab, carriage, backslash, double⟩ := special
    have plain : Lexer.escaped c = [c] := by
      unfold Lexer.escaped
      split <;> trivial
    have solid : controlLetter? c = none := by
      simp only [controlLetter?, if_neg zero, if_neg tab, if_neg carriage, if_neg feed]
    have unquoted : ¬(c = '\\' || ['"', '\''].contains c) := by
      simp [backslash, double, single]
    rw [escapeChar, solid]
    simp only [if_neg unquoted]
    split
    · exact .inr (.inr (.inr ⟨c, rfl⟩))
    · exact .inl ⟨.inl ⟨c, rfl⟩, plain.symm⟩

namespace Lexer

open Text

variable {c : Char} {cs rest : List Char} {t : Token}

/-! ### Shown strings -/

theorem escapeChar_of_legible {first : Bool} (h : Legible (escapeChar ['"', '\''] first c)) :
    escapeChar ['"', '\''] first c = escaped c :=
  (escapeChar_cases first c).elim And.right fun flawed => absurd h flawed.not_legible

/-- A string of legible pieces is shown as a literal spells it. -/
theorem escape_of_legible (h : ∀ piece ∈ pieces cs, Legible piece) :
    escape cs = cs.flatMap escaped := by
  cases cs with
  | nil => rfl
  | cons c cs =>
    obtain ⟨first, others⟩ := List.forall_mem_cons.mp h
    rw [escape, List.flatMap_cons, escapeChar_of_legible first, List.flatMap_def, List.flatMap_def]
    refine congrArg (escaped c ++ List.flatten ·) (List.map_congr_left fun d member => ?_)
    exact escapeChar_of_legible (others _ (List.mem_map_of_mem member))

/-- What holds of every shown character holds of the pieces of a string. -/
theorem forall_pieces {P : List Char → Prop}
    (h : ∀ first c, P (escapeChar ['"', '\''] first c)) : ∀ piece ∈ pieces cs, P piece := by
  cases cs with
  | nil => exact fun piece member => absurd member List.not_mem_nil
  | cons c cs =>
    refine List.forall_mem_cons.mpr ⟨h true c, fun piece member => ?_⟩
    obtain ⟨d, _, rfl⟩ := List.mem_map.mp member
    exact h false d

/-- A piece is spelled as in a literal, or it is flawed. -/
theorem pieces_cases : ∀ piece ∈ pieces cs, (∃ c, piece = escaped c) ∨ Flawed piece :=
  forall_pieces fun first c => (escapeChar_cases first c).imp_left fun spelled => ⟨c, spelled.2⟩

theorem pieces_legible_or_flawed : ∀ piece ∈ pieces cs, Legible piece ∨ Flawed piece :=
  forall_pieces fun first c => (escapeChar_cases first c).imp_left And.left

/-- A string with a flawed piece is scanned up to an escape that is unknown. -/
theorem scanString_flawed {ps : List (List Char)}
    (each : ∀ piece ∈ ps, (∃ c, piece = escaped c) ∨ Flawed piece)
    (flawed : ∃ piece ∈ ps, Flawed piece) (rest : List Char) :
    ∃ e, (scanString (ps.flatten ++ rest)).found = .error (.invalidEscape e) := by
  induction ps with
  | nil =>
    obtain ⟨piece, member, _⟩ := flawed
    exact absurd member List.not_mem_nil
  | cons piece ps ih =>
    obtain ⟨first, others⟩ := List.forall_mem_cons.mp each
    rw [List.flatten_cons, List.append_assoc]
    by_cases here : Flawed piece
    · obtain ⟨e, more, rfl, unknown⟩ := here.unknown
      refine ⟨e, ?_⟩
      rw [List.cons_append, List.cons_append, scanString.eq_def]
      simp [unknown]
    · -- the piece is spelled as in a literal, so the scan goes on behind it
      obtain ⟨c, rfl⟩ := first.resolve_right here
      have behind : ∃ piece ∈ ps, Flawed piece := by
        obtain ⟨piece, member, there⟩ := flawed
        rcases List.mem_cons.mp member with rfl | member
        · exact absurd there here
        · exact ⟨piece, member, there⟩
      obtain ⟨e, found⟩ := ih others behind
      refine ⟨e, ?_⟩
      rw [(scanString_escaped c _).1, found]
      rfl

/-! ### What is read of a text -/

/-- What is read of a text. -/
def feed (cs : List Char) : Feed :=
  (itemsFrom 0 cs).map tokenOf

theorem map_tokenOf_shift (n : Nat) (items : List LexItem) :
    (items.map (LexItem.shift n)).map tokenOf = items.map tokenOf := by
  rw [List.map_map]
  refine List.map_congr_left fun item _ => ?_
  cases item <;> rfl

/-- What is read of a text does not depend on where it begins. -/
theorem itemsFrom_feed (offset : Nat) (cs : List Char) :
    (itemsFrom offset cs).map tokenOf = feed cs := by
  rw [← Nat.zero_add offset, itemsFrom_shift, map_tokenOf_shift, feed]

theorem feed_end (h : (splitTrivia false cs).2 = []) : feed cs = [] := by
  rw [feed, itemsFrom_end h, List.map_nil]

/-- What is read of a text begins with what is scanned first. -/
theorem feed_scan (h : (splitTrivia false cs).2 = c :: rest) :
    feed cs = (scan c rest).found.toOption :: feed (scan c rest).rest := by
  rw [feed, itemsFrom_cons 0 h, List.map_cons, itemsFrom_feed]
  refine congrArg (· :: _) ?_
  unfold itemAt
  cases (scan c rest).found <;> rfl

/-- Blanks and comments in front of a text are not read. -/
theorem feed_trivia {cs cs' : List Char}
    (h : (splitTrivia false cs).2 = (splitTrivia false cs').2) : feed cs = feed cs' := by
  cases there : (splitTrivia false cs').2 with
  | nil => rw [feed_end (h.trans there), feed_end there]
  | cons c rest => rw [feed_scan (h.trans there), feed_scan there]

/-- A token is read, and then what is behind it. -/
theorem Scans.feed {text : List Char} (h : Scans text t) (ends : Ends rest) :
    feed (text ++ rest) = some t :: feed rest := by
  obtain ⟨c, cs, rfl, scans⟩ := h
  obtain ⟨trivia, found, left⟩ := scans rest ends
  rw [List.cons_append, feed_scan (congrArg Prod.snd trivia), found, left]
  rfl

/-- A token of one character is read, whatever is behind it. Only a slash may begin a comment. -/
theorem feed_single (single : single? c = some t) (solid : isBlank c = false) (slash : c ≠ '/')
    (rest : List Char) : feed (c :: rest) = some t :: feed rest := by
  have trivia : splitTrivia false (c :: rest) = ([], c :: rest) := by
    rw [splitTrivia, if_neg (by rw [solid]; exact Bool.false_ne_true),
      if_neg fun comment => slash comment.1]
  rw [feed_scan (congrArg Prod.snd trivia), scan, single]
  rfl

/-- A blank is not read. -/
theorem feed_blank (blank : isBlank c) (rest : List Char) : feed (c :: rest) = feed rest := by
  refine feed_trivia ?_
  rw [splitTrivia, if_pos blank]

/-- A shown string with a flawed piece is read as no token. -/
theorem feed_flawed (h : ∃ piece ∈ pieces cs, Flawed piece) (rest : List Char) :
    ∃ z, feed ('"' :: escape cs ++ rest) = none :: z := by
  obtain ⟨e, found⟩ := scanString_flawed pieces_cases h rest
  have item : (scan '"' (escape cs ++ rest)).found = .error (.invalidEscape e) := by
    rw [escape_eq_flatten]
    show (scanString _).found.map _ = _
    rw [found]
    rfl
  have trivia : (splitTrivia false ('"' :: escape cs ++ rest)).2 = '"' :: (escape cs ++ rest) := rfl
  refine ⟨feed (scan '"' (escape cs ++ rest)).rest, ?_⟩
  rw [feed_scan trivia, item]
  rfl

/-- A number is read where no letter or digit goes on. -/
theorem feed_number {n : Int64} (natural : 0 ≤ n) (digit : c.isDigit = false)
    (other : isNameRest c = false) (rest : List Char) :
    feed ((toString n.toInt).toList ++ c :: rest) = some (.int n) :: feed (c :: rest) := by
  have stop {p : Char → Bool} (h : p c = false) :
      (c :: rest).takeWhile p = [] ∧ (c :: rest).dropWhile p = c :: rest :=
    ⟨List.takeWhile_cons_of_neg (Bool.eq_false_iff.mp h),
      List.dropWhile_cons_of_neg (Bool.eq_false_iff.mp h)⟩
  obtain ⟨k, small, digits, number⟩ := digits_of_natural natural
  obtain ⟨d, ds, same⟩ := List.exists_cons_of_ne_nil (Nat.toDigits_ne_nil (n := k) (b := 10))
  obtain ⟨trivia, found, left⟩ := scan_digits_of_stop same (stop digit) (stop other)
  rw [if_pos small, number] at found
  rw [digits, same, List.cons_append, feed_scan (congrArg Prod.snd trivia), found, left]
  rfl

/-- The digits of a number that is too large are read as no token. -/
theorem feed_tooLarge {n : Nat} (large : tooLarge ≤ n) (ends : Ends rest) :
    ∃ z, feed (Nat.toDigits 10 n ++ rest) = none :: z := by
  obtain ⟨c, cs, same⟩ := List.exists_cons_of_ne_nil (Nat.toDigits_ne_nil (n := n) (b := 10))
  obtain ⟨trivia, found, _⟩ := scan_digits same ends
  rw [if_neg (Nat.not_lt.mpr large)] at found
  refine ⟨feed (scan c (cs ++ rest)).rest, ?_⟩
  rw [same, List.cons_append, feed_scan (congrArg Prod.snd trivia), found]
  rfl

end Lexer

end Retrace
