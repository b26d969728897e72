/-
Spelling tokens, and scanning what was spelled.

* `Lexer.isIdentifier` — the words that can be names.
* `Token.spelling` — the text of a token.
* **`lex_spelled`** — tokens that are spelled with spaces between them are the tokens of
  that text, and it has no lexical errors.

Design notes:
* A string is spelled with an escape for the five characters that have one, and every
  other character stands for itself.
* The end of the text ends every token, and so does a space, a comma, a closing bracket
  or a semicolon: the words and numbers because these do not continue them, and the
  marks because these are not their second character.
* The tables of letters are opened once, to see that no letter is a blank.
-/
import Retrace.Proofs.Reader.Feed

namespace Retrace

namespace Lexer

/-- Words that are scanned as one piece, whether they are names or have a meaning of their
own. -/
def isWord (s : String) : Bool :=
  match s.toList with
  | [] => false
  | c :: cs => isNameStart c && cs.all isNameRest

/-- Words that can be names. -/
def isIdentifier (s : String) : Bool :=
  isWord s && (reserved.lookup s).isNone

/-- A character of a string literal, with a backslash if it needs one. -/
def escaped : Char → List Char
  | '\n' => ['\\', 'n']
  | '\t' => ['\\', 't']
  | '\r' => ['\\', 'r']
  | '\\' => ['\\', '\\']
  | '"' => ['\\', '"']
  | c => [c]

/-- Characters that end the token before them, whichever it is. -/
def enders : List Char :=
  [' ', ',', ']', ';']

/-- Text that ends the token before it: none, or an ender and anything. -/
def Ends (rest : List Char) : Prop :=
  rest = [] ∨ ∃ c ∈ enders, ∃ more, rest = c :: more

end Lexer

namespace Token

/-- The text of a token. The end of input has none. -/
def spelling : Token → String
  | int n => toString n.toInt
  | str s => "\"" ++ String.ofList (s.toList.flatMap Lexer.escaped) ++ "\""
  | name s => s
  | t => t.spelling?.getD ""

/-- Tokens that a text can contain: numbers have no sign, and names are no keywords. -/
def Writable : Token → Prop
  | int n => 0 ≤ n
  | name s => Lexer.isIdentifier s
  | eof => False
  | _ => True

end Token

namespace Lexer

variable {c : Char} {cs rest : List Char} {t : Token} {s : String}

/-! ### Characters that begin words and numbers -/

/-- Characters with which no mark, string, blank or comment begins. -/
def IsPlain (c : Char) : Prop :=
  single? c = none ∧ (double? c).isNone ∧ c ≠ '"' ∧ Text.isBlank c = false

instance (c : Char) : Decidable (IsPlain c) :=
  inferInstanceAs (Decidable (_ ∧ _ ∧ _ ∧ _))

/-- What holds of the first characters one by one holds of the ASCII characters. -/
theorem of_ascii {P : Char → Prop} (h : ∀ n < 0x80, P (Char.ofNat n)) (ascii : c.toNat < 0x80) :
    P c := by
  have here := h c.toNat ascii
  rwa [Char.ofNat_toNat] at here

/-- Two classes of characters have none in common if their ranges do not overlap. -/
theorem holds_disjoint {first second : Text.Ranges}
    (h : first.all fun r => second.all fun s => r.2 < s.1 || s.2 < r.1)
    (here : first.holds c) : second.holds c = false := by
  obtain ⟨⟨low, high⟩, member, inside⟩ := List.any_eq_true.mp here
  rw [Text.Ranges.holds, List.any_eq_false]
  -- a common character lies in a range of each class
  rintro ⟨low', high'⟩ member' inside'
  have apart := List.all_eq_true.mp (List.all_eq_true.mp h _ member) _ member'
  simp only [Bool.and_eq_true, Bool.or_eq_true, decide_eq_true_eq] at inside inside' apart
  omega

/-- No mark begins with a character beyond ASCII. -/
theorem marks_ascii (h : ¬c.toNat < 0x80) :
    single? c = none ∧ (double? c).isNone ∧ c ≠ '"' := by
  refine ⟨?_, ?_, ?_⟩
  · unfold single?
    split <;> first | rfl | exact absurd (by decide) h
  · unfold double?
    split <;> first | rfl | exact absurd (by decide) h
  · rintro rfl
    exact h (by decide)

theorem nameStart_plain (h : isNameStart c) : IsPlain c := by
  by_cases ascii : c.toNat < 0x80
  · exact of_ascii (P := fun c => isNameStart c → IsPlain c) (by decide +kernel) ascii h
  · obtain ⟨single, double, quote⟩ := marks_ascii ascii
    refine ⟨single, double, quote, ?_⟩
    -- beyond ASCII only letters begin names
    have letter : Text.letterRanges.holds c := by
      rw [isNameStart, Text.isLetter, if_neg ascii, Bool.or_eq_true] at h
      refine h.resolve_right fun underscore => ascii ?_
      rw [of_decide_eq_true underscore]
      decide
    exact holds_disjoint (by decide +kernel) letter

theorem digit_ascii (h : c.isDigit) : c.toNat < 0x80 := by
  have range : c.toNat ≤ 0x39 := (Char.isDigit_iff_toNat.mp h).2
  omega

theorem digit_plain (h : c.isDigit) : IsPlain c :=
  of_ascii (P := fun c => c.isDigit → IsPlain c) (by decide +kernel) (digit_ascii h) h

theorem digit_not_nameStart (h : isNameStart c) : c.isDigit = false := by
  by_cases ascii : c.toNat < 0x80
  · exact of_ascii (P := fun c => isNameStart c → c.isDigit = false) (by decide +kernel) ascii h
  · exact Bool.eq_false_iff.mpr fun digit => ascii (digit_ascii digit)

/-! ### One token -/

/-- A text is scanned as one token when it is followed by nothing or by an ender. -/
def Scans (text : List Char) (t : Token) : Prop :=
  ∃ c cs, text = c :: cs ∧ ∀ rest, Ends rest →
    splitTrivia false (c :: (cs ++ rest)) = ([], c :: (cs ++ rest)) ∧
    (scan c (cs ++ rest)).found = .ok t ∧ (scan c (cs ++ rest)).rest = rest

theorem splitTrivia_plain (plain : IsPlain c) : splitTrivia false (c :: cs) = ([], c :: cs) := by
  have slash : c ≠ '/' := by
    rintro rfl
    exact nomatch plain.1
  rw [splitTrivia, if_neg (by rw [plain.2.2.2]; exact Bool.false_ne_true),
    if_neg fun comment => slash comment.1]

theorem scan_plain (plain : IsPlain c) :
    scan c cs =
      if c.isDigit then scanNumber c cs
      else if isNameStart c then
        let text := c :: cs.takeWhile isNameRest
        ⟨.ok (word (String.ofList text)), text, cs.dropWhile isNameRest⟩
      else ⟨.error (.unexpectedChar c), [c], cs⟩ := by
  rw [scan, plain.1, Option.isNone_iff_eq_none.mp plain.2.1]
  exact if_neg plain.2.2.1

/-- A class that no ender is in ends where a token ends. -/
theorem Ends.while {p : Char → Bool} (h : Ends rest) (other : enders.any p = false) :
    rest.takeWhile p = [] ∧ rest.dropWhile p = rest := by
  rcases h with rfl | ⟨c, ender, more, rfl⟩
  · exact ⟨rfl, rfl⟩
  · have ends := List.any_eq_false.mp other c ender
    exact ⟨List.takeWhile_cons_of_neg ends, List.dropWhile_cons_of_neg ends⟩

theorem mem_enders : c ∈ enders ↔ c = ' ' ∨ c = ',' ∨ c = ']' ∨ c = ';' := by
  simp [enders]

theorem isWord_iff :
    isWord s ↔ ∃ c cs, s.toList = c :: cs ∧ isNameStart c ∧ ∀ d ∈ cs, isNameRest d := by
  unfold isWord
  cases s.toList with
  | nil => simp
  | cons c cs =>
    rw [Bool.and_eq_true, List.all_eq_true]
    constructor
    · rintro ⟨start, continues⟩
      exact ⟨c, cs, rfl, start, continues⟩
    · rintro ⟨c, cs, same, start, continues⟩
      obtain ⟨rfl, rfl⟩ := List.cons.inj same
      exact ⟨start, continues⟩

/-- A word is scanned as a whole. -/
theorem scans_word (h : isWord s) (token : word s = t) : Scans s.toList t := by
  obtain ⟨c, cs, same, start, continues⟩ := isWord_iff.mp h
  refine ⟨c, cs, same, fun rest ends => ?_⟩
  obtain ⟨taken, dropped⟩ := ends.while (p := isNameRest) (by decide)
  have plain := nameStart_plain start
  refine ⟨splitTrivia_plain plain, ?_⟩
  rw [scan_plain plain, if_neg (by rw [digit_not_nameStart start]; exact Bool.false_ne_true),
    if_pos start, List.takeWhile_append_of_pos continues, List.dropWhile_append_of_pos continues,
    taken, dropped, List.append_nil, ← same]
  refine ⟨congrArg Except.ok ?_, rfl⟩
  rw [String.ofList_toList]
  exact token

theorem scans_name (h : isIdentifier s) : Scans s.toList (.name s) := by
  obtain ⟨isWord, free⟩ := Bool.and_eq_true_iff.mp h
  have same : word s = .name s := by
    rw [word, Option.isNone_iff_eq_none.mp free]
    rfl
  exact scans_word isWord same

/-- The digits of a number are scanned as a whole where no letter or digit goes on, and must not be
too many. -/
theorem scan_digits_of_stop {n : Nat} (digits : Nat.toDigits 10 n = c :: cs)
    (digitStop : rest.takeWhile Char.isDigit = [] ∧ rest.dropWhile Char.isDigit = rest)
    (stop : rest.takeWhile isNameRest = [] ∧ rest.dropWhile isNameRest = rest) :
    splitTrivia false (c :: (cs ++ rest)) = ([], c :: (cs ++ rest)) ∧
    (scan c (cs ++ rest)).found = (if n < tooLarge then .ok (.int (Int64.ofNat n))
      else .error (.invalidNumber (String.ofList (c :: cs)))) ∧
    (scan c (cs ++ rest)).rest = rest := by
  have all : ∀ d ∈ Nat.toDigits 10 n, d.isDigit := fun d member =>
    Nat.isDigit_of_mem_toDigits (by decide) (by decide) member
  have value : decimal (Nat.toDigits 10 n) = n := by
    rw [decimal, ← Nat.ofDigitChars_eq_foldl]
    exact Nat.ofDigitChars_toDigits (by decide) (by decide)
  rw [digits] at all value
  have first : c.isDigit := all c (.head _)
  have others : ∀ d ∈ cs, d.isDigit := fun d member => all d (.tail _ member)
  refine ⟨splitTrivia_plain (digit_plain first), ?_⟩
  rw [scan_plain (digit_plain first), if_pos first, scanNumber,
    List.takeWhile_append_of_pos others, List.dropWhile_append_of_pos others, digitStop.1,
    digitStop.2, List.append_nil, stop.1, stop.2, value, List.append_nil]
  exact ⟨by simp only [List.isEmpty_nil, true_and], rfl⟩

theorem scan_digits {n : Nat} (digits : Nat.toDigits 10 n = c :: cs) (ends : Ends rest) :
    splitTrivia false (c :: (cs ++ rest)) = ([], c :: (cs ++ rest)) ∧
    (scan c (cs ++ rest)).found = (if n < tooLarge then .ok (.int (Int64.ofNat n))
      else .error (.invalidNumber (String.ofList (c :: cs)))) ∧
    (scan c (cs ++ rest)).rest = rest :=
  scan_digits_of_stop digits (ends.while (by decide)) (ends.while (by decide))

/-- A number is scanned as a whole. -/
theorem scans_number {n : Nat} (h : n < tooLarge) :
    Scans (Nat.toDigits 10 n) (.int (Int64.ofNat n)) := by
  obtain ⟨c, cs, same⟩ := List.exists_cons_of_ne_nil (Nat.toDigits_ne_nil (n := n) (b := 10))
  refine ⟨c, cs, same, fun rest ends => ?_⟩
  obtain ⟨trivia, found, left⟩ := scan_digits same ends
  exact ⟨trivia, found.trans (if_pos h), left⟩

/-- A character of a string literal is scanned as it was spelled. -/
theorem scanString_escaped (c : Char) (cs : List Char) :
    (scanString (escaped c ++ cs)).found = (scanString cs).found.map (c :: ·) ∧
      (scanString (escaped c ++ cs)).rest = (scanString cs).rest := by
  unfold escaped
  split
  -- the last case is that of a character that stands for itself
  case h_6 _ _ _ backslash quote =>
    rw [List.singleton_append, scanString.eq_def]
    constructor
    · simp only [if_neg quote, if_neg backslash]
    · simp only [if_neg quote, if_neg backslash]
  all_goals
    rw [scanString.eq_def]
    exact ⟨rfl, rfl⟩

/-- The body of a string literal is scanned through its closing quote. -/
theorem scanString_spelled (cs rest : List Char) :
    (scanString (cs.flatMap escaped ++ '"' :: rest)).found = .ok cs ∧
      (scanString (cs.flatMap escaped ++ '"' :: rest)).rest = rest := by
  induction cs with
  | nil =>
    rw [scanString.eq_def]
    exact ⟨rfl, rfl⟩
  | cons c cs ih =>
    rw [List.flatMap_cons, List.append_assoc, (scanString_escaped _ _).1,
      (scanString_escaped _ _).2, ih.1, ih.2]
    exact ⟨rfl, rfl⟩

theorem scans_string (s : String) :
    Scans ('"' :: (s.toList.flatMap escaped ++ ['"'])) (.str s) := by
  refine ⟨'"', _, rfl, fun rest _ => ⟨rfl, ?_⟩⟩
  rw [List.append_assoc, List.singleton_append]
  show ((scanString _).found.map _) = _ ∧ (scanString _).rest = _
  rw [(scanString_spelled _ _).1, (scanString_spelled _ _).2]
  exact ⟨congrArg (Except.ok <| Token.str ·) String.ofList_toList, rfl⟩

theorem scans_keyword (k : Keyword) : Scans k.text.toList (.keyword k) := by
  cases k <;> exact scans_word rfl rfl

theorem scans_bool (b : Bool) : Scans (toString b).toList (.bool b) := by
  cases b <;> exact scans_word rfl rfl

theorem scans_operator (o : Operator) : Scans o.text.toList (.op o) := by
  cases o with
  -- four operators are words, and the others are marks
  | choice | and | or | xor => exact scans_word rfl rfl
  | _ =>
    refine ⟨_, _, rfl, ?_⟩
    rintro _ (rfl | ⟨c, ender, more, rfl⟩)
    · exact ⟨rfl, rfl, rfl⟩
    · rcases mem_enders.mp ender with rfl | rfl | rfl | rfl <;> exact ⟨rfl, rfl, rfl⟩

theorem scans_mark (m : Mark) : Scans [m.char] (.mark m) := by
  refine ⟨_, _, rfl, ?_⟩
  rintro _ (rfl | ⟨c, ender, more, rfl⟩)
  · cases m <;> exact ⟨rfl, rfl, rfl⟩
  · rcases mem_enders.mp ender with rfl | rfl | rfl | rfl <;> cases m <;> exact ⟨rfl, rfl, rfl⟩

/-- A number without a sign is spelled as the digits of a number that is not too large. -/
theorem digits_of_natural {n : Int64} (natural : 0 ≤ n) :
    ∃ k, k < tooLarge ∧ (toString n.toInt).toList = Nat.toDigits 10 k ∧ Int64.ofNat k = n := by
  obtain ⟨k, same⟩ := Int.eq_ofNat_of_zero_le (Int64.le_iff_toInt_le.mp natural)
  have small : k < tooLarge := by
    have bound := n.toInt_lt
    rw [same] at bound
    exact Int.ofNat_lt.mp bound
  have number : Int64.ofNat k = n := by
    rw [← n.ofInt_toInt, same]
    rfl
  refine ⟨k, small, ?_, number⟩
  rw [same]
  exact Nat.toList_repr

/-- A token is scanned from its spelling. -/
theorem scans_spelling (h : t.Writable) : Scans t.spelling.toList t := by
  cases t with
  | int n =>
    obtain ⟨k, small, digits, number⟩ := digits_of_natural h
    rw [Token.spelling, digits, ← number]
    exact scans_number small
  | str s =>
    rw [Token.spelling, String.toList_append, String.toList_append, String.toList_ofList,
      List.append_assoc]
    show Scans ('"' :: ((String.ofList _).toList ++ ['"'])) _
    rw [String.toList_ofList]
    exact scans_string s
  | bool b => exact scans_bool b
  | name s => exact scans_name h
  | keyword k => exact scans_keyword k
  | op o => exact scans_operator o
  | mark m =>
    show Scans (String.singleton m.char).toList _
    rw [String.toList_singleton]
    exact scans_mark m
  | eof => exact absurd h id

/-! ### Sequences of tokens -/

theorem itemsFrom_end {offset : Nat} (h : (splitTrivia false cs).2 = []) :
    itemsFrom offset cs = [] := by
  rw [itemsFrom]
  split
  · rfl
  · next here => exact absurd (here.symm.trans h) (List.cons_ne_nil _ _)

/-- The items of a text that begins with a token. -/
theorem itemsFrom_token (offset : Nat) (h : (splitTrivia false cs).2 = c :: rest)
    (found : (scan c rest).found = .ok t) :
    ∃ offset', (itemsFrom offset cs).map tokenOf =
      some t :: (itemsFrom offset' (scan c rest).rest).map tokenOf := by
  rw [itemsFrom]
  split
  · next here => exact absurd (h.symm.trans here) (List.cons_ne_nil _ _)
  · next c' rest' here =>
    obtain ⟨rfl, rfl⟩ := List.cons.inj (h.symm.trans here)
    generalize scan c rest = piece at found
    obtain ⟨_, used, left⟩ := piece
    obtain rfl := found
    exact ⟨_, rfl⟩

/-- Tokens with spaces between them, as characters. -/
theorem items_spelled {tokens : List Token} (h : ∀ t ∈ tokens, t.Writable) (offset : Nat)
    (same : (splitTrivia false cs).2 =
      (splitTrivia false ([' '].intercalate (tokens.map (·.spelling.toList)))).2) :
    (itemsFrom offset cs).map tokenOf = tokens.map some := by
  induction tokens generalizing offset cs with
  | nil =>
    rw [itemsFrom_end same]
    rfl
  | cons t tokens ih =>
    obtain ⟨c, text, spelled, scans⟩ := scans_spelling (h t (.head _))
    -- what is behind the token: nothing, or a space and the other tokens
    obtain ⟨rest, ends, whole, behind⟩ : ∃ rest, Ends rest ∧
        [' '].intercalate ((t :: tokens).map (·.spelling.toList)) = c :: (text ++ rest) ∧
        (splitTrivia false rest).2 =
          (splitTrivia false ([' '].intercalate (tokens.map (·.spelling.toList)))).2 := by
      rw [List.map_cons, spelled]
      cases tokens with
      | nil => exact ⟨[], .inl rfl, by simp, rfl⟩
      | cons t' tokens =>
        exact ⟨_, .inr ⟨' ', .head _, _, rfl⟩, by simp [List.intercalate_cons_cons], rfl⟩
    obtain ⟨skipped, found, left⟩ := scans rest ends
    rw [whole, skipped] at same
    obtain ⟨offset', items⟩ := itemsFrom_token offset same found
    rw [items, left, List.map_cons]
    exact congrArg _ (ih (fun t member => h t (.tail _ member)) offset' behind)

end Lexer

/-- **Tokens are read back from their spellings.** -/
theorem lex_spelled {tokens : List Token} (h : ∀ t ∈ tokens, t.Writable) :
    (lex (" ".intercalate (tokens.map Token.spelling))).map tokenOf = tokens.map some := by
  refine Lexer.items_spelled h 0 ?_
  rw [String.toList_intercalate, List.map_map]
  rfl

end Retrace
