/-
The items of a text, one after the other.

* `itemsFrom_cons` — the first item of a text, and the items behind it.
* **`lex_writable`** — every token of a text can be written: numbers have no sign, names
  are no keywords, and the end of input is not among them.
* `LexItem.shift` — an item, a number of bytes further on.
* **`lex_append`** — the items of a text that ends with a semicolon do not change when
  text is written behind it, and the items of that text follow, shifted.

Design notes: what a scan finds depends on the text behind it only if the scan uses all
it was given. A semicolon is complete by itself, and so is a bracket. So the end of a
text that ends with one is a place where texts can be joined.
-/
import Retrace.Proofs.Text.Bytes
import Retrace.Proofs.Token.Spelling

namespace Retrace

/-! ### Places further on -/

/-- A span, a number of bytes further on. -/
def Span.shift (n : Nat) (span : Span) : Span :=
  ⟨span.start + n, span.stop + n⟩

/-- A token, a number of bytes further on. -/
def Lexeme.shift (n : Nat) (lexeme : Lexeme) : Lexeme :=
  ⟨lexeme.token, lexeme.span.shift n⟩

/-- Text that is no token, a number of bytes further on. -/
def LexError.shift (n : Nat) (error : LexError) : LexError :=
  ⟨error.fault, error.span.shift n⟩

/-- What stands at a place of a text, a number of bytes further on. -/
def LexItem.shift (n : Nat) : LexItem → LexItem
  | .ok lexeme => .ok (lexeme.shift n)
  | .error error => .error (error.shift n)

namespace Lexer

variable {c : Char} {cs rest q : List Char} {t : Token}

/-! ### Item by item -/

/-- What was scanned at an offset, as an item. -/
def itemAt (start : Nat) (piece : Scan Token) : LexItem :=
  let span := ⟨start, start + Text.width piece.used⟩
  match piece.found with
  | .ok token => .ok ⟨token, span⟩
  | .error fault => .error ⟨fault, span⟩

/-- The first item of a text, and the items behind it. -/
theorem itemsFrom_cons (offset : Nat) (h : (splitTrivia false cs).2 = c :: rest) :
    itemsFrom offset cs =
      itemAt (offset + Text.width (splitTrivia false cs).1) (scan c rest) ::
        itemsFrom (offset + Text.width (splitTrivia false cs).1 + Text.width (scan c rest).used)
          (scan c rest).rest := by
  rw [itemsFrom]
  split
  · next here => exact absurd (h.symm.trans here) (List.cons_ne_nil _ _)
  · next c' rest' here =>
    obtain ⟨rfl, rfl⟩ := List.cons.inj (h.symm.trans here)
    rfl

/-- What holds of a text if it holds of the text behind its first item holds of every text. -/
theorem items_induction {P : List Char → Prop}
    (nothing : ∀ cs, (splitTrivia false cs).2 = [] → P cs)
    (item : ∀ cs c rest, (splitTrivia false cs).2 = c :: rest → P (scan c rest).rest → P cs)
    (cs : List Char) : P cs := by
  induction h : cs.length using Nat.strongRecOn generalizing cs with
  | _ n ih =>
    cases here : (splitTrivia false cs).2 with
    | nil => exact nothing cs here
    | cons c rest =>
      refine item cs c rest here (ih _ ?_ _ rfl)
      have shorter := scan_rest_length c rest
      have skipped := splitTrivia_length false cs
      rw [here] at skipped
      omega

/-- The end of a text has the offset of its beginning and its width. -/
theorem width_split (h : (splitTrivia false cs).2 = c :: rest) :
    Text.width cs = Text.width (splitTrivia false cs).1 + Text.width (scan c rest).used +
      Text.width (scan c rest).rest := by
  have trivia := congrArg Text.width (splitTrivia_append false cs)
  have piece := congrArg Text.width (scan_append c rest)
  rw [Text.width_append, h] at trivia
  rw [Text.width_append] at piece
  omega

/-! ### Tokens that can be written -/

/-- A word that is scanned is a name that is no keyword, or it has a meaning of its own. -/
theorem word_writable {s : String} (h : isWord s) : (word s).Writable := by
  rw [word]
  cases found : reserved.lookup s with
  | none =>
    show isIdentifier s
    rw [isIdentifier, h, found]
    rfl
  | some t =>
    have all : ∀ entry ∈ reserved, entry.2.Writable := by simp [reserved, Token.Writable]
    obtain ⟨front, back, split, _⟩ := List.lookup_eq_some_iff.mp found
    exact all (s, t) (by simp [split])

theorem single_writable (h : single? c = some t) : t.Writable := by
  unfold single? at h
  split at h <;> first | cases h; trivial | cases h

theorem double_writable {second : Char} {both : Token} {alone : Except LexFault Token}
    (h : double? c = some (second, both, alone)) :
    both.Writable ∧ ∀ t, alone = .ok t → t.Writable := by
  unfold double? at h
  split at h
  case h_6 => cases h
  all_goals
    obtain ⟨rfl, rfl, rfl⟩ : _ ∧ _ ∧ _ := by simpa using h
    refine ⟨trivial, fun t here => ?_⟩
    cases here
  all_goals trivial

/-- A number that is scanned has no sign. -/
theorem scanNumber_writable (h : (scanNumber c cs).found = .ok t) : t.Writable := by
  rw [scanNumber] at h
  simp only at h
  split at h
  · next fits =>
    obtain rfl := Except.ok.inj h
    show (0 : Int64) ≤ _
    have small := fits.2
    rw [Int64.le_iff_toInt_le, Int64.toInt_ofNat_of_lt small]
    exact Int.natCast_nonneg _
  · cases h

/-- Every token that is scanned can be written. -/
theorem scan_writable (h : (scan c cs).found = .ok t) : t.Writable := by
  unfold scan at h
  split at h
  · next single => exact Except.ok.inj h ▸ single_writable single
  · next double =>
    obtain ⟨both, alone⟩ := double_writable double
    split at h
    · exact Except.ok.inj h ▸ both
    · exact alone t h
  · split at h
    · cases body : (scanString cs).found with
      | error fault =>
        simp only [body] at h
        cases h
      | ok text =>
        simp only [body] at h
        exact Except.ok.inj h ▸ trivial
    · split at h
      · exact scanNumber_writable h
      · split at h
        · next start =>
          have continues : ∀ d ∈ cs.takeWhile isNameRest, isNameRest d := fun d member =>
            List.all_eq_true.mp List.all_takeWhile d member
          have isWord := isWord_iff.mpr ⟨c, _, String.toList_ofList, start, continues⟩
          exact Except.ok.inj h ▸ word_writable isWord
        · cases h

theorem items_writable (offset : Nat) (cs : List Char) :
    ∀ lexeme, .ok lexeme ∈ itemsFrom offset cs → lexeme.token.Writable := by
  induction cs using items_induction generalizing offset with
  | nothing cs h =>
    rw [itemsFrom_end h]
    exact fun lexeme member => absurd member List.not_mem_nil
  | item cs c rest h ih =>
    intro lexeme member
    rw [itemsFrom_cons offset h] at member
    rcases List.mem_cons.mp member with first | others
    · unfold itemAt at first
      split at first
      · next found =>
        obtain rfl := Except.ok.inj first
        exact scan_writable found
      · cases first
    · exact ih _ lexeme others

/-! ### Writing behind a text -/

/-- What is behind a text does not change where a class of its characters ends, if it ends in the
text. -/
theorem while_behind {p : Char → Bool} (h : cs.dropWhile p ≠ []) (q : List Char) :
    (cs ++ q).takeWhile p = cs.takeWhile p ∧ (cs ++ q).dropWhile p = cs.dropWhile p ++ q := by
  induction cs with
  | nil => exact absurd rfl h
  | cons c cs ih =>
    by_cases here : p c
    · rw [List.dropWhile_cons_of_pos here] at h
      obtain ⟨taken, dropped⟩ := ih h
      simp only [List.cons_append, List.takeWhile_cons_of_pos here, List.dropWhile_cons_of_pos here,
        taken, dropped, and_self]
    · simp [here]

theorem scanString_behind (h : (scanString cs).rest ≠ []) (q : List Char) :
    scanString (cs ++ q) =
      ⟨(scanString cs).found, (scanString cs).used, (scanString cs).rest ++ q⟩ := by
  fun_induction scanString cs with
  | case1 | case3 => exact absurd rfl h
  | case2 cs =>
    rw [List.cons_append, scanString.eq_def]
    rfl
  | case4 e es unknown =>
    rw [List.cons_append, List.cons_append, scanString.eq_def]
    simp [unknown]
  | case5 e es d known tail _ ih =>
    rw [List.cons_append, List.cons_append, scanString.eq_def]
    simp [known, ih h, tail]
  | case6 c cs quote backslash tail ih =>
    rw [List.cons_append, scanString.eq_def]
    simp [quote, backslash, ih h, tail]

theorem scanNumber_behind (h : (scanNumber c cs).rest ≠ []) (q : List Char) :
    scanNumber c (cs ++ q) =
      ⟨(scanNumber c cs).found, (scanNumber c cs).used, (scanNumber c cs).rest ++ q⟩ := by
  -- the letters end in the text, so the digits before them do
  have letters : (cs.dropWhile Char.isDigit).dropWhile isNameRest ≠ [] := h
  have digits : cs.dropWhile Char.isDigit ≠ [] := by
    intro none_left
    rw [none_left] at letters
    exact letters rfl
  obtain ⟨taken, dropped⟩ := while_behind digits q
  obtain ⟨taken', dropped'⟩ := while_behind letters q
  simp only [scanNumber, taken, dropped, taken', dropped']

/-- What is behind a text does not change a scan that does not come to its end. -/
theorem scan_behind (h : (scan c cs).rest ≠ []) (q : List Char) :
    scan c (cs ++ q) = ⟨(scan c cs).found, (scan c cs).used, (scan c cs).rest ++ q⟩ := by
  cases single : single? c with
  | some token => simp only [scan, single]
  | none =>
    cases double : double? c with
    | some entry =>
      obtain ⟨second, both, alone⟩ := entry
      simp only [scan, single, double] at h ⊢
      cases cs with
      | nil => exact absurd rfl h
      | cons d cs =>
        -- the text has a second character, and it is looked at either way
        rw [List.cons_append, List.head?_cons, List.head?_cons, List.tail_cons, List.tail_cons]
        by_cases same : some d = some second
        · simp only [if_pos same]
        · simp only [if_neg same, List.cons_append]
    | none =>
      simp only [scan, single, double] at h ⊢
      by_cases quote : c = '"'
      · rw [if_pos quote] at h
        simp only [if_pos quote, scanString_behind h q]
      · rw [if_neg quote] at h
        by_cases digit : c.isDigit
        · rw [if_pos digit] at h
          simp only [if_neg quote, if_pos digit, scanNumber_behind h q]
        · rw [if_neg digit] at h
          by_cases start : isNameStart c
          · rw [if_pos start] at h
            obtain ⟨taken, dropped⟩ := while_behind h q
            simp only [if_neg quote, if_neg digit, if_pos start, taken, dropped]
          · simp only [if_neg quote, if_neg digit, if_neg start]

/-- What is behind a text does not change its leading blanks and comments, unless they come to
its end or a slash does. -/
theorem splitTrivia_behind {comment : Bool} (h : (splitTrivia comment cs).2 = c :: rest)
    (other : c ≠ '/' ∨ rest ≠ []) (q : List Char) :
    splitTrivia comment (cs ++ q) = ((splitTrivia comment cs).1, c :: (rest ++ q)) := by
  fun_induction splitTrivia comment cs with
  | case1 => exact absurd h (by simp)
  | case2 c' cs skipped left here ih =>
    rw [List.cons_append, splitTrivia, ih (here ▸ h), here]
  | case3 c' cs blank skipped left here ih =>
    rw [List.cons_append, splitTrivia, if_pos blank, ih (here ▸ h), here]
  | case4 c' cs solid slashes skipped left here ih =>
    have slashes' : c' = '/' ∧ (cs ++ q).head? = some '/' := by
      refine ⟨slashes.1, ?_⟩
      rw [List.head?_append, slashes.2]
      rfl
    rw [List.cons_append, splitTrivia, if_neg solid, if_pos slashes', ih (here ▸ h), here]
  | case5 c' cs solid noSlashes =>
    obtain ⟨rfl, rfl⟩ := List.cons.inj h
    -- a slash at the end of the text could begin a comment
    have noSlashes' : ¬(c' = '/' ∧ (cs ++ q).head? = some '/') := by
      rintro ⟨slash, second⟩
      cases cs with
      | nil => exact other.elim (absurd slash) (absurd rfl)
      | cons d cs => exact noSlashes ⟨slash, second⟩
    rw [List.cons_append, splitTrivia, if_neg solid, if_neg noSlashes']

/-! ### Texts that end with a semicolon -/

theorem itemAt_shift (n start : Nat) (piece : Scan Token) :
    itemAt (start + n) piece = (itemAt start piece).shift n := by
  unfold itemAt
  have stop : start + n + Text.width piece.used = start + Text.width piece.used + n := by omega
  cases piece.found with
  | ok token => simp only [LexItem.shift, Lexeme.shift, Span.shift, stop]
  | error fault => simp only [LexItem.shift, LexError.shift, Span.shift, stop]

/-- The items of a text do not depend on where it begins, up to their places. -/
theorem itemsFrom_shift (n offset : Nat) (cs : List Char) :
    itemsFrom (offset + n) cs = (itemsFrom offset cs).map (LexItem.shift n) := by
  induction cs using items_induction generalizing offset with
  | nothing cs h => rw [itemsFrom_end h, itemsFrom_end h, List.map_nil]
  | item cs c rest h ih =>
    rw [itemsFrom_cons _ h, itemsFrom_cons _ h, List.map_cons, ← ih, ← itemAt_shift]
    have start : ∀ trivia : Nat, offset + n + trivia = offset + trivia + n := by omega
    have stop : ∀ trivia used : Nat, offset + trivia + n + used = offset + trivia + used + n := by
      omega
    rw [start, stop]

/-- Items of which the last is a semicolon that ends at an offset. -/
def Closed (stop : Nat) (items : List LexItem) : Prop :=
  ∃ start, items.getLast? = some (.ok ⟨.mark .semicolon, ⟨start, stop⟩⟩)

/-- Items of which the last is a mark that ends at an offset. -/
def ClosedBy (m : Mark) (stop : Nat) (items : List LexItem) : Prop :=
  ∃ start, items.getLast? = some (.ok ⟨.mark m, ⟨start, stop⟩⟩)

theorem word_ne_mark (s : String) (m : Mark) : word s ≠ .mark m := by
  intro same
  rw [word] at same
  cases found : reserved.lookup s with
  | none =>
    rw [found] at same
    cases same
  | some t =>
    have none_marks : ∀ entry ∈ reserved, entry.2 ≠ .mark m := by simp [reserved]
    obtain ⟨front, back, split, _⟩ := List.lookup_eq_some_iff.mp found
    rw [found] at same
    exact none_marks (s, t) (by simp [split]) same

/-- A mark that no longer token begins with is scanned from its own character. -/
theorem scan_mark {m : Mark} (other : m ≠ .assign) (h : (scan c cs).found = .ok (.mark m)) :
    single? c = some (.mark m) := by
  cases single : single? c with
  | some t =>
    simp only [scan, single, Except.ok.injEq] at h
    rw [h]
  | none =>
    exfalso
    cases double : double? c with
    | some entry =>
      obtain ⟨second, both, alone⟩ := entry
      simp only [scan, single, double] at h
      unfold double? at double
      split at double <;> simp at double <;> obtain ⟨rfl, rfl, rfl⟩ := double <;> split at h <;>
        simp at h
      exact other h.symm
    | none =>
      simp only [scan, single, double] at h
      split at h
      · cases body : (scanString cs).found <;> rw [body] at h <;> cases h
      · split at h
        · rw [scanNumber] at h
          simp only at h
          split at h <;> cases h
        · split at h
          · exact word_ne_mark _ _ (Except.ok.inj h)
          · cases h

/-- Only a semicolon is scanned as a semicolon. -/
theorem scan_semicolon (h : (scan c cs).found = .ok (.mark .semicolon)) : c = ';' := by
  have single := scan_mark (by decide) h
  unfold single? at single
  split at single <;> first | rfl | exact absurd single (by simp)

/-- An item that is a token shows what was scanned, and where it stops. -/
theorem itemAt_ok {start : Nat} {piece : Scan Token} {lexeme : Lexeme}
    (h : itemAt start piece = .ok lexeme) :
    piece.found = .ok lexeme.token ∧ lexeme.span.stop = start + Text.width piece.used := by
  unfold itemAt at h
  split at h
  · next found =>
    obtain rfl := Except.ok.inj h
    exact ⟨found, rfl⟩
  · cases h

/-- Items of a text that ends with such a mark do not change when text is written behind it. -/
theorem itemsFrom_append {m : Mark} {p : List Char} (offset : Nat) (other : m ≠ .assign)
    (h : ClosedBy m (offset + Text.width p) (itemsFrom offset p)) (q : List Char) :
    itemsFrom offset (p ++ q) =
      itemsFrom offset p ++ itemsFrom (offset + Text.width p) q := by
  induction p using items_induction generalizing offset with
  | nothing p here =>
    rw [itemsFrom_end here] at h
    obtain ⟨_, h⟩ := h
    cases h
  | item p c rest here ih =>
    have whole := width_split here
    rw [itemsFrom_cons offset here] at h ⊢
    obtain ⟨start, last⟩ := h
    by_cases left : (scan c rest).rest = []
    · -- the first item is the last one, so it is the mark
      rw [left, itemsFrom_end rfl, List.getLast?_singleton, Option.some.injEq] at last
      have single := scan_mark other (itemAt_ok last).1
      have alone : ∀ cs, scan c cs = ⟨.ok (.mark m), [c], cs⟩ := fun cs => by
        simp only [scan, single]
      obtain rfl : rest = [] := by rwa [alone] at left
      have slash : c ≠ '/' := by
        rintro rfl
        cases Option.some.inj single
      have trivia := splitTrivia_behind here (.inl slash) q
      have stop : offset + Text.width (splitTrivia false p).1 + Text.width (scan c []).used =
          offset + Text.width p := by
        rw [whole, left, Text.width]
        omega
      have none_behind : itemsFrom (offset + Text.width (splitTrivia false p).1 +
          Text.width (scan c []).used) (scan c []).rest = [] := by
        rw [left]
        exact itemsFrom_end rfl
      rw [itemsFrom_cons offset (congrArg Prod.snd trivia), trivia, none_behind, ← stop]
      simp only [alone]
      rfl
    · have more : rest ≠ [] := by
        rintro rfl
        have shorter := scan_rest_length c []
        have some_left := List.length_pos_iff.mpr left
        rw [List.length_singleton] at shorter
        omega
      have trivia := splitTrivia_behind here (.inr more) q
      have stop : offset + Text.width (splitTrivia false p).1 + Text.width (scan c rest).used +
          Text.width (scan c rest).rest = offset + Text.width p := by
        rw [whole]
        omega
      -- the mark is behind the first item, because it stops where the text does
      have closed : ClosedBy m (offset + Text.width (splitTrivia false p).1 +
          Text.width (scan c rest).used + Text.width (scan c rest).rest)
          (itemsFrom (offset + Text.width (splitTrivia false p).1 + Text.width (scan c rest).used)
            (scan c rest).rest) := by
        rw [stop]
        cases after : itemsFrom _ (scan c rest).rest with
        | nil =>
          rw [after, List.getLast?_singleton, Option.some.injEq] at last
          have same := (itemAt_ok last).2
          have some_left := Text.width_pos left
          simp only at same
          omega
        | cons item items =>
          rw [after, List.getLast?_cons_cons] at last
          exact ⟨start, last⟩
      rw [itemsFrom_cons offset (congrArg Prod.snd trivia), trivia, scan_behind left, ih _ closed,
        stop]
      rfl

end Lexer

/-- A text that ends with a semicolon, which is not part of a string or a comment. -/
def EndsStatement (text : String) : Prop :=
  Lexer.Closed (Text.width text.toList) (lex text)

/-- **Every token of a text can be written.** -/
theorem lex_writable {text : String} {lexeme : Lexeme} (h : .ok lexeme ∈ lex text) :
    lexeme.token.Writable :=
  Lexer.items_writable 0 text.toList lexeme h

/-- A text that ends with a mark, which is not part of a string or a comment. -/
def EndsWith (m : Mark) (text : String) : Prop :=
  Lexer.ClosedBy m (Text.width text.toList) (lex text)

/-- Text behind a mark that no longer token begins with does not change the items before it, and
its own items are those that it has alone, further on. -/
theorem lex_append_mark {m : Mark} {p : String} (other : m ≠ .assign) (h : EndsWith m p)
    (q : String) :
    lex (p ++ q) = lex p ++ (lex q).map (LexItem.shift (Text.width p.toList)) := by
  have closed : Lexer.ClosedBy m (0 + Text.width p.toList) (Lexer.itemsFrom 0 p.toList) := by
    rw [Nat.zero_add]
    exact h
  rw [lex, String.toList_append, Lexer.itemsFrom_append 0 other closed, Lexer.itemsFrom_shift]
  rfl

/-- **Text behind a semicolon does not change the items before it**, and its own items are those
that it has alone, further on. -/
theorem lex_append {p : String} (h : EndsStatement p) (q : String) :
    lex (p ++ q) = lex p ++ (lex q).map (LexItem.shift (Text.width p.toList)) :=
  lex_append_mark (by decide) h q

/-- The end of two texts is that of the second, further on. -/
theorem eofOf_append (p q : String) :
    eofOf (p ++ q) = (eofOf q).shift (Text.width p.toList) := by
  unfold eofOf
  rw [String.toList_append, Text.width_append, Nat.add_comm]
  rfl

end Retrace
