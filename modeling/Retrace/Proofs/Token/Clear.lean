/-
Texts with semicolons in string literals only.

* `Lexer.InQuotes` — what can stand between the quotes of a string literal.
* `Lexer.Clear` — texts without comments, with string literals that are closed, and with
  no semicolon outside of them.
* `Lexer.Known` — characters that stand for one after a backslash.
* **`lex_clear`** — where the escapes of such a text are known, a semicolon written behind
  it is its only one, and the items before it are those of the text.

Design notes: where a literal ends is said without the lexer. A backslash goes with the
character after it, so the quote that closes a literal is the first with an even number
of backslashes in front of it. The escapes that may occur are a parameter: with all of
them allowed, the lexer need not agree on where literals end.
-/
import Retrace.Proofs.Token.Items

namespace Retrace

namespace Lexer

/-- What can stand between the quotes of a string literal, with some characters behind its
backslashes. -/
inductive InQuotes (escapes : Char → Prop) : List Char → Prop
  | nil : InQuotes escapes []
  | plain {c cs} (quote : c ≠ '"') (backslash : c ≠ '\\') (rest : InQuotes escapes cs) :
      InQuotes escapes (c :: cs)
  | escaped {c cs} (escape : escapes c) (rest : InQuotes escapes cs) :
      InQuotes escapes ('\\' :: c :: cs)

/-- Texts without comments in which every string literal is closed and no semicolon stands outside
of them. -/
inductive Clear (escapes : Char → Prop) : List Char → Prop
  | nil : Clear escapes []
  | outside {c cs} (quote : c ≠ '"') (semicolon : c ≠ ';')
      (comment : c = '/' → cs.head? ≠ some '/') (rest : Clear escapes cs) :
      Clear escapes (c :: cs)
  | literal {body cs} (inside : InQuotes escapes body) (rest : Clear escapes cs) :
      Clear escapes ('"' :: (body ++ '"' :: cs))

/-- Characters that stand for one after a backslash. -/
def Known (c : Char) : Prop :=
  (unescape? c).isSome

variable {escapes : Char → Prop} {c : Char} {cs body rest : List Char}

/-- A clear text does not begin with a semicolon. -/
theorem Clear.ne_semicolon (h : Clear escapes (c :: cs)) : c ≠ ';' := by
  cases h with
  | outside _ semicolon _ _ => exact semicolon
  | literal => decide

/-- Without characters in front that are no quotes, a clear text is clear. -/
theorem Clear.dropWhile {p : Char → Bool} (h : Clear escapes cs) (quote : p '"' = false) :
    Clear escapes (cs.dropWhile p) := by
  induction h with
  | nil => exact .nil
  | @outside c cs noQuote semicolon comment rest ih =>
    by_cases here : p c
    · rw [List.dropWhile_cons_of_pos here]
      exact ih
    · rw [List.dropWhile_cons_of_neg here]
      exact .outside noQuote semicolon comment rest
  | literal inside rest _ =>
    rw [List.dropWhile_cons_of_neg (by rw [quote]; exact Bool.false_ne_true)]
    exact .literal inside rest

/-- A class of characters that no semicolon belongs to ends at one. -/
theorem while_semicolon {p : Char → Bool} (h : p ';' = false) (cs : List Char) :
    (cs ++ [';']).takeWhile p = cs.takeWhile p ∧
      (cs ++ [';']).dropWhile p = cs.dropWhile p ++ [';'] := by
  induction cs with
  | nil => simp [h]
  | cons c cs ih =>
    by_cases here : p c
    · simp [here, ih]
    · simp [here]

/-- In front of a semicolon as much of a clear text is skipped, and what is left of it is clear. -/
theorem Clear.splitTrivia (h : Clear escapes cs) :
    splitTrivia false (cs ++ [';']) =
        ((splitTrivia false cs).1, (splitTrivia false cs).2 ++ [';']) ∧
      Clear escapes (splitTrivia false cs).2 := by
  induction h with
  | nil => exact ⟨by decide, .nil⟩
  | @outside c cs quote semicolon comment rest ih =>
    obtain ⟨before, left⟩ := ih
    by_cases blank : Text.isBlank c
    · rw [List.cons_append, Lexer.splitTrivia, Lexer.splitTrivia, if_pos blank, if_pos blank,
        before]
      exact ⟨rfl, left⟩
    · -- a slash begins no comment, and none with the semicolon
      have noComment : ¬(c = '/' ∧ cs.head? = some '/') := fun both => comment both.1 both.2
      have noComment' : ¬(c = '/' ∧ (cs ++ [';']).head? = some '/') := by
        rintro ⟨slash, second⟩
        cases cs with
        | nil => cases second
        | cons => exact comment slash second
      rw [List.cons_append, Lexer.splitTrivia, Lexer.splitTrivia, if_neg blank, if_neg blank,
        if_neg noComment, if_neg noComment']
      exact ⟨rfl, .outside quote semicolon comment rest⟩
  | literal inside rest _ => exact ⟨rfl, .literal inside rest⟩

/-! ### One token -/

/-- With known escapes, a literal ends with the quote that closes it. -/
theorem InQuotes.scanString (h : InQuotes Known body) :
    ∃ text, ∀ rest, scanString (body ++ '"' :: rest) = ⟨.ok text, body ++ ['"'], rest⟩ := by
  induction h with
  | nil =>
    refine ⟨[], fun rest => ?_⟩
    rw [List.nil_append, Lexer.scanString.eq_def]
    simp
  | @plain c cs quote backslash _ ih =>
    obtain ⟨text, ih⟩ := ih
    refine ⟨c :: text, fun rest => ?_⟩
    rw [List.cons_append, Lexer.scanString.eq_def]
    simp [quote, backslash, ih, Except.map]
  | @escaped c cs escape _ ih =>
    obtain ⟨text, ih⟩ := ih
    obtain ⟨d, known⟩ := Option.isSome_iff_exists.mp escape
    refine ⟨d :: text, fun rest => ?_⟩
    rw [List.cons_append, List.cons_append, Lexer.scanString.eq_def]
    simp [known, ih, Except.map]

/-- In front of a semicolon the first token of a clear text is the same, and what is left of the
text is clear. -/
theorem Clear.scan (h : Clear Known (c :: cs)) :
    scan c (cs ++ [';']) =
        ⟨(scan c cs).found, (scan c cs).used, (scan c cs).rest ++ [';']⟩ ∧
      Clear Known (scan c cs).rest := by
  cases h with
  | literal inside rest =>
    have literal : ∀ cs, Lexer.scan '"' cs =
        ⟨(Lexer.scanString cs).found.map (.str <| String.ofList ·),
          '"' :: (Lexer.scanString cs).used, (Lexer.scanString cs).rest⟩ := fun _ => rfl
    obtain ⟨text, body⟩ := inside.scanString
    rw [List.append_assoc, List.cons_append, literal, literal, body, body]
    exact ⟨rfl, rest⟩
  | outside quote semicolon _ rest =>
    cases single : single? c with
    | some token =>
      simp only [Lexer.scan, single]
      exact ⟨trivial, rest⟩
    | none =>
      cases double : double? c with
      | some entry =>
        obtain ⟨second, both, alone⟩ := entry
        have solid : second ≠ '"' ∧ second ≠ ';' := by
          unfold double? at double
          split at double <;> simp at double <;> obtain ⟨rfl, -⟩ := double <;> decide
        simp only [Lexer.scan, single, double]
        cases cs with
        | nil =>
          have other : some ';' ≠ some second := fun same => solid.2 (Option.some.inj same).symm
          simp [other]
          exact .nil
        | cons d cs =>
          by_cases same : d = second
          · subst same
            cases rest with
            | outside _ _ _ rest => simpa using rest
            | literal => exact absurd rfl solid.1
          · simp [same]
            exact rest
      | none =>
        by_cases digit : c.isDigit
        · obtain ⟨digits, letters⟩ := while_semicolon (by decide : Char.isDigit ';' = false) cs
          obtain ⟨word, left⟩ :=
            while_semicolon (by decide : isNameRest ';' = false) (cs.dropWhile Char.isDigit)
          simp only [Lexer.scan, single, double, if_neg quote, if_pos digit, scanNumber, digits,
            letters, word, left, true_and]
          exact (rest.dropWhile (by decide)).dropWhile (by decide)
        · by_cases start : isNameStart c
          · obtain ⟨word, left⟩ := while_semicolon (by decide : isNameRest ';' = false) cs
            simp only [Lexer.scan, single, double, if_neg quote, if_neg digit, if_pos start, word,
              left, true_and]
            exact rest.dropWhile (by decide)
          · simp only [Lexer.scan, single, double, if_neg quote, if_neg digit, if_neg start]
            exact ⟨trivial, rest⟩

/-! ### All tokens -/

/-- In front of a semicolon the items of a clear text are the same. -/
theorem Clear.itemsFrom (h : Clear Known cs) (offset : Nat) :
    itemsFrom offset (cs ++ [';']) = itemsFrom offset cs ++
        [.ok ⟨.mark .semicolon, ⟨offset + Text.width cs, offset + Text.width cs + 1⟩⟩] ∧
      ∀ lexeme, .ok lexeme ∈ itemsFrom offset cs → lexeme.token ≠ .mark .semicolon := by
  induction cs using items_induction generalizing offset with
  | nothing cs here =>
    obtain ⟨before, _⟩ := h.splitTrivia
    have whole := splitTrivia_append false cs
    rw [here, List.append_nil] at whole
    rw [here, whole, List.nil_append] at before
    have none_behind : ∀ n, Lexer.itemsFrom n (Lexer.scan ';' []).rest = [] := fun n =>
      itemsFrom_end rfl
    rw [itemsFrom_end here, itemsFrom_cons offset (congrArg Prod.snd before), before, none_behind]
    exact ⟨rfl, fun lexeme member => absurd member List.not_mem_nil⟩
  | item cs c rest here ih =>
    have width := width_split here
    obtain ⟨before, clear⟩ := h.splitTrivia
    rw [here, List.cons_append] at before
    rw [here] at clear
    obtain ⟨same, left⟩ := clear.scan
    obtain ⟨items, others⟩ := ih left (offset + Text.width (Lexer.splitTrivia false cs).1 +
      Text.width (Lexer.scan c rest).used)
    rw [itemsFrom_cons offset (congrArg Prod.snd before), before, same, itemsFrom_cons offset here]
    constructor
    · have stop : offset + Text.width (Lexer.splitTrivia false cs).1 +
          Text.width (Lexer.scan c rest).used + Text.width (Lexer.scan c rest).rest =
          offset + Text.width cs := by omega
      rw [stop] at items
      simp only [items]
      rfl
    · intro lexeme member
      rcases List.mem_cons.mp member with first | behind
      · intro semicolon
        have found := (itemAt_ok first.symm).1
        rw [semicolon] at found
        exact clear.ne_semicolon (scan_semicolon found)
      · exact others lexeme behind

end Lexer

/-- **A semicolon behind a clear text is its only one**, if the escapes of the text are known, and
the items before it are those of the text. -/
theorem lex_clear {s : String} (h : Lexer.Clear Lexer.Known s.toList) :
    lex (s ++ ";") =
        lex s ++ [.ok ⟨.mark .semicolon, ⟨s.utf8ByteSize, s.utf8ByteSize + 1⟩⟩] ∧
      ∀ lexeme, .ok lexeme ∈ lex s → lexeme.token ≠ .mark .semicolon := by
  obtain ⟨items, others⟩ := h.itemsFrom 0
  refine ⟨?_, others⟩
  rw [Nat.zero_add, Text.width_toList] at items
  rw [lex, String.toList_append]
  exact items

end Retrace
