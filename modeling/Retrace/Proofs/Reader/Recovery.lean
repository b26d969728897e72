/-
Reading goes on after text that is no token.

* `skip_through` — to skip is to give up on all that is before the next semicolon.
* `skip_after_stop` — behind a semicolon that is the first, the reader that stopped before
  it and skipped stands at the text behind.
* **`skip_recovers`** — after a text with known escapes that is not read, the calls
  return what they return on the text behind its semicolon.
* **`skip_loses_statement`** — where an escape is unknown they do not.

Design notes: a reader stops at the first piece that is no token, and what it looked at is
in front of that piece. So none of it is the semicolon.
-/
import Mathlib
import Retrace.Proofs.Reader.Calls
import Retrace.Proofs.Reader.Stopping
import Retrace.Proofs.Token.Clear

namespace Retrace

open Retrace.Parser

/-! ### Skipping -/

/-- Tokens that skipping passes over. -/
def Lexeme.Passed (lexeme : Lexeme) : Prop :=
  lexeme.token ≠ .mark .semicolon ∧ lexeme.token ≠ .eof

section

variable {ahead : List Lexeme} {front more : List LexItem} {last eof : Lexeme}

theorem skipWithin_through {fuel : Nat} {previous : Option Lexeme}
    (seen : ∀ lexeme ∈ ahead, lexeme.Passed) (unseen : ∀ lexeme, .ok lexeme ∈ front → lexeme.Passed)
    (semicolon : last.token = .mark .semicolon) (enough : ahead.length + front.length < fuel) :
    skipWithin fuel ⟨ahead, front ++ .ok last :: more, eof, previous⟩
      = ⟨[], more, eof, some last⟩ := by
  have taken : ∀ lexeme upcoming (previous : Option Lexeme), lexeme.token ≠ .eof →
      advance ⟨[], .ok lexeme :: upcoming, eof, previous⟩ =
        .ok lexeme ⟨[], upcoming, eof, some lexeme⟩ := by
    intro lexeme upcoming previous other
    have run : advance ⟨[], .ok lexeme :: upcoming, eof, previous⟩ = .ok lexeme
        ⟨if lexeme.token = .eof then [lexeme] else [], upcoming, eof, some lexeme⟩ := rfl
    rw [run, if_neg other]
  induction fuel generalizing ahead front previous with
  | zero => exact absurd enough (Nat.not_lt_zero _)
  | succ fuel ih =>
    rw [skipWithin]
    cases ahead with
    | cons lexeme ahead =>
      obtain ⟨here, seen⟩ := List.forall_mem_cons.mp seen
      rw [advance_seen rfl]
      simp only [if_neg here.2, if_neg (not_or.mpr here)]
      exact ih seen unseen (by simp only [List.length_cons] at enough; omega)
    | nil =>
      rcases front with _ | ⟨error | lexeme, front⟩
      · have other : last.token ≠ .eof := by
          rw [semicolon]
          exact fun same => Token.noConfusion same
        rw [List.nil_append, taken last more previous other]
        simp only [if_pos (Or.inl semicolon : _ ∨ last.token = .eof)]
      · have dropped : advance ⟨[], .error error :: (front ++ .ok last :: more), eof, previous⟩ =
            .error (.lexical error) ⟨[], front ++ .ok last :: more, eof, previous⟩ := rfl
        rw [List.cons_append, dropped]
        exact ih seen (fun lexeme member => unseen lexeme (.tail _ member))
          (by simp only [List.length_cons] at enough; omega)
      · have here := unseen lexeme (.head _)
        rw [List.cons_append, taken lexeme _ previous here.2]
        simp only [if_neg (not_or.mpr here)]
        exact ih (List.forall_mem_nil _) (fun lexeme member => unseen lexeme (.tail _ member))
          (by simp only [List.length_cons] at enough ⊢; omega)

/-- **To skip is to give up on all that is before the next semicolon.** -/
theorem Cursor.skip_through {previous : Option Lexeme} (seen : ∀ lexeme ∈ ahead, lexeme.Passed)
    (unseen : ∀ lexeme, .ok lexeme ∈ front → lexeme.Passed)
    (semicolon : last.token = .mark .semicolon) :
    skipPastSemicolon ⟨ahead, front ++ .ok last :: more, eof, previous⟩
      = ⟨[], more, eof, some last⟩ := by
  have keep : ahead.filter (·.token ≠ .eof) = ahead :=
    List.filter_eq_self.mpr fun lexeme member => by simpa using (seen lexeme member).2
  rw [skipPastSemicolon, remaining]
  refine skipWithin_through seen unseen semicolon ?_
  simp only [keep, List.length_append, List.length_cons]
  omega

/-- A text with a piece that is no token has a first. -/
theorem exists_first_error {items : List LexItem} (h : ∃ e, .error e ∈ items) :
    ∃ (front : List Lexeme) (e : LexError) (back : List LexItem),
      items = front.map .ok ++ .error e :: back := by
  obtain ⟨e, member⟩ := h
  induction items with
  | nil => cases member
  | cons item items ih =>
    cases item with
    | error e' => exact ⟨[], e', items, rfl⟩
    | ok lexeme =>
      rcases List.mem_cons.mp member with same | member
      · cases same
      · obtain ⟨front, e', back, rfl⟩ := ih member
        exact ⟨lexeme :: front, e', back, rfl⟩

end

/-! ### Stopping and skipping -/

namespace Reader

variable {p q : String} {config : ReaderConfig} {front : List LexItem} {start : Nat}
  {error : LexError}

/-- Two errors in a row, with what is wrong skipped between them. -/
theorem errors_of_runs {r : Reader} {e e' : ReadError} {c c' : Cursor}
    (h : nextStatement r.config.operators r.cursor = .error e c)
    (h' : nextStatement r.config.operators c.skipPastSemicolon = .error e' c') :
    r.read.1 = .error e ∧ r.read.2.skip.answers [.read] = [.error e'] := by
  rw [read_of_error h]
  have again : ({ r with cursor := c }.report e).skip.read.1 = .error e' := error_of_run h'
  exact ⟨rfl, congrArg (· :: []) again⟩

/-- The reader of two texts that stopped before the end of the first, at text that is no token,
and skipped, stands at the second. -/
theorem skip_after_stop
    (items : lex p = front ++ [.ok ⟨.mark .semicolon, ⟨start, Text.width p.toList⟩⟩])
    (others : ∀ lexeme, .ok lexeme ∈ front → lexeme.token ≠ .mark .semicolon)
    (flawed : ∃ e, .error e ∈ front)
    (stopped : (ofText (p ++ q) config).read.1 = .error (.lexical error)) :
    Further (Text.width p.toList) (ofText q config) (ofText (p ++ q) config).read.2.skip := by
  have ends : EndsStatement p := ⟨start, by rw [items, List.getLast?_concat]⟩
  obtain ⟨tokens, e, back, rfl⟩ := exists_first_error flawed
  have passed : ∀ lexeme, .ok lexeme ∈ tokens.map .ok ++ .error e :: back → lexeme.Passed := by
    intro lexeme member
    have inside : .ok lexeme ∈ lex p := by
      rw [items]
      exact List.mem_append_left _ member
    refine ⟨others lexeme member, fun isEof => ?_⟩
    have writable := lex_writable inside
    rw [isEof] at writable
    exact writable
  let last : Lexeme := ⟨.mark .semicolon, ⟨start, Text.width p.toList⟩⟩
  let second := (lex q).map (LexItem.shift (Text.width p.toList))
  let behind := back ++ .ok last :: second
  have upcoming : (Cursor.ofText (p ++ q)).upcoming = tokens.map .ok ++ .error e :: behind := by
    show lex (p ++ q) = _
    rw [lex_append ends, items]
    simp [behind, second, last]
  have fork : (Cursor.ofText (p ++ q)).Fork Lexeme.Passed e behind (.error e :: behind)
      (.ofText (p ++ q)) :=
    ⟨Cursor.ofText_proper _, Cursor.ofText_proper _, rfl, rfl,
      ⟨tokens, upcoming, upcoming, fun lexeme member =>
        passed lexeme (List.mem_append_left _ (List.mem_map_of_mem member))⟩,
      List.forall_mem_nil _⟩
  have moves := nextStatement_moves config.operators (Cursor.ofText (p ++ q)) Cursor.sees_none
  -- what reading comes to first is the piece that is no token
  cases nextStatement_parts config.operators fork with
  | found node c c' first =>
    have run : (ofText (p ++ q) config).read = _ := read_of_result first
    rw [run] at stopped
    cases stopped
  | failed e' c c' first _ grammatical =>
    have run : (ofText (p ++ q) config).read = _ := read_of_error first
    rw [run] at stopped
    exact absurd (Except.error.inj stopped) (grammatical error)
  | stopped c first left seen =>
    have run : (ofText (p ++ q) config).read = _ := read_of_error first
    rw [Comes, first] at moves
    have eof : c.eof = eofOf (p ++ q) := moves.keeps (I := fun c => c.eof = eofOf (p ++ q))
      (fun step same => by cases step <;> exact same) rfl
    obtain ⟨ahead, upcoming', eof', previous⟩ := c
    obtain rfl : upcoming' = behind := left
    obtain rfl : eof' = eofOf (p ++ q) := eof
    have skipped : Cursor.skipPastSemicolon ⟨ahead, behind, eofOf (p ++ q), previous⟩ = _ :=
      Cursor.skip_through seen (fun lexeme member =>
        passed lexeme (List.mem_append_right _ (.tail _ member))) rfl
    have there : (ofText (p ++ q) config).read.2.skip.cursor =
        ⟨[], second, (eofOf q).shift (Text.width p.toList), some last⟩ := by
      rw [run, ← eofOf_append]
      exact skipped
    refine ⟨(read_reaches _).2, Cursor.ofText_proper q, ?_⟩
    rw [there]
    refine ⟨rfl, rfl, rfl, ?_, fun _ => ⟨last, rfl, rfl⟩⟩
    rintro _ ⟨⟩

end Reader

/-- **Recovery after a lexical error reaches the text behind the semicolon.** Take a text without
comments that has a piece that is no token, in which semicolons stand in string literals only, all
literals are closed, and every escape is known. If reading it in front of a semicolon and any other
text stops with a lexical error, and what is wrong is skipped, then every sequence of calls returns
what it returns on the other text, further on. -/
theorem skip_recovers {s : String} (clear : Lexer.Clear Lexer.Known s.toList)
    (flawed : ∃ e, .error e ∈ lex s) {r : String} {config : ReaderConfig} {error : LexError}
    (stopped : (Reader.ofText (s ++ ";" ++ r) config).read.1 = .error (.lexical error))
    (calls : List Reader.Call) :
    (Reader.ofText (s ++ ";" ++ r) config).read.2.skip.answers calls =
      ((Reader.ofText r config).answers calls).map (Reader.shifted (s ++ ";").utf8ByteSize) := by
  obtain ⟨items, others⟩ := lex_clear clear
  have width : (s ++ ";").utf8ByteSize = s.utf8ByteSize + 1 := String.utf8ByteSize_append
  rw [← width, ← Text.width_toList (s ++ ";")] at items
  rw [← Text.width_toList (s ++ ";")]
  exact Reader.answers_further (Reader.skip_after_stop items others flawed stopped) calls

/-- After an unexpected character the next statement is read, and a semicolon in a string literal
does not count. -/
theorem skip_recovers_dollar :
    Lexer.Clear Lexer.Known "$ \";\"".toList ∧ (∃ e, .error e ∈ lex "$ \";\"") ∧
      (Reader.plain ("$ \";\"" ++ ";" ++ "2;")).read.1 =
        .error (.lexical ⟨.unexpectedChar '$', ⟨0, 1⟩⟩) ∧
      (Reader.plain ("$ \";\"" ++ ";" ++ "2;")).read.2.skip.answers [.read] =
        [.ok (some (.atom (.int 2) ⟨6, 7⟩))] := by
  have chars : "$ \";\"".toList = ['$', ' ', '"', ';', '"'] := by cbv
  have body : Lexer.InQuotes Lexer.Known [';'] := .plain (by decide) (by decide) .nil
  have clear : Lexer.Clear Lexer.Known "$ \";\"".toList := by
    rw [chars]
    exact .outside (by decide) (by decide) (by decide)
      (.outside (by decide) (by decide) (by decide) (.literal body .nil))
  have items : lex "$ \";\"" =
      [.error ⟨.unexpectedChar '$', ⟨0, 1⟩⟩, .ok ⟨.str ";", ⟨2, 5⟩⟩] := by cbv
  have flawed : ∃ e, .error e ∈ lex "$ \";\"" := by
    rw [items]
    exact ⟨_, .head _⟩
  have run : Reader.nextStatement .builtins (Cursor.ofText ("$ \";\"" ++ ";" ++ "2;")) =
      .error (.lexical ⟨.unexpectedChar '$', ⟨0, 1⟩⟩)
        ⟨[], [.ok ⟨.str ";", ⟨2, 5⟩⟩, .ok ⟨.mark .semicolon, ⟨5, 6⟩⟩, .ok ⟨.int 2, ⟨6, 7⟩⟩,
          .ok ⟨.mark .semicolon, ⟨7, 8⟩⟩], ⟨.eof, ⟨8, 8⟩⟩, none⟩ := by cbv
  have stopped : (Reader.plain ("$ \";\"" ++ ";" ++ "2;")).read.1 =
      .error (.lexical ⟨.unexpectedChar '$', ⟨0, 1⟩⟩) := Reader.error_of_run run
  have alone : (Reader.plain "2;").answers [.read] = [.ok (some (.atom (.int 2) ⟨0, 1⟩))] := by
    cbv
  refine ⟨clear, flawed, stopped, ?_⟩
  have both := skip_recovers clear flawed stopped [.read]
  exact both.trans (by rw [show Reader.ofText "2;" _ = Reader.plain "2;" from rfl, alone]; rfl)

/-- An unknown escape ends the scan of its literal, so a semicolon and a quote in the rest of the
literal are taken for program text, and the statement behind is lost. -/
theorem skip_loses_statement :
    Lexer.Clear (fun _ => True) "\"a\\q;b\"".toList ∧ (∃ e, .error e ∈ lex "\"a\\q;b\"") ∧
      (Reader.plain ("\"a\\q;b\"" ++ ";" ++ "1;")).read.1 =
        .error (.lexical ⟨.invalidEscape 'q', ⟨0, 4⟩⟩) ∧
      (Reader.plain ("\"a\\q;b\"" ++ ";" ++ "1;")).read.2.skip.answers [.read] ≠
        ((Reader.plain "1;").answers [.read]).map
          (Reader.shifted ("\"a\\q;b\"" ++ ";").utf8ByteSize) := by
  have chars : "\"a\\q;b\"".toList = ['"', 'a', '\\', 'q', ';', 'b', '"'] := by cbv
  have body : Lexer.InQuotes (fun _ => True) ['a', '\\', 'q', ';', 'b'] :=
    .plain (by decide) (by decide) (.escaped trivial
      (.plain (by decide) (by decide) (.plain (by decide) (by decide) .nil)))
  have clear : Lexer.Clear (fun _ => True) "\"a\\q;b\"".toList := by
    rw [chars]
    exact .literal body .nil
  have run : Reader.nextStatement .builtins (Cursor.ofText ("\"a\\q;b\"" ++ ";" ++ "1;")) =
      .error (.lexical ⟨.invalidEscape 'q', ⟨0, 4⟩⟩)
        ⟨[], [.ok ⟨.mark .semicolon, ⟨4, 5⟩⟩, .ok ⟨.name "b", ⟨5, 6⟩⟩,
          .error ⟨.unterminatedString, ⟨6, 10⟩⟩], ⟨.eof, ⟨10, 10⟩⟩, none⟩ := by cbv
  have behind : Reader.nextStatement .builtins (Cursor.skipPastSemicolon
      ⟨[], [.ok ⟨.mark .semicolon, ⟨4, 5⟩⟩, .ok ⟨.name "b", ⟨5, 6⟩⟩,
          .error ⟨.unterminatedString, ⟨6, 10⟩⟩], ⟨.eof, ⟨10, 10⟩⟩, none⟩) =
      .error (.lexical ⟨.unterminatedString, ⟨6, 10⟩⟩)
        ⟨[], [], ⟨.eof, ⟨10, 10⟩⟩, some ⟨.name "b", ⟨5, 6⟩⟩⟩ := by cbv
  obtain ⟨stopped, lost⟩ : (Reader.plain ("\"a\\q;b\"" ++ ";" ++ "1;")).read.1 = _ ∧ _ :=
    Reader.errors_of_runs run behind
  have alone : (Reader.plain "1;").answers [.read] = [.ok (some (.atom (.int 1) ⟨0, 1⟩))] := by
    cbv
  have items : lex "\"a\\q;b\"" = .error ⟨.invalidEscape 'q', ⟨0, 4⟩⟩ ::
      [.ok ⟨.mark .semicolon, ⟨4, 5⟩⟩, .ok ⟨.name "b", ⟨5, 6⟩⟩,
        .error ⟨.unterminatedString, ⟨6, 7⟩⟩] := by cbv
  refine ⟨clear, ⟨_, items ▸ List.mem_cons_self⟩, stopped, ?_⟩
  rw [lost, alone]
  intro same
  cases same

end Retrace
