/-
What is looked at and what is consumed.

* `Course` — a cursor in use: what was consumed from it, the lexical errors that were met, and
  where it stands.
* `Cursor.Call` — what a cursor can be asked for, and `Course.call` what an answer adds.
* `Course.Account` — how a course stands to the items of its text.
* `Keeps` — a parser leaves a course that has an account, however it ends.
* `Kept.call`, `Kept.calls` — calls leave an account.
* **`lookahead_keeps_tokens`** — whatever is looked at in between, the tokens of a text are
  consumed in order, none is lost or repeated, and each lexical error is met once.

Design notes:
* An account is one equation: what was consumed, with what was looked at behind it, are the
  tokens among the items that were passed, and ends of input behind these. A look moves an item
  from what is upcoming to both sides of it, and a token that is consumed only changes its place
  on the left.
* The end of input is consumed here as often as it is advanced to, because a cursor returns it
  each time. It goes back to the head of what was looked at, where other ends of input may
  stand by then. They are all alike, and no token of a text is one.
-/
import Retrace.Proofs.Reader.Motion
import Retrace.Proofs.Reader.WellFormed
import Retrace.Proofs.Token.Tiling

namespace Retrace

/-! ### The stream of a text -/

/-- The tokens among the items of a text. -/
def tokensOf (items : List LexItem) : List Lexeme :=
  items.filterMap Except.toOption

/-- The lexical error that an item of a text is, if it is one. -/
def LexItem.error? : LexItem → Option LexError
  | .ok _ => none
  | .error error => some error

/-- The lexical errors among the items of a text. -/
def errorsOf (items : List LexItem) : List LexError :=
  items.filterMap LexItem.error?

/-- The token at a place of a text. Behind its last token is the end of input, at every place. -/
def tokenAt (text : String) (i : Nat) : Lexeme :=
  (tokensOf (lex text))[i]?.getD (eofOf text)

/-- The lexical error that a reading error reports, if it is one. -/
def ReadError.lexical? : ReadError → Option LexError
  | lexical error => some error
  | unexpectedToken .. | unexpectedEnd .. => none

@[simp] theorem tokensOf_append (front back : List LexItem) :
    tokensOf (front ++ back) = tokensOf front ++ tokensOf back :=
  List.filterMap_append

@[simp] theorem errorsOf_append (front back : List LexItem) :
    errorsOf (front ++ back) = errorsOf front ++ errorsOf back :=
  List.filterMap_append

theorem mem_tokensOf {items : List LexItem} {lexeme : Lexeme} (h : lexeme ∈ tokensOf items) :
    .ok lexeme ∈ items := by
  obtain ⟨item, member, same⟩ := List.mem_filterMap.mp h
  cases item with
  | error => cases same
  | ok other =>
    obtain rfl := Option.some.inj same
    exact member

/-- The lexical errors of a text are at different places. -/
theorem errorsOf_nodup (text : String) : (errorsOf (lex text)).Nodup := by
  have tiles := (lexThrough_tiles text).pairwise
  have items := (List.pairwise_append.mp tiles).1
  refine List.Pairwise.filterMap _ ?_ items
  intro a b apart e here e' there same
  cases a <;> cases b <;> cases here <;> cases there
  subst same
  exact Nat.lt_irrefl _ apart.1

/-- Tokens that stand where the text has them are its first ones, and ends of input behind all of
them. -/
theorem eq_firstTokens {text : String} {lexemes : List Lexeme}
    (h : ∀ i lexeme, lexemes[i]? = some lexeme → lexeme = tokenAt text i) :
    lexemes = (tokensOf (lex text)).take lexemes.length ++
      List.replicate (lexemes.length - (tokensOf (lex text)).length) (eofOf text) := by
  refine List.ext_getElem ?_ fun i here there => ?_
  · rw [List.length_append, List.length_take, List.length_replicate]
    omega
  · rw [h i _ (List.getElem?_eq_getElem here), tokenAt, List.getElem_append]
    split
    · next inside =>
      have bound : i < (tokensOf (lex text)).length := by
        rw [List.length_take] at inside
        omega
      rw [List.getElem?_eq_getElem bound, Option.getD_some, List.getElem_take]
    · next outside =>
      have past : (tokensOf (lex text)).length ≤ i := by
        rw [List.length_take] at outside
        omega
      rw [List.getElem?_eq_none past, Option.getD_none, List.getElem_replicate]

/-! ### Calls -/

/-- What a cursor can be asked for. -/
inductive Cursor.Call
  | peekAt (n : Nat)
  | check (token : Token)
  | accept (token : Token)
  | consume (token : Token)
  | advance
  | atEnd
  | skip

/-- A cursor in use: the tokens that were consumed from it, the lexical errors that were met, both
in order, and where it stands. -/
structure Course where
  consumed : List Lexeme
  met : List LexError
  cursor : Cursor

namespace Course

/-- A course before the first token of a text. -/
def ofText (text : String) : Course :=
  ⟨[], [], .ofText text⟩

/-- A course after a parser. If there is a result, the parser consumed what is told of it. -/
def after {α : Type} (course : Course) (p : Parser α) (taken : α → Cursor → List Lexeme) :
    Course :=
  match p course.cursor with
  | .ok a c => { course with consumed := course.consumed ++ taken a c, cursor := c }
  | .error e c => { course with met := course.met ++ e.lexical?.toList, cursor := c }

/-- A course after up to `fuel` tokens were consumed, through the first semicolon. -/
def skipWithin (fuel : Nat) (course : Course) : Course :=
  match fuel with
  | 0 => course
  | fuel + 1 =>
    let next := course.after Parser.advance fun lexeme _ => [lexeme]
    match Parser.advance course.cursor with
    | .ok lexeme _ =>
      if lexeme.token = .mark .semicolon ∨ lexeme.token = .eof then next else skipWithin fuel next
    | .error _ _ => skipWithin fuel next

/-- A course after a call. Looking consumes nothing. -/
def call (course : Course) : Cursor.Call → Course
  | .peekAt n => course.after (Parser.peekAt n) fun _ _ => []
  | .check token => course.after (Parser.check token) fun _ _ => []
  | .accept token =>
    course.after (Parser.accept token) fun found c => if found then c.previous.toList else []
  | .consume token => course.after (Parser.consume token) fun lexeme _ => [lexeme]
  | .advance => course.after Parser.advance fun lexeme _ => [lexeme]
  | .atEnd => course.after Parser.atEnd fun _ _ => []
  | .skip =>
    { course.skipWithin (course.cursor.remaining + 1) with
      cursor := course.cursor.skipPastSemicolon }

/-- A course after calls. -/
def calls (course : Course) (list : List Cursor.Call) : Course :=
  list.foldl call course

@[simp] theorem calls_cons (course : Course) (first : Cursor.Call) (others : List Cursor.Call) :
    course.calls (first :: others) = (course.call first).calls others :=
  rfl

/-- What is consumed in skipping is consumed from the cursor that skips. -/
theorem skipWithin_cursor (fuel : Nat) (course : Course) :
    (course.skipWithin fuel).cursor = Parser.skipWithin fuel course.cursor := by
  induction fuel generalizing course with
  | zero => rfl
  | succ fuel ih =>
    rw [skipWithin, Parser.skipWithin]
    unfold after
    cases Parser.advance course.cursor with
    | error e c => exact ih _
    | ok lexeme c =>
      simp only
      split
      · rfl
      · exact ih _

theorem call_skip (course : Course) :
    course.call .skip = course.skipWithin (course.cursor.remaining + 1) := by
  rw [call, Cursor.skipPastSemicolon, ← skipWithin_cursor]

/-! ### Accounts -/

/-- How a course stands to the items of a text: it passed some of them, and what stands beyond them
are ends of input. -/
structure Account (text : String) (passed : List LexItem) (beyond : List Lexeme)
    (course : Course) : Prop where
  eof : course.cursor.eof = eofOf text
  split : lex text = passed ++ course.cursor.upcoming
  met : course.met = errorsOf passed
  tokens : course.consumed ++ course.cursor.ahead = tokensOf passed ++ beyond
  ends : ∀ lexeme ∈ beyond, lexeme = eofOf text
  last : beyond = [] ∨ course.cursor.upcoming = []

/-- A course has an account. -/
def Kept (text : String) (course : Course) : Prop :=
  ∃ passed beyond, course.Account text passed beyond

variable {text : String} {passed : List LexItem} {beyond : List Lexeme} {course : Course}

theorem ofText_kept (text : String) : (ofText text).Kept text :=
  ⟨[], [], rfl, rfl, rfl, rfl, nofun, .inl rfl⟩

/-- Each token that was consumed or looked at is the one that the text has there. -/
theorem Kept.passed_at {i : Nat} {lexeme : Lexeme} (h : course.Kept text)
    (there : (course.consumed ++ course.cursor.ahead)[i]? = some lexeme) :
    lexeme = tokenAt text i := by
  obtain ⟨passed, beyond, account⟩ := h
  rw [account.tokens] at there
  rw [tokenAt, account.split, tokensOf_append]
  by_cases inside : i < (tokensOf passed).length
  · rw [List.getElem?_append_left inside] at there ⊢
    rw [there, Option.getD_some]
  · -- something stands beyond, so all items were passed
    have past : (tokensOf passed).length ≤ i := Nat.le_of_not_lt inside
    rw [List.getElem?_append_right past] at there
    have member := List.mem_of_getElem? there
    have whole : course.cursor.upcoming = [] :=
      account.last.resolve_left (List.ne_nil_of_mem member)
    have none_there : (tokensOf passed ++ tokensOf [])[i]? = none :=
      List.getElem?_eq_none (by simpa [tokensOf] using past)
    rw [whole, none_there, Option.getD_none]
    exact account.ends lexeme member

theorem Kept.consumed_at {i : Nat} {lexeme : Lexeme} (h : course.Kept text)
    (there : course.consumed[i]? = some lexeme) : lexeme = tokenAt text i := by
  refine h.passed_at ?_
  rw [List.getElem?_append_left (List.getElem?_eq_some_iff.mp there).1, there]

/-- What was passed are the errors that were met, and the tokens that were consumed or looked at. -/
theorem Kept.exact (h : course.Kept text) :
    ∃ passed ends, lex text = passed ++ course.cursor.upcoming ∧ course.met = errorsOf passed ∧
      course.consumed ++ course.cursor.ahead =
        tokensOf passed ++ List.replicate ends (eofOf text) ∧
      (0 < ends → passed = lex text) := by
  obtain ⟨passed, beyond, account⟩ := h
  refine ⟨passed, beyond.length, account.split, account.met, ?_, fun some_beyond => ?_⟩
  · rw [account.tokens, ← List.eq_replicate_of_mem account.ends]
  · have whole := account.last.resolve_left (List.ne_nil_of_length_pos some_beyond)
    rw [account.split, whole, List.append_nil]

/-- No error is met twice. -/
theorem Kept.met_nodup (h : course.Kept text) : course.met.Nodup := by
  obtain ⟨passed, beyond, account⟩ := h
  have apart := errorsOf_nodup text
  rw [account.split, errorsOf_append] at apart
  rw [account.met]
  exact (List.nodup_append.mp apart).1

/-- The end of input stands beyond the tokens that were passed, with all that is behind it. -/
theorem Account.beyond_eq {lexeme : Lexeme} {ahead : List Lexeme}
    (account : course.Account text passed beyond) (first : course.cursor.ahead = lexeme :: ahead)
    (last : lexeme.token = .eof) :
    ∃ before, course.consumed = tokensOf passed ++ before ∧ beyond = before ++ lexeme :: ahead := by
  have tokens := account.tokens
  rw [first] at tokens
  rcases List.append_eq_append_iff.mp tokens with ⟨more, same, behind⟩ | found
  · cases more with
    | nil => exact ⟨[], by rw [same, List.append_nil, List.append_nil], behind.symm⟩
    | cons other more =>
      -- the token would be one of the text
      obtain ⟨rfl, -⟩ := List.cons.inj behind
      have member : lexeme ∈ tokensOf (lex text) := by
        rw [account.split, tokensOf_append, same]
        simp
      exact absurd last ((Cursor.ofText_proper text).upcoming lexeme (mem_tokensOf member))
  · exact found

/-- The token at the head of what was looked at is consumed. An end of input stays there too. -/
theorem Kept.taken {lexeme : Lexeme} {ahead : List Lexeme}
    (h : course.Kept text) (first : course.cursor.ahead = lexeme :: ahead) :
    Kept text { course with
      consumed := course.consumed ++ [lexeme]
      cursor := { course.cursor with
        ahead := if lexeme.token = .eof then course.cursor.ahead else ahead
        previous := some lexeme } } := by
  obtain ⟨passed, beyond, account⟩ := h
  by_cases last : lexeme.token = .eof
  · obtain ⟨before, consumed, rfl⟩ := account.beyond_eq first last
    have whole : course.cursor.upcoming = [] := account.last.resolve_left (by simp)
    refine ⟨passed, before ++ lexeme :: lexeme :: ahead, account.eof, account.split, account.met,
      ?_, fun l member => account.ends l ?_, .inr whole⟩
    · simp only [if_pos last, first, consumed, List.append_assoc, List.singleton_append]
    · simpa using member
  · refine ⟨passed, beyond, account.eof, account.split, account.met, ?_, account.ends,
      account.last⟩
    have tokens := account.tokens
    rw [first] at tokens
    simp only [if_neg last, List.append_assoc, List.singleton_append]
    exact tokens

end Course

/-! ### Parsers that keep accounts -/

namespace Parser

open Course

variable {α β : Type} {text : String} {course : Course} {p : Parser α} {f : α → Parser β}

/-- From a course, a parser comes to a result and a cursor of which an assertion holds, or it leaves
a course that has an account, with the error among those that were met. -/
def Keeps (text : String) (p : Parser α) (course : Course) (Q : α → Cursor → Prop) : Prop :=
  Ends p course.cursor Q fun e c =>
    Kept text { course with met := course.met ++ e.lexical?.toList, cursor := c }

theorem Keeps.mono {Q R : α → Cursor → Prop} (h : Keeps text p course Q)
    (le : ∀ a c, Q a c → R a c) : Keeps text p course R :=
  Ends.imp h le fun _ _ => id

/-- What is known of the steps of a parser is known besides. -/
theorem Keeps.and_comes {Q R : α → Cursor → Prop} (h : Keeps text p course Q)
    (steps : Comes p course.cursor R) : Keeps text p course fun a c => Q a c ∧ R a c :=
  (Ends.and h (comes_iff.mp steps)).imp (fun _ _ => id) fun _ _ => And.left

theorem keeps_bind {Q : β → Cursor → Prop}
    (h : Keeps text p course fun a c => Keeps text (f a) { course with cursor := c } Q) :
    Keeps text (p >>= f) course Q :=
  ends_bind h

/-- A look moves one item from what is upcoming to what was passed. -/
theorem keeps_lookFurther (h : course.Kept text) :
    Keeps text lookFurther course fun _ c => Kept text { course with cursor := c } := by
  obtain ⟨passed, beyond, account⟩ := h
  obtain ⟨consumed, met, ahead, upcoming, eof, previous⟩ := course
  obtain ⟨rfl, split, rfl, tokens, ends, last⟩ := account
  simp only at split tokens last
  rcases upcoming with _ | ⟨error | lexeme, upcoming⟩
  · refine ⟨passed, beyond ++ [eofOf text], rfl, split, rfl, ?_, ?_, .inr rfl⟩
    · show consumed ++ (ahead ++ [eofOf text]) = _
      rw [← List.append_assoc, tokens, List.append_assoc]
    · intro lexeme member
      rcases List.mem_append.mp member with before | here
      · exact ends lexeme before
      · exact List.mem_singleton.mp here
  · refine ⟨passed ++ [.error error], beyond, rfl, ?_, ?_, ?_, ends, ?_⟩
    · rw [split, List.append_assoc]
      rfl
    · rw [errorsOf_append]
      rfl
    · have same : tokensOf (passed ++ [.error error]) = tokensOf passed := by
        rw [tokensOf_append]
        exact List.append_nil _
      rw [same]
      exact tokens
    · exact last.imp_right fun empty => absurd empty (List.cons_ne_nil _ _)
  · obtain rfl := last.resolve_right (List.cons_ne_nil _ _)
    refine ⟨passed ++ [.ok lexeme], [], rfl, ?_, ?_, ?_, nofun, .inl rfl⟩
    · rw [split, List.append_assoc]
      rfl
    · rw [errorsOf_append]
      exact (List.append_nil _).symm
    · rw [tokensOf_append, List.append_nil]
      rw [List.append_nil] at tokens
      show consumed ++ (ahead ++ [lexeme]) = _
      rw [← List.append_assoc, tokens]
      rfl

theorem keeps_lookFurtherBy (n : Nat) (h : course.Kept text) :
    Keeps text (lookFurtherBy n) course fun _ c => Kept text { course with cursor := c } := by
  induction n generalizing course with
  | zero => exact h
  | succ n ih => exact keeps_bind ((keeps_lookFurther h).mono fun _ _ kept => ih kept)

theorem keeps_peekAt (n : Nat) (h : course.Kept text) :
    Keeps text (peekAt n) course fun _ c => Kept text { course with cursor := c } := by
  show Keeps text (lookFurtherBy (n + 1 - course.cursor.ahead.length) >>= fun _ c =>
    .ok (c.ahead[n]?.getD c.eof).token c) course _
  exact keeps_bind ((keeps_lookFurtherBy _ h).mono fun _ _ kept => kept)

theorem keeps_check (token : Token) (h : course.Kept text) :
    Keeps text (check token) course fun _ c => Kept text { course with cursor := c } :=
  keeps_bind ((keeps_peekAt 0 h).mono fun _ _ kept => kept)

theorem keeps_advance (h : course.Kept text) :
    Keeps text advance course fun lexeme c =>
      Kept text { course with consumed := course.consumed ++ [lexeme], cursor := c } ∧
        c.previous = some lexeme := by
  show Keeps text (lookFurtherBy (1 - course.cursor.ahead.length) >>= fun _ => takeNext) course _
  refine keeps_bind (((keeps_lookFurtherBy _ h).and_comes (lookAtNext_comes _)).mono ?_)
  rintro _ c ⟨kept, _, lexeme, ahead, first⟩
  have taken := kept.taken first
  simp only [first] at taken
  simp only [Keeps, Ends, takeNext, first, List.head?_cons, Option.getD_some, List.tail_cons]
  exact ⟨taken, trivial⟩

theorem keeps_accept (token : Token) (h : course.Kept text) :
    Keeps text (accept token) course fun found c =>
      Kept text { course with
        consumed := course.consumed ++ if found then c.previous.toList else []
        cursor := c } := by
  refine keeps_bind ((keeps_check token h).mono fun found c kept => ?_)
  split
  · refine keeps_bind ((keeps_advance kept).mono ?_)
    rintro lexeme c' ⟨kept', latest⟩
    show Kept text _
    rw [if_pos rfl, latest]
    exact kept'
  · show Kept text _
    rw [if_neg Bool.false_ne_true, List.append_nil]
    exact kept

theorem keeps_consume (token : Token) (h : course.Kept text) :
    Keeps text (consume token) course fun lexeme c =>
      Kept text { course with consumed := course.consumed ++ [lexeme], cursor := c } := by
  refine keeps_bind ((keeps_check token h).mono fun found c kept => ?_)
  split
  · exact (keeps_advance kept).mono fun _ _ h => h.1
  · -- a token that does not fit is no lexical error
    have grammatical : (c.unexpected token.describe).lexical? = none := by
      unfold Cursor.unexpected
      split
      · rfl
      · split <;> rfl
    show Kept text _
    simp only [grammatical, Option.toList_none, List.append_nil]
    exact kept

end Parser

/-! ### Courses that keep accounts -/

namespace Course

open Retrace.Parser

variable {text : String} {course : Course}

theorem Kept.after {α : Type} {p : Parser α} {taken : α → Cursor → List Lexeme}
    (h : Keeps text p course fun a c =>
      Kept text { course with consumed := course.consumed ++ taken a c, cursor := c }) :
    (course.after p taken).Kept text := by
  unfold Keeps Ends at h
  unfold Course.after
  split <;> next result => rw [result] at h; exact h

theorem Kept.advance (h : course.Kept text) :
    (course.after Parser.advance fun lexeme _ => [lexeme]).Kept text :=
  .after ((keeps_advance h).mono fun _ _ kept => kept.1)

theorem Kept.look {α : Type} {p : Parser α}
    (h : Keeps text p course fun _ c => Kept text { course with cursor := c }) :
    (course.after p fun _ _ => []).Kept text :=
  .after (h.mono fun _ _ kept => by rwa [List.append_nil])

theorem Kept.skipWithin (fuel : Nat) (h : course.Kept text) :
    (course.skipWithin fuel).Kept text := by
  induction fuel generalizing course with
  | zero => exact h
  | succ fuel ih =>
    rw [Course.skipWithin]
    split
    · split
      · exact h.advance
      · exact ih h.advance
    · exact ih h.advance

/-- **A call leaves an account.** -/
theorem Kept.call (call : Cursor.Call) (h : course.Kept text) : (course.call call).Kept text := by
  cases call with
  | peekAt n => exact .look (keeps_peekAt n h)
  | check token => exact .look (keeps_check token h)
  | accept token => exact .after (keeps_accept token h)
  | consume token => exact .after (keeps_consume token h)
  | advance => exact h.advance
  | atEnd => exact .look (keeps_check .eof h)
  | skip =>
    rw [call_skip]
    exact h.skipWithin _

/-- **Calls leave an account.** -/
theorem Kept.calls (list : List Cursor.Call) (h : course.Kept text) :
    (course.calls list).Kept text := by
  induction list generalizing course with
  | nil => exact h
  | cons first others ih => exact ih (h.call first)

/-- A token that was looked at is advanced to. -/
theorem call_advance {lexeme : Lexeme} {ahead : List Lexeme}
    (first : course.cursor.ahead = lexeme :: ahead) :
    course.call .advance = { course with
      consumed := course.consumed ++ [lexeme]
      cursor := { course.cursor with
        ahead := if lexeme.token = .eof then course.cursor.ahead else ahead
        previous := some lexeme } } := by
  rw [call, after, advance_seen first]

/-- Tokens that were looked at are advanced to, one by one and without an error. -/
theorem calls_advance (n : Nat) (enough : n ≤ course.cursor.ahead.length) :
    ∃ more, (course.calls (.replicate n .advance)).consumed = course.consumed ++ more ∧
      more.length = n ∧ (course.calls (.replicate n .advance)).met = course.met := by
  induction n generalizing course with
  | zero => exact ⟨[], (List.append_nil _).symm, rfl, rfl⟩
  | succ n ih =>
    cases first : course.cursor.ahead with
    | nil =>
      rw [first] at enough
      exact absurd enough (Nat.not_succ_le_zero n)
    | cons lexeme ahead =>
      have next := call_advance first
      have still : n ≤ (course.call .advance).cursor.ahead.length := by
        rw [first, List.length_cons] at enough
        rw [next]
        simp only
        split
        · rw [first, List.length_cons]
          omega
        · omega
      obtain ⟨more, consumed, length, met⟩ := ih still
      refine ⟨lexeme :: more, ?_, by rw [List.length_cons, length], ?_⟩
      · rw [List.replicate_succ, calls_cons, consumed, next, List.append_assoc,
          List.singleton_append]
      · rw [List.replicate_succ, calls_cons, met, next]

/-- What a look shows is looked at after it. -/
theorem call_peekAt {n : Nat} {t : Token} {c : Cursor}
    (h : Parser.peekAt n course.cursor = .ok t c) :
    course.call (.peekAt n) = { course with cursor := c } ∧
      ∃ lexeme, c.ahead[n]? = some lexeme ∧ lexeme.token = t := by
  have comes := peekAt_comes n course.cursor
  rw [Comes, h] at comes
  refine ⟨?_, comes.2.2⟩
  rw [call, after, h]
  simp only [List.append_nil]

/-- After a look, an advance to the token that it showed succeeds. -/
theorem calls_peekAt_advance {n : Nat} {t : Token} {c : Cursor}
    (h : Parser.peekAt n course.cursor = .ok t c) :
    ∃ front last, (course.calls (.peekAt n :: .replicate (n + 1) .advance)).consumed =
        course.consumed ++ front ++ [last] ∧ front.length = n ∧
      (course.calls (.peekAt n :: .replicate (n + 1) .advance)).met = course.met := by
  obtain ⟨looked, lexeme, there, -⟩ := call_peekAt h
  have enough : n + 1 ≤ (course.call (.peekAt n)).cursor.ahead.length := by
    rw [looked]
    exact (List.getElem?_eq_some_iff.mp there).1
  obtain ⟨more, consumed, length, met⟩ := calls_advance (n + 1) enough
  rw [← calls_cons, looked] at consumed met
  rcases List.eq_nil_or_concat' more with rfl | ⟨front, last, rfl⟩
  · cases length
  · exact ⟨front, last, by rw [consumed, List.append_assoc], by simpa using length, met⟩

/-- A look shows the token that the text has there. -/
theorem Kept.shown {n : Nat} {t : Token} {c : Cursor} (h : course.Kept text)
    (shows : Parser.peekAt n course.cursor = .ok t c) :
    t = (tokenAt text (course.consumed.length + n)).token := by
  obtain ⟨looked, lexeme, there, rfl⟩ := call_peekAt shows
  have kept := h.call (.peekAt n)
  rw [looked] at kept
  refine congrArg _ (kept.passed_at ?_)
  rw [List.getElem?_append_right (Nat.le_add_right _ n), Nat.add_sub_cancel_left, there]

end Course

open Course in
/-- **Whatever is looked at, no token is lost or repeated.** Take any text, and any calls to the
cursor over it. The tokens that were consumed are the first ones of the text, in order, and ends of
input behind all of them. The items that were passed are the lexical errors that were met, and the
tokens that were consumed or looked at, so no error before these is left out, and none is met twice.
What a look shows is what is consumed there: advancing as far succeeds and comes to it, and so
do any other calls that come as far. -/
theorem lookahead_keeps_tokens (text : String) (before : List Cursor.Call) :
    let course := (ofText text).calls before
    course.consumed = (tokensOf (lex text)).take course.consumed.length ++
        List.replicate (course.consumed.length - (tokensOf (lex text)).length) (eofOf text) ∧
      (∃ passed ends, lex text = passed ++ course.cursor.upcoming ∧
        course.met = errorsOf passed ∧
        course.consumed ++ course.cursor.ahead =
          tokensOf passed ++ List.replicate ends (eofOf text) ∧
        (0 < ends → passed = lex text)) ∧
      course.met.Nodup ∧
      ∀ n t c, Parser.peekAt n course.cursor = .ok t c →
        (∃ front last,
          (course.calls (.peekAt n :: .replicate (n + 1) .advance)).consumed =
            course.consumed ++ front ++ [last] ∧
          front.length = n ∧ last.token = t ∧
          (course.calls (.peekAt n :: .replicate (n + 1) .advance)).met = course.met) ∧
        ∀ later lexeme,
          (course.calls later).consumed[course.consumed.length + n]? = some lexeme →
            lexeme.token = t := by
  intro course
  have kept : course.Kept text := (ofText_kept text).calls before
  refine ⟨eq_firstTokens fun i lexeme there => kept.consumed_at there, kept.exact, kept.met_nodup,
    fun n t c shows => ?_⟩
  -- whatever is consumed there is the token that the text has there
  have steady : ∀ later lexeme,
      (course.calls later).consumed[course.consumed.length + n]? = some lexeme →
        lexeme.token = t := by
    intro later lexeme consumed
    rw [kept.shown shows, (kept.calls later).consumed_at consumed]
  obtain ⟨front, last, consumed, length, met⟩ := calls_peekAt_advance shows
  have at_last : (course.calls (.peekAt n :: .replicate (n + 1) .advance)).consumed[
      course.consumed.length + n]? = some last := by
    rw [consumed, List.getElem?_append_right (by simp [length])]
    simp [length]
  exact ⟨⟨front, last, consumed, length, steady _ last at_last, met⟩, steady⟩

/-- Behind an error and at the end of a text. -/
example :
    let course := (Course.ofText "a $ b").calls
      [.peekAt 1, .peekAt 3, .advance, .accept (.name "b"), .peekAt 0, .advance, .advance]
    course.consumed.map (·.token) = [.name "a", .name "b", .eof, .eof] ∧
      course.met = [⟨.unexpectedChar '$', ⟨2, 3⟩⟩] := by
  cbv

end Retrace
