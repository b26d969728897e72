/-
What parsers see of a text.

* `Feed` — what is left to read: tokens, and pieces that are none.
* `Cursor.Proper` — cursors that come up in reading.
* `Cursor.feed` — the feed of a cursor.
* **`Yields`** — what a parser does to a feed, and whether it may stop with an error.
* `yields_bind`, `yields_peek` and so on — the steps that parsers are made of.

Design notes:
* How far a cursor looked ahead is not part of its feed. Where it matters, which is in
  the spans of some trees, a feed says too little, and nothing here is about spans.
* Behind the last token of a feed stands the end of input, as often as it is asked for.
* With an error allowed, `Yields` is partial correctness, and without one total. The
  rules are the same for both: a step that can stop asks for a reason why it may.
* An assertion is about a result and the feed after it, so the assertions about a
  sequence of steps are nested as the steps are.
-/
import Retrace.Reader.Sequence

namespace Retrace

/-- What is left to read: tokens, and pieces of text that are no token. -/
abbrev Feed := List (Option Token)

namespace Feed

/-- What stands at a distance from the next place. -/
def item (feed : Feed) (n : Nat) : Option Token :=
  feed[n]?.getD (some .eof)

/-- What comes next. -/
def next (feed : Feed) : Option Token :=
  feed.item 0

/-- What comes next is the head of the feed, unless it is the end of input. -/
theorem cons_of_next {feed : Feed} {t : Token} (h : feed.next = some t) (other : t ≠ .eof) :
    ∃ rest, feed = some t :: rest := by
  cases feed with
  | nil => exact absurd (Option.some.inj h).symm other
  | cons item rest =>
    obtain rfl : item = some t := h
    exact ⟨rest, rfl⟩

end Feed

/-- The token of an item of a text, if it is one. -/
def tokenOf : LexItem → Option Token
  | .ok lexeme => some lexeme.token
  | .error _ => none

namespace Cursor

/-- What a cursor has before it. -/
def feed (c : Cursor) : Feed :=
  (c.ahead.filter (·.token ≠ .eof)).map (some ·.token) ++ c.upcoming.map tokenOf

/-- Cursors that come up in reading: the end of input stands behind all other tokens. -/
structure Proper (c : Cursor) : Prop where
  eof : c.eof.token = .eof
  upcoming : ∀ lexeme, .ok lexeme ∈ c.upcoming → lexeme.token ≠ .eof
  ahead : ∃ front back, c.ahead = front ++ back ∧ (∀ lexeme ∈ front, lexeme.token ≠ .eof) ∧
    (∀ lexeme ∈ back, lexeme.token = .eof) ∧ (back = [] ∨ c.upcoming = [])

variable {c c' : Cursor}

theorem feed_eq {front back : List Lexeme} (h : c.ahead = front ++ back)
    (hfront : ∀ lexeme ∈ front, lexeme.token ≠ .eof)
    (hback : ∀ lexeme ∈ back, lexeme.token = .eof) :
    c.feed = front.map (some ·.token) ++ c.upcoming.map tokenOf := by
  have keep : front.filter (·.token ≠ .eof) = front :=
    List.filter_eq_self.mpr fun lexeme member => by simpa using hfront lexeme member
  have drop : back.filter (·.token ≠ .eof) = [] :=
    List.filter_eq_nil_iff.mpr fun lexeme member => by simpa using hback lexeme member
  rw [feed, h, List.filter_append, keep, drop, List.append_nil]

/-- The tokens that were looked at are the first of the feed. -/
theorem Proper.item_ahead (proper : c.Proper) {n : Nat} {lexeme : Lexeme}
    (h : c.ahead[n]? = some lexeme) : c.feed.item n = some lexeme.token := by
  obtain ⟨front, back, hahead, hfront, hback, beyond⟩ := proper.ahead
  rw [feed_eq hahead hfront hback, Feed.item]
  rw [hahead] at h
  by_cases inside : n < front.length
  · rw [List.getElem?_append_left inside] at h
    rw [List.getElem?_append_left (by simpa using inside), List.getElem?_map, h]
    rfl
  · -- a token behind the front is an end of input, and nothing comes after it
    have past : front.length ≤ n := Nat.le_of_not_lt inside
    rw [List.getElem?_append_right past] at h
    have isEof := hback lexeme (List.mem_of_getElem? h)
    rcases beyond with rfl | none_upcoming
    · exact absurd h (by simp)
    · rw [none_upcoming, List.map_nil, List.append_nil, List.getElem?_map,
        List.getElem?_eq_none past, isEof]
      rfl

end Cursor

namespace Parser

variable {c c' : Cursor}

/-! ### Looking ahead -/

theorem lookFurther_ok (proper : c.Proper) (h : lookFurther c = .ok () c') :
    c'.Proper ∧ c'.feed = c.feed ∧ c'.ahead.length = c.ahead.length + 1 := by
  obtain ⟨ahead, upcoming, eof, previous⟩ := c
  obtain ⟨heof, hupcoming, front, back, hahead, hfront, hback, beyond⟩ := proper
  simp only at heof hupcoming hahead beyond
  cases upcoming with
  | nil =>
    -- one end of input more stands behind the others
    obtain rfl := (EStateM.Result.ok.inj h).2
    have more : ∀ lexeme ∈ back ++ [eof], lexeme.token = .eof := by
      intro lexeme member
      rcases List.mem_append.mp member with member | member
      · exact hback lexeme member
      · rw [List.mem_singleton.mp member, heof]
    have split : ahead ++ [eof] = front ++ (back ++ [eof]) := by rw [hahead, List.append_assoc]
    refine ⟨⟨heof, hupcoming, front, back ++ [eof], split, hfront, more, .inr rfl⟩, ?_, by simp⟩
    rw [Cursor.feed_eq (c := ⟨_, _, _, _⟩) split hfront more,
      Cursor.feed_eq (c := ⟨_, _, _, _⟩) hahead hfront hback]
  | cons item upcoming =>
    rcases beyond with rfl | empty
    · cases item with
      | error e => exact nomatch h
      | ok lexeme =>
        -- the token moves from what is upcoming to what was looked at
        obtain rfl := (EStateM.Result.ok.inj h).2
        have more : ∀ l ∈ front ++ [lexeme], l.token ≠ .eof := by
          intro l member
          rcases List.mem_append.mp member with member | member
          · exact hfront l member
          · rw [List.mem_singleton.mp member]
            exact hupcoming lexeme (.head _)
        have split : ahead ++ [lexeme] = (front ++ [lexeme]) ++ [] := by
          rw [hahead, List.append_nil, List.append_nil]
        refine ⟨⟨heof, fun l member => hupcoming l (.tail _ member), front ++ [lexeme], [], split,
          more, hback, .inl rfl⟩, ?_, by simp⟩
        rw [Cursor.feed_eq (c := ⟨_, _, _, _⟩) split more hback,
          Cursor.feed_eq (c := ⟨_, _, _, _⟩) hahead hfront hback]
        simp [tokenOf]
    · exact absurd empty (by simp)

/-- A look succeeds unless it comes to a piece that is no token. -/
theorem lookFurther_error (proper : c.Proper) {e : ReadError}
    (h : lookFurther c = .error e c') : c.feed.item c.ahead.length = none := by
  obtain ⟨ahead, upcoming, eof, previous⟩ := c
  obtain ⟨front, back, hahead, hfront, hback, beyond⟩ := proper.ahead
  cases upcoming with
  | nil => exact nomatch h
  | cons item upcoming =>
    rcases beyond with rfl | empty
    · cases item with
      | ok lexeme => exact nomatch h
      | error e' =>
        rw [Cursor.feed_eq (c := ⟨_, _, _, _⟩) hahead hfront hback, Feed.item]
        simp only at hahead
        rw [hahead]
        simp [tokenOf]
    · exact absurd empty (by simp)

theorem lookFurtherBy_ok {n : Nat} (proper : c.Proper) (h : lookFurtherBy n c = .ok () c') :
    c'.Proper ∧ c'.feed = c.feed ∧ c'.ahead.length = c.ahead.length + n := by
  induction n generalizing c with
  | zero =>
    obtain rfl := (EStateM.Result.ok.inj h).2
    exact ⟨proper, rfl, rfl⟩
  | succ n ih =>
    have step : lookFurtherBy (n + 1) c = (lookFurther >>= fun _ => lookFurtherBy n) c := rfl
    rw [step] at h
    change EStateM.bind _ _ c = _ at h
    rw [EStateM.bind] at h
    cases hlook : lookFurther c with
    | error e c₁ =>
      rw [hlook] at h
      exact nomatch h
    | ok _ c₁ =>
      rw [hlook] at h
      obtain ⟨proper₁, same₁, length₁⟩ := lookFurther_ok proper hlook
      obtain ⟨proper', same', length'⟩ := ih proper₁ h
      exact ⟨proper', same'.trans same₁, by omega⟩

theorem lookFurtherBy_error {n : Nat} {e : ReadError} (proper : c.Proper)
    (h : lookFurtherBy n c = .error e c') :
    ∃ i, i < c.ahead.length + n ∧ c.ahead.length ≤ i ∧ c.feed.item i = none := by
  induction n generalizing c with
  | zero => exact nomatch h
  | succ n ih =>
    have step : lookFurtherBy (n + 1) c = (lookFurther >>= fun _ => lookFurtherBy n) c := rfl
    rw [step] at h
    change EStateM.bind _ _ c = _ at h
    rw [EStateM.bind] at h
    cases hlook : lookFurther c with
    | error e c₁ => exact ⟨_, by omega, Nat.le_refl _, lookFurther_error proper hlook⟩
    | ok _ c₁ =>
      rw [hlook] at h
      obtain ⟨proper₁, same₁, length₁⟩ := lookFurther_ok proper hlook
      obtain ⟨i, below, above, found⟩ := ih proper₁ h
      rw [same₁] at found
      exact ⟨i, by omega, by omega, found⟩

/-! ### What parsers are made of -/

section

variable {α β : Type}

theorem bind_run (p : Parser α) (f : α → Parser β) (c : Cursor) :
    (p >>= f) c = match p c with
      | .ok a c' => f a c'
      | .error e c' => .error e c' := by
  show EStateM.bind p f c = _
  rw [EStateM.bind]
  cases p c <;> rfl

theorem peekAt_run (n : Nat) (c : Cursor) :
    peekAt n c = match lookFurtherBy (n + 1 - c.ahead.length) c with
      | .ok _ c' => .ok (c'.ahead[n]?.getD c'.eof).token c'
      | .error e c' => .error e c' := by
  show EStateM.bind (lookFurtherBy (n + 1 - c.ahead.length)) _ c = _
  rw [EStateM.bind]
  cases lookFurtherBy (n + 1 - c.ahead.length) c <;> rfl

theorem advance_run (c : Cursor) :
    advance c = match lookFurtherBy (1 - c.ahead.length) c with
      | .ok _ c' =>
        let lexeme := c'.ahead.head?.getD c'.eof
        let ahead := if lexeme.token = .eof then c'.ahead else c'.ahead.tail
        .ok lexeme { c' with ahead, previous := some lexeme }
      | .error e c' => .error e c' := by
  show EStateM.bind (lookFurtherBy (1 - c.ahead.length)) _ c = _
  rw [EStateM.bind]
  cases lookFurtherBy (1 - c.ahead.length) c <;> rfl

theorem check_bind (t : Token) (f : Bool → Parser β) :
    (check t >>= f) = peek >>= fun t' => f (t' = t) := by
  simp only [check, bind_assoc, pure_bind]

theorem accept_bind (t : Token) (f : Bool → Parser β) :
    (accept t >>= f) = check t >>= fun found =>
      if found then advance >>= fun _ => f true else f false := by
  rw [accept, bind_assoc]
  refine congrArg _ (funext fun found => ?_)
  cases found <;> simp

theorem consume_bind (t : Token) (f : Lexeme → Parser β) :
    (consume t >>= f) = check t >>= fun found =>
      if found then advance >>= f else unexpected t.describe >>= f := by
  rw [consume, bind_assoc]
  refine congrArg _ (funext fun found => ?_)
  cases found <;> simp

end

/-! ### What parsers do to feeds -/

/-- From a feed, a parser comes to a result and a feed of which an assertion holds, or it stops
with an error, if it may. -/
def Yields {α : Type} (stops : Prop) (p : Parser α) (feed : Feed) (Q : α → Feed → Prop) : Prop :=
  ∀ c : Cursor, c.Proper → c.feed = feed →
    match p c with
    | .ok a c' => c'.Proper ∧ Q a c'.feed
    | .error _ _ => stops

section

variable {α β : Type} {stops : Prop} {p : Parser α} {f : α → Parser β} {feed : Feed}

theorem Yields.mono {Q R : α → Feed → Prop} (h : Yields stops p feed Q)
    (le : ∀ a rest, Q a rest → R a rest) : Yields stops p feed R := by
  intro c proper same
  have here := h c proper same
  cases hp : p c with
  | ok a c' =>
    rw [hp] at here
    exact ⟨here.1, le a _ here.2⟩
  | error e c' =>
    rw [hp] at here
    exact here

/-- What a parser came to, if it came to a result. -/
theorem Yields.result {Q : α → Feed → Prop} {c c' : Cursor} {a : α} (h : Yields stops p c.feed Q)
    (proper : c.Proper) (result : p c = .ok a c') : c'.Proper ∧ Q a c'.feed := by
  have here := h c proper rfl
  rw [result] at here
  exact here

theorem yields_pure {a : α} {Q : α → Feed → Prop} (h : Q a feed) :
    Yields stops (pure a) feed Q := by
  rintro c proper rfl
  exact ⟨proper, h⟩

theorem yields_bind {Q : β → Feed → Prop}
    (h : Yields stops p feed fun a rest => Yields stops (f a) rest Q) :
    Yields stops (p >>= f) feed Q := by
  intro c proper same
  have first := h c proper same
  show match EStateM.bind p f c with
    | .ok a c' => c'.Proper ∧ Q a c'.feed
    | .error _ _ => stops
  rw [EStateM.bind]
  cases hp : p c with
  | ok a c' =>
    rw [hp] at first
    exact first.2 c' first.1 rfl
  | error e c' =>
    rw [hp] at first
    exact first

theorem yields_unexpected {expected : String} {Q : α → Feed → Prop} (h : stops) :
    Yields stops (unexpected expected) feed Q :=
  fun _ _ _ => h

theorem yields_missing {Q : α → Feed → Prop} (h : stops) : Yields stops missing feed Q :=
  yields_unexpected h

theorem yields_spent {Q : α → Feed → Prop} (h : stops) : Yields stops spent feed Q :=
  yields_unexpected h

theorem yields_currentSpan {Q : Span → Feed → Prop} (h : ∀ span, Q span feed) :
    Yields stops currentSpan feed Q := by
  rintro c proper rfl
  exact ⟨proper, h _⟩

theorem yields_previousSpan {Q : Span → Feed → Prop} (h : ∀ span, Q span feed) :
    Yields stops previousSpan feed Q := by
  rintro c proper rfl
  exact ⟨proper, h _⟩

theorem yields_peekAt {n : Nat} {Q : Token → Feed → Prop}
    (h : ∀ t, feed.item n = some t → Q t feed)
    (stop : (∃ i, i ≤ n ∧ feed.item i = none) → stops) :
    Yields stops (peekAt n) feed Q := by
  rintro c proper rfl
  rw [peekAt_run]
  cases look : lookFurtherBy (n + 1 - c.ahead.length) c with
  | ok _ c' =>
    obtain ⟨proper', same, length⟩ := lookFurtherBy_ok proper look
    -- the look went far enough, and it did not change the feed
    have there : n < c'.ahead.length := by omega
    refine ⟨proper', ?_⟩
    rw [List.getElem?_eq_getElem there, Option.getD_some, same]
    refine h _ ?_
    rw [← same]
    exact proper'.item_ahead (List.getElem?_eq_getElem there)
  | error e c' =>
    obtain ⟨i, below, above, found⟩ := lookFurtherBy_error proper look
    exact stop ⟨i, by omega, found⟩

theorem yields_peek {Q : Token → Feed → Prop} (h : ∀ t, feed.next = some t → Q t feed)
    (stop : feed.next = none → stops) : Yields stops peek feed Q := by
  refine yields_peekAt h ?_
  rintro ⟨i, le, found⟩
  obtain rfl : i = 0 := by omega
  exact stop found

theorem advance_ok {c c' : Cursor} (proper : c.Proper) {n : Nat}
    (look : lookFurtherBy n c = .ok () c') (some_ahead : 0 < c.ahead.length + n) :
    ∃ lexeme, c'.ahead.head? = some lexeme ∧ c.feed.next = some lexeme.token ∧
      ∀ previous, Cursor.Proper ⟨if lexeme.token = .eof then c'.ahead else c'.ahead.tail,
          c'.upcoming, c'.eof, previous⟩ ∧
        Cursor.feed ⟨if lexeme.token = .eof then c'.ahead else c'.ahead.tail,
          c'.upcoming, c'.eof, previous⟩ = c.feed.tail := by
  obtain ⟨proper', same, length⟩ := lookFurtherBy_ok proper look
  obtain ⟨ahead, upcoming, eof, previous⟩ := c'
  cases ahead with
  | nil => exact absurd length (by simp; omega)
  | cons lexeme ahead =>
    have first : c.feed.next = some lexeme.token := by
      rw [← same]
      exact proper'.item_ahead rfl
    refine ⟨lexeme, rfl, first, fun previous' => ?_⟩
    obtain ⟨heof, hupcoming, front, back, hahead, hfront, hback, beyond⟩ := proper'
    simp only at heof hupcoming hahead beyond
    rw [← same, Cursor.feed_eq (c := ⟨_, _, _, _⟩) hahead hfront hback]
    by_cases last : lexeme.token = .eof
    · -- the end of input stays where it is, and nothing else is left
      rw [if_pos last]
      have none_front : front = [] := by
        cases front with
        | nil => rfl
        | cons l front =>
          obtain ⟨rfl, _⟩ := List.cons.inj hahead
          exact absurd last (hfront _ (.head _))
      subst none_front
      refine ⟨⟨heof, hupcoming, [], back, hahead, hfront, hback, beyond⟩, ?_⟩
      rw [Cursor.feed_eq (c := ⟨_, _, _, _⟩) hahead hfront hback]
      rcases beyond with rfl | rfl
      · exact absurd hahead (by simp)
      · rfl
    · rw [if_neg last]
      cases front with
      | nil =>
        rw [List.nil_append] at hahead
        exact absurd (hback lexeme (by rw [← hahead]; exact .head _)) last
      | cons l front =>
        obtain ⟨rfl, rest⟩ := List.cons.inj hahead
        have others : ∀ l ∈ front, l.token ≠ .eof := fun l member => hfront l (.tail _ member)
        refine ⟨⟨heof, hupcoming, front, back, rest, others, hback, beyond⟩, ?_⟩
        exact Cursor.feed_eq (c := ⟨_, _, _, _⟩) rest others hback

theorem yields_advance {Q : Lexeme → Feed → Prop}
    (h : ∀ lexeme, feed.next = some lexeme.token → Q lexeme feed.tail)
    (stop : feed.next = none → stops) : Yields stops advance feed Q := by
  rintro c proper rfl
  rw [advance_run]
  cases look : lookFurtherBy (1 - c.ahead.length) c with
  | ok _ c' =>
    obtain ⟨lexeme, first, next, after⟩ := advance_ok proper look (by omega)
    obtain ⟨proper', rest⟩ := after (some lexeme)
    simp only [first, Option.getD_some]
    exact ⟨proper', rest ▸ h lexeme next⟩
  | error e c' =>
    obtain ⟨i, below, above, found⟩ := lookFurtherBy_error proper look
    obtain rfl : i = 0 := by omega
    exact stop found

theorem yields_check {token : Token} {Q : Bool → Feed → Prop}
    (yes : feed.next = some token → Q true feed)
    (no : ∀ t, feed.next = some t → t ≠ token → Q false feed)
    (stop : feed.next = none → stops) : Yields stops (check token) feed Q := by
  refine yields_bind (yields_peek (fun t next => yields_pure ?_) stop)
  by_cases same : t = token
  · subst same
    simpa using yes next
  · simpa [same] using no t next same

theorem yields_accept {token : Token} {Q : Bool → Feed → Prop}
    (yes : feed.next = some token → Q true feed.tail)
    (no : ∀ t, feed.next = some t → t ≠ token → Q false feed)
    (stop : feed.next = none → stops) : Yields stops (accept token) feed Q := by
  refine yields_bind (yields_check (fun here => ?_) (fun t next other => ?_) stop)
  · refine yields_bind (yields_advance (fun _ _ => yields_pure (yes here)) fun missing => ?_)
    exact absurd (here.symm.trans missing) (by simp)
  · exact yields_pure (no t next other)

theorem yields_consume {token : Token} {Q : Lexeme → Feed → Prop}
    (yes : feed.next = some token → ∀ lexeme, Q lexeme feed.tail)
    (stop : feed.next ≠ some token → stops) : Yields stops (consume token) feed Q := by
  refine yields_bind (yields_check (fun here => ?_) (fun t next other => ?_) fun missing => ?_)
  · refine yields_advance (fun lexeme _ => yes here lexeme) fun missing => ?_
    exact absurd (here.symm.trans missing) (by simp)
  · exact yields_unexpected (stop fun same => other (Option.some.inj (next.symm.trans same)))
  · exact stop fun same => absurd (same.symm.trans missing) (by simp)

end

end Parser

end Retrace
