/-
Where reading stops.

* `Stuck` — an error at the next token, beyond which nothing was looked at.
* `Halts` — a parser that stops does so at a piece that is no token, or it is stuck at a
  place of which something is known.
* `halts_bind`, `halts_peek` and so on — the steps that parsers are made of.
* `name_halts` and so on — a production that is stuck was begun. One at a time, given those
  nested in it.
* **`Grammar.upTo_halts`** — so were statements and expressions, nested as deep as the feed
  is long.
* **`nextStatement_halts`** — where the next statement is stuck, the tokens before can be
  gone on with to a statement.

Design notes:
* What a parser comes to is known from the rules that it is sound for. Only how it stops is
  followed here.
* One token was looked at or none when a parser begins, and when it ends. There is one
  exception: two tokens were looked at where a statement begins with the keyword of a
  function, and that keyword is consumed before anything else is asked for.
* Bounds are larger than what is left, so that none of them is ever used up.
-/
import Retrace.Proofs.Reader.Program
import Retrace.Proofs.Reader.Viable

namespace Retrace

open Retrace.Parser

/-- No token is called as a larger bound is. -/
theorem Token.describe_ne_boundWanted (t : Token) : t.describe ≠ boundWanted := by
  intro same
  have first := congrArg (·.toList.head?) same
  cases t <;> simp [describe, boundWanted, String.toList_append] at first

namespace Parser

/-- An error at the next token, beyond which nothing was looked at. Something is known of the
place, and no bound was used up. -/
structure Stuck (E : Feed → Prop) (e : ReadError) (c : Cursor) : Prop where
  proper : c.Proper
  looked : c.ahead.length = 1
  error : ∃ expected, expected ≠ boundWanted ∧ e = c.unexpected expected
  place : E c.feed

/-- From a feed of which `lo` tokens were looked at or more, and `hi` or less, a parser ends with
one token looked at or none. If it stops, then it does at a piece that is no token, or it is
stuck. -/
def Halts {α : Type} (lo hi : Nat) (p : Parser α) (feed : Feed) (E : Feed → Prop) : Prop :=
  ∀ c : Cursor, c.Proper → c.feed = feed → lo ≤ c.ahead.length → c.ahead.length ≤ hi →
    match p c with
    | .ok _ c' => c'.ahead.length ≤ 1
    | .error e c' => (∃ e', e = .lexical e') ∧ c'.ahead.length ≤ 1 ∨ Stuck E e c'

section

variable {α β : Type} {lo hi : Nat} {p : Parser α} {f : α → Parser β} {feed rest : Feed}
  {E E' : Feed → Prop} {t : Token}

theorem Stuck.mono {e : ReadError} {c : Cursor} (h : Stuck E e c) (le : ∀ rest, E rest → E' rest) :
    Stuck E' e c :=
  ⟨h.proper, h.looked, h.error, le _ h.place⟩

theorem Halts.mono (h : Halts lo hi p feed E) (le : ∀ rest, E rest → E' rest) :
    Halts lo hi p feed E' := by
  intro c proper same least most
  have here := h c proper same least most
  cases run : p c with
  | ok a c' =>
    rw [run] at here
    exact here
  | error e c' =>
    rw [run] at here
    exact here.imp_right fun stuck => stuck.mono le

theorem Halts.looked {lo' : Nat} (h : Halts lo hi p feed E) (le : lo ≤ lo') :
    Halts lo' hi p feed E :=
  fun c proper same least most => h c proper same (Nat.le_trans le least) most

theorem halts_pure {a : α} : Halts lo 1 (pure a) feed E :=
  fun _ _ _ _ most => most

theorem halts_unexpected {expected : String} (other : expected ≠ boundWanted) (place : E feed) :
    Halts 1 1 (unexpected expected : Parser α) feed E := by
  rintro c proper rfl least most
  exact .inr ⟨proper, Nat.le_antisymm most least, ⟨expected, other, rfl⟩, place⟩

/-- The same before whatever would come after. -/
theorem halts_wanted {expected : String} (other : expected ≠ boundWanted) (place : E feed) :
    Halts 1 1 ((unexpected expected : Parser α) >>= f) feed E := by
  rintro c proper rfl least most
  exact .inr ⟨proper, Nat.le_antisymm most least, ⟨expected, other, rfl⟩, place⟩

theorem halts_currentSpan {f : Span → Parser β} (h : ∀ span, Halts lo hi (f span) feed E) :
    Halts lo hi (currentSpan >>= f) feed E :=
  fun c => h c.currentSpan c

theorem halts_previousSpan {f : Span → Parser β} (h : ∀ span, Halts lo hi (f span) feed E) :
    Halts lo hi (previousSpan >>= f) feed E :=
  fun c => h c.previousSpan c

/-- One parser after another. What the first comes to is known already. -/
theorem halts_bind {Q : α → Feed → Prop} (first : Halts lo hi p feed E')
    (lift : ∀ rest, E' rest → E rest) (sound : Yields True p feed Q)
    (second : ∀ a rest, Q a rest → Halts 0 1 (f a) rest E) : Halts lo hi (p >>= f) feed E := by
  intro c proper same least most
  have here := first c proper same least most
  have found := sound c proper same
  rw [bind_run]
  cases run : p c with
  | ok a c' =>
    rw [run] at here found
    exact second a _ found.2 c' found.1 rfl (Nat.zero_le _) here
  | error e c' =>
    rw [run] at here
    exact here.imp_right fun stuck => stuck.mono lift

/-! ### Looks -/

/-- A look that fails does so at a piece that is no token. -/
theorem lookFurtherBy_fails {n : Nat} {c c' : Cursor} {e : ReadError}
    (h : lookFurtherBy n c = .error e c') :
    (∃ e', e = .lexical e') ∧ c.ahead.length ≤ c'.ahead.length ∧
      c'.ahead.length < c.ahead.length + n := by
  induction n generalizing c with
  | zero => cases h
  | succ n ih =>
    obtain ⟨ahead, upcoming, eof, previous⟩ := c
    rw [lookFurtherBy, bind_run] at h
    rcases upcoming with _ | ⟨error | lexeme, upcoming⟩
    · have := ih (c := ⟨ahead ++ [eof], [], eof, previous⟩) h
      simp only [List.length_append, List.length_singleton] at this ⊢
      exact ⟨this.1, by omega, by omega⟩
    · cases h
      exact ⟨⟨error, rfl⟩, Nat.le_refl _, by simp⟩
    · have := ih (c := ⟨ahead ++ [lexeme], upcoming, eof, previous⟩) h
      simp only [List.length_append, List.length_singleton] at this ⊢
      exact ⟨this.1, by omega, by omega⟩

theorem halts_peekAt {n : Nat} {f : Token → Parser β} (small : n ≤ 1)
    (h : ∀ t, feed.item n = some t → Halts (n + 1) (max hi (n + 1)) (f t) feed E) :
    Halts lo hi (peekAt n >>= f) feed E := by
  intro c proper same _ most
  rw [bind_run, peekAt_run]
  cases look : lookFurtherBy (n + 1 - c.ahead.length) c with
  | ok _ c' =>
    obtain ⟨proper', feed', length⟩ := lookFurtherBy_ok proper look
    have there : n < c'.ahead.length := by omega
    have found := List.getElem?_eq_getElem there
    rw [← same, ← feed'] at h
    simp only [found, Option.getD_some]
    exact h _ (proper'.item_ahead found) c' proper' rfl (by omega) (by omega)
  | error e c' =>
    obtain ⟨lexical, _, less⟩ := lookFurtherBy_fails look
    exact .inl ⟨lexical, by omega⟩

theorem halts_peek {f : Token → Parser β} (h : ∀ t, feed.next = some t →
    Halts 1 (max hi 1) (f t) feed E) : Halts lo hi (peek >>= f) feed E :=
  halts_peekAt (Nat.zero_le 1) h

/-- A token that comes next is consumed. -/
theorem halts_passed {f : Lexeme → Parser β} (next : feed.next = some t) (other : t ≠ .eof)
    (most : hi ≤ 2) (h : ∀ lexeme rest, feed = some t :: rest → Halts 0 1 (f lexeme) rest E) :
    Halts lo hi (advance >>= f) feed E := by
  intro c proper same _ most'
  rw [bind_run, advance_run]
  cases look : lookFurtherBy (1 - c.ahead.length) c with
  | ok _ c' =>
    obtain ⟨lexeme, first, next', after⟩ := advance_ok proper look (by omega)
    obtain ⟨proper', feed'⟩ := after (some lexeme)
    obtain ⟨_, _, length⟩ := lookFurtherBy_ok proper look
    rw [same] at next' feed'
    obtain rfl := Option.some.inj (next.symm.trans next')
    obtain ⟨rest, rfl⟩ := Feed.cons_of_next next other
    simp only [first, Option.getD_some]
    refine h lexeme rest rfl _ proper' feed' (Nat.zero_le _) ?_
    simp only [if_neg other, List.length_tail]
    omega
  | error e c' =>
    obtain ⟨lexical, _, less⟩ := lookFurtherBy_fails look
    exact .inl ⟨lexical, by omega⟩

theorem halts_check {f : Bool → Parser β}
    (yes : ∀ rest, feed = some t :: rest → Halts 1 (max hi 1) (f true) feed E)
    (no : ∀ t', feed.next = some t' → t' ≠ t → Halts 1 (max hi 1) (f false) feed E)
    (other : t ≠ .eof) : Halts lo hi (check t >>= f) feed E := by
  rw [check_bind]
  refine halts_peek fun t' next => ?_
  by_cases found : t' = t
  · subst found
    obtain ⟨rest, same⟩ := Feed.cons_of_next next other
    rw [decide_eq_true rfl]
    exact yes rest same
  · rw [decide_eq_false found]
    exact no t' next found

theorem halts_tried {f : Bool → Parser β} (other : t ≠ .eof) (most : hi ≤ 1)
    (yes : ∀ rest, feed = some t :: rest → Halts 0 1 (f true) rest E)
    (no : ∀ t', feed.next = some t' → t' ≠ t → Halts 1 1 (f false) feed E) :
    Halts lo hi (accept t >>= f) feed E := by
  rw [accept_bind]
  refine halts_check (fun rest same => ?_) (fun t' next different => ?_) other
  · have next : feed.next = some t := congrArg Feed.next same
    exact halts_passed next other (by omega) fun _ rest same => yes rest same
  · rw [Nat.max_eq_right most]
    exact no t' next different

/-- A token that has to come next is consumed, or it is missing. -/
theorem halts_taken {f : Lexeme → Parser β} (other : t ≠ .eof) (most : hi ≤ 1)
    (missing : feed.next ≠ some t → E feed)
    (h : ∀ lexeme rest, feed = some t :: rest → Halts 0 1 (f lexeme) rest E) :
    Halts lo hi (consume t >>= f) feed E := by
  rw [consume_bind]
  refine halts_check (fun rest same => ?_) (fun t' next different => ?_) other
  · have next : feed.next = some t := congrArg Feed.next same
    exact halts_passed next other (by omega) h
  · rw [Nat.max_eq_right most]
    have absent : feed.next ≠ some t := fun same =>
      different (Option.some.inj (next.symm.trans same))
    exact halts_wanted t.describe_ne_boundWanted (missing absent)

/-- The same for a token that is there. -/
theorem halts_there {f : Lexeme → Parser β} (next : feed.next = some t) (other : t ≠ .eof)
    (most : hi ≤ 2) (h : ∀ lexeme rest, feed = some t :: rest → Halts 0 1 (f lexeme) rest E) :
    Halts lo hi (consume t >>= f) feed E := by
  rw [consume_bind]
  refine halts_check (fun _ _ => ?_) (fun t' next' different => ?_) other
  · exact halts_passed next other (Nat.max_le.mpr ⟨most, by decide⟩) h
  · exact absurd (Option.some.inj (next'.symm.trans next)) different

end

end Parser

/-- Statements between braces are read up to a brace that closes. -/
theorem Reads.statements_closed {table : OperatorTable} {feed rest : Feed} {nodes : List Node}
    (h : Reads table .statements feed nodes rest) : rest.next = some (.mark .closeBrace) := by
  generalize kind : Phrase.statements = phrase at h
  induction h with
  | noStatement => rfl
  | terminated _ _ _ ih | unterminated _ _ _ _ _ _ ih => exact ih kind
  | _ => cases kind

namespace Grammar

open Node

/-- The parsers of what is nested are sound, and what they are stuck in was begun, if less is left
than a measure. -/
structure Halting (table : OperatorTable) (inner : Grammar) (k : Nat) : Prop where
  sound : Inner table inner
  statement {feed} (less : feed.length < k) :
    Halts 0 1 inner.statement feed (Begun table .statement feed)
  expression least {feed} (less : feed.length < k) :
    Halts 0 1 (inner.expression least) feed (Begun table (.expression least) feed)

variable {table : OperatorTable} {inner : Grammar} {k bound lo hi : Nat} {feed : Feed}

/-! ### Sequences -/

theorem name_halts : Halts lo 1 name feed (Begun table .name feed) := by
  refine halts_peek fun t next => ?_
  split
  · exact halts_passed next nofun (by decide) fun _ _ _ => halts_pure
  · exact halts_unexpected (by decide) name_begun

theorem item_halts (h : Halting table inner k) (item : Item) (less : feed.length < k) :
    Halts lo 1 (Item.parser inner item) feed (Begun table item.phrase feed) := by
  cases item with
  | parameter => exact name_halts
  | expression => exact (h.expression 0 less).looked (Nat.zero_le lo)

theorem separated_halts (h : Halting table inner k) (item : Item) (less : feed.length < k)
    (fits : feed.length < bound) :
    Halts lo 1 (separated (Item.parser inner item) (.mark .comma) bound) feed
      (BegunAll table (.separated item) feed) := by
  induction bound generalizing feed lo with
  | zero => exact absurd fits (Nat.not_lt_zero _)
  | succ bound ih =>
    refine halts_bind (item_halts h item less) (fun _ => separated_begun_item)
      (item_sound h.sound item feed) fun node rest first => ?_
    have shorter := first.length_le
    refine halts_tried (by decide) (by decide) ?_ fun _ _ _ => halts_pure
    rintro rest rfl
    rw [List.length_cons] at shorter
    exact halts_bind (ih (by omega) (by omega)) (fun _ => separated_begun_others first)
      (separated_sound h.sound item bound rest) fun _ _ _ => halts_pure

theorem delimited_halts (h : Halting table inner k) (opening : Mark) {closing : Mark}
    (closes : closing = .closeParen ∨ closing = .closeBracket) (item : Item)
    (less : feed.length ≤ k) (fits : feed.length ≤ bound) :
    Halts lo 1 (delimited (.mark opening) (Item.parser inner item) (.mark .comma) (.mark closing)
      bound) feed (BegunAll table (.delimited opening closing item) feed) := by
  refine halts_taken nofun (by decide) (fun _ => delimited_begun_opening) ?_
  rintro _ feed rfl
  rw [List.length_cons] at less fits
  refine halts_tried nofun (by decide) (fun _ _ => halts_pure) fun _ _ _ => ?_
  refine halts_bind (separated_halts h item less fits) (fun _ => delimited_begun_items closes)
    (separated_sound h.sound item bound feed) fun nodes rest inside => ?_
  exact halts_taken nofun (by decide) (fun _ => delimited_begun_closing closes inside)
    fun _ _ _ => halts_pure

theorem terminated_halts (h : Halting table inner k) (less : feed.length < k)
    (fits : feed.length < bound) :
    Halts lo 1 (terminated inner.statement (.mark .semicolon) (.mark .closeBrace) endsWithBlock
      bound) feed (BegunAll table .statements feed) := by
  induction bound generalizing feed lo with
  | zero => exact absurd fits (Nat.not_lt_zero _)
  | succ bound ih =>
    refine halts_check (fun _ _ => halts_pure) (fun _ _ _ => ?_) (by decide)
    refine halts_bind ((h.statement less).looked (Nat.zero_le _))
      (fun _ => statements_begun_statement) (h.sound.statement feed) fun node rest first => ?_
    have shorter : rest.length + 1 ≤ feed.length := first.length_le
    refine halts_tried (by decide) (by decide) ?_ fun t next other => ?_
    · rintro rest rfl
      rw [List.length_cons] at shorter
      exact halts_bind (ih (by omega) (by omega)) (fun _ => statements_begun_others first)
        (terminated_sound h.sound bound rest) fun _ _ _ => halts_pure
    · -- without a semicolon the statement has to end with a block
      cases ended : node.endsWithBlock with
      | false =>
        exact halts_wanted (Token.describe_ne_boundWanted _) (statements_begun_semicolon first)
      | true =>
        rw [← endsWithBlock_bare] at ended
        exact halts_bind (ih (by omega) (by omega))
          (fun _ => statements_begun_ended first next other ended)
          (terminated_sound h.sound bound rest) fun _ _ _ => halts_pure

theorem block_halts (h : Halting table inner k) (less : feed.length ≤ k)
    (fits : feed.length ≤ bound) :
    Halts lo 1 (block inner bound) feed (Begun table .block feed) := by
  refine halts_taken (by decide) (by decide) (fun _ => block_begun_opening) ?_
  rintro _ feed rfl
  refine halts_bind (terminated_halts h less fits) (fun _ => block_begun_statements)
    (terminated_sound h.sound bound feed) fun nodes rest inside => ?_
  exact halts_there inside.statements_closed (by decide) (by decide) fun _ _ _ => halts_pure

theorem functionRest_halts (h : Halting table inner k) (less : feed.length ≤ k)
    (fits : feed.length ≤ bound) (keyword : Span) :
    Halts lo 1 (functionRest inner bound keyword) feed (Begun table .function feed) := by
  refine halts_currentSpan fun _ => ?_
  refine halts_bind (delimited_halts h .openParen (.inl rfl) .parameter less fits)
    (fun _ => function_begun_parameters)
    (delimited_sound h.sound .openParen .closeParen .parameter bound feed)
    fun params rest first => halts_previousSpan fun _ => ?_
  have shorter : rest.length + 1 ≤ feed.length := first.length_le
  exact halts_bind (block_halts h (by omega) (by omega)) (fun _ => function_begun_body first)
    (block_sound h.sound bound rest) fun _ _ _ => halts_pure

/-! ### Conditionals -/

theorem conditional_halts (h : Halting table inner k)
    (starts : feed.next = some (.keyword .conditional)) (less : feed.length ≤ k)
    (fits : feed.length < bound) :
    Halts lo 1 (conditional inner bound) feed (Begun table .conditional feed) := by
  induction bound generalizing feed lo with
  | zero => exact absurd fits (Nat.not_lt_zero _)
  | succ bound ih =>
    unfold conditional
    refine halts_there starts (by decide) (by decide) ?_
    rintro _ feed rfl
    refine halts_taken (by decide) (by decide) (fun _ => conditional_begun_opening) ?_
    rintro _ feed rfl
    rw [List.length_cons, List.length_cons] at less fits
    refine halts_bind (h.expression 0 (by omega))
      (fun _ begun => conditional_begun (condition_begun begun).behind)
      (h.sound.expression 0 feed) fun condition rest first => ?_
    have shorter : rest.length + 1 ≤ feed.length := first.length_le
    refine halts_taken (by decide) (by decide)
      (fun _ => conditional_begun (condition_begun_closing first).behind) ?_
    rintro _ rest rfl
    rw [List.length_cons] at shorter
    have lift : ∀ {z}, Viable (Consequent table) rest z → Begun table .conditional _ z :=
      fun begun => conditional_begun (condition_begun_consequent first begun).behind
    refine halts_bind (block_halts h (by omega) (by omega))
      (fun _ begun => lift (consequent_begun begun)) (block_sound h.sound bound rest)
      fun consequent rest' second => ?_
    have shorter' : rest'.length + 1 ≤ rest.length := second.length_le
    have lift' : ∀ {z}, Begun table .alternative rest' z → Begun table .conditional _ z :=
      fun begun => lift (consequent_begun_alternative second begun)
    refine halts_tried (by decide) (by decide) ?_ fun _ _ _ => halts_pure
    rintro rest' rfl
    rw [List.length_cons] at shorter'
    refine halts_check (fun feed' same => ?_) (fun _ _ _ => ?_) (by decide)
    · have again : Feed.next rest' = some (.keyword .conditional) := by
        rw [same]
        rfl
      exact halts_bind (ih again (by omega) (by omega))
        (fun _ begun => lift' (alternative_begun_conditional begun))
        (conditional_sound h.sound bound rest') fun _ _ _ => halts_pure
    · exact halts_bind (block_halts h (by omega) (by omega))
        (fun _ begun => lift' (alternative_begun_block begun)) (block_sound h.sound bound rest')
        fun _ _ _ => halts_pure

/-! ### Operands -/

/-- One token was looked at or none, or two, the first of which is the keyword of a function. -/
def Ready (hi : Nat) (feed : Feed) : Prop :=
  hi = 1 ∨ hi = 2 ∧ feed.next = some (.keyword .function)

namespace Ready

theorem le (h : Ready hi feed) : hi ≤ 2 := by
  rcases h with rfl | ⟨rfl, _⟩ <;> decide

theorem max_one (h : Ready hi feed) : max hi 1 = hi := by
  rcases h with rfl | ⟨rfl, _⟩ <;> rfl

theorem one {t : Token} (h : Ready hi feed) (next : feed.next = some t)
    (other : t ≠ .keyword .function) : hi = 1 := by
  refine h.resolve_right fun ⟨_, keyword⟩ => other ?_
  exact Option.some.inj (next.symm.trans keyword)

end Ready

theorem primary_halts (h : Halting table inner k) (ready : Ready hi feed) (less : feed.length ≤ k)
    (fits : feed.length < bound) :
    Halts lo hi (primary inner bound) feed (Begun table .primary feed) := by
  refine halts_peek fun t next => ?_
  rw [ready.max_one]
  by_cases keyword : t = .keyword .function
  · subst keyword
    refine halts_passed next (by decide) ready.le ?_
    rintro _ feed rfl
    rw [List.length_cons] at less fits
    exact (functionRest_halts h (by omega) (by omega) _).mono fun _ => primary_begun_function
  · obtain rfl := ready.one next keyword
    cases t with
    | name s => exact name_halts.mono fun _ => primary_begun_name
    | int | str | bool => exact halts_passed next nofun (by decide) fun _ _ _ => halts_pure
    | keyword w =>
      cases w with
      | back => exact halts_passed next (by decide) (by decide) fun _ _ _ => halts_pure
      | function => exact absurd rfl keyword
      | conditional =>
        exact (conditional_halts h next less fits).mono fun _ => primary_begun_conditional
      | define | alternative | not => exact halts_unexpected (by decide) primary_begun
    | mark m =>
      cases m with
      | openParen =>
        refine halts_passed next (by decide) (by decide) ?_
        rintro _ feed rfl
        refine halts_bind (h.expression 0 less) (fun _ => primary_begun_inside)
          (h.sound.expression 0 feed) fun node rest inside => ?_
        exact halts_taken (by decide) (by decide) (fun _ => primary_begun_closing inside)
          fun _ _ _ => halts_pure
      | openBracket =>
        refine halts_currentSpan fun _ => ?_
        exact halts_bind
          (delimited_halts h .openBracket (.inr rfl) .expression less (Nat.le_of_lt fits))
          (fun _ => primary_begun_list)
          (delimited_sound h.sound .openBracket .closeBracket .expression bound feed)
          fun _ _ _ => halts_previousSpan fun _ => halts_pure
      | openBrace =>
        exact (block_halts h less (Nat.le_of_lt fits)).mono fun _ => primary_begun_block
      | closeParen | closeBracket | closeBrace | comma | semicolon | assign =>
        exact halts_unexpected (by decide) primary_begun
    | op | eof => exact halts_unexpected (by decide) primary_begun

theorem applied_halts (h : Halting table inner k) (function : Node) (less : feed.length ≤ k)
    (fits : feed.length < bound) :
    Halts lo 1 (applied inner function bound) feed
      (Begun table (.applied function.bare) feed) := by
  induction bound generalizing function feed lo with
  | zero => exact absurd fits (Nat.not_lt_zero _)
  | succ bound ih =>
    refine halts_check (fun _ _ => ?_) (fun _ _ _ => halts_pure) (by decide)
    refine halts_bind
      (delimited_halts h .openParen (.inl rfl) .expression less (Nat.le_of_lt_succ fits))
      (fun _ => applied_begun_arguments) (arguments_sound h.sound bound feed)
      fun args rest first => halts_previousSpan fun _ => ?_
    have shorter : rest.length + 1 ≤ feed.length := first.length_le
    exact (ih _ (by omega) (by omega)).mono fun _ => applied_begun_others first

theorem operand_halts (h : Halting table inner k) (ready : Ready hi feed) (less : feed.length ≤ k)
    (fits : feed.length + 2 ≤ bound) :
    Halts lo hi (operand inner bound) feed (Begun table .operand feed) := by
  induction bound generalizing feed lo hi with
  | zero => exact absurd fits (Nat.not_succ_le_zero _)
  | succ bound ih =>
    refine halts_peek fun t next => ?_
    rw [ready.max_one]
    split
    · next op sign =>
      refine halts_passed next (by rintro rfl; exact nomatch sign) ready.le ?_
      rintro _ feed rfl
      rw [List.length_cons] at less fits
      exact halts_bind (ih (.inl rfl) (by omega) (by omega)) (fun _ => operand_begun_signed sign)
        (operand_sound h.sound bound feed) fun _ _ _ => halts_pure
    · refine halts_bind (primary_halts h ready less (by omega)) (fun _ => operand_begun_primary)
        (primary_sound h.sound bound feed) fun function rest first => ?_
      have shorter : rest.length + 1 ≤ feed.length := first.length_le
      exact (applied_halts h function (by omega) (by omega)).mono fun _ =>
        operand_begun_applied first

/-! ### Operators -/

theorem nextOperator_bind {α : Type} (f : Option (String × Binding) → Parser α) :
    (nextOperator table >>= f) = peek >>= fun t => f (table.operator? t) := by
  rw [nextOperator, bind_assoc]
  refine congrArg _ (funext fun t => ?_)
  rw [OperatorTable.operator?]
  cases t.between? <;> rfl

theorem climb_halts (h : Halting table inner k) (least : Nat) (left : Node)
    (less : feed.length ≤ k) (fits : feed.length < bound) :
    Halts lo 1 (climb table inner least left bound) feed
      (BegunClimb table least left.bare feed) := by
  induction bound generalizing left feed lo with
  | zero => exact absurd fits (Nat.not_lt_zero _)
  | succ bound ih =>
    unfold climb
    rw [nextOperator_bind]
    refine halts_peek fun t next => ?_
    split
    · exact halts_pure
    · next op binding sign =>
      split
      · exact halts_pure
      · next tight =>
        have tight := Nat.le_of_not_lt tight
        refine halts_passed next (by rintro rfl; exact nomatch sign) (by decide) ?_
        rintro _ feed rfl
        rw [List.length_cons] at less fits
        refine halts_bind (h.expression binding.right (by omega))
          (fun _ => climb_begun_right sign tight) (h.sound.expression binding.right feed)
          fun right rest first => ?_
        have shorter : rest.length + 1 ≤ feed.length := first.length_le
        exact (ih _ (by omega) (by omega)).mono fun _ => climb_begun_others sign tight first

theorem expressionWith_halts (h : Halting table inner k) (ready : Ready hi feed) (least : Nat)
    (less : feed.length ≤ k) (fits : feed.length + 2 ≤ bound) :
    Halts lo hi (expressionWith table inner bound least) feed
      (Begun table (.expression least) feed) := by
  refine halts_bind (operand_halts h ready less fits) (fun _ => expression_begun_operand)
    (operand_sound h.sound bound feed) fun left rest first => ?_
  have shorter : rest.length + 1 ≤ feed.length := first.length_le
  exact (climb_halts h least left (by omega) (by omega)).mono fun _ => expression_begun_climb first

/-! ### Statements -/

theorem definition_halts (h : Halting table inner k) (starts : feed.next = some (.keyword .define))
    (less : feed.length ≤ k) :
    Halts lo 1 (definition inner) feed (Begun table .statement feed) := by
  refine halts_there starts (by decide) (by decide) ?_
  rintro _ feed rfl
  refine halts_bind name_halts (fun _ => definition_begun_name) (@name_sound table feed)
    fun target rest first => ?_
  obtain ⟨x, rfl, _⟩ := first.name_inv
  refine halts_taken (by decide) (by decide) (fun _ => definition_begun_assign) ?_
  rintro _ rest rfl
  simp only [List.length_cons] at less
  exact halts_bind (h.expression 0 (by omega)) (fun _ => definition_begun)
    (h.sound.expression 0 rest) fun _ _ _ => halts_pure

theorem namedFunction_halts (h : Halting table inner k)
    (starts : feed.next = some (.keyword .function)) (most : hi ≤ 2) (less : feed.length ≤ k)
    (fits : feed.length ≤ bound) :
    Halts lo hi (namedFunction inner bound) feed (Begun table .statement feed) := by
  refine halts_there starts (by decide) most ?_
  rintro _ feed rfl
  refine halts_bind name_halts (fun _ => namedFunction_begun_name) (@name_sound table feed)
    fun target rest first => ?_
  obtain ⟨x, rfl, _⟩ := first.name_inv
  simp only [List.length_cons] at less fits
  exact halts_bind (functionRest_halts h (by omega) (by omega) _) (fun _ => namedFunction_begun)
    (functionRest_sound h.sound bound _ rest) fun _ _ _ => halts_pure

theorem statementWith_halts (h : Halting table inner k) (less : feed.length ≤ k)
    (fits : feed.length + 2 ≤ bound) :
    Halts lo 1 (statementWith table inner bound) feed (Begun table .statement feed) := by
  refine halts_peek fun t next => ?_
  split
  · exact definition_halts h next less
  · refine halts_peekAt (Nat.le_refl 1) fun t' _ => ?_
    split
    · exact namedFunction_halts h next (by decide) less (by omega)
    · exact (expressionWith_halts h (.inr ⟨rfl, next⟩) 0 less fits).mono fun _ =>
        statement_begun_expression next (by decide) (by decide)
  · exact (conditional_halts h next less (by omega)).mono fun _ => statement_begun_conditional
  · exact (block_halts h less (by omega)).mono fun _ => statement_begun_block
  · next noConditional noBlock =>
    exact (expressionWith_halts h (.inl rfl) 0 less fits).mono fun _ =>
      statement_begun_expression next noConditional noBlock

/-- **A statement or an expression that is stuck was begun**, and no bound is used up that is large
enough for what is left. -/
theorem upTo_halts (table : OperatorTable) (bound : Nat) :
    Halting table (upTo table bound) (bound - 1) := by
  induction bound with
  | zero =>
    exact ⟨upTo_sound table 0, fun less => absurd less (Nat.not_lt_zero _),
      fun _ _ less => absurd less (Nat.not_lt_zero _)⟩
  | succ bound ih =>
    refine ⟨upTo_sound table (bound + 1), fun less => ?_, fun least _ less => ?_⟩
    · exact statementWith_halts ih (by omega) (by omega)
    · exact expressionWith_halts ih (.inl rfl) least (by omega) (by omega)

end Grammar

/-! ### The next statement -/

section

variable {table : OperatorTable} {feed : Feed}

/-- The tokens of a feed up to a place can be gone on with to a statement, which is the next. -/
def Promising (table : OperatorTable) (feed rest : Feed) : Prop :=
  Viable (fun f z => ∃ node, Onward table node f z) feed rest

theorem Promising.behind {semicolons rest : Feed}
    (all : ∀ item ∈ semicolons, item = some (.mark .semicolon)) (h : Promising table feed rest) :
    Promising table (semicolons ++ feed) rest := by
  induction semicolons with
  | nil => exact h
  | cons item semicolons ih =>
    obtain ⟨rfl, others⟩ := List.forall_mem_cons.mp all
    refine Viable.token (ih others) ?_
    rintro f z ⟨node, semicolons, feed, rest, rfl, all, reads, ends⟩
    exact ⟨node, _ :: semicolons, feed, rest, rfl, List.forall_mem_cons.mpr ⟨rfl, all⟩, reads, ends⟩

theorem onward_of_reads {node : Node} {f z : Feed}
    (h : Reads table .statement f [node] (some (.mark .semicolon) :: z)) : Onward table node f z :=
  ⟨[], f, _, rfl, List.forall_mem_nil _, h, .inl rfl⟩

theorem Begun.promising {rest : Feed} (h : Begun table .statement feed rest) :
    Promising table feed rest := by
  have closed := h.closed (t := .mark .semicolon) trivial fun _ => follows_expression (by decide)
  exact closed.imp fun f z => Exists.imp fun _ => onward_of_reads

/-- Where only the semicolon is missing. -/
theorem Reads.promising {rest : Feed} {node : Node} (h : Reads table .statement feed [node] rest) :
    Promising table feed rest := by
  have closed := h.closed (t := .mark .semicolon) trivial fun _ => follows_expression (by decide)
  exact closed.imp fun f z reads => ⟨node, onward_of_reads reads⟩

theorem halts_bound {α : Type} {lo hi : Nat} {f : Nat → Parser α} {E : Feed → Prop}
    (h : Halts lo hi (f (feed.length + 2)) feed E) : Halts lo hi (Parser.bound >>= f) feed E := by
  rintro c proper rfl
  have here := h c proper rfl
  rw [← remaining_eq] at here
  exact here

theorem skipSemicolons_halts {bound lo : Nat} (fits : feed.length < bound) :
    Halts lo 1 (Reader.skipSemicolons bound) feed fun _ => False := by
  induction bound generalizing feed lo with
  | zero => exact absurd fits (Nat.not_lt_zero _)
  | succ bound ih =>
    refine halts_tried (by decide) (by decide) ?_ fun _ _ _ => halts_pure
    rintro rest rfl
    exact ih (Nat.lt_of_succ_lt_succ fits)

theorem ending_halts {lo : Nat} {rest : Feed} {node : Node}
    (h : Reads table .statement feed [node.bare] rest) :
    Halts lo 1 (Reader.ending node) rest (Promising table feed) := by
  unfold Reader.ending
  split
  · exact halts_tried (by decide) (by decide) (fun _ _ => halts_pure) fun _ _ _ => halts_pure
  · exact halts_taken (by decide) (by decide) (fun _ => h.promising) fun _ _ _ => halts_pure

/-- **Where the next statement is stuck, the tokens before can be gone on with** to a statement. -/
theorem nextStatement_halts (table : OperatorTable) (feed : Feed) :
    Halts 0 1 (Reader.nextStatement table) feed (Promising table feed) := by
  rw [nextStatement_eq]
  refine halts_bind (halts_bound (skipSemicolons_halts (by omega))) (fun _ => False.elim)
    (yields_bound (yields_skipped_all feed _)) ?_
  rintro _ feed ⟨semicolons, rfl, all⟩
  rw [check_bind]
  refine halts_peek fun t next => ?_
  split
  · exact halts_pure
  · have inner := Grammar.upTo_halts table (feed.length + 2)
    refine halts_bind (halts_bound ((inner.statement (by omega)).looked (Nat.zero_le _)))
      (fun _ begun => begun.promising.behind all) (yields_bound (inner.sound.statement feed)) ?_
    exact fun node rest reads => (ending_halts reads).mono fun _ stuck => stuck.behind all

end

end Retrace
