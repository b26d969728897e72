/-
Parsers read by the rules.

* `Sound`, `SoundAll` — what a parser comes to, the phrase reads.
* `name_sound` and so on — one production at a time, given those nested in it.
* **`upTo_sound`** — statements and expressions, nested up to any bound.

Design notes: a parser that stops with an error is sound, whatever it stopped at. So the
bounds on nesting and length do not matter here.
-/
import Retrace.Proofs.Reader.Phrase

namespace Retrace

namespace Grammar

open Retrace.Parser Node

/-- What a parser of a tree comes to, the phrase reads. -/
def Sound (table : OperatorTable) (phrase : Phrase) (p : Parser Node) : Prop :=
  ∀ feed, Yields True p feed fun node rest => Reads table phrase feed [node.bare] rest

/-- What a parser of trees comes to, the phrase reads. -/
def SoundAll (table : OperatorTable) (phrase : Phrase) (p : Parser (List Node)) : Prop :=
  ∀ feed, Yields True p feed fun nodes rest => Reads table phrase feed (bareAll nodes) rest

/-- The parsers of what is nested read by the rules. -/
structure Inner (table : OperatorTable) (inner : Grammar) : Prop where
  statement : Sound table .statement inner.statement
  expression least : Sound table (.expression least) (inner.expression least)

variable {table : OperatorTable} {inner : Grammar} {bound : Nat}

/-! ### Tokens in front of what is read -/

section

variable {α : Type} {t : Token} {feed : Feed} {Q : α → Feed → Prop}

/-- What comes after a token that was consumed is read off a feed without it. -/
theorem yields_taken {f : Lexeme → Parser α} (other : t ≠ .eof)
    (h : ∀ lexeme rest, feed = some t :: rest → Yields True (f lexeme) rest Q) :
    Yields True (consume t >>= f) feed Q := by
  refine yields_bind (yields_consume (fun next lexeme => ?_) fun _ => trivial)
  obtain ⟨rest, rfl⟩ := Feed.cons_of_next next other
  exact h lexeme rest rfl

/-- The same for a token that was seen. -/
theorem yields_passed {f : Lexeme → Parser α} (next : feed.next = some t) (other : t ≠ .eof)
    (h : ∀ lexeme rest, feed = some t :: rest → Yields True (f lexeme) rest Q) :
    Yields True (advance >>= f) feed Q := by
  obtain ⟨rest, rfl⟩ := Feed.cons_of_next next other
  exact yields_bind (yields_advance (fun lexeme _ => h lexeme rest rfl) fun _ => trivial)

/-- What comes after a token that may be there is read off a feed without it, or off the same
feed. -/
theorem yields_tried {f : Bool → Parser α} (other : t ≠ .eof)
    (yes : ∀ rest, feed = some t :: rest → Yields True (f true) rest Q)
    (no : ∀ t', feed.next = some t' → t' ≠ t → Yields True (f false) feed Q) :
    Yields True (accept t >>= f) feed Q := by
  refine yields_bind (yields_accept (fun next => ?_) no fun _ => trivial)
  obtain ⟨rest, rfl⟩ := Feed.cons_of_next next other
  exact yes rest rfl

end

/-! ### Productions -/

theorem name_sound : Sound table .name name := by
  intro feed
  refine yields_bind (yields_peek (fun t next => ?_) fun _ => trivial)
  split
  · refine yields_passed next nofun ?_
    rintro lexeme feed rfl
    exact yields_pure .name
  · exact yields_unexpected trivial

/-- The parser of what stands between commas. -/
def Item.parser (inner : Grammar) : Item → Parser Node
  | .parameter => Grammar.name
  | .expression => inner.expression 0

theorem item_sound (h : Inner table inner) (item : Item) :
    Sound table item.phrase (Item.parser inner item) := by
  cases item with
  | parameter => exact name_sound
  | expression => exact h.expression 0

theorem separated_sound (h : Inner table inner) (item : Item) (bound : Nat) :
    SoundAll table (.separated item) (separated (Item.parser inner item) (.mark .comma) bound) := by
  induction bound with
  | zero => exact fun feed => yields_spent trivial
  | succ bound ih =>
    intro feed
    refine yields_bind ((item_sound h item feed).mono fun node rest first => ?_)
    refine yields_tried nofun ?_ fun t next other => yields_pure (.last first next other)
    rintro feed' rfl
    exact yields_bind ((ih feed').mono fun nodes rest others => yields_pure (.more first others))

theorem delimited_sound (h : Inner table inner) (opening closing : Mark) (item : Item)
    (bound : Nat) :
    SoundAll table (.delimited opening closing item)
      (delimited (.mark opening) (Item.parser inner item) (.mark .comma) (.mark closing)
        bound) := by
  intro feed
  refine yields_taken nofun ?_
  rintro _ feed rfl
  refine yields_tried nofun ?_ fun t other differs => ?_
  · rintro rest rfl
    exact yields_pure .nothing
  · refine yields_bind ((separated_sound h item bound feed).mono fun nodes rest inside => ?_)
    refine yields_taken nofun ?_
    rintro _ rest rfl
    refine yields_pure (.items (fun same => ?_) inside)
    exact differs (Option.some.inj (other.symm.trans same))

theorem terminated_sound (h : Inner table inner) (bound : Nat) :
    SoundAll table .statements
      (terminated inner.statement (.mark .semicolon) (.mark .closeBrace) endsWithBlock bound) := by
  induction bound with
  | zero => exact fun feed => yields_spent trivial
  | succ bound ih =>
    intro feed
    refine yields_bind (yields_check (fun next => ?_) (fun _ _ _ => ?_) fun _ => trivial)
    · obtain ⟨rest, rfl⟩ := Feed.cons_of_next next nofun
      exact yields_pure .noStatement
    · refine yields_bind ((h.statement feed).mono fun node rest first => ?_)
      refine yields_tried nofun ?_ fun t next other => ?_
      · rintro feed' rfl
        exact yields_bind ((ih feed').mono fun nodes rest others =>
          yields_pure (.terminated first others))
      · -- without a semicolon the statement has to end with a block
        cases ended : node.endsWithBlock with
        | false => exact yields_bind (yields_unexpected trivial)
        | true =>
          refine yields_bind ((ih rest).mono fun nodes rest' others => yields_pure ?_)
          exact .unterminated first next other (by rw [endsWithBlock_bare, ended]) others

theorem block_sound (h : Inner table inner) (bound : Nat) :
    Sound table .block (block inner bound) := by
  intro feed
  refine yields_taken nofun ?_
  rintro _ feed rfl
  refine yields_bind ((terminated_sound h bound feed).mono fun nodes rest inside => ?_)
  refine yields_taken nofun ?_
  rintro _ rest rfl
  exact yields_pure (.block inside)

theorem arguments_sound (h : Inner table inner) (bound : Nat) :
    SoundAll table (.delimited .openParen .closeParen .expression) (arguments inner bound) :=
  delimited_sound h .openParen .closeParen .expression bound

theorem list_sound (h : Inner table inner) (bound : Nat) :
    Sound table .primary (list inner bound) := by
  intro feed
  refine yields_bind (yields_currentSpan fun _ => ?_)
  refine yields_bind
    ((delimited_sound h .openBracket .closeBracket .expression bound feed).mono
      fun _ _ inside => ?_)
  exact yields_bind (yields_previousSpan fun _ => yields_pure (.list inside))

theorem functionRest_sound (h : Inner table inner) (bound : Nat) (keyword : Span) :
    Sound table .function (functionRest inner bound keyword) := by
  intro feed
  refine yields_bind (yields_currentSpan fun _ => ?_)
  refine yields_bind
    ((delimited_sound h .openParen .closeParen .parameter bound feed).mono fun _ _ first => ?_)
  refine yields_bind (yields_previousSpan fun _ => ?_)
  exact yields_bind ((block_sound h bound _).mono fun _ _ second =>
    yields_pure (.function first second))

theorem conditional_sound (h : Inner table inner) (bound : Nat) :
    Sound table .conditional (conditional inner bound) := by
  induction bound with
  | zero => exact fun feed => yields_spent trivial
  | succ bound ih =>
    intro feed
    unfold conditional
    refine yields_taken nofun ?_
    rintro _ feed rfl
    refine yields_taken nofun ?_
    rintro _ feed rfl
    refine yields_bind ((h.expression 0 feed).mono fun condition feed' first => ?_)
    refine yields_taken nofun ?_
    rintro _ feed' rfl
    refine yields_bind ((block_sound h bound feed').mono fun consequent feed'' second => ?_)
    refine yields_tried nofun ?_ fun t next other => ?_
    · rintro feed'' rfl
      refine yields_bind (yields_check (fun next' => ?_) (fun _ _ _ => ?_) fun _ => trivial)
      · obtain ⟨feed'', rfl⟩ := Feed.cons_of_next next' nofun
        exact yields_bind ((ih _).mono fun alternative rest third =>
          yields_pure (.conditional first second (.elseConditional third)))
      · exact yields_bind ((block_sound h bound feed'').mono fun alternative rest third =>
          yields_pure (.conditional first second (.elseBlock third)))
    · exact yields_bind (yields_pure (yields_pure
        (.conditional first second (.noAlternative next other))))

theorem primary_sound (h : Inner table inner) (bound : Nat) :
    Sound table .primary (primary inner bound) := by
  intro feed
  refine yields_bind (yields_peek (fun t next => ?_) fun _ => trivial)
  cases t with
  | name s =>
    refine (@name_sound table feed).mono fun node rest here => ?_
    obtain ⟨x, rfl, bare⟩ := here.name_inv
    rw [bare]
    exact .leaf rfl
  | int | str | bool =>
    refine yields_passed next nofun ?_
    rintro _ feed rfl
    exact yields_pure (.leaf rfl)
  | keyword k =>
    cases k with
    | back =>
      refine yields_passed next nofun ?_
      rintro _ feed rfl
      exact yields_pure (.leaf rfl)
    | function =>
      refine yields_passed next nofun ?_
      rintro keyword feed rfl
      exact (functionRest_sound h bound _ feed).mono fun _ _ second => .primaryFunction second
    | conditional =>
      exact (conditional_sound h bound feed).mono fun _ _ here => .primaryConditional here
    | define | alternative | not => exact yields_missing trivial
  | mark m =>
    cases m with
    | openParen =>
      refine yields_passed next nofun ?_
      rintro _ feed rfl
      refine yields_bind ((h.expression 0 feed).mono fun node rest inside => ?_)
      refine yields_taken nofun ?_
      rintro _ rest rfl
      exact yields_pure (.parenthesized inside)
    | openBracket => exact list_sound h bound feed
    | openBrace => exact (block_sound h bound feed).mono fun _ _ here => .primaryBlock here
    | closeParen | closeBracket | closeBrace | comma | semicolon | assign =>
      exact yields_missing trivial
  | op | eof => exact yields_missing trivial

theorem applied_sound (h : Inner table inner) (function : Node) (bound : Nat) :
    Sound table (.applied function.bare) (applied inner function bound) := by
  induction bound generalizing function with
  | zero => exact fun feed => yields_spent trivial
  | succ bound ih =>
    intro feed
    refine yields_bind (yields_check (fun _ => ?_) (fun t next other => ?_) fun _ => trivial)
    · refine yields_bind ((arguments_sound h bound feed).mono fun args rest first => ?_)
      refine yields_bind (yields_previousSpan fun _ => ?_)
      exact (ih _ rest).mono fun _ _ second => .applied first second
    · exact yields_pure (.unapplied next other)

theorem operand_sound (h : Inner table inner) (bound : Nat) :
    Sound table .operand (operand inner bound) := by
  induction bound with
  | zero => exact fun feed => yields_spent trivial
  | succ bound ih =>
    intro feed
    refine yields_bind (yields_peek (fun t next => ?_) fun _ => trivial)
    split
    · next op sign =>
      refine yields_passed next (by rintro rfl; exact nomatch sign) ?_
      rintro _ feed rfl
      exact yields_bind ((ih feed).mono fun _ _ second => yields_pure (.signed sign second))
    · refine yields_bind ((primary_sound h bound feed).mono fun function rest first => ?_)
      exact (applied_sound h function _ rest).mono fun _ _ second => .operand first second

theorem nextOperator_yields {feed : Feed} {Q : Option (String × Binding) → Feed → Prop}
    {stops : Prop} (h : ∀ t, feed.next = some t → Q (table.operator? t) feed)
    (stop : feed.next = none → stops) : Yields stops (nextOperator table) feed Q := by
  refine yields_bind (yields_peek (fun t next => ?_) stop)
  have here := h t next
  unfold OperatorTable.operator? at here
  -- the table is asked only for tokens that can be operators
  split
  · next op between =>
    rw [between] at here
    exact yields_pure here
  · next between =>
    rw [between] at here
    exact yields_pure here

theorem climb_sound (h : Inner table inner) (least : Nat) (left : Node) (bound : Nat) :
    Sound table (.climb least left.bare) (climb table inner least left bound) := by
  induction bound generalizing left with
  | zero => exact fun feed => yields_spent trivial
  | succ bound ih =>
    intro feed
    refine yields_bind (nextOperator_yields (fun t next => ?_) fun _ => trivial)
    split
    · next none_here =>
      refine yields_pure (.stop next fun op binding here => ?_)
      exact absurd (none_here.symm.trans here) (by simp)
    · next op binding here =>
      split
      · next loose =>
        refine yields_pure (.stop next fun op' binding' here' => ?_)
        obtain ⟨_, rfl⟩ := Prod.mk.inj (Option.some.inj (here.symm.trans here'))
        exact loose
      · next tight =>
        refine yields_passed next (by rintro rfl; exact nomatch here) ?_
        rintro _ feed rfl
        refine yields_bind ((h.expression binding.right feed).mono fun right rest first => ?_)
        exact (ih _ rest).mono fun _ _ second => .climb here (Nat.le_of_not_lt tight) first second

theorem expressionWith_sound (h : Inner table inner) (bound least : Nat) :
    Sound table (.expression least) (expressionWith table inner bound least) := by
  intro feed
  refine yields_bind ((operand_sound h bound feed).mono fun left rest first => ?_)
  exact (climb_sound h least left bound rest).mono fun _ _ second => .expression first second

theorem definition_sound (h : Inner table inner) : Sound table .statement (definition inner) := by
  intro feed
  refine yields_taken nofun ?_
  rintro keyword feed rfl
  refine yields_bind ((@name_sound table feed).mono fun target rest first => ?_)
  obtain ⟨x, rfl, bare⟩ := first.name_inv
  refine yields_taken nofun ?_
  rintro _ rest rfl
  refine yields_bind ((h.expression 0 rest).mono fun value rest' second => yields_pure ?_)
  show Reads table _ _ [special .define [target.bare, value.bare]] _
  rw [bare]
  exact .definition second

theorem namedFunction_sound (h : Inner table inner) (bound : Nat) :
    Sound table .statement (namedFunction inner bound) := by
  intro feed
  refine yields_taken nofun ?_
  rintro keyword feed rfl
  refine yields_bind ((@name_sound table feed).mono fun target rest first => ?_)
  obtain ⟨x, rfl, bare⟩ := first.name_inv
  refine yields_bind ((functionRest_sound h bound _ rest).mono fun function rest' second =>
    yields_pure ?_)
  show Reads table _ _ [special .define [target.bare, function.bare]] _
  rw [bare]
  exact .namedFunction second

theorem statementWith_sound (h : Inner table inner) (bound : Nat) :
    Sound table .statement (statementWith table inner bound) := by
  intro feed
  refine yields_bind (yields_peek (fun t next => ?_) fun _ => trivial)
  split
  · exact definition_sound h feed
  · refine yields_bind (yields_peekAt (fun t' _ => ?_) fun _ => trivial)
    split
    · exact namedFunction_sound h bound feed
    · exact (expressionWith_sound h bound 0 feed).mono fun _ _ here =>
        .statement next nofun nofun here
  · exact (conditional_sound h bound feed).mono fun _ _ here => .statementConditional here
  · exact (block_sound h bound feed).mono fun _ _ here => .statementBlock here
  · next noConditional noBlock =>
    refine (expressionWith_sound h bound 0 feed).mono fun _ _ here => ?_
    exact .statement next noConditional noBlock here

/-- Statements and expressions that are nested up to a bound are read by the rules. -/
theorem upTo_sound (table : OperatorTable) (bound : Nat) : Inner table (upTo table bound) := by
  induction bound with
  | zero => exact ⟨fun _ => yields_spent trivial, fun _ _ => yields_spent trivial⟩
  | succ bound ih =>
    exact ⟨statementWith_sound ih (bound + 1),
      fun least => expressionWith_sound ih (bound + 1) least⟩

end Grammar

end Retrace
