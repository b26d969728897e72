/-
Text that is no token stops reading where it stands.

* `Composed` — parsers that are made of looks, tokens consumed, spans and errors.
* **`Grammar.upTo_composed`** — statements and expressions are.
* `Cursor.Fork` — two cursors with the same tokens before them, up to text that is no
  token before the one and anything before the other.
* `Parts` — the one parser stops at that text, or both come to the same.
* **`Composed.parts`** — what is composed does one or the other at a fork.
* `Steady` — a bound that is large enough makes no difference.
* **`nextStatement_parts`** — the next statement does one or the other at a fork.

Design notes:
* That a parser is composed is shown once for each production. What holds of the few
  steps and is kept by sequencing holds of all productions then, by one induction.
* A bound is taken from the number of tokens left, which a fork may change. So it is no
  step: with bounds that are large enough, a cursor is tracked beside itself.
-/
import Retrace.Proofs.Reader.Extension

namespace Retrace

namespace Parser

/-- Parsers that are made of looks, of tokens consumed, of spans asked for and of errors. -/
inductive Composed : {α : Type} → Parser α → Prop
  | pure {α : Type} (a : α) : Composed (pure a : Parser α)
  | bind {α β : Type} {p : Parser α} {f : α → Parser β} (first : Composed p)
      (second : ∀ a, Composed (f a)) : Composed (p >>= f)
  | unexpected {α : Type} (expected : String) : Composed (unexpected expected : Parser α)
  | peekAt (n : Nat) : Composed (peekAt n)
  | advance : Composed advance
  | currentSpan : Composed currentSpan
  | previousSpan : Composed previousSpan

variable {α : Type} {item : Parser α}

theorem missing_composed : Composed (missing : Parser α) :=
  .unexpected _

theorem spent_composed : Composed (spent : Parser α) :=
  .unexpected _

theorem check_composed (t : Token) : Composed (check t) :=
  .bind (.peekAt 0) fun _ => .pure _

theorem accept_composed (t : Token) : Composed (accept t) := by
  refine .bind (check_composed t) fun found => ?_
  split
  · exact .bind .advance fun _ => .pure true
  · exact .pure false

theorem consume_composed (t : Token) : Composed (consume t) := by
  refine .bind (check_composed t) fun found => ?_
  split
  · exact .advance
  · exact .unexpected _

/-! ### Productions -/

theorem separated_composed (h : Composed item) (t : Token) (bound : Nat) :
    Composed (separated item t bound) := by
  induction bound with
  | zero => exact spent_composed
  | succ bound ih =>
    refine .bind h fun first => .bind (accept_composed t) fun more => ?_
    split
    · exact .bind ih fun _ => .pure _
    · exact .pure _

theorem delimited_composed (h : Composed item) (opening t closing : Token) (bound : Nat) :
    Composed (delimited opening item t closing bound) := by
  refine .bind (consume_composed opening) fun _ => .bind (accept_composed closing) fun empty => ?_
  split
  · exact .pure _
  · refine .bind (separated_composed h t bound) fun items => ?_
    exact .bind (consume_composed closing) fun _ => .pure _

theorem terminated_composed (h : Composed item) (t closing : Token) (endsItself : α → Bool)
    (bound : Nat) : Composed (terminated item t closing endsItself bound) := by
  induction bound with
  | zero => exact spent_composed
  | succ bound ih =>
    refine .bind (check_composed closing) fun found => ?_
    split
    · exact .pure _
    · refine .bind h fun first => .bind (accept_composed t) fun closed => ?_
      split
      · exact .bind (.unexpected _) fun _ => .bind ih fun _ => .pure _
      · exact .bind ih fun _ => .pure _

end Parser

open Retrace.Parser

namespace Grammar

/-- The parsers of what is nested are composed. -/
structure Composing (inner : Grammar) : Prop where
  statement : Composed inner.statement
  expression least : Composed (inner.expression least)

variable {inner : Grammar} {table : OperatorTable}

theorem name_composed : Composed name := by
  refine .bind (.peekAt 0) fun t => ?_
  split
  · exact .bind .advance fun _ => .pure _
  · exact .unexpected _

theorem block_composed (h : Composing inner) (bound : Nat) : Composed (block inner bound) := by
  refine .bind (consume_composed _) fun opening => ?_
  refine .bind (terminated_composed h.statement _ _ _ bound) fun statements => ?_
  exact .bind (consume_composed _) fun closing => .pure _

theorem arguments_composed (h : Composing inner) (bound : Nat) :
    Composed (arguments inner bound) :=
  delimited_composed (h.expression 0) _ _ _ bound

theorem list_composed (h : Composing inner) (bound : Nat) : Composed (list inner bound) := by
  refine .bind .currentSpan fun start => ?_
  refine .bind (delimited_composed (h.expression 0) _ _ _ bound) fun items => ?_
  exact .bind .previousSpan fun stop => .pure _

theorem functionRest_composed (h : Composing inner) (bound : Nat) (keyword : Span) :
    Composed (functionRest inner bound keyword) := by
  refine .bind .currentSpan fun start => ?_
  refine .bind (delimited_composed name_composed _ _ _ bound) fun params => ?_
  refine .bind .previousSpan fun stop => ?_
  exact .bind (block_composed h bound) fun body => .pure _

theorem conditional_composed (h : Composing inner) (bound : Nat) :
    Composed (conditional inner bound) := by
  induction bound with
  | zero => exact spent_composed
  | succ bound ih =>
    unfold conditional
    refine .bind (consume_composed _) fun keyword => .bind (consume_composed _) fun _ => ?_
    refine .bind (h.expression 0) fun condition => .bind (consume_composed _) fun _ => ?_
    refine .bind (block_composed h bound) fun consequent => ?_
    refine .bind (accept_composed _) fun continued => ?_
    split
    · refine .bind (check_composed _) fun again => ?_
      split
      · exact .bind ih fun alternative => .pure _
      · exact .bind (block_composed h bound) fun alternative => .pure _
    · exact .bind (.pure _) fun alternative => .pure _

theorem primary_composed (h : Composing inner) (bound : Nat) :
    Composed (primary inner bound) := by
  refine .bind (.peekAt 0) fun t => ?_
  split
  · exact .bind .advance fun _ => .pure _
  · exact .bind .advance fun _ => .pure _
  · exact .bind .advance fun _ => .pure _
  · exact name_composed
  · exact .bind .advance fun _ => .pure _
  · exact .bind .advance fun keyword => functionRest_composed h bound keyword.span
  · exact conditional_composed h bound
  · refine .bind .advance fun _ => .bind (h.expression 0) fun node => ?_
    exact .bind (consume_composed _) fun _ => .pure node
  · exact list_composed h bound
  · exact block_composed h bound
  · exact missing_composed

theorem applied_composed (h : Composing inner) (function : Node) (bound : Nat) :
    Composed (applied inner function bound) := by
  induction bound generalizing function with
  | zero => exact spent_composed
  | succ bound ih =>
    refine .bind (check_composed _) fun again => ?_
    split
    · refine .bind (arguments_composed h bound) fun args => ?_
      exact .bind .previousSpan fun stop => ih _
    · exact .pure _

theorem operand_composed (h : Composing inner) (bound : Nat) :
    Composed (operand inner bound) := by
  induction bound with
  | zero => exact spent_composed
  | succ bound ih =>
    refine .bind (.peekAt 0) fun t => ?_
    split
    · exact .bind .advance fun sign => .bind ih fun node => .pure _
    · exact .bind (primary_composed h bound) fun function => applied_composed h function _

theorem climb_composed (h : Composing inner) (least : Nat) (left : Node) (bound : Nat) :
    Composed (climb table inner least left bound) := by
  induction bound generalizing left with
  | zero => exact spent_composed
  | succ bound ih =>
    have operator : Composed (nextOperator table) := by
      refine .bind (.peekAt 0) fun t => ?_
      split <;> exact .pure _
    refine .bind operator fun found => ?_
    split
    · exact .pure _
    · split
      · exact .pure _
      · exact .bind .advance fun sign => .bind (h.expression _) fun right => ih _

theorem expressionWith_composed (h : Composing inner) (bound least : Nat) :
    Composed (expressionWith table inner bound least) :=
  .bind (operand_composed h bound) fun left => climb_composed h least left bound

theorem definition_composed (h : Composing inner) : Composed (definition inner) := by
  refine .bind (consume_composed _) fun keyword => .bind name_composed fun target => ?_
  refine .bind (consume_composed _) fun _ => ?_
  exact .bind (h.expression 0) fun value => .pure _

theorem namedFunction_composed (h : Composing inner) (bound : Nat) :
    Composed (namedFunction inner bound) := by
  refine .bind (consume_composed _) fun keyword => .bind name_composed fun target => ?_
  exact .bind (functionRest_composed h bound _) fun function => .pure _

theorem statementWith_composed (h : Composing inner) (bound : Nat) :
    Composed (statementWith table inner bound) := by
  refine .bind (.peekAt 0) fun t => ?_
  split
  · exact definition_composed h
  · refine .bind (.peekAt 1) fun t' => ?_
    split
    · exact namedFunction_composed h bound
    · exact expressionWith_composed h bound 0
  · exact conditional_composed h bound
  · exact block_composed h bound
  · exact expressionWith_composed h bound 0

/-- **Statements and expressions are composed.** -/
theorem upTo_composed (table : OperatorTable) (bound : Nat) : Composing (upTo table bound) := by
  induction bound with
  | zero => exact ⟨spent_composed, fun _ => spent_composed⟩
  | succ bound ih =>
    exact ⟨statementWith_composed ih (bound + 1), expressionWith_composed ih (bound + 1)⟩

end Grammar

namespace Reader

theorem skipSemicolons_composed (bound : Nat) : Composed (skipSemicolons bound) := by
  induction bound with
  | zero => exact spent_composed
  | succ bound ih =>
    refine .bind (accept_composed _) fun more => ?_
    split
    · exact ih
    · exact .pure _

theorem ending_composed (node : Node) : Composed (ending node) := by
  unfold ending
  split
  · exact .bind (accept_composed _) fun _ => .pure _
  · exact .bind (consume_composed _) fun _ => .pure _

end Reader

/-! ### Forks -/

/-- Two cursors that have looked at the same tokens and have the same before them, up to text that
is no token before the one, and anything before the other. The tokens have a property. -/
structure Cursor.Fork (P : Lexeme → Prop) (error : LexError) (more other : List LexItem)
    (c c' : Cursor) : Prop where
  proper : c.Proper
  proper' : c'.Proper
  ahead : c'.ahead = c.ahead
  previous : c'.previous = c.previous
  upcoming : ∃ front : List Lexeme, c.upcoming = front.map .ok ++ .error error :: more ∧
    c'.upcoming = front.map .ok ++ other ∧ ∀ lexeme ∈ front, P lexeme
  seen : ∀ lexeme ∈ c.ahead, P lexeme

section

variable {P : Lexeme → Prop} {error : LexError} {more other : List LexItem} {α β : Type}
  {c c' : Cursor}

/-- What two parsers come to at a fork: the first stops at the text that is no token, or both come
to the same. -/
inductive Parts (P : Lexeme → Prop) (error : LexError) (more other : List LexItem)
    (r r' : EStateM.Result ReadError Cursor α) : Prop
  | stopped (c₁ : Cursor) (first : r = .error (.lexical error) c₁)
      (upcoming : c₁.upcoming = more) (seen : ∀ lexeme ∈ c₁.ahead, P lexeme)
  | found (a : α) (c₁ c₁' : Cursor) (first : r = .ok a c₁) (second : r' = .ok a c₁')
      (fork : c₁.Fork P error more other c₁')
  | failed (e : ReadError) (c₁ c₁' : Cursor) (first : r = .error e c₁)
      (second : r' = .error e c₁') (grammatical : ∀ e', e ≠ .lexical e')

/-- What the first of two parsers comes to, the second comes to. -/
theorem Parts.second {r r' : EStateM.Result ReadError Cursor α} {a : α} {c₁ : Cursor}
    (parts : Parts P error more other r r') (first : r = .ok a c₁) :
    ∃ c₁', r' = .ok a c₁' ∧ c₁.Fork P error more other c₁' := by
  subst first
  cases parts with
  | found a c₁ c₁' first second fork =>
    cases first
    exact ⟨c₁', second, fork⟩
  | stopped c₁ first => cases first
  | failed e c₁ c₁' first => cases first

theorem parts_bind {p p' : Parser α} {f f' : α → Parser β}
    (first : Parts P error more other (p c) (p' c'))
    (second : ∀ a c₁ c₁', p c = .ok a c₁ → c₁.Fork P error more other c₁' →
      Parts P error more other (f a c₁) (f' a c₁')) :
    Parts P error more other ((p >>= f) c) ((p' >>= f') c') := by
  show Parts P error more other (EStateM.bind p f c) (EStateM.bind p' f' c')
  rw [EStateM.bind, EStateM.bind]
  cases first with
  | stopped c₁ first upcoming seen =>
    rw [first]
    exact .stopped c₁ rfl upcoming seen
  | found a c₁ c₁' first second' fork =>
    rw [first, second']
    exact second a c₁ c₁' first fork
  | failed e c₁ c₁' first second' grammatical =>
    rw [first, second']
    exact .failed e c₁ c₁' rfl rfl grammatical

/-- A look comes to the text that is no token, or it shows the same token. -/
theorem lookFurther_parts (fork : c.Fork P error more other c') :
    Parts P error more other (lookFurther c) (lookFurther c') := by
  obtain ⟨ahead, upcoming, eof, previous⟩ := c
  obtain ⟨ahead', upcoming', eof', previous'⟩ := c'
  obtain ⟨proper, proper', sameAhead, samePrevious, ⟨front, split, split', unseen⟩, seen⟩ := fork
  simp only at sameAhead samePrevious split split' seen
  subst sameAhead samePrevious split split'
  cases front with
  | nil => exact .stopped _ rfl rfl seen
  | cons lexeme front =>
    obtain ⟨here, unseen⟩ := List.forall_mem_cons.mp unseen
    refine .found () _ _ rfl rfl ⟨(lookFurther_ok proper rfl).1, (lookFurther_ok proper' rfl).1,
      rfl, rfl, ⟨front, rfl, rfl, unseen⟩, fun l member => ?_⟩
    rcases List.mem_append.mp member with before | last
    · exact seen l before
    · exact List.mem_singleton.mp last ▸ here

theorem lookFurtherBy_parts (n : Nat) (fork : c.Fork P error more other c') :
    Parts P error more other (lookFurtherBy n c) (lookFurtherBy n c') := by
  induction n generalizing c c' with
  | zero => exact .found () c c' rfl rfl fork
  | succ n ih => exact parts_bind (lookFurther_parts fork) fun _ _ _ _ fork' => ih fork'

/-- A look at a token of which the place was looked at. -/
theorem peekAt_parts (n : Nat) (fork : c.Fork P error more other c') :
    Parts P error more other (peekAt n c) (peekAt n c') := by
  show Parts P error more other
    ((lookFurtherBy (n + 1 - c.ahead.length) >>= fun _ c₁ =>
      .ok (c₁.ahead[n]?.getD c₁.eof).token c₁) c)
    ((lookFurtherBy (n + 1 - c'.ahead.length) >>= fun _ c₁ =>
      .ok (c₁.ahead[n]?.getD c₁.eof).token c₁) c')
  rw [fork.ahead]
  refine parts_bind (lookFurtherBy_parts _ fork) fun _ c₁ c₁' result fork' => ?_
  -- the look went far enough
  have looked := lookFurtherBy_comes (n + 1 - c.ahead.length) c
  rw [Comes, result] at looked
  obtain ⟨_, more, split, many⟩ := looked
  have far : n < c₁.ahead.length := by
    rw [split, List.length_append, many]
    omega
  refine .found _ c₁ c₁' rfl ?_ fork'
  rw [fork'.ahead, List.getElem?_eq_getElem far]
  rfl

theorem advance_parts (fork : c.Fork P error more other c') :
    Parts P error more other (advance c) (advance c') := by
  show Parts P error more other
    ((lookFurtherBy (1 - c.ahead.length) >>= fun _ => takeNext) c)
    ((lookFurtherBy (1 - c'.ahead.length) >>= fun _ => takeNext) c')
  rw [fork.ahead]
  refine parts_bind (lookFurtherBy_parts _ fork) fun _ c₁ c₁' result fork' => ?_
  have looked := lookAtNext_comes c
  rw [Comes, result] at looked
  obtain ⟨_, lexeme, ahead, first⟩ := looked
  obtain ⟨_, upcoming, eof, previous⟩ := c₁
  obtain ⟨_, upcoming', eof', previous'⟩ := c₁'
  obtain ⟨proper, proper', rfl, _, tokens, seen⟩ := fork'
  obtain rfl := first
  refine .found lexeme _ _ rfl rfl
    ⟨proper.advanced (some lexeme), proper'.advanced (some lexeme), rfl, rfl, tokens, ?_⟩
  show ∀ l ∈ if lexeme.token = .eof then lexeme :: ahead else ahead, P l
  split
  · exact seen
  · exact fun l member => seen l (.tail _ member)

/-- **At a fork, what is composed stops at the text that is no token, or comes to the same.** -/
theorem Parser.Composed.parts {p : Parser α} (composed : Composed p)
    (fork : c.Fork P error more other c') : Parts P error more other (p c) (p c') := by
  induction composed generalizing c c' with
  | pure a => exact .found a c c' rfl rfl fork
  | bind first second ih₁ ih₂ => exact parts_bind (ih₁ fork) fun a _ _ _ fork' => ih₂ a fork'
  | unexpected expected =>
    have span : c'.currentSpan = c.currentSpan := by
      rw [Cursor.currentSpan, Cursor.currentSpan, fork.ahead, fork.previous]
    have same : c'.unexpected expected = c.unexpected expected := by
      rw [Cursor.unexpected, Cursor.unexpected, fork.ahead, span]
    refine .failed (c.unexpected expected) c c' rfl ?_ fun e' lexical => ?_
    · rw [← same]
      rfl
    · unfold Cursor.unexpected at lexical
      split at lexical
      · cases lexical
      · split at lexical <;> cases lexical
  | peekAt n => exact peekAt_parts n fork
  | advance => exact advance_parts fork
  | currentSpan =>
    refine .found c.currentSpan c c' rfl ?_ fork
    show EStateM.Result.ok c'.currentSpan c' = _
    rw [Cursor.currentSpan, Cursor.currentSpan, fork.ahead, fork.previous]
  | previousSpan =>
    refine .found c.previousSpan c c' rfl ?_ fork
    show EStateM.Result.ok c'.previousSpan c' = _
    rw [Cursor.previousSpan, Cursor.previousSpan, fork.previous]

/-! ### Bounds -/

/-- A cursor and itself, which is never lost. -/
def still : Tracking where
  place span := span
  together := Eq
  lost _ := False
  place_join _ _ := rfl
  place_emptyAt _ := rfl
  ahead here := by
    subst here
    exact (List.map_id _).symm
  current here := by
    subst here
    rfl
  latest here consumed := by
    subst here
    exact consumed
  remaining_le here := Nat.le_of_eq (congrArg Cursor.remaining here)
  look {c c'} _ here _ := by
    subst here
    cases result : lookFurther c with
    | ok a c₁ => exact .inr ⟨c₁, rfl, rfl⟩
    | error e c₁ =>
      refine .inr ⟨c₁, ?_, rfl⟩
      cases e <;> rfl
  advanced {c c' lexeme ahead} here _ := by
    subst here
    have same : ahead.map (Lexeme.placed fun span => span) = ahead := List.map_id _
    rw [same]
    rfl
  lost_step _ _ here := here

/-- A bound that is larger than the number of tokens left makes no difference. -/
def Steady (f : Nat → Parser α) : Prop :=
  ∀ (c : Cursor) (b b' : Nat), c.Proper → c.remaining + 1 < b → c.remaining + 1 < b' →
    f b c = f b' c

theorem steady_of_tracks {f : Nat → Parser α} {g : α → α} (same : ∀ a, g a = a)
    (tracks : ∀ {n b b'}, n < b → n < b' → Tracking.Tracks still n none g (f b) (f b')) :
    Steady f := by
  intro c b b' proper enough enough'
  have agree := (tracks enough enough').agree proper (Nat.lt_succ_self _) Cursor.sees_none rfl
  cases result : f b c with
  | ok a c₁ =>
    rw [result] at agree
    obtain ⟨_, result', rfl⟩ := agree.resolve_left id
    rw [result', same]
  | error e c₁ =>
    rw [result] at agree
    obtain ⟨_, result', rfl⟩ := agree.resolve_left id
    rw [result']
    cases e <;> rfl

theorem statement_steady (table : OperatorTable) :
    Steady fun bound => (Grammar.upTo table bound).statement :=
  steady_of_tracks Node.placed_id fun less less' => (Grammar.upTo_tracks table less less').statement

theorem skipSemicolons_steady : Steady Reader.skipSemicolons :=
  steady_of_tracks (g := id) (fun _ => rfl) fun less less' =>
    skipSemicolons_tracks (Nat.le_of_lt less) (Nat.le_of_lt less')

theorem parts_bound {f : Nat → Parser α} (steady : Steady f) (composed : ∀ n, Composed (f n))
    (fork : c.Fork P error more other c') :
    Parts P error more other ((Parser.bound >>= f) c) ((Parser.bound >>= f) c') := by
  show Parts P error more other (f (c.remaining + 2) c) (f (c'.remaining + 2) c')
  -- both are read with a bound that is large enough for either
  let bound := c.remaining + c'.remaining + 2
  rw [steady c _ bound fork.proper (by omega) (by omega),
    steady c' _ bound fork.proper' (by omega) (by omega)]
  exact (composed bound).parts fork

theorem skipped_parts (fork : c.Fork P error more other c') :
    Parts P error more other ((Parser.bound >>= Reader.skipSemicolons) c)
      ((Parser.bound >>= Reader.skipSemicolons) c') :=
  parts_bound skipSemicolons_steady Reader.skipSemicolons_composed fork

theorem statement_parts (table : OperatorTable) (fork : c.Fork P error more other c') :
    Parts P error more other (Parser.statement table c) (Parser.statement table c') :=
  parts_bound (statement_steady table) (fun n => (Grammar.upTo_composed table n).statement) fork

/-- The next statement without the semicolon after it. -/
def Reader.unended (table : OperatorTable) : Parser (Option Node) :=
  (Parser.bound >>= Reader.skipSemicolons) >>= fun _ =>
    check .eof >>= fun last =>
      if last then pure none else Parser.statement table >>= fun node => pure (some node)

/-- The semicolon after a statement, if there is a statement. -/
def Reader.endingOf : Option Node → Parser (Option Node)
  | none => pure none
  | some node => Reader.ending node

/-- A statement is read up to its semicolon, and then the semicolon is. -/
theorem nextStatement_unended (table : OperatorTable) :
    Reader.nextStatement table = Reader.unended table >>= Reader.endingOf := by
  simp only [nextStatement_eq, Reader.unended, bind_assoc]
  refine congrArg _ (funext fun bound => congrArg _ (funext fun _ => ?_))
  refine congrArg _ (funext fun last => ?_)
  cases last with
  | true => rfl
  | false =>
    show _ = (Parser.statement table >>= fun node => pure (some node)) >>= Reader.endingOf
    rw [bind_assoc]
    rfl

theorem unended_parts (table : OperatorTable) (fork : c.Fork P error more other c') :
    Parts P error more other (Reader.unended table c) (Reader.unended table c') := by
  refine parts_bind (skipped_parts fork) fun _ c₁ c₁' _ fork₁ => ?_
  refine parts_bind ((check_composed .eof).parts fork₁) fun last c₂ c₂' _ fork₂ => ?_
  cases last with
  | true => exact .found none c₂ c₂' rfl rfl fork₂
  | false =>
    refine parts_bind (statement_parts table fork₂) fun node c₃ c₃' _ fork₃ => ?_
    exact .found (some node) c₃ c₃' rfl rfl fork₃

/-- **At a fork, so does the next statement.** -/
theorem nextStatement_parts (table : OperatorTable) (fork : c.Fork P error more other c') :
    Parts P error more other (Reader.nextStatement table c) (Reader.nextStatement table c') := by
  rw [nextStatement_unended]
  refine parts_bind (unended_parts table fork) fun found c₁ c₁' _ fork₁ => ?_
  cases found with
  | none => exact .found none c₁ c₁' rfl rfl fork₁
  | some node => exact (Reader.ending_composed node).parts fork₁

end

end Retrace
