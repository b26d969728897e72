/-
Where reading comes to text that is no token.

* `Stumbles` — a parser stops at text that is no token.
* `stumbles_peek`, `Stumbles.bind`, `stumbles_after` — it does where it looks at such
  text, and where one of its steps does.
* `Broken` — signs and open brackets with expressions and commas between them, down to
  text that is no token.
* `Broken.operand_stumbles`, `Broken.expression_stumbles` — operands and expressions that
  are broken are not read.
* **`nextStatement_stumbles`** — neither is a statement.

Design notes: text that is no token is met where reading comes to it, and not before. So
what stands in front of it must be read in the usual way, which is known of expressions.
-/
import Retrace.Proofs.Reader.RoundTrip

namespace Retrace

namespace Parser

variable {α β : Type} {p : Parser α} {f : α → Parser β} {feed : Feed} {t token : Token}

/-- From a feed, a parser stops at text that is no token. -/
def Stumbles (p : Parser α) (feed : Feed) : Prop :=
  ∀ c : Cursor, c.Proper → c.feed = feed → ∃ e c', p c = .error (.lexical e) c'

/-- A look at text that is no token stops. -/
theorem stumbles_peek (h : feed.next = none) : Stumbles peek feed := by
  rintro ⟨ahead, upcoming, eof, previous⟩ proper rfl
  rcases ahead with _ | ⟨lexeme, ahead⟩
  · rcases upcoming with _ | ⟨error | lexeme, upcoming⟩
    · cases h
    · exact ⟨error, _, rfl⟩
    · cases h
  · -- what was looked at is a token
    have seen : Feed.item _ 0 = some lexeme.token := proper.item_ahead rfl
    cases h.symm.trans seen

theorem Stumbles.bind (h : Stumbles p feed) : Stumbles (p >>= f) feed := by
  intro c proper same
  obtain ⟨e, c', stops⟩ := h c proper same
  refine ⟨e, c', ?_⟩
  show EStateM.bind p f c = _
  rw [EStateM.bind, stops]

/-- A parser stops where its next step does. -/
theorem stumbles_after (h : Yields False p feed fun a rest => Stumbles (f a) rest) :
    Stumbles (p >>= f) feed := by
  intro c proper same
  have first := h c proper same
  show ∃ e c', EStateM.bind p f c = _
  rw [EStateM.bind]
  cases here : p c with
  | ok a c' =>
    rw [here] at first
    exact first.2 c' first.1 rfl
  | error e c' =>
    rw [here] at first
    exact absurd first id

theorem stumbles_peeked {f : Token → Parser β} (next : feed.next = some t)
    (h : Stumbles (f t) feed) : Stumbles (peek >>= f) feed := by
  refine stumbles_after (yields_peek (fun t' next' => ?_) fun absent => ?_)
  · obtain rfl := Option.some.inj (next.symm.trans next')
    exact h
  · cases next.symm.trans absent

theorem stumbles_advanced {f : Lexeme → Parser β} (h : ∀ lexeme, Stumbles (f lexeme) feed) :
    Stumbles (advance >>= f) (some t :: feed) :=
  stumbles_after (yields_advance (fun lexeme _ => h lexeme) fun absent => by cases absent)

theorem stumbles_consumed {f : Lexeme → Parser β} (h : ∀ lexeme, Stumbles (f lexeme) feed) :
    Stumbles (consume t >>= f) (some t :: feed) :=
  stumbles_after (yields_consume (fun _ lexeme => h lexeme) fun absent => absurd rfl absent)

theorem stumbles_accepted {f : Bool → Parser β} (h : Stumbles (f true) feed) :
    Stumbles (accept t >>= f) (some t :: feed) :=
  stumbles_after (yields_accept (fun _ => h)
    (fun _ next other => absurd (Option.some.inj next).symm other) fun absent => by cases absent)

/-- A token that does not come next is not accepted, and looking for it may stop. -/
theorem stumbles_declined {f : Bool → Parser β} (other : feed.next ≠ some token)
    (h : Stumbles (f false) feed) : Stumbles (accept token >>= f) feed := by
  cases next : feed.next with
  | none => exact .bind (.bind (.bind (stumbles_peek next)))
  | some t =>
    refine stumbles_after (yields_accept (fun here => absurd here other) (fun _ _ _ => h) ?_)
    intro absent
    cases next.symm.trans absent

theorem stumbles_checked {f : Bool → Parser β} (other : feed.next ≠ some token)
    (h : Stumbles (f false) feed) : Stumbles (check token >>= f) feed := by
  cases next : feed.next with
  | none => exact .bind (.bind (stumbles_peek next))
  | some t =>
    refine stumbles_after (yields_check (fun here => absurd here other) (fun _ _ _ => h) ?_)
    intro absent
    cases next.symm.trans absent

end Parser

/-! ### Broken text -/

open Retrace.Parser Grammar Feed

variable {table : OperatorTable} {feed z : Feed}

/-- A feed behind expressions that have a comma after each. -/
def Feed.behind : List (Expr table) → Feed → Feed
  | [], z => z
  | e :: es, z => inFront e.tokens (some (.mark .comma) :: behind es z)

/-- Text that is no token, behind signs and behind the first items of lists. -/
inductive Broken (table : OperatorTable) : Feed → Prop
  | here {rest} : Broken table (none :: rest)
  | signed {rest} (inside : Broken table rest) : Broken table (some (.op .sub) :: rest)
  | list {rest} (before : List (Expr table)) (inside : Broken table rest) :
      Broken table (some (.mark .openBracket) :: behind before rest)

theorem Broken.length_pos (h : Broken table feed) : 0 < feed.length := by
  cases h <;> exact Nat.succ_pos _

/-- An expression is read in front of a comma. -/
theorem Expr.reads_item (e : Expr table) (z : Feed) :
    Reads table (.expression 0) (inFront e.tokens (some (.mark .comma) :: z)) [e.node]
      (some (.mark .comma) :: z) :=
  e.readable.expression _ (follows_expression (by decide))

/-- Broken text does not begin with a closing bracket. -/
theorem Broken.next_ne (h : Broken table feed) : feed.next ≠ some (.mark .closeBracket) := by
  cases h <;> rintro ⟨⟩

/-- Neither do expressions. -/
theorem behind_next_ne (before : List (Expr table))
    (inside : z.next ≠ some (.mark .closeBracket)) :
    (behind before z).next ≠ some (.mark .closeBracket) := by
  cases before with
  | nil => exact inside
  | cons e es =>
    obtain ⟨t, rest, same, begins, _⟩ := (e.reads_item (behind es z)).expression_begins
    rw [behind, same]
    rintro ⟨⟩
    cases begins

/-- A feed has more than one token for each expression that it is behind. -/
theorem length_behind (before : List (Expr table)) (z : Feed) :
    before.length + z.length ≤ (behind before z).length := by
  induction before with
  | nil => exact Nat.le_of_eq (Nat.zero_add _)
  | cons e es ih =>
    rw [behind, inFront, List.length_append, List.length_cons, List.length_cons]
    omega

/-- Items with broken text behind them are not read. -/
theorem separated_stumbles {depth bound : Nat} (before : List (Expr table))
    (inside : Stumbles ((upTo table (depth + 1)).expression 0) z)
    (hdepth : (behind before z).length ≤ depth) (hbound : before.length < bound) :
    Stumbles (separated ((upTo table (depth + 1)).expression 0) (.mark .comma) bound)
      (behind before z) := by
  obtain ⟨bound, rfl⟩ : ∃ b, bound = b + 1 := ⟨bound - 1, by omega⟩
  induction before generalizing bound with
  | nil => exact inside.bind
  | cons e es ih =>
    have first := e.reads_item (behind es z)
    have length : (behind (e :: es) z).length =
        e.tokens.length + ((behind es z).length + 1) := by
      rw [behind, inFront, List.length_append, List.length_map, List.length_cons]
    rw [length] at hdepth
    rw [List.length_cons] at hbound
    obtain ⟨bound, rfl⟩ : ∃ b, bound = b + 1 := ⟨bound - 1, by omega⟩
    have item : Gives ((upTo table (depth + 1)).expression 0) (behind (e :: es) z) [e.node] _ :=
      first.delivers depth (e.tokens.length + 1) (by rw [← behind, length, List.length_cons]; omega)
        (by rw [← behind, length, List.length_cons]; omega)
    refine stumbles_after (item.mono fun node rest here => ?_)
    obtain ⟨_, rfl⟩ := here
    exact stumbles_accepted (ih (by omega) bound (by omega)).bind

/-- An operand that is broken is not read. -/
theorem Broken.operand_stumbles (h : Broken table feed) {depth bound : Nat}
    (hdepth : feed.length ≤ depth) (hbound : feed.length ≤ bound) :
    Stumbles (operand (upTo table depth) bound) feed := by
  induction h generalizing depth bound with
  | here =>
    rw [List.length_cons] at hbound
    obtain ⟨bound, rfl⟩ : ∃ b, bound = b + 1 := ⟨bound - 1, by omega⟩
    exact (stumbles_peek rfl).bind
  | signed inside ih =>
    rw [List.length_cons] at hdepth hbound
    obtain ⟨bound, rfl⟩ : ∃ b, bound = b + 1 := ⟨bound - 1, by omega⟩
    refine stumbles_peeked rfl (stumbles_advanced fun sign => ?_)
    exact (ih (by omega) (by omega)).bind
  | @list rest before inside ih =>
    have enough := length_behind before rest
    have some_left := inside.length_pos
    rw [List.length_cons] at hdepth hbound
    obtain ⟨bound, rfl⟩ : ∃ b, bound = b + 1 := ⟨bound - 1, by omega⟩
    obtain ⟨depth, rfl⟩ : ∃ d, depth = d + 1 := ⟨depth - 1, by omega⟩
    have item : Stumbles ((upTo table (depth + 1)).expression 0) rest := by
      show Stumbles (expressionWith table (upTo table depth) (depth + 1) 0) rest
      exact (ih (by omega) (by omega)).bind
    have items : Stumbles (separated _ (.mark .comma) bound) (behind before rest) :=
      separated_stumbles before item (by omega) (by omega)
    refine stumbles_peeked rfl (Stumbles.bind ?_)
    refine stumbles_peeked rfl (stumbles_after (yields_currentSpan fun _ => Stumbles.bind ?_))
    refine stumbles_consumed fun _ => ?_
    exact stumbles_declined (behind_next_ne before inside.next_ne) items.bind

/-- An expression that is broken is not read. -/
theorem Broken.expression_stumbles (h : Broken table feed) {depth : Nat}
    (hdepth : feed.length ≤ depth) (least : Nat) :
    Stumbles (expressionWith table (upTo table depth) (depth + 1) least) feed :=
  (h.operand_stumbles hdepth (Nat.le_succ_of_le hdepth)).bind

theorem stumbles_bound {α : Type} {f : Nat → Parser α} (h : Stumbles (f (feed.length + 2)) feed) :
    Stumbles (Parser.bound >>= f) feed := by
  refine stumbles_after ?_
  rintro c proper rfl
  refine ⟨proper, ?_⟩
  rw [remaining_eq]
  exact h

theorem Broken.statement_stumbles (h : Broken table feed) :
    Stumbles (Parser.statement table) feed := by
  refine stumbles_bound ?_
  have expression : Stumbles (expressionWith table (upTo table (feed.length + 1)) _ 0) feed :=
    h.expression_stumbles (Nat.le_succ _) 0
  -- neither a sign nor a bracket begins a statement of a form of its own
  cases h with
  | here => exact (stumbles_peek rfl).bind
  | signed | list => exact stumbles_peeked rfl expression

namespace Reader

/-- **Where broken text comes next, the next statement is not read.** -/
theorem nextStatement_stumbles (h : Broken table feed) :
    Stumbles (nextStatement table) feed := by
  have noSemicolon : feed.next ≠ some (.mark .semicolon) := by cases h <;> rintro ⟨⟩
  have notEnd : feed.next ≠ some .eof := by cases h <;> rintro ⟨⟩
  have rest : Stumbles (Parser.atEnd >>= fun atEnd => do
      if atEnd then
        return none
      let node ← Parser.statement table
      if node.endsWithBlock then
        let _ ← Parser.accept (.mark .semicolon)
      else
        let _ ← Parser.consume (.mark .semicolon)
      return some node) feed :=
    stumbles_checked notEnd h.statement_stumbles.bind
  refine stumbles_bound ?_
  cases next : feed.next with
  | none => exact .bind (.bind (.bind (.bind (stumbles_peek next))))
  | some t =>
    have other : t ≠ .mark .semicolon := fun same => noSemicolon (same ▸ next)
    exact stumbles_after (yields_declined next other (yields_pure rest))

/-- A reader in front of broken text stops with a lexical error. -/
theorem read_of_broken {r : Reader} (proper : r.cursor.Proper)
    (h : Broken r.config.operators r.cursor.feed) :
    ∃ e r', r.read = (.error (.lexical e), r') := by
  obtain ⟨e, c, stops⟩ := nextStatement_stumbles h r.cursor proper rfl
  exact ⟨e, _, read_of_error stops⟩

end Reader

end Retrace
