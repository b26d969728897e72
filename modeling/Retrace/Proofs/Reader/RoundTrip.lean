/-
Reading is the inverse of printing.

* `Expr.Readable` — an expression is read from its tokens in each place it may have.
* `Expr.readable`, `Statement.readable` — every expression and every statement is.
* **`readAll_text`** — reading the text of statements gives their trees, whatever the
  operator table.

Design notes:
* What is read from tokens is claimed in front of every feed that does not go on it, so
  the parts of an expression fit together without regard to what they are.
* A conditional and a block are statements in their own right. As operands they have
  parentheses, so no statement that begins with one has more to it.
-/
import Retrace.Proofs.Reader.Printing

namespace Retrace

open Node Token

variable {table : OperatorTable} {z : Feed} {node : Node} {nodes : List Node}

/-- Tokens in front of a feed. -/
def Feed.inFront (tokens : List Token) (z : Feed) : Feed :=
  tokens.map some ++ z

namespace Feed

@[simp] theorem inFront_cons (t : Token) (tokens : List Token) :
    inFront (t :: tokens) z = some t :: inFront tokens z := rfl

@[simp] theorem inFront_append (tokens tokens' : List Token) :
    inFront (tokens ++ tokens') z = inFront tokens (inFront tokens' z) := by
  rw [inFront, List.map_append, List.append_assoc]
  rfl

@[simp] theorem inFront_between (opening closing : Mark) (inside : List Token) :
    inFront (between opening closing inside) z =
      some (mark opening) :: inFront inside (some (mark closing) :: z) := by
  rw [between, inFront_cons, inFront_append]
  rfl

end Feed

open Feed

/-! ### From part to whole -/

theorem afterExpression_mark {m : Mark} (other : m ≠ .openParen) (least : Nat) :
    AfterExpression table least (.mark m) :=
  ⟨⟨nofun, fun same => other (Token.mark.inj same)⟩, loose_mark m least⟩

/-- A closing bracket or a separator does not go on what stands before it. -/
theorem follows_expression {m : Mark} (other : m ≠ .openParen) :
    Follows table (.expression 0) (some (.mark m) :: z) :=
  ⟨_, rfl, afterExpression_mark other 0⟩

theorem Reads.operand_of_primary {feed : Feed} (h : Reads table .primary feed [node] z)
    (after : Follows table .operand z) : Reads table .operand feed [node] z := by
  obtain ⟨t, next, _, noArguments⟩ := after
  exact .operand h (.unapplied next noArguments)

theorem Reads.expression_of_operand {feed : Feed} {least : Nat}
    (h : Reads table .operand feed [node] z) (after : Follows table (.expression 0) z) :
    Reads table (.expression least) feed [node] z := by
  obtain ⟨t, next, _, loose⟩ := after
  exact .expression h (.stop next (loose.mono (Nat.zero_le least)))

section series

variable {α : Type} {item : Item} {tokens : α → List Token} {tree : α → Node} {closing : Mark}

theorem Item.follows (closes : closing = .closeParen ∨ closing = .closeBracket) :
    Follows table item.phrase (some (.mark closing) :: z) := by
  cases item with
  | parameter => trivial
  | expression => exact follows_expression (by rintro rfl; simp at closes)

/-- Items that are read one by one are read with commas between them. -/
theorem separated_reads (closes : closing = .closeParen ∨ closing = .closeBracket) (x : α)
    (xs : List α)
    (h : ∀ y ∈ x :: xs, ∀ z, Follows table item.phrase z →
      Reads table item.phrase (inFront (tokens y) z) [tree y] z) :
    Reads table (.separated item)
      (inFront ([mark .comma].intercalate ((x :: xs).map tokens)) (some (.mark closing) :: z))
      ((x :: xs).map tree) (some (.mark closing) :: z) := by
  induction xs generalizing x with
  | nil =>
    rw [List.map_singleton, List.map_singleton, List.intercalate_singleton]
    -- the closing bracket is no comma
    refine .last (h x (.head _) _ (Item.follows closes)) rfl ?_
    rintro same
    cases Token.mark.inj same
    simp at closes
  | cons y ys ih =>
    rw [List.map_cons, List.map_cons, List.intercalate_cons_cons, ← List.map_cons,
      List.append_assoc, inFront_append, List.singleton_append, inFront_cons]
    have comma : ∀ z, Follows table item.phrase (some (.mark .comma) :: z) := by
      intro z
      cases item with
      | parameter => trivial
      | expression => exact follows_expression (by decide)
    exact .more (h x (.head _) _ (comma _)) (ih y fun y' member => h y' (.tail _ member))

/-- Items that are read one by one are read between brackets. -/
theorem series_reads {opening : Mark} (closes : closing = .closeParen ∨ closing = .closeBracket)
    (xs : List α)
    (h : ∀ y ∈ xs, ∀ z, Follows table item.phrase z →
      Reads table item.phrase (inFront (tokens y) z) [tree y] z) (z : Feed) :
    Reads table (.delimited opening closing item)
      (inFront (series opening closing (xs.map tokens)) z) (xs.map tree) z := by
  rw [series, inFront_between]
  cases xs with
  | nil => exact .nothing
  | cons x xs =>
    have inside := separated_reads closes x xs h (z := z)
    refine .items ?_ inside
    -- a closing bracket begins no item
    obtain ⟨t, next, begins⟩ := inside.separated_next
    rw [next]
    rintro same
    rw [Option.some.inj same] at begins
    rcases closes with rfl | rfl <;> exact absurd begins Bool.false_ne_true

end series

theorem conditional_reads {condition consequent alternative : List Token} {node₁ node₂ node₃ : Node}
    (first : ∀ z, Follows table (.expression 0) z →
      Reads table (.expression 0) (inFront condition z) [node₁] z)
    (second : ∀ z,
      Reads table .block (inFront (between .openBrace .closeBrace consequent) z) [node₂] z)
    (third : ∀ z, Follows table .alternative z →
      Reads table .alternative (inFront alternative z) [node₃] z)
    (after : Follows table .alternative z) :
    Reads table .conditional (inFront (ofConditional condition consequent alternative) z)
      [special .conditional [node₁, node₂, node₃]] z := by
  rw [ofConditional, inFront_cons, inFront_append, inFront_between, inFront_append]
  exact .conditional (first _ (follows_expression (by decide))) (second _) (third z after)

/-! ### Expressions and statements -/

/-- An expression is read from its tokens: among operators of any level, as a statement, and as
an operand if it is not compound. -/
structure Expr.Readable (e : Expr table) : Prop where
  expression : ∀ z, Follows table (.expression 0) z →
    Reads table (.expression 0) (inFront e.tokens z) [e.node] z
  statement : ∀ z, Follows table (.expression 0) z →
    Reads table .statement (inFront e.tokens z) [e.node] z
  primary : e.isCompound = false → ∀ z, Reads table .primary (inFront e.tokens z) [e.node] z

/-- An alternative is read from its tokens. -/
def Alternative.Readable (a : Alternative table) : Prop :=
  ∀ z, Follows table .alternative z → Reads table .alternative (inFront a.tokens z) [a.node] z

/-- A statement is read from its tokens. -/
def Statement.Readable (s : Statement table) : Prop :=
  ∀ z, Follows table (.expression 0) z → Reads table .statement (inFront s.tokens z) [s.node] z

/-- Tokens that begin no statement of a form of its own. -/
def Formless (tokens : List Token) : Prop :=
  ∃ t rest, tokens = t :: rest ∧ t ≠ .keyword .conditional ∧ t ≠ .mark .openBrace

theorem Formless.append {tokens : List Token} (h : Formless tokens) (tokens' : List Token) :
    Formless (tokens ++ tokens') := by
  obtain ⟨t, rest, rfl, noConditional, noBlock⟩ := h
  exact ⟨t, rest ++ tokens', rfl, noConditional, noBlock⟩

theorem Formless.statement {tokens : List Token} (h : Formless tokens)
    (here : Reads table (.expression 0) (inFront tokens z) [node] z) :
    Reads table .statement (inFront tokens z) [node] z := by
  obtain ⟨t, rest, rfl, noConditional, noBlock⟩ := h
  exact .statement rfl noConditional noBlock here

/-- An operand begins as no conditional and no block does. -/
theorem Expr.formless_enclosed (e : Expr table) : Formless (enclosed e.isCompound e.tokens) := by
  cases e with
  | _ => exact ⟨_, _, rfl, nofun, nofun⟩

namespace Expr.Readable

variable {e : Expr table}

/-- What is read as an operand, and begins no statement of a form of its own. -/
theorem of_operand (compound : e.isCompound) (formless : Formless e.tokens)
    (h : ∀ z, Follows table .operand z → Reads table .operand (inFront e.tokens z) [e.node] z) :
    e.Readable := by
  have expression : ∀ z, Follows table (.expression 0) z →
      Reads table (.expression 0) (inFront e.tokens z) [e.node] z := fun z after =>
    (h z after.operand).expression_of_operand after
  refine ⟨expression, fun z after => formless.statement (expression z after), fun simple => ?_⟩
  exact absurd (compound.symm.trans simple) Bool.noConfusion

/-- What is read as an operand wherever it stands. -/
theorem of_primary (formless : Formless e.tokens)
    (h : ∀ z, Reads table .primary (inFront e.tokens z) [e.node] z) : e.Readable := by
  have expression : ∀ z, Follows table (.expression 0) z →
      Reads table (.expression 0) (inFront e.tokens z) [e.node] z := fun z after =>
    ((h z).operand_of_primary after.operand).expression_of_operand after
  exact ⟨expression, fun z after => formless.statement (expression z after), fun _ => h⟩

theorem of_leaf {t : Token} (tokens : e.tokens = [t]) (leaf : t.leaf? = some e.node)
    (noBlock : t ≠ .mark .openBrace) : e.Readable := by
  have noConditional : t ≠ .keyword .conditional := by
    rintro rfl
    exact nomatch leaf
  refine of_primary ⟨t, [], tokens, noConditional, noBlock⟩ fun z => ?_
  rw [tokens]
  exact .leaf leaf

/-- Every expression is an operand, if it has the parentheses that it needs. -/
theorem enclosed (h : e.Readable) (z : Feed) :
    Reads table .primary (inFront (enclosed e.isCompound e.tokens) z) [e.node] z := by
  rw [Token.enclosed]
  by_cases compound : e.isCompound
  · -- in parentheses, an expression of any form is an operand
    rw [if_pos compound, inFront_between]
    exact .parenthesized (h.expression _ (follows_expression (by decide)))
  · rw [if_neg compound]
    exact h.primary (Bool.eq_false_iff.mpr compound) z

theorem operand (h : e.Readable) {z : Feed} (after : Follows table .operand z) :
    Reads table .operand (inFront (Token.enclosed e.isCompound e.tokens) z) [e.node] z :=
  (h.enclosed z).operand_of_primary after

end Expr.Readable

theorem tokensEach_eq_map (es : List (Expr table)) : Expr.tokensEach es = es.map Expr.tokens := by
  induction es with
  | nil => rfl
  | cons e es ih => rw [Expr.tokensEach, ih, List.map_cons]

theorem nodes_eq_map (es : List (Expr table)) : Expr.nodes es = es.map Expr.node := by
  induction es with
  | nil => rfl
  | cons e es ih => rw [Expr.nodes, ih, List.map_cons]

/-- Expressions are read between brackets, with commas between them. -/
theorem expressions_reads {opening closing : Mark}
    (closes : closing = .closeParen ∨ closing = .closeBracket) {es : List (Expr table)}
    (h : ∀ e ∈ es, e.Readable) (z : Feed) :
    Reads table (.delimited opening closing .expression)
      (inFront (series opening closing (Expr.tokensEach es)) z) (Expr.nodes es) z := by
  rw [tokensEach_eq_map, nodes_eq_map]
  exact series_reads closes es (fun e member z after => (h e member).expression z after) z

/-- Parameters are read between parentheses, with commas between them. -/
theorem parameters_reads (params : List Identifier) (z : Feed) :
    Reads table (.delimited .openParen .closeParen .parameter)
      (inFront (series .openParen .closeParen (params.map ([.name ·.text]))) z)
      (params.map (named ·.text)) z :=
  series_reads (.inl rfl) params (fun _ _ _ _ => .name) z

/-- Statements are read between braces, with a semicolon after each. -/
theorem block_reads {statements : List (Statement table)} (h : ∀ s ∈ statements, s.Readable)
    (z : Feed) :
    Reads table .block (inFront (between .openBrace .closeBrace (Statement.tokensAll statements)) z)
      [blockOf (Statement.nodes statements)] z := by
  rw [inFront_between]
  refine .block ?_
  induction statements with
  | nil => exact .noStatement
  | cons s ss ih =>
    rw [Statement.tokensAll, inFront_append, inFront_cons]
    have first := h s (.head _)
    exact .terminated (first _ (follows_expression (by decide)))
      (ih fun s' member => h s' (.tail _ member))

theorem binary_readable (o : Operator) (known : table.contains o.text) {left right : Expr table}
    (first : left.Readable) (second : right.Readable) :
    (Expr.binary o known left right).Readable := by
  obtain ⟨binding, found⟩ := Option.isSome_iff_exists.mp known
  have sign : table.operator? (.op o) = some (o.text, binding) := by
    show (table.find? o.text).map _ = _
    rw [found]
    rfl
  have expression : ∀ z, Follows table (.expression 0) z →
      Reads table (.expression 0) (inFront (Expr.binary o known left right).tokens z)
        [(Expr.binary o known left right).node] z := by
    intro z after
    -- an operand is read at any level, and no operator follows that could go on it
    have last : Reads table (.expression binding.right) _ [right.node] z :=
      (second.operand after.operand).expression_of_operand after
    obtain ⟨t, next, _, loose⟩ := after
    rw [Expr.tokens, inFront_append, inFront_cons]
    refine .expression (first.operand ⟨_, rfl, nofun, nofun⟩) ?_
    exact .climb sign (Nat.zero_le _) last (.stop next loose)
  refine ⟨expression, fun z after => ?_, nofun⟩
  exact (left.formless_enclosed.append _).statement (expression z after)

mutual

/-- **Every expression is read from its tokens.** -/
theorem Expr.readable : (e : Expr table) → e.Readable
  | .int n _ => .of_leaf rfl rfl nofun
  | .str s => .of_leaf rfl rfl nofun
  | .bool b => .of_leaf rfl rfl nofun
  | .name x => .of_leaf rfl rfl nofun
  | .back => .of_leaf rfl rfl nofun
  | .binary o known left right => binary_readable o known left.readable right.readable
  | .unary sign e => by
    have inside := e.readable
    refine .of_operand rfl ⟨sign.token, _, rfl, ?_, ?_⟩ fun z after => ?_
    · cases sign <;> nofun
    · cases sign <;> nofun
    · exact .signed (by cases sign <;> rfl) (inside.operand after)
  | .apply function args => by
    have first := function.readable
    have second := Expr.readableEach args
    refine .of_operand rfl (function.formless_enclosed.append _) fun z after => ?_
    obtain ⟨t, next, _, noArguments⟩ := after
    rw [Expr.tokens, inFront_append]
    refine .operand (first.enclosed _) (.applied (expressions_reads (.inl rfl) second z) ?_)
    exact .unapplied next noArguments
  | .list items => by
    have inside := Expr.readableEach items
    refine .of_operand rfl ⟨_, _, rfl, nofun, nofun⟩ fun z after => ?_
    exact (Reads.list (expressions_reads (.inr rfl) inside z)).operand_of_primary after
  | .block statements => by
    have inside := Statement.readableAll statements
    refine ⟨fun z after => ?_, fun z _ => .statementBlock (block_reads inside z), nofun⟩
    exact ((Reads.primaryBlock (block_reads inside z)).operand_of_primary
      after.operand).expression_of_operand after
  | .function params body => by
    have inside := Statement.readableAll body
    refine .of_operand rfl ⟨_, _, rfl, nofun, nofun⟩ fun z after => ?_
    rw [Expr.tokens, inFront_cons, inFront_append]
    have function := Reads.function (parameters_reads params _) (block_reads inside z)
    exact (Reads.primaryFunction function).operand_of_primary after
  | .conditional condition consequent alternative => by
    have first := condition.readable
    have second := Statement.readableAll consequent
    have third := alternative.readable
    have here : ∀ z, Follows table (.expression 0) z →
        Reads table .conditional (inFront _ z) [_] z := fun z after =>
      conditional_reads first.expression (block_reads second) third
        (Follows.conditional after)
    refine ⟨fun z after => ?_, fun z after => .statementConditional (here z after), nofun⟩
    exact ((Reads.primaryConditional (here z after)).operand_of_primary
      after.operand).expression_of_operand after
  | .parenthesized e => by
    have inside := e.readable
    refine .of_primary ⟨_, _, rfl, nofun, nofun⟩ fun z => ?_
    rw [Expr.tokens, inFront_between]
    exact .parenthesized (inside.expression _ (follows_expression (by decide)))

theorem Expr.readableEach : (es : List (Expr table)) → ∀ e ∈ es, e.Readable
  | [] => nofun
  | e :: es => by
    have first := e.readable
    have others := Expr.readableEach es
    intro e' member
    rcases List.mem_cons.mp member with rfl | member
    · exact first
    · exact others e' member

/-- Every alternative is read from its tokens. -/
theorem Alternative.readable : (a : Alternative table) → a.Readable
  | .omitted => fun z after => by
    obtain ⟨t, next, other⟩ := after
    exact .noAlternative next other
  | .block statements => by
    have inside := Statement.readableAll statements
    exact fun z _ => .elseBlock (block_reads inside z)
  | .conditional condition consequent alternative => by
    have first := condition.readable
    have second := Statement.readableAll consequent
    have third := alternative.readable
    exact fun z after =>
      .elseConditional (conditional_reads first.expression (block_reads second) third after)

/-- Every statement is read from its tokens. -/
theorem Statement.readable : (s : Statement table) → s.Readable
  | .expression e => e.readable.statement
  | .define x value => by
    have inside := value.readable
    exact fun z after =>
      .definition ((inside.operand after.operand).expression_of_operand after)

theorem Statement.readableAll : (ss : List (Statement table)) → ∀ s ∈ ss, s.Readable
  | [] => nofun
  | s :: ss => by
    have first := s.readable
    have others := Statement.readableAll ss
    intro s' member
    rcases List.mem_cons.mp member with rfl | member
    · exact first
    · exact others s' member

end

/-! ### Programs -/

namespace Reader

open Retrace.Parser Grammar

/-- Where no semicolon comes next, none is skipped. -/
theorem yields_skipped {α : Type} {t : Token} {f : Unit → Parser α} {feed : Feed}
    {Q : α → Feed → Prop} (next : feed.next = some t) (other : t ≠ .mark .semicolon)
    (h : Yields False (f ()) feed Q) :
    Yields False (Parser.bound >>= fun bound => skipSemicolons bound >>= f) feed Q :=
  yields_bound (yields_bind (yields_declined next other (yields_pure h)))

/-- Where a statement begins nothing is skipped, and it is read. -/
theorem yields_begun {α : Type} {f : Node → Parser α} {none : Parser α} {feed rest : Feed}
    {Q : α → Feed → Prop} (h : Reads table .statement feed [node] rest)
    (ending : ∀ read, read.bare = node → Yields False (f read) rest Q) :
    Yields False (Parser.bound >>= fun bound => skipSemicolons bound >>= fun _ =>
      check .eof >>= fun last => if last then none else Parser.statement table >>= f) feed Q := by
  obtain ⟨t, next, begins⟩ := h.statement_next
  refine yields_skipped next (ne_of_beginsStatement begins rfl) ?_
  refine yields_checked next ?_
  rw [decide_eq_false (ne_of_beginsStatement begins rfl)]
  exact yields_given (statement_of_reads h) ending

/-- How a statement ends: with a semicolon, or with a block that no semicolon is behind. -/
def EndsAt (node : Node) (rest after : Feed) : Prop :=
  rest = some (.mark .semicolon) :: after ∨
    rest = after ∧ node.endsWithBlock ∧ ∃ t, rest.next = some t ∧ t ≠ .mark .semicolon

/-- A statement is read off the text, and its semicolon if there is one. -/
theorem yields_statement {feed rest after : Feed} (h : Reads table .statement feed [node] rest)
    (ends : EndsAt node rest after) :
    Yields False (nextStatement table) feed fun result rest' =>
      result.map Node.bare = some node ∧ rest' = after := by
  refine yields_begun h ?_
  rintro read rfl
  rcases ends with rfl | ⟨rfl, ended, t, there, other⟩
  · -- the semicolon is there, whether it is needed or not
    by_cases ended : read.endsWithBlock
    · rw [if_pos ended]
      exact yields_accepted (yields_pure ⟨rfl, rfl⟩)
    · rw [if_neg ended]
      exact yields_consumed fun _ => yields_pure ⟨rfl, rfl⟩
  · rw [endsWithBlock_bare] at ended
    rw [if_pos ended]
    exact yields_declined there other (yields_pure ⟨rfl, rfl⟩)

/-- A statement and its semicolon are read off the text. -/
theorem yields_nextStatement {feed rest : Feed}
    (h : Reads table .statement feed [node] (some (.mark .semicolon) :: rest)) :
    Yields False (nextStatement table) feed fun result rest' =>
      result.map Node.bare = some node ∧ rest' = rest :=
  yields_statement h (.inl rfl)

/-- At the end of the text there is no statement. -/
theorem yields_noStatement :
    Yields False (nextStatement table) [] fun result _ => result = none :=
  yields_skipped rfl nofun (yields_checked rfl (yields_pure rfl))

theorem read_of_result {r : Reader} {result : Option Node} {c : Cursor}
    (h : nextStatement r.config.operators r.cursor = .ok result c) :
    r.read = (.ok result, { r with cursor := c }) := by
  rw [read, parse, h]

theorem read_of_error {r : Reader} {e : ReadError} {c : Cursor}
    (h : nextStatement r.config.operators r.cursor = .error e c) :
    r.read = (.error e, { r with cursor := c }.report e) := by
  rw [read, parse, h]

/-- An error of a reader is that of its parser. -/
theorem error_of_run {r : Reader} {e : ReadError} {c : Cursor}
    (h : nextStatement r.config.operators r.cursor = .error e c) : r.read.1 = .error e := by
  rw [read_of_error h]

/-- What the parser of statements does to a feed is what a reader does. -/
theorem read_of_yields {r : Reader} {Q : Option Node → Feed → Prop} (proper : r.cursor.Proper)
    (operators : r.config.operators = table)
    (h : Yields False (nextStatement table) r.cursor.feed Q) :
    ∃ result r', r.read = (.ok result, r') ∧ r'.config.operators = table ∧ r'.cursor.Proper ∧
      Q result r'.cursor.feed := by
  subst operators
  have run := h r.cursor proper rfl
  cases here : nextStatement r.config.operators r.cursor with
  | error e c =>
    rw [here] at run
    exact absurd run id
  | ok result c =>
    rw [here] at run
    exact ⟨result, _, read_of_result here, rfl, run.1, run.2⟩

/-- A reader in front of statements reads them all. -/
theorem readWithin_statements (statements : List (Statement table)) {r : Reader} {bound : Nat}
    (proper : r.cursor.Proper) (operators : r.config.operators = table)
    (feed : r.cursor.feed = inFront (Statement.tokensAll statements) [])
    (enough : statements.length < bound) :
    ∃ nodes, (r.readWithin bound).1 = .ok nodes ∧ bareAll nodes = Statement.nodes statements := by
  -- the bound counts the statements, and one look more at the end of the text
  obtain ⟨bound, rfl⟩ : ∃ b, bound = b + 1 := ⟨bound - 1, by omega⟩
  induction statements generalizing r bound with
  | nil =>
    have nothing : Yields False (nextStatement table) r.cursor.feed
        fun result _ => result = none := by
      rw [feed]
      exact yields_noStatement
    obtain ⟨_, r', run, _, _, rfl⟩ := read_of_yields proper operators nothing
    refine ⟨[], ?_, rfl⟩
    rw [readWithin, run]
  | cons s ss ih =>
    rw [Statement.tokensAll, inFront_append, inFront_cons] at feed
    have semicolon : Follows table (.expression 0)
        (some (.mark .semicolon) :: inFront (Statement.tokensAll ss) []) :=
      follows_expression (by decide)
    have first := s.readable _ semicolon
    rw [← feed] at first
    obtain ⟨result, r', run, operators', proper', bare, feed'⟩ :=
      read_of_yields proper operators (yields_nextStatement first)
    obtain ⟨node, rfl, same⟩ := Option.map_eq_some_iff.mp bare
    rw [List.length_cons] at enough
    obtain ⟨bound, rfl⟩ : ∃ b, bound = b + 1 := ⟨bound - 1, by omega⟩
    obtain ⟨nodes, others, bares⟩ := ih proper' operators' feed' bound (by omega)
    refine ⟨node :: nodes, ?_, ?_⟩
    · rw [readWithin, run]
      show Except.map _ (readWithin r' (bound + 1)).1 = _
      rw [others]
      rfl
    · rw [bareAll, same, bares, Statement.nodes]

end Reader

/-- The cursor before what was spelled has the tokens before it. -/
theorem Cursor.ofText_spelled {tokens : List Token} (h : ∀ t ∈ tokens, t.Writable) :
    (Cursor.ofText (" ".intercalate (tokens.map Token.spelling))).Proper ∧
      (Cursor.ofText (" ".intercalate (tokens.map Token.spelling))).feed = tokens.map some := by
  refine ⟨⟨rfl, fun lexeme member => ?_, [], [], rfl, nofun, nofun, .inl rfl⟩, lex_spelled h⟩
  -- the end of input is not among tokens that can be written
  have token : some lexeme.token ∈ tokens.map some := by
    rw [← lex_spelled h]
    exact List.mem_map_of_mem member
  obtain ⟨t, there, same⟩ := List.mem_map.mp token
  have writable := h t there
  rw [Option.some.inj same] at writable
  intro isEnd
  rw [isEnd] at writable
  exact writable

theorem length_tokensAll (statements : List (Statement table)) :
    statements.length ≤ (Statement.tokensAll statements).length := by
  induction statements with
  | nil => exact Nat.le_refl 0
  | cons s ss ih =>
    rw [Statement.tokensAll, List.length_append, List.length_cons, List.length_cons]
    omega

/-- **Reading is the inverse of printing.** From the text of statements, whatever they are and
whatever the operators are, a reader gets exactly their trees, up to places. An alternative that
is left out is read as the empty block that it stands for. -/
theorem readAll_text (config : ReaderConfig) (statements : List (Statement config.operators)) :
    ∃ nodes, (Reader.ofText (Statement.text statements) config).readAll.1 = .ok nodes ∧
      bareAll nodes = Statement.nodes statements := by
  obtain ⟨proper, feed⟩ := Cursor.ofText_spelled (Statement.writableAll statements)
  refine Reader.readWithin_statements statements proper rfl ?_ ?_
  · rw [inFront, List.append_nil]
    exact feed
  · -- there are no more statements than semicolons
    have bound := length_tokensAll statements
    rw [remaining_eq]
    show _ < (Cursor.ofText (Statement.text statements)).feed.length + 1
    rw [Statement.text, feed, List.length_map]
    omega

end Retrace
