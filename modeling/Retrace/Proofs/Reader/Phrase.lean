/-
The grammar as a relation.

* `Phrase` — the productions of the grammar.
* **`Reads`** — a phrase reads some trees off a feed and leaves the rest.

Design notes:
* A phrase takes as much as it can. Where it stops for want of more, the rule asks what
  comes next, which is never more than one token of the rest.
* Trees are read without spans. An absent alternative of a conditional is the same as
  an empty block.
* Phrases that go on from a tree, as argument lists and operators do, carry the tree.
  Those that read a list give its trees in order, and the others give one tree.
-/
import Retrace.Proofs.Node.Places
import Retrace.Proofs.Reader.Feed
import Retrace.Reader.Grammar

namespace Retrace

namespace Node

/-- A name as a tree without a place. -/
def named (name : String) : Node :=
  .symbol name default

/-- A tree applied to others, without a place. -/
def call (function : Node) (args : List Node) : Node :=
  .apply function args default

/-- A special form of trees, without a place. -/
def special (form : Form) (args : List Node) : Node :=
  call (named form.name) args

/-- Trees between square brackets, without a place. -/
def listOf (items : List Node) : Node :=
  .list items default

/-- Statements between braces, without a place. -/
def blockOf (statements : List Node) : Node :=
  .block statements default

end Node

/-- The tree of a token that is an operand by itself. -/
def Token.leaf? : Token → Option Node
  | int n => some (.atom (.int n) default)
  | str s => some (.atom (.str s) default)
  | bool b => some (.atom (.bool b) default)
  | name s => some (.named s)
  | keyword .back => some (.named Node.backName)
  | _ => none

/-- A token as an operator of a table, with its binding. -/
def OperatorTable.operator? (table : OperatorTable) (t : Token) : Option (String × Binding) :=
  t.between?.bind fun op => (table.find? op).map (op, ·)

/-- An operator of a table can stand between operands. -/
theorem OperatorTable.between_of_operator {table : OperatorTable} {t : Token} {op : String}
    {binding : Binding} (h : table.operator? t = some (op, binding)) : t.between? = some op := by
  obtain ⟨op', between, found⟩ := Option.bind_eq_some_iff.mp h
  obtain ⟨_, _, same⟩ := Option.map_eq_some_iff.mp found
  obtain ⟨rfl, _⟩ := Prod.mk.inj same
  exact between

/-- A token that is no operator of a table from a level on. -/
def OperatorTable.Loose (table : OperatorTable) (least : Nat) (t : Token) : Prop :=
  ∀ op binding, table.operator? t = some (op, binding) → binding.level < least

/-- What stands between commas. -/
inductive Item
  | parameter
  | expression
  deriving DecidableEq

/-- The productions of the grammar. -/
inductive Phrase
  | name
  | separated (item : Item)
  | delimited (opening closing : Mark) (item : Item)
  | statements
  | block
  /-- The parameters and the body of a function. -/
  | function
  | conditional
  /-- What follows the consequent of a conditional. -/
  | alternative
  | primary
  /-- The argument lists of a tree. -/
  | applied (function : Node)
  | operand
  /-- The operators to the right of a tree. -/
  | climb (least : Nat) (left : Node)
  | expression (least : Nat)
  | statement

/-- The production of what stands between commas. -/
def Item.phrase : Item → Phrase
  | parameter => .name
  | expression => .expression 0

open Node Token

variable (table : OperatorTable)

/-- A phrase reads trees off a feed and leaves a rest. -/
inductive Reads : Phrase → Feed → List Node → Feed → Prop
  | name {x feed} : Reads .name (some (.name x) :: feed) [named x] feed
  | last {item feed node rest t} (first : Reads item.phrase feed [node] rest)
      (after : rest.next = some t) (other : t ≠ .mark .comma) :
      Reads (.separated item) feed [node] rest
  | more {item feed node feed' nodes rest}
      (first : Reads item.phrase feed [node] (some (.mark .comma) :: feed'))
      (others : Reads (.separated item) feed' nodes rest) :
      Reads (.separated item) feed (node :: nodes) rest
  | nothing {opening closing item feed} :
      Reads (.delimited opening closing item) (some (.mark opening) :: some (.mark closing) :: feed)
        [] feed
  | items {opening closing item feed nodes rest}
      (filled : Feed.next feed ≠ some (.mark closing))
      (inside : Reads (.separated item) feed nodes (some (.mark closing) :: rest)) :
      Reads (.delimited opening closing item) (some (.mark opening) :: feed) nodes rest
  | noStatement {feed} :
      Reads .statements (some (.mark .closeBrace) :: feed) [] (some (.mark .closeBrace) :: feed)
  | terminated {feed node feed' nodes rest}
      (first : Reads .statement feed [node] (some (.mark .semicolon) :: feed'))
      (others : Reads .statements feed' nodes rest) :
      Reads .statements feed (node :: nodes) rest
  | unterminated {feed node feed' nodes rest t} (first : Reads .statement feed [node] feed')
      (after : feed'.next = some t) (other : t ≠ .mark .semicolon)
      (ended : node.endsWithBlock) (others : Reads .statements feed' nodes rest) :
      Reads .statements feed (node :: nodes) rest
  | block {feed nodes rest}
      (inside : Reads .statements feed nodes (some (.mark .closeBrace) :: rest)) :
      Reads .block (some (.mark .openBrace) :: feed) [blockOf nodes] rest
  | function {feed params feed' body rest}
      (first : Reads (.delimited .openParen .closeParen .parameter) feed params feed')
      (second : Reads .block feed' [body] rest) :
      Reads .function feed [special .function [listOf params, body]] rest
  | conditional {feed condition feed' consequent feed'' alternative rest}
      (first : Reads (.expression 0) feed [condition] (some (.mark .closeParen) :: feed'))
      (second : Reads .block feed' [consequent] feed'')
      (third : Reads .alternative feed'' [alternative] rest) :
      Reads .conditional (some (.keyword .conditional) :: some (.mark .openParen) :: feed)
        [special .conditional [condition, consequent, alternative]] rest
  | noAlternative {feed t} (after : Feed.next feed = some t) (other : t ≠ .keyword .alternative) :
      Reads .alternative feed [blockOf []] feed
  | elseConditional {feed node rest}
      (second : Reads .conditional (some (.keyword .conditional) :: feed) [node] rest) :
      Reads .alternative (some (.keyword .alternative) :: some (.keyword .conditional) :: feed)
        [node] rest
  | elseBlock {feed node rest} (second : Reads .block feed [node] rest) :
      Reads .alternative (some (.keyword .alternative) :: feed) [node] rest
  | leaf {t node feed} (isLeaf : t.leaf? = some node) : Reads .primary (some t :: feed) [node] feed
  | primaryFunction {feed node rest} (second : Reads .function feed [node] rest) :
      Reads .primary (some (.keyword .function) :: feed) [node] rest
  | primaryConditional {feed node rest} (here : Reads .conditional feed [node] rest) :
      Reads .primary feed [node] rest
  | parenthesized {feed node rest}
      (inside : Reads (.expression 0) feed [node] (some (.mark .closeParen) :: rest)) :
      Reads .primary (some (.mark .openParen) :: feed) [node] rest
  | list {feed nodes rest}
      (inside : Reads (.delimited .openBracket .closeBracket .expression) feed nodes rest) :
      Reads .primary feed [listOf nodes] rest
  | primaryBlock {feed node rest} (here : Reads .block feed [node] rest) :
      Reads .primary feed [node] rest
  | unapplied {function feed t} (after : Feed.next feed = some t) (other : t ≠ .mark .openParen) :
      Reads (.applied function) feed [function] feed
  | applied {function feed args feed' node rest}
      (first : Reads (.delimited .openParen .closeParen .expression) feed args feed')
      (second : Reads (.applied (call function args)) feed' [node] rest) :
      Reads (.applied function) feed [node] rest
  | signed {t op feed node rest} (sign : t.before? = some op)
      (second : Reads .operand feed [node] rest) :
      Reads .operand (some t :: feed) [call (named op) [node]] rest
  | operand {feed function feed' node rest} (first : Reads .primary feed [function] feed')
      (second : Reads (.applied function) feed' [node] rest) :
      Reads .operand feed [node] rest
  | stop {least left feed t} (after : Feed.next feed = some t) (loose : table.Loose least t) :
      Reads (.climb least left) feed [left] feed
  | climb {least left t op binding feed right feed' node rest}
      (sign : table.operator? t = some (op, binding)) (tight : least ≤ binding.level)
      (first : Reads (.expression binding.right) feed [right] feed')
      (second : Reads (.climb least (call (named op) [left, right])) feed' [node] rest) :
      Reads (.climb least left) (some t :: feed) [node] rest
  | expression {least feed left feed' node rest} (first : Reads .operand feed [left] feed')
      (second : Reads (.climb least left) feed' [node] rest) :
      Reads (.expression least) feed [node] rest
  | definition {x feed value rest} (second : Reads (.expression 0) feed [value] rest) :
      Reads .statement
        (some (.keyword .define) :: some (.name x) :: some (.mark .assign) :: feed)
        [special .define [named x, value]] rest
  | namedFunction {x feed function rest} (second : Reads .function feed [function] rest) :
      Reads .statement (some (.keyword .function) :: some (.name x) :: feed)
        [special .define [named x, function]] rest
  | statementConditional {feed node rest} (here : Reads .conditional feed [node] rest) :
      Reads .statement feed [node] rest
  | statementBlock {feed node rest} (here : Reads .block feed [node] rest) :
      Reads .statement feed [node] rest
  | statement {t feed node rest} (first : Feed.next feed = some t)
      (noConditional : t ≠ .keyword .conditional) (noBlock : t ≠ .mark .openBrace)
      (here : Reads (.expression 0) feed [node] rest) : Reads .statement feed [node] rest

/-! ### How phrases begin -/

/-- Tokens that an expression can begin with. -/
def Token.begins : Token → Bool
  | int _ | str _ | bool _ | name _ => true
  | keyword .back | keyword .function | keyword .conditional | keyword .not => true
  | op .sub => true
  | mark .openParen | mark .openBracket | mark .openBrace => true
  | _ => false

/-- Tokens that a statement can begin with. -/
def Token.beginsStatement : Token → Bool
  | keyword .define => true
  | t => t.begins

theorem Token.beginsStatement_of_begins {t : Token} (h : t.begins) : t.beginsStatement := by
  unfold beginsStatement
  split
  · rfl
  · exact h

/-- A token that can begin a statement is none that cannot. -/
theorem Token.ne_of_beginsStatement {t other : Token} (h : t.beginsStatement)
    (cannot : other.beginsStatement = false) : t ≠ other := by
  rintro rfl
  exact absurd h (by rw [cannot]; exact Bool.false_ne_true)

/-- A token that is an operand by itself is a literal, a name or the word `back`. -/
theorem Token.leaf_cases {t : Token} {node : Node} (h : t.leaf? = some node) :
    (∃ n, t = .int n ∧ node = .atom (.int n) default) ∨
    (∃ s, t = .str s ∧ node = .atom (.str s) default) ∨
    (∃ b, t = .bool b ∧ node = .atom (.bool b) default) ∨
    (∃ x, t = .name x ∧ node = named x) ∨
    (t = .keyword .back ∧ node = named backName) := by
  cases t with
  | int n => exact .inl ⟨n, rfl, (Option.some.inj h).symm⟩
  | str s => exact .inr (.inl ⟨s, rfl, (Option.some.inj h).symm⟩)
  | bool b => exact .inr (.inr (.inl ⟨b, rfl, (Option.some.inj h).symm⟩))
  | name x => exact .inr (.inr (.inr (.inl ⟨x, rfl, (Option.some.inj h).symm⟩)))
  | keyword k =>
    cases k with
    | back => exact .inr (.inr (.inr (.inr ⟨rfl, (Option.some.inj h).symm⟩)))
    | define | function | conditional | alternative | not => exact nomatch h
  | op | mark | eof => exact nomatch h

theorem Token.begins_of_before {t : Token} {op : String} (h : t.before? = some op) :
    t.begins := by
  unfold before? at h
  split at h <;> first | rfl | exact nomatch h

/-- An expression can begin here. A function begins with its parameters. -/
def Begins (feed : Feed) : Prop :=
  ∃ (t : Token) (rest : Feed), feed = some t :: rest ∧ t.begins ∧
    (t = .keyword .function → rest.next = some (.mark .openParen))

/-- The least number of tokens that a phrase reads. -/
def Phrase.least : Phrase → Nat
  | statements | alternative | applied _ | climb _ _ => 0
  | _ => 1

theorem Item.least_phrase (item : Item) : item.phrase.least = 1 := by
  cases item <;> rfl

namespace Reads

variable {table} {phrase : Phrase} {feed rest : Feed} {node : Node} {nodes : List Node}

theorem name_inv (h : Reads table .name feed [node] rest) :
    ∃ x, feed = some (.name x) :: rest ∧ node = named x := by
  cases h with
  | name => exact ⟨_, rfl, rfl⟩

theorem block_inv (h : Reads table .block feed [node] rest) :
    ∃ feed', feed = some (.mark .openBrace) :: feed' := by
  cases h with
  | block => exact ⟨_, rfl⟩

theorem delimited_inv {opening closing : Mark} {item : Item}
    (h : Reads table (.delimited opening closing item) feed nodes rest) :
    ∃ feed', feed = some (.mark opening) :: feed' := by
  cases h with
  | nothing | items => exact ⟨_, rfl⟩

theorem function_inv (h : Reads table .function feed [node] rest) :
    ∃ feed', feed = some (.mark .openParen) :: feed' := by
  cases h with
  | function first _ => exact first.delimited_inv

theorem conditional_inv (h : Reads table .conditional feed [node] rest) :
    ∃ feed', feed = some (.keyword .conditional) :: feed' := by
  cases h with
  | conditional => exact ⟨_, rfl⟩

/-- An operand without operators and argument lists begins with a token that is no sign. -/
theorem primary_begins (h : Reads table .primary feed [node] rest) :
    Begins feed ∧ ∃ t, feed.next = some t ∧ t.before? = none := by
  cases h with
  | @leaf t _ _ isLeaf =>
    obtain ⟨n, rfl, _⟩ | ⟨s, rfl, _⟩ | ⟨b, rfl, _⟩ | ⟨x, rfl, _⟩ | ⟨rfl, _⟩ :=
      Token.leaf_cases isLeaf
    all_goals exact ⟨⟨_, _, rfl, rfl, nofun⟩, _, rfl, rfl⟩
  | primaryFunction second =>
    obtain ⟨feed', rfl⟩ := second.function_inv
    exact ⟨⟨_, _, rfl, rfl, fun _ => rfl⟩, _, rfl, rfl⟩
  | primaryConditional here =>
    obtain ⟨feed', rfl⟩ := here.conditional_inv
    exact ⟨⟨_, _, rfl, rfl, nofun⟩, _, rfl, rfl⟩
  | parenthesized => exact ⟨⟨_, _, rfl, rfl, nofun⟩, _, rfl, rfl⟩
  | list inside =>
    obtain ⟨feed', rfl⟩ := inside.delimited_inv
    exact ⟨⟨_, _, rfl, rfl, nofun⟩, _, rfl, rfl⟩
  | primaryBlock here =>
    obtain ⟨feed', rfl⟩ := here.block_inv
    exact ⟨⟨_, _, rfl, rfl, nofun⟩, _, rfl, rfl⟩

theorem operand_begins (h : Reads table .operand feed [node] rest) : Begins feed := by
  cases h with
  | @signed t _ _ _ _ sign _ =>
    refine ⟨t, _, rfl, Token.begins_of_before sign, ?_⟩
    rintro rfl
    exact nomatch sign
  | operand first _ => exact first.primary_begins.1

theorem expression_begins {least : Nat} (h : Reads table (.expression least) feed [node] rest) :
    Begins feed := by
  cases h with
  | expression first _ => exact first.operand_begins

theorem statement_next (h : Reads table .statement feed [node] rest) :
    ∃ t, feed.next = some t ∧ t.beginsStatement := by
  cases h with
  | definition => exact ⟨_, rfl, rfl⟩
  | namedFunction => exact ⟨_, rfl, rfl⟩
  | statementConditional here =>
    obtain ⟨feed', rfl⟩ := here.conditional_inv
    exact ⟨_, rfl, rfl⟩
  | statementBlock here =>
    obtain ⟨feed', rfl⟩ := here.block_inv
    exact ⟨_, rfl, rfl⟩
  | statement _ _ _ here =>
    obtain ⟨t, feed', rfl, begins, _⟩ := here.expression_begins
    exact ⟨t, rfl, Token.beginsStatement_of_begins begins⟩

/-- What stands between commas begins as an expression can. -/
theorem separated_next {item : Item} (h : Reads table (.separated item) feed nodes rest) :
    ∃ t, feed.next = some t ∧ t.begins := by
  have of_item : ∀ {node rest}, Reads table item.phrase feed [node] rest →
      ∃ t, feed.next = some t ∧ t.begins := by
    intro node rest here
    cases item with
    | parameter =>
      obtain ⟨x, rfl, _⟩ := here.name_inv
      exact ⟨_, rfl, rfl⟩
    | expression =>
      obtain ⟨t, feed', rfl, begins, _⟩ := here.expression_begins
      exact ⟨t, rfl, begins⟩
  cases h with
  | last first _ _ => exact of_item first
  | more first _ => exact of_item first

/-! ### What phrases leave -/

/-- A phrase leaves less than it is given, unless it may be empty. -/
theorem length_le (h : Reads table phrase feed nodes rest) :
    rest.length + phrase.least ≤ feed.length := by
  induction h with
  | @last item => rw [Item.least_phrase] at *; assumption
  | @more item =>
    rename_i ih₁ ih₂
    rw [Item.least_phrase] at ih₁
    simp only [Phrase.least, List.length_cons] at *
    omega
  | _ => simp only [Phrase.least, List.length_cons] at *; omega

end Reads

end Retrace
