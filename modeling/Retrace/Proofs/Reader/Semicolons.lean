/-
Where statements do without a semicolon.

* `Feed.Braced` — what stands before a rest ends with a closing brace.
* `Wrapped` — blocks, functions and conditionals, in a number of parentheses.
* `Reads.wraps` — a tree that ends with a block was read off such tokens.
* `MayEnd` — the tokens of a statement that needs no semicolon.
* `StatementList` — statements up to a closing brace that end as they should.
* `Orderly` — behind every brace that opens stand statements that end as they should.
* **`Reads.orderly`** — so it is in all that is read.
* **`Reader.read_ends`** — every statement that a reader gives, and every statement inside
  it, has a semicolon behind it or may end without one.
* **`Reader.read_ends_at_parenthesis`** — parentheses around a block do not bring back the
  semicolon.

Design notes:
* Whether a semicolon is needed is seen from the tree, and a tree does not tell whether it
  stood in parentheses. So what is claimed of the tokens says in how many.
* That a word of a special form is no name is needed here. A call of a function with such
  a name would end with a block, too.
-/
import Mathlib
import Retrace.Proofs.Reader.Program
import Retrace.Proofs.Reader.WellFormed

namespace Retrace

open Node

variable {table : OperatorTable} {phrase : Phrase} {feed feed' rest : Feed} {nodes : List Node}
  {node : Node}

/-! ### Tokens that end with a brace -/

/-- What stands in a feed before a rest ends with a closing brace. -/
def Feed.Braced (feed rest : Feed) : Prop :=
  ∃ front, feed = front ++ some (.mark .closeBrace) :: rest

theorem Feed.Braced.behind (h : Feed.Braced feed rest) (u : Feed) :
    Feed.Braced (u ++ feed) rest := by
  obtain ⟨front, rfl⟩ := h
  exact ⟨u ++ front, (List.append_assoc ..).symm⟩

theorem Feed.Braced.of_suffix (h : Feed.Braced feed' rest) (suffix : feed' <:+ feed) :
    Feed.Braced feed rest := by
  obtain ⟨u, rfl⟩ := suffix
  exact h.behind u

/-- What a phrase leaves is behind it. -/
theorem Reads.suffix (h : Reads table phrase feed nodes rest) : rest <:+ feed := by
  obtain ⟨u, rfl, _⟩ := h.local (.inl rfl)
  exact List.suffix_append u rest

/-- How the tokens of a phrase end: those of a block, a function or a conditional with a brace, and
so do those of an alternative, if there are any. -/
def Phrase.Closes (phrase : Phrase) (feed rest : Feed) : Prop :=
  match phrase with
  | .block | .function | .conditional => feed.Braced rest
  | .alternative => feed = rest ∨ feed.Braced rest
  | _ => True

theorem Reads.closes (h : Reads table phrase feed nodes rest) : phrase.Closes feed rest := by
  induction h with
  | block inside =>
    exact Feed.Braced.of_suffix ⟨[], rfl⟩ (inside.suffix.trans (List.suffix_cons ..))
  | function first second _ ih => exact Feed.Braced.of_suffix ih first.suffix
  | conditional first second third _ ih₂ ih₃ =>
    have condition := first.suffix
    rcases ih₃ with rfl | closed
    · exact (ih₂.of_suffix ((List.suffix_cons ..).trans condition)).behind [_, _]
    · exact ((closed.of_suffix second.suffix).of_suffix
        ((List.suffix_cons ..).trans condition)).behind [_, _]
  | noAlternative => exact .inl rfl
  | elseConditional second ih => exact .inr (Feed.Braced.behind ih [_])
  | elseBlock second ih => exact .inr (Feed.Braced.behind ih [_])
  | _ => trivial

/-! ### Trees that end with a block -/

/-- Tokens of a block, a function or a conditional, in a number of parentheses. -/
inductive Wrapped (table : OperatorTable) : Nat → Feed → Feed → Prop
  | block {feed rest : Feed} {node : Node} (here : Reads table .block feed [node] rest) :
      Wrapped table 0 feed rest
  | function {feed rest : Feed} {node : Node} (second : Reads table .function feed [node] rest) :
      Wrapped table 0 (some (.keyword .function) :: feed) rest
  | conditional {feed rest : Feed} {node : Node}
      (here : Reads table .conditional feed [node] rest) : Wrapped table 0 feed rest
  | parenthesized {k : Nat} {feed rest : Feed}
      (inside : Wrapped table k feed (some (.mark .closeParen) :: rest)) :
      Wrapped table (k + 1) (some (.mark .openParen) :: feed) rest

/-- Tokens of a statement that ends with a block, a function or a conditional, which is in a number
of parentheses. -/
inductive WrappedStatement (table : OperatorTable) : Nat → Feed → Feed → Prop
  | expression {k : Nat} {feed rest : Feed} (here : Wrapped table k feed rest) :
      WrappedStatement table k feed rest
  | definition {x : String} {k : Nat} {feed rest : Feed} (value : Wrapped table k feed rest) :
      WrappedStatement table k
        (some (.keyword .define) :: some (.name x) :: some (.mark .assign) :: feed) rest
  | namedFunction {x : String} {feed rest : Feed} {node : Node}
      (second : Reads table .function feed [node] rest) :
      WrappedStatement table 0 (some (.keyword .function) :: some (.name x) :: feed) rest

theorem Wrapped.ends {k : Nat} (h : Wrapped table k feed rest) :
    feed.Braced (List.replicate k (some (.mark .closeParen)) ++ rest) := by
  induction h with
  | block here => exact here.closes
  | function second => exact Feed.Braced.behind second.closes [_]
  | conditional here => exact here.closes
  | parenthesized inside ih =>
    rw [List.replicate_succ', List.append_assoc]
    exact Feed.Braced.behind ih [_]

/-- The tokens end with a closing brace and as many closing parentheses behind it. -/
theorem WrappedStatement.ends {k : Nat} (h : WrappedStatement table k feed rest) :
    feed.Braced (List.replicate k (some (.mark .closeParen)) ++ rest) := by
  cases h with
  | expression here => exact here.ends
  | definition value => exact value.ends.behind [_, _, _]
  | namedFunction second => exact Feed.Braced.behind second.closes [_, _]

/-- What a phrase reads that ends with a block. What goes on from a tree and ends with a block does
not go on at all. -/
def Phrase.Wraps (table : OperatorTable) (phrase : Phrase) (node : Node) (feed rest : Feed) :
    Prop :=
  match phrase with
  | .primary | .operand | .expression _ => ∃ k, Wrapped table k feed rest
  | .applied left | .climb _ left => node = left ∧ feed = rest
  | _ => True

theorem isBlockForm_of_form? {op : Node} (plain : op.form? = none) : op.isBlockForm = false := by
  rw [isBlockForm, plain]
  rfl

/-- An operator between two operands does not end with a block. -/
theorem operator_endsWithBlock {t : Token} {op : String} {left right : Node}
    (between : t.between? = some op) :
    (call (named op) [left, right]).endsWithBlock = false := by
  cases t with
  | op o =>
    obtain rfl := Option.some.inj between
    cases o <;> rfl
  | _ => cases between

/-- Neither does a sign before an operand. -/
theorem sign_endsWithBlock {t : Token} {op : String} (sign : t.before? = some op) :
    (call (named op) [node]).endsWithBlock = false := by
  unfold Token.before? at sign
  split at sign
  · obtain rfl := Option.some.inj sign
    rfl
  · obtain rfl := Option.some.inj sign
    rfl
  · cases sign

/-- A tree that ends with a block was read off a block, a function or a conditional, in a number
of parentheses. -/
theorem Reads.wraps (h : Reads table phrase feed nodes rest) (known : feed.Named)
    (ready : phrase.Ready) :
    ∀ node ∈ nodes, node.endsWithBlock → phrase.Wraps table node feed rest := by
  induction h with
  | @leaf t node _ isLeaf =>
    refine List.forall_mem_singleton.mpr fun ended => ?_
    obtain ⟨_, _, rfl⟩ | ⟨_, _, rfl⟩ | ⟨_, _, rfl⟩ | ⟨_, _, rfl⟩ | ⟨_, rfl⟩ :=
      Token.leaf_cases isLeaf
    all_goals cases ended
  | primaryFunction second => exact List.forall_mem_singleton.mpr fun _ => ⟨0, .function second⟩
  | primaryConditional here =>
    exact List.forall_mem_singleton.mpr fun _ => ⟨0, .conditional here⟩
  | parenthesized inside ih =>
    refine List.forall_mem_singleton.mpr fun ended => ?_
    obtain ⟨k, wrapped⟩ := ih known.tail trivial _ (.head _) ended
    exact ⟨k + 1, .parenthesized wrapped⟩
  | list =>
    refine List.forall_mem_singleton.mpr fun ended => ?_
    cases ended
  | primaryBlock here => exact List.forall_mem_singleton.mpr fun _ => ⟨0, .block here⟩
  | unapplied => exact List.forall_mem_singleton.mpr fun _ => ⟨rfl, rfl⟩
  | @applied function feed args feed' node rest first second ih₁ ih₂ =>
    have arguments := allWellFormed_iff.mpr (first.wellFormed known trivial)
    have called : (call function args).WellFormed .expression :=
      (wellFormed_call ready.form?_eq_none).mpr ⟨ready, arguments⟩
    refine List.forall_mem_singleton.mpr fun ended => ?_
    -- the function is no word of a special form
    obtain ⟨rfl, _⟩ := ih₂ (first.rest_named known) called _ (.head _) ended
    rw [call, endsWithBlock, isBlockForm_of_form? ready.form?_eq_none] at ended
    cases ended
  | signed sign second ih =>
    refine List.forall_mem_singleton.mpr fun ended => ?_
    rw [sign_endsWithBlock sign] at ended
    cases ended
  | operand first second ih₁ ih₂ =>
    refine List.forall_mem_singleton.mpr fun ended => ?_
    have function := first.wellFormed known trivial _ (.head _)
    obtain ⟨rfl, rfl⟩ := ih₂ (first.rest_named known) function _ (.head _) ended
    exact ih₁ known trivial _ (.head _) ended
  | stop => exact List.forall_mem_singleton.mpr fun _ => ⟨rfl, rfl⟩
  | @climb least left t op binding feed right feed' node rest sign tight first second ih₁ ih₂ =>
    have right := first.wellFormed known.tail trivial _ (.head _)
    refine List.forall_mem_singleton.mpr fun ended => ?_
    have between := OperatorTable.between_of_operator sign
    obtain ⟨rfl, _⟩ := ih₂ (first.rest_named known.tail)
      (wellFormed_operator between ready right) _ (.head _) ended
    rw [operator_endsWithBlock between] at ended
    cases ended
  | expression first second ih₁ ih₂ =>
    refine List.forall_mem_singleton.mpr fun ended => ?_
    have left := first.wellFormed known trivial _ (.head _)
    obtain ⟨rfl, rfl⟩ := ih₂ (first.rest_named known) left _ (.head _) ended
    exact ih₁ known trivial _ (.head _) ended
  | _ => exact fun _ _ _ => trivial

/-- The tokens of a statement that needs no semicolon: the last is a closing brace, unless the
block, function or conditional at the end is in parentheses. -/
def MayEnd (table : OperatorTable) (feed rest : Feed) : Prop :=
  feed.Braced rest ∨ ∃ k, WrappedStatement table (k + 1) feed rest

/-- A statement of which the tree ends with a block needs no semicolon. -/
theorem Reads.mayEnd (h : Reads table .statement feed [node] rest) (known : feed.Named)
    (ended : node.endsWithBlock) : MayEnd table feed rest := by
  have wrapped : ∃ k, WrappedStatement table k feed rest := by
    cases h with
    | definition second =>
      obtain ⟨k, value⟩ := second.wraps known.tail.tail.tail trivial _ (.head _) ended
      exact ⟨k, .definition value⟩
    | namedFunction second => exact ⟨0, .namedFunction second⟩
    | statementConditional here => exact ⟨0, .expression (.conditional here)⟩
    | statementBlock here => exact ⟨0, .expression (.block here)⟩
    | statement first noConditional noBlock here =>
      obtain ⟨k, expression⟩ := here.wraps known trivial _ (.head _) ended
      exact ⟨k, .expression expression⟩
  obtain ⟨_ | k, statement⟩ := wrapped
  · exact .inl statement.ends
  · exact .inr ⟨k, statement⟩

/-! ### Statements inside statements -/

/-- Statements one behind another up to a closing brace. Each has a semicolon behind it, or needs
none. -/
inductive StatementList (table : OperatorTable) : Feed → Feed → Prop
  | nothing {feed : Feed} :
      StatementList table (some (.mark .closeBrace) :: feed) (some (.mark .closeBrace) :: feed)
  | terminated {feed feed' rest : Feed} {node : Node}
      (first : Reads table .statement feed [node] (some (.mark .semicolon) :: feed'))
      (others : StatementList table feed' rest) : StatementList table feed rest
  | unterminated {feed feed' rest : Feed} {node : Node}
      (first : Reads table .statement feed [node] feed') (ends : MayEnd table feed feed')
      (others : StatementList table feed' rest) : StatementList table feed rest

/-- Behind every brace that opens in what stands before a rest are statements that end as they
should, up to a brace that closes before the rest. -/
structure Orderly (table : OperatorTable) (feed rest : Feed) : Prop where
  suffix : rest <:+ feed
  blocks (inside : Feed) : some (.mark .openBrace) :: inside <:+ feed →
    rest.length ≤ inside.length →
      ∃ behind, StatementList table inside (some (.mark .closeBrace) :: behind) ∧ rest <:+ behind

namespace Orderly

variable {t : Token}

theorem refl : Orderly table feed feed := by
  refine ⟨List.suffix_rfl, fun inside here enough => ?_⟩
  have shorter := here.length_le
  rw [List.length_cons] at shorter
  omega

theorem trans (first : Orderly table feed feed') (second : Orderly table feed' rest) :
    Orderly table feed rest := by
  refine ⟨second.suffix.trans first.suffix, fun inside here enough => ?_⟩
  by_cases before : feed'.length ≤ inside.length
  · obtain ⟨behind, statements, further⟩ := first.blocks inside here before
    exact ⟨behind, statements, second.suffix.trans further⟩
  · -- the brace stands in the second part
    refine second.blocks inside (List.suffix_of_suffix_length_le here first.suffix ?_) enough
    rw [List.length_cons]
    omega

theorem taken (other : t ≠ .mark .openBrace) : Orderly table (some t :: feed) feed := by
  refine ⟨List.suffix_cons .., fun inside here enough => ?_⟩
  rcases List.suffix_cons_iff.mp here with same | further
  · exact absurd (Option.some.inj (List.cons.inj same).1).symm other
  · exact refl.blocks inside further enough

theorem cons (other : t ≠ .mark .openBrace) (h : Orderly table feed rest) :
    Orderly table (some t :: feed) rest :=
  (taken other).trans h

/-- A block of statements that end as they should. -/
theorem block (statements : StatementList table feed (some (.mark .closeBrace) :: rest))
    (h : Orderly table feed (some (.mark .closeBrace) :: rest)) :
    Orderly table (some (.mark .openBrace) :: feed) rest := by
  have inner : Orderly table feed rest := h.trans (taken (by decide))
  refine ⟨inner.suffix.trans (List.suffix_cons ..), fun inside here enough => ?_⟩
  rcases List.suffix_cons_iff.mp here with same | further
  · obtain rfl := (List.cons.inj same).2
    exact ⟨rest, statements, List.suffix_rfl⟩
  · exact inner.blocks inside further enough

end Orderly

/-- How what a phrase reads is in order. -/
def Phrase.Orders (table : OperatorTable) (phrase : Phrase) (feed rest : Feed) : Prop :=
  match phrase with
  | .statements => StatementList table feed rest ∧ Orderly table feed rest
  | .delimited opening closing _ =>
    opening ≠ .openBrace → closing ≠ .openBrace → Orderly table feed rest
  | _ => Orderly table feed rest

theorem Item.orders {item : Item} (h : item.phrase.Orders table feed rest) :
    Orderly table feed rest := by
  cases item with
  | parameter | expression => exact h

/-- **In all that is read, the statements of every block end as they should.** -/
theorem Reads.orderly (h : Reads table phrase feed nodes rest) (known : feed.Named) :
    phrase.Orders table feed rest := by
  induction h with
  | name => exact .taken (by rintro ⟨⟩)
  | last _ _ _ ih => exact Item.orders (ih known)
  | more first _ ih₁ ih₂ =>
    exact (Item.orders (ih₁ known)).trans (.cons (by rintro ⟨⟩) (ih₂ (first.rest_named known).tail))
  | nothing =>
    intro opening closing
    exact .cons (opening ∘ Token.mark.inj) (.taken (closing ∘ Token.mark.inj))
  | items _ _ ih =>
    intro opening closing
    exact .cons (opening ∘ Token.mark.inj)
      (Orderly.trans (ih known.tail) (.taken (closing ∘ Token.mark.inj)))
  | noStatement => exact ⟨.nothing, .refl⟩
  | terminated first _ ih₁ ih₂ =>
    obtain ⟨others, behind⟩ := ih₂ (first.rest_named known).tail
    exact ⟨.terminated first others, Orderly.trans (ih₁ known) (.cons (by rintro ⟨⟩) behind)⟩
  | unterminated first _ _ ended _ ih₁ ih₂ =>
    obtain ⟨others, behind⟩ := ih₂ (first.rest_named known)
    exact ⟨.unterminated first (first.mayEnd known ended) others,
      Orderly.trans (ih₁ known) behind⟩
  | block _ ih =>
    obtain ⟨statements, inner⟩ := ih known.tail
    exact .block statements inner
  | function first _ ih₁ ih₂ =>
    exact Orderly.trans (ih₁ known (by decide) (by decide)) (ih₂ (first.rest_named known))
  | conditional first second _ ih₁ ih₂ ih₃ =>
    have behind := (first.rest_named known.tail.tail).tail
    have branches := Orderly.trans (ih₂ behind) (ih₃ (second.rest_named behind))
    exact .cons (by rintro ⟨⟩) (.cons (by rintro ⟨⟩)
      (Orderly.trans (ih₁ known.tail.tail) (.cons (t := .mark .closeParen) (by decide) branches)))
  | noAlternative => exact .refl
  | elseConditional _ ih | elseBlock _ ih => exact .cons (by rintro ⟨⟩) (ih known.tail)
  | leaf isLeaf => exact .taken (by rintro rfl; cases isLeaf)
  | primaryFunction _ ih => exact .cons (by rintro ⟨⟩) (ih known.tail)
  | primaryConditional _ ih | primaryBlock _ ih => exact ih known
  | parenthesized _ ih =>
    exact .cons (by rintro ⟨⟩) (Orderly.trans (ih known.tail) (.taken (by rintro ⟨⟩)))
  | list _ ih => exact ih known (by decide) (by decide)
  | unapplied => exact .refl
  | applied first _ ih₁ ih₂ =>
    exact Orderly.trans (ih₁ known (by decide) (by decide)) (ih₂ (first.rest_named known))
  | signed sign _ ih => exact .cons (by rintro rfl; cases sign) (ih known.tail)
  | operand first _ ih₁ ih₂ => exact Orderly.trans (ih₁ known) (ih₂ (first.rest_named known))
  | stop => exact .refl
  | climb sign _ first _ ih₁ ih₂ =>
    exact .cons (by rintro rfl; cases sign)
      (Orderly.trans (ih₁ known.tail) (ih₂ (first.rest_named known.tail)))
  | expression first _ ih₁ ih₂ => exact Orderly.trans (ih₁ known) (ih₂ (first.rest_named known))
  | definition _ ih =>
    exact .cons (by rintro ⟨⟩)
      (.cons (by rintro ⟨⟩) (.cons (by rintro ⟨⟩) (ih known.tail.tail.tail)))
  | namedFunction _ ih => exact .cons (by rintro ⟨⟩) (.cons (by rintro ⟨⟩) (ih known.tail.tail))
  | statementConditional _ ih | statementBlock _ ih => exact ih known
  | statement _ _ _ _ ih => exact ih known

/-! ### Readers -/

/-- What is passed over for a statement: semicolons, the statement, and the semicolon behind it, or
none if it needs none. Inside it the statements of every block end as they should, too. -/
def Passes (table : OperatorTable) (node : Node) (before after : Feed) : Prop :=
  ∃ semicolons feed rest, before = semicolons ++ feed ∧
    (∀ item ∈ semicolons, item = some (.mark .semicolon)) ∧
    Reads table .statement feed [node.bare] rest ∧
    (rest = some (.mark .semicolon) :: after ∨ rest = after ∧ MayEnd table feed rest) ∧
    Orderly table feed rest

namespace Reader

open Retrace.Parser

theorem yields_passed_over (table : OperatorTable) (known : feed.Named) :
    Yields True (nextStatement table) feed fun result after =>
      ∀ node ∈ result, Passes table node feed after := by
  refine (yields_onward table feed).mono fun result after onward node found => ?_
  obtain ⟨semicolons, feed, rest, rfl, all, reads, ends⟩ := onward node found
  have known : feed.Named := fun name member => known name (List.mem_append_right _ member)
  refine ⟨semicolons, feed, rest, rfl, all, reads, ?_, reads.orderly known⟩
  rcases ends with semicolon | ⟨same, ended, _⟩
  · exact .inl semicolon
  · exact .inr ⟨same, reads.mayEnd known ended⟩

/-- **Every statement has a semicolon behind it, or its last token is a closing brace**, or it is a
block, a function or a conditional in parentheses, or defines a name as one. This holds of every
statement that a reader gives, whatever its text and its operators, and after whatever errors, and
of the statements in all blocks of the statement. -/
theorem read_ends {text : String} {config : ReaderConfig} {r : Reader}
    (reached : Reached text config r) {node : Node} (result : r.read.1 = .ok (some node)) :
    Passes r.config.operators node r.cursor.feed r.read.2.cursor.feed := by
  have lexed := reached.lexed
  have run : nextStatement r.config.operators r.cursor = .ok (some node) r.read.2.cursor :=
    (result_of_read (Prod.ext result rfl)).1
  exact ((yields_passed_over _ lexed.named).result lexed.proper run).2 node rfl

/-- A block is read up to its brace, and the statement inside it up to its semicolon. -/
theorem read_ends_at_brace :
    Reached "{1;} 2;" (.standard .plain none) (plain "{1;} 2;") ∧
      (plain "{1;} 2;").read.1 = .ok (some (.block [.atom (.int 1) ⟨1, 2⟩] ⟨0, 4⟩)) ∧
      Passes .builtins (.block [.atom (.int 1) ⟨1, 2⟩] ⟨0, 4⟩)
        [some (.mark .openBrace), some (.int 1), some (.mark .semicolon),
          some (.mark .closeBrace), some (.int 2), some (.mark .semicolon)]
        [some (.int 2), some (.mark .semicolon)] := by
  have reached : Reached "{1;} 2;" (.standard .plain none) (plain "{1;} 2;") := .start
  have result : (plain "{1;} 2;").read.1 =
      .ok (some (.block [.atom (.int 1) ⟨1, 2⟩] ⟨0, 4⟩)) := by cbv
  have before : (plain "{1;} 2;").cursor.feed =
      [some (.mark .openBrace), some (.int 1), some (.mark .semicolon),
        some (.mark .closeBrace), some (.int 2), some (.mark .semicolon)] := by cbv
  have after : (plain "{1;} 2;").read.2.cursor.feed =
      [some (.int 2), some (.mark .semicolon)] := by cbv
  have passes := read_ends reached result
  rw [before, after] at passes
  exact ⟨reached, result, passes⟩

/-- Behind a block in parentheses no semicolon is asked for, though the last token of the statement
is a closing parenthesis. -/
theorem read_ends_at_parenthesis :
    (plain "({1;}) 2;").cursor.feed =
        [some (.mark .openParen), some (.mark .openBrace), some (.int 1), some (.mark .semicolon),
          some (.mark .closeBrace), some (.mark .closeParen)] ++
          [some (.int 2), some (.mark .semicolon)] ∧
      (plain "({1;}) 2;").read.1 = .ok (some (.block [.atom (.int 1) ⟨2, 3⟩] ⟨1, 5⟩)) ∧
      (plain "({1;}) 2;").read.2.cursor.feed = [some (.int 2), some (.mark .semicolon)] := by
  refine ⟨?_, ?_, ?_⟩ <;> cbv

end Reader

end Retrace
