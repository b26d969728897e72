/-
Programs as they are written.

* `Expr`, `Alternative`, `Statement` — programs, with the operators of a table.
* `Expr.node`, `Statement.node` — their trees.
* `Expr.tokens`, `Statement.tokens` — their tokens, with parentheses around whatever is
  compound and stands as an operand, as a function or as the value of a definition.
* **`Statement.text`** — the text of statements: tokens with spaces between them, and a
  semicolon after each statement.
* `Statement.writableAll` — all of their tokens can stand in a text.

Design notes:
* Programs are what a text says and not only what it means: an empty alternative may be
  left out, and parentheses may stand where they are not needed. Neither shows in the
  tree.
* An operator is one that has a token and that the table has. An entry of the table
  under another name is found in no text.
-/
import Retrace.Proofs.Reader.Complete
import Retrace.Proofs.Reader.Local
import Retrace.Proofs.Token.Spelling
import Retrace.Reader.Basic

namespace Retrace

/-- A name that a program can give. -/
structure Identifier where
  text : String
  isIdentifier : Lexer.isIdentifier text

/-- The operators that stand before their operand. -/
inductive Sign
  | not
  | minus

/-- The token of an operator before its operand. -/
def Sign.token : Sign → Token
  | not => .keyword .not
  | minus => .op .sub

/-- The symbol of an operator before its operand. -/
def Sign.name : Sign → String
  | not => Keyword.not.text
  | minus => Operator.sub.text

mutual

/-- Expressions as they are written, with the operators of a table. Parentheses may stand
where they are not needed. -/
inductive Expr (table : OperatorTable)
  | int (n : Int64) (natural : 0 ≤ n)
  | str (s : String)
  | bool (b : Bool)
  | name (x : Identifier)
  | back
  | binary (o : Operator) (known : table.contains o.text) (left right : Expr table)
  | unary (sign : Sign) (operand : Expr table)
  | apply (function : Expr table) (args : List (Expr table))
  | list (items : List (Expr table))
  | block (statements : List (Statement table))
  | function (params : List Identifier) (body : List (Statement table))
  | conditional (condition : Expr table) (consequent : List (Statement table))
      (alternative : Alternative table)
  | parenthesized (e : Expr table)

/-- What follows the consequent of a conditional. An empty block may be left out. -/
inductive Alternative (table : OperatorTable)
  | omitted
  | block (statements : List (Statement table))
  | conditional (condition : Expr table) (consequent : List (Statement table))
      (alternative : Alternative table)

/-- Statements as they are written. -/
inductive Statement (table : OperatorTable)
  | expression (e : Expr table)
  | define (x : Identifier) (value : Expr table)

end

namespace Token

/-- Tokens between brackets. -/
def between (opening closing : Mark) (inside : List Token) : List Token :=
  mark opening :: (inside ++ [mark closing])

/-- Tokens, in parentheses if they are needed. -/
def enclosed (needed : Bool) (tokens : List Token) : List Token :=
  if needed then between .openParen .closeParen tokens else tokens

/-- Tokens between brackets, with commas between their parts. -/
def series (opening closing : Mark) (parts : List (List Token)) : List Token :=
  between opening closing ([mark .comma].intercalate parts)

/-- A conditional from the tokens of its parts. -/
def ofConditional (condition consequent alternative : List Token) : List Token :=
  keyword .conditional :: (between .openParen .closeParen condition ++
    (between .openBrace .closeBrace consequent ++ alternative))

end Token

open Node Token

variable {table : OperatorTable}

/-- Whether an expression needs parentheses as an operand, as a function and as the value of a
definition. -/
def Expr.isCompound : Expr table → Bool
  | .int .. | .str _ | .bool _ | .name _ | .back | .parenthesized _ => false
  | _ => true

mutual

/-- The tokens of an expression. -/
def Expr.tokens : Expr table → List Token
  | .int n _ => [.int n]
  | .str s => [.str s]
  | .bool b => [.bool b]
  | .name x => [.name x.text]
  | .back => [.keyword .back]
  | .binary o _ left right =>
    enclosed left.isCompound left.tokens ++ .op o :: enclosed right.isCompound right.tokens
  | .unary sign e => sign.token :: enclosed e.isCompound e.tokens
  | .apply function args =>
    enclosed function.isCompound function.tokens ++
      series .openParen .closeParen (Expr.tokensEach args)
  | .list items => series .openBracket .closeBracket (Expr.tokensEach items)
  | .block statements => between .openBrace .closeBrace (Statement.tokensAll statements)
  | .function params body =>
    .keyword .function :: (series .openParen .closeParen (params.map ([.name ·.text])) ++
      between .openBrace .closeBrace (Statement.tokensAll body))
  | .conditional condition consequent alternative =>
    ofConditional condition.tokens (Statement.tokensAll consequent) alternative.tokens
  | .parenthesized e => between .openParen .closeParen e.tokens

/-- The tokens of several expressions. -/
def Expr.tokensEach : List (Expr table) → List (List Token)
  | [] => []
  | e :: es => e.tokens :: Expr.tokensEach es

/-- The tokens of an alternative, with the word before it. -/
def Alternative.tokens : Alternative table → List Token
  | .omitted => []
  | .block statements =>
    .keyword .alternative :: between .openBrace .closeBrace (Statement.tokensAll statements)
  | .conditional condition consequent alternative =>
    .keyword .alternative ::
      ofConditional condition.tokens (Statement.tokensAll consequent) alternative.tokens

/-- The tokens of a statement, without the semicolon after it. -/
def Statement.tokens : Statement table → List Token
  | .expression e => e.tokens
  | .define x value =>
    .keyword .define :: .name x.text :: .mark .assign :: enclosed value.isCompound value.tokens

/-- The tokens of statements, with a semicolon after each. -/
def Statement.tokensAll : List (Statement table) → List Token
  | [] => []
  | s :: ss => s.tokens ++ .mark .semicolon :: Statement.tokensAll ss

end

mutual

/-- The tree of an expression, without places. -/
def Expr.node : Expr table → Node
  | .int n _ => .atom (.int n) default
  | .str s => .atom (.str s) default
  | .bool b => .atom (.bool b) default
  | .name x => named x.text
  | .back => named backName
  | .binary o _ left right => call (named o.text) [left.node, right.node]
  | .unary sign e => call (named sign.name) [e.node]
  | .apply function args => call function.node (Expr.nodes args)
  | .list items => listOf (Expr.nodes items)
  | .block statements => blockOf (Statement.nodes statements)
  | .function params body =>
    special .function [listOf (params.map (named ·.text)), blockOf (Statement.nodes body)]
  | .conditional condition consequent alternative =>
    special .conditional
      [condition.node, blockOf (Statement.nodes consequent), alternative.node]
  | .parenthesized e => e.node

/-- The trees of several expressions. -/
def Expr.nodes : List (Expr table) → List Node
  | [] => []
  | e :: es => e.node :: Expr.nodes es

/-- The tree of an alternative. One that is left out is an empty block. -/
def Alternative.node : Alternative table → Node
  | .omitted => blockOf []
  | .block statements => blockOf (Statement.nodes statements)
  | .conditional condition consequent alternative =>
    special .conditional
      [condition.node, blockOf (Statement.nodes consequent), alternative.node]

/-- The tree of a statement, without places. -/
def Statement.node : Statement table → Node
  | .expression e => e.node
  | .define x value => special .define [named x.text, value.node]

/-- The trees of statements. -/
def Statement.nodes : List (Statement table) → List Node
  | [] => []
  | s :: ss => s.node :: Statement.nodes ss

end

/-- Statements as text, with spaces between the tokens. -/
def Statement.text (statements : List (Statement table)) : String :=
  " ".intercalate ((Statement.tokensAll statements).map Token.spelling)

example : @Statement.text .builtins
    [.define ⟨"x", rfl⟩
      (.binary .add rfl (.int 1 (by decide)) (.unary .minus (.str "\n")))] =
    "define x = ( 1 + ( - \"\\n\" ) ) ;" := rfl

/-! ### Tokens that can be written -/

/-- Tokens that a text can contain. -/
def AllWritable (tokens : List Token) : Prop :=
  ∀ t ∈ tokens, t.Writable

namespace AllWritable

@[simp] theorem nil : AllWritable [] := nofun

@[simp] theorem cons {t : Token} {tokens : List Token} :
    AllWritable (t :: tokens) ↔ t.Writable ∧ AllWritable tokens :=
  List.forall_mem_cons

@[simp] theorem append {tokens tokens' : List Token} :
    AllWritable (tokens ++ tokens') ↔ AllWritable tokens ∧ AllWritable tokens' :=
  List.forall_mem_append

theorem between {opening closing : Mark} {inside : List Token} (h : AllWritable inside) :
    AllWritable (between opening closing inside) := by
  rw [Token.between, cons, append, cons]
  exact ⟨trivial, h, trivial, nil⟩

theorem enclosed {needed : Bool} {tokens : List Token} (h : AllWritable tokens) :
    AllWritable (enclosed needed tokens) := by
  rw [Token.enclosed]
  split
  · exact h.between
  · exact h

theorem series {opening closing : Mark} {parts : List (List Token)}
    (h : ∀ part ∈ parts, AllWritable part) : AllWritable (series opening closing parts) := by
  refine between ?_
  induction parts with
  | nil => exact nil
  | cons part parts ih =>
    have others := ih fun part' member => h part' (.tail _ member)
    cases parts with
    | nil =>
      rw [List.intercalate_singleton]
      exact h part (.head _)
    | cons part' parts =>
      rw [List.intercalate_cons_cons, append, append, cons]
      exact ⟨⟨h part (.head _), trivial, nil⟩, others⟩

theorem ofConditional {condition consequent alternative : List Token}
    (first : AllWritable condition) (second : AllWritable consequent)
    (third : AllWritable alternative) :
    AllWritable (ofConditional condition consequent alternative) := by
  rw [Token.ofConditional, cons, append, append]
  exact ⟨trivial, first.between, second.between, third⟩

end AllWritable

mutual

theorem Expr.writable : (e : Expr table) → AllWritable e.tokens
  | .int n natural => AllWritable.cons.mpr ⟨natural, .nil⟩
  | .str _ | .bool _ | .back => AllWritable.cons.mpr ⟨trivial, .nil⟩
  | .name x => AllWritable.cons.mpr ⟨x.isIdentifier, .nil⟩
  | .binary o known left right => by
    have first := left.writable
    have second := right.writable
    exact AllWritable.append.mpr ⟨first.enclosed, AllWritable.cons.mpr ⟨trivial, second.enclosed⟩⟩
  | .unary sign e => by
    have inside := e.writable
    exact AllWritable.cons.mpr ⟨by cases sign <;> trivial, inside.enclosed⟩
  | .apply function args => by
    have first := function.writable
    have second := Expr.writableEach args
    exact AllWritable.append.mpr ⟨first.enclosed, .series second⟩
  | .list items => .series (Expr.writableEach items)
  | .block statements => (Statement.writableAll statements).between
  | .function params body => by
    have inside := Statement.writableAll body
    refine AllWritable.cons.mpr ⟨trivial, AllWritable.append.mpr ⟨.series ?_, inside.between⟩⟩
    intro part member
    obtain ⟨x, _, rfl⟩ := List.mem_map.mp member
    exact AllWritable.cons.mpr ⟨x.isIdentifier, .nil⟩
  | .conditional condition consequent alternative =>
    .ofConditional condition.writable (Statement.writableAll consequent) alternative.writable
  | .parenthesized e => e.writable.between

theorem Expr.writableEach :
    (es : List (Expr table)) → ∀ part ∈ Expr.tokensEach es, AllWritable part
  | [] => nofun
  | e :: es => List.forall_mem_cons.mpr ⟨e.writable, Expr.writableEach es⟩

theorem Alternative.writable : (a : Alternative table) → AllWritable a.tokens
  | .omitted => .nil
  | .block statements => AllWritable.cons.mpr ⟨trivial, (Statement.writableAll statements).between⟩
  | .conditional condition consequent alternative =>
    AllWritable.cons.mpr ⟨trivial, .ofConditional condition.writable
      (Statement.writableAll consequent) alternative.writable⟩

theorem Statement.writable : (s : Statement table) → AllWritable s.tokens
  | .expression e => e.writable
  | .define x value => by
    have inside := value.writable
    exact AllWritable.cons.mpr ⟨trivial, AllWritable.cons.mpr ⟨x.isIdentifier,
      AllWritable.cons.mpr ⟨trivial, inside.enclosed⟩⟩⟩

/-- The tokens of statements can stand in a text. -/
theorem Statement.writableAll :
    (ss : List (Statement table)) → AllWritable (Statement.tokensAll ss)
  | [] => .nil
  | s :: ss => AllWritable.append.mpr ⟨s.writable,
      AllWritable.cons.mpr ⟨trivial, Statement.writableAll ss⟩⟩

end

end Retrace
