/-
The spans of the trees and the errors that are read can be used.

* `Node.children`, `Node.PartOf` — what stands right inside a tree, and what stands anywhere in it.
* `Node.Nested` — the parts of a tree have usable spans, each with those of its children inside.
* `Nests` — a parser reads a tree that is nested and lies on its way, or it stops with an error in a
  usable place.
* **`Grammar.upTo_nests`** — statements and expressions do.
* `Source.Serves` — what a text has at a usable span.
* **`read_spans`** — so does every read of a reader, wherever reading and skipping have led it.

Design notes: each production passes some spans and joins the first of them to the last. What it
puts inside its tree is among those it passed. So one lemma on paths does all of them, and a tree to
which more is added is kept as a path of its own.
-/
import Mathlib
import Retrace.Proofs.Reader.Alignment
import Retrace.Proofs.Reader.RoundTrip
import Retrace.Proofs.Report.Snippet

namespace Retrace

open Retrace.Parser

variable {text : String}

namespace Node

/-- What stands right inside a tree: what is applied and the operands, the items, the statements. -/
def children : Node → List Node
  | atom _ _ => []
  | apply op args _ => op :: args
  | list items _ => items
  | block statements _ => statements

/-- A tree is a part of another, which may be that tree itself. -/
inductive PartOf : Node → Node → Prop
  | self (node : Node) : PartOf node node
  | inside {part child node : Node} (within : PartOf part child) (member : child ∈ node.children) :
      PartOf part node

/-- The parts of a tree have usable spans, and the spans of the children of each are inside its
own. -/
def Nested (text : String) (node : Node) : Prop :=
  ∀ part : Node, part.PartOf node →
    part.span.Usable text ∧ ∀ child ∈ part.children, child.span.Within part.span

variable {node : Node}

theorem nested_of_children (usable : node.span.Usable text)
    (children : ∀ child ∈ node.children, child.span.Within node.span ∧ child.Nested text) :
    node.Nested text := by
  intro part within
  cases within with
  | self => exact ⟨usable, fun child member => (children child member).1⟩
  | inside within member => exact (children _ member).2 part within

/-- A tree with nothing inside. -/
theorem nested_leaf (usable : node.span.Usable text) (nothing : node.children = []) :
    node.Nested text :=
  nested_of_children usable (by rw [nothing]; exact nofun)

theorem nested_symbol (name : String) {span : Span} (usable : span.Usable text) :
    (symbol name span).Nested text :=
  nested_leaf usable rfl

end Node

open Cursor

variable {c c' : Cursor} {node : Node} {nodes : List Node}

/-! ### Trees on a path -/

/-- A tree that was read on the way from one cursor to another. -/
structure ReadOn (text : String) (c : Cursor) (node : Node) (c' : Cursor) : Prop where
  path : Path text c c' [node.span]
  nested : node.Nested text

/-- Trees that were read one after the other. -/
structure ReadAllOn (text : String) (c : Cursor) (nodes : List Node) (c' : Cursor) : Prop where
  path : Path text c c' (nodes.map Node.span)
  nested : ∀ node ∈ nodes, node.Nested text

/-- A tree from the first to the last of some spans, with nothing inside that is not at one of
them. -/
theorem Cursor.Path.enclose {first last begun : Span} {spans : List Span}
    (path : Path text c c' (first :: (spans ++ [last])))
    (start : c.currentSpan.start ≤ begun.start) (upto : begun.Upto first)
    (usable : begun.Usable text) (span : node.span = begun.join last)
    (children : ∀ child ∈ node.children,
      child.span ∈ first :: (spans ++ [last]) ∧ child.Nested text) : ReadOn text c node c' := by
  obtain ⟨joined, within⟩ := path.join start upto usable
  rw [← span] at joined within
  refine ⟨joined, Node.nested_of_children (joined.usable _ (.head _)) fun child member => ?_⟩
  obtain ⟨passed, nested⟩ := children child member
  exact ⟨within _ passed, nested⟩

/-- The same where the first of the spans is taken as it is. -/
theorem Cursor.Path.tree {first last : Span} {spans : List Span}
    (path : Path text c c' (first :: (spans ++ [last]))) (span : node.span = first.join last)
    (children : ∀ child ∈ node.children,
      child.span ∈ first :: (spans ++ [last]) ∧ child.Nested text) : ReadOn text c node c' :=
  path.enclose (path.start first (.head _)) (.refl first) (path.usable first (.head _)) span
    children

/-- An application of what the first of the spans stands for, to what the others stand for. -/
theorem Cursor.Path.application {first : Span} {name : String} {args : List Node} {last : Node}
    (path : Path text c c' (first :: args.map Node.span)) (isLast : args.getLast? = some last)
    (nested : ∀ arg ∈ args, arg.Nested text) :
    ReadOn text c (.apply (.symbol name first) args (first.join last.span)) c' := by
  obtain ⟨init, rfl⟩ := List.getLast?_eq_some_iff.mp isLast
  have leaf := Node.nested_symbol name (path.usable first (.head _))
  rw [List.map_append, List.map_singleton] at path
  refine path.tree rfl (List.forall_mem_cons.mpr ⟨⟨.head _, leaf⟩, fun arg member => ?_⟩)
  have among : arg.span ∈ (init ++ [last]).map Node.span := List.mem_map_of_mem member
  rw [List.map_append, List.map_singleton] at among
  exact ⟨.tail _ among, nested arg member⟩

theorem Parser.Took.leaf {lexeme : Lexeme} (took : Took text c lexeme c')
    (span : node.span = lexeme.span) (nothing : node.children = []) : ReadOn text c node c' :=
  ⟨span ▸ took.path, Node.nested_leaf (span ▸ took.path.usable _ (.head _)) nothing⟩

theorem ReadOn.before {spans : List Span} {c₁ : Cursor} (path : Path text c c₁ spans)
    (read : ReadOn text c₁ node c') : ReadOn text c node c' :=
  ⟨path.before read.path, read.nested⟩

theorem ReadOn.past {spans : List Span} {c₁ : Cursor} (read : ReadOn text c node c₁)
    (path : Path text c₁ c' spans) : ReadOn text c node c' :=
  ⟨read.path.past path, read.nested⟩

/-- The spans of trees stand between other spans. -/
theorem span_mem_between {first last : Span} {child : Node} (member : child ∈ nodes) :
    child.span ∈ first :: (nodes.map Node.span ++ [last]) :=
  List.mem_cons_of_mem _ (List.mem_append_left _ (List.mem_map_of_mem member))

/-- A parser reads a tree that is nested, or it stops with an error in a usable place. -/
def Nests (text : String) (p : Parser Node) : Prop :=
  ∀ c : Cursor, c.Aligned text → Lands text p c (ReadOn text c)

/-- A parser reads trees that are nested, or it stops with an error in a usable place. -/
def NestsAll (text : String) (p : Parser (List Node)) : Prop :=
  ∀ c : Cursor, c.Aligned text → Lands text p c (ReadAllOn text c)

/-! ### Productions -/

section sequences

variable {item : Parser Node}

theorem separated_nests (h : Nests text item) (t : Token) (bound : Nat) :
    NestsAll text (separated item t bound) := by
  induction bound with
  | zero => exact fun c aligned => lands_spent aligned
  | succ bound ih =>
    intro c aligned
    refine lands_bind (h c aligned) fun first c₁ read => ?_
    refine lands_bind (lands_accept t read.path.aligned) fun more c₂ ⟨path, _⟩ => ?_
    split
    · refine lands_bind (ih c₂ path.aligned) fun others c₃ all => ?_
      exact ⟨(read.path.past path).append all.path,
        List.forall_mem_cons.mpr ⟨read.nested, all.nested⟩⟩
    · exact ⟨read.path.past path, List.forall_mem_singleton.mpr read.nested⟩

/-- Trees between brackets. The brackets are on the path. -/
theorem delimited_lands (h : Nests text item) (opening t closing : Token) (bound : Nat)
    (aligned : c.Aligned text) :
    Lands text (delimited opening item t closing bound) c fun nodes c' =>
      (∃ first, Path text c c' (first :: (nodes.map Node.span ++ [c'.previousSpan])) ∧
        c.currentSpan.Upto first) ∧ ∀ node ∈ nodes, node.Nested text := by
  refine lands_bind (lands_consume opening aligned) fun bracket c₁ took => ?_
  refine lands_bind (lands_accept closing took.path.aligned) fun empty c₂ ⟨path, closed⟩ => ?_
  split
  · next isEmpty =>
    exact ⟨⟨bracket.span, took.path.append (closed isEmpty), took.next⟩, nofun⟩
  · refine lands_bind (separated_nests h t bound c₂ path.aligned) fun items c₃ all => ?_
    refine lands_bind (lands_consume closing all.path.aligned) fun bracket' c₄ took' => ?_
    refine ⟨⟨bracket.span, ?_, took.next⟩, all.nested⟩
    rw [took'.last]
    exact (took.path.past path).append (all.path.append took'.path)

theorem terminated_nests (h : Nests text item) (t closing : Token) (endsItself : Node → Bool)
    (bound : Nat) : NestsAll text (terminated item t closing endsItself bound) := by
  induction bound with
  | zero => exact fun c aligned => lands_spent aligned
  | succ bound ih =>
    intro c aligned
    refine lands_bind (lands_check closing aligned) fun found c₁ path => ?_
    split
    · exact ⟨path, nofun⟩
    · refine lands_bind (h c₁ path.aligned) fun first c₂ read => ?_
      refine lands_bind (lands_accept t read.path.aligned) fun closed c₃ ⟨path', _⟩ => ?_
      have passed := (path.before read.path).past path'
      split
      · exact lands_bind (P := fun _ _ => False) (lands_unexpected path'.aligned _) nofun
      · refine lands_bind (ih c₃ path'.aligned) fun others c₄ all => ?_
        exact ⟨passed.append all.path, List.forall_mem_cons.mpr ⟨read.nested, all.nested⟩⟩

end sequences

namespace Grammar

/-- The parsers of what is nested read nested trees. -/
structure Nesting (text : String) (inner : Grammar) : Prop where
  statement : Nests text inner.statement
  expression least : Nests text (inner.expression least)

variable {inner : Grammar} {table : OperatorTable}

theorem name_nests : Nests text name := by
  intro c aligned
  refine lands_bind (lands_peekAt 0 aligned) fun t c₁ path => ?_
  split
  · exact lands_bind (lands_advance path.aligned) fun lexeme c₂ took =>
      (took.leaf rfl rfl).before path
  · exact lands_unexpected path.aligned _

theorem block_nests (h : Nesting text inner) (bound : Nat) : Nests text (block inner bound) := by
  intro c aligned
  refine lands_bind (lands_consume _ aligned) fun opening c₁ took => ?_
  refine lands_bind (terminated_nests h.statement _ _ _ bound c₁ took.path.aligned)
    fun statements c₂ all => ?_
  refine lands_bind (lands_consume _ all.path.aligned) fun closing c₃ took' => ?_
  have path := took.path.append (all.path.append took'.path)
  exact path.tree rfl fun child member => ⟨span_mem_between member, all.nested child member⟩

theorem list_nests (h : Nesting text inner) (bound : Nat) : Nests text (list inner bound) := by
  intro c aligned
  refine lands_currentSpan ?_
  refine lands_bind (delimited_lands (h.expression 0) _ _ _ bound aligned) fun items c₁ read => ?_
  obtain ⟨⟨first, path, next⟩, nested⟩ := read
  exact path.enclose (Nat.le_refl _) next aligned.current.2 rfl fun child member =>
    ⟨span_mem_between member, nested child member⟩

/-- What is left of a function, after a keyword that was consumed before. The function is the span
from the keyword to its body. -/
theorem functionRest_lands (h : Nesting text inner) (bound : Nat) {keyword : Span} {c₁ : Cursor}
    (before : Path text c c₁ [keyword]) :
    Lands text (functionRest inner bound keyword) c₁ fun function c' =>
      ReadOn text c function c' ∧
        ∃ body, Path text c₁ c' [body] ∧ function.span = keyword.join body := by
  refine lands_currentSpan ?_
  refine lands_bind (delimited_lands name_nests _ _ _ bound before.aligned) fun params c₂ read => ?_
  obtain ⟨⟨first, path, next⟩, nested⟩ := read
  refine lands_previousSpan ?_
  refine lands_bind (block_nests h bound c₂ path.aligned) fun body c₃ body_read => ?_
  have list_read : ReadOn text c₁ (.list params (c₁.currentSpan.join c₂.previousSpan)) c₂ :=
    path.enclose (Nat.le_refl _) next before.aligned.current.2 rfl fun child member =>
      ⟨span_mem_between member, nested child member⟩
  have whole := before.append (list_read.path.append body_read.path)
  refine ⟨whole.application rfl (List.forall_mem_cons.mpr ⟨list_read.nested, ?_⟩), body.span,
    path.before body_read.path, rfl⟩
  exact List.forall_mem_singleton.mpr body_read.nested

/-- A conditional with its alternative. -/
theorem conditional_readOn {keyword : Span} {condition consequent alternative : Node}
    (path : Path text c c' [keyword, condition.span, consequent.span, alternative.span])
    (asked : condition.Nested text) (chosen : consequent.Nested text)
    (other : alternative.Nested text) :
    ReadOn text c (.apply (.symbol Form.conditional.name keyword)
      [condition, consequent, alternative] (keyword.join alternative.span)) c' := by
  refine path.application rfl (List.forall_mem_cons.mpr ⟨asked, ?_⟩)
  exact List.forall_mem_cons.mpr ⟨chosen, List.forall_mem_singleton.mpr other⟩

/-- The alternative is read, or it is the empty block where the consequent stops. -/
theorem conditional_nests (h : Nesting text inner) (bound : Nat) :
    Nests text (conditional inner bound) := by
  induction bound with
  | zero => exact fun c aligned => lands_spent aligned
  | succ bound ih =>
    intro c aligned
    unfold conditional
    refine lands_bind (lands_consume _ aligned) fun keyword c₁ took => ?_
    refine lands_bind (lands_consume _ took.path.aligned) fun _ c₂ opened => ?_
    refine lands_bind (h.expression 0 c₂ opened.path.aligned) fun condition c₃ asked => ?_
    refine lands_bind (lands_consume _ asked.path.aligned) fun _ c₄ closed => ?_
    refine lands_bind (block_nests h bound c₄ closed.path.aligned) fun consequent c₅ chosen => ?_
    refine lands_bind (lands_accept _ chosen.path.aligned) fun continued c₆ accepted => ?_
    have path := accepted.1
    have upTo : Path text c c₆ [keyword.span, condition.span, consequent.span] :=
      (took.path.append ((asked.before opened.path).path.append
        (chosen.before closed.path).path)).past path
    split
    · refine lands_bind (lands_check _ upTo.aligned) fun again c₇ path' => ?_
      split
      · refine lands_bind (ih c₇ path'.aligned) fun alternative c₈ read => ?_
        exact conditional_readOn ((upTo.past path').append read.path) asked.nested chosen.nested
          read.nested
      · refine lands_bind (block_nests h bound c₇ path'.aligned) fun alternative c₈ read => ?_
        exact conditional_readOn ((upTo.past path').append read.path) asked.nested chosen.nested
          read.nested
    · have path' := @Path.emptyAt text c c₆ [keyword.span, condition.span] consequent.span upTo
      exact conditional_readOn path' asked.nested chosen.nested
        (Node.nested_leaf (path'.usable _ (by simp [Node.span])) rfl)

theorem primary_nests (h : Nesting text inner) (bound : Nat) :
    Nests text (primary inner bound) := by
  intro c aligned
  refine lands_bind (lands_peekAt 0 aligned) fun t c₁ path => ?_
  have token {leaf : Span → Node} (span : ∀ s, (leaf s).span = s)
      (nothing : ∀ s, (leaf s).children = []) :
      Lands text (do return leaf (← advance).span) c₁ (ReadOn text c) :=
    lands_bind (lands_advance path.aligned) fun lexeme c₂ took =>
      (took.leaf (span _) (nothing _)).before path
  split
  · exact token (fun _ => rfl) fun _ => rfl
  · exact token (fun _ => rfl) fun _ => rfl
  · exact token (fun _ => rfl) fun _ => rfl
  · exact (name_nests c₁ path.aligned).mono fun _ _ read => read.before path
  · exact token (fun _ => rfl) fun _ => rfl
  · refine lands_bind (lands_advance path.aligned) fun keyword c₂ took => ?_
    exact (functionRest_lands h bound took.path).mono fun _ _ read => read.1.before path
  · exact (conditional_nests h bound c₁ path.aligned).mono fun _ _ read => read.before path
  · refine lands_bind (lands_advance path.aligned) fun _ c₂ opened => ?_
    refine lands_bind (h.expression 0 c₂ opened.path.aligned) fun node c₃ read => ?_
    refine lands_bind (lands_consume _ read.path.aligned) fun _ c₄ closed => ?_
    exact ((read.before opened.path).past closed.path).before path
  · exact (list_nests h bound c₁ path.aligned).mono fun _ _ read => read.before path
  · exact (block_nests h bound c₁ path.aligned).mono fun _ _ read => read.before path
  · exact lands_unexpected path.aligned _

/-- A tree that was read is applied to the argument lists behind it. -/
theorem applied_lands (h : Nesting text inner) {function : Node} {c₁ : Cursor} (bound : Nat)
    (read : ReadOn text c function c₁) :
    Lands text (applied inner function bound) c₁ (ReadOn text c) := by
  induction bound generalizing function c₁ with
  | zero => exact lands_spent read.path.aligned
  | succ bound ih =>
    refine lands_bind (lands_check _ read.path.aligned) fun found c₂ path => ?_
    split
    · refine lands_bind (delimited_lands (h.expression 0) _ _ _ bound path.aligned)
        fun args c₃ ⟨⟨first, path', _⟩, nested⟩ => ?_
      refine lands_previousSpan (ih ?_)
      have whole : Path text c c₃
          (function.span :: ((first :: args.map Node.span) ++ [c₃.previousSpan])) :=
        (read.path.past path).append path'
      refine whole.tree rfl (List.forall_mem_cons.mpr ⟨⟨.head _, read.nested⟩, ?_⟩)
      exact fun arg member => ⟨.tail _ (span_mem_between member), nested arg member⟩
    · exact read.past path

theorem operand_nests (h : Nesting text inner) (bound : Nat) :
    Nests text (operand inner bound) := by
  induction bound with
  | zero => exact fun c aligned => lands_spent aligned
  | succ bound ih =>
    intro c aligned
    refine lands_bind (lands_peekAt 0 aligned) fun t c₁ path => ?_
    split
    · refine lands_bind (lands_advance path.aligned) fun sign c₂ took => ?_
      refine lands_bind (ih c₂ took.path.aligned) fun node c₃ read => ?_
      have whole := path.before (took.path.append read.path)
      exact whole.application rfl (List.forall_mem_singleton.mpr read.nested)
    · refine lands_bind (primary_nests h bound c₁ path.aligned) fun function c₂ read => ?_
      exact applied_lands h (bound + 1) (read.before path)

/-- A tree that was read is an operand of the operators behind it. -/
theorem climb_lands (h : Nesting text inner) (least : Nat) {left : Node} {c₁ : Cursor} (bound : Nat)
    (read : ReadOn text c left c₁) :
    Lands text (climb table inner least left bound) c₁ (ReadOn text c) := by
  induction bound generalizing left c₁ with
  | zero => exact lands_spent read.path.aligned
  | succ bound ih =>
    have operator : Lands text (nextOperator table) c₁ fun _ c₂ => Path text c₁ c₂ [] := by
      refine lands_bind (lands_peekAt 0 read.path.aligned) fun t c₂ path => ?_
      split <;> exact path
    refine lands_bind operator fun found c₂ path => ?_
    split
    · exact read.past path
    · split
      · exact read.past path
      · refine lands_bind (lands_advance path.aligned) fun sign c₃ took => ?_
        refine lands_bind (h.expression _ c₃ took.path.aligned) fun right c₄ read' => ?_
        refine ih ?_
        have whole := (read.path.past path).append (took.path.append read'.path)
        have sign_usable := took.path.usable sign.span (.head _)
        refine whole.tree rfl (List.forall_mem_cons.mpr
          ⟨⟨.tail _ (.head _), Node.nested_symbol _ sign_usable⟩, ?_⟩)
        refine List.forall_mem_cons.mpr ⟨⟨.head _, read.nested⟩, List.forall_mem_singleton.mpr ?_⟩
        exact ⟨.tail _ (.tail _ (.head _)), read'.nested⟩

theorem expressionWith_nests (h : Nesting text inner) (bound least : Nat) :
    Nests text (expressionWith table inner bound least) := fun c aligned =>
  lands_bind (operand_nests h bound c aligned) fun _ _ read => climb_lands h least bound read

theorem definition_nests (h : Nesting text inner) : Nests text (definition inner) := by
  intro c aligned
  refine lands_bind (lands_consume _ aligned) fun keyword c₁ took => ?_
  refine lands_bind (name_nests c₁ took.path.aligned) fun target c₂ read => ?_
  refine lands_bind (lands_consume _ read.path.aligned) fun _ c₃ sign => ?_
  refine lands_bind (h.expression 0 c₃ sign.path.aligned) fun value c₄ read' => ?_
  have whole := took.path.append ((read.past sign.path).path.append read'.path)
  refine whole.application rfl (List.forall_mem_cons.mpr ⟨read.nested, ?_⟩)
  exact List.forall_mem_singleton.mpr read'.nested

/-- The function begins where the definition does, so the name is not behind what was read before
it, but inside. -/
theorem namedFunction_nests (h : Nesting text inner) (bound : Nat) :
    Nests text (namedFunction inner bound) := by
  intro c aligned
  refine lands_bind (lands_consume _ aligned) fun keyword c₁ took => ?_
  refine lands_bind (name_nests c₁ took.path.aligned) fun target c₂ read => ?_
  refine lands_bind (functionRest_lands h bound (took.path.past read.path))
    fun function c₃ rest => ?_
  obtain ⟨read', body, path, span⟩ := rest
  have whole : Path text c c₃ (keyword.span :: ([target.span] ++ [body])) :=
    took.path.append (read.path.append path)
  have usable := whole.usable keyword.span (.head _)
  obtain ⟨joined, within⟩ := whole.join (whole.start _ (.head _)) (.refl _) usable
  have same : keyword.span.join function.span = keyword.span.join body := by
    rw [span, Span.join_join]
  rw [← same] at joined within
  refine ⟨joined, Node.nested_of_children (joined.usable _ (.head _)) ?_⟩
  refine List.forall_mem_cons.mpr ⟨⟨within _ (.head _), Node.nested_symbol _ usable⟩, ?_⟩
  refine List.forall_mem_cons.mpr ⟨⟨within _ (.tail _ (.head _)), read.nested⟩, ?_⟩
  refine List.forall_mem_singleton.mpr ⟨?_, read'.nested⟩
  exact (span.trans same.symm) ▸ Span.Within.refl _

theorem statementWith_nests (h : Nesting text inner) (bound : Nat) :
    Nests text (statementWith table inner bound) := by
  intro c aligned
  refine lands_bind (lands_peekAt 0 aligned) fun t c₁ path => ?_
  split
  · exact (definition_nests h c₁ path.aligned).mono fun _ _ read => read.before path
  · refine lands_bind (lands_peekAt 1 path.aligned) fun t' c₂ path' => ?_
    split
    · exact (namedFunction_nests h bound c₂ path'.aligned).mono fun _ _ read =>
        (read.before path').before path
    · exact (expressionWith_nests h bound 0 c₂ path'.aligned).mono fun _ _ read =>
        (read.before path').before path
  · exact (conditional_nests h bound c₁ path.aligned).mono fun _ _ read => read.before path
  · exact (block_nests h bound c₁ path.aligned).mono fun _ _ read => read.before path
  · exact (expressionWith_nests h bound 0 c₁ path.aligned).mono fun _ _ read => read.before path

/-- **Statements and expressions are read as nested trees.** -/
theorem upTo_nests (table : OperatorTable) (bound : Nat) : Nesting text (upTo table bound) := by
  induction bound with
  | zero => exact ⟨fun c aligned => lands_spent aligned, fun _ c aligned => lands_spent aligned⟩
  | succ bound ih =>
    exact ⟨statementWith_nests ih (bound + 1), expressionWith_nests ih (bound + 1)⟩

end Grammar

/-! ### Readers -/

/-- What a text has at a usable span: its own text, the positions where it begins and ends, and a
report of every error that is there. -/
structure Source.Serves (src : Source) (span : Span) : Prop where
  usable : span.Usable src.text
  text : src.spanText? span = some (src.spanText span)
  start : src.position? span.start = some (src.position span.start)
  stop : src.position? span.stop = some (src.position span.stop)
  report : ∀ (error : ReadError) (file : Option String) (style : Style), error.span = span →
    Report.readError? error src file style = some (Report.readError error src file style)

theorem Source.serves_usable {src : Source} {span : Span} (usable : span.Usable src.text) :
    src.Serves span where
  usable := usable
  text := spanText?_usable usable
  start := position?_valid usable.start
  stop := position?_valid usable.stop
  report := fun _ file style here => Report.readError?_usable file style (here ▸ usable)

namespace Reader

theorem skipSemicolons_lands (bound : Nat) (aligned : c.Aligned text) :
    Lands text (skipSemicolons bound) c fun _ c' => Path text c c' [] := by
  induction bound generalizing c with
  | zero => exact lands_spent aligned
  | succ bound ih =>
    refine lands_bind (lands_accept _ aligned) fun more c₁ ⟨path, _⟩ => ?_
    split
    · exact (ih path.aligned).mono fun _ _ path' => path.append path'
    · exact path

/-- The next statement is a nested tree. -/
theorem nextStatement_lands (table : OperatorTable) (aligned : c.Aligned text) :
    Lands text (nextStatement table) c fun result _ => ∀ node ∈ result, node.Nested text := by
  refine lands_bound fun bound => ?_
  refine lands_bind (skipSemicolons_lands bound aligned) fun _ c₁ path => ?_
  refine lands_bind (lands_check _ path.aligned) fun ended c₂ path' => ?_
  split
  · exact lands_pure nofun
  · refine lands_bind (lands_bound fun bound =>
      (Grammar.upTo_nests table bound).statement c₂ path'.aligned) fun node c₃ read => ?_
    have nested : ∀ node' ∈ some node, node'.Nested text := by
      rintro _ ⟨⟩
      exact read.nested
    split
    · exact lands_bind (lands_accept _ read.path.aligned) fun _ _ _ => lands_pure nested
    · exact lands_bind (lands_consume _ read.path.aligned) fun _ _ _ => lands_pure nested

variable {config : ReaderConfig} {r : Reader}

theorem Reached.aligned (h : Reached text config r) : r.cursor.Aligned text :=
  h.keeps Step.aligned (ofText_aligned text)

/-- A reader keeps its text. -/
theorem Reached.source (h : Reached text config r) : r.source = ⟨text⟩ := by
  induction h with
  | start => rfl
  | @read r _ ih =>
    cases run : nextStatement r.config.operators r.cursor with
    | ok result c =>
      rw [read_of_result run]
      exact ih
    | error e c =>
      rw [read_of_error run]
      exact ih
  | skip _ ih => exact ih

/-- **Every span that a reader hands out can be used**, whatever its text and its operators, and
wherever reading and skipping have led it. Each part of a tree has a usable span, with those of its
children inside, and so has every error. -/
theorem read_spans (text : String) (config : ReaderConfig) (r : Reader)
    (h : Reached text config r) :
    r.source = ⟨text⟩ ∧
      (∀ node r', r.read = (.ok (some node), r') → ∀ part : Node, part.PartOf node →
        r.source.Serves part.span ∧ ∀ child ∈ part.children, child.span.Within part.span) ∧
      ∀ e r', r.read = (.error e, r') → r.source.Serves e.span := by
  have source := h.source
  have lands := nextStatement_lands r.config.operators h.aligned
  rw [Lands] at lands
  rw [source]
  refine ⟨rfl, fun node r' here part within => ?_, fun e r' here => ?_⟩ <;>
    cases run : nextStatement r.config.operators r.cursor <;> rw [run] at lands
  · rw [read_of_result run] at here
    obtain rfl := Except.ok.inj (Prod.mk.inj here).1
    obtain ⟨usable, inside⟩ := lands node rfl part within
    exact ⟨Source.serves_usable usable, inside⟩
  · rw [read_of_error run] at here
    cases here
  · rw [read_of_result run] at here
    cases here
  · rw [read_of_error run] at here
    obtain rfl := Except.error.inj (Prod.mk.inj here).1
    exact Source.serves_usable lands

/-- A statement that is read after an error, with what is wrong skipped between them. -/
theorem read_after_error {e : ReadError} {result : Option Node}
    (h : nextStatement r.config.operators r.cursor = .error e c)
    (h' : nextStatement r.config.operators c.skipPastSemicolon = .ok result c') :
    r.read.2.skip.read.1 = .ok result := by
  rw [read_of_error h]
  have again : ({ r with cursor := c }.report e).skip.read = (.ok result, _) := read_of_result h'
  rw [again]

/-- The error after an operator, and the call behind the next semicolon. A character of two bytes
stands before both. -/
theorem read_spans_call :
    let text := "\"ö\"+;f(1);"
    let call : Node :=
      .apply (.symbol "f" ⟨6, 7⟩) [.atom (.int 1) ⟨8, 9⟩] ⟨6, 10⟩
    (plain text).read.1 = .error (.unexpectedToken "expression" (.mark .semicolon) ⟨5, 6⟩) ∧
      (plain text).source.Serves ⟨5, 6⟩ ∧
      (plain text).read.2.skip.read.1 = .ok (some call) ∧
      (plain text).read.2.skip.source.Serves ⟨8, 9⟩ ∧ (⟨8, 9⟩ : Span).Within ⟨6, 10⟩ := by
  intro text call
  have run : nextStatement .builtins (.ofText text) =
      .error (.unexpectedToken "expression" (.mark .semicolon) ⟨5, 6⟩)
        ⟨[⟨.mark .semicolon, ⟨5, 6⟩⟩], [.ok ⟨.name "f", ⟨6, 7⟩⟩, .ok ⟨.mark .openParen, ⟨7, 8⟩⟩,
          .ok ⟨.int 1, ⟨8, 9⟩⟩, .ok ⟨.mark .closeParen, ⟨9, 10⟩⟩,
          .ok ⟨.mark .semicolon, ⟨10, 11⟩⟩], ⟨.eof, ⟨11, 11⟩⟩, some ⟨.op .add, ⟨4, 5⟩⟩⟩ := by cbv
  have behind : nextStatement .builtins (skipPastSemicolon
      ⟨[⟨.mark .semicolon, ⟨5, 6⟩⟩], [.ok ⟨.name "f", ⟨6, 7⟩⟩, .ok ⟨.mark .openParen, ⟨7, 8⟩⟩,
          .ok ⟨.int 1, ⟨8, 9⟩⟩, .ok ⟨.mark .closeParen, ⟨9, 10⟩⟩,
          .ok ⟨.mark .semicolon, ⟨10, 11⟩⟩], ⟨.eof, ⟨11, 11⟩⟩, some ⟨.op .add, ⟨4, 5⟩⟩⟩) =
      .ok (some call) ⟨[], [], ⟨.eof, ⟨11, 11⟩⟩, some ⟨.mark .semicolon, ⟨10, 11⟩⟩⟩ := by cbv
  have stopped : (plain text).read.1 =
      .error (.unexpectedToken "expression" (.mark .semicolon) ⟨5, 6⟩) :=
    error_of_run run
  have found : (plain text).read.2.skip.read.1 = .ok (some call) := read_after_error run behind
  have first : Reached text (.standard .plain none) (plain text) := .start
  have second : Reached text (.standard .plain none) (plain text).read.2.skip :=
    .skip (.read .start)
  have serves := (read_spans text _ _ first).2.2 _ _ (Prod.ext stopped rfl)
  have parts := (read_spans text _ _ second).2.1 call _ (Prod.ext found rfl)
  have one : Node.PartOf (.atom (.int 1) ⟨8, 9⟩) call := .inside (.self _) (.tail _ (.head _))
  exact ⟨stopped, serves, found, (parts _ one).1, (parts call (.self _)).2 _ (.tail _ (.head _))⟩

end Reader

end Retrace
