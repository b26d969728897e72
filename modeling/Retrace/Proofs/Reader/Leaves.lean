/-
Reading keeps every token that stands for something.

* `Token.literal?` — the leaf that a token is read as.
* `Node.leaves` — the leaves of a tree in the order of the text.
* `Reads.leaves` — the leaves of the tokens of a phrase are those of its trees.
* **`readAll_leaves`** — the tokens of a text that is read and the leaves of its trees are
  the same, one for one and in order.

Design notes:
* An operator and a function both stand before their operands in a tree. So in what order the
  leaves of an application are told needs the symbol of its operator, and nothing else.
* A phrase that goes on from a tree was given the leaves of that tree already. With them in
  front of its feed, the statement is the same for all phrases.
* That no name is spelled as an operator is needed for calls. Their leaves would be in
  another order.
-/
import Mathlib
import Retrace.Proofs.Reader.Program
import Retrace.Proofs.Reader.WellFormed

namespace Retrace

/-! ### Leaves -/

/-- The leaf that a token is read as: a literal, or the symbol of a name, of an operator or of the
word `back`. Brackets, separators and the other words leave no trace of their own. -/
def Token.literal? : Token → Option Literal
  | int n => some (.int n)
  | str s => some (.str s)
  | bool b => some (.bool b)
  | name s => some (.symbol s)
  | keyword .back => some (.symbol Node.backName)
  | keyword .not => some (.symbol Keyword.not.text)
  | op o => some (.symbol o.text)
  | _ => none

/-- All operators that stand between two operands. -/
def Operator.all : List Operator :=
  [choice, and, or, xor, eq, ne, lt, gt, le, ge, add, sub, mul, div, mod, cons, append]

namespace Node

/-- Whether a tree is the symbol of an operator that stands between two operands. -/
def isOperator (node : Node) : Bool :=
  node.symbol?.any fun name => Operator.all.any fun o => o.text = name

/-- What stands in an application, in the order of the text: an operator between its two operands,
and a sign or a function before what it is applied to. -/
def arranged : (operator : Bool) → (op : List Literal) → (args : List (List Literal)) → List Literal
  | true, op, [left, right] => left ++ op ++ right
  | _, op, args => op ++ args.flatten

mutual

/-- The leaves of a tree in the order of the text. The words of definitions, functions and
conditionals are none. -/
def leaves : Node → List Literal
  | atom literal _ => [literal]
  | apply op args _ =>
    if op.isBlockForm then (leavesEach args).flatten
    else arranged op.isOperator op.leaves (leavesEach args)
  | list items _ => (leavesEach items).flatten
  | block statements _ => (leavesEach statements).flatten

/-- The leaves of each of some trees. -/
def leavesEach : List Node → List (List Literal)
  | [] => []
  | node :: nodes => node.leaves :: leavesEach nodes

end

/-- The leaves of trees one behind another. -/
def leavesAll (nodes : List Node) : List Literal :=
  (leavesEach nodes).flatten

@[simp] theorem leavesAll_nil : leavesAll [] = [] := rfl

@[simp] theorem leavesAll_cons (node : Node) (nodes : List Node) :
    leavesAll (node :: nodes) = node.leaves ++ leavesAll nodes := rfl

variable {op node left right : Node} {args nodes : List Node} {span : Span}

@[simp] theorem leaves_named (name : String) : (named name).leaves = [.symbol name] := rfl

@[simp] theorem leaves_listOf : (listOf nodes).leaves = leavesAll nodes := rfl

@[simp] theorem leaves_blockOf : (blockOf nodes).leaves = leavesAll nodes := rfl

theorem leaves_form (isForm : op.isBlockForm) : (call op args).leaves = leavesAll args := by
  rw [call, leaves, if_pos isForm]
  rfl

@[simp] theorem leaves_define : (special .define args).leaves = leavesAll args :=
  leaves_form rfl

@[simp] theorem leaves_function : (special .function args).leaves = leavesAll args :=
  leaves_form rfl

@[simp] theorem leaves_conditional : (special .conditional args).leaves = leavesAll args :=
  leaves_form rfl

/-- A tree that is no operator and no word of a special form, so that arguments behind it are a
call. -/
structure Ordinary (node : Node) : Prop where
  noForm : node.isBlockForm = false
  noOperator : node.isOperator = false

theorem leaves_call (ordinary : op.Ordinary) :
    (call op args).leaves = op.leaves ++ leavesAll args := by
  rw [call, leaves, ordinary.noForm, ordinary.noOperator]
  rfl

/-- An operator between two operands. -/
theorem leaves_between {t : Token} {op : String} (h : t.between? = some op) :
    (call (named op) [left, right]).leaves = left.leaves ++ .symbol op :: right.leaves := by
  cases t with
  | op o =>
    obtain rfl := Option.some.inj h
    have arranges : (call (named o.text) [left, right]).leaves =
        left.leaves ++ [.symbol o.text] ++ right.leaves := by cases o <;> rfl
    rw [arranges, List.append_assoc]
    rfl
  | _ => cases h

/-- A sign before an operand. -/
theorem leaves_before {t : Token} {op : String} (h : t.before? = some op) :
    (call (named op) [node]).leaves = .symbol op :: node.leaves := by
  have arranges (op : String) (noForm : (named op).isBlockForm = false) :
      (call (named op) [node]).leaves = .symbol op :: node.leaves := by
    rw [call, leaves, noForm]
    cases (named op).isOperator <;> simp [arranged, leavesEach]
  unfold Token.before? at h
  split at h
  · obtain rfl := Option.some.inj h
    exact arranges _ rfl
  · obtain rfl := Option.some.inj h
    exact arranges _ rfl
  · cases h

mutual

/-- Leaves do not depend on places. -/
theorem leaves_bare (node : Node) : node.bare.leaves = node.leaves := by
  cases node with
  | atom literal span => rfl
  | apply op args span =>
    rw [bare, leaves, leaves, isBlockForm_bare, isOperator, symbol?_bare, leaves_bare op,
      leavesEach_bareAll args]
    rfl
  | list items span | block items span => rw [bare, leaves, leaves, leavesEach_bareAll items]

theorem leavesEach_bareAll (nodes : List Node) : leavesEach (bareAll nodes) = leavesEach nodes := by
  match nodes with
  | [] => rfl
  | node :: nodes =>
    rw [bareAll, leavesEach, leavesEach, leaves_bare node, leavesEach_bareAll nodes]

end

end Node

/-! ### What the rules read -/

open Node

variable {table : OperatorTable} {phrase : Phrase} {feed rest : Feed} {nodes : List Node}

/-- No operator is spelled as a name. -/
theorem Operator.not_identifier (o : Operator) : ¬Lexer.isIdentifier o.text := by
  cases o <;> decide

theorem ordinary_of_identifier {name : String} (h : Lexer.isIdentifier name) :
    (named name).Ordinary := by
  have noForm : (named name).form? = none := ofName?_identifier h
  refine ⟨by rw [isBlockForm, noForm]; rfl, ?_⟩
  show (Operator.all.any fun o => o.text = name) = false
  refine List.any_eq_false.mpr fun o _ same => o.not_identifier ?_
  rwa [of_decide_eq_true same]

/-- Trees that a phrase goes on from are ordinary. -/
def Phrase.Fit : Phrase → Prop
  | applied node | climb _ node => node.Ordinary
  | _ => True

/-- So are trees that an expression goes on from. -/
def Phrase.Yields : Phrase → Node → Prop
  | block | function | conditional | primary | applied _ | operand | climb _ _ | expression _ =>
    Ordinary
  | _ => fun _ => True

/-- What can stand before an argument list is neither an operator nor a word of a special form. -/
theorem Reads.ordinary (h : Reads table phrase feed nodes rest) (known : feed.Named)
    (fit : phrase.Fit) : ∀ node ∈ nodes, phrase.Yields node := by
  have call_ordinary {op : Node} {args : List Node} : (call op args).Ordinary := ⟨rfl, rfl⟩
  induction h with
  | block | function | conditional | signed | list =>
    exact List.forall_mem_singleton.mpr ⟨rfl, rfl⟩
  | @leaf t _ _ isLeaf =>
    refine List.forall_mem_singleton.mpr ?_
    obtain ⟨_, _, rfl⟩ | ⟨_, _, rfl⟩ | ⟨_, _, rfl⟩ | ⟨x, rfl, rfl⟩ | ⟨_, rfl⟩ :=
      Token.leaf_cases isLeaf
    case inr.inr.inr.inl => exact ordinary_of_identifier (known x (.head _))
    all_goals exact ⟨rfl, rfl⟩
  | primaryFunction _ ih | parenthesized _ ih => exact ih known.tail trivial
  | primaryConditional _ ih | primaryBlock _ ih => exact ih known trivial
  | unapplied | stop => exact List.forall_mem_singleton.mpr fit
  | applied first _ _ ih => exact ih (first.rest_named known) call_ordinary
  | operand first _ ih₁ ih₂ | expression first _ ih₁ ih₂ =>
    exact ih₂ (first.rest_named known) (ih₁ known trivial _ (.head _))
  | climb _ _ first _ _ ih => exact ih (first.rest_named known.tail) call_ordinary
  | _ => exact fun _ _ => trivial

/-- The leaves of the tokens in a feed. -/
def Feed.leaves (feed : Feed) : List Literal :=
  feed.filterMap (·.bind Token.literal?)

namespace Feed

theorem leaves_some {t : Token} {literal : Literal} (h : t.literal? = some literal) :
    leaves (some t :: feed) = literal :: feed.leaves :=
  List.filterMap_cons_some h

theorem leaves_none {t : Token} (h : t.literal? = none) :
    leaves (some t :: feed) = feed.leaves :=
  List.filterMap_cons_none h

@[simp] theorem leaves_name (x : String) :
    leaves (some (.name x) :: feed) = .symbol x :: feed.leaves :=
  leaves_some rfl

@[simp] theorem leaves_mark (m : Mark) : leaves (some (.mark m) :: feed) = feed.leaves :=
  leaves_none rfl

@[simp] theorem leaves_define : leaves (some (.keyword .define) :: feed) = feed.leaves :=
  leaves_none rfl

@[simp] theorem leaves_function : leaves (some (.keyword .function) :: feed) = feed.leaves :=
  leaves_none rfl

@[simp] theorem leaves_conditional :
    leaves (some (.keyword .conditional) :: feed) = feed.leaves :=
  leaves_none rfl

@[simp] theorem leaves_alternative :
    leaves (some (.keyword .alternative) :: feed) = feed.leaves :=
  leaves_none rfl

end Feed

theorem Token.literal_of_leaf {t : Token} {node : Node} (h : t.leaf? = some node) :
    ∃ literal, t.literal? = some literal ∧ node.leaves = [literal] := by
  obtain ⟨_, rfl, rfl⟩ | ⟨_, rfl, rfl⟩ | ⟨_, rfl, rfl⟩ | ⟨_, rfl, rfl⟩ | ⟨rfl, rfl⟩ :=
    Token.leaf_cases h
  all_goals exact ⟨_, rfl, rfl⟩

theorem Token.literal_of_between {t : Token} {op : String} (h : t.between? = some op) :
    t.literal? = some (.symbol op) := by
  cases t with
  | op o =>
    obtain rfl := Option.some.inj h
    rfl
  | _ => cases h

theorem Token.literal_of_before {t : Token} {op : String} (h : t.before? = some op) :
    t.literal? = some (.symbol op) := by
  unfold before? at h
  split at h
  · obtain rfl := Option.some.inj h
    rfl
  · obtain rfl := Option.some.inj h
    rfl
  · cases h

/-- The leaves of the tree that a phrase goes on from. -/
def Phrase.before : Phrase → List Literal
  | applied node | climb _ node => node.leaves
  | _ => []

theorem Item.leaves {item : Item} {literals : List Literal}
    (h : item.phrase.Fit → item.phrase.before ++ feed.leaves = literals) :
    feed.leaves = literals := by
  cases item with
  | parameter | expression => exact h trivial

/-- **The leaves of the tokens of a phrase are those of its trees.** -/
theorem Reads.leaves (h : Reads table phrase feed nodes rest) (known : feed.Named)
    (fit : phrase.Fit) : phrase.before ++ feed.leaves = leavesAll nodes ++ rest.leaves := by
  induction h with
  | name | nothing | noStatement | noAlternative | unapplied | stop => simp [Phrase.before]
  | last _ _ _ ih => exact Item.leaves (ih known)
  | @more item feed node feed' nodes rest first _ ih₁ ih₂ =>
    have others : Feed.leaves feed' = leavesAll nodes ++ rest.leaves :=
      ih₂ (first.rest_named known).tail trivial
    have here := Item.leaves (ih₁ known)
    simpa [Phrase.before, others] using here
  | items _ _ ih => simpa [Phrase.before] using ih known.tail trivial
  | @terminated feed node feed' nodes rest first _ ih₁ ih₂ =>
    have others : Feed.leaves feed' = leavesAll nodes ++ rest.leaves :=
      ih₂ (first.rest_named known).tail trivial
    simpa [Phrase.before, others] using ih₁ known trivial
  | @unterminated feed node feed' nodes rest _ first _ _ _ _ ih₁ ih₂ =>
    have others : Feed.leaves feed' = leavesAll nodes ++ rest.leaves :=
      ih₂ (first.rest_named known) trivial
    simpa [Phrase.before, others] using ih₁ known trivial
  | block _ ih => simpa [Phrase.before] using ih known.tail trivial
  | @function feed params feed' body rest first _ ih₁ ih₂ =>
    have second : Feed.leaves feed' = leavesAll [body] ++ rest.leaves :=
      ih₂ (first.rest_named known) trivial
    simpa [Phrase.before, second] using ih₁ known trivial
  | @conditional feed condition feed' consequent feed'' alternative rest first second _
      ih₁ ih₂ ih₃ =>
    have behind := (first.rest_named known.tail.tail).tail
    have branch : Feed.leaves feed' = leavesAll [consequent] ++ feed''.leaves := ih₂ behind trivial
    have branch' : Feed.leaves feed'' = leavesAll [alternative] ++ rest.leaves :=
      ih₃ (second.rest_named behind) trivial
    simpa [Phrase.before, branch, branch'] using ih₁ known.tail.tail trivial
  | elseConditional _ ih | elseBlock _ ih => simpa [Phrase.before] using ih known.tail trivial
  | leaf isLeaf =>
    obtain ⟨literal, token, node⟩ := Token.literal_of_leaf isLeaf
    simp [Phrase.before, Feed.leaves_some token, node]
  | primaryFunction _ ih | parenthesized _ ih => simpa [Phrase.before] using ih known.tail trivial
  | primaryConditional _ ih | primaryBlock _ ih => exact ih known trivial
  | list _ ih => simpa [Phrase.before] using ih known trivial
  | @applied function feed args feed' node rest first _ ih₁ ih₂ =>
    -- the arguments come behind the function in the tree and in the text
    have arguments : feed.leaves = leavesAll args ++ feed'.leaves := ih₁ known trivial
    have called := ih₂ (first.rest_named known) ⟨rfl, rfl⟩
    simpa [Phrase.before, arguments, leaves_call fit] using called
  | @signed t op feed node rest sign _ ih =>
    have operand : Feed.leaves feed = leavesAll [node] ++ rest.leaves := ih known.tail trivial
    simp [Phrase.before, Feed.leaves_some (Token.literal_of_before sign), leaves_before sign,
      operand]
  | @operand feed function feed' node rest first _ ih₁ ih₂ =>
    have here : feed.leaves = leavesAll [function] ++ feed'.leaves := ih₁ known trivial
    have called := ih₂ (first.rest_named known) (first.ordinary known trivial _ (.head _))
    simpa [Phrase.before, here] using called
  | @climb least left t op binding feed right feed' node rest sign _ first _ ih₁ ih₂ =>
    -- the operator comes between its operands, which are in the order of the text
    have between := OperatorTable.between_of_operator sign
    have operand : Feed.leaves feed = leavesAll [right] ++ feed'.leaves := ih₁ known.tail trivial
    have joined := ih₂ (first.rest_named known.tail) ⟨rfl, rfl⟩
    simpa [Phrase.before, Feed.leaves_some (Token.literal_of_between between),
      leaves_between between, operand] using joined
  | @expression least feed left feed' node rest first _ ih₁ ih₂ =>
    have here : feed.leaves = leavesAll [left] ++ feed'.leaves := ih₁ known trivial
    have joined := ih₂ (first.rest_named known) (first.ordinary known trivial _ (.head _))
    simpa [Phrase.before, here] using joined
  | definition _ ih => simpa [Phrase.before] using ih known.tail.tail.tail trivial
  | namedFunction _ ih => simpa [Phrase.before] using ih known.tail.tail trivial
  | statementConditional _ ih | statementBlock _ ih | statement _ _ _ _ ih =>
    exact ih known trivial

/-! ### What a reader reads -/

theorem Program.leaves (h : Program table feed nodes) (known : feed.Named) :
    feed.leaves = leavesAll nodes := by
  induction h with
  | nothing => rfl
  | skipped _ ih => rw [Feed.leaves_mark, ih known.tail]
  | @statement feed rest feed' node nodes first ends _ ih =>
    have here : feed.leaves = leavesAll [node] ++ rest.leaves := first.leaves known trivial
    have behind := first.rest_named known
    rw [here, leavesAll_cons, leavesAll_cons, leavesAll_nil, List.append_nil]
    rcases ends with rfl | ⟨rfl, _⟩
    · rw [Feed.leaves_mark, ih behind.tail]
    · rw [ih behind]

/-- **Reading loses, invents and reorders nothing.** If a text is read, then its tokens that are
literals, names, the word `back` or operators are the leaves of its trees, one for one and in the
order in which a traversal comes to them. -/
theorem readAll_leaves {text : String} {config : ReaderConfig}
    (result : (Reader.ofText text config).readAll.1 = .ok nodes) :
    ((lex text).filterMap tokenOf).filterMap Token.literal? = leavesAll nodes := by
  have program := Reader.readAll_program (Cursor.ofText_proper text) result
  have leaves := program.leaves (Cursor.ofText_lexed text).named
  have feed : (Cursor.ofText text).feed.leaves =
      ((lex text).filterMap tokenOf).filterMap Token.literal? := by
    show ((lex text).map tokenOf).filterMap _ = _
    rw [List.filterMap_map, List.filterMap_filterMap]
    rfl
  rw [← feed]
  refine leaves.trans ?_
  rw [leavesAll, leavesAll, leavesEach_bareAll]

/-- A named function whose body is a difference: the operator comes between a call and a sign in
front of a name. -/
theorem readAll_leaves_difference :
    ∃ nodes, (Reader.plain "fn f(x) \x7b x(1) - not x; \x7d").readAll.1 = .ok nodes ∧
      ((lex "fn f(x) \x7b x(1) - not x; \x7d").filterMap tokenOf).filterMap Token.literal? =
        leavesAll nodes ∧
      leavesAll nodes = [.symbol "f", .symbol "x", .symbol "x", .int 1, .symbol "-", .symbol "not",
        .symbol "x"] := by
  have result : (Reader.plain "fn f(x) \x7b x(1) - not x; \x7d").readAll.1 = .ok
      [.apply (.symbol "define" ⟨0, 2⟩) [.symbol "f" ⟨3, 4⟩, .apply (.symbol "fn" ⟨0, 2⟩)
        [.list [.symbol "x" ⟨5, 6⟩] ⟨4, 7⟩, .block [.apply (.symbol "-" ⟨15, 16⟩)
          [.apply (.symbol "x" ⟨10, 11⟩) [.atom (.int 1) ⟨12, 13⟩] ⟨10, 14⟩,
            .apply (.symbol "not" ⟨17, 20⟩) [.symbol "x" ⟨21, 22⟩] ⟨17, 22⟩] ⟨10, 22⟩] ⟨8, 25⟩]
          ⟨0, 25⟩] ⟨0, 25⟩] := by cbv
  exact ⟨_, result, readAll_leaves result, by cbv⟩

end Retrace
