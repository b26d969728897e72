/-
Parsers read what the rules read.

* `Delivers` — the parser of a phrase comes to the trees that the phrase reads, and
  leaves the same rest.
* `Delivered` — what a phrase reads, and that its parser delivers it, with bounds that are
  no less than the number of tokens read.
* `Delivered.name` and so on — one rule at a time, given its parts.
* `Reads.delivers` — all that is read is delivered.
* **`expression_of_reads`**, **`statement_of_reads`** — the parsers of expressions and
  statements, whose bounds come from the tokens that are left.

Design notes: what is nested in a phrase comes after a token of the phrase, or it is the
first part of the phrase. So the number of tokens bounds the depth of nesting if a first
part is not counted as nested. Such parts are read by parsers of the next depth.
-/
import Retrace.Proofs.Reader.Sound

namespace Retrace

namespace Grammar

open Retrace.Parser Node

variable {table : OperatorTable} {inner : Grammar}

/-- What follows the consequent of a conditional, and the rest of the parser after it. -/
def alternativeThen (inner : Grammar) (bound stop : Nat) (finish : Node → Parser Node) :
    Parser Node := do
  if ← accept (.keyword .alternative) then
    if ← check (.keyword .conditional) then conditional inner bound >>= finish
    else block inner bound >>= finish
  else
    finish (.block [] (.emptyAt stop))

theorem conditional_succ (bound : Nat) :
    conditional inner (bound + 1) = (do
      let keyword ← consume (.keyword .conditional)
      let _ ← consume (.mark .openParen)
      let condition ← inner.expression 0
      let _ ← consume (.mark .closeParen)
      let consequent ← block inner bound
      alternativeThen inner bound consequent.span.stop fun alternative =>
        return .apply (.symbol Form.conditional.name keyword.span)
          [condition, consequent, alternative] (keyword.span.join alternative.span)) :=
  rfl

/-- The parser comes to a tree that is one given up to places, and leaves a given rest. -/
def Gives (p : Parser Node) (feed : Feed) (nodes : List Node) (rest : Feed) : Prop :=
  Yields False p feed fun node rest' => [node.bare] = nodes ∧ rest' = rest

/-- The parser comes to trees that are given up to places, and leaves a given rest. -/
def GivesAll (p : Parser (List Node)) (feed : Feed) (nodes : List Node) (rest : Feed) : Prop :=
  Yields False p feed fun nodes' rest' => bareAll nodes' = nodes ∧ rest' = rest

/-- The parser of a phrase, nested up to `depth` and with sequences of less than `bound` parts,
comes to what the phrase reads. -/
def Delivers (table : OperatorTable) (depth bound : Nat) (phrase : Phrase) (feed : Feed)
    (nodes : List Node) (rest : Feed) : Prop :=
  match phrase with
  | .name => Gives name feed nodes rest
  | .separated item =>
    GivesAll (separated (Item.parser (upTo table (depth + 1)) item) (.mark .comma) bound)
      feed nodes rest
  | .delimited opening closing item =>
    GivesAll (delimited (.mark opening) (Item.parser (upTo table depth) item) (.mark .comma)
      (.mark closing) bound) feed nodes rest
  | .statements =>
    GivesAll (terminated (upTo table (depth + 1)).statement (.mark .semicolon)
      (.mark .closeBrace) endsWithBlock bound) feed nodes rest
  | .block => Gives (block (upTo table depth) bound) feed nodes rest
  | .function => ∀ keyword, Gives (functionRest (upTo table depth) bound keyword) feed nodes rest
  | .conditional => Gives (conditional (upTo table depth) bound) feed nodes rest
  | .alternative => ∀ stop finish Q,
    (∀ node, [node.bare] = nodes → Yields False (finish node) rest Q) →
      Yields False (alternativeThen (upTo table depth) bound stop finish) feed Q
  | .primary => Gives (primary (upTo table depth) bound) feed nodes rest
  | .applied function => ∀ function' : Node, function'.bare = function →
    Gives (applied (upTo table depth) function' bound) feed nodes rest
  | .operand => Gives (operand (upTo table depth) bound) feed nodes rest
  | .climb least left => ∀ left' : Node, left'.bare = left →
    Gives (climb table (upTo table depth) least left' bound) feed nodes rest
  | .expression least => Gives ((upTo table (depth + 1)).expression least) feed nodes rest
  | .statement => Gives (upTo table (depth + 1)).statement feed nodes rest

/-- A parser that comes to a given tree, and what comes after it. -/
theorem yields_gives {β : Type} {p : Parser Node} {f : Node → Parser β} {feed rest : Feed}
    {nodes : List Node} {Q : β → Feed → Prop} (h : Gives p feed nodes rest)
    (next : ∀ node, [node.bare] = nodes → Yields False (f node) rest Q) :
    Yields False (p >>= f) feed Q := by
  refine yields_bind (h.mono fun node rest' here => ?_)
  obtain ⟨same, rfl⟩ := here
  exact next node same

/-- The same for a single tree. -/
theorem yields_given {β : Type} {p : Parser Node} {f : Node → Parser β} {feed rest : Feed}
    {tree : Node} {Q : β → Feed → Prop} (h : Gives p feed [tree] rest)
    (next : ∀ node : Node, node.bare = tree → Yields False (f node) rest Q) :
    Yields False (p >>= f) feed Q :=
  yields_gives h fun node same => next node (List.cons.inj same).1

theorem yields_givesAll {β : Type} {p : Parser (List Node)} {f : List Node → Parser β}
    {feed rest : Feed} {nodes : List Node} {Q : β → Feed → Prop} (h : GivesAll p feed nodes rest)
    (next : ∀ nodes', bareAll nodes' = nodes → Yields False (f nodes') rest Q) :
    Yields False (p >>= f) feed Q := by
  refine yields_bind (h.mono fun nodes' rest' here => ?_)
  obtain ⟨same, rfl⟩ := here
  exact next nodes' same

/-- A token that is there is consumed. -/
theorem yields_consumed {α : Type} {t : Token} {f : Lexeme → Parser α} {feed : Feed}
    {Q : α → Feed → Prop} (h : ∀ lexeme, Yields False (f lexeme) feed Q) :
    Yields False (consume t >>= f) (some t :: feed) Q :=
  yields_bind (yields_consume (fun _ lexeme => h lexeme) fun absent => absent rfl)

theorem yields_advanced {α : Type} {t : Token} {f : Lexeme → Parser α} {feed : Feed}
    {Q : α → Feed → Prop} (h : ∀ lexeme, Yields False (f lexeme) feed Q) :
    Yields False (advance >>= f) (some t :: feed) Q :=
  yields_bind (yields_advance (fun lexeme _ => h lexeme) nofun)

/-- A token that comes next is seen. -/
theorem yields_peeked {α : Type} {t : Token} {f : Token → Parser α} {feed : Feed}
    {Q : α → Feed → Prop} (next : feed.next = some t) (h : Yields False (f t) feed Q) :
    Yields False (peek >>= f) feed Q := by
  refine yields_bind (yields_peek (fun t' next' => ?_) fun absent => ?_)
  · obtain rfl := Option.some.inj (next.symm.trans next')
    exact h
  · exact absurd (next.symm.trans absent) (Option.some_ne_none _)

/-- The token after the next is seen. -/
theorem yields_peekedSecond {α : Type} {t t' : Token} {f : Token → Parser α} {feed : Feed}
    {Q : α → Feed → Prop} (second : feed.next = some t')
    (h : Yields False (f t') (some t :: feed) Q) :
    Yields False (peekAt 1 >>= f) (some t :: feed) Q := by
  have here : Feed.item (some t :: feed) 1 = some t' := by
    rw [← second]
    cases feed <;> rfl
  refine yields_bind (yields_peekAt (fun t'' next => ?_) ?_)
  · obtain rfl := Option.some.inj (here.symm.trans next)
    exact h
  · rintro ⟨i, le, absent⟩
    obtain rfl | rfl : i = 0 ∨ i = 1 := by omega
    · exact absurd absent nofun
    · exact absurd (here.symm.trans absent) nofun

theorem yields_checked {α : Type} {t token : Token} {f : Bool → Parser α} {feed : Feed}
    {Q : α → Feed → Prop} (next : feed.next = some t)
    (h : Yields False (f (t = token)) feed Q) : Yields False (check token >>= f) feed Q := by
  refine yields_bind (yields_check (fun here => ?_) (fun t' next' other => ?_) fun absent => ?_)
  · obtain rfl := Option.some.inj (next.symm.trans here)
    simpa using h
  · obtain rfl := Option.some.inj (next.symm.trans next')
    simpa [other] using h
  · exact absurd (next.symm.trans absent) (Option.some_ne_none _)

theorem yields_accepted {α : Type} {t : Token} {f : Bool → Parser α} {feed : Feed}
    {Q : α → Feed → Prop} (h : Yields False (f true) feed Q) :
    Yields False (accept t >>= f) (some t :: feed) Q := by
  refine yields_bind (yields_accept (fun _ => h) (fun t' next other => ?_) nofun)
  exact absurd (Option.some.inj next).symm other

theorem yields_declined {α : Type} {t token : Token} {f : Bool → Parser α} {feed : Feed}
    {Q : α → Feed → Prop} (next : feed.next = some t) (other : t ≠ token)
    (h : Yields False (f false) feed Q) : Yields False (accept token >>= f) feed Q := by
  refine yields_bind (yields_accept (fun here => ?_) (fun _ _ _ => h) fun absent => ?_)
  · exact absurd (Option.some.inj (next.symm.trans here)) other
  · exact absurd (next.symm.trans absent) (Option.some_ne_none _)

theorem yields_operator {α : Type} {t : Token} {f : Option (String × Binding) → Parser α}
    {feed : Feed} {Q : α → Feed → Prop} (next : feed.next = some t)
    (h : Yields False (f (table.operator? t)) feed Q) :
    Yields False (nextOperator table >>= f) feed Q := by
  refine yields_bind (nextOperator_yields (fun t' next' => ?_) fun absent => ?_)
  · obtain rfl := Option.some.inj (next.symm.trans next')
    exact h
  · exact absurd (next.symm.trans absent) (Option.some_ne_none _)

theorem gives_item {item : Item} {depth bound : Nat} {feed rest : Feed} {nodes : List Node}
    (h : Delivers table depth bound item.phrase feed nodes rest) :
    Gives (Item.parser (upTo table (depth + 1)) item) feed nodes rest := by
  cases item with
  | parameter => exact h
  | expression => exact h

end Grammar

open Grammar Retrace.Parser Node

/-- The number of tokens of a phrase that are sure not to be in its sequences. -/
@[simp] def Phrase.slack : Phrase → Nat
  | delimited .. | block | function | conditional | primary => 1
  | _ => 0

theorem Item.slack_phrase (item : Item) : item.phrase.slack = 0 := by
  cases item <;> rfl

variable {table : OperatorTable} {phrase : Phrase} {feed feed' feed'' rest : Feed} {node : Node}
  {nodes : List Node} {t : Token}

/-- A phrase reads trees, and its parser comes to them if its bounds are no less than the number of
tokens that the phrase reads. -/
structure Delivered (table : OperatorTable) (phrase : Phrase) (feed : Feed) (nodes : List Node)
    (rest : Feed) : Prop where
  reads : Reads table phrase feed nodes rest
  within depth bound (hdepth : feed.length ≤ depth + rest.length)
    (hbound : feed.length < bound + rest.length + phrase.slack) :
    Delivers table depth bound phrase feed nodes rest

/-! ### The rules, one at a time -/

namespace Delivered

section

variable {item : Item} {opening closing : Mark}

theorem name {x : String} : Delivered table .name (some (.name x) :: feed) [named x] feed := by
  refine ⟨.name, fun _ _ _ _ => ?_⟩
  show Gives _ _ _ _
  exact yields_peeked rfl (yields_advanced fun _ => yields_pure ⟨rfl, rfl⟩)

theorem last (first : Delivered table item.phrase feed [node] rest) (after : rest.next = some t)
    (other : t ≠ .mark .comma) : Delivered table (.separated item) feed [node] rest := by
  refine ⟨.last first.reads after other, fun depth bound hdepth hbound => ?_⟩
  have enough := first.reads.length_le
  have here := first.within depth bound hdepth
  rw [Item.least_phrase] at enough
  rw [Item.slack_phrase] at here
  simp only [Phrase.slack] at hbound
  obtain ⟨bound, rfl⟩ : ∃ b, bound = b + 1 := ⟨bound - 1, by omega⟩
  show GivesAll _ _ _ _
  refine yields_gives (gives_item (here hbound)) fun node same => ?_
  exact yields_declined after other (yields_pure ⟨same, rfl⟩)

theorem more (first : Delivered table item.phrase feed [node] (some (.mark .comma) :: feed'))
    (others : Delivered table (.separated item) feed' nodes rest) :
    Delivered table (.separated item) feed (node :: nodes) rest := by
  refine ⟨.more first.reads others.reads, fun depth bound hdepth hbound => ?_⟩
  have enough := first.reads.length_le
  have enough' := others.reads.length_le
  have here := first.within
  have further := others.within
  rw [Item.least_phrase] at enough
  rw [Item.slack_phrase] at here
  simp only [Phrase.slack, List.length_cons] at enough hbound here further
  obtain ⟨bound, rfl⟩ : ∃ b, bound = b + 1 := ⟨bound - 1, by omega⟩
  show GivesAll _ _ _ _
  refine yields_given (gives_item (here depth (bound + 1) (by omega) (by omega))) ?_
  rintro node rfl
  refine yields_accepted (yields_givesAll (further depth bound (by omega) (by omega)) ?_)
  rintro nodes rfl
  exact yields_pure ⟨rfl, rfl⟩

theorem nothing : Delivered table (.delimited opening closing item)
    (some (.mark opening) :: some (.mark closing) :: feed) [] feed := by
  refine ⟨.nothing, fun _ _ _ _ => ?_⟩
  show GivesAll _ _ _ _
  exact yields_consumed fun _ => yields_accepted (yields_pure ⟨rfl, rfl⟩)

theorem items (filled : Feed.next feed ≠ some (.mark closing))
    (inside : Delivered table (.separated item) feed nodes (some (.mark closing) :: rest)) :
    Delivered table (.delimited opening closing item) (some (.mark opening) :: feed) nodes
      rest := by
  refine ⟨.items filled inside.reads, fun depth bound hdepth hbound => ?_⟩
  have enough := inside.reads.length_le
  have here := inside.within
  simp only [Phrase.least, Phrase.slack, List.length_cons] at enough hdepth hbound here
  obtain ⟨depth, rfl⟩ : ∃ d, depth = d + 1 := ⟨depth - 1, by omega⟩
  obtain ⟨t, next, _⟩ := inside.reads.separated_next
  show GivesAll _ _ _ _
  refine yields_consumed fun _ => yields_declined next (fun same => filled (same ▸ next)) ?_
  refine yields_givesAll (here depth bound (by omega) (by omega)) fun nodes same => ?_
  exact yields_consumed fun _ => yields_pure ⟨same, rfl⟩

end

theorem noStatement : Delivered table .statements (some (.mark .closeBrace) :: feed) []
    (some (.mark .closeBrace) :: feed) := by
  refine ⟨.noStatement, fun depth bound hdepth hbound => ?_⟩
  simp only [Phrase.slack] at hbound
  obtain ⟨bound, rfl⟩ : ∃ b, bound = b + 1 := ⟨bound - 1, by omega⟩
  show GivesAll _ _ _ _
  exact yields_checked rfl (yields_pure ⟨rfl, rfl⟩)

theorem terminated
    (first : Delivered table .statement feed [node] (some (.mark .semicolon) :: feed'))
    (others : Delivered table .statements feed' nodes rest) :
    Delivered table .statements feed (node :: nodes) rest := by
  refine ⟨.terminated first.reads others.reads, fun depth bound hdepth hbound => ?_⟩
  have enough := first.reads.length_le
  have enough' := others.reads.length_le
  have here := first.within
  have further := others.within
  simp only [Phrase.least, Phrase.slack, List.length_cons] at enough hbound here further
  obtain ⟨bound, rfl⟩ : ∃ b, bound = b + 1 := ⟨bound - 1, by omega⟩
  obtain ⟨t, next, begins⟩ := first.reads.statement_next
  have other : t ≠ .mark .closeBrace := Token.ne_of_beginsStatement begins rfl
  show GivesAll _ _ _ _
  refine yields_checked next ?_
  rw [decide_eq_false other]
  refine yields_given (here depth (bound + 1) (by omega) (by omega)) ?_
  rintro node rfl
  refine yields_accepted (yields_givesAll (further depth bound (by omega) (by omega)) ?_)
  rintro nodes rfl
  exact yields_pure ⟨rfl, rfl⟩

theorem unterminated (first : Delivered table .statement feed [node] feed')
    (after : feed'.next = some t) (differs : t ≠ .mark .semicolon) (ended : node.endsWithBlock)
    (others : Delivered table .statements feed' nodes rest) :
    Delivered table .statements feed (node :: nodes) rest := by
  refine ⟨.unterminated first.reads after differs ended others.reads,
    fun depth bound hdepth hbound => ?_⟩
  have enough := first.reads.length_le
  have enough' := others.reads.length_le
  have here := first.within
  have further := others.within
  simp only [Phrase.least, Phrase.slack] at enough hbound here further
  obtain ⟨bound, rfl⟩ : ∃ b, bound = b + 1 := ⟨bound - 1, by omega⟩
  obtain ⟨t, next, begins⟩ := first.reads.statement_next
  have other : t ≠ .mark .closeBrace := Token.ne_of_beginsStatement begins rfl
  show GivesAll _ _ _ _
  refine yields_checked next ?_
  rw [decide_eq_false other]
  refine yields_given (here depth (bound + 1) (by omega) (by omega)) ?_
  rintro node rfl
  rw [endsWithBlock_bare] at ended
  refine yields_declined after differs ?_
  rw [ended]
  refine yields_givesAll (further depth bound (by omega) (by omega)) ?_
  rintro nodes rfl
  exact yields_pure ⟨rfl, rfl⟩

theorem block (inside : Delivered table .statements feed nodes (some (.mark .closeBrace) :: rest)) :
    Delivered table .block (some (.mark .openBrace) :: feed) [blockOf nodes] rest := by
  refine ⟨.block inside.reads, fun depth bound hdepth hbound => ?_⟩
  have enough := inside.reads.length_le
  have here := inside.within
  simp only [Phrase.least, Phrase.slack, List.length_cons] at enough hdepth hbound here
  obtain ⟨depth, rfl⟩ : ∃ d, depth = d + 1 := ⟨depth - 1, by omega⟩
  show Gives _ _ _ _
  refine yields_consumed fun _ => ?_
  refine yields_givesAll (here depth bound (by omega) (by omega)) ?_
  rintro nodes rfl
  exact yields_consumed fun _ => yields_pure ⟨rfl, rfl⟩

theorem function {params : List Node} {body : Node}
    (first : Delivered table (.delimited .openParen .closeParen .parameter) feed params feed')
    (second : Delivered table .block feed' [body] rest) :
    Delivered table .function feed [special .function [listOf params, body]] rest := by
  refine ⟨.function first.reads second.reads, fun depth bound hdepth hbound => ?_⟩
  have enough := first.reads.length_le
  have enough' := second.reads.length_le
  have here := first.within
  have there := second.within
  simp only [Phrase.least, Phrase.slack] at enough enough' hbound here there
  intro keyword
  refine yields_bind (yields_currentSpan fun _ => ?_)
  refine yields_givesAll (here depth bound (by omega) (by omega)) ?_
  rintro params rfl
  refine yields_bind (yields_previousSpan fun _ => ?_)
  refine yields_given (there depth bound (by omega) (by omega)) ?_
  rintro body rfl
  exact yields_pure ⟨rfl, rfl⟩

/-! ### Conditionals -/

theorem conditional {condition consequent alternative : Node}
    (first : Delivered table (.expression 0) feed [condition] (some (.mark .closeParen) :: feed'))
    (second : Delivered table .block feed' [consequent] feed'')
    (third : Delivered table .alternative feed'' [alternative] rest) :
    Delivered table .conditional (some (.keyword .conditional) :: some (.mark .openParen) :: feed)
      [special .conditional [condition, consequent, alternative]] rest := by
  refine ⟨.conditional first.reads second.reads third.reads,
    fun depth bound hdepth hbound => ?_⟩
  have enough₁ := first.reads.length_le
  have enough₂ := second.reads.length_le
  have enough₃ := third.reads.length_le
  have here₁ := first.within
  have here₂ := second.within
  have here₃ := third.within
  simp only [Phrase.least, List.length_cons] at enough₁ enough₂ enough₃
  simp only [Phrase.slack, List.length_cons] at hdepth hbound here₁ here₂ here₃
  obtain ⟨bound, rfl⟩ : ∃ b, bound = b + 1 := ⟨bound - 1, by omega⟩
  obtain ⟨depth, rfl⟩ : ∃ d, depth = d + 1 := ⟨depth - 1, by omega⟩
  show Gives (Grammar.conditional _ (bound + 1)) _ _ _
  rw [conditional_succ]
  refine yields_consumed fun keyword => yields_consumed fun _ => ?_
  refine yields_given (here₁ depth bound (by omega) (by omega)) ?_
  rintro condition rfl
  refine yields_consumed fun _ => ?_
  refine yields_given (here₂ (depth + 1) bound (by omega) (by omega)) ?_
  rintro consequent rfl
  refine here₃ (depth + 1) bound (by omega) (by omega) _ _ _ fun alternative same => ?_
  obtain ⟨rfl, _⟩ := List.cons.inj same
  exact yields_pure ⟨rfl, rfl⟩

theorem noAlternative (after : Feed.next feed = some t) (other : t ≠ .keyword .alternative) :
    Delivered table .alternative feed [blockOf []] feed := by
  refine ⟨.noAlternative after other, fun depth bound hdepth hbound => ?_⟩
  intro stop finish Q done
  exact yields_declined after other (done _ rfl)

theorem elseConditional
    (second : Delivered table .conditional (some (.keyword .conditional) :: feed) [node] rest) :
    Delivered table .alternative
      (some (.keyword .alternative) :: some (.keyword .conditional) :: feed) [node] rest := by
  refine ⟨.elseConditional second.reads, fun depth bound hdepth hbound => ?_⟩
  have here := second.within
  simp only [Phrase.slack, List.length_cons] at hdepth hbound here
  intro stop finish Q done
  refine yields_accepted (yields_checked rfl ?_)
  exact yields_gives (here depth bound (by omega) (by omega)) done

theorem elseBlock (second : Delivered table .block feed [node] rest) :
    Delivered table .alternative (some (.keyword .alternative) :: feed) [node] rest := by
  refine ⟨.elseBlock second.reads, fun depth bound hdepth hbound => ?_⟩
  have here := second.within
  simp only [Phrase.slack, List.length_cons] at hdepth hbound here
  intro stop finish Q done
  obtain ⟨feed', rfl⟩ := second.reads.block_inv
  refine yields_accepted (yields_checked rfl ?_)
  exact yields_gives (here depth bound (by omega) (by omega)) done

/-! ### Operands -/

theorem leaf (isLeaf : t.leaf? = some node) :
    Delivered table .primary (some t :: feed) [node] feed := by
  refine ⟨.leaf isLeaf, fun depth bound hdepth hbound => ?_⟩
  show Gives _ _ _ _
  refine yields_peeked rfl ?_
  obtain ⟨n, rfl, rfl⟩ | ⟨s, rfl, rfl⟩ | ⟨b, rfl, rfl⟩ | ⟨x, rfl, rfl⟩ | ⟨rfl, rfl⟩ :=
    Token.leaf_cases isLeaf
  case inr.inr.inr.inl =>
    exact yields_peeked rfl (yields_advanced fun _ => yields_pure ⟨rfl, rfl⟩)
  all_goals exact yields_advanced fun _ => yields_pure ⟨rfl, rfl⟩

theorem primaryFunction (second : Delivered table .function feed [node] rest) :
    Delivered table .primary (some (.keyword .function) :: feed) [node] rest := by
  refine ⟨.primaryFunction second.reads, fun depth bound hdepth hbound => ?_⟩
  have here := second.within
  simp only [Phrase.slack, List.length_cons] at hdepth hbound here
  show Gives _ _ _ _
  refine yields_peeked rfl (yields_advanced fun keyword => ?_)
  exact here depth bound (by omega) (by omega) keyword.span

theorem primaryConditional (second : Delivered table .conditional feed [node] rest) :
    Delivered table .primary feed [node] rest := by
  refine ⟨.primaryConditional second.reads, fun depth bound hdepth hbound => ?_⟩
  have here := second.within depth bound hdepth hbound
  obtain ⟨feed', rfl⟩ := second.reads.conditional_inv
  show Gives _ _ _ _
  exact yields_peeked rfl here

theorem parenthesized
    (inside : Delivered table (.expression 0) feed [node] (some (.mark .closeParen) :: rest)) :
    Delivered table .primary (some (.mark .openParen) :: feed) [node] rest := by
  refine ⟨.parenthesized inside.reads, fun depth bound hdepth hbound => ?_⟩
  have enough := inside.reads.length_le
  have here := inside.within
  simp only [Phrase.least, Phrase.slack, List.length_cons] at enough hdepth hbound here
  obtain ⟨depth, rfl⟩ : ∃ d, depth = d + 1 := ⟨depth - 1, by omega⟩
  show Gives _ _ _ _
  refine yields_peeked rfl (yields_advanced fun _ => ?_)
  refine yields_gives (here depth bound (by omega) (by omega)) fun node same => ?_
  exact yields_consumed fun _ => yields_pure ⟨same, rfl⟩

theorem list
    (inside : Delivered table (.delimited .openBracket .closeBracket .expression) feed nodes rest) :
    Delivered table .primary feed [listOf nodes] rest := by
  refine ⟨.list inside.reads, fun depth bound hdepth hbound => ?_⟩
  have here := inside.within depth bound hdepth hbound
  obtain ⟨feed', rfl⟩ := inside.reads.delimited_inv
  show Gives _ _ _ _
  refine yields_peeked rfl (yields_bind (yields_currentSpan fun _ => ?_))
  refine yields_givesAll here ?_
  rintro nodes rfl
  exact yields_bind (yields_previousSpan fun _ => yields_pure ⟨rfl, rfl⟩)

theorem primaryBlock (second : Delivered table .block feed [node] rest) :
    Delivered table .primary feed [node] rest := by
  refine ⟨.primaryBlock second.reads, fun depth bound hdepth hbound => ?_⟩
  have here := second.within depth bound hdepth hbound
  obtain ⟨feed', rfl⟩ := second.reads.block_inv
  show Gives _ _ _ _
  exact yields_peeked rfl here

theorem unapplied {function : Node} (after : Feed.next feed = some t)
    (other : t ≠ .mark .openParen) : Delivered table (.applied function) feed [function] feed := by
  refine ⟨.unapplied after other, fun depth bound hdepth hbound => ?_⟩
  simp only [Phrase.slack] at hbound
  rintro function rfl
  obtain ⟨bound, rfl⟩ : ∃ b, bound = b + 1 := ⟨bound - 1, by omega⟩
  refine yields_checked after ?_
  rw [decide_eq_false other]
  exact yields_pure ⟨rfl, rfl⟩

theorem applied {function : Node} {args : List Node}
    (first : Delivered table (.delimited .openParen .closeParen .expression) feed args feed')
    (second : Delivered table (.applied (call function args)) feed' [node] rest) :
    Delivered table (.applied function) feed [node] rest := by
  refine ⟨.applied first.reads second.reads, fun depth bound hdepth hbound => ?_⟩
  have enough := first.reads.length_le
  have enough' := second.reads.length_le
  have here := first.within
  have there := second.within
  simp only [Phrase.least, Phrase.slack] at enough enough' hbound here there
  obtain ⟨bound, rfl⟩ : ∃ b, bound = b + 1 := ⟨bound - 1, by omega⟩
  obtain ⟨feed', rfl⟩ := first.reads.delimited_inv
  rintro function rfl
  refine yields_checked rfl ?_
  refine yields_givesAll (here depth bound (by omega) (by omega)) ?_
  rintro args rfl
  refine yields_bind (yields_previousSpan fun _ => ?_)
  exact there depth bound (by omega) (by omega) _ rfl

theorem signed {op : String} (sign : t.before? = some op)
    (second : Delivered table .operand feed [node] rest) :
    Delivered table .operand (some t :: feed) [call (named op) [node]] rest := by
  refine ⟨.signed sign second.reads, fun depth bound hdepth hbound => ?_⟩
  have enough := second.reads.length_le
  have here := second.within
  simp only [Phrase.least, Phrase.slack, List.length_cons] at enough hdepth hbound here
  obtain ⟨bound, rfl⟩ : ∃ b, bound = b + 1 := ⟨bound - 1, by omega⟩
  show Gives _ _ _ _
  refine yields_peeked rfl ?_
  rw [sign]
  refine yields_advanced fun _ => ?_
  refine yields_given (here depth bound (by omega) (by omega)) ?_
  rintro node rfl
  exact yields_pure ⟨rfl, rfl⟩

theorem operand {function : Node} (first : Delivered table .primary feed [function] feed')
    (second : Delivered table (.applied function) feed' [node] rest) :
    Delivered table .operand feed [node] rest := by
  refine ⟨.operand first.reads second.reads, fun depth bound hdepth hbound => ?_⟩
  have enough := first.reads.length_le
  have enough' := second.reads.length_le
  have here := first.within
  have there := second.within
  simp only [Phrase.least, Phrase.slack] at enough enough' hbound here there
  obtain ⟨bound, rfl⟩ : ∃ b, bound = b + 1 := ⟨bound - 1, by omega⟩
  obtain ⟨_, t, next, noSign⟩ := first.reads.primary_begins
  show Gives _ _ _ _
  refine yields_peeked next ?_
  rw [noSign]
  refine yields_given (here depth bound (by omega) (by omega)) ?_
  rintro function rfl
  exact there depth (bound + 1) (by omega) (by omega) function rfl

/-! ### Expressions and statements -/

theorem stop {least : Nat} {left : Node} (after : Feed.next feed = some t)
    (loose : table.Loose least t) : Delivered table (.climb least left) feed [left] feed := by
  refine ⟨.stop after loose, fun depth bound hdepth hbound => ?_⟩
  simp only [Phrase.slack] at hbound
  rintro left rfl
  obtain ⟨bound, rfl⟩ : ∃ b, bound = b + 1 := ⟨bound - 1, by omega⟩
  refine yields_operator after ?_
  split
  · exact yields_pure ⟨rfl, rfl⟩
  · next op binding here =>
    rw [if_pos (loose op binding here)]
    exact yields_pure ⟨rfl, rfl⟩

theorem climb {least : Nat} {left right : Node} {op : String} {binding : Binding}
    (sign : table.operator? t = some (op, binding)) (tight : least ≤ binding.level)
    (first : Delivered table (.expression binding.right) feed [right] feed')
    (second : Delivered table (.climb least (call (named op) [left, right])) feed' [node] rest) :
    Delivered table (.climb least left) (some t :: feed) [node] rest := by
  refine ⟨.climb sign tight first.reads second.reads, fun depth bound hdepth hbound => ?_⟩
  have enough := first.reads.length_le
  have enough' := second.reads.length_le
  have here := first.within
  have there := second.within
  simp only [Phrase.least, List.length_cons] at enough enough' hdepth
  simp only [Phrase.slack, List.length_cons] at hbound here there
  obtain ⟨bound, rfl⟩ : ∃ b, bound = b + 1 := ⟨bound - 1, by omega⟩
  obtain ⟨depth, rfl⟩ : ∃ d, depth = d + 1 := ⟨depth - 1, by omega⟩
  rintro left rfl
  refine yields_operator rfl ?_
  rw [sign]
  simp only [if_neg (Nat.not_lt_of_le tight)]
  refine yields_advanced fun _ => ?_
  refine yields_given (here depth bound (by omega) (by omega)) ?_
  rintro right rfl
  exact there (depth + 1) bound (by omega) (by omega) _ rfl

theorem expression {least : Nat} {left : Node} (first : Delivered table .operand feed [left] feed')
    (second : Delivered table (.climb least left) feed' [node] rest) :
    Delivered table (.expression least) feed [node] rest := by
  refine ⟨.expression first.reads second.reads, fun depth bound hdepth hbound => ?_⟩
  have enough := first.reads.length_le
  have enough' := second.reads.length_le
  have here := first.within
  have there := second.within
  simp only [Phrase.least, Phrase.slack] at enough enough' hbound here there
  show Gives _ _ _ _
  refine yields_given (here depth (depth + 1) (by omega) (by omega)) ?_
  rintro left rfl
  exact there depth (depth + 1) (by omega) (by omega) left rfl

theorem definition {x : String} {value : Node}
    (second : Delivered table (.expression 0) feed [value] rest) :
    Delivered table .statement
      (some (.keyword .define) :: some (.name x) :: some (.mark .assign) :: feed)
      [special .define [named x, value]] rest := by
  refine ⟨.definition second.reads, fun depth bound hdepth hbound => ?_⟩
  have enough := second.reads.length_le
  have here := second.within
  simp only [Phrase.least, Phrase.slack, List.length_cons] at enough hdepth here
  obtain ⟨depth, rfl⟩ : ∃ d, depth = d + 1 := ⟨depth - 1, by omega⟩
  show Gives _ _ _ _
  refine yields_peeked rfl (yields_consumed fun keyword => ?_)
  refine yields_bind (yields_peeked rfl (yields_advanced fun target => yields_pure ?_))
  refine yields_consumed fun _ => ?_
  refine yields_given (here depth (depth + 1) (by omega) (by omega)) ?_
  rintro value rfl
  exact yields_pure ⟨rfl, rfl⟩

theorem namedFunction {x : String} {function : Node}
    (second : Delivered table .function feed [function] rest) :
    Delivered table .statement (some (.keyword .function) :: some (.name x) :: feed)
      [special .define [named x, function]] rest := by
  refine ⟨.namedFunction second.reads, fun depth bound hdepth hbound => ?_⟩
  have here := second.within
  simp only [Phrase.slack, List.length_cons] at hdepth here
  show Gives _ _ _ _
  refine yields_peeked rfl (yields_peekedSecond rfl ?_)
  refine yields_consumed fun keyword => ?_
  refine yields_bind (yields_peeked rfl (yields_advanced fun target => yields_pure ?_))
  refine yields_given (here depth (depth + 1) (by omega) (by omega) _) ?_
  rintro function rfl
  exact yields_pure ⟨rfl, rfl⟩

theorem statementConditional (second : Delivered table .conditional feed [node] rest) :
    Delivered table .statement feed [node] rest := by
  refine ⟨.statementConditional second.reads, fun depth bound hdepth hbound => ?_⟩
  have here := second.within depth (depth + 1) hdepth (by omega)
  obtain ⟨feed', rfl⟩ := second.reads.conditional_inv
  show Gives _ _ _ _
  exact yields_peeked rfl here

theorem statementBlock (second : Delivered table .block feed [node] rest) :
    Delivered table .statement feed [node] rest := by
  refine ⟨.statementBlock second.reads, fun depth bound hdepth hbound => ?_⟩
  have here := second.within depth (depth + 1) hdepth (by omega)
  obtain ⟨feed', rfl⟩ := second.reads.block_inv
  show Gives _ _ _ _
  exact yields_peeked rfl here

theorem statement (first : Feed.next feed = some t) (noConditional : t ≠ .keyword .conditional)
    (noBlock : t ≠ .mark .openBrace) (second : Delivered table (.expression 0) feed [node] rest) :
    Delivered table .statement feed [node] rest := by
  refine ⟨.statement first noConditional noBlock second.reads,
    fun depth bound hdepth hbound => ?_⟩
  have whole := second.within depth bound hdepth hbound
  obtain ⟨t, feed', rfl, begins, opened⟩ := second.reads.expression_begins
  obtain rfl := Option.some.inj first
  show Gives _ _ _ _
  refine yields_peeked rfl ?_
  split
  · exact absurd begins Bool.false_ne_true
  · exact yields_peekedSecond (opened rfl) whole
  · exact absurd rfl noConditional
  · exact absurd rfl noBlock
  · exact whole

end Delivered

/-- What a phrase reads is delivered. -/
theorem Reads.delivered (h : Reads table phrase feed nodes rest) :
    Delivered table phrase feed nodes rest := by
  induction h with
  | name => exact .name
  | last _ after other ih => exact ih.last after other
  | more _ _ ih₁ ih₂ => exact ih₁.more ih₂
  | nothing => exact .nothing
  | items filled _ ih => exact ih.items filled
  | noStatement => exact .noStatement
  | terminated _ _ ih₁ ih₂ => exact ih₁.terminated ih₂
  | unterminated _ after differs ended _ ih₁ ih₂ => exact ih₁.unterminated after differs ended ih₂
  | block _ ih => exact ih.block
  | function _ _ ih₁ ih₂ => exact ih₁.function ih₂
  | conditional _ _ _ ih₁ ih₂ ih₃ => exact ih₁.conditional ih₂ ih₃
  | noAlternative after other => exact .noAlternative after other
  | elseConditional _ ih => exact ih.elseConditional
  | elseBlock _ ih => exact ih.elseBlock
  | leaf isLeaf => exact .leaf isLeaf
  | primaryFunction _ ih => exact ih.primaryFunction
  | primaryConditional _ ih => exact ih.primaryConditional
  | parenthesized _ ih => exact ih.parenthesized
  | list _ ih => exact ih.list
  | primaryBlock _ ih => exact ih.primaryBlock
  | unapplied after other => exact .unapplied after other
  | applied _ _ ih₁ ih₂ => exact ih₁.applied ih₂
  | signed sign _ ih => exact ih.signed sign
  | operand _ _ ih₁ ih₂ => exact ih₁.operand ih₂
  | stop after loose => exact .stop after loose
  | climb sign tight _ _ ih₁ ih₂ => exact .climb sign tight ih₁ ih₂
  | expression _ _ ih₁ ih₂ => exact ih₁.expression ih₂
  | definition _ ih => exact ih.definition
  | namedFunction _ ih => exact ih.namedFunction
  | statementConditional _ ih => exact ih.statementConditional
  | statementBlock _ ih => exact ih.statementBlock
  | statement first noConditional noBlock _ ih => exact ih.statement first noConditional noBlock

/-- The parser of a phrase comes to what the phrase reads, if its bounds are no less than the
number of tokens that the phrase reads. -/
theorem Reads.delivers (h : Reads table phrase feed nodes rest) (depth bound : Nat)
    (hdepth : feed.length ≤ depth + rest.length)
    (hbound : feed.length < bound + rest.length + phrase.slack) :
    Delivers table depth bound phrase feed nodes rest :=
  h.delivered.within depth bound hdepth hbound

/-! ### Bounds from the tokens that are left -/

/-- As many tokens are left as a feed has. -/
theorem remaining_eq (c : Cursor) : c.remaining = c.feed.length := by
  rw [Cursor.remaining, Cursor.feed, List.length_append, List.length_map, List.length_map]

theorem yields_bound {α : Type} {f : Nat → Parser α} {Q : α → Feed → Prop} {stops : Prop}
    (h : Yields stops (f (feed.length + 2)) feed Q) :
    Yields stops (Parser.bound >>= f) feed Q := by
  refine yields_bind ?_
  rintro c proper rfl
  refine ⟨proper, ?_⟩
  rw [remaining_eq]
  exact h

/-- An expression is read as the rules read it. -/
theorem expression_of_reads {least : Nat} (h : Reads table (.expression least) feed nodes rest) :
    Gives (Parser.expression table least) feed nodes rest :=
  yields_bound (h.delivers (feed.length + 1) (feed.length + 2) (by omega) (by omega))

/-- A statement is read as the rules read it. -/
theorem statement_of_reads (h : Reads table .statement feed nodes rest) :
    Gives (Parser.statement table) feed nodes rest :=
  yields_bound (h.delivers (feed.length + 1) (feed.length + 2) (by omega) (by omega))

end Retrace
