/-
What is begun can be finished.

* `Reads.taken` — what a phrase reads are tokens.
* `Viable` — the tokens up to a place of a feed can be gone on with.
* `Viable.here`, `Viable.token`, `Viable.close`, `Viable.after` — how this comes about: at the
  place itself, behind a token, from what is begun inside, and behind a phrase.
* `Begun`, `BegunAll` — a phrase is begun, and can be finished in front of whatever may
  follow it.
* `separated_begun_item` and so on — one lemma for each place at which reading a production
  can stop.

Design notes:
* What finishes a phrase is chosen once, at the place itself, and does not hang on what was
  read before it. What was read before is read again in front of it, because reading is
  local.
* Where nothing of a part was read, what finishes it may begin in any way. Operators are the
  only part for which this matters, and they are not begun without a token.
-/
import Retrace.Proofs.Reader.RoundTrip

namespace Retrace

open Node Token Feed

variable {table : OperatorTable} {phrase : Phrase} {feed feed' mid rest z : Feed} {node : Node}
  {nodes : List Node}

/-! ### What is read are tokens -/

/-- A feed that begins with tokens, and what is left behind them. -/
def Feed.Taken (feed rest : Feed) : Prop :=
  ∃ used : List Token, feed = inFront used rest

namespace Feed.Taken

theorem refl : Feed.Taken feed feed :=
  ⟨[], rfl⟩

theorem trans (first : Feed.Taken feed mid) (second : mid.Taken rest) : feed.Taken rest := by
  obtain ⟨used, rfl⟩ := first
  obtain ⟨used', rfl⟩ := second
  exact ⟨used ++ used', (inFront_append used used').symm⟩

theorem cons {t : Token} (h : Feed.Taken feed rest) : Feed.Taken (some t :: feed) rest := by
  obtain ⟨used, rfl⟩ := h
  exact ⟨t :: used, rfl⟩

/-- What is left behind one token more. -/
theorem behind {t : Token} (h : Feed.Taken feed (some t :: rest)) : feed.Taken rest :=
  h.trans (.cons .refl)

end Feed.Taken

/-- **What a phrase reads are tokens.** -/
theorem Reads.taken (h : Reads table phrase feed nodes rest) : feed.Taken rest := by
  induction h with
  | name | leaf => exact .cons .refl
  | nothing => exact .cons (.cons .refl)
  | noStatement | noAlternative | unapplied | stop => exact .refl
  | last _ _ _ ih | primaryConditional _ ih | list _ ih | primaryBlock _ ih
  | statementConditional _ ih | statementBlock _ ih | statement _ _ _ _ ih => exact ih
  | more _ _ ih₁ ih₂ | terminated _ _ ih₁ ih₂ => exact ih₁.behind.trans ih₂
  | unterminated _ _ _ _ _ ih₁ ih₂ | function _ _ ih₁ ih₂ | applied _ _ ih₁ ih₂
  | operand _ _ ih₁ ih₂ | expression _ _ ih₁ ih₂ => exact ih₁.trans ih₂
  | items _ _ ih | block _ ih | parenthesized _ ih => exact .cons ih.behind
  | conditional _ _ _ ih₁ ih₂ ih₃ => exact .cons (.cons (ih₁.behind.trans (ih₂.trans ih₃)))
  | elseConditional _ ih | elseBlock _ ih | primaryFunction _ ih | signed _ _ ih => exact .cons ih
  | climb _ _ _ _ ih₁ ih₂ => exact .cons (ih₁.trans ih₂)
  | definition _ ih => exact .cons (.cons (.cons ih))
  | namedFunction _ ih => exact .cons (.cons ih)

/-! ### Going on -/

/-- The tokens of a feed up to a place can be gone on with, so that what comes of it is related to
what is left, whatever that is. -/
def Viable (K : Feed → Feed → Prop) (feed rest : Feed) : Prop :=
  ∃ used more : List Token, feed = inFront used rest ∧ AllWritable more ∧
    ∀ z, K (inFront used (inFront more z)) z

/-- A token comes next, and what is behind it is related to what is left. -/
def Behind (t : Token) (K : Feed → Feed → Prop) (f z : Feed) : Prop :=
  ∃ f', f = some t :: f' ∧ K f' z

namespace Viable

variable {K K' : Feed → Feed → Prop}

/-- At the place itself. -/
theorem here (more : List Token) (writable : AllWritable more) (h : ∀ z, K (inFront more z) z) :
    Viable K rest rest :=
  ⟨[], more, rfl, writable, h⟩

/-- Behind a token. -/
theorem token {t : Token} (h : Viable K' feed rest) (imp : ∀ f z, K' f z → K (some t :: f) z) :
    Viable K (some t :: feed) rest := by
  obtain ⟨used, more, rfl, writable, h⟩ := h
  exact ⟨t :: used, more, rfl, writable, fun z => imp _ z (h z)⟩

/-- Behind a token that is part of what is related. -/
theorem behind {t : Token} (h : Viable K feed rest) :
    Viable (Behind t K) (some t :: feed) rest :=
  h.token fun f _ whole => ⟨f, rfl, whole⟩

/-- At the place itself, where a single token is missing. -/
theorem missing {t : Token} (writable : t.Writable) : Viable (Behind t Eq) rest rest :=
  .here [t] (AllWritable.cons.mpr ⟨writable, .nil⟩) fun z => ⟨z, rfl, rfl⟩

/-- From what was begun inside, with tokens that come after it. -/
theorem close (post : List Token) (writable : AllWritable post) (h : Viable K' feed rest)
    (imp : ∀ f z, K' f (inFront post z) → K f z) : Viable K feed rest := by
  obtain ⟨used, more, rfl, writable', h⟩ := h
  refine ⟨used, more ++ post, rfl, AllWritable.append.mpr ⟨writable', writable⟩, fun z => ?_⟩
  rw [inFront_append]
  exact imp _ z (h _)

theorem imp (h : Viable K' feed rest) (le : ∀ f z, K' f z → K f z) : Viable K feed rest :=
  h.close [] .nil le

/-- Behind a phrase, which is read in front of what goes on as well. -/
theorem after (first : Reads table phrase feed nodes mid) (h : Viable K' mid rest)
    (imp : ∀ f z feed', K' f z →
      (InPlace table phrase mid f → Reads table phrase feed' nodes f) → K feed' z) :
    Viable K feed rest := by
  obtain ⟨front, rfl⟩ := first.taken
  obtain ⟨used, more, rfl, writable, h⟩ := h
  refine ⟨front ++ used, more, (inFront_append front used).symm, writable, fun z => ?_⟩
  rw [inFront_append]
  refine imp _ z _ (h z) fun place => ?_
  obtain ⟨u, same, reads⟩ := first.local place
  obtain rfl := List.append_cancel_right same
  exact reads

/-- What goes on begins as the feed does, unless nothing of the feed was used. -/
theorem cases (h : Viable K feed rest) :
    feed = rest ∨ Viable (fun f z => f.next = feed.next ∧ K f z) feed rest := by
  obtain ⟨used, more, rfl, writable, h⟩ := h
  cases used with
  | nil => exact .inl rfl
  | cons t used => exact .inr ⟨t :: used, more, rfl, writable, fun z => ⟨rfl, h z⟩⟩

end Viable

/-- A phrase reads a tree up to a feed that may follow it. -/
def Whole (table : OperatorTable) (phrase : Phrase) (f z : Feed) : Prop :=
  Follows table phrase z → ∃ node, Reads table phrase f [node] z

/-- A phrase reads trees up to a feed that may follow it. -/
def WholeAll (table : OperatorTable) (phrase : Phrase) (f z : Feed) : Prop :=
  Follows table phrase z → ∃ nodes, Reads table phrase f nodes z

/-- The tokens of a feed up to a place begin a phrase that reads a tree. -/
def Begun (table : OperatorTable) (phrase : Phrase) (feed rest : Feed) : Prop :=
  Viable (Whole table phrase) feed rest

/-- The tokens of a feed up to a place begin a phrase that reads trees. -/
def BegunAll (table : OperatorTable) (phrase : Phrase) (feed rest : Feed) : Prop :=
  Viable (WholeAll table phrase) feed rest

section

variable {t : Token}

/-- A token comes after the tree that is begun. -/
theorem Begun.closed (h : Begun table phrase feed rest) (writable : t.Writable)
    (follows : ∀ z, Follows table phrase (some t :: z)) :
    Viable (fun f z => ∃ node, Reads table phrase f [node] (some t :: z)) feed rest :=
  h.close [t] (AllWritable.cons.mpr ⟨writable, .nil⟩) fun _ _ whole => whole (follows _)

/-- A token comes after the trees that are begun. -/
theorem BegunAll.closed (h : BegunAll table phrase feed rest) (writable : t.Writable)
    (follows : ∀ z, Follows table phrase (some t :: z)) :
    Viable (fun f z => ∃ nodes, Reads table phrase f nodes (some t :: z)) feed rest :=
  h.close [t] (AllWritable.cons.mpr ⟨writable, .nil⟩) fun _ _ whole => whole (follows _)

/-- Where only a token is missing that comes after a phrase. -/
theorem Reads.closed (h : Reads table phrase feed nodes rest) (writable : t.Writable)
    (follows : ∀ z, Follows table phrase (some t :: z)) :
    Viable (fun f z => Reads table phrase f nodes (some t :: z)) feed rest := by
  refine (Viable.missing writable).after h ?_
  rintro _ _ feed ⟨z, rfl, rfl⟩ reads
  exact reads (.inr (follows z))

end

theorem reads_true : Reads table .primary (some (.bool true) :: z) [.atom (.bool true) default] z :=
  .leaf rfl

theorem Whole.operand (h : Whole table .primary feed z) : Whole table .operand feed z := by
  intro after
  obtain ⟨node, reads⟩ := h after.primary
  exact ⟨node, reads.operand_of_primary after⟩

theorem Whole.expression {least : Nat} (h : Whole table .operand feed z) :
    Whole table (.expression least) feed z := by
  rintro ⟨t, next, operand, loose⟩
  obtain ⟨node, reads⟩ := h ⟨t, next, operand⟩
  exact ⟨node, .expression reads (.stop next loose)⟩

/-- An expression where none was begun. -/
theorem whole_true {least : Nat} : Whole table (.expression least) (some (.bool true) :: z) z :=
  Whole.expression (Whole.operand fun _ => ⟨_, reads_true⟩)

/-! ### Names and what stands between commas -/

theorem name_begun : Begun table .name rest rest :=
  .here [.name "x"] (AllWritable.cons.mpr ⟨rfl, .nil⟩) fun _ _ => ⟨_, .name⟩

section

variable {item : Item} {opening closing : Mark}

theorem separated_begun_item (h : Begun table item.phrase feed rest) :
    BegunAll table (.separated item) feed rest := by
  refine h.imp fun f z whole after => ?_
  have follows : Follows table item.phrase z ∧ ∃ t, z.next = some t ∧ t ≠ .mark .comma := by
    cases item with
    | parameter => exact ⟨trivial, after⟩
    | expression =>
      obtain ⟨t, next, other, ends⟩ := after
      exact ⟨⟨t, next, ends⟩, t, next, other⟩
  obtain ⟨t, next, other⟩ := follows.2
  obtain ⟨node, reads⟩ := whole follows.1
  exact ⟨_, .last reads next other⟩

theorem separated_begun_others
    (first : Reads table item.phrase feed [node] (some (.mark .comma) :: feed'))
    (h : BegunAll table (.separated item) feed' rest) :
    BegunAll table (.separated item) feed rest := by
  refine h.behind.after first ?_
  rintro _ z feed ⟨f, rfl, whole⟩ reads after
  obtain ⟨nodes, others⟩ := whole after
  exact ⟨_, .more (reads (.inl rfl)) others⟩

theorem Item.follows_separated (closes : closing = .closeParen ∨ closing = .closeBracket) :
    Follows table (.separated item) (some (.mark closing) :: z) := by
  have other : Token.mark closing ≠ .mark .comma := by rcases closes with rfl | rfl <;> decide
  cases item with
  | parameter => exact ⟨_, rfl, other⟩
  | expression =>
    have follows : Follows table Item.expression.phrase (some (.mark closing) :: z) :=
      Item.follows closes
    obtain ⟨t, next, ends⟩ := follows
    obtain rfl := Option.some.inj next
    exact ⟨_, rfl, other, ends⟩

/-- What stands between commas does not begin as brackets close. -/
theorem Reads.between (closes : closing = .closeParen ∨ closing = .closeBracket)
    (inside : Reads table (.separated item) feed nodes (some (.mark closing) :: rest)) :
    Reads table (.delimited opening closing item) (some (.mark opening) :: feed) nodes rest := by
  refine .items ?_ inside
  obtain ⟨t, next, begins⟩ := inside.separated_next
  rw [next]
  rintro same
  rw [Option.some.inj same] at begins
  rcases closes with rfl | rfl <;> exact absurd begins Bool.false_ne_true

theorem delimited_begun_opening : BegunAll table (.delimited opening closing item) rest rest :=
  .here [.mark opening, .mark closing] (by simp [Token.Writable]) fun _ _ => ⟨_, .nothing⟩

theorem delimited_begun_items (closes : closing = .closeParen ∨ closing = .closeBracket)
    (h : BegunAll table (.separated item) feed rest) :
    BegunAll table (.delimited opening closing item) (some (.mark opening) :: feed) rest := by
  have closed := h.closed (t := .mark closing) trivial fun _ => Item.follows_separated closes
  exact closed.token fun f z inside _ => inside.imp fun nodes inside => inside.between closes

theorem delimited_begun_closing (closes : closing = .closeParen ∨ closing = .closeBracket)
    (inside : Reads table (.separated item) feed nodes rest) :
    BegunAll table (.delimited opening closing item) (some (.mark opening) :: feed) rest := by
  have closed := inside.closed (t := .mark closing) trivial fun _ => Item.follows_separated closes
  exact closed.token fun f z inside _ => ⟨nodes, inside.between closes⟩

end

/-! ### Statements between braces -/

theorem statements_begun_statement (h : Begun table .statement feed rest) :
    BegunAll table .statements feed rest := by
  have closed := h.closed (t := .mark .semicolon) trivial fun _ => follows_expression (by decide)
  refine closed.imp ?_
  rintro f z ⟨node, reads⟩ next
  obtain ⟨z, rfl⟩ := Feed.cons_of_next next nofun
  exact ⟨_, .terminated reads .noStatement⟩

theorem statements_begun_semicolon (first : Reads table .statement feed [node] rest) :
    BegunAll table .statements feed rest := by
  have closed := first.closed (t := .mark .semicolon) trivial fun _ =>
    follows_expression (by decide)
  refine closed.imp fun f z reads next => ?_
  obtain ⟨z, rfl⟩ := Feed.cons_of_next next nofun
  exact ⟨_, .terminated reads .noStatement⟩

theorem statements_begun_others
    (first : Reads table .statement feed [node] (some (.mark .semicolon) :: feed'))
    (h : BegunAll table .statements feed' rest) : BegunAll table .statements feed rest := by
  refine h.behind.after first ?_
  rintro _ z feed ⟨f, rfl, whole⟩ reads after
  obtain ⟨nodes, others⟩ := whole after
  exact ⟨_, .terminated (reads (.inl rfl)) others⟩

theorem statements_begun_ended {t : Token} (first : Reads table .statement feed [node] feed')
    (next : feed'.next = some t) (other : t ≠ .mark .semicolon) (ended : node.endsWithBlock)
    (h : BegunAll table .statements feed' rest) : BegunAll table .statements feed rest := by
  -- where nothing of the others was read, a semicolon can stand
  obtain rfl | going := h.cases
  · exact statements_begun_semicolon first
  · refine going.after first ?_
    rintro f z feed ⟨same, whole⟩ reads after
    obtain ⟨nodes, others⟩ := whole after
    exact ⟨_, .unterminated (reads (.inl same)) (same.trans next) other ended others⟩

theorem block_begun_opening : Begun table .block rest rest :=
  .here [.mark .openBrace, .mark .closeBrace] (by simp [Token.Writable]) fun _ _ =>
    ⟨_, .block .noStatement⟩

theorem block_begun_statements (h : BegunAll table .statements feed rest) :
    Begun table .block (some (.mark .openBrace) :: feed) rest := by
  refine (h.closed (t := .mark .closeBrace) trivial fun _ => rfl).token ?_
  rintro f z ⟨nodes, inside⟩ _
  exact ⟨_, .block inside⟩

/-! ### Functions and conditionals -/

theorem function_begun_parameters
    (h : BegunAll table (.delimited .openParen .closeParen .parameter) feed rest) :
    Begun table .function feed rest := by
  refine h.close [.mark .openBrace, .mark .closeBrace] (by simp [Token.Writable])
    fun f z whole _ => ?_
  obtain ⟨params, first⟩ := whole trivial
  exact ⟨_, .function first (.block .noStatement)⟩

theorem function_begun_body
    (first : Reads table (.delimited .openParen .closeParen .parameter) feed nodes feed')
    (h : Begun table .block feed' rest) : Begun table .function feed rest := by
  refine h.after first fun f z feed whole reads _ => ?_
  obtain ⟨body, second⟩ := whole trivial
  exact ⟨_, .function (reads (.inr trivial)) second⟩

/-- A conditional from its condition on. -/
def Condition (table : OperatorTable) (f z : Feed) : Prop :=
  Follows table .conditional z → ∃ condition f' consequent f'' alternative,
    Reads table (.expression 0) f [condition] (some (.mark .closeParen) :: f') ∧
      Reads table .block f' [consequent] f'' ∧ Reads table .alternative f'' [alternative] z

theorem conditional_begun (h : Viable (Behind (.mark .openParen) (Condition table)) feed rest) :
    Begun table .conditional (some (.keyword .conditional) :: feed) rest := by
  refine h.token ?_
  rintro _ z ⟨f, rfl, whole⟩ after
  obtain ⟨_, _, _, _, _, first, second, third⟩ := whole after
  exact ⟨_, .conditional first second third⟩

/-- Where there is no `else`, the alternative is left out. -/
theorem whole_noAlternative : Whole table .alternative z z :=
  fun ⟨_, next, other⟩ => ⟨_, .noAlternative next other⟩

theorem conditional_begun_opening :
    Begun table .conditional (some (.keyword .conditional) :: rest) rest := by
  refine conditional_begun (.here [.mark .openParen, .bool true, .mark .closeParen,
    .mark .openBrace, .mark .closeBrace] (by simp [Token.Writable]) fun z => ⟨_, rfl, ?_⟩)
  intro after
  obtain ⟨condition, first⟩ := @whole_true table (some (.mark .closeParen) :: _) 0
    (follows_expression (by decide))
  obtain ⟨alternative, third⟩ := whole_noAlternative after
  exact ⟨_, _, _, _, _, first, .block .noStatement, third⟩

theorem condition_begun (h : Begun table (.expression 0) feed rest) :
    Viable (Condition table) feed rest := by
  refine h.close [.mark .closeParen, .mark .openBrace, .mark .closeBrace]
    (by simp [Token.Writable]) fun f z whole after => ?_
  obtain ⟨condition, first⟩ := whole (follows_expression (by decide))
  obtain ⟨alternative, third⟩ := whole_noAlternative after
  exact ⟨_, _, _, _, _, first, .block .noStatement, third⟩

theorem condition_begun_closing (first : Reads table (.expression 0) feed [node] rest) :
    Viable (Condition table) feed rest := by
  have closed : Viable (fun f z => f = some (.mark .closeParen) :: some (.mark .openBrace) ::
      some (.mark .closeBrace) :: z) rest rest :=
    .here [.mark .closeParen, .mark .openBrace, .mark .closeBrace] (by simp [Token.Writable])
      fun _ => rfl
  refine closed.after first ?_
  rintro _ z feed rfl reads after
  obtain ⟨alternative, third⟩ := whole_noAlternative after
  exact ⟨_, _, _, _, _, reads (.inr (follows_expression (by decide))), .block .noStatement, third⟩

/-- A conditional from its consequent on. -/
def Consequent (table : OperatorTable) (f z : Feed) : Prop :=
  Follows table .conditional z → ∃ consequent f' alternative,
    Reads table .block f [consequent] f' ∧ Reads table .alternative f' [alternative] z

theorem condition_begun_consequent
    (first : Reads table (.expression 0) feed [node] (some (.mark .closeParen) :: feed'))
    (h : Viable (Consequent table) feed' rest) : Viable (Condition table) feed rest := by
  refine h.behind.after first ?_
  rintro _ z feed ⟨f, rfl, whole⟩ reads after
  obtain ⟨_, _, _, second, third⟩ := whole after
  exact ⟨_, _, _, _, _, reads (.inl rfl), second, third⟩

theorem consequent_begun (h : Begun table .block feed rest) :
    Viable (Consequent table) feed rest := by
  refine h.imp fun f z whole after => ?_
  obtain ⟨consequent, second⟩ := whole trivial
  obtain ⟨alternative, third⟩ := whole_noAlternative after
  exact ⟨_, _, _, second, third⟩

theorem consequent_begun_alternative (second : Reads table .block feed [node] feed')
    (h : Begun table .alternative feed' rest) : Viable (Consequent table) feed rest := by
  refine h.after second fun f z feed whole reads after => ?_
  obtain ⟨alternative, third⟩ := whole after
  exact ⟨_, _, _, reads (.inr trivial), third⟩

theorem alternative_begun_conditional (h : Begun table .conditional feed rest) :
    Begun table .alternative (some (.keyword .alternative) :: feed) rest := by
  refine h.token fun f z whole after => ?_
  obtain ⟨node, second⟩ := whole after
  obtain ⟨f, rfl⟩ := second.conditional_inv
  exact ⟨node, .elseConditional second⟩

theorem alternative_begun_block (h : Begun table .block feed rest) :
    Begun table .alternative (some (.keyword .alternative) :: feed) rest := by
  refine h.token fun f z whole _ => ?_
  obtain ⟨node, second⟩ := whole trivial
  exact ⟨node, .elseBlock second⟩

/-! ### Operands -/

theorem primary_begun : Begun table .primary rest rest :=
  .here [.bool true] (by simp [Token.Writable]) fun _ _ => ⟨_, reads_true⟩

theorem primary_begun_name (h : Begun table .name feed rest) : Begun table .primary feed rest := by
  refine h.imp fun f z whole _ => ?_
  obtain ⟨node, reads⟩ := whole trivial
  obtain ⟨x, rfl, _⟩ := reads.name_inv
  exact ⟨_, .leaf rfl⟩

theorem primary_begun_function (h : Begun table .function feed rest) :
    Begun table .primary (some (.keyword .function) :: feed) rest :=
  h.token fun _ _ whole _ => (whole trivial).imp fun _ => .primaryFunction

theorem primary_begun_conditional (h : Begun table .conditional feed rest) :
    Begun table .primary feed rest :=
  h.imp fun _ _ whole after => (whole after).imp fun _ => .primaryConditional

theorem primary_begun_inside (h : Begun table (.expression 0) feed rest) :
    Begun table .primary (some (.mark .openParen) :: feed) rest := by
  have closed := h.closed (t := .mark .closeParen) trivial fun _ => follows_expression (by decide)
  exact closed.token fun f z inside _ => inside.imp fun _ => .parenthesized

theorem primary_begun_closing (inside : Reads table (.expression 0) feed [node] rest) :
    Begun table .primary (some (.mark .openParen) :: feed) rest := by
  have closed := inside.closed (t := .mark .closeParen) trivial fun _ =>
    follows_expression (by decide)
  exact closed.token fun f z inside _ => ⟨node, .parenthesized inside⟩

theorem primary_begun_list
    (h : BegunAll table (.delimited .openBracket .closeBracket .expression) feed rest) :
    Begun table .primary feed rest := by
  refine h.imp fun f z whole _ => ?_
  obtain ⟨nodes, inside⟩ := whole trivial
  exact ⟨_, .list inside⟩

theorem primary_begun_block (h : Begun table .block feed rest) : Begun table .primary feed rest :=
  h.imp fun _ _ whole _ => (whole trivial).imp fun _ => .primaryBlock

theorem applied_begun_arguments {function : Node}
    (h : BegunAll table (.delimited .openParen .closeParen .expression) feed rest) :
    Begun table (.applied function) feed rest := by
  refine h.imp fun f z whole after => ?_
  obtain ⟨args, first⟩ := whole trivial
  obtain ⟨t, next, _, other⟩ := after
  exact ⟨_, .applied first (.unapplied next other)⟩

theorem applied_begun_others {function : Node}
    (first : Reads table (.delimited .openParen .closeParen .expression) feed nodes feed')
    (h : Begun table (.applied (call function nodes)) feed' rest) :
    Begun table (.applied function) feed rest := by
  refine h.after first fun f z feed whole reads after => ?_
  obtain ⟨node, second⟩ := whole after
  exact ⟨node, .applied (reads (.inr trivial)) second⟩

theorem operand_begun_signed {t : Token} {op : String} (sign : t.before? = some op)
    (h : Begun table .operand feed rest) : Begun table .operand (some t :: feed) rest := by
  refine h.token fun f z whole after => ?_
  obtain ⟨node, second⟩ := whole after
  exact ⟨_, .signed sign second⟩

theorem operand_begun_primary (h : Begun table .primary feed rest) :
    Begun table .operand feed rest :=
  h.imp fun _ _ => Whole.operand

/-- Argument lists, or what follows an operand, do not begin with `else`. -/
theorem Reads.applied_next {function : Node} (h : Reads table (.applied function) feed [node] z)
    (after : Follows table (.applied function) z) : Follows table .primary feed := by
  cases h with
  | unapplied => exact Follows.primary after
  | applied first _ =>
    obtain ⟨feed', rfl⟩ := first.delimited_inv
    exact ⟨_, rfl, nofun⟩

theorem operand_begun_applied (first : Reads table .primary feed [node] feed')
    (h : Begun table (.applied node) feed' rest) : Begun table .operand feed rest := by
  refine h.after first fun f z feed whole reads after => ?_
  obtain ⟨node', second⟩ := whole after
  exact ⟨node', .operand (reads (.inr (second.applied_next after))) second⟩

/-! ### Operators -/

/-- The tokens of a feed up to a place begin operators with operands to their right. What finishes
them begins with the same operator. -/
def BegunClimb (table : OperatorTable) (least : Nat) (left : Node) (feed rest : Feed) : Prop :=
  Viable (fun f z => f.next = feed.next ∧ Whole table (.climb least left) f z) feed rest

section

variable {t : Token} {op : String} {binding : Binding} {least : Nat} {left : Node}

theorem climb_begun_right (sign : table.operator? t = some (op, binding))
    (tight : least ≤ binding.level) (h : Begun table (.expression binding.right) feed rest) :
    BegunClimb table least left (some t :: feed) rest := by
  refine h.token fun f z whole => ⟨rfl, ?_⟩
  rintro ⟨t', next, operand, loose⟩
  have within : least ≤ binding.right := Nat.le_trans tight binding.level_le_right
  obtain ⟨right, first⟩ := whole ⟨t', next, operand, loose.mono within⟩
  exact ⟨_, .climb sign tight first (.stop next loose)⟩

theorem climb_begun_others (sign : table.operator? t = some (op, binding))
    (tight : least ≤ binding.level)
    (first : Reads table (.expression binding.right) feed [node] feed')
    (h : BegunClimb table least (call (named op) [left, node]) feed' rest) :
    BegunClimb table least left (some t :: feed) rest := by
  have right : Viable (fun f z => Follows table (.climb least left) z → ∃ f' node',
      Reads table (.expression binding.right) f [node] f' ∧
        Reads table (.climb least (call (named op) [left, node])) f' [node'] z) feed rest := by
    refine h.after first ?_
    rintro f z feed ⟨same, whole⟩ reads after
    obtain ⟨node', second⟩ := whole after
    exact ⟨f, node', reads (.inl same), second⟩
  refine right.token fun f z whole => ⟨rfl, fun after => ?_⟩
  obtain ⟨f', node', first, second⟩ := whole after
  exact ⟨node', .climb sign tight first second⟩

theorem expression_begun_operand (h : Begun table .operand feed rest) :
    Begun table (.expression least) feed rest :=
  h.imp fun _ _ => Whole.expression

theorem expression_begun_climb (first : Reads table .operand feed [left] feed')
    (h : BegunClimb table least left feed' rest) : Begun table (.expression least) feed rest := by
  refine h.after first ?_
  rintro f z feed ⟨same, whole⟩ reads after
  obtain ⟨node, second⟩ := whole after
  exact ⟨node, .expression (reads (.inl same)) second⟩

end

/-! ### Statements -/

section

variable {x : String}

theorem definition_begun (h : Begun table (.expression 0) feed rest) :
    Begun table .statement
      (some (.keyword .define) :: some (.name x) :: some (.mark .assign) :: feed) rest := by
  obtain ⟨used, more, rfl, writable, h⟩ := h
  refine ⟨.keyword .define :: .name x :: .mark .assign :: used, more, rfl, writable,
    fun z after => ?_⟩
  obtain ⟨value, second⟩ := h z after
  exact ⟨_, .definition second⟩

theorem definition_begun_name (h : Begun table .name feed rest) :
    Begun table .statement (some (.keyword .define) :: feed) rest := by
  have valued : Viable (fun f z => Follows table .statement z → ∃ x value f',
      f = some (.name x) :: some (.mark .assign) :: f' ∧
        Reads table (.expression 0) f' [value] z) feed rest := by
    refine h.close [.mark .assign, .bool true] (by simp [Token.Writable]) fun f z whole after => ?_
    obtain ⟨node, first⟩ := whole trivial
    obtain ⟨x, rfl, _⟩ := first.name_inv
    obtain ⟨value, second⟩ := whole_true after
    exact ⟨x, value, _, rfl, second⟩
  refine valued.token fun f z whole after => ?_
  obtain ⟨x, value, f, rfl, second⟩ := whole after
  exact ⟨_, .definition second⟩

theorem definition_begun_assign :
    Begun table .statement (some (.keyword .define) :: some (.name x) :: rest) rest := by
  refine ⟨[.keyword .define, .name x], [.mark .assign, .bool true], rfl,
    by simp [Token.Writable], fun z after => ?_⟩
  obtain ⟨value, second⟩ := whole_true after
  exact ⟨_, .definition second⟩

theorem namedFunction_begun_name (h : Begun table .name feed rest) :
    Begun table .statement (some (.keyword .function) :: feed) rest := by
  have followed : Viable (fun f z => ∃ x function f', f = some (.name x) :: f' ∧
      Reads table .function f' [function] z) feed rest := by
    refine h.close [.mark .openParen, .mark .closeParen, .mark .openBrace, .mark .closeBrace]
      (by simp [Token.Writable]) fun f z whole => ?_
    obtain ⟨node, first⟩ := whole trivial
    obtain ⟨x, rfl, _⟩ := first.name_inv
    exact ⟨x, _, _, rfl, .function .nothing (.block .noStatement)⟩
  refine followed.token ?_
  rintro _ z ⟨x, function, f, rfl, second⟩ _
  exact ⟨_, .namedFunction second⟩

theorem namedFunction_begun (h : Begun table .function feed rest) :
    Begun table .statement (some (.keyword .function) :: some (.name x) :: feed) rest := by
  obtain ⟨used, more, rfl, writable, h⟩ := h
  refine ⟨.keyword .function :: .name x :: used, more, rfl, writable, fun z after => ?_⟩
  obtain ⟨function, second⟩ := h z trivial
  exact ⟨_, .namedFunction second⟩

end

theorem statement_begun_conditional (h : Begun table .conditional feed rest) :
    Begun table .statement feed rest := by
  refine h.imp fun f z whole after => ?_
  obtain ⟨node, here⟩ := whole after.conditional
  exact ⟨node, .statementConditional here⟩

theorem statement_begun_block (h : Begun table .block feed rest) :
    Begun table .statement feed rest :=
  h.imp fun _ _ whole _ => (whole trivial).imp fun _ => .statementBlock

theorem statement_begun_expression {t : Token} (next : feed.next = some t)
    (noConditional : t ≠ .keyword .conditional) (noBlock : t ≠ .mark .openBrace)
    (h : Begun table (.expression 0) feed rest) : Begun table .statement feed rest := by
  -- where nothing was read, any expression will do
  obtain rfl | going := h.cases
  · refine .here [.bool true] (by simp [Token.Writable]) fun z after => ?_
    obtain ⟨node, here⟩ := whole_true after
    exact ⟨node, .statement rfl nofun nofun here⟩
  · refine going.imp ?_
    rintro f z ⟨same, whole⟩ after
    obtain ⟨node, here⟩ := whole after
    exact ⟨node, .statement (same.trans next) noConditional noBlock here⟩

end Retrace
