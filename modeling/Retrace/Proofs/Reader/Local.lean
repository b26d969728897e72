/-
Reading is local: what a phrase reads does not depend on what it leaves.

* `Follows` — feeds that may come after a phrase without adding to it.
* **`Reads.local`** — a phrase reads the same trees off the same tokens, whatever comes
  after them, as long as it begins in the same way or does not add to the phrase.

Design notes: only the tokens that could go on a phrase matter. An argument list goes on
an operand, `else` goes on a conditional, an operator goes on an expression of its level,
and so on outwards. A bracket that closes lets anything follow.
-/
import Retrace.Proofs.Operator.Grouping
import Retrace.Proofs.Reader.Phrase

namespace Retrace

variable {table : OperatorTable} {phrase : Phrase} {feed rest z : Feed} {nodes : List Node}

/-- Tokens that may come after an operand without adding to it. -/
def AfterOperand (t : Token) : Prop :=
  t ≠ .keyword .alternative ∧ t ≠ .mark .openParen

/-- Tokens that may come after an expression without adding to it. -/
def AfterExpression (table : OperatorTable) (least : Nat) (t : Token) : Prop :=
  AfterOperand t ∧ table.Loose least t

/-- Feeds that may come after a phrase without adding to it. -/
def Follows (table : OperatorTable) (phrase : Phrase) (z : Feed) : Prop :=
  match phrase with
  | .name | .delimited .. | .block | .function => True
  | .separated .parameter => ∃ t, z.next = some t ∧ t ≠ .mark .comma
  | .separated .expression =>
    ∃ t, z.next = some t ∧ t ≠ .mark .comma ∧ AfterExpression table 0 t
  | .statements => z.next = some (.mark .closeBrace)
  | .conditional | .alternative | .primary => ∃ t, z.next = some t ∧ t ≠ .keyword .alternative
  | .applied _ | .operand => ∃ t, z.next = some t ∧ AfterOperand t
  | .climb least _ | .expression least => ∃ t, z.next = some t ∧ AfterExpression table least t
  | .statement => ∃ t, z.next = some t ∧ AfterExpression table 0 t

/-- A feed in place of the rest of a phrase: it begins in the same way, or it does not add to
the phrase. -/
def InPlace (table : OperatorTable) (phrase : Phrase) (rest z : Feed) : Prop :=
  z.next = rest.next ∨ Follows table phrase z

theorem InPlace.imp {phrase' : Phrase} (h : InPlace table phrase rest z)
    (imp : Follows table phrase z → Follows table phrase' z) : InPlace table phrase' rest z :=
  h.elim .inl fun follows => .inr (imp follows)

/-- Where tokens are left to be read by what comes after a phrase, its rest begins as before. -/
theorem InPlace.append (u : Feed) (h : InPlace table phrase rest z) :
    InPlace table phrase (u ++ rest) (u ++ z) := by
  cases u with
  | nil => exact h
  | cons item u => exact .inl rfl

/-- What comes next, if it is as before or does not add to the phrase. -/
theorem InPlace.next {t : Token} (P : Token → Prop) (h : InPlace table phrase rest z)
    (before : rest.next = some t) (here : P t)
    (after : Follows table phrase z → ∃ t, z.next = some t ∧ P t) :
    ∃ t, z.next = some t ∧ P t := by
  rcases h with same | follows
  · exact ⟨t, same.trans before, here⟩
  · exact after follows

theorem loose_mark (m : Mark) (least : Nat) : table.Loose least (.mark m) :=
  fun _ _ h => nomatch h

theorem OperatorTable.Loose.mono {least least' : Nat} {t : Token} (h : table.Loose least t)
    (le : least ≤ least') : table.Loose least' t :=
  fun op binding here => Nat.lt_of_lt_of_le (h op binding here) le

/-! ### What may follow a phrase may follow its last part -/

namespace Follows

variable {least least' : Nat}

theorem item {item : Item} (h : Follows table (.separated item) z) :
    Follows table item.phrase z := by
  cases item with
  | parameter => trivial
  | expression => exact h.imp fun _ => And.imp_right And.right

theorem noComma {item : Item} (h : Follows table (.separated item) z) :
    ∃ t, z.next = some t ∧ t ≠ .mark .comma := by
  cases item with
  | parameter => exact h
  | expression => exact h.imp fun _ => And.imp_right And.left

/-- The brace that closes a block may follow any statement. -/
theorem lastStatement (h : Follows table .statements z) : Follows table .statement z :=
  ⟨_, h, ⟨by decide, by decide⟩, loose_mark _ _⟩

theorem primary (h : Follows table .operand z) : Follows table .primary z :=
  h.imp fun _ => And.imp_right And.left

/-- Where an expression ends, its last operand ends. -/
theorem operand (h : Follows table (.expression least) z) : Follows table .operand z :=
  h.imp fun _ => And.imp_right And.left

theorem conditional (h : Follows table .statement z) : Follows table .conditional z :=
  h.imp fun _ => And.imp_right fun after => after.1.1

/-- What may follow an expression of a level may follow those of higher levels. -/
theorem expression (h : Follows table (.expression least) z) (le : least ≤ least') :
    Follows table (.expression least') z :=
  h.imp fun _ => And.imp_right (And.imp_right (OperatorTable.Loose.mono · le))

theorem noParenthesis {function : Node} (h : Follows table (.applied function) z) :
    ∃ t, z.next = some t ∧ t ≠ .mark .openParen :=
  h.imp fun _ => And.imp_right And.right

theorem loose {left : Node} (h : Follows table (.climb least left) z) :
    ∃ t, z.next = some t ∧ table.Loose least t :=
  h.imp fun _ => And.imp_right And.right

end Follows

/-- A phrase that cannot be empty takes the item that it begins with. -/
theorem Reads.takes {u : Feed} (h : Reads table phrase (u ++ rest) nodes rest)
    (filled : 0 < phrase.least) : ∃ item u', u = item :: u' := by
  cases u with
  | nil =>
    have shorter := h.length_le
    rw [List.nil_append] at shorter
    omega
  | cons item u => exact ⟨item, u, rfl⟩

/-- **Reading is local.** -/
theorem Reads.local (h : Reads table phrase feed nodes rest) (place : InPlace table phrase rest z) :
    ∃ u, feed = u ++ rest ∧ Reads table phrase (u ++ z) nodes z := by
  -- each part is followed by the next one, or by what comes after the phrase in its place
  induction h generalizing z with
  | @name x => exact ⟨[_], rfl, .name⟩
  | last first after other ih =>
    obtain ⟨u, rfl, first'⟩ := ih (place.imp Follows.item)
    obtain ⟨t', next, other'⟩ := place.next (· ≠ .mark .comma) after other Follows.noComma
    exact ⟨u, rfl, .last first' next other'⟩
  | more first others ih₁ ih₂ =>
    obtain ⟨v, rfl, others'⟩ := ih₂ place
    obtain ⟨u, rfl, first'⟩ := @ih₁ (some (.mark .comma) :: (v ++ z)) (.inl rfl)
    exact ⟨u ++ some (.mark .comma) :: v, by simp, by simpa using .more first' others'⟩
  | nothing => exact ⟨[_, _], rfl, .nothing⟩
  | @items opening closing item _ _ _ filled inside ih =>
    obtain ⟨u, rfl, inside'⟩ := @ih (some (.mark closing) :: z) (.inl rfl)
    refine ⟨some (.mark opening) :: (u ++ [some (.mark closing)]), by simp, ?_⟩
    -- what begins with an item does not begin with the bracket that closes
    have filled' : Feed.next (u ++ some (.mark closing) :: z) ≠ some (.mark closing) := by
      cases u with
      | nil => exact absurd rfl filled
      | cons => exact filled
    simpa using Reads.items filled' inside'
  | noStatement =>
    have next : z.next = some (.mark .closeBrace) := place.elim id id
    obtain ⟨z, rfl⟩ := Feed.cons_of_next next nofun
    exact ⟨[], rfl, .noStatement⟩
  | terminated first others ih₁ ih₂ =>
    obtain ⟨v, rfl, others'⟩ := ih₂ place
    obtain ⟨u, rfl, first'⟩ := @ih₁ (some (.mark .semicolon) :: (v ++ z)) (.inl rfl)
    exact ⟨u ++ some (.mark .semicolon) :: v, by simp, by simpa using .terminated first' others'⟩
  | unterminated first after other ended others ih₁ ih₂ =>
    obtain ⟨v, rfl, others'⟩ := ih₂ place
    obtain ⟨u, rfl, first'⟩ := ih₁ ((place.imp Follows.lastStatement).append v)
    have separate : Follows table .statements (v ++ z) →
        ∃ t, Feed.next (v ++ z) = some t ∧ t ≠ .mark .semicolon := by
      intro next
      exact ⟨_, next, by decide⟩
    obtain ⟨t', next, other'⟩ :=
      (place.append v).next (· ≠ .mark .semicolon) after other separate
    exact ⟨u ++ v, by simp, by simpa using .unterminated first' next other' ended others'⟩
  | block inside ih =>
    obtain ⟨u, rfl, inside'⟩ := @ih (some (.mark .closeBrace) :: z) (.inl rfl)
    exact ⟨some (.mark .openBrace) :: (u ++ [some (.mark .closeBrace)]), by simp,
      by simpa using Reads.block inside'⟩
  | function first second ih₁ ih₂ =>
    obtain ⟨v, rfl, second'⟩ := ih₂ (.inr trivial)
    obtain ⟨u, rfl, first'⟩ := @ih₁ (v ++ z) (.inr trivial)
    exact ⟨u ++ v, by simp, by simpa using Reads.function first' second'⟩
  | conditional first second third ih₁ ih₂ ih₃ =>
    obtain ⟨w, rfl, third'⟩ := ih₃ (place.imp id)
    obtain ⟨v, rfl, second'⟩ := @ih₂ (w ++ z) (.inr trivial)
    obtain ⟨u, rfl, first'⟩ := @ih₁ (some (.mark .closeParen) :: (v ++ (w ++ z))) (.inl rfl)
    refine ⟨some (.keyword .conditional) :: some (.mark .openParen)
      :: (u ++ some (.mark .closeParen) :: (v ++ w)), by simp, ?_⟩
    simpa using Reads.conditional first' second' third'
  | noAlternative after other =>
    obtain ⟨t, next, other'⟩ := place.next (· ≠ .keyword .alternative) after other id
    exact ⟨[], rfl, .noAlternative next other'⟩
  | elseConditional second ih =>
    obtain ⟨u, same, second'⟩ := ih (place.imp id)
    -- the conditional begins with its keyword
    rw [same] at second
    obtain ⟨item, u, rfl⟩ := second.takes Nat.one_pos
    obtain ⟨rfl, rfl⟩ := List.cons.inj same
    exact ⟨some (.keyword .alternative) :: some (.keyword .conditional) :: u, rfl,
      .elseConditional second'⟩
  | elseBlock second ih =>
    obtain ⟨u, rfl, second'⟩ := ih (.inr trivial)
    exact ⟨some (.keyword .alternative) :: u, rfl, .elseBlock second'⟩
  | leaf isLeaf => exact ⟨[_], rfl, .leaf isLeaf⟩
  | primaryFunction second ih =>
    obtain ⟨u, rfl, second'⟩ := ih (.inr trivial)
    exact ⟨some (.keyword .function) :: u, rfl, .primaryFunction second'⟩
  | primaryConditional here ih =>
    obtain ⟨u, rfl, here'⟩ := ih (place.imp id)
    exact ⟨u, rfl, .primaryConditional here'⟩
  | parenthesized inside ih =>
    obtain ⟨u, rfl, inside'⟩ := @ih (some (.mark .closeParen) :: z) (.inl rfl)
    exact ⟨some (.mark .openParen) :: (u ++ [some (.mark .closeParen)]), by simp,
      by simpa using Reads.parenthesized inside'⟩
  | list inside ih =>
    obtain ⟨u, rfl, inside'⟩ := ih (.inr trivial)
    exact ⟨u, rfl, .list inside'⟩
  | primaryBlock here ih =>
    obtain ⟨u, rfl, here'⟩ := ih (.inr trivial)
    exact ⟨u, rfl, .primaryBlock here'⟩
  | unapplied after other =>
    obtain ⟨t, next, other'⟩ := place.next (· ≠ .mark .openParen) after other Follows.noParenthesis
    exact ⟨[], rfl, .unapplied next other'⟩
  | applied first second ih₁ ih₂ =>
    obtain ⟨v, rfl, second'⟩ := ih₂ place
    obtain ⟨u, rfl, first'⟩ := @ih₁ (v ++ z) (.inr trivial)
    exact ⟨u ++ v, by simp, by simpa using Reads.applied first' second'⟩
  | @signed t _ _ _ _ sign second ih =>
    obtain ⟨u, rfl, second'⟩ := ih place
    exact ⟨some t :: u, rfl, .signed sign second'⟩
  | operand first second ih₁ ih₂ =>
    obtain ⟨v, rfl, second'⟩ := ih₂ place
    obtain ⟨u, rfl, first'⟩ := ih₁ ((place.imp Follows.primary).append v)
    exact ⟨u ++ v, by simp, by simpa using Reads.operand first' second'⟩
  | stop after loose =>
    obtain ⟨t, next, loose'⟩ := place.next (table.Loose _) after loose Follows.loose
    exact ⟨[], rfl, .stop next loose'⟩
  | @climb least _ t _ binding _ _ _ _ _ sign tight first second ih₁ ih₂ =>
    obtain ⟨v, rfl, second'⟩ := ih₂ place
    have tighter : least ≤ binding.right := Nat.le_trans tight binding.level_le_right
    obtain ⟨u, rfl, first'⟩ :=
      ih₁ ((place.imp fun follows => Follows.expression follows tighter).append v)
    exact ⟨some t :: (u ++ v), by simp, by simpa using Reads.climb sign tight first' second'⟩
  | expression first second ih₁ ih₂ =>
    obtain ⟨v, rfl, second'⟩ := ih₂ place
    obtain ⟨u, rfl, first'⟩ := ih₁ ((place.imp Follows.operand).append v)
    exact ⟨u ++ v, by simp, by simpa using Reads.expression first' second'⟩
  | @definition x _ _ _ second ih =>
    obtain ⟨u, rfl, second'⟩ := ih place
    exact ⟨some (.keyword .define) :: some (.name x) :: some (.mark .assign) :: u, rfl,
      .definition second'⟩
  | @namedFunction x _ _ _ second ih =>
    obtain ⟨u, rfl, second'⟩ := ih (.inr trivial)
    exact ⟨some (.keyword .function) :: some (.name x) :: u, rfl, .namedFunction second'⟩
  | statementConditional here ih =>
    obtain ⟨u, rfl, here'⟩ := ih (place.imp Follows.conditional)
    exact ⟨u, rfl, .statementConditional here'⟩
  | statementBlock here ih =>
    obtain ⟨u, rfl, here'⟩ := ih (.inr trivial)
    exact ⟨u, rfl, .statementBlock here'⟩
  | statement first noConditional noBlock here ih =>
    obtain ⟨u, rfl, here'⟩ := ih place
    -- the statement begins with the same token, because it reads at least one
    obtain ⟨item, u, rfl⟩ := here.takes Nat.one_pos
    exact ⟨item :: u, rfl, .statement first noConditional noBlock here'⟩

end Retrace
