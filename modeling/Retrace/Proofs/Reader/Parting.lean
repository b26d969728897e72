/-
What reading has not come to makes no difference.

* `Cursor.Shares` — two cursors at the same place, before the same text up to where their
  texts part.
* `Cursor.Past` — a cursor that has looked beyond that.
* `Parting` — from two such cursors a parser does the same, unless it looks beyond.
* **`Composed.parting`** — so does every parser that is composed.
* **`nextStatement_parting`** — and so does that of the next statement.

Design notes: what comes after the place where the texts part can be longer in either of
them. So bounds that are taken from the number of tokens left are not compared. With bounds
that are large enough for both, the parser is the same.
-/
import Retrace.Proofs.Reader.Stopping

namespace Retrace

open Retrace.Parser

namespace Cursor

/-- Two cursors that looked at the same tokens, with the same before them up to where their texts
part. -/
structure Shares (back back' : List LexItem) (c c' : Cursor) : Prop where
  proper : c.Proper
  proper' : c'.Proper
  ahead : c'.ahead = c.ahead
  previous : c'.previous = c.previous
  upcoming : ∃ front, c.upcoming = front ++ back ∧ c'.upcoming = front ++ back'

/-- A cursor that looked beyond the place where its text parts from another, or at the end of
input. -/
def Past (back : List LexItem) (c : Cursor) : Prop :=
  c.upcoming.length < back.length ∨ ∃ lexeme ∈ c.ahead, lexeme.token = .eof

variable {back back' : List LexItem} {c c' : Cursor} {k : Nat}

theorem Step.past (step : Step k c c') (h : c.Past back) : c'.Past back := by
  rcases h with less | ⟨last, member, isEof⟩
  · cases step with
    | seen | dropped => exact .inl (Nat.lt_of_succ_lt less)
    | ended | consumed | stayed => exact .inl less
  · cases step with
    | seen | ended => exact .inr ⟨last, List.mem_append_left _ member, isEof⟩
    | dropped | stayed => exact .inr ⟨last, member, isEof⟩
    | consumed other =>
      refine .inr ⟨last, ?_, isEof⟩
      cases member with
      | head => exact absurd isEof other
      | tail _ member => exact member

theorem Reaches.past (h : c.Reaches k c') (past : c.Past back) : c'.Past back :=
  h.keeps Step.past past

end Cursor

section

variable {back back' : List LexItem} {α β : Type} {p : Parser α} {f : α → Parser β} {c c' : Cursor}

/-- Cursors that share what is before them, until the first looks beyond. -/
def parted (back back' : List LexItem) : Pairing :=
  ⟨id, Cursor.Shares back back', Cursor.Past back⟩

theorem ReadError.placed_id (e : ReadError) : e.placed id = e := by
  cases e <;> rfl

/-- A parser that makes steps does not find a way back. -/
theorem lost_of_past (moves : Moves none 0 p) (past : c.Past back) :
    (parted back back').Lost (p c) := by
  have here := moves c Cursor.sees_none
  unfold Comes at here
  unfold Pairing.Lost
  cases result : p c with
  | ok a c' =>
    rw [result] at here
    exact here.past past
  | error e c' =>
    rw [result] at here
    exact here.past past

/-- From cursors that share what is before them a parser comes to the same, unless it looks
beyond. -/
structure Parting (back back' : List LexItem) (p : Parser α) : Prop where
  moves : Moves none 0 p
  agree {c c' : Cursor} (shares : c.Shares back back' c') :
    (parted back back').Agree id (p c) (p c')

theorem parting_pure (a : α) : Parting back back' (pure a : Parser α) :=
  ⟨moves_pure a, fun shares => .inr ⟨_, rfl, shares⟩⟩

theorem parting_bind (first : Parting back back' p) (second : ∀ a, Parting back back' (f a)) :
    Parting back back' (p >>= f) := by
  refine ⟨moves_before first.moves fun a => (second a).moves, fun {c c'} shares => ?_⟩
  exact Pairing.agree_bind (first.agree shares)
    (fun a _ _ past => lost_of_past (second a).moves past)
    fun a _ _ _ shares' => (second a).agree shares'

theorem lookFurther_parting : Parting back back' lookFurther := by
  refine ⟨fun c _ => (lookFurther_comes c).mono fun _ _ => And.left, ?_⟩
  rintro ⟨ahead, upcoming, eof, previous⟩ ⟨_, _, eof', _⟩
    ⟨proper, proper', sameAhead, samePrevious, front, split, split'⟩
  simp only at sameAhead samePrevious split split'
  subst sameAhead samePrevious split split'
  rcases front with _ | ⟨item, front⟩
  · -- whatever is there, it is beyond what is shared
    rcases back with _ | ⟨error | lexeme, back⟩
    · exact .inl (.inr ⟨eof, by simp, proper.eof⟩)
    · exact .inl (.inl (Nat.lt_succ_self _))
    · exact .inl (.inl (Nat.lt_succ_self _))
  · rcases item with error | lexeme
    · exact .inr ⟨_, rfl, Cursor.Step.dropped.proper proper, Cursor.Step.dropped.proper proper',
        rfl, rfl, front, rfl, rfl⟩
    · exact .inr ⟨_, rfl, Cursor.Step.seen.proper proper, Cursor.Step.seen.proper proper',
        rfl, rfl, front, rfl, rfl⟩

theorem lookFurtherBy_parting (n : Nat) : Parting back back' (lookFurtherBy n) := by
  induction n with
  | zero => exact parting_pure ()
  | succ n ih => exact parting_bind lookFurther_parting fun _ => ih

/-- A look of the same length from both cursors, and what is made of the tokens looked at. -/
theorem agree_looked {n : Nat} {g g' : Unit → Parser α} (shares : c.Shares back back' c')
    (astray : ∀ c₁, c₁.Past back → c₁.ahead.length = c.ahead.length + n →
      (parted back back').Lost (g () c₁))
    (second : ∀ c₁ c₁', c₁.Shares back back' c₁' → c₁.ahead.length = c.ahead.length + n →
      (parted back back').Agree id (g () c₁) (g' () c₁')) :
    (parted back back').Agree id ((lookFurtherBy n >>= g) c) ((lookFurtherBy n >>= g') c') := by
  have length : ∀ {a : Unit} {c₁}, lookFurtherBy n c = .ok a c₁ →
      c₁.ahead.length = c.ahead.length + n := by
    intro a c₁ result
    have looked := lookFurtherBy_comes n c
    rw [Comes, result] at looked
    obtain ⟨_, more, split, many⟩ := looked
    rw [split, List.length_append, many]
  exact Pairing.agree_bind ((lookFurtherBy_parting n).agree shares)
    (fun _ c₁ result past => astray c₁ past (length result))
    fun _ c₁ c₁' result shares' => second c₁ c₁' shares' (length result)

theorem peekAt_parting (n : Nat) : Parting back back' (peekAt n) := by
  refine ⟨fun c _ => (peekAt_comes n c).mono fun _ _ => And.left, fun {c c'} shares => ?_⟩
  show (parted back back').Agree id
    ((lookFurtherBy (n + 1 - c.ahead.length) >>= fun _ c₁ =>
      .ok (c₁.ahead[n]?.getD c₁.eof).token c₁) c)
    ((lookFurtherBy (n + 1 - c'.ahead.length) >>= fun _ c₁ =>
      .ok (c₁.ahead[n]?.getD c₁.eof).token c₁) c')
  rw [shares.ahead]
  refine agree_looked shares (fun _ past _ => past) fun c₁ c₁' shares' length => ?_
  have far : n < c₁.ahead.length := by omega
  refine .inr ⟨c₁', ?_, shares'⟩
  rw [shares'.ahead, List.getElem?_eq_getElem far]
  rfl

theorem advance_parting : Parting back back' advance := by
  refine ⟨moves_advance, fun {c c'} shares => ?_⟩
  show (parted back back').Agree id
    ((lookFurtherBy (1 - c.ahead.length) >>= fun _ => takeNext) c)
    ((lookFurtherBy (1 - c'.ahead.length) >>= fun _ => takeNext) c')
  rw [shares.ahead]
  refine agree_looked shares (fun c₁ past length => ?_) fun c₁ c₁' shares' length => ?_
  · obtain ⟨ahead, upcoming, eof, previous⟩ := c₁
    cases ahead with
    | nil =>
      rw [List.length_nil] at length
      omega
    | cons lexeme ahead =>
      obtain ⟨_, step⟩ := Cursor.Step.taken lexeme ahead upcoming eof previous
      exact step.past past
  · obtain ⟨ahead, upcoming, eof, previous⟩ := c₁
    obtain ⟨ahead', upcoming', eof', previous'⟩ := c₁'
    obtain ⟨proper, proper', same, _, tokens⟩ := shares'
    simp only at same
    subst same
    cases ahead' with
    | nil =>
      rw [List.length_nil] at length
      omega
    | cons lexeme ahead =>
      exact .inr ⟨_, rfl, proper.advanced (some lexeme), proper'.advanced (some lexeme), rfl, rfl,
        tokens⟩

/-- **A parser that is composed does the same**, unless it looks beyond what is shared. -/
theorem Parser.Composed.parting (composed : Composed p) : Parting back back' p := by
  induction composed with
  | pure a => exact parting_pure a
  | bind first second ih₁ ih₂ => exact parting_bind ih₁ ih₂
  | unexpected expected =>
    refine ⟨moves_unexpected expected, fun {c c'} shares => .inr ⟨c', ?_, shares⟩⟩
    have span : c'.currentSpan = c.currentSpan := by
      rw [Cursor.currentSpan, Cursor.currentSpan, shares.ahead, shares.previous]
    have same : c'.unexpected expected = (c.unexpected expected).placed id := by
      rw [ReadError.placed_id, Cursor.unexpected, Cursor.unexpected, shares.ahead, span]
    exact congrArg (EStateM.Result.error · c') same
  | peekAt n => exact peekAt_parting n
  | advance => exact advance_parting
  | currentSpan =>
    refine ⟨moves_currentSpan, fun {c c'} shares => .inr ⟨c', ?_, shares⟩⟩
    show EStateM.Result.ok c'.currentSpan c' = _
    rw [Cursor.currentSpan, Cursor.currentSpan, shares.ahead, shares.previous]
    rfl
  | previousSpan =>
    refine ⟨moves_previousSpan, fun {c c'} shares => .inr ⟨c', ?_, shares⟩⟩
    show EStateM.Result.ok c'.previousSpan c' = _
    rw [Cursor.previousSpan, Cursor.previousSpan, shares.previous]
    rfl

/-! ### Statements -/

theorem parting_bound {f : Nat → Parser α} (steady : Steady f) (composed : ∀ n, Composed (f n)) :
    Parting back back' (Parser.bound >>= f) := by
  have parting : ∀ n, Parting back back' (f n) := fun n => (composed n).parting
  refine ⟨moves_bound fun n => (parting n).moves, fun {c c'} shares => ?_⟩
  show (parted back back').Agree id (f (c.remaining + 2) c) (f (c'.remaining + 2) c')
  -- both are read with a bound that is large enough for either
  let bound := c.remaining + c'.remaining + 2
  rw [steady c _ bound shares.proper (by omega) (by omega),
    steady c' _ bound shares.proper' (by omega) (by omega)]
  exact (parting bound).agree shares

/-- **The next statement is read in the same way**, unless reading looks beyond what is shared. -/
theorem nextStatement_parting (table : OperatorTable) :
    Parting back back' (Reader.nextStatement table) := by
  rw [nextStatement_eq]
  refine parting_bind (parting_bound skipSemicolons_steady Reader.skipSemicolons_composed)
    fun _ => parting_bind (check_composed .eof).parting fun last => ?_
  cases last with
  | true => exact parting_pure none
  | false =>
    exact parting_bind
      (parting_bound (statement_steady table) fun n => (Grammar.upTo_composed table n).statement)
      fun node => (Reader.ending_composed node).parting

end

end Retrace
