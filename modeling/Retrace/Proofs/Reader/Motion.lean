/-
What parsers do to a cursor.

* `Cursor.Step` — the steps of a cursor: it looks at a token more, passes over a piece
  that is none, or consumes a token.
* `Cursor.Reaches` — the cursors that steps lead to, and how many tokens were consumed at
  least.
* `Ends`, `Comes` — what a parser comes to from one cursor, and where it is if it stops.
* `Moves` — a parser makes steps, however it ends.
* `moves_bind`, `moves_peek` and so on — the steps that parsers are made of.
* **`Grammar.upTo_moves`** — statements and expressions make steps, and consume a token if
  there is a result.
* **`Reader.read_reaches`**, **`Reader.skip_reaches`** — so do the operations of readers.

Design notes:
* `Moves` says nothing about results. What a step keeps, every operation of a reader
  keeps, and this is what these lemmas are for.
* Errors leave a cursor that steps lead to as well, because reading may go on there.
* What a parser does may hang on the token it was called for. `Sees` is that knowledge.
-/
import Retrace.Proofs.Reader.Feed
import Retrace.Reader.Basic

namespace Retrace

namespace Cursor

/-- One step of a cursor, and the number of tokens that it consumes. -/
inductive Step : Nat → Cursor → Cursor → Prop
  /-- A token is looked at. -/
  | seen {ahead lexeme upcoming eof previous} :
      Step 0 ⟨ahead, .ok lexeme :: upcoming, eof, previous⟩
        ⟨ahead ++ [lexeme], upcoming, eof, previous⟩
  /-- The end of input is looked at. -/
  | ended {ahead eof previous} :
      Step 0 ⟨ahead, [], eof, previous⟩ ⟨ahead ++ [eof], [], eof, previous⟩
  /-- A piece that is no token is passed over. -/
  | dropped {ahead error upcoming eof previous} :
      Step 0 ⟨ahead, .error error :: upcoming, eof, previous⟩ ⟨ahead, upcoming, eof, previous⟩
  /-- A token is consumed. -/
  | consumed {lexeme ahead upcoming eof previous} (other : lexeme.token ≠ .eof) :
      Step 1 ⟨lexeme :: ahead, upcoming, eof, previous⟩ ⟨ahead, upcoming, eof, some lexeme⟩
  /-- The end of input is advanced to. It stays where it is. -/
  | stayed {lexeme ahead upcoming eof previous} (last : lexeme.token = .eof) :
      Step 0 ⟨lexeme :: ahead, upcoming, eof, previous⟩
        ⟨lexeme :: ahead, upcoming, eof, some lexeme⟩

/-- Steps lead from one cursor to another, and consume a number of tokens at least. -/
inductive Reaches (c : Cursor) : Nat → Cursor → Prop
  | refl : Reaches c 0 c
  | step {i j k c' c''} (before : Reaches c i c') (last : Step j c' c'') (enough : k ≤ i + j) :
      Reaches c k c''

variable {c c' c'' : Cursor} {i j k : Nat}

theorem Step.reaches (h : Step k c c') : c.Reaches k c' :=
  .step .refl h (by omega)

theorem Reaches.mono (h : c.Reaches j c') (le : k ≤ j) : c.Reaches k c' := by
  cases h with
  | refl =>
    obtain rfl : k = 0 := by omega
    exact .refl
  | step before last enough => exact .step before last (by omega)

theorem Reaches.trans (first : c.Reaches i c') (second : c'.Reaches j c'') :
    c.Reaches (i + j) c'' := by
  induction second with
  | refl => exact first
  | step before last enough ih => exact .step ih last (by omega)

/-- What every step keeps is kept. -/
theorem Reaches.keeps {I : Cursor → Prop} (step : ∀ {k c c'}, Step k c c' → I c → I c')
    (h : c.Reaches k c') (here : I c) : I c' := by
  induction h with
  | refl => exact here
  | step _ last _ ih => exact step last ih

/-- The token at the head of what was looked at is advanced to. -/
theorem Step.taken (lexeme : Lexeme) (ahead : List Lexeme) (upcoming : List LexItem)
    (eof : Lexeme) (previous : Option Lexeme) :
    ∃ k, Step k ⟨lexeme :: ahead, upcoming, eof, previous⟩
      ⟨if lexeme.token = .eof then lexeme :: ahead else ahead, upcoming, eof, some lexeme⟩ := by
  split
  · next last => exact ⟨0, .stayed last⟩
  · next other => exact ⟨1, .consumed other⟩

/-- A cursor that comes up in reading does so after the token at its head was advanced to. -/
theorem Proper.advanced {lexeme eof : Lexeme} {ahead : List Lexeme} {upcoming : List LexItem}
    {previous : Option Lexeme} (proper : Proper ⟨lexeme :: ahead, upcoming, eof, previous⟩)
    (latest : Option Lexeme) :
    Proper ⟨if lexeme.token = .eof then lexeme :: ahead else ahead, upcoming, eof, latest⟩ := by
  obtain ⟨_, first, _, after⟩ := Parser.advance_ok (n := 0) proper rfl (by simp)
  obtain rfl := Option.some.inj first
  exact (after latest).1

theorem Step.proper (h : Step k c c') (proper : c.Proper) : c'.Proper := by
  cases h with
  | seen => exact (Parser.lookFurther_ok proper rfl).1
  | ended => exact (Parser.lookFurther_ok proper rfl).1
  | dropped =>
    obtain ⟨eof, upcoming, front, back, split, hfront, hback, beyond⟩ := proper
    refine ⟨eof, fun lexeme member => upcoming lexeme (.tail _ member), front, back, split, hfront,
      hback, beyond.imp_right fun empty => ?_⟩
    exact absurd empty (List.cons_ne_nil _ _)
  | @consumed lexeme _ _ _ _ other =>
    have here := proper.advanced (some lexeme)
    rwa [if_neg other] at here
  | @stayed lexeme _ _ _ _ last =>
    have here := proper.advanced (some lexeme)
    rwa [if_pos last] at here

theorem Reaches.proper (h : c.Reaches k c') (proper : c.Proper) : c'.Proper :=
  h.keeps Step.proper proper

/-- Steps leave less by as many tokens as they consume. -/
theorem Step.remaining_le (h : Step k c c') (proper : c.Proper) :
    c'.remaining + k ≤ c.remaining := by
  have eof := proper.eof
  cases h with
  | @seen _ lexeme =>
    have one := List.length_filter_le (fun l : Lexeme => decide (l.token ≠ .eof)) [lexeme]
    simp only [remaining, List.filter_append, List.length_append, List.length_cons,
      List.length_nil] at one ⊢
    omega
  | ended =>
    have nothing : [_].filter (fun l : Lexeme => decide (l.token ≠ .eof)) = [] :=
      List.filter_cons_of_neg (by simpa using eof)
    rw [remaining, List.filter_append, nothing, List.append_nil]
    exact Nat.le_refl _
  | dropped => simp [remaining]
  | consumed other =>
    simp only [remaining]
    rw [List.filter_cons_of_pos (by simpa using other), List.length_cons]
    omega
  | stayed last => exact Nat.le_refl _

theorem Reaches.remaining_le (h : c.Reaches k c') (proper : c.Proper) :
    c'.remaining + k ≤ c.remaining := by
  induction h with
  | refl => exact Nat.le_refl _
  | step before last enough ih =>
    have here := last.remaining_le (before.proper proper)
    omega

/-- Once a token was consumed, there is a token that was consumed last. -/
theorem Reaches.previous (h : c.Reaches k c') (some_consumed : 0 < k) :
    c'.previous.isSome := by
  induction h with
  | refl => exact absurd some_consumed (Nat.lt_irrefl 0)
  | @step i j k _ _ before last enough ih =>
    cases last with
    | consumed | stayed => rfl
    | seen | ended | dropped => exact ih (by omega)

/-- What is known of the token that comes next, if it was looked at. -/
def Sees (seen : Option Token) (c : Cursor) : Prop :=
  ∀ t ∈ seen, ∃ lexeme ahead, c.ahead = lexeme :: ahead ∧ lexeme.token = t

theorem sees_none : c.Sees none :=
  nofun

/-- The next token is the same after a look further. -/
theorem Sees.append {seen : Option Token} (h : c.Sees seen) {more : List Lexeme}
    (split : c'.ahead = c.ahead ++ more) : c'.Sees seen := by
  intro t known
  obtain ⟨lexeme, ahead, first, token⟩ := h t known
  exact ⟨lexeme, ahead ++ more, by rw [split, first, List.cons_append], token⟩

end Cursor

namespace Parser

open Cursor

variable {α β : Type} {c c' : Cursor} {p : Parser α} {f : α → Parser β}

/-! ### From one cursor -/

/-- From a cursor, a parser comes to a result and a cursor of which an assertion holds, or it stops
with an error and a cursor of which another one does. -/
def Ends (p : Parser α) (c : Cursor) (Q : α → Cursor → Prop) (E : ReadError → Cursor → Prop) :
    Prop :=
  match p c with
  | .ok a c' => Q a c'
  | .error e c' => E e c'

section

variable {Q R : α → Cursor → Prop} {E F : ReadError → Cursor → Prop}

theorem Ends.imp (h : Ends p c Q E) (result : ∀ a c', Q a c' → R a c')
    (error : ∀ e c', E e c' → F e c') : Ends p c R F := by
  unfold Ends at h ⊢
  cases run : p c with
  | ok a c' =>
    rw [run] at h
    exact result a c' h
  | error e c' =>
    rw [run] at h
    exact error e c' h

theorem Ends.and (h : Ends p c Q E) (h' : Ends p c R F) :
    Ends p c (fun a c' => Q a c' ∧ R a c') fun e c' => E e c' ∧ F e c' := by
  unfold Ends at h h' ⊢
  cases run : p c with
  | ok a c' =>
    rw [run] at h h'
    exact ⟨h, h'⟩
  | error e c' =>
    rw [run] at h h'
    exact ⟨h, h'⟩

theorem ends_bind {Q : β → Cursor → Prop} (h : Ends p c (fun a c' => Ends (f a) c' Q E) E) :
    Ends (p >>= f) c Q E := by
  unfold Ends at h ⊢
  rw [bind_run]
  cases run : p c with
  | ok a c' =>
    rw [run] at h
    exact h
  | error e c' =>
    rw [run] at h
    exact h

end

/-- From a cursor, a parser comes to a result and a cursor of which an assertion holds, or it
stops at a cursor that steps lead to. -/
def Comes (p : Parser α) (c : Cursor) (Q : α → Cursor → Prop) : Prop :=
  match p c with
  | .ok a c' => Q a c'
  | .error _ c' => c.Reaches 0 c'

theorem comes_iff {Q : α → Cursor → Prop} :
    Comes p c Q ↔ Ends p c Q fun _ c' => c.Reaches 0 c' :=
  Iff.rfl

theorem Comes.mono {Q R : α → Cursor → Prop} (h : Comes p c Q) (le : ∀ a c', Q a c' → R a c') :
    Comes p c R :=
  (comes_iff.mp h).imp le fun _ _ => id

theorem comes_bind {Q : β → Cursor → Prop}
    (h : Comes p c fun a c' => c.Reaches 0 c' ∧ Comes (f a) c' Q) : Comes (p >>= f) c Q := by
  refine ends_bind ((comes_iff.mp h).imp ?_ fun _ _ => id)
  rintro a c' ⟨reaches, h⟩
  exact (comes_iff.mp h).imp (fun _ _ => id) fun _ _ => reaches.trans

theorem lookFurther_comes (c : Cursor) :
    Comes lookFurther c fun _ c' => c.Reaches 0 c' ∧ ∃ lexeme, c'.ahead = c.ahead ++ [lexeme] := by
  obtain ⟨ahead, upcoming, eof, previous⟩ := c
  rcases upcoming with _ | ⟨error | lexeme, upcoming⟩
  · exact ⟨Step.ended.reaches, eof, rfl⟩
  · exact Step.dropped.reaches
  · exact ⟨Step.seen.reaches, lexeme, rfl⟩

theorem lookFurtherBy_comes (n : Nat) (c : Cursor) :
    Comes (lookFurtherBy n) c fun _ c' =>
      c.Reaches 0 c' ∧ ∃ more, c'.ahead = c.ahead ++ more ∧ more.length = n := by
  induction n generalizing c with
  | zero => exact ⟨.refl, [], (List.append_nil _).symm, rfl⟩
  | succ n ih =>
    refine comes_bind ((lookFurther_comes c).mono ?_)
    rintro _ c₁ ⟨reaches, lexeme, one⟩
    refine ⟨reaches, (ih c₁).mono ?_⟩
    rintro _ c₂ ⟨reaches', more, others, length⟩
    refine ⟨reaches.trans reaches', lexeme :: more, ?_, by rw [List.length_cons, length]⟩
    rw [others, one, List.append_assoc, List.singleton_append]

/-- A look leaves the tokens that were looked at before, and shows one of those that are looked
at now. -/
theorem peekAt_comes (n : Nat) (c : Cursor) :
    Comes (peekAt n) c fun t c' => c.Reaches 0 c' ∧ (∃ more, c'.ahead = c.ahead ++ more) ∧
      ∃ lexeme, c'.ahead[n]? = some lexeme ∧ lexeme.token = t := by
  show Comes (lookFurtherBy (n + 1 - c.ahead.length) >>= fun _ c' =>
    .ok (c'.ahead[n]?.getD c'.eof).token c') c _
  refine comes_bind ((lookFurtherBy_comes (n + 1 - c.ahead.length) c).mono ?_)
  rintro _ c' ⟨reaches, more, split, length⟩
  have there : n < c'.ahead.length := by
    rw [split, List.length_append, length]
    omega
  have found := List.getElem?_eq_getElem there
  refine ⟨reaches, reaches, ⟨more, split⟩, _, found, ?_⟩
  simp only [found, Option.getD_some]

/-- After a look at the next token it is known. -/
theorem peek_comes (c : Cursor) :
    Comes peek c fun t c' => c.Reaches 0 c' ∧ c'.Sees (some t) := by
  refine (peekAt_comes 0 c).mono ?_
  rintro t c' ⟨reaches, _, lexeme, first, token⟩
  refine ⟨reaches, ?_⟩
  rintro _ ⟨⟩
  rw [← List.head?_eq_getElem?, List.head?_eq_some_iff] at first
  obtain ⟨ahead, split⟩ := first
  exact ⟨lexeme, ahead, split, token⟩

/-- A token that was looked at is consumed. -/
theorem advance_seen {lexeme : Lexeme} {ahead : List Lexeme} (h : c.ahead = lexeme :: ahead) :
    advance c = .ok lexeme { c with
      ahead := if lexeme.token = .eof then c.ahead else ahead
      previous := some lexeme } := by
  have none_more : 1 - c.ahead.length = 0 := by
    rw [h, List.length_cons]
    omega
  rw [advance_run, none_more]
  obtain ⟨_, upcoming, eof, previous⟩ := c
  obtain rfl := h
  rfl

/-- Takes the token at the head of what was looked at. An advance looks, and then does this. -/
def takeNext : Parser Lexeme := fun c =>
  let lexeme := c.ahead.head?.getD c.eof
  let ahead := if lexeme.token = .eof then c.ahead else c.ahead.tail
  .ok lexeme { c with ahead, previous := some lexeme }

/-- The look of an advance leaves a token to be taken. -/
theorem lookAtNext_comes (c : Cursor) :
    Comes (lookFurtherBy (1 - c.ahead.length)) c fun _ c' =>
      c.Reaches 0 c' ∧ ∃ lexeme ahead, c'.ahead = lexeme :: ahead := by
  refine (lookFurtherBy_comes (1 - c.ahead.length) c).mono ?_
  rintro _ c' ⟨reaches, more, split, length⟩
  refine ⟨reaches, List.exists_cons_of_length_pos ?_⟩
  rw [split, List.length_append, length]
  omega

theorem advance_comes (c : Cursor) : Comes advance c fun _ c' => c.Reaches 0 c' := by
  show Comes (lookFurtherBy (1 - c.ahead.length) >>= fun _ => takeNext) c _
  refine comes_bind ((lookAtNext_comes c).mono ?_)
  rintro _ ⟨_, upcoming, eof, previous⟩ ⟨reaches, lexeme, ahead, rfl⟩
  obtain ⟨_, step⟩ := Step.taken lexeme ahead upcoming eof previous
  exact ⟨reaches, (reaches.trans step.reaches).mono (Nat.zero_le _)⟩

/-! ### Parsers that make steps -/

/-- A parser makes steps from the cursors of which something is known. It consumes a number of
tokens at least, unless it stops with an error. -/
def Moves (seen : Option Token) (k : Nat) (p : Parser α) : Prop :=
  ∀ c : Cursor, c.Sees seen → Comes p c fun _ c' => c.Reaches k c'

variable {seen : Option Token} {i j k : Nat}

theorem Moves.reaches {a : α} (h : Moves seen k p) (sees : c.Sees seen)
    (result : p c = .ok a c') : c.Reaches k c' := by
  have here := h c sees
  rw [Comes, result] at here
  exact here

theorem Moves.mono (h : Moves seen j p) (le : k ≤ j) : Moves seen k p :=
  fun c sees => (h c sees).mono fun _ _ reaches => reaches.mono le

/-- What a parser does without knowledge it does with it. -/
theorem Moves.known (h : Moves none k p) : Moves seen k p :=
  fun c _ => h c sees_none

/-- A parser that consumes something may be one that consumes nothing. -/
theorem Moves.any (h : Moves seen k p) : Moves seen 0 p :=
  h.mono (Nat.zero_le k)

theorem moves_pure (a : α) : Moves seen 0 (pure a : Parser α) :=
  fun _ _ => .refl

theorem moves_unexpected (expected : String) : Moves seen k (unexpected expected : Parser α) :=
  fun _ _ => .refl

theorem moves_missing : Moves seen k (missing : Parser α) :=
  moves_unexpected _

theorem moves_spent : Moves seen k (spent : Parser α) :=
  moves_unexpected _

theorem moves_currentSpan : Moves seen 0 currentSpan :=
  fun _ _ => .refl

theorem moves_previousSpan : Moves seen 0 previousSpan :=
  fun _ _ => .refl

theorem moves_advance : Moves seen 0 advance :=
  fun c _ => advance_comes c

/-- What a parser consumes before another. -/
theorem moves_before (first : Moves seen k p) (second : ∀ a, Moves none 0 (f a)) :
    Moves seen k (p >>= f) := by
  intro c sees
  refine comes_bind ((first c sees).mono fun a c' reaches => ?_)
  refine ⟨reaches.mono (Nat.zero_le k), (second a c' sees_none).mono fun _ _ reaches' => ?_⟩
  exact reaches.trans reaches'

/-- What a parser consumes after another. -/
theorem moves_after (first : Moves seen 0 p) (second : ∀ a, Moves none k (f a)) :
    Moves seen k (p >>= f) := by
  intro c sees
  refine comes_bind ((first c sees).mono fun a c' reaches => ?_)
  refine ⟨reaches, (second a c' sees_none).mono fun _ _ reaches' => ?_⟩
  exact (reaches.trans reaches').mono (by omega)

/-- A look at the next token, and what is done when it is known. -/
theorem moves_peek {f : Token → Parser β} (h : ∀ t, Moves (some t) k (f t)) :
    Moves seen k (peek >>= f) := by
  intro c _
  refine comes_bind ((peek_comes c).mono ?_)
  rintro t c' ⟨reaches, sees⟩
  refine ⟨reaches, (h t c' sees).mono fun _ _ reaches' => ?_⟩
  exact (reaches.trans reaches').mono (by omega)

/-- A look at some token. The token that comes next is known as before. -/
theorem moves_peekAt {n : Nat} {f : Token → Parser β} (h : ∀ t, Moves seen k (f t)) :
    Moves seen k (peekAt n >>= f) := by
  intro c sees
  refine comes_bind ((peekAt_comes n c).mono ?_)
  rintro t c' ⟨reaches, ⟨more, split⟩, _⟩
  refine ⟨reaches, (h t c' (sees.append split)).mono fun _ _ reaches' => ?_⟩
  exact (reaches.trans reaches').mono (by omega)

/-- A token that is known is consumed, unless it is the end of input. -/
theorem moves_taken {t : Token} (other : t ≠ .eof) : Moves (some t) 1 advance := by
  intro c sees
  obtain ⟨lexeme, ahead, first, rfl⟩ := sees t rfl
  obtain ⟨_, upcoming, eof, previous⟩ := c
  obtain rfl := first
  rw [Comes, advance_seen rfl]
  simp only [if_neg other]
  exact (Step.consumed other).reaches

theorem moves_check {t : Token} {f : Bool → Parser β} (yes : Moves (some t) k (f true))
    (no : Moves none k (f false)) : Moves seen k (check t >>= f) := by
  intro c _
  refine comes_bind (comes_bind ((peek_comes c).mono ?_))
  rintro t' c' ⟨reaches, sees⟩
  refine ⟨reaches, reaches, ?_⟩
  by_cases same : t' = t
  · subst same
    rw [decide_eq_true rfl]
    exact (yes c' sees).mono fun _ _ reaches' => (reaches.trans reaches').mono (by omega)
  · rw [decide_eq_false same]
    exact (no c' sees_none).mono fun _ _ reaches' => (reaches.trans reaches').mono (by omega)

theorem moves_accept (t : Token) : Moves seen 0 (accept t) :=
  moves_check (moves_after moves_advance fun _ => moves_pure _) (moves_pure _)

/-- A token that has to come next is consumed, if there is a result. -/
theorem moves_expect (t : Token) : Moves seen 0 (consume t) :=
  moves_check moves_advance (moves_unexpected _)

theorem moves_consume {t : Token} (other : t ≠ .eof) : Moves seen 1 (consume t) :=
  moves_check (moves_taken other) (moves_unexpected _)

end Parser

/-! ### Productions -/

open Retrace.Parser

section sequences

variable {α : Type} {item : Parser α}

theorem separated_moves (h : Moves none 1 item) (t : Token) (bound : Nat) :
    Moves none 1 (separated item t bound) := by
  induction bound with
  | zero => exact moves_spent
  | succ bound ih =>
    refine moves_before h fun first => moves_after (moves_accept t) fun more => ?_
    split
    · exact moves_after ih.any fun _ => moves_pure _
    · exact moves_pure _

theorem delimited_moves (h : Moves none 1 item) (opening : Mark) (t closing : Token)
    (bound : Nat) : Moves none 1 (delimited (.mark opening) item t closing bound) := by
  refine moves_before (moves_consume nofun) fun _ => ?_
  refine moves_after (moves_accept closing) fun empty => ?_
  split
  · exact moves_pure _
  · refine moves_after (separated_moves h t bound).any fun items => ?_
    exact moves_after (moves_expect closing) fun _ => moves_pure _

theorem terminated_moves (h : Moves none 1 item) (t closing : Token) (endsItself : α → Bool)
    (bound : Nat) : Moves none 0 (terminated item t closing endsItself bound) := by
  induction bound with
  | zero => exact moves_spent
  | succ bound ih =>
    refine moves_check (moves_pure _) ?_
    refine moves_after h.any fun first => moves_after (moves_accept t) fun closed => ?_
    split
    · exact moves_after (moves_unexpected _) fun _ => moves_after ih fun _ => moves_pure _
    · exact moves_after ih fun _ => moves_pure _

end sequences

namespace Grammar

/-- The parsers of what is nested make steps and consume a token. -/
structure Moving (inner : Grammar) : Prop where
  statement : Moves none 1 inner.statement
  expression least : Moves none 1 (inner.expression least)

variable {inner : Grammar} {table : OperatorTable}

theorem name_moves : Moves none 1 name := by
  refine moves_peek fun t => ?_
  split
  · exact moves_before (moves_taken nofun) fun _ => moves_pure _
  · exact moves_unexpected _

theorem block_moves (h : Moving inner) (bound : Nat) : Moves none 1 (block inner bound) := by
  refine moves_before (moves_consume nofun) fun _ => ?_
  refine moves_after (terminated_moves h.statement _ _ _ bound) fun _ => ?_
  exact moves_after (moves_expect _) fun _ => moves_pure _

theorem arguments_moves (h : Moving inner) (bound : Nat) :
    Moves none 1 (arguments inner bound) :=
  delimited_moves (h.expression 0) _ _ _ bound

theorem list_moves (h : Moving inner) (bound : Nat) : Moves none 1 (list inner bound) := by
  refine moves_after moves_currentSpan fun _ => ?_
  refine moves_before (delimited_moves (h.expression 0) _ _ _ bound) fun _ => ?_
  exact moves_after moves_previousSpan fun _ => moves_pure _

theorem functionRest_moves (h : Moving inner) (bound : Nat) (keyword : Span) :
    Moves none 1 (functionRest inner bound keyword) := by
  refine moves_after moves_currentSpan fun _ => ?_
  refine moves_before (delimited_moves name_moves _ _ _ bound) fun _ => ?_
  refine moves_after moves_previousSpan fun _ => ?_
  exact moves_after (block_moves h bound).any fun _ => moves_pure _

theorem conditional_moves (h : Moving inner) (bound : Nat) :
    Moves none 1 (conditional inner bound) := by
  induction bound with
  | zero => exact moves_spent
  | succ bound ih =>
    unfold conditional
    refine moves_before (moves_consume nofun) fun _ => ?_
    refine moves_after (moves_expect _) fun _ => ?_
    refine moves_after (h.expression 0).any fun _ => ?_
    refine moves_after (moves_expect _) fun _ => ?_
    refine moves_after (block_moves h bound).any fun _ => ?_
    refine moves_after (moves_accept _) fun continued => ?_
    split
    · refine moves_check ?_ ?_
      · exact moves_after ih.any.known fun _ => moves_pure _
      · exact moves_after (block_moves h bound).any fun _ => moves_pure _
    · exact moves_after (moves_pure _) fun _ => moves_pure _

theorem primary_moves (h : Moving inner) (bound : Nat) : Moves none 1 (primary inner bound) := by
  refine moves_peek fun t => ?_
  split
  · exact moves_before (moves_taken nofun) fun _ => moves_pure _
  · exact moves_before (moves_taken nofun) fun _ => moves_pure _
  · exact moves_before (moves_taken nofun) fun _ => moves_pure _
  · exact name_moves.known
  · exact moves_before (moves_taken nofun) fun _ => moves_pure _
  · exact moves_before (moves_taken nofun) fun _ => (functionRest_moves h bound _).any
  · exact (conditional_moves h bound).known
  · refine moves_before (moves_taken nofun) fun _ => moves_after (h.expression 0).any fun _ => ?_
    exact moves_after (moves_expect _) fun _ => moves_pure _
  · exact (list_moves h bound).known
  · exact (block_moves h bound).known
  · exact moves_missing

theorem applied_moves (h : Moving inner) (function : Node) (bound : Nat) :
    Moves none 0 (applied inner function bound) := by
  induction bound generalizing function with
  | zero => exact moves_spent
  | succ bound ih =>
    refine moves_check ?_ (moves_pure _)
    refine moves_after (arguments_moves h bound).any.known fun _ => ?_
    exact moves_after moves_previousSpan fun _ => ih _

theorem operand_moves (h : Moving inner) (bound : Nat) : Moves none 1 (operand inner bound) := by
  induction bound with
  | zero => exact moves_spent
  | succ bound ih =>
    refine moves_peek fun t => ?_
    split
    · next sign =>
      refine moves_before (moves_taken (by rintro rfl; exact nomatch sign)) fun _ => ?_
      exact moves_after ih.any fun _ => moves_pure _
    · exact moves_before (primary_moves h bound).known fun _ => applied_moves h _ _

theorem climb_moves (h : Moving inner) (least : Nat) (left : Node) (bound : Nat) :
    Moves none 0 (climb table inner least left bound) := by
  induction bound generalizing left with
  | zero => exact moves_spent
  | succ bound ih =>
    have operator : Moves none 0 (nextOperator table) := by
      refine moves_peek fun t => ?_
      split <;> exact moves_pure _
    refine moves_after operator fun found => ?_
    split
    · exact moves_pure _
    · split
      · exact moves_pure _
      · refine moves_after moves_advance fun _ => moves_after (h.expression _).any fun _ => ih _

theorem expressionWith_moves (h : Moving inner) (bound least : Nat) :
    Moves none 1 (expressionWith table inner bound least) :=
  moves_before (operand_moves h bound) fun _ => climb_moves h least _ bound

theorem definition_moves (h : Moving inner) : Moves none 1 (definition inner) := by
  refine moves_before (moves_consume nofun) fun _ => moves_after name_moves.any fun _ => ?_
  refine moves_after (moves_expect _) fun _ => ?_
  exact moves_after (h.expression 0).any fun _ => moves_pure _

theorem namedFunction_moves (h : Moving inner) (bound : Nat) :
    Moves none 1 (namedFunction inner bound) := by
  refine moves_before (moves_consume nofun) fun _ => moves_after name_moves.any fun _ => ?_
  exact moves_after (functionRest_moves h bound _).any fun _ => moves_pure _

theorem statementWith_moves (h : Moving inner) (bound : Nat) :
    Moves none 1 (statementWith table inner bound) := by
  refine moves_peek fun t => ?_
  split
  · exact (definition_moves h).known
  · refine moves_peekAt fun t' => ?_
    split
    · exact (namedFunction_moves h bound).known
    · exact (expressionWith_moves h bound 0).known
  · exact (conditional_moves h bound).known
  · exact (block_moves h bound).known
  · exact (expressionWith_moves h bound 0).known

/-- **Statements and expressions make steps**, and consume a token if there is a result. -/
theorem upTo_moves (table : OperatorTable) (bound : Nat) : Moving (upTo table bound) := by
  induction bound with
  | zero => exact ⟨moves_spent, fun _ => moves_spent⟩
  | succ bound ih =>
    exact ⟨statementWith_moves ih (bound + 1), expressionWith_moves ih (bound + 1)⟩

end Grammar

/-! ### Readers -/

theorem Parser.skipWithin_reaches (fuel : Nat) (c : Cursor) : c.Reaches 0 (skipWithin fuel c) := by
  induction fuel generalizing c with
  | zero => exact .refl
  | succ fuel ih =>
    have here := advance_comes c
    unfold Comes at here
    rw [skipWithin]
    split
    · next result =>
      rw [result] at here
      split
      · exact here
      · exact here.trans (ih _)
    · next result =>
      rw [result] at here
      exact here.trans (ih _)

theorem moves_bound {α : Type} {k : Nat} {f : Nat → Parser α} (h : ∀ n, Moves none k (f n)) :
    Moves none k (Parser.bound >>= f) :=
  moves_after (fun _ _ => .refl) h

theorem statement_moves (table : OperatorTable) : Moves none 1 (Parser.statement table) :=
  moves_bound fun bound => (Grammar.upTo_moves table bound).statement

namespace Reader

theorem skipSemicolons_moves (bound : Nat) : Moves none 0 (skipSemicolons bound) := by
  induction bound with
  | zero => exact moves_spent
  | succ bound ih =>
    refine moves_after (moves_accept _) fun more => ?_
    split
    · exact ih
    · exact moves_pure _

theorem nextStatement_moves (table : OperatorTable) : Moves none 0 (nextStatement table) := by
  refine moves_bound fun bound => moves_after (skipSemicolons_moves bound) fun _ => ?_
  refine moves_check (moves_pure _) ?_
  refine moves_after (statement_moves table).any fun node => ?_
  split
  · exact moves_after (moves_accept _) fun _ => moves_pure _
  · exact moves_after (moves_expect _) fun _ => moves_pure _

/-- A parser leaves a reader at a cursor that steps lead to, and otherwise as it was. -/
theorem parse_reaches {α : Type} {p : Parser α} (r : Reader) (h : Moves none 0 p) :
    r.cursor.Reaches 0 (r.parse p).2.cursor ∧ (r.parse p).2.config = r.config := by
  have here := h r.cursor Cursor.sees_none
  unfold Comes at here
  unfold parse
  split <;> next result => rw [result] at here; exact ⟨here, rfl⟩

/-- **Reading makes steps**, however it ends. -/
theorem read_reaches (r : Reader) :
    r.cursor.Reaches 0 r.read.2.cursor ∧ r.read.2.config = r.config := by
  have here := r.parse_reaches (nextStatement_moves r.config.operators)
  unfold read
  split <;> next result => rw [result] at here; exact here

/-- **Skipping makes steps.** -/
theorem skip_reaches (r : Reader) : r.cursor.Reaches 0 r.skip.cursor :=
  skipWithin_reaches _ _

end Reader

end Retrace
