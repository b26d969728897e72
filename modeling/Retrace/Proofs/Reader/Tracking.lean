/-
Two readings that go the same way.

* `Lexeme.placed`, `ReadError.placed` — tokens and errors, with other places.
* `Pairing` — cursors over one text and cursors over another that stand at the same token,
  with other places.
* `Tracking` — a pairing that the steps of cursors keep, for as long as the first cursor is
  not lost.
* `Tracks` — a parser of the one text and a parser of the other do the same, unless the
  first is lost.
* `tracks_bind`, `tracks_peek` and so on — the steps that parsers are made of.
* **`upTo_tracks`** — statements and expressions are read in the same way, with whatever
  bounds that are large enough.

Design notes:
* A cursor is lost when it has come to where the other text is different. What a parser
  does from there on is not compared, and a cursor that is lost stays lost.
* The two parsers may have different bounds. A parser is compared on cursors that have
  fewer tokens left than a measure, which is no larger than the bounds. A token that is
  consumed makes the measure smaller by one, as it does the bounds.
* The span of the token consumed last is asked for only after a token was consumed. A
  cursor that has not consumed any has none to compare.
* Spans are joined, and the end of one is taken. Any change of places that goes with this
  goes with reading: a number of bytes further on, or all places to one.
-/
import Retrace.Proofs.Reader.Motion
import Retrace.Proofs.Reader.Phrase
import Retrace.Proofs.Token.Items

namespace Retrace

/-! ### Tokens and errors in other places -/

/-- A token in another place. -/
def Lexeme.placed (place : Span → Span) (lexeme : Lexeme) : Lexeme :=
  ⟨lexeme.token, place lexeme.span⟩

/-- Text that is no token in another place. -/
def LexError.placed (place : Span → Span) (error : LexError) : LexError :=
  ⟨error.fault, place error.span⟩

/-- An error in another place. -/
def ReadError.placed (place : Span → Span) : ReadError → ReadError
  | lexical error => lexical (error.placed place)
  | unexpectedToken expected found span => unexpectedToken expected found (place span)
  | unexpectedEnd expected span => unexpectedEnd expected (place span)

/-! ### Trees and errors further on -/

namespace Span

variable {n : Nat} {a b : Span}

theorem shift_join : (a.join b).shift n = (a.shift n).join (b.shift n) := by
  simp only [join, shift, Span.mk.injEq]
  omega

theorem shift_emptyAt {offset : Nat} : (emptyAt offset).shift n = emptyAt (offset + n) :=
  rfl

end Span

/-- An error, a number of bytes further on. -/
def ReadError.shift (n : Nat) : ReadError → ReadError
  | lexical error => lexical (error.shift n)
  | unexpectedToken expected found span => unexpectedToken expected found (span.shift n)
  | unexpectedEnd expected span => unexpectedEnd expected (span.shift n)

namespace Node

mutual

/-- A tree, a number of bytes further on. -/
def shift (n : Nat) : Node → Node
  | atom literal span => atom literal (span.shift n)
  | apply op args span => apply (op.shift n) (shiftAll n args) (span.shift n)
  | list items span => list (shiftAll n items) (span.shift n)
  | block statements span => block (shiftAll n statements) (span.shift n)

/-- Trees, a number of bytes further on. -/
def shiftAll (n : Nat) : List Node → List Node
  | [] => []
  | node :: nodes => node.shift n :: shiftAll n nodes

end

variable {n : Nat}

mutual

theorem placed_shift (node : Node) : node.placed (Span.shift n) = node.shift n := by
  cases node with
  | atom literal span => rfl
  | apply op args span => rw [placed, shift, placed_shift op, placedAll_shift args]
  | list items span => rw [placed, shift, placedAll_shift items]
  | block statements span => rw [placed, shift, placedAll_shift statements]

theorem placedAll_shift (nodes : List Node) :
    placedAll (Span.shift n) nodes = shiftAll n nodes := by
  match nodes with
  | [] => rfl
  | node :: nodes => rw [placedAll, shiftAll, placed_shift node, placedAll_shift nodes]

end

/-- A tree further on is the same without its places. -/
theorem bare_shift (node : Node) : (node.shift n).bare = node.bare := by
  rw [← placed_shift, bare_placed]

end Node

/-! ### Cursors that stand at the same place -/

/-- Cursors over one text, and cursors over another that stand at the same token, with other
places. The first are lost when they have come to where the texts differ. -/
structure Pairing where
  place : Span → Span
  together : Cursor → Cursor → Prop
  lost : Cursor → Prop

namespace Pairing

variable (pairing : Pairing) {α β γ δ : Type}

/-- What two parsers came to: the first is lost, or both have the same result at the same place, or
the same error. -/
def Agree (g : α → β) (r : EStateM.Result ReadError Cursor α)
    (r' : EStateM.Result ReadError Cursor β) : Prop :=
  match r with
  | .ok a c => pairing.lost c ∨ ∃ c', r' = .ok (g a) c' ∧ pairing.together c c'
  | .error e c =>
    pairing.lost c ∨ ∃ c', r' = .error (e.placed pairing.place) c' ∧ pairing.together c c'

/-- What a parser came to, when it is lost. -/
def Lost (r : EStateM.Result ReadError Cursor α) : Prop :=
  match r with
  | .ok _ c | .error _ c => pairing.lost c

variable {pairing} {g : α → β} {h : γ → δ}

theorem Lost.agree {r : EStateM.Result ReadError Cursor α}
    {r' : EStateM.Result ReadError Cursor β} (lost : pairing.Lost r) : pairing.Agree g r r' := by
  cases r with
  | ok | error => exact .inl lost

/-- One step after another. If the first step gets lost, so has the second to. -/
theorem agree_bind {p : Parser α} {p' : Parser β} {f : α → Parser γ} {f' : β → Parser δ}
    {c c' : Cursor} (first : pairing.Agree g (p c) (p' c'))
    (astray : ∀ a c₁, p c = .ok a c₁ → pairing.lost c₁ → pairing.Lost (f a c₁))
    (second : ∀ a c₁ c₁', p c = .ok a c₁ → pairing.together c₁ c₁' →
      pairing.Agree h (f a c₁) (f' (g a) c₁')) :
    pairing.Agree h ((p >>= f) c) ((p' >>= f') c') := by
  show pairing.Agree h (EStateM.bind p f c) (EStateM.bind p' f' c')
  rw [EStateM.bind, EStateM.bind]
  cases result : p c with
  | ok a c₁ =>
    rw [result] at first
    rcases first with lost | ⟨c₁', result', together⟩
    · exact (astray a c₁ result lost).agree
    · rw [result']
      exact second a c₁ c₁' result together
  | error e c₁ =>
    rw [result] at first
    rcases first with lost | ⟨c₁', result', together⟩
    · exact .inl lost
    · rw [result']
      exact .inr ⟨c₁', rfl, together⟩

end Pairing

open Retrace.Parser Cursor

/-- A pairing that the steps of cursors keep. -/
structure Tracking extends Pairing where
  place_join a b : place (a.join b) = (place a).join (place b)
  place_emptyAt span : place (.emptyAt span.stop) = .emptyAt (place span).stop
  /-- The tokens that were looked at are the same. -/
  ahead {c c'} (here : together c c') : c'.ahead = c.ahead.map (Lexeme.placed place)
  /-- The next token has the same place. -/
  current {c c'} (here : together c c') : c'.currentSpan = place c.currentSpan
  /-- The token consumed last is the same, if one was consumed. -/
  latest {c c' lexeme} (here : together c c') (consumed : c.previous = some lexeme) :
    c'.previous = some (lexeme.placed place)
  /-- The second cursor has no less before it. -/
  remaining_le {c c'} (here : together c c') : c.remaining ≤ c'.remaining
  /-- A look shows the same, unless a semicolon was looked at already. -/
  look {c c'} (proper : c.Proper) (here : together c c')
    (open_end : ∀ lexeme ∈ c.ahead, lexeme.token ≠ .mark .semicolon) :
    toPairing.Agree id (lookFurther c) (lookFurther c')
  /-- A token that was looked at is consumed in the same way. -/
  advanced {c c' lexeme ahead} (here : together c c') (first : c.ahead = lexeme :: ahead) :
    together
      { c with
        ahead := if lexeme.token = .eof then c.ahead else ahead
        previous := some lexeme }
      { c' with
        ahead := if lexeme.token = .eof then c'.ahead else ahead.map (Lexeme.placed place)
        previous := some (lexeme.placed place) }
  /-- A cursor that is lost stays lost. -/
  lost_step {k c c'} (proper : c.Proper) (step : Step k c c') (here : lost c) : lost c'

namespace Tracking

variable {tracking : Tracking} {α β γ δ : Type} {n : Nat} {seen : Option Token}

theorem lost_reaches {k : Nat} {c c' : Cursor} (proper : c.Proper) (reaches : c.Reaches k c')
    (lost : tracking.lost c) : tracking.lost c' := by
  have both : c'.Proper ∧ tracking.lost c' :=
    reaches.keeps (I := fun c => c.Proper ∧ tracking.lost c)
      (fun step here => ⟨step.proper here.1, tracking.lost_step here.1 step here.2⟩) ⟨proper, lost⟩
  exact both.2

/-- From cursors at the same place, two parsers come to the same. The first has fewer tokens left
than a measure, and something is known of the next of them. -/
structure Tracks (tracking : Tracking) (n : Nat) (seen : Option Token) (g : α → β) (p : Parser α)
    (p' : Parser β) : Prop where
  moves : Moves seen 0 p
  agree {c c'} (proper : c.Proper) (fewer : c.remaining < n) (sees : c.Sees seen)
    (here : tracking.together c c') : tracking.Agree g (p c) (p' c')

variable {g : α → β} {h : γ → δ} {p : Parser α} {p' : Parser β} {f : α → Parser γ}
  {f' : β → Parser δ}

/-- A parser that makes steps does not find a way back. -/
theorem lost_of_moves {k : Nat} {c : Cursor} (moves : Moves seen k p) (sees : c.Sees seen)
    (proper : c.Proper) (lost : tracking.lost c) : tracking.Lost (p c) := by
  have here := moves c sees
  unfold Comes at here
  unfold Pairing.Lost
  cases result : p c with
  | ok a c' =>
    rw [result] at here
    exact lost_reaches proper here lost
  | error e c' =>
    rw [result] at here
    exact lost_reaches proper here lost

theorem Tracks.mono {m : Nat} (tracks : Tracks tracking n seen g p p') (le : m ≤ n) :
    Tracks tracking m seen g p p' :=
  ⟨tracks.moves, fun proper fewer => tracks.agree proper (Nat.lt_of_lt_of_le fewer le)⟩

/-- A result of the first parser is one of the second, if the first is not lost. -/
theorem Tracks.found {c c' c₁ : Cursor} {a : α}
    (tracks : Tracks tracking (c.remaining + 1) none g p p') (proper : c.Proper)
    (here : tracking.together c c') (result : p c = .ok a c₁) (kept : ¬tracking.lost c₁) :
    ∃ c₁', p' c' = .ok (g a) c₁' ∧ tracking.together c₁ c₁' := by
  have agree := tracks.agree proper (Nat.lt_succ_self _) sees_none here
  rw [result] at agree
  exact agree.resolve_left kept

/-- What parsers do without knowledge they do with it. -/
theorem Tracks.known (tracks : Tracks tracking n none g p p') : Tracks tracking n seen g p p' :=
  ⟨tracks.moves.known, fun proper fewer _ => tracks.agree proper fewer sees_none⟩

theorem tracks_pure (a : α) : Tracks tracking n seen g (pure a) (pure (g a)) :=
  ⟨moves_pure a, fun _ _ _ here => .inr ⟨_, rfl, here⟩⟩

/-- The same result, up to its place. -/
theorem tracks_return {a : α} {b : β} (same : b = g a) :
    Tracks tracking n seen g (pure a) (pure b) :=
  same ▸ tracks_pure a

theorem tracks_currentSpan :
    Tracks tracking n seen tracking.place Parser.currentSpan Parser.currentSpan := by
  refine ⟨moves_currentSpan, fun {c c'} _ _ _ here => .inr ⟨c', ?_, here⟩⟩
  rw [← tracking.current here]
  rfl

theorem tracks_unexpected (expected : String) :
    Tracks tracking n seen g (unexpected expected) (unexpected expected) := by
  refine ⟨moves_unexpected expected, fun {c c'} _ _ _ here => .inr ⟨c', ?_, here⟩⟩
  have same : c'.unexpected expected = (c.unexpected expected).placed tracking.place := by
    have span := tracking.current here
    unfold Cursor.unexpected
    rw [tracking.ahead here, span]
    cases c.ahead with
    | nil => rfl
    | cons lexeme ahead =>
      simp only [List.map_cons, Lexeme.placed]
      split <;> rfl
  rw [← same]
  rfl

/-- One parser after another. If the first consumes tokens, fewer are left for the second. -/
theorem tracks_then {k : Nat} (consumes : Moves seen k p) (first : Tracks tracking n seen g p p')
    (second : ∀ a, Tracks tracking (n - k) none h (f a) (f' (g a))) :
    Tracks tracking n seen h (p >>= f) (p' >>= f') := by
  have moves := moves_after first.moves fun a => (second a).moves
  refine ⟨moves, fun {c c'} proper fewer sees here => ?_⟩
  refine Pairing.agree_bind (first.agree proper fewer sees here) ?_ ?_
  · intro a c₁ result lost
    have reaches := consumes.reaches sees result
    exact lost_of_moves (second a).moves sees_none (reaches.proper proper) lost
  · intro a c₁ c₁' result there
    have reaches := consumes.reaches sees result
    have less := reaches.remaining_le proper
    exact (second a).agree (reaches.proper proper) (by omega) sees_none there

/-- One parser after another. -/
theorem tracks_bind (first : Tracks tracking n seen g p p')
    (second : ∀ a, Tracks tracking n none h (f a) (f' (g a))) :
    Tracks tracking n seen h (p >>= f) (p' >>= f') :=
  tracks_then first.moves first second

/-- The span of the token consumed last, after a parser that consumes a token. -/
theorem tracks_then_previousSpan {f : α → Span → Parser γ} {f' : β → Span → Parser δ}
    (consumes : Moves seen 1 p) (first : Tracks tracking n seen g p p')
    (second : ∀ a span,
      Tracks tracking (n - 1) none h (f a span) (f' (g a) (tracking.place span))) :
    Tracks tracking n seen h (p >>= fun a => Parser.previousSpan >>= f a)
      (p' >>= fun b => Parser.previousSpan >>= f' b) := by
  have moves : ∀ a, Moves none 0 (Parser.previousSpan >>= f a) := fun a =>
    moves_after moves_previousSpan fun span => (second a span).moves
  refine ⟨moves_after first.moves moves, fun {c c'} proper fewer sees here => ?_⟩
  refine Pairing.agree_bind (first.agree proper fewer sees here) ?_ ?_
  · intro a c₁ result lost
    have reaches := consumes.reaches sees result
    exact lost_of_moves (moves a) sees_none (reaches.proper proper) lost
  · intro a c₁ c₁' result there
    have reaches := consumes.reaches sees result
    have less := reaches.remaining_le proper
    -- a token was consumed, and it is the same in both texts
    obtain ⟨lexeme, latest⟩ := Option.isSome_iff_exists.mp (reaches.previous Nat.one_pos)
    have span : c₁'.previousSpan = tracking.place c₁.previousSpan := by
      rw [Cursor.previousSpan, Cursor.previousSpan, latest, tracking.latest there latest]
      rfl
    show tracking.Agree h (f a c₁.previousSpan c₁) (f' (g a) c₁'.previousSpan c₁')
    rw [span]
    exact (second a _).agree (reaches.proper proper) (by omega) sees_none there

/-! ### Looking ahead -/

/-- A look at one token more, or at none. -/
theorem agree_lookFurtherBy {c c' : Cursor} {k : Nat} (proper : c.Proper)
    (here : tracking.together c c') (one : k ≤ 1)
    (open_end : 0 < k → ∀ lexeme ∈ c.ahead, lexeme.token ≠ .mark .semicolon) :
    tracking.Agree id (lookFurtherBy k c) (lookFurtherBy k c') := by
  rcases k with _ | k
  · exact .inr ⟨c', rfl, here⟩
  · obtain rfl : k = 0 := by omega
    refine Pairing.agree_bind (tracking.look proper here (open_end Nat.one_pos))
      (fun _ _ _ lost => lost) ?_
    exact fun _ _ c₁' _ there => .inr ⟨c₁', rfl, there⟩

/-- A look at a token that is the next but those that were looked at. -/
theorem agree_peekAt {c c' : Cursor} {m : Nat} (proper : c.Proper) (here : tracking.together c c')
    (one : m ≤ c.ahead.length)
    (open_end : c.ahead.length ≤ m → ∀ lexeme ∈ c.ahead, lexeme.token ≠ .mark .semicolon) :
    tracking.Agree id (peekAt m c) (peekAt m c') := by
  have length : c'.ahead.length = c.ahead.length := by
    rw [tracking.ahead here, List.length_map]
  show tracking.Agree id
    ((lookFurtherBy (m + 1 - c.ahead.length) >>= fun _ c₁ =>
      .ok (c₁.ahead[m]?.getD c₁.eof).token c₁) c)
    ((lookFurtherBy (m + 1 - c'.ahead.length) >>= fun _ c₁ =>
      .ok (c₁.ahead[m]?.getD c₁.eof).token c₁) c')
  rw [length]
  refine Pairing.agree_bind
    (agree_lookFurtherBy proper here (by omega) fun _ => open_end (by omega))
    (fun _ _ _ lost => lost) fun _ c₁ c₁' result there => .inr ⟨c₁', ?_, there⟩
  -- the look went far enough
  have looked := lookFurtherBy_comes (m + 1 - c.ahead.length) c
  rw [Comes, result] at looked
  obtain ⟨_, more, split, many⟩ := looked
  have far : m < c₁.ahead.length := by
    rw [split, List.length_append, many]
    omega
  rw [tracking.ahead there, List.getElem?_map, List.getElem?_eq_getElem far]
  rfl

/-- A look at the next token, and what is done when it is known. -/
theorem tracks_peek {f : Token → Parser γ} {f' : Token → Parser δ}
    (second : ∀ t, Tracks tracking n (some t) h (f t) (f' t)) :
    Tracks tracking n seen h (peek >>= f) (peek >>= f') := by
  refine ⟨moves_peek fun t => (second t).moves, fun {c c'} proper fewer _ here => ?_⟩
  have known : ∀ t c₁, peek c = .ok t c₁ → c.Reaches 0 c₁ ∧ c₁.Sees (some t) := by
    intro t c₁ result
    have looked := peek_comes c
    rw [Comes, result] at looked
    exact looked
  refine Pairing.agree_bind (agree_peekAt proper here (Nat.zero_le _) fun none_ahead => ?_) ?_ ?_
  · rw [List.eq_nil_of_length_eq_zero (Nat.le_zero.mp none_ahead)]
    exact List.forall_mem_nil _
  · intro t c₁ result lost
    obtain ⟨reaches, sees⟩ := known t c₁ result
    exact lost_of_moves (second t).moves sees (reaches.proper proper) lost
  · intro t c₁ c₁' result there
    obtain ⟨reaches, sees⟩ := known t c₁ result
    have less := reaches.remaining_le proper
    exact (second t).agree (reaches.proper proper) (by omega) sees there

/-- A look at the token after the next one, which is no semicolon. -/
theorem tracks_peekSecond {t : Token} {f : Token → Parser γ} {f' : Token → Parser δ}
    (other : t ≠ .mark .semicolon) (second : ∀ t', Tracks tracking n (some t) h (f t') (f' t')) :
    Tracks tracking n (some t) h (peekAt 1 >>= f) (peekAt 1 >>= f') := by
  refine ⟨moves_peekAt fun t' => (second t').moves, fun {c c'} proper fewer sees here => ?_⟩
  have known : ∀ t' c₁, peekAt 1 c = .ok t' c₁ → c.Reaches 0 c₁ ∧ c₁.Sees (some t) := by
    intro t' c₁ result
    have looked := peekAt_comes 1 c
    rw [Comes, result] at looked
    obtain ⟨reaches, ⟨more, split⟩, _⟩ := looked
    exact ⟨reaches, sees.append split⟩
  obtain ⟨lexeme, ahead, first, token⟩ := sees t rfl
  have length : c.ahead.length = ahead.length + 1 := by rw [first, List.length_cons]
  refine Pairing.agree_bind (agree_peekAt proper here (by omega) fun short => ?_) ?_ ?_
  · -- the next token is the only one that was looked at
    obtain rfl := List.eq_nil_of_length_eq_zero (by omega : ahead.length = 0)
    rw [first, List.forall_mem_singleton, token]
    exact other
  · intro t' c₁ result lost
    obtain ⟨reaches, sees⟩ := known t' c₁ result
    exact lost_of_moves (second t').moves sees (reaches.proper proper) lost
  · intro t' c₁ c₁' result there
    obtain ⟨reaches, sees⟩ := known t' c₁ result
    have less := reaches.remaining_le proper
    exact (second t').agree (reaches.proper proper) (by omega) sees there

/-! ### Consuming tokens -/

/-- A token that was looked at is consumed in both texts. -/
theorem agree_advance_seen {c c' : Cursor} {lexeme : Lexeme} {ahead : List Lexeme}
    (here : tracking.together c c') (first : c.ahead = lexeme :: ahead) :
    tracking.Agree (Lexeme.placed tracking.place) (advance c) (advance c') := by
  have first' : c'.ahead =
      lexeme.placed tracking.place :: ahead.map (Lexeme.placed tracking.place) := by
    rw [tracking.ahead here, first, List.map_cons]
  rw [advance_seen first, advance_seen first']
  exact .inr ⟨_, rfl, tracking.advanced here first⟩

/-- A token that is known is consumed in both texts. -/
theorem tracks_advance {t : Token} :
    Tracks tracking n (some t) (Lexeme.placed tracking.place) advance advance := by
  refine ⟨moves_advance, fun _ _ sees here => ?_⟩
  obtain ⟨lexeme, ahead, first, _⟩ := sees t rfl
  exact agree_advance_seen here first

/-- The next token is consumed in both texts, whatever it is. -/
theorem agree_advance {c c' : Cursor} (proper : c.Proper) (here : tracking.together c c') :
    tracking.Agree (Lexeme.placed tracking.place) (advance c) (advance c') := by
  cases looked : c.ahead with
  | cons lexeme ahead => exact agree_advance_seen here looked
  | nil =>
    -- to consume a token is to look at it first
    have looks : ∀ d : Cursor, d.ahead = [] →
        advance d = (lookFurther >>= fun _ => advance) d := by
      rintro ⟨_, upcoming, eof, previous⟩ rfl
      rcases upcoming with _ | ⟨error | lexeme, upcoming⟩ <;> rfl
    have looked' : c'.ahead = [] := by
      rw [tracking.ahead here, looked, List.map_nil]
    rw [looks c looked, looks c' looked']
    have found : ∀ c₁, lookFurther c = .ok () c₁ →
        c.Reaches 0 c₁ ∧ ∃ lexeme, c₁.ahead = [lexeme] := by
      intro c₁ result
      have comes := lookFurther_comes c
      rw [Comes, result, looked] at comes
      exact comes
    refine Pairing.agree_bind (tracking.look proper here ?_) ?_ ?_
    · rw [looked]
      exact List.forall_mem_nil _
    · intro _ c₁ result lost
      obtain ⟨reaches, _⟩ := found c₁ result
      exact lost_of_moves moves_advance sees_none (reaches.proper proper) lost
    · intro _ c₁ c₁' result there
      obtain ⟨_, lexeme, first⟩ := found c₁ result
      exact agree_advance_seen there first

theorem tracks_taken {t : Token} {f : Lexeme → Parser γ} {f' : Lexeme → Parser δ}
    (other : t ≠ .eof)
    (second : ∀ lexeme,
      Tracks tracking (n - 1) none h (f lexeme) (f' (lexeme.placed tracking.place))) :
    Tracks tracking n (some t) h (advance >>= f) (advance >>= f') :=
  tracks_then (moves_taken other) tracks_advance second

/-- A look whether a token comes next. -/
theorem tracks_checked (t : Token) : Tracks tracking n seen id (check t) (check t) :=
  tracks_peek fun t' => tracks_pure (decide (t' = t))

theorem tracks_check {t : Token} {f : Bool → Parser γ} {f' : Bool → Parser δ}
    (yes : Tracks tracking n (some t) h (f true) (f' true))
    (no : Tracks tracking n none h (f false) (f' false)) :
    Tracks tracking n seen h (check t >>= f) (check t >>= f') := by
  rw [check_bind, check_bind]
  refine tracks_peek fun t' => ?_
  by_cases same : t' = t
  · subst same
    rw [decide_eq_true rfl]
    exact yes
  · rw [decide_eq_false same]
    exact no.known

theorem tracks_accept {t : Token} {f : Bool → Parser γ} {f' : Bool → Parser δ} (other : t ≠ .eof)
    (yes : Tracks tracking (n - 1) none h (f true) (f' true))
    (no : Tracks tracking n none h (f false) (f' false)) :
    Tracks tracking n seen h (accept t >>= f) (accept t >>= f') := by
  rw [accept_bind, accept_bind]
  exact tracks_check (tracks_taken other fun _ => yes) no

theorem tracks_consume {t : Token} {f : Lexeme → Parser γ} {f' : Lexeme → Parser δ}
    (other : t ≠ .eof)
    (second : ∀ lexeme,
      Tracks tracking (n - 1) none h (f lexeme) (f' (lexeme.placed tracking.place))) :
    Tracks tracking n seen h (consume t >>= f) (consume t >>= f') :=
  tracks_then (moves_consume other) (tracks_check tracks_advance (tracks_unexpected _)) second

/-- A token that has to come next. -/
theorem tracks_expect (mark : Mark) :
    Tracks tracking n seen (Lexeme.placed tracking.place) (consume (.mark mark))
      (consume (.mark mark)) :=
  tracks_check tracks_advance (tracks_unexpected _)

/-- Where no token can be left, there is nothing to compare. -/
theorem tracks_zero (moves : Moves seen 0 p) : Tracks tracking 0 seen g p p' :=
  ⟨moves, fun _ fewer => absurd fewer (Nat.not_lt_zero _)⟩

end Tracking

/-! ### Productions -/

open Tracking

section sequences

variable {tracking : Tracking} {α : Type} {g : α → α} {item item' : Parser α} {n : Nat}
  {seen : Option Token}

theorem separated_tracks (separator : Mark) (consumes : Moves none 1 item)
    (h : Tracks tracking n none g item item') {bound bound' : Nat} (le : n ≤ bound)
    (le' : n ≤ bound') :
    Tracks tracking n none (List.map g) (separated item (.mark separator) bound)
      (separated item' (.mark separator) bound') := by
  induction n generalizing bound bound' with
  | zero => exact tracks_zero (separated_moves consumes _ bound).any
  | succ n ih =>
    obtain ⟨bound, rfl⟩ : ∃ b, bound = b + 1 := ⟨bound - 1, by omega⟩
    obtain ⟨bound', rfl⟩ : ∃ b, bound' = b + 1 := ⟨bound' - 1, by omega⟩
    have others := ih (h.mono (Nat.le_succ n)) (Nat.le_of_succ_le_succ le)
      (Nat.le_of_succ_le_succ le')
    refine tracks_then consumes h fun first => tracks_accept nofun ?_ (tracks_pure [first])
    exact tracks_bind (others.mono (Nat.sub_le n 1)) fun rest => tracks_pure (first :: rest)

theorem delimited_tracks {opening separator closing : Mark} (consumes : Moves none 1 item)
    (h : Tracks tracking (n - 1) none g item item')
    {bound bound' : Nat} (le : n ≤ bound + 1) (le' : n ≤ bound' + 1) :
    Tracks tracking n seen (List.map g)
      (delimited (.mark opening) item (.mark separator) (.mark closing) bound)
      (delimited (.mark opening) item' (.mark separator) (.mark closing) bound') := by
  refine tracks_consume nofun fun _ => tracks_accept nofun (tracks_pure []) ?_
  have items := separated_tracks separator consumes h (by omega : n - 1 ≤ bound)
    (by omega : n - 1 ≤ bound')
  exact tracks_bind items fun nodes => tracks_consume nofun fun _ => tracks_pure nodes

theorem terminated_tracks (terminator : Mark) {endsItself : α → Bool}
    (same : ∀ a, endsItself (g a) = endsItself a) (consumes : Moves none 1 item)
    (h : Tracks tracking n none g item item') {bound bound' : Nat} (le : n ≤ bound)
    (le' : n ≤ bound') (closing : Token) :
    Tracks tracking n none (List.map g)
      (terminated item (.mark terminator) closing endsItself bound)
      (terminated item' (.mark terminator) closing endsItself bound') := by
  induction n generalizing bound bound' with
  | zero => exact tracks_zero (terminated_moves consumes _ closing endsItself bound)
  | succ n ih =>
    obtain ⟨bound, rfl⟩ : ∃ b, bound = b + 1 := ⟨bound - 1, by omega⟩
    obtain ⟨bound', rfl⟩ : ∃ b, bound' = b + 1 := ⟨bound' - 1, by omega⟩
    have others := ih (h.mono (Nat.le_succ n)) (Nat.le_of_succ_le_succ le)
      (Nat.le_of_succ_le_succ le')
    refine tracks_check (tracks_pure []) ?_
    refine tracks_then consumes h fun first => tracks_accept nofun ?_ ?_
    · exact tracks_bind (others.mono (Nat.sub_le n 1)) fun rest => tracks_pure (first :: rest)
    · rw [same]
      have goOn : Tracks tracking (n + 1 - 1) none (List.map g)
          (terminated item _ closing endsItself bound >>= fun rest => pure (first :: rest))
          (terminated item' _ closing endsItself bound' >>= fun rest => pure (g first :: rest)) :=
        tracks_bind others fun rest => tracks_pure (first :: rest)
      cases endsItself first with
      | false => exact tracks_bind (g := id) (tracks_unexpected _) fun _ => goOn
      | true => exact goOn

end sequences

namespace Grammar

/-- Parsers of what is nested that do the same. -/
structure Twins (tracking : Tracking) (n : Nat) (inner inner' : Grammar) : Prop where
  moving : Moving inner
  statement :
    Tracks tracking n none (Node.placed tracking.place) inner.statement inner'.statement
  expression least :
    Tracks tracking n none (Node.placed tracking.place) (inner.expression least)
      (inner'.expression least)

variable {tracking : Tracking} {n : Nat} {seen : Option Token} {inner inner' : Grammar}
  {bound bound' : Nat}

theorem Twins.mono {m : Nat} (h : Twins tracking n inner inner') (le : m ≤ n) :
    Twins tracking m inner inner' :=
  ⟨h.moving, h.statement.mono le, fun least => (h.expression least).mono le⟩

theorem name_tracks : Tracks tracking n seen (Node.placed tracking.place) name name := by
  refine tracks_peek fun t => ?_
  split
  · exact tracks_taken nofun fun lexeme => tracks_pure (Node.symbol _ lexeme.span)
  · exact tracks_unexpected _

theorem block_tracks (h : Twins tracking (n - 1) inner inner') (le : n ≤ bound + 1)
    (le' : n ≤ bound' + 1) :
    Tracks tracking n seen (Node.placed tracking.place) (block inner bound)
      (block inner' bound') := by
  refine tracks_consume nofun fun opening => ?_
  have statements := terminated_tracks .semicolon Node.endsWithBlock_placed
    h.moving.statement h.statement (by omega : n - 1 ≤ bound) (by omega : n - 1 ≤ bound')
  refine tracks_bind (statements _) fun nodes => tracks_consume nofun fun closing => ?_
  refine tracks_return ?_
  rw [Node.placed, Node.placedAll_eq_map, tracking.place_join]
  rfl

theorem arguments_tracks (h : Twins tracking (n - 1) inner inner') (le : n ≤ bound + 1)
    (le' : n ≤ bound' + 1) :
    Tracks tracking n seen (List.map (Node.placed tracking.place)) (arguments inner bound)
      (arguments inner' bound') :=
  delimited_tracks (h.moving.expression 0) (h.expression 0) le le'

theorem list_tracks (h : Twins tracking (n - 1) inner inner') (le : n ≤ bound + 1)
    (le' : n ≤ bound' + 1) :
    Tracks tracking n seen (Node.placed tracking.place) (list inner bound)
      (list inner' bound') := by
  refine tracks_bind tracks_currentSpan fun start => ?_
  refine tracks_then_previousSpan (delimited_moves (h.moving.expression 0) _ _ _ bound)
    (delimited_tracks (h.moving.expression 0) (h.expression 0) le le') fun items stop => ?_
  refine tracks_return ?_
  rw [Node.placed, Node.placedAll_eq_map, tracking.place_join]

theorem functionRest_tracks (h : Twins tracking (n - 1) inner inner') (le : n ≤ bound + 1)
    (le' : n ≤ bound' + 1) (keyword : Span) :
    Tracks tracking n seen (Node.placed tracking.place) (functionRest inner bound keyword)
      (functionRest inner' bound' (tracking.place keyword)) := by
  refine tracks_bind tracks_currentSpan fun start => ?_
  refine tracks_then_previousSpan (delimited_moves name_moves _ _ _ bound)
    (delimited_tracks name_moves name_tracks le le') fun params stop => ?_
  refine tracks_bind (block_tracks (h.mono (Nat.sub_le _ _)) (by omega) (by omega)) fun body => ?_
  refine tracks_return ?_
  simp only [Node.symbol, Node.placed, Node.placedAll, Node.placedAll_eq_map, Node.span_placed,
    tracking.place_join]

theorem conditional_tracks (h : Twins tracking (n - 1) inner inner') (le : n ≤ bound)
    (le' : n ≤ bound') :
    Tracks tracking n seen (Node.placed tracking.place) (conditional inner bound)
      (conditional inner' bound') := by
  induction n generalizing seen bound bound' with
  | zero => exact tracks_zero (conditional_moves h.moving bound).any.known
  | succ n ih =>
    obtain ⟨bound, rfl⟩ : ∃ b, bound = b + 1 := ⟨bound - 1, by omega⟩
    obtain ⟨bound', rfl⟩ : ∃ b, bound' = b + 1 := ⟨bound' - 1, by omega⟩
    have nested : Twins tracking (n - 1) inner inner' := h.mono (Nat.sub_le n 1)
    have block {seen} : Tracks tracking n seen (Node.placed tracking.place) (block inner bound)
        (block inner' bound') := block_tracks nested (by omega) (by omega)
    unfold conditional
    refine tracks_consume (by decide) fun keyword => tracks_bind (tracks_expect _) fun _ => ?_
    refine tracks_bind (h.expression 0) fun condition => ?_
    refine tracks_bind (tracks_expect _) fun _ => tracks_bind block fun consequent => ?_
    have whole {m} : ∀ alternative : Node,
        Tracks tracking m none (Node.placed tracking.place)
          (pure (.apply (.symbol Form.conditional.name keyword.span)
            [condition, consequent, alternative] (keyword.span.join alternative.span)))
          (pure (.apply (.symbol Form.conditional.name (keyword.placed tracking.place).span)
            [condition.placed tracking.place, consequent.placed tracking.place,
              alternative.placed tracking.place]
            ((keyword.placed tracking.place).span.join
              (alternative.placed tracking.place).span))) := by
      intro alternative
      refine tracks_return ?_
      simp only [Node.symbol, Node.placed, Node.placedAll, Node.span_placed, tracking.place_join,
        Lexeme.placed]
    refine tracks_accept (by decide) (tracks_check ?_ ?_) ?_
    · have rest {seen} : Tracks tracking n seen (Node.placed tracking.place)
          (conditional inner bound) (conditional inner' bound') :=
        ih nested (by omega) (by omega)
      exact tracks_bind (rest.mono (Nat.sub_le n 1)) whole
    · exact tracks_bind (block.mono (Nat.sub_le n 1)) whole
    · refine tracks_bind (tracks_return ?_) whole
      rw [Node.placed, Node.placedAll, tracking.place_emptyAt, Node.span_placed]

theorem primary_tracks (h : Twins tracking (n - 1) inner inner') (le : n ≤ bound)
    (le' : n ≤ bound') :
    Tracks tracking n seen (Node.placed tracking.place) (primary inner bound)
      (primary inner' bound') := by
  have nested : Twins tracking (n - 1 - 1) inner inner' := h.mono (Nat.sub_le _ 1)
  refine tracks_peek fun t => ?_
  split
  · exact tracks_taken nofun fun lexeme => tracks_pure (Node.atom _ lexeme.span)
  · exact tracks_taken nofun fun lexeme => tracks_pure (Node.atom _ lexeme.span)
  · exact tracks_taken nofun fun lexeme => tracks_pure (Node.atom _ lexeme.span)
  · exact name_tracks
  · exact tracks_taken nofun fun lexeme => tracks_pure (Node.symbol _ lexeme.span)
  · exact tracks_taken nofun fun keyword =>
      functionRest_tracks nested (by omega) (by omega) keyword.span
  · exact conditional_tracks h le le'
  · refine tracks_taken nofun fun _ => tracks_bind (h.expression 0) fun node => ?_
    exact tracks_bind (tracks_expect _) fun _ => tracks_pure node
  · exact list_tracks h (by omega) (by omega)
  · exact block_tracks h (by omega) (by omega)
  · exact tracks_unexpected _

theorem applied_tracks (h : Twins tracking (n - 1) inner inner') (le : n ≤ bound)
    (le' : n ≤ bound') (function : Node) :
    Tracks tracking n none (Node.placed tracking.place) (applied inner function bound)
      (applied inner' (function.placed tracking.place) bound') := by
  induction n generalizing bound bound' function with
  | zero => exact tracks_zero (applied_moves h.moving function bound)
  | succ n ih =>
    obtain ⟨bound, rfl⟩ : ∃ b, bound = b + 1 := ⟨bound - 1, by omega⟩
    obtain ⟨bound', rfl⟩ : ∃ b, bound' = b + 1 := ⟨bound' - 1, by omega⟩
    refine tracks_check ?_ (tracks_pure function)
    refine tracks_then_previousSpan (arguments_moves h.moving bound).known
      (arguments_tracks h (by omega) (by omega)) fun args stop => ?_
    have more := ih (h.mono (Nat.sub_le n 1)) (by omega : n ≤ bound) (by omega : n ≤ bound')
      (.apply function args (function.span.join stop))
    rw [Node.placed, Node.placedAll_eq_map, tracking.place_join,
      ← function.span_placed tracking.place] at more
    exact more

theorem operand_tracks (h : Twins tracking (n - 1) inner inner') (less : n < bound)
    (less' : n < bound') :
    Tracks tracking n seen (Node.placed tracking.place) (operand inner bound)
      (operand inner' bound') := by
  induction n generalizing seen bound bound' with
  | zero => exact tracks_zero (operand_moves h.moving bound).any.known
  | succ n ih =>
    obtain ⟨bound, rfl⟩ : ∃ b, bound = b + 1 := ⟨bound - 1, by omega⟩
    obtain ⟨bound', rfl⟩ : ∃ b, bound' = b + 1 := ⟨bound' - 1, by omega⟩
    have others {seen} : Tracks tracking n seen (Node.placed tracking.place)
        (operand inner bound) (operand inner' bound') :=
      ih (h.mono (Nat.sub_le n 1)) (by omega) (by omega)
    refine tracks_peek fun t => ?_
    split
    · next op sign =>
      refine tracks_taken (by rintro rfl; exact nomatch sign) fun sign => ?_
      refine tracks_bind others fun node => tracks_return ?_
      simp only [Node.symbol, Node.placed, Node.placedAll, Node.span_placed, tracking.place_join,
        Lexeme.placed]
    · refine tracks_bind (primary_tracks h (by omega) (by omega)) fun function => ?_
      exact applied_tracks h (by omega) (by omega) function

variable {table : OperatorTable}

theorem climb_tracks (h : Twins tracking (n - 1) inner inner') (le : n ≤ bound)
    (le' : n ≤ bound') (least : Nat) (left : Node) :
    Tracks tracking n none (Node.placed tracking.place) (climb table inner least left bound)
      (climb table inner' least (left.placed tracking.place) bound') := by
  induction n generalizing bound bound' left with
  | zero => exact tracks_zero (climb_moves h.moving least left bound)
  | succ n ih =>
    obtain ⟨bound, rfl⟩ : ∃ b, bound = b + 1 := ⟨bound - 1, by omega⟩
    obtain ⟨bound', rfl⟩ : ∃ b, bound' = b + 1 := ⟨bound' - 1, by omega⟩
    rw [climb, climb, nextOperator, bind_assoc, bind_assoc]
    refine tracks_peek fun t => ?_
    cases between : t.between? with
    | none => exact tracks_pure left
    | some op =>
      simp only [pure_bind]
      cases table.find? op with
      | none => exact tracks_pure left
      | some binding =>
        simp only [Option.map_some]
        split
        · exact tracks_pure left
        · refine tracks_taken (by rintro rfl; exact nomatch between) fun sign => ?_
          refine tracks_bind (h.expression binding.right) fun right => ?_
          have more := ih (h.mono (Nat.sub_le n 1)) (by omega : n ≤ bound) (by omega : n ≤ bound')
            (.apply (.symbol op sign.span) [left, right] (left.span.join right.span))
          rw [Node.placed, Node.symbol, Node.placed, Node.placedAll, Node.placedAll, Node.placedAll,
            tracking.place_join, ← left.span_placed tracking.place,
            ← right.span_placed tracking.place] at more
          exact more

theorem expressionWith_tracks (h : Twins tracking (n - 1) inner inner') (less : n < bound)
    (less' : n < bound') (least : Nat) :
    Tracks tracking n seen (Node.placed tracking.place) (expressionWith table inner bound least)
      (expressionWith table inner' bound' least) :=
  tracks_bind (operand_tracks h less less') fun left =>
    climb_tracks h (by omega) (by omega) least left

theorem definition_tracks (h : Twins tracking (n - 1) inner inner') :
    Tracks tracking n seen (Node.placed tracking.place) (definition inner)
      (definition inner') := by
  refine tracks_consume nofun fun keyword => tracks_bind name_tracks fun target => ?_
  refine tracks_bind (tracks_expect _) fun _ => tracks_bind (h.expression 0) fun value => ?_
  refine tracks_return ?_
  simp only [Node.symbol, Node.placed, Node.placedAll, Node.span_placed, tracking.place_join,
    Lexeme.placed]

theorem namedFunction_tracks (h : Twins tracking (n - 1) inner inner') (le : n ≤ bound)
    (le' : n ≤ bound') :
    Tracks tracking n seen (Node.placed tracking.place) (namedFunction inner bound)
      (namedFunction inner' bound') := by
  have nested : Twins tracking (n - 1 - 1) inner inner' := h.mono (Nat.sub_le _ 1)
  refine tracks_consume nofun fun keyword => tracks_bind name_tracks fun target => ?_
  refine tracks_bind (functionRest_tracks nested (by omega) (by omega) keyword.span)
    fun function => tracks_return ?_
  simp only [Node.symbol, Node.placed, Node.placedAll, Node.span_placed, tracking.place_join,
    Lexeme.placed]

theorem statementWith_tracks (h : Twins tracking (n - 1) inner inner') (less : n < bound)
    (less' : n < bound') :
    Tracks tracking n none (Node.placed tracking.place) (statementWith table inner bound)
      (statementWith table inner' bound') := by
  refine tracks_peek fun t => ?_
  split
  · exact definition_tracks h
  · refine tracks_peekSecond nofun fun t' => ?_
    split
    · exact namedFunction_tracks h (by omega) (by omega)
    · exact expressionWith_tracks h less less' 0
  · exact conditional_tracks h (by omega) (by omega)
  · exact block_tracks h (by omega) (by omega)
  · exact expressionWith_tracks h less less' 0

/-- **Statements and expressions are read in the same way**, with whatever bounds that are larger
than the number of tokens that can be left. -/
theorem upTo_tracks (table : OperatorTable) (less : n < bound) (less' : n < bound') :
    Twins tracking n (upTo table bound) (upTo table bound') := by
  induction n generalizing bound bound' with
  | zero =>
    have moving := upTo_moves table bound
    exact ⟨moving, tracks_zero moving.statement.any, fun least =>
      tracks_zero (moving.expression least).any⟩
  | succ n ih =>
    obtain ⟨bound, rfl⟩ : ∃ b, bound = b + 1 := ⟨bound - 1, by omega⟩
    obtain ⟨bound', rfl⟩ : ∃ b, bound' = b + 1 := ⟨bound' - 1, by omega⟩
    have nested : Twins tracking n (upTo table bound) (upTo table bound') :=
      ih (by omega) (by omega)
    exact ⟨upTo_moves table (bound + 1), statementWith_tracks nested less less', fun least =>
      expressionWith_tracks nested less less' least⟩

end Grammar

/-! ### Statements -/

section statements

variable {tracking : Tracking} {table : OperatorTable} {n : Nat}

/-- A bound that is taken from the tokens that are left is large enough for both. -/
theorem tracks_bound {γ δ : Type} {h : γ → δ} {f : Nat → Parser γ} {f' : Nat → Parser δ}
    (moves : ∀ b, Moves none 0 (f b))
    (second : ∀ {m b b'}, m < b → m < b' → Tracks tracking m none h (f b) (f' b')) :
    Tracks tracking n none h (Parser.bound >>= f) (Parser.bound >>= f') := by
  refine ⟨moves_bound moves, fun {c c'} proper _ sees here => ?_⟩
  have enough : c.remaining + 1 < c'.remaining + 2 := by
    have le := tracking.remaining_le here
    omega
  exact (second (Nat.lt_succ_self _) enough).agree proper (Nat.lt_succ_self _) sees here

theorem statement_tracks (table : OperatorTable) :
    Tracks tracking n none (Node.placed tracking.place) (Parser.statement table)
      (Parser.statement table) :=
  tracks_bound (fun b => (Grammar.upTo_moves table b).statement.any) fun less less' =>
    (Grammar.upTo_tracks table less less').statement

theorem skipSemicolons_tracks {bound bound' : Nat} (le : n ≤ bound) (le' : n ≤ bound') :
    Tracks tracking n none id (Reader.skipSemicolons bound) (Reader.skipSemicolons bound') := by
  induction n generalizing bound bound' with
  | zero => exact tracks_zero (Reader.skipSemicolons_moves bound)
  | succ n ih =>
    obtain ⟨bound, rfl⟩ : ∃ b, bound = b + 1 := ⟨bound - 1, by omega⟩
    obtain ⟨bound', rfl⟩ : ∃ b, bound' = b + 1 := ⟨bound' - 1, by omega⟩
    exact tracks_accept nofun (ih (by omega) (by omega)) (tracks_pure ())

/-- Semicolons are passed over in the same way. -/
theorem skipped_tracks :
    Tracks tracking n none id (Parser.bound >>= Reader.skipSemicolons)
      (Parser.bound >>= Reader.skipSemicolons) :=
  tracks_bound Reader.skipSemicolons_moves fun less less' =>
    skipSemicolons_tracks (Nat.le_of_lt less) (Nat.le_of_lt less')

/-- What follows the tree of a statement: a semicolon, which may be missing after a block. -/
def Reader.ending (node : Node) : Parser (Option Node) :=
  if node.endsWithBlock then accept (.mark .semicolon) >>= fun _ => pure (some node)
  else consume (.mark .semicolon) >>= fun _ => pure (some node)

theorem nextStatement_eq (table : OperatorTable) :
    Reader.nextStatement table = (Parser.bound >>= Reader.skipSemicolons) >>= fun _ =>
      check .eof >>= fun last =>
        if last then pure none else Parser.statement table >>= Reader.ending := by
  rw [bind_assoc]
  rfl

theorem ending_tracks (node : Node) :
    Tracks tracking n none (Option.map (Node.placed tracking.place)) (Reader.ending node)
      (Reader.ending (node.placed tracking.place)) := by
  unfold Reader.ending
  rw [Node.endsWithBlock_placed]
  cases node.endsWithBlock with
  | false => exact tracks_bind (tracks_expect _) fun _ => tracks_pure (some node)
  | true => exact tracks_accept nofun (tracks_pure (some node)) (tracks_pure (some node))

/-- **The next statement is read in the same way.** -/
theorem nextStatement_tracks (table : OperatorTable) :
    Tracks tracking n none (Option.map (Node.placed tracking.place)) (Reader.nextStatement table)
      (Reader.nextStatement table) := by
  rw [nextStatement_eq]
  refine tracks_bind skipped_tracks fun _ => tracks_check (tracks_pure none) ?_
  exact tracks_bind (statement_tracks table) ending_tracks

end statements

end Retrace
