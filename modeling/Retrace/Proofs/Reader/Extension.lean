/-
Reading a text that another is written behind.

* `Feed.Cut` — what is read off a feed does not end with a semicolon.
* `Reads.cuts` — no phrase ends with a semicolon.
* `extension` — a cursor over a text that ends with a semicolon, and one over that text
  with another behind it.
* **`nextStatement_extends`** — text behind a semicolon does not change the statements
  before it.
* **`nextStatement_behind`** — where the first text has no statement left, reading goes on
  behind it.

Design notes: the cursor over the first text is lost once it looked at the end of input,
for this is where the other text goes on. It does not look there before it has to, and
no statement makes it, because the semicolon that is left is not part of a statement.
-/
import Retrace.Proofs.Reader.RoundTrip
import Retrace.Proofs.Reader.Tracking

namespace Retrace

open Retrace.Parser Node Tracking

/-! ### What phrases end with -/

/-- What is read off a feed, if it does not end with a semicolon. -/
def Feed.Cut (feed rest : Feed) : Prop :=
  ∃ front, feed = front ++ rest ∧ front.getLast? ≠ some (some (.mark .semicolon))

namespace Feed.Cut

variable {feed feed' rest : Feed} {t : Token}

theorem refl : Feed.Cut feed feed :=
  ⟨[], rfl, nofun⟩

theorem trans (first : Feed.Cut feed feed') (second : feed'.Cut rest) : feed.Cut rest := by
  obtain ⟨front, rfl, hfront⟩ := first
  obtain ⟨front', rfl, hfront'⟩ := second
  refine ⟨front ++ front', (List.append_assoc ..).symm, ?_⟩
  rw [List.getLast?_append]
  cases last : front'.getLast? with
  | none => exact hfront
  | some item =>
    rw [last] at hfront'
    exact hfront'

theorem taken (other : t ≠ .mark .semicolon) : Feed.Cut (some t :: feed) feed :=
  ⟨[some t], rfl, fun same => other (Option.some.inj (Option.some.inj same))⟩

theorem cons (other : t ≠ .mark .semicolon) (h : Feed.Cut feed rest) :
    Feed.Cut (some t :: feed) rest :=
  (taken other).trans h

/-- What ends with a token that is no semicolon. -/
theorem of_suffix (other : t ≠ .mark .semicolon) (h : some t :: rest <:+ feed) :
    feed.Cut rest := by
  obtain ⟨front, rfl⟩ := h
  refine ⟨front ++ [some t], by simp, ?_⟩
  rw [List.getLast?_concat]
  exact fun same => other (Option.some.inj (Option.some.inj same))

theorem suffix (h : feed.Cut rest) : rest <:+ feed := by
  obtain ⟨front, rfl, _⟩ := h
  exact List.suffix_append front rest

end Feed.Cut

/-- How a phrase leaves a rest. Statements between braces may end with a semicolon. -/
def Phrase.Cuts (phrase : Phrase) (feed rest : Feed) : Prop :=
  match phrase with
  | .statements => rest <:+ feed
  | .delimited opening closing _ =>
    opening ≠ .semicolon → closing ≠ .semicolon → feed.Cut rest
  | _ => feed.Cut rest

section

variable {table : OperatorTable} {phrase : Phrase} {feed rest : Feed} {nodes : List Node}

theorem Item.cuts {item : Item} (h : item.phrase.Cuts feed rest) : feed.Cut rest := by
  cases item with
  | parameter | expression => exact h

/-- **No phrase ends with a semicolon**, but for the statements of a block. -/
theorem Reads.cuts (h : Reads table phrase feed nodes rest) : phrase.Cuts feed rest := by
  induction h with
  | name => exact .taken (by nofun)
  | last _ _ _ ih => exact Item.cuts ih
  | more _ _ ih₁ ih₂ => exact (Item.cuts ih₁).trans (.cons (by nofun) ih₂)
  | nothing =>
    intro opening closing
    exact .cons (opening ∘ Token.mark.inj) (.taken (closing ∘ Token.mark.inj))
  | items _ _ ih =>
    intro opening closing
    exact .cons (opening ∘ Token.mark.inj)
      (Feed.Cut.trans ih (.taken (closing ∘ Token.mark.inj)))
  | noStatement => exact List.suffix_rfl
  | @terminated _ _ _ _ _ _ _ ih₁ ih₂ =>
    exact ih₂.trans ((List.suffix_cons ..).trans (Feed.Cut.suffix ih₁))
  | unterminated _ _ _ _ _ ih₁ ih₂ => exact ih₂.trans (Feed.Cut.suffix ih₁)
  | block _ ih => exact .cons (by nofun) (.of_suffix (by nofun) ih)
  | function _ _ ih₁ ih₂ => exact Feed.Cut.trans (ih₁ nofun nofun) ih₂
  | conditional _ _ _ ih₁ ih₂ ih₃ =>
    have behind := Feed.Cut.cons (t := .mark .closeParen) nofun (Feed.Cut.trans ih₂ ih₃)
    exact .cons (by nofun) (.cons (by nofun) (Feed.Cut.trans ih₁ behind))
  | noAlternative => exact .refl
  | elseConditional _ ih | elseBlock _ ih => exact .cons (by nofun) ih
  | leaf isLeaf => exact .taken (by rintro rfl; exact nomatch isLeaf)
  | primaryFunction _ ih => exact .cons (by nofun) ih
  | primaryConditional _ ih | primaryBlock _ ih => exact ih
  | parenthesized _ ih => exact .cons (by nofun) (Feed.Cut.trans ih (.taken (by nofun)))
  | list _ ih => exact ih nofun nofun
  | unapplied => exact .refl
  | applied _ _ ih₁ ih₂ => exact Feed.Cut.trans (ih₁ nofun nofun) ih₂
  | signed sign _ ih => exact .cons (by rintro rfl; exact nomatch sign) ih
  | operand _ _ ih₁ ih₂ => exact Feed.Cut.trans ih₁ ih₂
  | stop => exact .refl
  | climb sign _ _ _ ih₁ ih₂ =>
    exact .cons (by rintro rfl; exact nomatch sign) (Feed.Cut.trans ih₁ ih₂)
  | expression _ _ ih₁ ih₂ => exact Feed.Cut.trans ih₁ ih₂
  | definition _ ih => exact .cons (by nofun) (.cons (by nofun) (.cons (by nofun) ih))
  | namedFunction _ ih => exact .cons (by nofun) (.cons (by nofun) ih)
  | statementConditional _ ih | statementBlock _ ih => exact ih
  | statement _ _ _ _ ih => exact ih

end

/-! ### Text behind a text -/

namespace Cursor

/-- The token consumed last and all that comes after it, the last of which is a token. -/
def Closed (last : Lexeme) (c : Cursor) : Prop :=
  ((c.previous.toList ++ c.ahead).map Except.ok ++ c.upcoming).getLast? = some (.ok last)

/-- A cursor over a text that ends with a token, and one over that text with more behind it. -/
structure Extends (last : Lexeme) (more : List LexItem) (eof : Lexeme) (c c' : Cursor) : Prop where
  same : c' = ⟨c.ahead, c.upcoming ++ more, eof, c.previous⟩
  closed : c.Closed last
  within : ∀ lexeme ∈ c.ahead, lexeme.token ≠ .eof

/-- A cursor that looked at the end of input, and has nothing else before it. -/
structure Ended (c : Cursor) : Prop where
  looked : c.ahead ≠ []
  eof : ∀ lexeme ∈ c.ahead, lexeme.token = .eof
  upcoming : c.upcoming = []

variable {last lexeme eof : Lexeme} {ahead : List Lexeme} {upcoming : List LexItem}
  {previous : Option Lexeme} {c c' : Cursor} {k : Nat}

theorem Closed.seen (h : Closed last ⟨ahead, .ok lexeme :: upcoming, eof, previous⟩) :
    Closed last ⟨ahead ++ [lexeme], upcoming, eof, previous⟩ := by
  unfold Closed at h ⊢
  simpa using h

theorem Closed.dropped {error : LexError}
    (h : Closed last ⟨ahead, .error error :: upcoming, eof, previous⟩) :
    Closed last ⟨ahead, upcoming, eof, previous⟩ := by
  unfold Closed at h ⊢
  cases upcoming with
  | nil =>
    rw [List.getLast?_concat] at h
    exact nomatch Option.some.inj h
  | cons item upcoming =>
    rw [List.getLast?_append, Option.or_of_isSome (by simp)] at h ⊢
    exact h

theorem Closed.consumed (h : Closed last ⟨lexeme :: ahead, upcoming, eof, previous⟩) :
    Closed last ⟨ahead, upcoming, eof, some lexeme⟩ := by
  unfold Closed at h ⊢
  rw [List.map_append, List.append_assoc, List.getLast?_append, Option.or_of_isSome (by simp)] at h
  exact h

/-- With nothing upcoming the last token is the last that was looked at. -/
theorem Closed.mem_ahead (h : Closed last ⟨ahead, [], eof, previous⟩) (looked : ahead ≠ []) :
    last ∈ ahead := by
  have split : ((previous.toList ++ ahead).map Except.ok : List LexItem).getLast? =
      some (.ok last) := by
    rw [← List.append_nil (List.map _ _)]
    exact h
  rw [List.map_append, List.getLast?_append, Option.or_of_isSome (by simpa using looked)] at split
  obtain ⟨_, member, same⟩ := List.mem_map.mp (List.mem_of_getLast? split)
  exact Except.ok.inj same ▸ member

theorem Step.keeps_ended (step : Step k c c') (proper : c.Proper) (h : c.Ended) : c'.Ended := by
  obtain ⟨looked, all, upcoming⟩ := h
  cases step with
  | seen | dropped => exact absurd upcoming (List.cons_ne_nil _ _)
  | ended =>
    refine ⟨by simp, fun lexeme member => ?_, rfl⟩
    rcases List.mem_append.mp member with before | here
    · exact all lexeme before
    · rw [List.mem_singleton.mp here]
      exact proper.eof
  | consumed other => exact absurd (all _ (.head _)) other
  | stayed => exact ⟨looked, all, upcoming⟩

end Cursor

section

variable {last : Lexeme} {semicolon : last.token = .mark .semicolon} {more : List LexItem}
  {eof : Lexeme} {c c' c₁ : Cursor}

/-- A look is the same before more text, unless it comes to the end of input. A last token that
was looked at already would be a semicolon. -/
theorem lookFurther_extends (semicolon : last.token = .mark .semicolon) (proper : c.Proper)
    (here : c.Extends last more eof c')
    (open_end : ∀ lexeme ∈ c.ahead, lexeme.token ≠ .mark .semicolon) :
    Pairing.Agree ⟨id, Cursor.Extends last more eof, Cursor.Ended⟩ id (lookFurther c)
      (lookFurther c') := by
  obtain ⟨rfl, closed, within⟩ := here
  obtain ⟨ahead, upcoming, eof', previous⟩ := c
  rcases upcoming with _ | ⟨error | lexeme, upcoming⟩
  · have none_ahead : ahead = [] := by
      refine Classical.byContradiction fun looked => ?_
      exact open_end last (closed.mem_ahead looked) semicolon
    subst none_ahead
    have isEof : ∀ lexeme ∈ [eof'], lexeme.token = .eof :=
      List.forall_mem_singleton.mpr proper.eof
    exact .inl ⟨List.cons_ne_nil _ _, isEof, rfl⟩
  · exact .inr ⟨_, rfl, rfl, closed.dropped, within⟩
  · refine .inr ⟨_, rfl, rfl, closed.seen, fun lexeme' member => ?_⟩
    rcases List.mem_append.mp member with before | here
    · exact within lexeme' before
    · rw [List.mem_singleton.mp here]
      exact proper.upcoming lexeme (.head _)

namespace Cursor.Extends

theorem ahead_eq (h : c.Extends last more eof c') : c'.ahead = c.ahead.map (Lexeme.placed id) := by
  rw [h.same]
  exact (List.map_id _).symm

theorem currentSpan_eq (h : c.Extends last more eof c') :
    c'.currentSpan = c.currentSpan := by
  rw [h.same]
  rfl

theorem previous_eq (h : c.Extends last more eof c') : c'.previous = c.previous := by
  rw [h.same]

theorem remaining (h : c.Extends last more eof c') :
    c'.remaining = c.remaining + more.length := by
  rw [h.same]
  simp only [Cursor.remaining, List.length_append]
  omega

/-- Consuming a token that was looked at keeps the texts side by side. -/
theorem consumed {lexeme : Lexeme} {ahead : List Lexeme} (h : c.Extends last more eof c')
    (first : c.ahead = lexeme :: ahead) :
    Extends last more eof
      { c with
        ahead := if lexeme.token = .eof then c.ahead else ahead
        previous := some lexeme }
      { c' with
        ahead := if lexeme.token = .eof then c'.ahead else ahead.map (Lexeme.placed id)
        previous := some (lexeme.placed id) } := by
  obtain ⟨_, upcoming, eof', previous⟩ := c
  obtain rfl := first
  obtain ⟨rfl, closed, within⟩ := h
  have other : lexeme.token ≠ .eof := within lexeme (.head _)
  simp only [if_neg other]
  refine ⟨?_, closed.consumed, fun lexeme' member => within lexeme' (.tail _ member)⟩
  exact congrArg (Cursor.mk · _ _ _) (List.map_id _)

end Cursor.Extends

/-- A cursor over a text that ends with a semicolon, and one over that text with another behind
it. -/
def extension (last : Lexeme) (semicolon : last.token = .mark .semicolon) (more : List LexItem)
    (eof : Lexeme) : Tracking where
  place := id
  together := Cursor.Extends last more eof
  lost := Cursor.Ended
  place_join _ _ := rfl
  place_emptyAt _ := rfl
  ahead h := h.ahead_eq
  current h := h.currentSpan_eq
  latest h consumed := h.previous_eq.trans consumed
  remaining_le h := Nat.le.intro h.remaining.symm
  look := lookFurther_extends semicolon
  advanced h first := h.consumed first
  lost_step proper step here := step.keeps_ended proper here

theorem Cursor.Extends.not_ended (h : c.Extends last more eof c') : ¬c.Ended := by
  intro ended
  obtain ⟨lexeme, member⟩ := List.exists_mem_of_ne_nil _ ended.looked
  exact h.within lexeme member (ended.eof lexeme member)

/-- A cursor with something before it is not at the end. -/
theorem Cursor.not_ended_of_feed (filled : c.feed ≠ []) : ¬c.Ended := by
  intro ended
  have none_ahead : c.ahead.filter (·.token ≠ .eof) = [] :=
    List.filter_eq_nil_iff.mpr fun lexeme member => by simpa using ended.eof lexeme member
  rw [Cursor.feed, none_ahead, ended.upcoming] at filled
  exact filled rfl

/-- What is before a cursor over the first text ends with the semicolon. -/
theorem Cursor.Extends.feed_getLast? (semicolon : last.token = .mark .semicolon)
    (h : c.Extends last more eof c') (filled : c.feed ≠ []) :
    c.feed.getLast? = some (some (.mark .semicolon)) := by
  have feed : c.feed = (c.ahead.map Except.ok ++ c.upcoming).map tokenOf := by
    rw [Cursor.feed_eq (List.append_nil _).symm h.within (List.forall_mem_nil _),
      List.map_append, List.map_map]
    rfl
  have closed : (c.ahead.map Except.ok ++ c.upcoming).getLast? = some (.ok last) := by
    have all := h.closed
    unfold Cursor.Closed at all
    have some_left : c.ahead.map Except.ok ++ c.upcoming ≠ [] := fun empty =>
      filled (by rw [feed, empty, List.map_nil])
    rw [List.map_append, List.append_assoc, List.getLast?_append,
      Option.or_of_isSome (List.getLast?_isSome.mpr some_left)] at all
    exact all
  rw [feed, List.getLast?_map, closed, ← semicolon]
  rfl

/-- A parser that comes to a result after another does so from a result of that. -/
theorem bind_result {α β : Type} {p : Parser α} {f : α → Parser β} {b : β}
    (result : (p >>= f) c = .ok b c') : ∃ a c₁, p c = .ok a c₁ ∧ f a c₁ = .ok b c' := by
  change EStateM.bind p f c = _ at result
  rw [EStateM.bind] at result
  cases first : p c with
  | ok a c₁ =>
    rw [first] at result
    exact ⟨a, c₁, rfl, result⟩
  | error e c₁ =>
    rw [first] at result
    cases result

/-- What follows a result. -/
theorem bind_of_result {α β : Type} {p : Parser α} {f : α → Parser β} {a : α}
    (result : p c = .ok a c₁) : (p >>= f) c = f a c₁ := by
  show EStateM.bind p f c = _
  rw [EStateM.bind, result]

/-- A look at what is left leaves it, and does not come to the end. -/
theorem check_extends {t : Token} {found : Bool} (semicolon : last.token = .mark .semicolon)
    (proper : c.Proper) (here : c.Extends last more eof c') (filled : c.feed ≠ [])
    (result : check t c = .ok found c₁) :
    c₁.feed = c.feed ∧ (found = true → c₁.Sees (some t)) ∧
      ∃ c₁', check t c' = .ok found c₁' ∧ c₁.Extends last more eof c₁' := by
  have yields : Yields True (check t) c.feed fun _ rest => rest = c.feed :=
    yields_check (fun _ => rfl) (fun _ _ _ => rfl) fun _ => trivial
  have same := (yields.result proper result).2
  have kept : ¬c₁.Ended := Cursor.not_ended_of_feed (same ▸ filled)
  have tracks : Tracks (extension last semicolon more eof) (c.remaining + 1) none id (check t)
      (check t) := tracks_checked t
  refine ⟨same, fun yes => ?_, tracks.found proper here result kept⟩
  obtain ⟨t', c₂, looked, last⟩ := bind_result result
  have sees := peek_comes c
  rw [Comes, looked] at sees
  obtain ⟨rfl, rfl⟩ := EStateM.Result.ok.inj last
  obtain rfl := of_decide_eq_true yes
  exact sees.2

/-- A semicolon that is consumed leaves a cursor that did not look at the end. -/
theorem advance_extends {lexeme : Lexeme} (semicolon : last.token = .mark .semicolon)
    (here : c.Extends last more eof c') {t : Token} (sees : c.Sees (some t))
    (result : advance c = .ok lexeme c₁) :
    ∃ c₁', advance c' = .ok lexeme c₁' ∧ c₁.Extends last more eof c₁' := by
  obtain ⟨lexeme', ahead, first, _⟩ := sees t rfl
  have first' : c'.ahead = lexeme' :: ahead := by rw [here.same, first]
  rw [advance_seen first] at result
  obtain ⟨rfl, rfl⟩ := EStateM.Result.ok.inj result
  refine ⟨_, advance_seen first', ?_⟩
  have both := (extension last semicolon more eof).advanced here first
  have same : ahead.map (Lexeme.placed (extension last semicolon more eof).place) = ahead :=
    List.map_id ahead
  rwa [same] at both

/-- Whether a semicolon comes next is the same before more text. -/
theorem accept_extends {found : Bool} (semicolon : last.token = .mark .semicolon)
    (proper : c.Proper) (here : c.Extends last more eof c') (filled : c.feed ≠ [])
    (result : accept (.mark .semicolon) c = .ok found c₁) :
    ∃ c₁', accept (.mark .semicolon) c' = .ok found c₁' ∧ c₁.Extends last more eof c₁' := by
  obtain ⟨yes, c₂, checked, result⟩ := bind_result result
  obtain ⟨_, sees, c₂', checked', there⟩ := check_extends semicolon proper here filled checked
  rw [accept, bind_of_result checked']
  cases yes with
  | false =>
    obtain ⟨rfl, rfl⟩ := EStateM.Result.ok.inj result
    exact ⟨c₂', rfl, there⟩
  | true =>
    obtain ⟨lexeme, c₃, taken, result⟩ := bind_result result
    obtain ⟨rfl, rfl⟩ := EStateM.Result.ok.inj result
    obtain ⟨c₃', taken', there'⟩ := advance_extends semicolon there (sees rfl) taken
    exact ⟨c₃', bind_of_result taken', there'⟩

/-- The end of a statement is before the end of the first text, or at it. -/
theorem ending_extends {node : Node} {r : Option Node} (semicolon : last.token = .mark .semicolon)
    (proper : c.Proper) (here : c.Extends last more eof c') (filled : c.feed ≠ [])
    (result : Reader.ending node c = .ok r c₁) : ¬c₁.Ended := by
  unfold Reader.ending at result
  split at result
  · obtain ⟨found, c₂, accepted, result⟩ := bind_result result
    obtain ⟨_, rfl⟩ := EStateM.Result.ok.inj result
    obtain ⟨_, _, there⟩ := accept_extends semicolon proper here filled accepted
    exact there.not_ended
  · obtain ⟨lexeme, c₂, consumed, result⟩ := bind_result result
    obtain ⟨_, rfl⟩ := EStateM.Result.ok.inj result
    obtain ⟨yes, c₃, checked, taken⟩ := bind_result consumed
    obtain ⟨_, sees, _, _, there⟩ := check_extends semicolon proper here filled checked
    cases yes with
    | false => cases taken
    | true =>
      obtain ⟨_, _, there'⟩ := advance_extends semicolon there (sees rfl) taken
      exact there'.not_ended

/-- What a statement leaves of a feed that ends with a semicolon. -/
theorem Feed.Cut.filled {feed rest : Feed} (h : feed.Cut rest)
    (ends : feed.getLast? = some (some (.mark .semicolon))) : rest ≠ [] := by
  rintro rfl
  obtain ⟨front, rfl, other⟩ := h
  rw [List.append_nil] at ends
  exact other ends

theorem yields_statement_cut (table : OperatorTable) (feed : Feed) :
    Yields True (Parser.statement table) feed fun _ rest => feed.Cut rest :=
  yields_bound (((Grammar.upTo_sound table _).statement feed).mono fun _ _ reads => reads.cuts)

/-- A cursor that is not at the end after semicolons has something before it. -/
theorem yields_filled (feed : Feed) :
    Yields True (check .eof) feed fun atEnd _ => atEnd = false → feed ≠ [] := by
  refine yields_check (fun _ => nofun) (fun t next other _ => ?_) fun _ => trivial
  obtain ⟨rest, rfl⟩ := Feed.cons_of_next next other
  exact List.cons_ne_nil _ _

/-- **Text behind a semicolon does not change the statements before it.** -/
theorem nextStatement_extends {table : OperatorTable} {node : Node}
    (semicolon : last.token = .mark .semicolon) (proper : c.Proper)
    (here : c.Extends last more eof c')
    (result : Reader.nextStatement table c = .ok (some node) c₁) :
    ∃ c₁', Reader.nextStatement table c' = .ok (some node) c₁' ∧ c₁.Extends last more eof c₁' := by
  let tracking := extension last semicolon more eof
  have kept : ¬c₁.Ended := by
    rw [nextStatement_eq] at result
    obtain ⟨_, c₂, skipped, result⟩ := bind_result result
    obtain ⟨atEnd, c₃, checked, result⟩ := bind_result result
    have proper₂ : c₂.Proper :=
      ((moves_bound Reader.skipSemicolons_moves).reaches Cursor.sees_none skipped).proper proper
    cases atEnd with
    | true => exact nomatch (EStateM.Result.ok.inj result).1
    | false =>
      obtain ⟨proper₃, filled₂⟩ := (yields_filled c₂.feed).result proper₂ checked
      have tracks₂ : Tracks tracking (c.remaining + 1) none id _ _ := skipped_tracks
      obtain ⟨_, _, here₂⟩ := tracks₂.found proper here skipped
        (Cursor.not_ended_of_feed (filled₂ rfl))
      obtain ⟨same, _, _, _, here₃⟩ :=
        check_extends semicolon proper₂ here₂ (filled₂ rfl) checked
      have filled₃ : c₃.feed ≠ [] := same ▸ filled₂ rfl
      -- what the statement leaves ends with the semicolon still
      obtain ⟨node', c₄, stated, result⟩ := bind_result result
      obtain ⟨proper₄, cut⟩ := (yields_statement_cut table c₃.feed).result proper₃ stated
      have filled₄ := cut.filled (here₃.feed_getLast? semicolon filled₃)
      have tracks₄ : Tracks tracking (c₃.remaining + 1) none _ _ _ := statement_tracks table
      obtain ⟨_, _, here₄⟩ := tracks₄.found proper₃ here₃ stated
        (Cursor.not_ended_of_feed filled₄)
      exact ending_extends semicolon proper₄ here₄ filled₄ result
  have tracks : Tracks tracking (c.remaining + 1) none _ _ _ := nextStatement_tracks table
  obtain ⟨c₁', result', there⟩ := tracks.found proper here result kept
  refine ⟨c₁', ?_, there⟩
  have same : Option.map (Node.placed tracking.place) (some node) = some node :=
    congrArg some node.placed_id
  rw [result', same]

/-! ### Where the second text begins -/

/-- The end of input is not in the feed of a cursor that comes up in reading. -/
theorem Cursor.Proper.eof_notMem (proper : c.Proper) : some Token.eof ∉ c.feed := by
  intro member
  rw [Cursor.feed, List.mem_append, List.mem_map, List.mem_map] at member
  rcases member with ⟨lexeme, inside, token⟩ | ⟨item, inside, token⟩
  · have other := (List.mem_filter.mp inside).2
    rw [Option.some.inj token] at other
    cases other
  · cases item with
    | ok lexeme => exact proper.upcoming lexeme inside (Option.some.inj token)
    | error e => cases token

/-- Where the end of input comes next, nothing is left. -/
theorem Cursor.Proper.feed_nil (proper : c.Proper) (next : c.feed.next = some .eof) :
    c.feed = [] := by
  cases feed : c.feed with
  | nil => rfl
  | cons item rest =>
    rw [feed] at next
    have first : item = some .eof := next
    exact absurd (by rw [feed, first]; exact .head _) proper.eof_notMem

theorem yields_skipped_all (feed : Feed) (bound : Nat) :
    Yields True (Reader.skipSemicolons bound) feed fun _ rest =>
      ∃ front, feed = front ++ rest ∧ ∀ item ∈ front, item = some (.mark .semicolon) := by
  induction bound generalizing feed with
  | zero => exact yields_spent trivial
  | succ bound ih =>
    refine yields_bind (yields_accept (fun next => ?_) (fun _ _ _ => ?_) fun _ => trivial)
    · obtain ⟨feed, rfl⟩ := Feed.cons_of_next next nofun
      refine (ih feed).mono ?_
      rintro _ rest ⟨front, rfl, all⟩
      exact ⟨_ :: front, rfl, List.forall_mem_cons.mpr ⟨rfl, all⟩⟩
    · exact yields_pure ⟨[], rfl, List.forall_mem_nil _⟩

/-- Without a statement there are semicolons only. -/
theorem semicolons_of_none {table : OperatorTable} (proper : c.Proper)
    (result : Reader.nextStatement table c = .ok none c₁) :
    ∀ item ∈ c.feed, item = some (.mark .semicolon) := by
  rw [nextStatement_eq] at result
  obtain ⟨_, c₂, skipped, result⟩ := bind_result result
  obtain ⟨atEnd, c₃, checked, result⟩ := bind_result result
  have skips : Yields True (Parser.bound >>= Reader.skipSemicolons) c.feed _ :=
    yields_bound (yields_skipped_all c.feed _)
  obtain ⟨proper₂, front, split, all⟩ := skips.result proper skipped
  have ends : Yields True (check .eof) c₂.feed fun atEnd _ =>
      atEnd = true → c₂.feed.next = some .eof :=
    yields_check (fun next _ => next) (fun _ _ _ => nofun) fun _ => trivial
  have next := (ends.result proper₂ checked).2
  cases atEnd with
  | false =>
    -- a statement that is read is a result that is some
    exfalso
    obtain ⟨node, c₄, _, result⟩ := bind_result result
    unfold Reader.ending at result
    split at result <;> obtain ⟨_, _, _, result⟩ := bind_result result <;>
      exact nomatch (EStateM.Result.ok.inj result).1
  | true =>
    rw [split, proper₂.feed_nil (next rfl), List.append_nil]
    exact all

/-- A semicolon in front of a cursor can be taken. -/
theorem accept_semicolon {feed : Feed} (proper : c.Proper)
    (next : c.feed = some (.mark .semicolon) :: feed) :
    ∃ c', accept (.mark .semicolon) c = .ok true c' ∧ c'.Proper ∧ c'.feed = feed := by
  have accepts : Yields False (accept (.mark .semicolon)) (some (.mark .semicolon) :: feed)
      fun found rest => found = true ∧ rest = feed :=
    yields_accept (fun _ => ⟨rfl, rfl⟩)
      (fun _ next other => absurd (Option.some.inj next).symm other) nofun
  have run := accepts c proper next
  cases accepted : accept (.mark .semicolon) c with
  | error e c' =>
    rw [accepted] at run
    exact absurd run id
  | ok found c' =>
    rw [accepted] at run
    obtain ⟨proper', rfl, rest⟩ := run
    exact ⟨c', rfl, proper', rest⟩

/-- A semicolon in front of a statement makes no difference. -/
theorem nextStatement_skips {table : OperatorTable} (less : c.remaining = c₁.remaining + 1)
    (accepted : accept (.mark .semicolon) c = .ok true c₁) :
    Reader.nextStatement table c = Reader.nextStatement table c₁ := by
  have skips : (Parser.bound >>= Reader.skipSemicolons) c =
      (Parser.bound >>= Reader.skipSemicolons) c₁ := by
    show Reader.skipSemicolons (c.remaining + 2) c = Reader.skipSemicolons (c₁.remaining + 2) c₁
    rw [less, Reader.skipSemicolons, bind_of_result accepted]
    rfl
  rw [nextStatement_eq]
  show EStateM.bind _ _ c = EStateM.bind _ _ c₁
  rw [EStateM.bind, EStateM.bind, skips]

/-- Behind the semicolons at the end of the first text, reading goes on behind it. -/
theorem nextStatement_behind {table : OperatorTable} (semicolon : last.token = .mark .semicolon)
    (proper : c.Proper) (here : c.Extends last more eof c')
    (all : ∀ item ∈ c.feed, item = some (.mark .semicolon)) :
    Reader.nextStatement table c' = Reader.nextStatement table ⟨[], more, eof, some last⟩ := by
  generalize same : c.feed = feed at all
  induction feed generalizing c c' with
  | nil =>
    obtain ⟨rfl, closed, within⟩ := here
    obtain ⟨ahead, upcoming, eof', previous⟩ := c
    rw [Cursor.feed_eq (List.append_nil _).symm within (List.forall_mem_nil _),
      List.append_eq_nil_iff, List.map_eq_nil_iff, List.map_eq_nil_iff] at same
    obtain ⟨rfl, rfl⟩ : ahead = [] ∧ upcoming = [] := same
    obtain rfl : previous = some last := by
      cases previous with
      | none => cases closed
      | some lexeme => exact congrArg some (Except.ok.inj (Option.some.inj closed))
    rfl
  | cons item feed ih =>
    obtain rfl : item = some (.mark .semicolon) := all item (.head _)
    obtain ⟨c₁, accepted, proper₁, same₁⟩ := accept_semicolon proper same
    have filled : c.feed ≠ [] := by
      rw [same]
      exact List.cons_ne_nil _ _
    obtain ⟨c₁', accepted', there⟩ := accept_extends semicolon proper here filled accepted
    have less : c'.remaining = c₁'.remaining + 1 := by
      rw [here.remaining, there.remaining, remaining_eq, remaining_eq, same, same₁,
        List.length_cons]
      omega
    rw [nextStatement_skips less accepted']
    exact ih proper₁ there same₁ fun item member => all item (.tail _ member)

end

end Retrace
