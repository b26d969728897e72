/-
The spans that a cursor holds.

* `lexThrough_usable` — the items of a text begin and end between its characters.
* `Cursor.Aligned` — the spans that a cursor holds are usable, and each is behind those before it.
* `Cursor.Onward` — what the token consumed last and the next one are to those of a later cursor.
* `Step.aligned`, `Step.onward` — steps keep the one and do the other.
* `Cursor.Path` — the spans on the way from one cursor to another.
* **`Path.join`** — the span from the first to the last of them holds all.
* `Parser.Lands` — from a cursor, a parser comes to a result of which an assertion holds, or its
  error is in a usable place.
* **`lands_bind`**, **`lands_advance`** and so on — the steps that parsers are made of.

Design notes: a cursor holds the span of the token consumed last, of those that were looked at and
of those that are left. Errors take one of these, or the empty span behind the first, so nothing is
ever said of where an error comes from. The end of input is advanced to any number of times. It is
empty, so it may stand behind itself.
-/
import Retrace.Proofs.Reader.Position
import Retrace.Proofs.Source.Spans

namespace Retrace

open Retrace.Parser

variable {text : String}

/-- The items of a text, with its end, begin and end between its characters. -/
theorem lexThrough_usable : ∀ item ∈ lexThrough text, item.span.Usable text := by
  intro item member
  obtain ⟨front, back, split⟩ := List.append_of_mem member
  obtain ⟨before, gap, piece, after, whole, _, place, _⟩ := (lexThrough_tiles text).cut split
  rw [Nat.zero_add, ← Text.width_append] at place
  exact Span.usable_iff.mpr ⟨before ++ gap, piece, after, whole, place⟩

namespace Cursor

/-- The spans that a cursor holds: of the token consumed last, of those that were looked at, of
those that are left and of the end. -/
def held (c : Cursor) : List Span :=
  c.previousSpan :: (c.ahead.map (·.span) ++ c.upcoming.map LexItem.span ++ [c.eof.span])

/-- The spans that a cursor holds are usable, and each is behind those before it. -/
structure Aligned (text : String) (c : Cursor) : Prop where
  within : c.Within text
  usable : ∀ span ∈ c.held, span.Usable text
  ordered : c.held.Pairwise fun a b => a.stop ≤ b.start

variable {c c' c'' : Cursor} {k : Nat}

theorem ofText_aligned (text : String) : (ofText text).Aligned text := by
  have items : (ofText text).held = .emptyAt 0 :: (lexThrough text).map LexItem.span := by
    rw [lexThrough, List.map_append]
    rfl
  refine ⟨ofText_within text, ?_, ?_⟩
  · rw [items]
    refine List.forall_mem_cons.mpr ⟨?_, List.forall_mem_map.mpr lexThrough_usable⟩
    exact Span.usable_iff.mpr ⟨[], [], text.toList, rfl, rfl⟩
  · rw [items]
    refine List.pairwise_cons.mpr ⟨fun _ _ => Nat.zero_le _, List.pairwise_map.mpr ?_⟩
    exact (lexThrough_tiles text).pairwise.imp And.right

/-- Steps keep what a cursor holds in order. -/
theorem Step.aligned (step : Step k c c') (h : c.Aligned text) : c'.Aligned text := by
  have within := step.within h.within
  obtain ⟨⟨proper, last, ends, _⟩, usable, ordered⟩ := h
  cases step with
  | @seen ahead lexeme upcoming eof previous =>
    have same : held ⟨ahead ++ [lexeme], upcoming, eof, previous⟩ =
        held ⟨ahead, .ok lexeme :: upcoming, eof, previous⟩ := by
      simp [held, LexItem.span, previousSpan]
    exact ⟨within, same ▸ usable, same ▸ ordered⟩
  | @ended ahead eof previous =>
    have more : held ⟨ahead ++ [eof], [], eof, previous⟩ =
        held ⟨ahead, [], eof, previous⟩ ++ [eof.span] := by
      simp [held, previousSpan]
    -- the end of input is behind all that a usable span can hold
    have isLast : eof = eofOf text := last
    refine ⟨within, ?_, ?_⟩
    · rw [more]
      refine List.forall_mem_append.mpr ⟨usable, List.forall_mem_singleton.mpr ?_⟩
      exact usable eof.span (by simp [held])
    · rw [more]
      refine List.pairwise_append.mpr ⟨ordered, List.pairwise_singleton _ _, fun span member => ?_⟩
      rw [isLast, List.forall_mem_singleton]
      exact (usable span member).inside.trans_eq (Text.width_toList text).symm
  | @dropped ahead error upcoming eof previous =>
    have fewer : (held ⟨ahead, upcoming, eof, previous⟩).Sublist
        (held ⟨ahead, .error error :: upcoming, eof, previous⟩) :=
      .cons_cons _ (.append (.append (.refl _) (.cons _ (.refl _))) (.refl _))
    exact ⟨within, fun span member => usable span (fewer.subset member), ordered.sublist fewer⟩
  | @consumed lexeme ahead upcoming eof previous other =>
    exact ⟨within, fun span member => usable span (.tail _ member), ordered.of_cons⟩
  | @stayed lexeme ahead upcoming eof previous isEof =>
    -- the end of input is now held twice, and is empty
    have isLast : lexeme = eofOf text := ends lexeme (.head _) isEof
    have empty : lexeme.span.stop ≤ lexeme.span.start := by
      rw [isLast]
      exact Nat.le_refl _
    have behind := List.pairwise_cons.mp ordered.of_cons
    refine ⟨within, fun span member => ?_, ?_⟩
    · rcases List.mem_cons.mp member with rfl | later
      · exact usable _ (.tail _ (.head _))
      · exact usable span (.tail _ later)
    · refine List.pairwise_cons.mpr ⟨fun span member => ?_, ordered.of_cons⟩
      rcases List.mem_cons.mp member with rfl | later
      · exact empty
      · exact behind.1 span later

/-! ### Onward -/

/-- The token consumed last and the next one are no later than those of another cursor. -/
structure Onward (c c' : Cursor) : Prop where
  previous : c.previousSpan.Upto c'.previousSpan
  current : c.currentSpan.Upto c'.currentSpan

theorem Onward.refl (c : Cursor) : c.Onward c :=
  ⟨.refl _, .refl _⟩

theorem Onward.trans (first : c.Onward c') (second : c'.Onward c'') : c.Onward c'' :=
  ⟨first.previous.trans second.previous, first.current.trans second.current⟩

theorem currentSpan_nil {upcoming : List LexItem} {eof : Lexeme} {previous : Option Lexeme} :
    currentSpan ⟨[], upcoming, eof, previous⟩ =
      .emptyAt (previousSpan ⟨[], upcoming, eof, previous⟩).stop := by
  cases previous <;> rfl

namespace Aligned

theorem previous (h : c.Aligned text) : c.previousSpan.Usable text :=
  h.usable _ (.head _)

/-- What a cursor holds behind the token consumed last. -/
theorem behind (h : c.Aligned text) {span : Span} (member : span ∈ c.held.tail) :
    c.previousSpan.stop ≤ span.start ∧ span.Usable text :=
  ⟨(List.pairwise_cons.mp h.ordered).1 span member, h.usable span (.tail _ member)⟩

/-- The next token is behind the one consumed last. -/
theorem current (h : c.Aligned text) :
    c.previousSpan.stop ≤ c.currentSpan.start ∧ c.currentSpan.Usable text := by
  obtain ⟨ahead, upcoming, eof, previous⟩ := c
  cases ahead with
  | nil =>
    rw [currentSpan_nil]
    exact ⟨Nat.le_refl _, h.previous.emptyAt⟩
  | cons lexeme ahead => exact h.behind (.head _)

theorem emptyAt_upto (h : c.Aligned text) :
    (Span.emptyAt c.previousSpan.stop).Upto c.currentSpan :=
  ⟨h.current.1, h.current.1.trans h.current.2.order⟩

theorem previous_upto (h : c.Aligned text) : c.previousSpan.Upto c.currentSpan :=
  ⟨h.previous.order.trans h.current.1, h.emptyAt_upto.stop⟩

end Aligned

theorem Step.onward (step : Step k c c') (h : c.Aligned text) : c.Onward c' := by
  have h' := step.aligned h
  cases step with
  | @seen ahead | @ended ahead =>
    refine ⟨.refl _, ?_⟩
    cases ahead with
    | nil =>
      rw [currentSpan_nil]
      exact h'.emptyAt_upto
    | cons first ahead => exact .refl _
  | @dropped ahead =>
    refine ⟨.refl _, ?_⟩
    cases ahead with
    | nil =>
      rw [currentSpan_nil, currentSpan_nil]
      exact .refl _
    | cons first ahead => exact .refl _
  | consumed => exact ⟨h.previous_upto, h'.previous_upto⟩
  | stayed => exact ⟨h.previous_upto, .refl _⟩

/-! ### Paths -/

/-- The spans on the way from one cursor to another: each is behind those before it, and all are
behind the first cursor and in front of the second. -/
structure Path (text : String) (c c' : Cursor) (spans : List Span) : Prop where
  aligned : c'.Aligned text
  onward : c.Onward c'
  usable : ∀ span ∈ spans, span.Usable text
  start : ∀ span ∈ spans, c.currentSpan.start ≤ span.start
  stop : ∀ span ∈ spans, span.stop ≤ c'.previousSpan.stop
  ordered : spans.Pairwise fun a b => a.stop ≤ b.start

variable {spans others : List Span}

theorem Path.refl (h : c.Aligned text) : Path text c c [] :=
  ⟨h, .refl c, nofun, nofun, nofun, .nil⟩

/-- A step is a path. -/
theorem Step.path (step : Step k c c') (h : c.Aligned text) : Path text c c' [] :=
  ⟨step.aligned h, step.onward h, nofun, nofun, nofun, .nil⟩

/-- A path with fewer spans on it. -/
theorem Path.sublist (path : Path text c c' spans) (fewer : others.Sublist spans) :
    Path text c c' others :=
  ⟨path.aligned, path.onward, fun span member => path.usable span (fewer.subset member),
    fun span member => path.start span (fewer.subset member),
    fun span member => path.stop span (fewer.subset member), path.ordered.sublist fewer⟩

/-- **One path after another.** -/
theorem Path.append (first : Path text c c' spans) (second : Path text c' c'' others) :
    Path text c c'' (spans ++ others) where
  aligned := second.aligned
  onward := first.onward.trans second.onward
  usable := List.forall_mem_append.mpr ⟨first.usable, second.usable⟩
  start := List.forall_mem_append.mpr ⟨first.start, fun span member =>
    first.onward.current.start.trans (second.start span member)⟩
  stop := List.forall_mem_append.mpr ⟨fun span member =>
    (first.stop span member).trans second.onward.previous.stop, second.stop⟩
  ordered := List.pairwise_append.mpr ⟨first.ordered, second.ordered, fun a ha b hb =>
    ((first.stop a ha).trans first.aligned.current.1).trans (second.start b hb)⟩

/-- The way on, without the spans on it. -/
theorem Path.past (first : Path text c c' spans) (second : Path text c' c'' others) :
    Path text c c'' spans :=
  (first.append second).sublist (List.sublist_append_left _ _)

/-- The way up to a path, without the spans on it. -/
theorem Path.before (first : Path text c c' spans) (second : Path text c' c'' others) :
    Path text c c'' others :=
  (first.append second).sublist (List.sublist_append_right _ _)

/-- The first span of a path begins first. -/
theorem Path.first_start {first : Span} (path : Path text c c' (first :: spans)) :
    ∀ span ∈ first :: spans, first.start ≤ span.start := by
  have order := (path.usable first (.head _)).order
  refine List.forall_mem_cons.mpr ⟨Nat.le_refl _, fun span member => ?_⟩
  exact order.trans ((List.pairwise_cons.mp path.ordered).1 span member)

/-- The last span of a path ends last. -/
theorem Path.last_stop {last : Span} (path : Path text c c' (spans ++ [last])) :
    ∀ span ∈ spans ++ [last], span.stop ≤ last.stop := by
  have order := (path.usable last (List.mem_append_right _ (.head _))).order
  have behind := (List.pairwise_append.mp path.ordered).2.2
  refine List.forall_mem_append.mpr ⟨fun span member => ?_, ?_⟩
  · exact (behind span member last (.head _)).trans order
  · exact List.forall_mem_singleton.mpr (Nat.le_refl _)

/-- An empty span where the last one stops. -/
theorem Path.emptyAt {span : Span} (path : Path text c c' (spans ++ [span])) :
    Path text c c' (spans ++ [span] ++ [.emptyAt span.stop]) := by
  have member : span ∈ spans ++ [span] := List.mem_append_right _ (.head _)
  have usable := path.usable span member
  refine ⟨path.aligned, path.onward, ?_, ?_, ?_, ?_⟩
  · exact List.forall_mem_append.mpr ⟨path.usable, List.forall_mem_singleton.mpr usable.emptyAt⟩
  · exact List.forall_mem_append.mpr ⟨path.start, List.forall_mem_singleton.mpr
      ((path.start span member).trans usable.order)⟩
  · exact List.forall_mem_append.mpr ⟨path.stop, List.forall_mem_singleton.mpr
      (path.stop span member)⟩
  · refine List.pairwise_append.mpr ⟨path.ordered, List.pairwise_singleton _ _, fun a ha => ?_⟩
    exact List.forall_mem_singleton.mpr (path.last_stop a ha)

/-- **The span from the first to the last of a path holds all of them.** The first may be taken to
begin or to end earlier. -/
theorem Path.join {first last begun : Span} (path : Path text c c' (first :: (spans ++ [last])))
    (start : c.currentSpan.start ≤ begun.start) (upto : begun.Upto first)
    (usable : begun.Usable text) :
    Path text c c' [begun.join last] ∧
      ∀ span ∈ first :: (spans ++ [last]), span.Within (begun.join last) := by
  have last_mem : last ∈ first :: (spans ++ [last]) := by simp
  have from_first := path.first_start
  have to_last := @Path.last_stop text c c' (first :: spans) last path
  refine ⟨⟨path.aligned, path.onward, ?_, ?_, ?_, List.pairwise_singleton _ _⟩, ?_⟩
  · exact List.forall_mem_singleton.mpr (usable.join (path.usable last last_mem))
  · exact List.forall_mem_singleton.mpr (Nat.le_min.mpr ⟨start, path.start last last_mem⟩)
  · exact List.forall_mem_singleton.mpr (Nat.max_le.mpr
      ⟨upto.stop.trans (path.stop first (.head _)), path.stop last last_mem⟩)
  · intro span member
    exact ⟨(Nat.min_le_left _ _).trans (upto.start.trans (from_first span member)),
      (to_last span member).trans (Nat.le_max_right _ _)⟩

end Cursor

/-! ### Parsers -/

namespace Parser

open Cursor

variable {α β : Type} {c c' : Cursor} {p : Parser α} {f : α → Parser β}
  {P : α → Cursor → Prop} {Q : β → Cursor → Prop}

/-- From a cursor, a parser comes to a result and a cursor of which an assertion holds, or it stops
with an error in a usable place. -/
def Lands (text : String) (p : Parser α) (c : Cursor) (Q : α → Cursor → Prop) : Prop :=
  match p c with
  | .ok a c' => Q a c'
  | .error e _ => e.span.Usable text

theorem lands_iff : Lands text p c P ↔ Ends p c P fun e _ => e.span.Usable text :=
  Iff.rfl

theorem Lands.mono {R : α → Cursor → Prop} (h : Lands text p c P)
    (le : ∀ a c', P a c' → R a c') : Lands text p c R :=
  (lands_iff.mp h).imp le fun _ _ => id

/-- **One parser after another.** -/
theorem lands_bind (first : Lands text p c P) (second : ∀ a c', P a c' → Lands text (f a) c' Q) :
    Lands text (p >>= f) c Q :=
  ends_bind ((lands_iff.mp first).imp second fun _ _ => id)

theorem lands_pure {a : α} (here : P a c) : Lands text (pure a : Parser α) c P :=
  here

/-- The error of finding something else is in a usable place. -/
theorem lands_unexpected (h : c.Aligned text) (expected : String) :
    Lands text (unexpected expected : Parser α) c P := by
  have here : (c.unexpected expected).span = c.currentSpan := by
    obtain ⟨ahead, upcoming, eof, previous⟩ := c
    cases ahead with
    | nil => rfl
    | cons lexeme ahead =>
      unfold Cursor.unexpected
      simp only
      split <;> rfl
  show (c.unexpected expected).span.Usable text
  exact here ▸ h.current.2

theorem lands_spent (h : c.Aligned text) : Lands text (spent : Parser α) c P :=
  lands_unexpected h _

theorem lands_lookFurther (h : c.Aligned text) :
    Lands text lookFurther c fun _ c' => Path text c c' [] ∧
      c'.ahead.length = c.ahead.length + 1 := by
  obtain ⟨ahead, upcoming, eof, previous⟩ := c
  rcases upcoming with _ | ⟨error | lexeme, upcoming⟩
  · exact ⟨Step.ended.path h, List.length_append⟩
  · exact h.usable error.span (by simp [held, LexItem.span])
  · exact ⟨Step.seen.path h, List.length_append⟩

theorem lands_lookFurtherBy (n : Nat) (h : c.Aligned text) :
    Lands text (lookFurtherBy n) c fun _ c' => Path text c c' [] ∧
      c'.ahead.length = c.ahead.length + n := by
  induction n generalizing c with
  | zero => exact ⟨.refl h, rfl⟩
  | succ n ih =>
    refine lands_bind (lands_lookFurther h) fun _ c₁ ⟨path, one⟩ => ?_
    refine (ih path.aligned).mono fun _ c₂ ⟨path', others⟩ => ⟨path.append path', ?_⟩
    rw [others, one]
    omega

theorem lands_peekAt (n : Nat) (h : c.Aligned text) :
    Lands text (peekAt n) c fun _ c' => Path text c c' [] := by
  show Lands text (lookFurtherBy (n + 1 - c.ahead.length) >>= fun _ c' =>
    .ok (c'.ahead[n]?.getD c'.eof).token c') c _
  exact lands_bind (lands_lookFurtherBy _ h) fun _ c₁ looked => looked.1

/-- A token was consumed, which is no earlier than the one that was next. -/
structure Took (text : String) (c : Cursor) (lexeme : Lexeme) (c' : Cursor) : Prop where
  path : Path text c c' [lexeme.span]
  last : c'.previousSpan = lexeme.span
  next : c.currentSpan.Upto lexeme.span

/-- **A token is consumed.** -/
theorem lands_advance (h : c.Aligned text) : Lands text advance c (Took text c) := by
  show Lands text (lookFurtherBy (1 - c.ahead.length) >>= fun _ => takeNext) c _
  refine lands_bind (lands_lookFurtherBy _ h) fun _ c₁ ⟨looked, length⟩ => ?_
  obtain ⟨ahead, upcoming, eof, previous⟩ := c₁
  cases ahead with
  | nil =>
    have : 0 = c.ahead.length + (1 - c.ahead.length) := length
    omega
  | cons lexeme ahead =>
    obtain ⟨_, step⟩ := Step.taken lexeme ahead upcoming eof previous
    have path := looked.past (step.path looked.aligned)
    have next : c.currentSpan.Upto lexeme.span := looked.onward.current
    refine ⟨⟨path.aligned, path.onward, ?_, ?_, ?_, List.pairwise_singleton _ _⟩, rfl, next⟩
    · exact List.forall_mem_singleton.mpr path.aligned.previous
    · exact List.forall_mem_singleton.mpr next.start
    · exact List.forall_mem_singleton.mpr (Nat.le_refl _)

theorem lands_currentSpan {f : Span → Parser β} (h : Lands text (f c.currentSpan) c Q) :
    Lands text (currentSpan >>= f) c Q :=
  h

theorem lands_previousSpan {f : Span → Parser β} (h : Lands text (f c.previousSpan) c Q) :
    Lands text (previousSpan >>= f) c Q :=
  h

theorem lands_bound {f : Nat → Parser β} (h : ∀ n, Lands text (f n) c Q) :
    Lands text (bound >>= f) c Q :=
  h _

theorem lands_check (t : Token) (h : c.Aligned text) :
    Lands text (check t) c fun _ c' => Path text c c' [] :=
  lands_bind (lands_peekAt 0 h) fun _ _ path => path

/-- A token that may come next is consumed, or nothing is. -/
theorem lands_accept (t : Token) (h : c.Aligned text) :
    Lands text (accept t) c fun found c' => Path text c c' [] ∧
      (found = true → Path text c c' [c'.previousSpan]) := by
  refine lands_bind (lands_check t h) fun found c₁ path => ?_
  split
  · refine lands_bind (lands_advance path.aligned) fun _ c₂ took => ?_
    have path' : Path text c c₂ [c₂.previousSpan] := took.last ▸ path.before took.path
    exact ⟨path'.sublist (List.nil_sublist _), fun _ => path'⟩
  · exact ⟨path, nofun⟩

/-- **A token that has to come next is consumed.** -/
theorem lands_consume (t : Token) (h : c.Aligned text) :
    Lands text (consume t) c (Took text c) := by
  refine lands_bind (lands_check t h) fun found c₁ path => ?_
  split
  · exact (lands_advance path.aligned).mono fun lexeme c₂ took =>
      ⟨path.before took.path, took.last, path.onward.current.trans took.next⟩
  · exact lands_unexpected path.aligned _

end Parser

end Retrace
