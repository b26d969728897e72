/-
Where a cursor stands in its text.

* `Cursor.Within` — what a cursor has passed of the items of a text, and what of that it only
  looked at.
* `Within.at_token` — what is before a token that is next.
* `Cursor.outstanding` — the bytes of a text that are not lexed, and the tokens that were
  looked at and are not consumed.
* **`Within.spends`** — steps lower this by what they take from the items that are left, or by
  more.

Design notes: the lexer stands where the last item stops that was passed, until it has come
to the end of the text. An item has a byte at least, so a token that is looked at is paid for
by its bytes, and an item that is passed over is too.
-/
import Retrace.Proofs.Reader.Motion
import Retrace.Proofs.Reader.WellFormed
import Retrace.Proofs.Token.Tiling

namespace Retrace

/-- Where a cursor stands within the items of a text: it passed some of them. The tokens among these
were consumed, or they are those that were looked at. -/
structure Cursor.Within (text : String) (c : Cursor) : Prop where
  proper : c.Proper
  eof : c.eof = eofOf text
  ends : ∀ lexeme ∈ c.ahead, lexeme.token = .eof → lexeme = eofOf text
  passed : ∃ passed consumed, lex text = passed ++ c.upcoming ∧
    passed.filterMap Except.toOption = consumed ++ c.ahead.filter (·.token ≠ .eof)

namespace Cursor

variable {text : String} {c c' : Cursor} {k : Nat}

theorem ofText_within (text : String) : (ofText text).Within text :=
  ⟨ofText_proper text, rfl, nofun, [], [], rfl, rfl⟩

theorem Step.within (step : Step k c c') (h : c.Within text) : c'.Within text := by
  have proper := step.proper h.proper
  obtain ⟨⟨isEof, unread, _⟩, last, ends, passed, consumed, split, tokens⟩ := h
  cases step with
  | @seen ahead lexeme =>
    have other : lexeme.token ≠ .eof := unread lexeme (.head _)
    refine ⟨proper, last, fun l member isLast => ?_, passed ++ [.ok lexeme], consumed, ?_, ?_⟩
    · rcases List.mem_append.mp member with before | here
      · exact ends l before isLast
      · rw [List.mem_singleton.mp here] at isLast
        exact absurd isLast other
    · rw [List.append_assoc]
      exact split
    · rw [List.filterMap_append, tokens, List.filter_append, List.append_assoc]
      simp [other, Except.toOption]
  | @ended ahead final =>
    have isEof : final.token = .eof := isEof
    refine ⟨proper, last, fun l member isLast => ?_, passed, consumed, split, ?_⟩
    · rcases List.mem_append.mp member with before | here
      · exact ends l before isLast
      · exact (List.mem_singleton.mp here).trans last
    · rw [tokens, List.filter_append]
      simp [isEof]
  | @dropped _ error =>
    refine ⟨proper, last, ends, passed ++ [.error error], consumed, ?_, ?_⟩
    · rw [List.append_assoc]
      exact split
    · rw [List.filterMap_append, tokens]
      simp [Except.toOption]
  | @consumed lexeme _ _ _ _ other =>
    refine ⟨proper, last, fun l member => ends l (.tail _ member), passed, consumed ++ [lexeme],
      split, ?_⟩
    rw [tokens, List.filter_cons_of_pos (by simpa using other), List.append_assoc]
    rfl
  | stayed => exact ⟨proper, last, ends, passed, consumed, split, tokens⟩

theorem Reaches.within (h : c.Reaches k c') (within : c.Within text) : c'.Within text :=
  h.keeps Step.within within

/-- A cursor that looked at one token and passed only tokens before it. -/
theorem Within.at_token {found : Lexeme} {used : List Token} (h : c.Within text)
    (looked : c.ahead = [found]) (other : found.token ≠ .eof)
    (feed : (lex text).map tokenOf = used.map some ++ c.feed) :
    ∃ front : List Lexeme, used = front.map (·.token) ∧
      lex text = front.map .ok ++ .ok found :: c.upcoming := by
  obtain ⟨_, _, _, passed, consumed, split, tokens⟩ := h
  have kept : c.ahead.filter (·.token ≠ .eof) = [found] := by
    rw [looked]
    exact List.filter_cons_of_pos (by simpa using other)
  have names : passed.map tokenOf = (used ++ [found.token]).map some := by
    rw [Cursor.feed, kept, split, List.map_append, List.map_singleton, ← List.append_assoc] at feed
    rw [List.map_append]
    exact List.append_cancel_right feed
  -- what was passed are tokens, and the one that was looked at is the last of them
  obtain ⟨lexemes, rfl, same⟩ := lexed_of_feed names
  have all : (lexemes.map Except.ok : List LexItem).filterMap Except.toOption = lexemes := by
    rw [List.filterMap_map]
    exact List.filterMap_some
  rw [all, kept] at tokens
  subst tokens
  rw [List.map_append, List.map_singleton] at same
  refine ⟨consumed, (List.append_cancel_right same).symm, ?_⟩
  rw [split, List.map_append, List.append_assoc]
  rfl

end Cursor

/-! ### What is left to be done -/

namespace Cursor

/-- The bytes of a text that are not lexed. Behind its last item are blanks and comments, which are
lexed when the end of the text is. -/
def unlexed (text : String) (c : Cursor) : Nat :=
  if c.ahead.any (·.token = .eof) then 0
  else text.utf8ByteSize -
    Lexer.stopFrom 0 ((lex text).take ((lex text).length - c.upcoming.length))

/-- The bytes that are not lexed, and the tokens that were looked at and are not consumed. -/
def outstanding (text : String) (c : Cursor) : Nat :=
  c.unlexed text + (c.ahead.filter (·.token ≠ .eof)).length

variable {text : String} {c c' : Cursor} {k : Nat}

/-- Where the lexer stands, before it has come to the end. -/
theorem unlexed_eq {passed : List LexItem} (split : lex text = passed ++ c.upcoming)
    (going : ∀ lexeme ∈ c.ahead, lexeme.token ≠ .eof) :
    c.unlexed text = text.utf8ByteSize - Lexer.stopFrom 0 passed := by
  have none_last : c.ahead.any (·.token = .eof) = false := by simpa using going
  rw [unlexed, none_last, split, List.length_append, Nat.add_sub_cancel, List.take_left]
  rfl

/-- Before a text all of its bytes are left. -/
theorem ofText_outstanding (text : String) :
    (ofText text).outstanding text = text.utf8ByteSize := by
  have split : lex text = [] ++ (ofText text).upcoming := rfl
  exact unlexed_eq split nofun

/-- A cursor that has come to the end has nothing upcoming. -/
theorem Proper.going (proper : c.Proper) (more : c.upcoming ≠ []) :
    ∀ lexeme ∈ c.ahead, lexeme.token ≠ .eof := by
  obtain ⟨_, _, front, back, split, others, _, beyond⟩ := proper
  obtain rfl := beyond.resolve_right more
  rw [split, List.append_nil]
  exact others

/-- With each item there is less to be lexed. -/
theorem unlexed_lt {passed : List LexItem} {item : LexItem}
    (split : lex text = passed ++ c.upcoming) (next : c.upcoming = item :: c'.upcoming)
    (going : ∀ lexeme ∈ c.ahead, lexeme.token ≠ .eof)
    (going' : ∀ lexeme ∈ c'.ahead, lexeme.token ≠ .eof) : c'.unlexed text < c.unlexed text := by
  have split' : lex text = (passed ++ [item]) ++ c'.upcoming := by
    rw [split, next, List.append_assoc]
    rfl
  rw [unlexed_eq split going, unlexed_eq split' going', Lexer.stopFrom_concat]
  have stop := lex_stop (next ▸ split)
  omega

/-- A step lowers what is left to be done by what it takes from the items that are left, or by
more. -/
theorem Step.spends (step : Step k c c') (within : c.Within text) :
    c'.outstanding text + c.remaining ≤ c.outstanding text + c'.remaining := by
  obtain ⟨proper, _, _, passed, _, split, _⟩ := within
  unfold outstanding remaining
  cases step with
  | @seen ahead lexeme upcoming eof previous =>
    have other : lexeme.token ≠ .eof := proper.upcoming lexeme (.head _)
    have going := proper.going (List.cons_ne_nil _ _)
    have going' : ∀ l ∈ ahead ++ [lexeme], l.token ≠ .eof := fun l member =>
      (List.mem_append.mp member).elim (going l) fun here => List.mem_singleton.mp here ▸ other
    have less : unlexed text ⟨ahead ++ [lexeme], upcoming, eof, previous⟩ <
        unlexed text ⟨ahead, .ok lexeme :: upcoming, eof, previous⟩ :=
      unlexed_lt split rfl going going'
    simp only [List.length_cons]
    omega
  | @ended ahead eof previous =>
    have isEof : eof.token = .eof := proper.eof
    have nothing : unlexed text ⟨ahead ++ [eof], [], eof, previous⟩ = 0 :=
      if_pos (by simp [isEof])
    have kept : [eof].filter (·.token ≠ .eof) = [] :=
      List.filter_cons_of_neg (by simpa using isEof)
    rw [nothing]
    simp only [List.filter_append, kept, List.append_nil]
    omega
  | @dropped ahead error upcoming eof previous =>
    have going := proper.going (List.cons_ne_nil _ _)
    have less : unlexed text ⟨ahead, upcoming, eof, previous⟩ <
        unlexed text ⟨ahead, .error error :: upcoming, eof, previous⟩ :=
      unlexed_lt split rfl going going
    simp only [List.length_cons]
    omega
  | @consumed lexeme ahead upcoming eof previous other =>
    have same : unlexed text ⟨ahead, upcoming, eof, some lexeme⟩ =
        unlexed text ⟨lexeme :: ahead, upcoming, eof, previous⟩ := by
      simp only [unlexed, List.any_cons, decide_eq_false other, Bool.false_or]
    rw [same]
    simp only
    omega
  | stayed => exact Nat.le_refl _

/-- **Steps lower what is left to be done by what they take from the items that are left**, or by
more. -/
theorem Within.spends (within : c.Within text) (reaches : c.Reaches k c') :
    c'.outstanding text + c.remaining ≤ c.outstanding text + c'.remaining := by
  induction reaches with
  | refl => exact Nat.le_refl _
  | step before last _ ih =>
    have here := last.spends (before.within within)
    omega

end Cursor

end Retrace
