/-
Two texts read as one.

* `further` — a cursor over a text, and one over that text behind another.
* **`Reader.read_extends`** — with another text behind it, a text gives the same
  statements.
* **`Reader.read_behind`** — where the first text has no statement left, the second
  begins.
* **`Reader.read_further`** — behind another text, a text gives the same statements and
  errors, further on.

Design notes: before its first token the reader of the second text alone has consumed
nothing, while that of both has consumed the semicolon at the end of the first. The two
agree on where the next token is looked for, and only this is asked of them.
-/
import Retrace.Proofs.Reader.Extension

namespace Retrace

open Retrace.Parser Node Tracking

/-! ### The second text -/

/-- A cursor over a text, and one over that text behind another that has a number of bytes. Where
the first consumed nothing, the second stands behind the other text. -/
structure Cursor.Further (n : Nat) (c c' : Cursor) : Prop where
  ahead : c'.ahead = c.ahead.map (Lexeme.shift n)
  upcoming : c'.upcoming = c.upcoming.map (LexItem.shift n)
  eof : c'.eof = c.eof.shift n
  latest : ∀ lexeme, c.previous = some lexeme → c'.previous = some (lexeme.shift n)
  first : c.previous = none → ∃ lexeme, c'.previous = some lexeme ∧ lexeme.span.stop = n

section

variable {n : Nat} {c c' : Cursor}

theorem Cursor.Further.currentSpan (h : c.Further n c') :
    c'.currentSpan = c.currentSpan.shift n := by
  unfold Cursor.currentSpan
  rw [h.ahead]
  cases c.ahead with
  | cons lexeme ahead => rfl
  | nil =>
    cases consumed : c.previous with
    | some lexeme => rw [h.latest lexeme consumed]; rfl
    | none =>
      obtain ⟨lexeme, latest, stop⟩ := h.first consumed
      simp only [List.map_nil, latest, stop, Span.shift_emptyAt, Nat.zero_add]

/-- The tokens behind another text are the same, so the end of input is where it was. -/
theorem Cursor.Further.proper (h : c.Further n c') (proper : c.Proper) : c'.Proper := by
  obtain ⟨isEof, upcoming, front, back, split, hfront, hback, beyond⟩ := proper
  refine ⟨?_, fun lexeme member => ?_, front.map (Lexeme.shift n), back.map (Lexeme.shift n), ?_,
    ?_, ?_, ?_⟩
  · rw [h.eof]
    exact isEof
  · rw [h.upcoming] at member
    obtain ⟨item, inside, same⟩ := List.mem_map.mp member
    cases item with
    | ok lexeme' => exact Except.ok.inj same ▸ upcoming lexeme' inside
    | error e => cases same
  · rw [h.ahead, split, List.map_append]
  · exact List.forall_mem_map.mpr hfront
  · exact List.forall_mem_map.mpr hback
  · rcases beyond with rfl | none_upcoming
    · exact .inl rfl
    · exact .inr (by rw [h.upcoming, none_upcoming, List.map_nil])

theorem lookFurther_further (h : c.Further n c') :
    Pairing.Agree ⟨Span.shift n, Cursor.Further n, fun _ => False⟩ id (lookFurther c)
      (lookFurther c') := by
  obtain ⟨ahead', upcoming', eof', previous'⟩ := c'
  obtain ⟨ahead, upcoming, eof, previous⟩ := c
  obtain ⟨rfl, rfl, rfl, latest, first⟩ := h
  rcases upcoming with _ | ⟨error | lexeme, upcoming⟩
  · exact .inr ⟨_, rfl, by simp only [List.map_append, List.map_cons, List.map_nil], rfl, rfl,
      latest, first⟩
  · exact .inr ⟨_, rfl, rfl, rfl, rfl, latest, first⟩
  · exact .inr ⟨_, rfl, by simp only [List.map_append, List.map_cons, List.map_nil], rfl, rfl,
      latest, first⟩

namespace Cursor.Further

theorem remaining (h : c.Further n c') : c'.remaining = c.remaining := by
  have same : (fun lexeme : Lexeme => decide (lexeme.token ≠ .eof)) ∘ Lexeme.shift n =
      fun lexeme => decide (lexeme.token ≠ .eof) := rfl
  rw [Cursor.remaining, Cursor.remaining, h.ahead, h.upcoming, List.filter_map, same,
    List.length_map, List.length_map]

/-- Consuming a token that was looked at keeps the texts side by side. -/
theorem consumed (lexeme : Lexeme) (ahead : List Lexeme) (h : c.Further n c') :
    Further n
      { c with
        ahead := if lexeme.token = .eof then c.ahead else ahead
        previous := some lexeme }
      { c' with
        ahead := if lexeme.token = .eof then c'.ahead else ahead.map (Lexeme.shift n)
        previous := some (lexeme.shift n) } := by
  refine ⟨?_, h.upcoming, h.eof, fun _ consumed => ?_, fun absent => by cases absent⟩
  · by_cases last : lexeme.token = .eof
    · simp only [if_pos last]
      exact h.ahead
    · simp only [if_neg last]
  · obtain rfl := Option.some.inj consumed
    rfl

end Cursor.Further

/-- A cursor over a text, and one over that text behind another that has a number of bytes. -/
def further (n : Nat) : Tracking where
  place := Span.shift n
  together := Cursor.Further n
  lost _ := False
  place_join _ _ := Span.shift_join
  place_emptyAt _ := rfl
  ahead h := h.ahead
  current h := h.currentSpan
  latest h consumed := h.latest _ consumed
  remaining_le h := Nat.le_of_eq h.remaining.symm
  look _ h _ := lookFurther_further h
  advanced h _ := h.consumed _ _
  lost_step _ _ here := here

/-- **Behind another text the next statement is read in the same way.** -/
theorem nextStatement_further (table : OperatorTable) (proper : c.Proper) (h : c.Further n c') :
    (further n).Agree (Option.map (Node.shift n)) (Reader.nextStatement table c)
      (Reader.nextStatement table c') := by
  have tracks : Tracks (further n) (c.remaining + 1) none _ _ _ := nextStatement_tracks table
  have same : Node.placed (further n).place = Node.shift n := funext Node.placed_shift
  rw [← same]
  exact tracks.agree proper (Nat.lt_succ_self _) Cursor.sees_none h

end

/-! ### Readers -/

namespace Reader

variable {r r' r₁ : Reader} {node : Node} {last eof : Lexeme} {more : List LexItem} {n : Nat}

/-- A reader that gives a result found it with its cursor. -/
theorem result_of_read {result : Option Node} (h : r.read = (.ok result, r₁)) :
    nextStatement r.config.operators r.cursor = .ok result r₁.cursor ∧ r₁.config = r.config := by
  cases run : nextStatement r.config.operators r.cursor with
  | ok result' c =>
    rw [read_of_result run] at h
    obtain ⟨same, rfl⟩ := Prod.mk.inj h
    rw [Except.ok.inj same]
    exact ⟨rfl, rfl⟩
  | error e c =>
    rw [read_of_error run] at h
    exact nomatch (Prod.mk.inj h).1

/-- A statement that is read consumes a token. -/
theorem read_consumes (proper : r.cursor.Proper) (h : r.read = (.ok (some node), r₁)) :
    r₁.cursor.Proper ∧ r₁.cursor.remaining < r.cursor.remaining := by
  obtain ⟨result, _⟩ := result_of_read h
  have ends : ∀ node, Moves none 0 (ending node) := by
    intro node
    unfold ending
    split
    · exact moves_after (moves_accept _) fun _ => moves_pure _
    · exact moves_after (moves_expect _) fun _ => moves_pure _
  have consumes : r.cursor.Reaches 1 r₁.cursor := by
    rw [nextStatement_eq] at result
    obtain ⟨_, c₁, skipped, result⟩ := bind_result result
    obtain ⟨atEnd, c₂, checked, result⟩ := bind_result result
    have before := (moves_bound skipSemicolons_moves).reaches Cursor.sees_none skipped
    have look : Moves none 0 (check .eof) := moves_peek fun _ => moves_pure _
    have looked := look.reaches Cursor.sees_none checked
    cases atEnd with
    | true => exact nomatch (EStateM.Result.ok.inj result).1
    | false =>
      obtain ⟨_, c₃, stated, result⟩ := bind_result result
      have statement := (statement_moves r.config.operators).reaches Cursor.sees_none stated
      have after := (ends _).reaches Cursor.sees_none result
      exact (before.trans looked).trans (statement.trans after)
  have less := consumes.remaining_le proper
  exact ⟨consumes.proper proper, by omega⟩

/-- A reader of a text, and one of that text with another behind it. -/
structure Extends (last : Lexeme) (more : List LexItem) (eof : Lexeme) (r r' : Reader) : Prop where
  config : r'.config = r.config
  proper : r.cursor.Proper
  cursor : r.cursor.Extends last more eof r'.cursor

/-- A reader of a text, and one of that text behind another. -/
structure Further (n : Nat) (r r' : Reader) : Prop where
  config : r'.config = r.config
  proper : r.cursor.Proper
  cursor : r.cursor.Further n r'.cursor

/-- **With another text behind it, a text gives the same statements.** -/
theorem read_extends (semicolon : last.token = .mark .semicolon) (h : Extends last more eof r r')
    (result : r.read = (.ok (some node), r₁)) :
    ∃ r₁', r'.read = (.ok (some node), r₁') ∧ Extends last more eof r₁ r₁' := by
  obtain ⟨found, config⟩ := result_of_read result
  obtain ⟨c₁', found', there⟩ := nextStatement_extends semicolon h.proper h.cursor found
  rw [← h.config] at found'
  exact ⟨_, read_of_result found', h.config.trans config.symm, (read_consumes h.proper result).1,
    there⟩

/-- **Where the first text has no statement left, the second begins.** -/
theorem read_behind {start : Nat} {q : String} (h : Extends ⟨.mark .semicolon, ⟨start, n⟩⟩
      ((lex q).map (LexItem.shift n)) ((eofOf q).shift n) r r') (result : r.read = (.ok none, r₁)) :
    ∃ c, r'.read = { r' with cursor := c }.read ∧ (Cursor.ofText q).Further n c := by
  obtain ⟨found, _⟩ := result_of_read result
  have all := semicolons_of_none h.proper found
  have same : nextStatement r'.config.operators r'.cursor = _ :=
    nextStatement_behind rfl h.proper h.cursor all
  refine ⟨⟨[], (lex q).map (LexItem.shift n), (eofOf q).shift n,
    some ⟨.mark .semicolon, ⟨start, n⟩⟩⟩, ?_, rfl, rfl, rfl, nofun, fun _ => ⟨_, rfl, rfl⟩⟩
  rw [read, read, parse, parse, same]

/-- What a reader gives, behind a text that has a number of bytes. -/
def shifted (n : Nat) : Except ReadError (Option Node) → Except ReadError (Option Node)
  | .ok node => .ok (node.map (Node.shift n))
  | .error e => .error (e.shift n)

/-- **Behind another text, a text gives the same statements and errors.** -/
theorem read_further (h : Further n r r') :
    r'.read.1 = shifted n r.read.1 ∧ Further n r.read.2 r'.read.2 := by
  have agree := nextStatement_further r.config.operators h.proper h.cursor
  have moves := nextStatement_moves r.config.operators r.cursor Cursor.sees_none
  unfold Comes at moves
  cases run : nextStatement r.config.operators r.cursor with
  | ok result c =>
    rw [run] at agree moves
    obtain ⟨c', run', there⟩ := agree.resolve_left id
    rw [← h.config] at run'
    rw [read_of_result run, read_of_result run']
    exact ⟨rfl, h.config, moves.proper h.proper, there⟩
  | error e c =>
    rw [run] at agree moves
    obtain ⟨c', run', there⟩ := agree.resolve_left id
    rw [← h.config] at run'
    rw [read_of_error run, read_of_error run']
    exact ⟨rfl, h.config, moves.proper h.proper, there⟩

/-- A cursor over the first of two texts, and one over both. -/
theorem ofText_extends {p : String} {start : Nat}
    (ends : (lex p).getLast? = some (.ok ⟨.mark .semicolon, ⟨start, Text.width p.toList⟩⟩))
    (q : String) :
    (Cursor.ofText p).Extends ⟨.mark .semicolon, ⟨start, Text.width p.toList⟩⟩
      ((lex q).map (LexItem.shift (Text.width p.toList)))
      ((eofOf q).shift (Text.width p.toList)) (.ofText (p ++ q)) := by
  refine ⟨?_, ends, List.forall_mem_nil _⟩
  rw [Cursor.ofText, lex_append ⟨start, ends⟩, eofOf_append]
  rfl

end Reader

end Retrace
