/-
Syntax errors are found as early as they can be.

* `Opens`, `Continues` — texts that begin with tokens, and tokens that can be gone on with to
  a statement.
* `ReadError.Earliest` — an error at the first token with which the tokens before it cannot be
  gone on with.
* **`Reader.error_earliest`** — so is every error of the first read, whatever the operators.

Design notes:
* The tokens before an error are those of the phrases that were begun. What finishes these
  phrases is written behind the tokens, and that is a text.
* Nothing behind the token of an error was looked at. So a text that begins with the same
  tokens is read up to the same error. Without places it is the same cursor up to there.
-/
import Mathlib
import Retrace.Proofs.Reader.Halting
import Retrace.Proofs.Reader.Parting
import Retrace.Proofs.Reader.Places
import Retrace.Proofs.Reader.Position

namespace Retrace

open Retrace.Parser Feed

/-! ### Texts that begin with tokens -/

/-- A text begins with tokens. -/
def Opens (tokens : List Token) (text : String) : Prop :=
  tokens.map some <+: (lex text).map tokenOf

namespace Reader

/-- Tokens can be gone on with to a text of which the first statement is read. -/
def Continues (config : ReaderConfig) (tokens : List Token) : Prop :=
  ∃ text node, Opens tokens text ∧ (ofText text config).read.1 = .ok (some node)

/-- A statement that lies in the feed of a text is read. -/
theorem read_of_onward {r : Reader} {node : Node} (proper : r.cursor.Proper)
    (h : Onward r.config.operators node r.cursor.feed []) :
    ∃ node', r.read.1 = .ok (some node') := by
  obtain ⟨nodes, all, bares⟩ := readAll_of_program proper (Program.onward h .nothing)
  unfold readAll at all
  rw [readWithin] at all
  rcases run : r.read with ⟨_ | (_ | node'), r'⟩
  · rw [run] at all
    cases all
  · rw [run] at all
    obtain rfl := Except.ok.inj all
    cases bares
  · exact ⟨node', rfl⟩

/-- Tokens up to a place where the next statement is stuck can be gone on with. -/
theorem continues_of_promising {config : ReaderConfig} {used : List Token} {rest : Feed}
    (writable : AllWritable used) (h : Promising config.operators (inFront used rest) rest) :
    Continues config used := by
  obtain ⟨used', more, same, writable', going⟩ := h
  obtain rfl : used = used' :=
    (List.map_inj_right fun _ _ => Option.some.inj).mp (List.append_cancel_right same)
  obtain ⟨node, onward⟩ := going []
  obtain ⟨proper, feed⟩ := Cursor.ofText_spelled (AllWritable.append.mpr ⟨writable, writable'⟩)
  let text := " ".intercalate ((used ++ more).map Token.spelling)
  have before : (Cursor.ofText text).feed = inFront used (inFront more []) := by
    rw [feed, ← inFront_append, inFront, List.append_nil]
  obtain ⟨node', read⟩ := read_of_onward (r := ofText text config) proper (before.symm ▸ onward)
  refine ⟨text, node', ?_, read⟩
  show _ <+: (Cursor.ofText text).feed
  rw [feed, List.map_append]
  exact List.prefix_append _ _

end Reader

/-! ### Errors -/

/-- An error of the first read that is not found too late. What was found is a token of the text,
or the end of it. The tokens before can be gone on with to a statement, and with the token that was
found they cannot: every text that begins with them has the same error. -/
def ReadError.Earliest (config : ReaderConfig) (text : String) : ReadError → Prop
  | .lexical _ => True
  | .unexpectedToken expected found span =>
    ∃ (front : List Lexeme) (back : List LexItem),
      lex text = front.map .ok ++ .ok ⟨found, span⟩ :: back ∧
        Reader.Continues config (front.map (·.token)) ∧
        ∀ other, Opens (front.map (·.token) ++ [found]) other → ∃ span',
          (Reader.ofText other config).read.1 = .error (.unexpectedToken expected found span')
  | .unexpectedEnd _ span =>
    ∃ front : List Lexeme, lex text = front.map .ok ∧ span = (eofOf text).span ∧
      Reader.Continues config (front.map (·.token))

/-- Without places, a text that begins with tokens has the same items up to there as any other. -/
theorem bare_of_opens {tokens : List Token} {text : String} (h : Opens tokens text) :
    ∃ more, (lex text).map LexItem.bare = (tokens.map fun t => .ok ⟨t, default⟩) ++ more := by
  obtain ⟨rest, split⟩ := h
  obtain ⟨items, more, same, first, _⟩ := List.map_eq_append_iff.mp split.symm
  obtain ⟨lexemes, rfl, rfl⟩ := lexed_of_feed first
  refine ⟨more.map LexItem.bare, ?_⟩
  rw [same, List.map_append, List.map_map, List.map_map]
  rfl

theorem Cursor.ofText_bare_proper (text : String) : (ofText text).bare.Proper := by
  obtain ⟨_, upcoming, _⟩ := ofText_proper text
  refine ⟨rfl, fun lexeme member => ?_, [], [], rfl, nofun, nofun, .inl rfl⟩
  obtain ⟨item, inside, same⟩ := List.mem_map.mp member
  cases item with
  | error e => cases same
  | ok l =>
    obtain rfl := Except.ok.inj same
    exact upcoming l inside

namespace Reader

variable {config : ReaderConfig} {text other : String} {expected : String} {found : Token}
  {span : Span}

/-- Text behind the token of an error makes no difference to the error. -/
theorem unexpectedToken_of_opens {c : Cursor} {used : List Token} {back : List LexItem}
    (run : nextStatement config.operators (.ofText text) =
      .error (.unexpectedToken expected found span) c)
    (looked : c.ahead = [⟨found, span⟩]) (isToken : found ≠ .eof)
    (items : (lex text).map LexItem.bare =
      (used ++ [found]).map (fun t => .ok ⟨t, default⟩) ++ back)
    (upcoming : c.upcoming.map LexItem.bare = back) (opens : Opens (used ++ [found]) other) :
    ∃ span', (ofText other config).read.1 = .error (.unexpectedToken expected found span') := by
  obtain ⟨back', items'⟩ := bare_of_opens opens
  have shares : (Cursor.ofText text).bare.Shares back back' (Cursor.ofText other).bare :=
    ⟨Cursor.ofText_bare_proper text, Cursor.ofText_bare_proper other, rfl, rfl, _, items, items'⟩
  have agree := (nextStatement_parting config.operators).agree shares
  rw [nextStatement_bare _ (Cursor.ofText_proper text), run] at agree
  rcases agree with lost | ⟨c', same, _⟩
  · -- nothing behind the token was looked at
    exfalso
    rcases lost with less | ⟨lexeme, member, isEof⟩
    · rw [Cursor.bare, upcoming] at less
      exact Nat.lt_irrefl _ less
    · rw [Cursor.bare, looked] at member
      obtain rfl := List.mem_singleton.mp member
      exact isToken isEof
  · rw [nextStatement_bare _ (Cursor.ofText_proper other)] at same
    cases run' : nextStatement config.operators (.ofText other) with
    | ok result c₁ =>
      rw [run'] at same
      cases same
    | error e c₁ =>
      rw [run'] at same
      have errors : e.bare = .unexpectedToken expected found default :=
        (EStateM.Result.error.inj same).1
      cases e with
      | lexical | unexpectedEnd => cases errors
      | unexpectedToken expected' found' span' =>
        obtain ⟨rfl, rfl, _⟩ := ReadError.unexpectedToken.inj errors
        exact ⟨span', error_of_run (r := ofText other config) run'⟩

/-- The tokens of a text that were used can be written. -/
theorem writable_of_used {used : List Token} {rest : Feed}
    (h : (Cursor.ofText text).feed = inFront used rest) : AllWritable used := by
  intro t member
  have inside : some t ∈ (Cursor.ofText text).feed := by
    rw [h]
    exact List.mem_append_left _ (List.mem_map_of_mem member)
  obtain ⟨other, writable⟩ := (Cursor.ofText_over text).feed inside
  exact writable other

variable {c : Cursor} {lexeme : Lexeme}

theorem unexpectedEnd_earliest (within : c.Within text) (ahead : c.ahead = [lexeme])
    (isEof : lexeme.token = .eof)
    (place : Promising config.operators (Cursor.ofText text).feed c.feed) :
    (c.unexpected expected).Earliest config text := by
  have error : c.unexpected expected = .unexpectedEnd expected lexeme.span := by
    rw [Cursor.unexpected, Cursor.currentSpan, ahead]
    exact if_pos isEof
  have nothing : c.feed = [] := by
    refine within.proper.feed_nil ?_
    rw [← isEof]
    exact within.proper.item_ahead (by rw [ahead]; rfl)
  obtain ⟨used, more, split, writable, going⟩ := place
  have place : Promising config.operators (inFront used c.feed) c.feed :=
    ⟨used, more, rfl, writable, going⟩
  have continues := continues_of_promising (writable_of_used split) place
  rw [nothing, inFront, List.append_nil] at split
  obtain ⟨front, items, rfl⟩ := lexed_of_feed split
  rw [error]
  refine ⟨front, items, ?_, continues⟩
  rw [within.ends lexeme (by rw [ahead]; exact .head _) isEof]

theorem unexpectedToken_earliest (within : c.Within text) (ahead : c.ahead = [lexeme])
    (isToken : lexeme.token ≠ .eof)
    (place : Promising config.operators (Cursor.ofText text).feed c.feed)
    (run : nextStatement config.operators (.ofText text) = .error (c.unexpected expected) c) :
    (c.unexpected expected).Earliest config text := by
  have error : c.unexpected expected = .unexpectedToken expected lexeme.token lexeme.span := by
    rw [Cursor.unexpected, ahead]
    exact if_neg isToken
  obtain ⟨used, more, split, writable, going⟩ := place
  have place : Promising config.operators (inFront used c.feed) c.feed :=
    ⟨used, more, rfl, writable, going⟩
  have continues := continues_of_promising (writable_of_used split) place
  obtain ⟨front, rfl, items⟩ := within.at_token ahead isToken split
  rw [error] at run ⊢
  refine ⟨front, c.upcoming, items, continues, fun other opens => ?_⟩
  refine unexpectedToken_of_opens run ahead isToken ?_ rfl opens
  rw [items, List.map_append, List.map_append, List.append_assoc, List.map_cons, List.map_map,
    List.map_map]
  rfl

/-- **Syntax errors are found as early as they can be**, whatever the operators. -/
theorem error_earliest {e : ReadError} (h : (ofText text config).read.1 = .error e) :
    e.Earliest config text := by
  have proper := Cursor.ofText_proper text
  have halts := nextStatement_halts config.operators _ (.ofText text) proper rfl (Nat.zero_le _)
    (Nat.zero_le _)
  cases run : nextStatement config.operators (.ofText text) with
  | ok result c =>
    rw [read_of_result (r := ofText text config) run] at h
    cases h
  | error e' c =>
    obtain rfl : e' = e :=
      Except.error.inj ((error_of_run (r := ofText text config) run).symm.trans h)
    rw [run] at halts
    rcases halts with ⟨⟨e, rfl⟩, _⟩ | ⟨proper', looked, ⟨expected, _, rfl⟩, place⟩
    · trivial
    · have reaches := (read_reaches (ofText text config)).1
      rw [read_of_error (r := ofText text config) run] at reaches
      have within := reaches.within (Cursor.ofText_within text)
      obtain ⟨lexeme, ahead⟩ := List.length_eq_one_iff.mp looked
      by_cases isEof : lexeme.token = .eof
      · exact unexpectedEnd_earliest within ahead isEof place
      · exact unexpectedToken_earliest within ahead isEof place run

/-- Where a parenthesis is not closed, the number behind the expression is the first token that
cannot be gone on from. -/
theorem error_earliest_parenthesis :
    (ofText "(1 2" (.standard .plain none)).read.1 =
        .error (.unexpectedToken "')'" (.int 2) ⟨3, 4⟩) ∧
      ReadError.Earliest (.standard .plain none) "(1 2"
        (.unexpectedToken "')'" (.int 2) ⟨3, 4⟩) := by
  have run : nextStatement .builtins (.ofText "(1 2") =
      .error (.unexpectedToken "')'" (.int 2) ⟨3, 4⟩)
        ⟨[⟨.int 2, ⟨3, 4⟩⟩], [], eofOf "(1 2", some ⟨.int 1, ⟨1, 2⟩⟩⟩ := by cbv
  have stops := error_of_run (r := ofText "(1 2" (.standard .plain none)) run
  exact ⟨stops, error_earliest stops⟩

end Reader

end Retrace
