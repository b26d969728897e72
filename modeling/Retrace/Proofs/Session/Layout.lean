/-
Programs in another layout.

* `RunError.bare`, `shownResult` — what comes of a program, as it is shown and without
  places.
* `Session.runWithin_alike` — programs of the same tokens come to the same, in sessions that
  are alike.
* **`layout_does_not_matter`** — with other blanks and comments between its tokens a program
  has the same tokens and the same statements, and comes to the same.

Design notes: the trees that are read and the functions that are made have other places,
and nothing that a program does depends on them. Readers of the same tokens are compared
statement by statement, and sessions after each of them.
-/
import Mathlib
import Retrace.Proofs.Reader.Places
import Retrace.Proofs.Session.Concatenation
import Retrace.Proofs.Token.Layout

namespace Retrace

/-- Why a program has no value, without places. -/
def RunError.bare : RunError → RunError
  | read e => read e.bare
  | eval e => eval e

/-- What came of a program, without places. -/
def bareValue : Except RunError Value → Except RunError Value
  | .ok value => .ok value.bare
  | .error e => .error e.bare

/-- What came of a program, as it is shown: its value as a text, or the error, without its
place. -/
def shownResult : Except RunError Value → Except RunError String
  | .ok value => .ok value.text
  | .error e => .error e.bare

/-- Places are not shown. -/
theorem shownResult_bareValue {result result' : Except RunError Value}
    (same : bareValue result' = bareValue result) : shownResult result' = shownResult result := by
  cases result with
  | error e =>
    cases result' with
    | error e' => exact congrArg Except.error (Except.error.inj same)
    | ok value' => cases same
  | ok value =>
    cases result' with
    | error e' => cases same
    | ok value' =>
      refine congrArg Except.ok ?_
      rw [← Value.text_bare value', ← Value.text_bare value, Except.ok.inj same]

namespace Session

variable {fuel : Nat} {session session' : Session} {r r' : Reader}

/-- **Programs of the same tokens come to the same**, but for places, in sessions that are
alike. -/
theorem runWithin_alike {last last' : Value} (alike : session.Alike session')
    (h : Reader.Alike r r') (same : last'.bare = last.bare) (bound : Nat) :
    (runWithin fuel last' session' r' bound).map (fun o => bareValue o.1) =
      (runWithin fuel last session r bound).map fun o => bareValue o.1 := by
  induction bound generalizing last last' session session' r r' with
  | zero => exact congrArg (some <| Except.ok ·) same
  | succ bound ih =>
    rw [runWithin, runWithin]
    obtain ⟨r₁, r₁', there, ⟨e, e', read, read', errors⟩ | ⟨read, read'⟩ |
      ⟨node, node', read, read', trees⟩⟩ := Reader.read_cases h
    · rw [read, read']
      exact congrArg (some <| Except.error <| RunError.read ·) errors
    · rw [read, read']
      exact congrArg (some <| Except.ok ·) same
    · rw [read, read']
      simp only
      obtain ⟨none, none'⟩ | ⟨e, s, s', error, error', _⟩ |
        ⟨v, v', s, s', ok, ok', values, alike'⟩ :=
        outcome_cases (evaluate_alike alike trees)
      · rw [none, none']
      · rw [error, error']
        rfl
      · rw [ok, ok']
        exact ih alike' there values

/-- Texts of the same tokens come to the same in a session. -/
theorem run_alike (session : Session) (fuel : Nat) {text text' : String}
    (same : (lex text').map LexItem.bare = (lex text).map LexItem.bare) :
    (session.run fuel text').map (fun o => bareValue o.1) =
      (session.run fuel text).map fun o => bareValue o.1 := by
  have readers : Reader.Alike (.plain text) (.plain text') := Reader.ofText_alike _ same
  show (runWithin fuel _ session (.plain text') _).map _ = (runWithin fuel _ session _ _).map _
  rw [readers.remaining]
  exact runWithin_alike (alike_iff.mpr rfl) readers rfl _

end Session

/-- **The layout of a text does not matter.** Let a text have no lexical errors, and let the texts
of its tokens be laid out in another text, with blanks and comments between them that begin with a
blank, and with the same or nothing before the first and behind the last. Then that text has the
same tokens and no errors; with any operators all its statements are read as the same trees, or the
same error is found, but for places; and run as a program it has a value that is shown in the same
way, or the same error but for its place, or as the first it is not done with its fuel. -/
theorem layout_does_not_matter {text text' : String} {lexemes : List Lexeme}
    (lexed : lex text = lexemes.map .ok)
    (laidOut : Lexer.LaidOut (lexemes.map fun lexeme => Source.spanText ⟨text⟩ lexeme.span) text') :
    (∃ lexemes' : List Lexeme, lex text' = lexemes'.map .ok ∧
      lexemes'.map (·.token) = lexemes.map (·.token)) ∧
    (∀ config : ReaderConfig,
      Reader.bareResult Node.bareAll (Reader.ofText text' config).readAll.1 =
        Reader.bareResult Node.bareAll (Reader.ofText text config).readAll.1) ∧
    ∀ fuel : Nat,
      (runProgram fuel text').map shownResult = (runProgram fuel text).map shownResult := by
  obtain ⟨lexemes', lexed', tokens⟩ := lex_layout lexed laidOut
  have same : (lex text').map LexItem.bare = (lex text).map LexItem.bare := by
    have items : ∀ lexemes : List Lexeme, (lexemes.map Except.ok).map LexItem.bare =
        (lexemes.map (·.token)).map fun t => Except.ok ⟨t, default⟩ := by
      intro lexemes
      rw [List.map_map, List.map_map]
      rfl
    rw [lexed, lexed', items, items, tokens]
  refine ⟨⟨lexemes', lexed', tokens⟩, fun config => ?_, fun fuel => ?_⟩
  · exact Reader.readAll_alike (Reader.ofText_alike config same)
  · have runs := (Session.start none).run_alike fuel same
    rw [runProgram, runProgram]
    generalize (Session.start none).run fuel text = outcome at runs ⊢
    generalize (Session.start none).run fuel text' = outcome' at runs ⊢
    cases outcome with
    | none =>
      rw [Option.map_eq_none_iff.mp runs]
    | some outcome =>
      obtain ⟨outcome', rfl, same⟩ := Option.map_eq_some_iff.mp runs
      exact congrArg some (shownResult_bareValue same)

/-- A sum in another layout, with a comment in it. -/
theorem layout_does_not_matter_sum :
    let lexemes : List Lexeme := [⟨.int 1, ⟨0, 1⟩⟩, ⟨.op .add, ⟨1, 2⟩⟩, ⟨.int 2, ⟨2, 3⟩⟩,
      ⟨.mark .semicolon, ⟨3, 4⟩⟩]
    let text' := "\t1 +\n// two\n2 ;"
    lex "1+2;" = lexemes.map .ok ∧
      Lexer.LaidOut (lexemes.map fun lexeme => Source.spanText ⟨"1+2;"⟩ lexeme.span) text' ∧
      (runProgram 20 text').map shownResult = some (.ok "3") := by
  intro lexemes text'
  have lexed : lex "1+2;" = lexemes.map .ok := by cbv
  have blank : ∀ c, Text.isBlank c → Lexer.IsSeparator (String.singleton c) := by
    intro c here
    refine ⟨String.singleton_ne_empty, ?_, ?_⟩
    · rw [String.toList_singleton]
      exact .blank here .nothing
    · rw [String.toList_singleton]
      intro d first
      obtain rfl := Option.some.inj first
      exact here
  have comment : Lexer.IsSeparator "\n// two\n" := by
    refine ⟨by decide, ?_, ?_⟩
    · have chars : "\n// two\n".toList =
          '\n' :: '/' :: '/' :: ([' ', 't', 'w', 'o'] ++ ['\n']) := by
        cbv
      rw [chars]
      exact .blank (by decide) (.comment (by decide) .nothing)
    · intro d first
      have newline : some d = some '\n' := first.symm.trans (by cbv)
      obtain rfl := Option.some.inj newline
      decide
  have laidOut : Lexer.LaidOut (lexemes.map fun lexeme => Source.spanText ⟨"1+2;"⟩ lexeme.span)
      text' := by
    have texts : lexemes.map (fun lexeme => Source.spanText ⟨"1+2;"⟩ lexeme.span) =
        ["1", "+", "2", ";"] := by cbv
    rw [texts]
    refine ⟨"\t", _, "", .inr (blank '\t' (by decide)), .more (blank ' ' (by decide)) (.more comment
      (.more (blank ' ' (by decide)) (.last ";"))), .inl rfl, ?_⟩
    cbv
  have sum : (runProgram 20 "1+2;").map shownResult = some (.ok "3") := by cbv
  exact ⟨lexed, laidOut, ((layout_does_not_matter lexed laidOut).2.2 20).trans sum⟩

end Retrace
