/-
Programs of one statement.

* `Reader.plain_feed` — what is read of a text with a semicolon behind it.
* `read_statement` — a text whose tokens are those of an expression is one statement.
* `Session.evaluate_of_steps` — what the moves of a tree without places come to is what a statement
  with this tree comes to.
* `Session.run_unique` — however much fuel there is, one thing comes of a program.
* **`Session.run_statement`** — both together: what a program comes to that is one statement.

Design notes: a program is read with places and the trees that are known of it have none. Values
and sessions are the same without places.
-/
import Retrace.Proofs.Reader.RoundTrip
import Retrace.Proofs.Session.Concatenation
import Retrace.Proofs.Value.Display

namespace Retrace

open Node

/-- Data has no places in it. -/
theorem Value.eq_of_bare {v v' : Value} (data : v.IsData) (same : v'.bare = v) : v' = v := by
  induction data generalizing v' with
  | int | str | bool => cases v' <;> first | exact same | cases same
  | list _ ih =>
    cases v' with
    | list items' =>
      obtain rfl := Value.list.inj same
      rw [Value.bareAll_eq_map] at ih ⊢
      have each : items'.map id = items'.map Value.bare :=
        List.map_congr_left fun item member => ih _ (List.mem_map_of_mem member) rfl
      rw [List.map_id] at each
      exact congrArg Value.list each
    | int | str | bool | symbol | closure | primitive => cases same

/-- What a reader has before it is what is read of the text. -/
theorem Reader.plain_feed (text : String) :
    (Reader.plain (text ++ ";")).cursor.feed = Lexer.feed (text.toList ++ [';']) := by
  show (lex (text ++ ";")).map tokenOf = _
  rw [lex, String.toList_append]
  rfl

theorem Lexer.feed_semicolon : Lexer.feed [';'] = [some (.mark .semicolon)] := by
  rw [Lexer.feed_single rfl (by decide) (by decide), Lexer.feed_end rfl]

theorem Lexer.ends_semicolon : Lexer.Ends [';'] :=
  .inr ⟨';', by decide, [], rfl⟩

/-- A text that is read as the tokens of an expression is one statement, which is the expression. -/
theorem read_statement {text : String} {e : Expr .builtins}
    (feed : Lexer.feed (text.toList ++ [';']) = Feed.inFront e.tokens (Lexer.feed [';'])) :
    ∃ node r' r'', (Reader.plain (text ++ ";")).read = (.ok (some node), r') ∧
      node.bare = e.node ∧ r'.read = (.ok none, r'') := by
  rw [← Reader.plain_feed, Lexer.feed_semicolon] at feed
  have reads := e.readable.statement [some (.mark .semicolon)] (follows_expression (by decide))
  rw [← feed] at reads
  obtain ⟨result, r', read, operators, proper', bare, feed'⟩ :=
    Reader.read_of_yields (r := .plain (text ++ ";")) (Cursor.ofText_proper _) rfl
      (Reader.yields_nextStatement reads)
  obtain ⟨node, rfl, same⟩ := Option.map_eq_some_iff.mp bare
  have nothing := @Reader.yields_noStatement .builtins
  rw [← feed'] at nothing
  obtain ⟨_, r'', ended, _, _, rfl⟩ := Reader.read_of_yields proper' operators nothing
  exact ⟨node, r', r'', read, same, ended⟩

namespace Session

/-! ### More fuel -/

section

variable {session : Session} {fuel fuel' : Nat}

theorem evaluate_mono {node : Node} {outcome : Except EvalError Value × Session}
    (h : session.evaluate fuel node = some outcome) (le : fuel ≤ fuel') :
    session.evaluate fuel' node = some outcome := by
  rw [Machine.evaluate_eq] at h ⊢
  obtain ⟨ending, run, rfl⟩ := Option.map_eq_some_iff.mp h
  rw [Machine.run_mono run le]
  rfl

theorem runWithin_mono {last : Value} {reader : Reader} {bound : Nat}
    {outcome : Except RunError Value × Session × Reader}
    (h : runWithin fuel last session reader bound = some outcome) (le : fuel ≤ fuel') :
    runWithin fuel' last session reader bound = some outcome := by
  induction bound generalizing last session reader with
  | zero => exact h
  | succ bound ih =>
    rw [runWithin] at h ⊢
    generalize reader.read = read at h ⊢
    obtain ⟨_ | _ | node, reader'⟩ := read
    · exact h
    · exact h
    · simp only at h ⊢
      cases evaluated : session.evaluate fuel node with
      | none =>
        rw [evaluated] at h
        cases h
      | some outcome =>
        rw [evaluated] at h
        rw [evaluate_mono evaluated le]
        obtain ⟨_ | value, session'⟩ := outcome
        · exact h
        · exact ih h

/-- What has come of a program comes of it with more fuel too. -/
theorem run_mono {text : String} {outcome : Except RunError Value × Session × Reader}
    (h : session.run fuel text = some outcome) (le : fuel ≤ fuel') :
    session.run fuel' text = some outcome :=
  runWithin_mono h le

/-- However much fuel there is, one thing comes of a program. -/
theorem run_unique {text : String} {outcome outcome' : Except RunError Value × Session × Reader}
    (h : session.run fuel text = some outcome) (h' : session.run fuel' text = some outcome') :
    outcome = outcome' := by
  rcases Nat.le_total fuel fuel' with le | le
  · exact Option.some.inj ((run_mono h le).symm.trans h')
  · exact Option.some.inj (h.symm.trans (run_mono h' le))

end

/-! ### One statement -/

variable {session : Session} {m fuel : Nat} {last : Machine.Promise} {store : Store}
  {result : Except EvalError (Value × Option Machine.Trail)}

/-- Before the first statement there are only primitives. -/
theorem store_start_bare (limit : Option Nat) : (start limit).store.bare = (start limit).store := by
  have root : Store.empty.addRoot.2.bare = Store.empty.addRoot.2 := by
    simp [Store.bare, Store.addRoot, Store.empty]
  have names : Bindings.bare Primitive.bindings = Primitive.bindings := rfl
  show (Store.empty.addRoot.2.extend Store.empty.addRoot.1 Primitive.bindings).2.bare = _
  rw [← Store.extend_bare, root, names]
  rfl

/-- What the moves of a tree without places come to is what a statement with this tree comes to. -/
theorem evaluate_of_steps {node : Node} (unlimited : session.limit = none)
    (steps : Machine.Steps m (Machine.eval node.bare session.global [] [] session.store.bare)
      (last, store))
    (stop : last.result? = some result) (enough : m ≤ fuel) :
    ∃ result' session', session.evaluate fuel node = some (result', session') ∧
      result'.map Value.bare = result.map (·.1) ∧
      session'.bare = { session.bare with store, steps := m } := by
  have run := Machine.run_of_steps_unlimited steps stop enough
  have evaluated : session.bare.evaluate fuel node.bare =
      some (result.map (·.1), { session.bare with store, steps := m }) := by
    rw [Machine.evaluate_eq]
    show (Machine.run fuel (.start session.limit) _ _).map _ = _
    rw [unlimited]
    exact congrArg _ run
  rw [evaluate_bare] at evaluated
  obtain ⟨⟨result', session'⟩, there, outcome⟩ := Option.map_eq_some_iff.mp evaluated
  exact ⟨result', session', there, congrArg Prod.fst outcome, congrArg Prod.snd outcome⟩

/-- **What a program comes to that is one statement.** Its text is read as the tokens of an
expression, and its value or its error is what the moves of the tree of the expression come to. -/
theorem run_statement {text : String} {e : Expr .builtins}
    (feed : Lexer.feed (text.toList ++ [';']) = Feed.inFront e.tokens (Lexer.feed [';']))
    (unlimited : session.limit = none)
    (steps : Machine.Steps m (Machine.eval e.node session.global [] [] session.store.bare)
      (last, store))
    (stop : last.result? = some result) (enough : m ≤ fuel) :
    ∃ (result' : Except EvalError Value) (session' : Session) (r : Reader),
      session.run fuel (text ++ ";") = some (result'.mapError .eval, session', r) ∧
      result'.map Value.bare = result.map (·.1) ∧
      session'.bare = { session.bare with store, steps := m } := by
  obtain ⟨node, r', r'', read, same, ended⟩ := read_statement feed
  rw [← same] at steps
  obtain ⟨result', session', evaluated, value, after⟩ :=
    evaluate_of_steps unlimited steps stop enough
  have proper : (Reader.plain (text ++ ";")).cursor.Proper := Cursor.ofText_proper _
  cases result' with
  | error error =>
    refine ⟨.error error, session', r', ?_, value, after⟩
    rw [run_eq, runFrom_some proper read, evaluated]
    rfl
  | ok v =>
    refine ⟨.ok v, session', r'', ?_, value, after⟩
    rw [run_eq, runFrom_some proper read, evaluated, proceed, runFrom_none ended]
    rfl

/-- A program of one statement that comes to data. -/
theorem run_data {text : String} {e : Expr .builtins} {v : Value} {trail : Machine.Trail}
    (data : v.IsData)
    (feed : Lexer.feed (text.toList ++ [';']) = Feed.inFront e.tokens (Lexer.feed [';']))
    (unlimited : session.limit = none)
    (steps : Machine.Steps m (Machine.eval e.node session.global [] [] session.store.bare)
      (Machine.deliver v [] trail, store))
    (enough : m + 1 ≤ fuel) :
    ∃ (session' : Session) (r : Reader),
      session.run fuel (text ++ ";") = some (.ok v, session', r) ∧
      session'.bare = { session.bare with store, steps := m + 1 } := by
  obtain ⟨result, session', r, run, same, after⟩ :=
    run_statement feed unlimited (steps.trans (.single _ _)) rfl enough
  cases result with
  | error error => cases same
  | ok v' =>
    obtain rfl := Value.eq_of_bare data (Except.ok.inj same)
    exact ⟨session', r, run, after⟩

end Session

end Retrace
