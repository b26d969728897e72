/-
Two programs run as one.

* `Session.runFrom` — the rest of a program, without a bound.
* `Session.Alike` — sessions that programs cannot tell apart.
* `runFrom_extends` — with more text behind it a program does the same, and then goes on
  with that text.
* `runFrom_further` — behind another text a program does the same, in a session that is
  alike.
* **`run_append`** — a program in two texts, of which the first ends with a semicolon, is
  one after the other.

Design notes:
* The functions that the second text makes have bodies that stand further on. Sessions
  are therefore compared without places: with the same frames, and in them the same
  names bound to the same values, but for where the bodies of functions were read.
* Up to the end of the first text nothing is compared, because nothing differs.
-/
import Mathlib
import Retrace.Proofs.Machine.Places
import Retrace.Proofs.Reader.Concatenation
import Retrace.Proofs.Reader.WellFormed

namespace Retrace

/-! ### The rest of a program -/

namespace Session

variable {fuel : Nat} {last : Value} {session session' : Session} {r r' r₁ : Reader} {node : Node}

/-- Runs what is left of a program up to its first error. -/
def runFrom (fuel : Nat) (last : Value) (session : Session) (r : Reader) :
    Option (Except RunError Value × Session × Reader) :=
  runWithin fuel last session r (r.cursor.remaining + 1)

/-- Goes on with the rest of a program after what came of a statement. -/
def proceed (fuel : Nat) (r : Reader) :
    Option (Except EvalError Value × Session) → Option (Except RunError Value × Session × Reader)
  | none => none
  | some (.error error, session) => some (.error (.eval error), session, r)
  | some (.ok value, session) => runFrom fuel value session r

/-- Bounds that are larger than the number of tokens that are left do not matter. -/
theorem runWithin_congr {bound bound' : Nat} (proper : r.cursor.Proper)
    (enough : r.cursor.remaining < bound) (enough' : r.cursor.remaining < bound') :
    runWithin fuel last session r bound = runWithin fuel last session r bound' := by
  induction bound generalizing last session r bound' with
  | zero => exact absurd enough (Nat.not_lt_zero _)
  | succ bound ih =>
    obtain ⟨bound', rfl⟩ : ∃ b, bound' = b + 1 := ⟨bound' - 1, by omega⟩
    rw [runWithin, runWithin]
    cases read : r.read with
    | mk result r₁ =>
      rcases result with e | _ | node
      · rfl
      · rfl
      · obtain ⟨proper₁, less⟩ := Reader.read_consumes proper read
        simp only
        rcases session.evaluate fuel node with _ | ⟨e | value, session'⟩
        · rfl
        · rfl
        · exact ih proper₁ (by omega) (by omega)

theorem runFrom_error {e : ReadError} (h : r.read = (.error e, r₁)) :
    runFrom fuel last session r = some (.error (.read e), session, r₁) := by
  rw [runFrom, runWithin, h]

theorem runFrom_none (h : r.read = (.ok none, r₁)) :
    runFrom fuel last session r = some (.ok last, session, r₁) := by
  rw [runFrom, runWithin, h]

theorem runFrom_some (proper : r.cursor.Proper) (h : r.read = (.ok (some node), r₁)) :
    runFrom fuel last session r = proceed fuel r₁ (session.evaluate fuel node) := by
  obtain ⟨proper₁, less⟩ := Reader.read_consumes proper h
  rw [runFrom, runWithin, h]
  simp only
  rcases session.evaluate fuel node with _ | ⟨e | value, session'⟩
  · rfl
  · rfl
  · exact runWithin_congr proper₁ less (Nat.lt_succ_self _)

/-- Readers that read the same have the same program left. -/
theorem runFrom_congr (proper : r.cursor.Proper) (proper' : r'.cursor.Proper)
    (same : r'.read = r.read) :
    runFrom fuel last session r' = runFrom fuel last session r := by
  cases read : r.read with
  | mk result r₁ =>
    rcases result with e | _ | node
    · rw [runFrom_error read, runFrom_error (same.trans read)]
    · rw [runFrom_none read, runFrom_none (same.trans read)]
    · rw [runFrom_some proper read, runFrom_some proper' (same.trans read)]

/-- A program with a statement or an error in it does not look at the value before it. -/
theorem runFrom_last (proper : r.cursor.Proper) (filled : r.read.1 ≠ .ok none) (value : Value) :
    runFrom fuel last session r = runFrom fuel value session r := by
  cases read : r.read with
  | mk result r₁ =>
    rw [read] at filled
    rcases result with e | _ | node
    · rw [runFrom_error read, runFrom_error read]
    · exact absurd rfl filled
    · rw [runFrom_some proper read, runFrom_some proper read]

/-! ### The first text -/

/-- What a program does when another text is written behind it: where the program ends with a
value, the rest is that text, and where it ends with an evaluation error, so does the whole. -/
def Continues (fuel n : Nat) (q : String) (config : ReaderConfig)
    (part whole : Option (Except RunError Value × Session × Reader)) : Prop :=
  match part with
  | none => whole = none
  | some (.ok value, session, _) =>
    ∃ r, whole = runFrom fuel value session r ∧ r.config = config ∧
      (Cursor.ofText q).Further n r.cursor
  | some (.error (.eval e), session, _) => ∃ r, whole = some (.error (.eval e), session, r)
  | some (.error (.read _), _, _) => True

/-- **With more text behind it a program does the same**, and then goes on with that text. -/
theorem runFrom_extends {start n : Nat} {q : String}
    (h : Reader.Extends ⟨.mark .semicolon, ⟨start, n⟩⟩ ((lex q).map (LexItem.shift n))
      ((eofOf q).shift n) r r') (proper' : r'.cursor.Proper) :
    Continues fuel n q r.config (runFrom fuel last session r)
      (runFrom fuel last session r') := by
  induction left : r.cursor.remaining using Nat.strongRecOn generalizing last session r r' with
  | _ left' ih =>
    cases read : r.read with
    | mk result r₁ =>
      rcases result with e | _ | node
      · rw [runFrom_error read]
        trivial
      · obtain ⟨c, same, further⟩ := Reader.read_behind h read
        have proper := further.proper (Cursor.ofText_proper q)
        rw [runFrom_none read]
        exact ⟨{ r' with cursor := c }, runFrom_congr proper proper' same, h.config, further⟩
      · obtain ⟨r₁', read', h₁⟩ := Reader.read_extends rfl h read
        obtain ⟨_, less⟩ := Reader.read_consumes h.proper read
        have proper₁' := (Reader.read_consumes proper' read').1
        have config : r₁.config = r.config := (Reader.result_of_read read).2
        rw [runFrom_some h.proper read, runFrom_some proper' read', ← config]
        rcases session.evaluate fuel node with _ | ⟨e | value, session'⟩
        · exact rfl
        · exact ⟨r₁', rfl⟩
        · exact ih _ (by omega) h₁ proper₁' rfl

/-! ### The second text -/

/-- Sessions that programs cannot tell apart: the same names are bound to the same values in the
same frames, but for the places of the bodies of functions. -/
structure Alike (session session' : Session) : Prop where
  bindings env :
    (session'.store.frame? env).map Frame.bare = (session.store.frame? env).map Frame.bare
  created env : session'.store.created env = session.store.created env
  trees : session'.store.trees.size = session.store.trees.size
  closures : session'.store.closures = session.store.closures
  global : session'.global = session.global
  limit : session'.limit = session.limit
  steps : session'.steps = session.steps

/-- Sessions are alike if they are the same without places. -/
theorem alike_iff : session.Alike session' ↔ session'.bare = session.bare := by
  constructor
  · rintro ⟨bindings, created, trees, closures, global, limit, steps⟩
    have store : session'.store.bare = session.store.bare := by
      refine Store.bare_eq_of_frames closures ?_ (fun env => ?_) fun env => ?_
      · rw [Store.trees_size_bare, trees]
      · rw [Store.created_bare, created]
      · rw [Store.frame?_bare, bindings]
    obtain ⟨s, g, l, n⟩ := session
    obtain ⟨s', g', l', n'⟩ := session'
    simp only at global limit steps store
    subst global limit steps
    exact congrArg (Session.mk · g' l' n') store
  · intro same
    have store : session'.store.bare = session.store.bare := congrArg Session.store same
    have closures : session'.store.bare.closures = session.store.bare.closures :=
      congrArg Store.closures store
    have global : session'.bare.global = session.bare.global := congrArg Session.global same
    have limit : session'.bare.limit = session.bare.limit := congrArg Session.limit same
    have steps : session'.bare.steps = session.bare.steps := congrArg Session.steps same
    refine ⟨fun env => ?_, fun env => ?_, ?_, closures, global, limit, steps⟩
    · rw [← Store.frame?_bare, store, Store.frame?_bare]
    · rw [← Store.created_bare, store, Store.created_bare]
    · rw [← Store.trees_size_bare, store, Store.trees_size_bare]

/-- Trees that differ in places only come to the same in sessions that are alike. -/
theorem evaluate_alike {node' : Node} (alike : session.Alike session')
    (same : node'.bare = node.bare) :
    (session'.evaluate fuel node').map bareOutcome =
      (session.evaluate fuel node).map bareOutcome := by
  rw [← evaluate_bare, ← evaluate_bare, alike_iff.mp alike, same]

/-- Outcomes that are the same without places. -/
theorem outcome_cases {a b : Option (Except EvalError Value × Session)}
    (h : b.map bareOutcome = a.map bareOutcome) :
    (a = none ∧ b = none) ∨
    (∃ e s s', a = some (.error e, s) ∧ b = some (.error e, s') ∧ s.Alike s') ∨
    ∃ v v' s s', a = some (.ok v, s) ∧ b = some (.ok v', s') ∧ v'.bare = v.bare ∧
      s.Alike s' := by
  rcases a with _ | ⟨result, s⟩
  · exact .inl ⟨rfl, Option.map_eq_none_iff.mp h⟩
  · obtain ⟨⟨result', s'⟩, rfl, same⟩ := Option.map_eq_some_iff.mp h
    obtain ⟨results, sessions⟩ := Prod.mk.inj same
    have alike : s.Alike s' := alike_iff.mpr sessions
    right
    cases result with
    | error e =>
      cases result' with
      | error e' =>
        obtain rfl := Except.error.inj results
        exact .inl ⟨e', s, s', rfl, rfl, alike⟩
      | ok v' => cases results
    | ok v =>
      cases result' with
      | error e' => cases results
      | ok v' => exact .inr ⟨v, v', s, s', rfl, rfl, Except.ok.inj results, alike⟩

end Session

/-- Why a program has no value, with places a number of bytes further on. -/
def RunError.shift (n : Nat) : RunError → RunError
  | read e => read (e.shift n)
  | eval e => eval e

namespace Session

variable {fuel : Nat} {last : Value} {session session' : Session} {r r' r₁ : Reader} {node : Node}

/-- What came of a program, and of the same program behind another text that has a number of
bytes: the same value or the same error further on, in sessions that are alike. Or neither came to
an end with its fuel. -/
inductive Alikewise (n : Nat) : Option (Except RunError Value × Session × Reader) →
    Option (Except RunError Value × Session × Reader) → Prop
  | unfinished : Alikewise n none none
  | value {value value' session session' r r'} (same : value'.bare = value.bare)
      (alike : Alike session session') :
      Alikewise n (some (.ok value, session, r)) (some (.ok value', session', r'))
  | error {e session session' r r'} (alike : Alike session session') :
      Alikewise n (some (.error e, session, r)) (some (.error (e.shift n), session', r'))

/-- **Behind another text a program does the same**, in a session that is alike. -/
theorem runFrom_further {n : Nat} {last' : Value} (h : Reader.Further n r r')
    (alike : session.Alike session') (same : last'.bare = last.bare) :
    Alikewise n (runFrom fuel last session r) (runFrom fuel last' session' r') := by
  induction left : r.cursor.remaining using Nat.strongRecOn
    generalizing last last' session session' r r' with
  | _ left' ih =>
    have proper' := h.cursor.proper h.proper
    obtain ⟨result', h₁⟩ := Reader.read_further h
    cases read : r.read with
    | mk result r₁ =>
      cases read' : r'.read with
      | mk result'' r₁' =>
        rw [read, read'] at result' h₁
        obtain rfl : result'' = _ := result'
        rcases result with e | _ | node
        · rw [runFrom_error read, runFrom_error read']
          exact .error alike
        · rw [runFrom_none read, runFrom_none read']
          exact .value same alike
        · obtain ⟨_, less⟩ := Reader.read_consumes h.proper read
          have outcomes : (session'.evaluate fuel (node.shift n)).map bareOutcome = _ :=
            evaluate_alike alike (Node.bare_shift node)
          rw [runFrom_some h.proper read, runFrom_some proper' read']
          obtain ⟨none, none'⟩ | ⟨e, s, s', error, error', alike⟩ |
            ⟨v, v', s, s', ok, ok', values, alike⟩ := outcome_cases outcomes
          · rw [none, none']
            exact .unfinished
          · rw [error, error']
            exact .error alike
          · rw [ok, ok']
            exact ih _ (by omega) h₁ alike values rfl

/-- A program from its first statement on. -/
theorem run_eq (session : Session) (fuel : Nat) (text : String) :
    session.run fuel text = runFrom fuel (.list []) session (.plain text) :=
  rfl

end Session

/-- **Running a program in two texts is running it in one.** The first text ends with a semicolon.
If the first text ends with an evaluation error, the whole ends with that error, in the same
session. If it ends with a value, the whole ends as the second text does in the session after the
first: with the same value or the same error, whose place is further on by the bytes of the first
text, and in a session that is alike. If there is no statement in the second text, the whole ends
with the value of the first, in the same session. -/
theorem run_append {p : String} (ends : EndsStatement p) (session : Session) (fuel : Nat)
    (q : String) :
    (∀ e session' r, session.run fuel p = some (.error (.eval e), session', r) →
      ∃ r', session.run fuel (p ++ q) = some (.error (.eval e), session', r')) ∧
    ∀ value session' r, session.run fuel p = some (.ok value, session', r) →
      ((Reader.plain q).read.1 = .ok none →
        ∃ r', session.run fuel (p ++ q) = some (.ok value, session', r')) ∧
      ((Reader.plain q).read.1 ≠ .ok none →
        Session.Alikewise p.utf8ByteSize (session'.run fuel q) (session.run fuel (p ++ q))) := by
  obtain ⟨start, last⟩ := ends
  have both : Reader.Extends _ _ _ (.plain p) (.plain (p ++ q)) :=
    ⟨rfl, Cursor.ofText_proper p, Reader.ofText_extends last q⟩
  have whole : Session.Continues fuel _ q _ (session.run fuel p) (session.run fuel (p ++ q)) :=
    Session.runFrom_extends both (Cursor.ofText_proper (p ++ q))
  refine ⟨fun e session' r part => ?_, fun value session' r part => ?_⟩
  · rw [part] at whole
    exact whole
  · rw [part] at whole
    obtain ⟨r', same, config, further⟩ := whole
    have behind : Reader.Further (Text.width p.toList) (.plain q) r' :=
      ⟨config, Cursor.ofText_proper q, further⟩
    refine ⟨fun nothing => ?_, fun something => ?_⟩
    · obtain ⟨result, _⟩ := Reader.read_further behind
      rw [nothing] at result
      exact ⟨_, same.trans (Session.runFrom_none (Prod.ext result rfl))⟩
    · rw [same, Session.run_eq, Session.runFrom_last behind.proper something value,
        ← Text.width_toList]
      exact Session.runFrom_further behind (Session.alike_iff.mpr rfl) rfl

/-- A bracket that nothing opens, alone and behind a number. It is the first byte of the one text
and the third of the other. Behind a name that is not bound it is not read. -/
theorem run_append_bracket :
    let session := Session.start none
    EndsStatement "1;" ∧ EndsStatement "x;" ∧
      (∃ session' r, session.run 10 ("1;" ++ ")") = some (.error (.read
        (.unexpectedToken "expression" (.mark .closeParen) ⟨2, 3⟩)), session', r)) ∧
      ∃ session' r, session.run 10 ("x;" ++ ")") =
        some (.error (.eval (.symbolNotFound "x")), session', r) := by
  intro session
  have number : EndsStatement "1;" := ⟨1, by cbv⟩
  have unbound : EndsStatement "x;" := ⟨1, by cbv⟩
  have one : (session.run 10 "1;").map (·.1) = some (.ok (.int 1)) := by cbv
  have none_found : (session.run 10 "x;").map (·.1) =
      some (.error (.eval (.symbolNotFound "x"))) := by cbv
  have bracket : Reader.nextStatement (Reader.plain ")").config.operators (.ofText ")") =
      .error (.unexpectedToken "expression" (.mark .closeParen) ⟨0, 1⟩)
        ⟨[⟨.mark .closeParen, ⟨0, 1⟩⟩], [], eofOf ")", none⟩ := by cbv
  have alone := Reader.read_of_error (r := Reader.plain ")") bracket
  refine ⟨number, unbound, ?_, ?_⟩
  · obtain ⟨⟨_, session', r⟩, ran, rfl⟩ := Option.map_eq_some_iff.mp one
    have something : (Reader.plain ")").read.1 ≠ .ok none := by
      rw [alone]
      rintro ⟨⟩
    have alike := ((run_append number session 10 ")").2 _ session' r ran).2 something
    rw [Session.run_eq session', Session.runFrom_error alone] at alike
    generalize session.run 10 ("1;" ++ ")") = whole at alike ⊢
    cases alike with
    | error alike => exact ⟨_, _, rfl⟩
  · obtain ⟨⟨_, session', r⟩, ran, rfl⟩ := Option.map_eq_some_iff.mp none_found
    obtain ⟨r', whole⟩ := (run_append unbound session 10 ")").1 _ session' r ran
    exact ⟨session', r', whole⟩

end Retrace
