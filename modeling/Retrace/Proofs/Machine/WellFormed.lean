/-
Programs never come to a malformed special form.

* `Move.WellFormed` and so on — what the machine has left to do, when every tree and every
  value in it is well-formed.
* `Regular` — a state of the machine with such a move, or with an ordinary error.
* `eval_regular`, `apply_regular`, `perform_regular` — evaluation begins regularly.
* **`bounce_regular`** — a move keeps a state regular.
* `Session.Reached` — the sessions that runs of programs lead to.
* `Session.runWithin_keeps` — what every statement keeps, a program keeps.
* **`programs_are_well_formed`** — what is read is well-formed, and no run of a program
  ends with the error of a malformed special form.

Design notes:
* A task keeps the nodes it has yet to evaluate, and a choice its other alternative.
  These are the places where a tree can wait, besides the bodies of functions.
* Faults in someone else's words come from plans only, and no tree leads to a plan.
* That the names of pending definitions are identifiers is kept along the way.
-/
import Mathlib
import Retrace.Proofs.Machine.Moves
import Retrace.Proofs.Machine.Runs
import Retrace.Proofs.Value.WellFormed

namespace Retrace

/-! ### The operands of special forms -/

namespace Form.Takes

variable {place : Place} {args : List Node}

theorem of_define (h : Form.define.Takes place args) :
    ∃ name span value, args = [.atom (.symbol name) span, value] ∧ Lexer.isIdentifier name := by
  rcases args with _ | ⟨target, _ | ⟨value, _ | ⟨_, _⟩⟩⟩ <;> first | exact absurd h id | skip
  obtain ⟨_, name, symbol, identifier⟩ := h
  cases target with
  | atom literal span =>
    cases literal with
    | symbol name' =>
      obtain rfl := Option.some.inj symbol
      exact ⟨name', span, value, rfl, identifier⟩
    | int | str | bool => cases symbol
  | apply | list | block => cases symbol

theorem of_function (h : Form.function.Takes place args) :
    ∃ params span body span', args = [.list params span, .block body span'] ∧
      ∀ param ∈ params, param.IsIdentifier := by
  rcases args with _ | ⟨first, _ | ⟨second, _ | ⟨_, _⟩⟩⟩ <;> first | exact absurd h id | skip
  obtain ⟨isParameters, isBlock⟩ := h
  cases first with
  | list params span =>
    cases second with
    | block body span' => exact ⟨params, span, body, span', rfl, isParameters⟩
    | atom | apply | list => exact absurd isBlock id
  | atom | apply | block => exact absurd isParameters id

theorem of_conditional (h : Form.conditional.Takes place args) :
    ∃ condition consequent alternative, args = [condition, consequent, alternative] := by
  rcases args with _ | ⟨a, _ | ⟨b, _ | ⟨c, _ | ⟨_, _⟩⟩⟩⟩ <;> first | exact absurd h id | skip
  exact ⟨a, b, c, rfl⟩

/-- The other special forms have two operands. -/
theorem of_pair {form : Form} (pair : form = .choice ∨ form = .and ∨ form = .or)
    (h : form.Takes place args) : ∃ left right, args = [left, right] := by
  rcases pair with rfl | rfl | rfl <;>
    rcases args with _ | ⟨a, _ | ⟨b, _ | ⟨_, _⟩⟩⟩ <;>
    first | exact absurd h id | exact ⟨a, b, rfl⟩

end Form.Takes

/-- Parameters have names, and these are identifiers. -/
theorem Node.names_of_parameters {params : List Node} (h : ∀ param ∈ params, param.IsIdentifier) :
    ∃ names, params.mapM Node.symbol? = some names ∧ ∀ name ∈ names, Lexer.isIdentifier name := by
  induction params with
  | nil => exact ⟨[], rfl, nofun⟩
  | cons param params ih =>
    obtain ⟨name, symbol, identifier⟩ := h param (.head _)
    obtain ⟨names, found, all⟩ := ih fun param member => h param (.tail _ member)
    refine ⟨name :: names, ?_, List.forall_mem_cons.mpr ⟨identifier, all⟩⟩
    rw [List.mapM_cons, symbol, found]
    rfl

namespace Machine

/-! ### What is left to do -/

def Goal.WellFormed : Goal → Prop
  | .list => True
  | .call function => function.WellFormed

/-- A task with well-formed nodes and values. -/
def Task.WellFormed : Task → Prop
  | .collect goal done todo _ =>
    goal.WellFormed ∧ (∀ value ∈ done, value.WellFormed) ∧ Node.AllWellFormed .expression todo
  | .sequence next others _ => Node.AllWellFormed .statement (next :: others)
  | .bind name _ => Lexer.isIdentifier name
  | .choose consequent alternative _ =>
    consequent.WellFormed .expression ∧ alternative.WellFormed .expression
  | .junction _ right _ => right.WellFormed .expression
  | .check _ => True
  | .operands args _ => Node.AllWellFormed .expression args
  | .reject => False

/-- Tasks with well-formed nodes and values. -/
def ContWellFormed (k : Cont) : Prop :=
  ∀ task ∈ k, task.WellFormed

/-- A choice with a well-formed alternative. -/
def Choice.WellFormed : Choice → Prop
  | .undo .. => True
  | .retry node _ k => node.WellFormed .expression ∧ ContWellFormed k
  | .plan _ => False

/-- Choices with well-formed alternatives. -/
def TrailWellFormed (trail : Trail) : Prop :=
  ∀ choice ∈ trail, choice.WellFormed

/-- A move with well-formed nodes and values. -/
def Move.WellFormed : Move → Prop
  | .deliver value k trail => value.WellFormed ∧ ContWellFormed k ∧ TrailWellFormed trail
  | .retreat trail => TrailWellFormed trail
  | .seek _ _ k trail => ContWellFormed k ∧ TrailWellFormed trail
  | .gather goal values k trail =>
    goal.WellFormed ∧ (∀ value ∈ values, value.WellFormed) ∧ ContWellFormed k ∧
      TrailWellFormed trail
  | .follow _ => False

/-- A state with a well-formed store, and with a well-formed move or an ordinary error. -/
def Regular (c : Promise × Store) : Prop :=
  c.2.WellFormed ∧
    match c.1 with
    | .error e => e.Ordinary
    | .done value _ => value.WellFormed
    | .next move => move.WellFormed

variable {k : Cont} {trail : Trail} {s : Store} {env : Env} {value : Value} {place : Place}

theorem contWellFormed_cons {task : Task} (here : task.WellFormed) (hk : ContWellFormed k) :
    ContWellFormed (task :: k) :=
  List.forall_mem_cons.mpr ⟨here, hk⟩

theorem trailWellFormed_cons {choice : Choice} (here : choice.WellFormed)
    (ht : TrailWellFormed trail) : TrailWellFormed (choice :: trail) :=
  List.forall_mem_cons.mpr ⟨here, ht⟩

theorem lookup_regular (name : String) (hs : s.WellFormed) (hk : ContWellFormed k)
    (ht : TrailWellFormed trail) : Regular (lookup name env k trail s, s) := by
  refine ⟨hs, ?_⟩
  unfold lookup
  cases here : s.frame? env with
  | none => trivial
  | some frame =>
    cases found : frame.bindings.lookup name with
    | none =>
      simp only [found]
      exact ⟨hk, ht⟩
    | some value =>
      simp only [found]
      exact ⟨(hs env frame here).lookup found, hk, ht⟩

theorem define_regular {name : String} (hv : value.WellFormed) (hs : s.WellFormed)
    (hk : ContWellFormed k) (ht : TrailWellFormed trail) :
    Regular (define name value env k trail s) := by
  unfold define
  split
  · exact ⟨hs, trivial, hk, ht⟩
  · split
    · exact ⟨hs, trivial⟩
    · exact ⟨hs.bind hv, trivial, hk, trailWellFormed_cons trivial ht⟩

/-- The evaluation of a well-formed tree begins regularly. -/
theorem eval_regular {node : Node} (h : node.WellFormed place) (hs : s.WellFormed)
    (hk : ContWellFormed k) (ht : TrailWellFormed trail) :
    Regular (eval node env k trail s) := by
  fun_induction eval node env k trail s generalizing place
  case case1 => exact ⟨hs, ht⟩
  case case2 => exact lookup_regular _ hs hk ht
  case case3 => exact ⟨hs, Value.wellFormed_ofLiteral _, hk, ht⟩
  case case4 => exact ⟨hs, trivial, List.forall_mem_nil _, hk, ht⟩
  case case5 ih => exact ih h.1 (contWellFormed_cons ⟨trivial, List.forall_mem_nil _, h.2⟩ hk) ht
  case case6 => exact ⟨hs, trivial, hk, ht⟩
  case case7 ih => exact ih h.1 hk ht
  case case8 ih => exact ih h.1 (contWellFormed_cons h.2 hk) ht
  -- a special form has its operands
  case case9 special _ _ _ ih =>
    obtain ⟨takes, _, value, _⟩ := (Node.wellFormed_special special).mp h
    obtain ⟨_, name, symbol, identifier⟩ := takes
    obtain rfl := Option.some.inj symbol
    exact ih value (contWellFormed_cons identifier hk) ht
  case case10 special wrong =>
    obtain ⟨name, span, value, same, _⟩ := ((Node.wellFormed_special special).mp h).1.of_define
    exact absurd same (wrong name span value)
  case case11 special _ _ _ _ names found function t made =>
    obtain ⟨⟨isParameters, _⟩, _, body, _⟩ := (Node.wellFormed_special special).mp h
    obtain ⟨names', found', identifiers⟩ := Node.names_of_parameters isParameters
    obtain rfl := Option.some.inj (found.symm.trans found')
    obtain ⟨rfl, rfl⟩ := Prod.mk.inj made
    exact ⟨hs, ⟨identifiers, body⟩, hk, ht⟩
  case case12 special _ _ _ _ none_found =>
    obtain ⟨⟨isParameters, _⟩, _⟩ := (Node.wellFormed_special special).mp h
    obtain ⟨names, found, _⟩ := Node.names_of_parameters isParameters
    exact absurd (none_found.symm.trans found) (by simp)
  case case13 special wrong =>
    obtain ⟨params, span, body, span', same, _⟩ :=
      ((Node.wellFormed_special special).mp h).1.of_function
    exact absurd same (wrong params span body span')
  case case14 special _ _ _ ih =>
    obtain ⟨_, condition, consequent, alternative, _⟩ := (Node.wellFormed_special special).mp h
    exact ih condition (contWellFormed_cons ⟨consequent, alternative⟩ hk) ht
  case case15 special wrong =>
    obtain ⟨condition, consequent, alternative, same⟩ :=
      ((Node.wellFormed_special special).mp h).1.of_conditional
    exact absurd same (wrong condition consequent alternative)
  case case16 special _ _ ih =>
    obtain ⟨_, first, second, _⟩ := (Node.wellFormed_special special).mp h
    exact ih first hk (trailWellFormed_cons ⟨second, hk⟩ ht)
  case case18 special _ _ ih | case20 special _ _ ih =>
    obtain ⟨_, left, right, _⟩ := (Node.wellFormed_special special).mp h
    exact ih left (contWellFormed_cons right hk) ht
  case case17 special wrong =>
    obtain ⟨left, right, same⟩ :=
      ((Node.wellFormed_special special).mp h).1.of_pair (.inl rfl)
    exact absurd same (wrong left right)
  case case19 special wrong =>
    obtain ⟨left, right, same⟩ :=
      ((Node.wellFormed_special special).mp h).1.of_pair (.inr (.inl rfl))
    exact absurd same (wrong left right)
  case case21 special wrong =>
    obtain ⟨left, right, same⟩ :=
      ((Node.wellFormed_special special).mp h).1.of_pair (.inr (.inr rfl))
    exact absurd same (wrong left right)
  case case22 special ih =>
    obtain ⟨op, args⟩ := (Node.wellFormed_call special).mp h
    exact ih op (contWellFormed_cons args hk) ht

theorem evalAll_regular {goal : Goal} {done : List Value} {todo : List Node}
    (hgoal : goal.WellFormed) (hdone : ∀ value ∈ done, value.WellFormed)
    (htodo : Node.AllWellFormed .expression todo) (hs : s.WellFormed) (hk : ContWellFormed k)
    (ht : TrailWellFormed trail) : Regular (evalAll goal done todo env k trail s) := by
  cases todo with
  | nil =>
    have values : ∀ value ∈ done.reverse, value.WellFormed := fun value member =>
      hdone value (List.mem_reverse.mp member)
    exact ⟨hs, hgoal, values, hk, ht⟩
  | cons node todo =>
    exact eval_regular htodo.1 hs (contWellFormed_cons ⟨hgoal, hdone, htodo.2⟩ hk) ht

theorem evalSequence_regular {statements : List Node} (h : Node.AllWellFormed .statement statements)
    (hs : s.WellFormed) (hk : ContWellFormed k) (ht : TrailWellFormed trail) :
    Regular (evalSequence statements env k trail s) := by
  rcases statements with _ | ⟨first, _ | ⟨next, others⟩⟩
  · exact ⟨hs, trivial, hk, ht⟩
  · exact eval_regular h.1 hs hk ht
  · exact eval_regular h.1 hs (contWellFormed_cons h.2 hk) ht

/-- The application of a well-formed function begins regularly. -/
theorem apply_regular {function : Value} {args : List Value} (hfunction : function.WellFormed)
    (hargs : ∀ arg ∈ args, arg.WellFormed) (hs : s.WellFormed) (hk : ContWellFormed k)
    (ht : TrailWellFormed trail) : Regular (apply function args k trail s) := by
  cases function with
  | closure c =>
    rw [apply]
    split
    · have bindings : Bindings.WellFormed (c.params.zip args) := fun binding member =>
        hargs _ (List.of_mem_zip member).2
      exact evalSequence_regular hfunction.2 (hs.extend bindings) hk ht
    · exact ⟨hs, trivial⟩
  | primitive p =>
    have results := p.apply_results hargs
    rw [apply]
    cases result : p.apply args with
    | ok value =>
      rw [result] at results
      exact ⟨hs, results, hk, ht⟩
    | error e =>
      rw [result] at results
      exact ⟨hs, results⟩
  | int | str | bool | symbol | list => exact ⟨hs, trivial⟩

/-- A well-formed value that arrives at a task begins something regular. -/
theorem perform_regular {task : Task} (htask : task.WellFormed) (hv : value.WellFormed)
    (hs : s.WellFormed) (hk : ContWellFormed k) (ht : TrailWellFormed trail) :
    Regular (perform task value k trail s) := by
  cases task with
  | collect goal done todo env =>
    obtain ⟨hgoal, hdone, htodo⟩ := htask
    exact evalAll_regular hgoal (List.forall_mem_cons.mpr ⟨hv, hdone⟩) htodo hs hk ht
  | sequence next others env => exact evalSequence_regular htask hs hk ht
  | bind name env => exact define_regular hv hs hk ht
  | choose consequent alternative env =>
    obtain ⟨hconsequent, halternative⟩ := htask
    cases value with
    | bool b =>
      cases b with
      | true => exact eval_regular hconsequent hs hk ht
      | false => exact eval_regular halternative hs hk ht
    | int | str | symbol | list | closure | primitive => exact ⟨hs, trivial⟩
  | junction kind right env =>
    cases value with
    | bool b =>
      show Regular (if b = kind.decisive then _ else _)
      split
      · exact ⟨hs, trivial, hk, ht⟩
      · exact eval_regular htask hs (contWellFormed_cons trivial hk) ht
    | int | str | symbol | list | closure | primitive => exact ⟨hs, trivial⟩
  | check kind =>
    cases value with
    | bool b => exact ⟨hs, trivial, hk, ht⟩
    | int | str | symbol | list | closure | primitive => exact ⟨hs, trivial⟩
  | operands args env => exact evalAll_regular hv nofun htask hs hk ht
  | reject => exact absurd htask id

theorem fail_regular (hs : s.WellFormed) (ht : TrailWellFormed trail) :
    Regular (fail trail s) := by
  cases trail with
  | nil => exact ⟨hs, trivial⟩
  | cons choice trail =>
    obtain ⟨here, rest⟩ := List.forall_mem_cons.mp ht
    cases choice with
    | undo name env => exact ⟨hs.unbind, rest⟩
    | retry node env k => exact eval_regular here.1 hs here.2 rest
    | plan plan => exact absurd here id

/-- **A move keeps a state regular.** -/
theorem bounce_regular {move : Move} (h : Regular (.next move, s)) : Regular (bounce move s) := by
  obtain ⟨hs, h⟩ := h
  cases move with
  | deliver value k trail =>
    obtain ⟨hv, hk, ht⟩ := h
    cases k with
    | nil => exact ⟨hs, hv⟩
    | cons task k =>
      obtain ⟨htask, hk⟩ := List.forall_mem_cons.mp hk
      exact perform_regular htask hv hs hk ht
  | retreat trail => exact fail_regular hs h
  | seek name env k trail => exact lookup_regular name hs h.1 h.2
  | gather goal values k trail =>
    obtain ⟨hgoal, hvalues, hk, ht⟩ := h
    cases goal with
    | list => exact ⟨hs, Value.allWellFormed_iff.mpr hvalues, hk, ht⟩
    | call function => exact apply_regular hgoal hvalues hs hk ht
  | follow plan => exact absurd h id

/-- Moves keep a state regular. -/
theorem regular_of_steps {n : Nat} {a b : Promise × Store} (steps : Steps n a b)
    (h : Regular a) : Regular b := by
  induction steps with
  | refl => exact h
  | move _ ih => exact ih (bounce_regular h)

/-- A run from a regular state leaves a well-formed store, and ends with a well-formed value or an
ordinary error. -/
theorem run_regular {fuel : Nat} {meter : Meter} {promise : Promise} {ending : Ending}
    (h : Regular (promise, s)) (ran : run fuel meter promise s = some ending) :
    ending.store.WellFormed ∧ Results Value.WellFormed ending.value := by
  obtain ⟨n, last, _, steps, _, stop | ⟨_, limit, _, _, exceeded⟩⟩ := run_eq_some ran
  · obtain ⟨hs, hlast⟩ := regular_of_steps steps h
    refine ⟨hs, ?_⟩
    cases last with
    | error e =>
      rw [Ending.value, ← Option.some.inj stop]
      exact hlast
    | done value trail =>
      rw [Ending.value, ← Option.some.inj stop]
      exact hlast
    | next move => cases stop
  · refine ⟨(regular_of_steps steps h).1, ?_⟩
    rw [Ending.value, exceeded]
    trivial

end Machine

/-! ### Sessions -/

namespace Session

/-- The sessions that runs of programs lead to. -/
inductive Reached : Session → Prop
  | start (limit : Option Nat) : Reached (.start limit)
  | run {session : Session} {fuel : Nat} {text : String} {result : Except RunError Value}
      {session' : Session} {reader : Reader} (before : Reached session)
      (ran : session.run fuel text = some (result, session', reader)) : Reached session'

variable {session session' : Session} {fuel : Nat}

/-- Statements that are well-formed leave a well-formed store, and end with a well-formed value or
an ordinary error. -/
theorem evaluate_wellFormed {node : Node} {result : Except EvalError Value}
    (hs : session.store.WellFormed) (h : node.WellFormed .statement)
    (ran : session.evaluate fuel node = some (result, session')) :
    session'.store.WellFormed ∧ Results Value.WellFormed result := by
  rw [Machine.evaluate_eq] at ran
  obtain ⟨ending, ends, same⟩ := Option.map_eq_some_iff.mp ran
  obtain ⟨rfl, rfl⟩ := Prod.mk.inj same
  have begins := @Machine.eval_regular [] [] session.store session.global _ node h hs
    (List.forall_mem_nil _) (List.forall_mem_nil _)
  exact Machine.run_regular begins ends

/-- What every statement keeps a program keeps, and the error that ends a program is one that a
statement ends with. -/
theorem runWithin_keeps {P : Session → Prop} {Q : EvalError → Prop}
    (keeps : ∀ {session session' node fuel result}, P session → node.WellFormed .statement →
      session.evaluate fuel node = some (result, session') →
      P session' ∧ ∀ e, result = .error e → Q e)
    {text : String} {config : ReaderConfig} {bound : Nat} {last : Value} {r r' : Reader}
    {result : Except RunError Value} (h : P session) (reached : Reader.Reached text config r)
    (ran : runWithin fuel last session r bound = some (result, session', r')) :
    P session' ∧ ∀ e, result = .error (.eval e) → Q e := by
  induction bound generalizing last session r with
  | zero =>
    obtain ⟨rfl, rfl, _⟩ : _ ∧ _ ∧ _ := by simpa [runWithin] using ran
    exact ⟨h, nofun⟩
  | succ bound ih =>
    have next := reached.read
    rw [runWithin] at ran
    cases read : r.read with
    | mk found reader =>
      rw [read] at ran next
      rcases found with error | _ | node
      · obtain ⟨rfl, rfl, _⟩ : _ ∧ _ ∧ _ := by simpa using ran
        exact ⟨h, nofun⟩
      · obtain ⟨rfl, rfl, _⟩ : _ ∧ _ ∧ _ := by simpa using ran
        exact ⟨h, nofun⟩
      · have wellFormed := Reader.read_wellFormed reached (congrArg Prod.fst read)
        simp only at ran
        cases evaluated : session.evaluate fuel node with
        | none => simp [evaluated] at ran
        | some outcome =>
          obtain ⟨result', session''⟩ := outcome
          obtain ⟨kept, errors⟩ := keeps h wellFormed evaluated
          rw [evaluated] at ran
          cases result' with
          | error e =>
            obtain ⟨rfl, rfl, _⟩ : _ ∧ _ ∧ _ := by simpa using ran
            refine ⟨kept, ?_⟩
            rintro _ ⟨⟩
            exact errors e rfl
          | ok value => exact ih kept next ran

/-- Programs leave a well-formed store, and end with an ordinary error if they end with one of
evaluation. -/
theorem runWithin_wellFormed {text : String} {config : ReaderConfig} {bound : Nat} {last : Value}
    {r r' : Reader} {result : Except RunError Value} (hs : session.store.WellFormed)
    (reached : Reader.Reached text config r)
    (ran : runWithin fuel last session r bound = some (result, session', r')) :
    session'.store.WellFormed ∧ ∀ e, result = .error (.eval e) → e.Ordinary := by
  refine runWithin_keeps (P := fun session => session.store.WellFormed) ?_ hs reached ran
  intro session session' node fuel result hs wellFormed evaluated
  obtain ⟨hs', results⟩ := evaluate_wellFormed hs wellFormed evaluated
  refine ⟨hs', ?_⟩
  rintro e rfl
  exact results

theorem start_wellFormed (limit : Option Nat) : (start limit).store.WellFormed := by
  have empty : Store.empty.addRoot.2.WellFormed := by
    intro env frame found
    rw [Store.frame?_addRoot, Store.frame?_empty] at found
    cases found
  refine empty.extend fun binding member => ?_
  obtain ⟨p, _, rfl⟩ := List.mem_map.mp member
  trivial

/-- Every value of a session that was reached is well-formed. -/
theorem Reached.wellFormed (h : session.Reached) : session.store.WellFormed := by
  induction h with
  | start limit => exact start_wellFormed limit
  | run before ran ih => exact (runWithin_wellFormed ih .start ran).1

end Session

/-- **Programs never come to a malformed special form.** Every tree that a reader gives is
well-formed, whatever the text and the operators are and whatever was read and skipped before. And
in every session that runs of programs lead to, a run of a program ends with no error of a
malformed special form. -/
theorem programs_are_well_formed :
    (∀ text config r node, Reader.Reached text config r → r.read.1 = .ok (some node) →
      node.WellFormed .statement) ∧
    ∀ session fuel text error session' reader, Session.Reached session →
      session.run fuel text = some (.error (.eval error), session', reader) →
      ∀ form, error ≠ .type (.malformed form) := by
  refine ⟨fun _ _ _ _ reached result => Reader.read_wellFormed reached result, ?_⟩
  rintro session fuel text _ session' reader reached ran form rfl
  exact (Session.runWithin_wellFormed reached.wellFormed .start ran).2 _ rfl

/-- A conditional whose condition is one, as it is read. -/
def ifOne : Node :=
  .apply (.symbol "if" ⟨0, 2⟩) [.atom (.int 1) ⟨4, 5⟩, .block [] ⟨7, 9⟩, .block [] ⟨9, 9⟩] ⟨0, 9⟩

/-- A conditional is read with its three operands. Its run ends with an error, which is about the
condition and not about the form. -/
theorem ifOne_is_well_formed :
    let text := "if (1) \x7b\x7d"
    (Reader.plain text).read.1 = .ok (some ifOne) ∧ ifOne.WellFormed .statement ∧
      ∃ error session' reader,
        (Session.start none).run 10 text = some (.error (.eval error), session', reader) ∧
          error = .type (.condition .integer) ∧ ∀ form, error ≠ .type (.malformed form) := by
  intro text
  have read : (Reader.plain text).read.1 = .ok (some ifOne) := by cbv
  have ran : ((Session.start none).run 10 text).map (·.1) =
      some (.error (.eval (.type (.condition .integer)))) := by cbv
  obtain ⟨⟨result, session', reader⟩, run, rfl⟩ := Option.map_eq_some_iff.mp ran
  have wellFormed := programs_are_well_formed.1 text _ _ ifOne .start read
  refine ⟨read, wellFormed, _, session', reader, run, rfl, ?_⟩
  exact programs_are_well_formed.2 _ 10 text _ session' reader (.start none) run

end Retrace
