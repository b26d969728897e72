/-
Evaluation with other numbers and other places.

* `Relabelling.move`, `Relabelling.promise` — the states of the machine, changed.
* `Relabelling.Follows` — a state and the same state, changed, with stores that belong
  together.
* `eval_follows`, `apply_follows` — the evaluation of a node and the application of a function
  begin in the same way.
* **`bounce_follows`** — so does every move.
* **`run_follows`** — two runs with the same moves come to the same.
* **`evaluate_follows`** — and so does a statement in two sessions that belong together.

Design notes: the machine holds trees and environments in its tasks and its choices, and in
the functions among its values. It goes by the shape of a tree and by the names and literals
in it, and it hands environments to the operations on stores. So a move goes along with a
change, whatever the change is.
-/
import Retrace.Proofs.Machine.Moves
import Retrace.Proofs.Machine.Runs
import Retrace.Proofs.Scope.Relabelling

namespace Retrace

open Machine

/-! ### States of the machine, changed -/

namespace Relabelling

variable (ρ : Relabelling)

/-- A tree, changed. -/
abbrev node (node : Node) : Node :=
  node.placed ρ.place

/-- Trees, changed. -/
abbrev nodes (nodes : List Node) : List Node :=
  Node.placedAll ρ.place nodes

/-- Values, changed. -/
abbrev values (values : List Value) : List Value :=
  values.map ρ.value

/-- A goal, changed. -/
def goal : Goal → Goal
  | .list => .list
  | .call function => .call (ρ.value function)

/-- A task, changed. -/
def task : Task → Task
  | .collect goal done todo env =>
    .collect (ρ.goal goal) (ρ.values done) (ρ.nodes todo) (ρ.env env)
  | .sequence next others env => .sequence (ρ.node next) (ρ.nodes others) (ρ.env env)
  | .bind name env => .bind name (ρ.env env)
  | .choose consequent alternative env =>
    .choose (ρ.node consequent) (ρ.node alternative) (ρ.env env)
  | .junction kind right env => .junction kind (ρ.node right) (ρ.env env)
  | .check kind => .check kind
  | .operands args env => .operands (ρ.nodes args) (ρ.env env)
  | .reject => .reject

/-- A continuation, changed. -/
abbrev cont (k : Cont) : Cont :=
  k.map ρ.task

/-- A plan, changed. -/
def plan : Plan → Plan
  | .done value => .done (ρ.value value)
  | .raise error => .raise error
  | .suspended times p => .suspended times (plan p)
  | .resume value => .resume (ρ.value value)
  | .exhaust => .exhaust
  | .backtrack p => .backtrack (plan p)
  | .reject value p => .reject (ρ.value value) (plan p)

/-- A choice, changed. -/
def choice : Choice → Choice
  | .undo name env => .undo name (ρ.env env)
  | .retry node env k => .retry (ρ.node node) (ρ.env env) (ρ.cont k)
  | .plan plan => .plan (ρ.plan plan)

/-- A trail, changed. -/
abbrev trail (trail : Trail) : Trail :=
  trail.map ρ.choice

/-- A move, changed. -/
def move : Move → Move
  | .deliver value k trail => .deliver (ρ.value value) (ρ.cont k) (ρ.trail trail)
  | .retreat trail => .retreat (ρ.trail trail)
  | .seek name env k trail => .seek name (ρ.env env) (ρ.cont k) (ρ.trail trail)
  | .gather goal values k trail =>
    .gather (ρ.goal goal) (ρ.values values) (ρ.cont k) (ρ.trail trail)
  | .follow plan => .follow (ρ.plan plan)

/-- Where an evaluation stands, changed. -/
def promise : Promise → Promise
  | .error e => .error e
  | .done value trail => .done (ρ.value value) (trail.map ρ.trail)
  | .next move => .next (ρ.move move)

/-- A state, and the same state with stores that belong together. -/
def Follows (c c' : Promise × Store) : Prop :=
  c'.1 = ρ.promise c.1 ∧ ρ.Relates c.2 c'.2

end Relabelling

/-! ### The operands of special forms -/

namespace Node

variable {place : Span → Span} {args : List Node} {node first second third : Node}
  {name : String} {params body : List Node} {span span' : Span}

theorem mapM_symbol?_placedAll (params : List Node) :
    (placedAll place params).mapM symbol? = params.mapM symbol? := by
  induction params with
  | nil => rfl
  | cons param params ih => rw [placedAll, List.mapM_cons, List.mapM_cons, symbol?_placed, ih]

theorem eq_pair_of_placedAll (h : placedAll place args = [first, second]) :
    ∃ a b, args = [a, b] ∧ a.placed place = first ∧ b.placed place = second := by
  rw [placedAll_eq_map] at h
  obtain ⟨a, _, rfl, one, rest⟩ := List.map_eq_cons_iff.mp h
  obtain ⟨b, _, rfl, two, rest⟩ := List.map_eq_cons_iff.mp rest
  obtain rfl := List.map_eq_nil_iff.mp rest
  exact ⟨a, b, rfl, one, two⟩

theorem eq_triple_of_placedAll (h : placedAll place args = [first, second, third]) :
    ∃ a b c, args = [a, b, c] := by
  obtain ⟨a, _, rfl, _, rest⟩ := List.map_eq_cons_iff.mp (placedAll_eq_map args ▸ h)
  obtain ⟨b, c, rfl, _, _⟩ := eq_pair_of_placedAll (placedAll_eq_map _ ▸ rest)
  exact ⟨a, b, c, rfl⟩

/-- A tree is a symbol if it is one in other places. -/
theorem eq_symbol_of_placed (h : node.placed place = .atom (.symbol name) span) :
    ∃ span, node = .atom (.symbol name) span := by
  cases node with
  | atom literal span' =>
    obtain ⟨rfl, _⟩ := Node.atom.inj h
    exact ⟨span', rfl⟩
  | apply | list | block => cases h

/-- The operands of a function have the shape that they have in other places. -/
theorem eq_function_of_placedAll
    (h : placedAll place args = [.list params span, .block body span']) :
    ∃ params span body span', args = [.list params span, .block body span'] := by
  obtain ⟨a, b, rfl, first, second⟩ := eq_pair_of_placedAll h
  cases a with
  | atom | apply | block => cases first
  | list params span =>
    cases b with
    | atom | apply | list => cases second
    | block body span' => exact ⟨params, span, body, span', rfl⟩

end Node

/-! ### Moves -/

namespace Relabelling

variable {ρ : Relabelling} {k : Cont} {trail : Trail} {s s' : Store} {env : Env} {value : Value}

theorem lookup_follows (h : ρ.Relates s s') (name : String) (env : Env) :
    lookup name (ρ.env env) (ρ.cont k) (ρ.trail trail) s' =
      ρ.promise (lookup name env k trail s) := by
  unfold lookup
  rw [h.frame?]
  cases s.frame? env with
  | none => rfl
  | some frame =>
    simp only [Option.map_some, Relabelling.frame, Bindings.lookup_mapped, ρ.tree, env_parent]
    cases frame.bindings.lookup name <;> rfl

theorem define_follows (h : ρ.Relates s s') (name : String) :
    ρ.Follows (define name value env k trail s)
      (define name (ρ.value value) (ρ.env env) (ρ.cont k) (ρ.trail trail) s') := by
  unfold define
  rw [h.frame?]
  cases s.frame? env with
  | none => exact ⟨rfl, h⟩
  | some frame =>
    simp only [Option.map_some, Relabelling.frame, Bindings.lookup_mapped]
    cases frame.bindings.lookup name with
    | some _ => exact ⟨rfl, h⟩
    | none => exact ⟨rfl, h.bind⟩

/-- The evaluation of a node begins in the same way. -/
theorem eval_follows (h : ρ.Relates s s') (node : Node) (env : Env) (k : Cont) (trail : Trail) :
    ρ.Follows (eval node env k trail s)
      (eval (ρ.node node) (ρ.env env) (ρ.cont k) (ρ.trail trail) s') := by
  fun_induction eval node env k trail s
  case case1 | case4 | case6 => exact ⟨rfl, h⟩
  case case2 other =>
    rw [node, Node.placed, eval, if_neg other]
    exact ⟨lookup_follows h _ _, h⟩
  case case3 literal _ noSymbol =>
    cases literal with
    | symbol name => exact absurd rfl (noSymbol name)
    | int | str | bool => exact ⟨rfl, h⟩
  -- the part that is evaluated at once may leave a task or a choice behind it
  case case5 ih | case7 ih | case8 ih => exact ih
  case case9 special _ _ _ ih | case14 special _ _ _ ih | case16 special _ _ ih
      | case18 special _ _ ih | case20 special _ _ ih | case22 special ih =>
    rw [node, Node.placed, eval.eq_def (.apply _ _ _)]
    simp only [Node.form?_placed, special, Node.placedAll]
    exact ih
  case case11 special _ _ _ _ _ found _ _ made =>
    obtain ⟨rfl, rfl⟩ := Prod.mk.inj made
    rw [node, Node.placed, eval.eq_def (.apply _ _ _)]
    simp only [Node.form?_placed, special, Node.placedAll, Node.placed,
      Node.mapM_symbol?_placedAll, found]
    obtain ⟨function, related⟩ := h.makeClosure _ _ _
    exact ⟨congrArg (deliver · _ _) function, related⟩
  case case12 special _ _ _ _ none_found =>
    rw [node, Node.placed, eval.eq_def (.apply _ _ _)]
    simp only [Node.form?_placed, special, Node.placedAll, Node.placed,
      Node.mapM_symbol?_placedAll, none_found]
    exact ⟨rfl, h⟩
  -- operands of the wrong shape have the wrong shape in other places
  case case10 special wrong =>
    rw [node, Node.placed, eval.eq_def (.apply _ _ _)]
    simp only [Node.form?_placed, special]
    split
    · next same =>
      obtain ⟨_, value, rfl, symbol, _⟩ := Node.eq_pair_of_placedAll same
      obtain ⟨span, rfl⟩ := Node.eq_symbol_of_placed symbol
      exact absurd rfl (wrong _ span value)
    · exact ⟨rfl, h⟩
  case case13 special wrong =>
    rw [node, Node.placed, eval.eq_def (.apply _ _ _)]
    simp only [Node.form?_placed, special]
    split
    · next same =>
      obtain ⟨params, span, body, span', rfl⟩ := Node.eq_function_of_placedAll same
      exact absurd rfl (wrong params span body span')
    · exact ⟨rfl, h⟩
  case case15 special wrong =>
    rw [node, Node.placed, eval.eq_def (.apply _ _ _)]
    simp only [Node.form?_placed, special]
    split
    · next same =>
      obtain ⟨a, b, c, rfl⟩ := Node.eq_triple_of_placedAll same
      exact absurd rfl (wrong a b c)
    · exact ⟨rfl, h⟩
  case case17 special wrong | case19 special wrong | case21 special wrong =>
    rw [node, Node.placed, eval.eq_def (.apply _ _ _)]
    simp only [Node.form?_placed, special]
    split
    · next same =>
      obtain ⟨a, b, rfl, _⟩ := Node.eq_pair_of_placedAll same
      exact absurd rfl (wrong a b)
    · exact ⟨rfl, h⟩

theorem evalAll_follows (h : ρ.Relates s s') (goal : Goal) (done : List Value) (todo : List Node) :
    ρ.Follows (evalAll goal done todo env k trail s)
      (evalAll (ρ.goal goal) (ρ.values done) (ρ.nodes todo) (ρ.env env) (ρ.cont k) (ρ.trail trail)
        s') := by
  cases todo with
  | nil =>
    show ρ.Follows _ (Promise.next (.gather (ρ.goal goal) (ρ.values done).reverse _ _), _)
    rw [← List.map_reverse]
    exact ⟨rfl, h⟩
  | cons node todo => exact eval_follows h node env (.collect goal done todo env :: k) trail

theorem evalSequence_follows (h : ρ.Relates s s') (statements : List Node) (env : Env) :
    ρ.Follows (evalSequence statements env k trail s)
      (evalSequence (ρ.nodes statements) (ρ.env env) (ρ.cont k) (ρ.trail trail) s') := by
  rcases statements with _ | ⟨first, _ | ⟨next, others⟩⟩
  · exact ⟨rfl, h⟩
  · exact eval_follows h first env k trail
  · exact eval_follows h first env (.sequence next others env :: k) trail

/-- A function that a program made, applied to values. -/
theorem apply_closure (c : Closure) (args : List Value) :
    apply (.closure c) args k trail s =
      if c.params.length = args.length then
        evalSequence c.body (s.extend c.env (c.params.zip args)).1 k trail
          (s.extend c.env (c.params.zip args)).2
      else (.error (.arity (Value.closure c).text c.params.length args.length), s) :=
  rfl

/-- The application of a function begins in the same way. -/
theorem apply_follows (h : ρ.Relates s s') (function : Value) (args : List Value) :
    ρ.Follows (apply function args k trail s)
      (apply (ρ.value function) (ρ.values args) (ρ.cont k) (ρ.trail trail) s') := by
  cases function with
  | int | str | bool | symbol | list => exact ⟨rfl, h⟩
  | closure c =>
    rw [value, Value.mapped, apply_closure, apply_closure, List.length_map]
    show ρ.Follows _ (if c.params.length = args.length then _ else _)
    split
    · have zipped : c.params.zip (ρ.values args) = ρ.bindings (c.params.zip args) := by
        rw [List.zip_map_right]
        rfl
      obtain ⟨inside, related⟩ := @h.extend ρ s s' c.env (c.params.zip args)
      show ρ.Follows _ (evalSequence (ρ.nodes c.body)
        (s'.extend (ρ.env c.env) (c.params.zip (ρ.values args))).1 _ _
        (s'.extend (ρ.env c.env) (c.params.zip (ρ.values args))).2)
      rw [zipped, inside]
      exact evalSequence_follows related c.body _
    · exact ⟨congrArg (fun name => Promise.error (.arity name _ _))
        (Value.text_mapped ρ.unseen (.closure c)), h⟩
  | primitive p =>
    simp only [Relabelling.value, Value.mapped, apply, Primitive.apply_mapped ρ.unseen]
    cases p.apply args <;> exact ⟨rfl, h⟩

theorem follow_follows (plan : Plan) : follow (ρ.plan plan) = ρ.promise (follow plan) := by
  fun_induction follow plan with
  | case3 plan ih => exact ih
  | _ => rfl

theorem fail_follows (h : ρ.Relates s s') :
    ρ.Follows (fail trail s) (fail (ρ.trail trail) s') := by
  cases trail with
  | nil => exact ⟨rfl, h⟩
  | cons choice trail =>
    cases choice with
    | undo name env => exact ⟨rfl, h.unbind⟩
    | retry node env k => exact eval_follows h node env k trail
    | plan plan => exact ⟨follow_follows plan, h⟩

theorem perform_follows (h : ρ.Relates s s') (task : Task) (value : Value) :
    ρ.Follows (perform task value k trail s)
      (perform (ρ.task task) (ρ.value value) (ρ.cont k) (ρ.trail trail) s') := by
  cases task with
  | collect goal done todo env => exact evalAll_follows h goal (value :: done) todo
  | sequence next others env => exact evalSequence_follows h (next :: others) env
  | bind name env => exact define_follows h name
  | choose consequent alternative env =>
    cases value with
    | bool b =>
      cases b with
      | true => exact eval_follows h consequent env k trail
      | false => exact eval_follows h alternative env k trail
    | int | str | symbol | list | closure | primitive => exact ⟨rfl, h⟩
  | junction kind right env =>
    cases value with
    | bool b =>
      show ρ.Follows (if b = kind.decisive then _ else _) (if b = kind.decisive then _ else _)
      split
      · exact ⟨rfl, h⟩
      · exact eval_follows h right env (.check kind :: k) trail
    | int | str | symbol | list | closure | primitive => exact ⟨rfl, h⟩
  | check kind =>
    cases value with
    | bool | int | str | symbol | list | closure | primitive => exact ⟨rfl, h⟩
  | operands args env => exact evalAll_follows h (.call value) [] args
  | reject => exact fail_follows h

/-- **A move goes along with a change.** -/
theorem bounce_follows (h : ρ.Relates s s') (move : Move) :
    ρ.Follows (bounce move s) (bounce (ρ.move move) s') := by
  cases move with
  | deliver value k trail =>
    cases k with
    | nil => exact ⟨rfl, h⟩
    | cons task k => exact perform_follows h task value
  | retreat trail => exact fail_follows h
  | seek name env k trail => exact ⟨lookup_follows h name env, h⟩
  | gather goal items k trail =>
    cases goal with
    | list =>
      refine ⟨?_, h⟩
      show deliver (.list (items.map ρ.value)) _ _ = _
      rw [← Value.mappedAll_eq_map]
      rfl
    | call function => exact apply_follows h function items
  | follow plan => exact ⟨follow_follows plan, h⟩

/-! ### Runs -/

/-- Ends of two runs: the same results, changed, after as many moves, with stores that belong
together. -/
structure Ends (ρ : Relabelling) (ending ending' : Ending) : Prop where
  result : ending'.result =
    ending.result.map fun (value, trail) => (ρ.value value, trail.map ρ.trail)
  meter : ending'.meter = ending.meter
  store : ρ.Relates ending.store ending'.store

/-- **A run goes along with a change**: neither comes to an end with its fuel, or both do. -/
theorem run_follows (h : ρ.Relates s s') (fuel : Nat) (meter : Meter) (promise : Promise) :
    Option.Rel ρ.Ends (run fuel meter promise s) (run fuel meter (ρ.promise promise) s') := by
  induction fuel generalizing meter promise s s' with
  | zero =>
    cases promise with
    | error | done => exact .some ⟨rfl, rfl, h⟩
    | next move =>
      unfold run
      simp only [Relabelling.promise]
      cases meter.spent? with
      | some limit => exact .some ⟨rfl, rfl, h⟩
      | none => exact .none
  | succ fuel ih =>
    cases promise with
    | error | done => exact .some ⟨rfl, rfl, h⟩
    | next move =>
      unfold run
      simp only [Relabelling.promise]
      cases meter.spent? with
      | some limit => exact .some ⟨rfl, rfl, h⟩
      | none =>
        obtain ⟨same, related⟩ := bounce_follows h move
        simp only [same]
        exact ih related meter.tick (bounce move s).1

/-! ### Statements -/

/-- Results that belong together still do when more is said of each. -/
theorem rel_map {α α' β β' : Type} {R : α → α' → Prop} {S : β → β' → Prop} {f : α → β}
    {f' : α' → β'} (along : ∀ a a', R a a' → S (f a) (f' a')) {result : Option α}
    {result' : Option α'} (h : Option.Rel R result result') :
    Option.Rel S (result.map f) (result'.map f') := by
  cases h with
  | none => exact .none
  | some here => exact .some (along _ _ here)

/-- Neither of two results that belong together is there, or both are. -/
theorem rel_cases {α α' : Type} {R : α → α' → Prop} {result : Option α} {result' : Option α'}
    (h : Option.Rel R result result') :
    (result = none ∧ result' = none) ∨ ∃ a a', result = some a ∧ result' = some a' ∧ R a a' := by
  cases h with
  | none => exact .inl ⟨rfl, rfl⟩
  | some here => exact .inr ⟨_, _, rfl, rfl, here⟩

/-- Sessions with stores that belong together, and everything else the same. -/
structure Sessions (ρ : Relabelling) (session session' : Session) : Prop where
  store : ρ.Relates session.store session'.store
  global : session'.global = ρ.env session.global
  limit : session'.limit = session.limit
  steps : session'.steps = session.steps

/-- What came of a statement in two sessions: the same result, changed, after as many moves. -/
structure Outcomes (ρ : Relabelling) (outcome outcome' : Except EvalError Value × Session) :
    Prop where
  result : outcome'.1 = outcome.1.map ρ.value
  sessions : ρ.Sessions outcome.2 outcome'.2

/-- **A statement goes along with a change.** -/
theorem evaluate_follows {session session' : Session} (h : ρ.Sessions session session')
    (fuel : Nat) (node : Node) :
    Option.Rel ρ.Outcomes (session.evaluate fuel node) (session'.evaluate fuel (ρ.node node)) := by
  obtain ⟨begins, related⟩ := eval_follows h.store node session.global [] []
  have ends := run_follows related fuel (.start session.limit)
    (eval node session.global [] [] session.store).1
  rw [← begins] at ends
  rw [evaluate_eq, evaluate_eq, h.global, h.limit]
  refine rel_map (fun ending ending' here => ⟨?_, here.store, rfl, rfl, ?_⟩) ends
  · rw [Ending.value, here.result, Ending.value]
    cases ending.result <;> rfl
  · exact congrArg Meter.steps here.meter

end Relabelling

end Retrace
