/-
A machine that knows which evaluation each of its evaluations is.

* `Site` — a part of a node, a part of that, and so on, also through calls of functions.
* `SitedTask`, `SitedChoice` — tasks and choices with the site of the evaluation that left them.
* `Phase`, `step` — where an evaluation stands, and what it does next. Each time that the evaluation
  of a node begins is a phase of its own, with the site of the node.
* `Phase.forget` — where the evaluation machine stands in a phase.
* **`steps_of_iterate`**, **`iterate_of_steps`** — without their sites, the phases are the states of
  the evaluation machine, from the first to any other.

Design notes:
* A site says for whom a node is evaluated. The evaluation machine does not know it: two
  evaluations of one node, with equal environments and continuations, need not be the same.
* Sites are carried along and never looked at, so they change nothing. They name parts by the
  number of parts behind them, because a task knows the parts that are left and not those that
  were there.
* What an evaluation, a task or a call does without evaluating a node is what the evaluation
  machine does, put in front of a continuation and a trail with sites.
-/
import Mathlib.Logic.Function.Iterate
import Retrace.Proofs.Machine.Uniform

namespace Retrace.Machine

/-! ### Sites -/

/-- For whom a node is evaluated. -/
inductive Site
  /-- For what is there before, or comes after, the evaluation that is followed. -/
  | outside
  /-- As the node whose evaluation is followed. -/
  | start
  /-- As a part of a node, with a number of parts behind it. -/
  | part (site : Site) (behind : Nat)
  /-- As the body of a function that a node calls. -/
  | body (site : Site) (function : Closure)

/-- A task, and the site of the evaluation that left it. -/
structure SitedTask where
  task : Task
  site : Site

/-- A continuation with sites. -/
abbrev SitedCont := List SitedTask

/-- A choice, and the site of the node that it has still to evaluate. -/
inductive SitedChoice
  | undo (name : String) (env : Env)
  | retry (node : Node) (env : Env) (site : Site) (k : SitedCont)
  | plan (plan : Plan)

/-- A trail with sites. -/
abbrev SitedTrail := List SitedChoice

/-- Where an evaluation stands. -/
inductive Phase
  /-- The evaluation of a node begins. -/
  | evaluate (node : Node) (env : Env) (site : Site) (k : SitedCont) (trail : SitedTrail)
  /-- Before the values of parts of a node are handed to their goal. -/
  | gather (goal : Goal) (values : List Value) (site : Site) (k : SitedCont) (trail : SitedTrail)
  | deliver (value : Value) (k : SitedCont) (trail : SitedTrail)
  | retreat (trail : SitedTrail)
  | seek (name : String) (env : Env) (k : SitedCont) (trail : SitedTrail)
  /-- At an end, or in a plan: there is no evaluation that is gone on with. -/
  | bare (promise : Promise)

/-! ### Sites put on and forgotten -/

/-- A continuation that is there before. -/
def contOutside (k : Cont) : SitedCont :=
  k.map (⟨·, .outside⟩)

/-- A choice that is there before, in front of a continuation. -/
def Choice.outside (k : SitedCont) : Choice → SitedChoice
  | .undo name env => .undo name env
  | .retry node env inner => .retry node env .outside (contOutside inner ++ k)
  | .plan p => .plan p

/-- A trail that is there before. -/
def trailOutside (trail : Trail) : SitedTrail :=
  trail.map (·.outside [])

/-- Where the evaluation machine stands, in front of a continuation and a trail with sites. -/
def Promise.before (k : SitedCont) (rest : SitedTrail) : Promise → Phase
  | .next (.deliver value inner trail) =>
    .deliver value (contOutside inner ++ k) (trail.map (·.outside k) ++ rest)
  | .next (.retreat trail) => .retreat (trail.map (·.outside k) ++ rest)
  | .next (.seek name env inner trail) =>
    .seek name env (contOutside inner ++ k) (trail.map (·.outside k) ++ rest)
  | .next (.gather goal values inner trail) =>
    .gather goal values .outside (contOutside inner ++ k) (trail.map (·.outside k) ++ rest)
  | promise => .bare promise

/-- A state of the evaluation machine, in front of a continuation and a trail with sites. -/
def stateBefore (k : SitedCont) (rest : SitedTrail) (c : Promise × Store) : Phase × Store :=
  (c.1.before k rest, c.2)

def forgetCont (k : SitedCont) : Cont :=
  k.map (·.task)

def SitedChoice.forget : SitedChoice → Choice
  | .undo name env => .undo name env
  | .retry node env _ k => .retry node env (forgetCont k)
  | .plan p => .plan p

def forgetTrail (trail : SitedTrail) : Trail :=
  trail.map (·.forget)

/-- Where the evaluation machine stands in a phase. -/
def forget : Phase × Store → Promise × Store
  | (.evaluate node env _ k trail, s) => eval node env (forgetCont k) (forgetTrail trail) s
  | (.gather goal values _ k trail, s) =>
    (.next (.gather goal values (forgetCont k) (forgetTrail trail)), s)
  | (.deliver value k trail, s) => (deliver value (forgetCont k) (forgetTrail trail), s)
  | (.retreat trail, s) => (retreat (forgetTrail trail), s)
  | (.seek name env k trail, s) =>
    (.next (.seek name env (forgetCont k) (forgetTrail trail)), s)
  | (.bare promise, s) => (promise, s)

/-! ### What is done next -/

/-- How the evaluation of a node begins. -/
inductive Opening
  /-- With the evaluation of items, for a list. -/
  | items (items : List Node)
  /-- With the evaluation of a part, which leaves a task. -/
  | part (behind : Nat) (first : Node) (task : Task)
  /-- With the evaluation of the last part in its place. -/
  | last (node : Node)
  /-- With the evaluation of the first of two alternatives. -/
  | choice (first second : Node)
  /-- Without the evaluation of a part. -/
  | direct

/-- How the evaluation of a node begins in an environment. -/
def opening (node : Node) (env : Env) : Opening :=
  match node with
  | .list items _ => .items items
  | .block [last] _ => .last last
  | .block (first :: next :: others) _ =>
    .part (others.length + 1) first (.sequence next others env)
  | .apply op args _ =>
    match op.form?, args with
    | some .define, [.atom (.symbol name) _, value] => .part 0 value (.bind name env)
    | some .conditional, [condition, consequent, alternative] =>
      .part 2 condition (.choose consequent alternative env)
    | some .choice, [first, second] => .choice first second
    | some .and, [left, right] => .part 1 left (.junction .and right env)
    | some .or, [left, right] => .part 1 left (.junction .or right env)
    | none, args => .part args.length op (.operands args env)
    | _, _ => .direct
  | _ => .direct

/-- Begins the evaluation of the parts of a node that are left to collect. -/
def collect (goal : Goal) (done : List Value) (todo : List Node) (env : Env) (site : Site)
    (k : SitedCont) (trail : SitedTrail) : Phase :=
  match todo with
  | [] => .gather goal done.reverse site k trail
  | node :: todo =>
    .evaluate node env (.part site todo.length) (⟨.collect goal done todo env, site⟩ :: k) trail

/-- Begins the evaluation of a node. -/
def begin (node : Node) (env : Env) (site : Site) (k : SitedCont) (trail : SitedTrail)
    (s : Store) : Phase × Store :=
  match opening node env with
  | .items items => (collect .list [] items env site k trail, s)
  | .part behind first task =>
    (.evaluate first env (.part site behind) (⟨task, site⟩ :: k) trail, s)
  | .last node => (.evaluate node env (.part site 0) k trail, s)
  | .choice first second =>
    (.evaluate first env (.part site 1) k (.retry second env (.part site 0) k :: trail), s)
  | .direct => stateBefore k trail (eval node env [] [] s)

/-- Begins the evaluation of the statements of a block that are left. -/
def goOn (next : Node) (others : List Node) (env : Env) (site : Site) (k : SitedCont)
    (trail : SitedTrail) : Phase :=
  match others with
  | [] => .evaluate next env (.part site 0) k trail
  | after :: others =>
    .evaluate next env (.part site (others.length + 1)) (⟨.sequence after others env, site⟩ :: k)
      trail

/-- Goes back to the latest choice. -/
def back (trail : SitedTrail) (s : Store) : Phase × Store :=
  match trail with
  | [] => (.bare (.error .noMoreAlternatives), s)
  | .undo name env :: trail => (.retreat trail, s.unbind env name)
  | .retry node env site k :: trail => (.evaluate node env site k trail, s)
  | .plan plan :: _ => (.bare (follow plan), s)

/-- Does one thing with a value. -/
def act (task : Task) (site : Site) (value : Value) (k : SitedCont) (trail : SitedTrail)
    (s : Store) : Phase × Store :=
  match task, value with
  | .collect goal done todo env, value => (collect goal (value :: done) todo env site k trail, s)
  | .operands args env, value => (collect (.call value) [] args env site k trail, s)
  | .sequence next others env, _ => (goOn next others env site k trail, s)
  | .choose consequent _ env, .bool true => (.evaluate consequent env (.part site 1) k trail, s)
  | .choose _ alternative env, .bool false =>
    (.evaluate alternative env (.part site 0) k trail, s)
  | .junction kind right env, .bool b =>
    if b = kind.decisive then (.deliver value k trail, s)
    else (.evaluate right env (.part site 0) (⟨.check kind, site⟩ :: k) trail, s)
  | .reject, _ => back trail s
  | task, value => stateBefore k trail (perform task value [] [] s)

/-- Begins the application of a function to values. -/
def call (function : Value) (values : List Value) (site : Site) (k : SitedCont)
    (trail : SitedTrail) (s : Store) : Phase × Store :=
  match function with
  | .closure c =>
    if c.params.length = values.length then
      let (env, s) := s.extend c.env (c.params.zip values)
      (.evaluate (.block c.body default) env (.body site c) k trail, s)
    else stateBefore k trail (apply function values [] [] s)
  | function => stateBefore k trail (apply function values [] [] s)

/-- What is done next. At an end nothing is done. -/
def step : Phase × Store → Phase × Store
  | (.evaluate node env site k trail, s) => begin node env site k trail s
  | (.gather .list values _ k trail, s) => (.deliver (.list values) k trail, s)
  | (.gather (.call function) values site k trail, s) => call function values site k trail s
  | (.deliver value [] trail, s) => (.bare (.done value (some (forgetTrail trail))), s)
  | (.deliver value (⟨task, site⟩ :: k) trail, s) => act task site value k trail s
  | (.retreat trail, s) => back trail s
  | (.seek name env k trail, s) => ((lookup name env [] [] s).before k trail, s)
  | (.bare (.next move), s) => (.bare (bounce move s).1, (bounce move s).2)
  | (.bare promise, s) => (.bare promise, s)

/-! ### Without sites -/

variable {k : SitedCont} {trail : SitedTrail} {s t : Store} {site : Site} {env : Env}

theorem forgetCont_before (inner : Cont) :
    forgetCont (contOutside inner ++ k) = inner ++ forgetCont k := by
  simp [forgetCont, contOutside, Function.comp_def]

theorem forgetCont_outside (k : Cont) : forgetCont (contOutside k) = k := by
  simp [forgetCont, contOutside, Function.comp_def]

theorem forget_choice_outside (choice : Choice) :
    (choice.outside k).forget = choice.onto (forgetCont k) := by
  cases choice with
  | undo | plan => rfl
  | retry node env inner => exact congrArg (Choice.retry node env) (forgetCont_before inner)

theorem forgetTrail_before (inner : Trail) :
    forgetTrail (inner.map (·.outside k) ++ trail) =
      trailOnto (forgetCont k) (forgetTrail trail) inner := by
  simp [forgetTrail, trailOnto, forget_choice_outside]

theorem forgetTrail_outside (trail : Trail) : forgetTrail (trailOutside trail) = trail := by
  simp only [forgetTrail, trailOutside, List.map_map]
  refine List.map_id'' (fun choice => ?_) trail
  rw [Function.comp, forget_choice_outside]
  cases choice <;> simp [Choice.onto, forgetCont]

/-- What is put in front of sites is in front of what they are on. -/
theorem forget_before (c : Promise × Store) :
    forget (stateBefore k trail c) = stateOnto (forgetCont k) (forgetTrail trail) c := by
  obtain ⟨promise, s⟩ := c
  cases promise with
  | error | done => rfl
  | next move =>
    cases move <;>
      simp only [stateBefore, Promise.before, forget, forgetCont_before, forgetTrail_before] <;> rfl

theorem forget_collect (goal : Goal) (done : List Value) (todo : List Node) :
    forget (collect goal done todo env site k trail, s) =
      evalAll goal done todo env (forgetCont k) (forgetTrail trail) s := by
  cases todo <;> rfl

/-- The evaluation of a node begins in the same way with sites. -/
theorem forget_begin (node : Node) :
    forget (begin node env site k trail s) =
      eval node env (forgetCont k) (forgetTrail trail) s := by
  have direct : forget (stateBefore k trail (eval node env [] [] s)) =
      eval node env (forgetCont k) (forgetTrail trail) s := by
    rw [forget_before, ← eval_eq_onto]
  unfold begin
  fun_cases opening node env
  case case1 items span =>
    exact (forget_collect .list [] items).trans (eval_list items span env _ _ s).symm
  -- the special forms, each when it is well formed
  case case4 special | case5 special | case6 special | case7 special | case8 special
      | case9 special =>
    refine Eq.symm ?_
    rw [eval.eq_def]
    simp only [special]
    rfl
  case case10 | case11 => exact direct
  all_goals rfl

theorem forget_goOn (next : Node) (others : List Node) :
    forget (goOn next others env site k trail, s) =
      evalSequence (next :: others) env (forgetCont k) (forgetTrail trail) s := by
  cases others <;> rfl

theorem forget_back : forget (back trail s) = fail (forgetTrail trail) s := by
  rcases trail with _ | ⟨_ | _ | _, trail⟩ <;> rfl

/-- A value has the same done with it with sites. -/
theorem forget_act (task : Task) (value : Value) :
    forget (act task site value k trail s) =
      perform task value (forgetCont k) (forgetTrail trail) s := by
  have direct (plain : task ≠ .reject) :
      forget (stateBefore k trail (perform task value [] [] s)) =
        perform task value (forgetCont k) (forgetTrail trail) s := by
    rw [forget_before]
    exact (perform_onto value plain).symm
  fun_cases act task site value k trail s
  case case1 | case2 => exact forget_collect _ _ _
  case case3 => exact forget_goOn _ _
  case case4 | case5 => rfl
  case case6 =>
    simp only [perform, if_pos]
    rfl
  case case7 further =>
    simp only [perform, if_neg further]
    rfl
  case case8 => exact forget_back
  case case9 => exact direct fun same => by simp_all

theorem forget_call (function : Value) (values : List Value) :
    forget (call function values site k trail s) =
      apply function values (forgetCont k) (forgetTrail trail) s := by
  have direct : forget (stateBefore k trail (apply function values [] [] s)) =
      apply function values (forgetCont k) (forgetTrail trail) s := by
    rw [forget_before]
    exact (apply_onto function values).symm
  fun_cases call function values site k trail s
  case case1 c enough env t made =>
    simp only [forget, eval_block, apply, enough, made]
    rfl
  case case2 => exact direct
  case case3 => exact direct

/-! ### Phases and states -/

/-- A phase in which the evaluation of a node begins. -/
def Phase.Begins : Phase → Prop
  | .evaluate .. => True
  | _ => False

/-- To begin the evaluation of a node is no move. -/
theorem forget_step_begins {c : Phase × Store} (begins : c.1.Begins) :
    forget (step c) = forget c := by
  obtain ⟨phase, s⟩ := c
  cases phase with
  | evaluate node env site k trail => exact forget_begin node
  | gather | deliver | retreat | seek | bare => exact absurd begins id

/-- All else that is done is a move. -/
theorem forget_step_move {c : Phase × Store} {move : Move} (other : ¬c.1.Begins)
    (before : forget c = (.next move, s)) : forget (step c) = bounce move s := by
  obtain ⟨phase, t⟩ := c
  cases phase with
  | evaluate => exact absurd trivial other
  | gather goal values site k trail =>
    cases before
    cases goal with
    | list => rfl
    | call function => exact forget_call function values
  | deliver value k trail =>
    cases before
    cases k with
    | nil => rfl
    | cons sited k => exact forget_act sited.task value
  | retreat trail =>
    cases before
    exact forget_back
  | seek name env k trail =>
    cases before
    show forget (stateBefore k trail (lookup name env [] [] s, s)) = _
    rw [forget_before]
    exact congrArg (·, s) (lookup_onto name env).symm
  | bare promise =>
    cases before
    rfl

/-- At an end nothing is done. -/
theorem step_of_result {c : Phase × Store} (other : ¬c.1.Begins)
    (done : (forget c).1.result? ≠ none) : step c = c := by
  obtain ⟨phase, t⟩ := c
  cases phase with
  | evaluate => exact absurd trivial other
  | gather | deliver | retreat | seek => exact absurd rfl done
  | bare promise =>
    cases promise with
    | error | done => rfl
    | next => exact absurd rfl done

variable {c : Phase × Store} {n : Nat} {state : Promise × Store}

/-- **What is done with sites is done by the evaluation machine.** -/
theorem steps_of_iterate (c : Phase × Store) (i : Nat) :
    ∃ n, Steps n (forget c) (forget (step^[i] c)) := by
  induction i generalizing c with
  | zero => exact ⟨0, .refl _⟩
  | succ i ih =>
    obtain ⟨n, rest⟩ := ih (step c)
    rw [Function.iterate_succ_apply]
    by_cases begins : c.1.Begins
    · rw [forget_step_begins begins] at rest
      exact ⟨n, rest⟩
    · cases here : forget c with | mk promise t
      cases promise with
      | next move =>
        rw [forget_step_move begins here] at rest
        exact ⟨n + 1, .move rest⟩
      | error | done =>
        have ended : step c = c := step_of_result begins (by rw [here]; rintro ⟨⟩)
        rw [ended] at rest ⊢
        exact ⟨n, here ▸ rest⟩

theorem not_begins_before (promise : Promise) : ¬(promise.before k trail).Begins := by
  cases promise with
  | error | done => exact id
  | next move => cases move <;> exact id

/-- An evaluation begins with the evaluation of a smaller node, or with none. -/
theorem begin_smaller (node : Node) (env : Env) (site : Site) (k : SitedCont) (trail : SitedTrail)
    (s : Store) :
    ¬(begin node env site k trail s).1.Begins ∨
      ∃ m e site' k' trail' t, begin node env site k trail s = (.evaluate m e site' k' trail', t) ∧
        sizeOf m < sizeOf node := by
  unfold begin
  fun_cases opening node env
  case case10 | case11 => exact .inl (not_begins_before _)
  case case1 items span =>
    cases items with
    | nil => exact .inl id
    | cons first others =>
      refine .inr ⟨_, _, _, _, _, _, rfl, ?_⟩
      simp only [Node.list.sizeOf_spec, List.cons.sizeOf_spec]
      omega
  all_goals
    refine .inr ⟨_, _, _, _, _, _, rfl, ?_⟩
    simp only [Node.block.sizeOf_spec, Node.apply.sizeOf_spec, List.cons.sizeOf_spec]
    omega

/-- The evaluations that begin with one another come to an end. -/
theorem exists_not_begins (c : Phase × Store) :
    ∃ i, ¬(step^[i] c).1.Begins ∧ forget (step^[i] c) = forget c := by
  by_cases begins : c.1.Begins
  · obtain ⟨phase, s⟩ := c
    cases phase with
    | gather | deliver | retreat | seek | bare => exact absurd begins id
    | evaluate node env site k trail =>
      -- by induction on the size of the node
      induction size : sizeOf node using Nat.strongRecOn generalizing node env site k trail s with
      | ind n ih =>
        have same := forget_step_begins (c := (.evaluate node env site k trail, s)) trivial
        obtain other | ⟨m, e, site', k', trail', t, next, smaller⟩ :=
          begin_smaller node env site k trail s
        · exact ⟨1, other, same⟩
        · have after : step (.evaluate node env site k trail, s) =
              (.evaluate m e site' k' trail', t) := next
          obtain ⟨i, other, rest⟩ := ih _ (size ▸ smaller) t m e site' k' trail' trivial rfl
          refine ⟨i + 1, ?_⟩
          rw [Function.iterate_succ_apply, after]
          exact ⟨other, rest.trans (after ▸ same)⟩
  · exact ⟨0, begins, rfl⟩

/-- **What the evaluation machine does is done with sites.** -/
theorem iterate_of_steps (steps : Steps n (forget c) state) : ∃ i, forget (step^[i] c) = state := by
  induction n generalizing c with
  | zero =>
    cases steps
    exact ⟨0, rfl⟩
  | succ n ih =>
    obtain ⟨i, other, same⟩ := exists_not_begins c
    rw [← same] at steps
    generalize here : forget (step^[i] c) = start at steps
    cases steps with
    | move rest =>
      rw [← forget_step_move other here] at rest
      obtain ⟨j, reached⟩ := ih rest
      refine ⟨j + (i + 1), ?_⟩
      rw [Function.iterate_add_apply, Function.iterate_succ_apply']
      exact reached

end Retrace.Machine
