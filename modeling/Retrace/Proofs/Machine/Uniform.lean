/-
Evaluation is uniform in what comes after it.

* `Move.onto`, `Promise.onto` — an evaluation on its own, put in front of a continuation
  and a trail.
* `bounce_onto` — a move inside an evaluation does not look at what comes after it.
* `Leaves` — the moves that hand over to the continuation or to the trail.
* **`Lockstep`** — two evaluations that make the same moves until both leave in the same
  way, and again whenever both are sent back.
* **`evaluation_is_uniform`** — the evaluations of a node with two continuations and two
  trails are in lockstep, and an error does not depend on either.

Design notes:
* An evaluation on its own has nothing to do with its value and nothing to try. What a
  choice in it captured ends where the evaluation ends, so a continuation goes behind
  the tasks of every choice as well.
* Lockstep is the largest relation that a step keeps, written as the existence of some
  relation that it keeps. No number of moves bounds it.
-/
import Retrace.Proofs.Machine.Moves
import Retrace.Proofs.Machine.Runs

namespace Retrace.Machine

/-! ### An evaluation in front of a continuation and a trail -/

/-- A choice of an evaluation, in front of a continuation. -/
def Choice.onto (k : Cont) : Choice → Choice
  | .retry node env inner => .retry node env (inner ++ k)
  | choice => choice

/-- The choices of an evaluation, in front of a continuation and a trail. -/
def trailOnto (k : Cont) (rest : Trail) (trail : Trail) : Trail :=
  trail.map (·.onto k) ++ rest

/-- A move of an evaluation, in front of a continuation and a trail. -/
def Move.onto (k : Cont) (rest : Trail) : Move → Move
  | .deliver value inner trail => .deliver value (inner ++ k) (trailOnto k rest trail)
  | .retreat trail => .retreat (trailOnto k rest trail)
  | .seek name env inner trail => .seek name env (inner ++ k) (trailOnto k rest trail)
  | .gather goal values inner trail =>
    .gather goal values (inner ++ k) (trailOnto k rest trail)
  | .follow plan => .follow plan

/-- Where an evaluation stands, in front of a continuation and a trail. -/
def Promise.onto (k : Cont) (rest : Trail) : Promise → Promise
  | .next move => .next (move.onto k rest)
  | promise => promise

/-- A state of an evaluation, in front of a continuation and a trail. -/
def stateOnto (k : Cont) (rest : Trail) (c : Promise × Store) : Promise × Store :=
  (c.1.onto k rest, c.2)

variable {k k' inner : Cont} {rest rest' trail : Trail} {s t : Store} {move : Move}

theorem lookup_onto (name : String) (env : Env) :
    lookup name env (inner ++ k) (trailOnto k rest trail) s =
      (lookup name env inner trail s).onto k rest := by
  unfold lookup
  split
  · rfl
  · split <;> rfl

theorem define_onto (name : String) (value : Value) (env : Env) :
    define name value env (inner ++ k) (trailOnto k rest trail) s =
      stateOnto k rest (define name value env inner trail s) := by
  unfold define
  split
  · rfl
  · split <;> rfl

/-- The evaluation of a node begins in the same way whatever comes after it. -/
theorem eval_onto (node : Node) (env : Env) (inner : Cont) :
    eval node env (inner ++ k) (trailOnto k rest trail) s =
      stateOnto k rest (eval node env inner trail s) := by
  fun_induction eval node env inner trail s
  case case1 | case4 | case6 => rfl
  case case2 other =>
    rw [eval, if_neg other, lookup_onto]
    rfl
  case case3 literal _ noSymbol =>
    cases literal with
    | symbol name => exact absurd rfl (noSymbol name)
    | int | str | bool => rfl
  -- the part that is evaluated at once may leave a task or a choice behind it
  case case5 ih | case7 ih | case8 ih => exact ih
  case case9 special _ _ _ ih | case14 special _ _ _ ih | case16 special _ _ ih
      | case18 special _ _ ih | case20 special _ _ ih | case22 special ih =>
    rw [eval.eq_def]
    simp only [special]
    exact ih
  case case11 special _ _ _ _ _ found _ _ made =>
    rw [eval.eq_def]
    simp only [special, found, made]
    rfl
  case case12 special _ _ _ _ none_found =>
    rw [eval.eq_def]
    simp only [special, none_found]
    rfl
  case case10 special wrong | case13 special wrong | case15 special wrong | case17 special wrong
      | case19 special wrong | case21 special wrong =>
    rw [eval.eq_def]
    simp only [special]
    rfl

/-- An evaluation is the one on its own, in front of what comes after it. -/
theorem eval_eq_onto (node : Node) (env : Env) (k : Cont) (rest : Trail) (s : Store) :
    eval node env k rest s = stateOnto k rest (eval node env [] [] s) := by
  have whole := @eval_onto k rest [] s node env []
  exact whole

theorem evalAll_onto (goal : Goal) (done : List Value) (todo : List Node) (env : Env) :
    evalAll goal done todo env (inner ++ k) (trailOnto k rest trail) s =
      stateOnto k rest (evalAll goal done todo env inner trail s) := by
  cases todo with
  | nil => rfl
  | cons node todo => exact eval_onto node env (.collect goal done todo env :: inner)

theorem evalSequence_onto (statements : List Node) (env : Env) :
    evalSequence statements env (inner ++ k) (trailOnto k rest trail) s =
      stateOnto k rest (evalSequence statements env inner trail s) := by
  rcases statements with _ | ⟨first, _ | ⟨next, others⟩⟩
  · rfl
  · exact eval_onto first env inner
  · exact eval_onto first env (.sequence next others env :: inner)

theorem apply_onto (function : Value) (args : List Value) :
    apply function args (inner ++ k) (trailOnto k rest trail) s =
      stateOnto k rest (apply function args inner trail s) := by
  unfold apply
  split
  · split
    · exact evalSequence_onto _ _
    · rfl
  · split <;> rfl
  · rfl

theorem perform_onto {task : Task} (value : Value) (plain : task ≠ .reject) :
    perform task value (inner ++ k) (trailOnto k rest trail) s =
      stateOnto k rest (perform task value inner trail s) := by
  unfold perform
  split
  -- one case for each kind of task, and in it one for each kind of value that it tells apart
  · exact evalAll_onto _ _ _ _
  · exact evalSequence_onto _ _
  · exact define_onto _ _ _
  · split
    · exact eval_onto _ _ inner
    · exact eval_onto _ _ inner
    · rfl
  · next kind _ _ =>
    split
    · split
      · rfl
      · exact eval_onto _ _ (.check kind :: inner)
    · rfl
  · split <;> rfl
  · exact evalAll_onto _ _ _ _
  · exact absurd rfl plain

/-- Moves that hand over to what comes after an evaluation: its value to the continuation, or its
failure to the trail. -/
def Leaves (k : Cont) (rest : Trail) (move : Move) : Prop :=
  (∃ value trail, move = .deliver value k trail) ∨ move = .retreat rest

/-- **A move inside an evaluation does not look at what comes after it.** -/
theorem bounce_onto (plain : move.Plain) (inside : ¬Leaves [] [] move) :
    bounce (move.onto k rest) s = stateOnto k rest (bounce move s) := by
  cases move with
  | deliver value inner trail =>
    cases inner with
    | nil => exact absurd (.inl ⟨value, trail, rfl⟩) inside
    | cons task inner =>
      exact perform_onto value fun reject => plain.1 (by rw [reject]; exact .head _)
  | retreat trail =>
    cases trail with
    | nil => exact absurd (.inr rfl) inside
    | cons choice trail =>
      cases choice with
      | undo name env => rfl
      | retry node env inner => exact eval_onto node env inner
      | plan plan => exact absurd (plain _ (.head _)) id
  | seek name env inner trail =>
    exact congrArg (·, s) (lookup_onto name env)
  | gather goal values inner trail =>
    cases goal with
    | list => rfl
    | call function => exact apply_onto function values
  | follow plan => exact absurd plain id

/-- A move inside an evaluation is inside in front of anything, also of more choices than those it
leaves to. -/
theorem leaves_of_onto {u : Trail} (h : Leaves k rest (move.onto k u))
    (le : rest.length ≤ u.length) : Leaves [] [] move := by
  have tasks : ∀ inner : Cont, inner ++ k = k → inner = [] := fun inner same =>
    List.append_left_eq_self.mp same
  -- a list that is no longer than its end is its end
  have choices : ∀ trail : Trail, trailOnto k u trail = rest → trail = [] := by
    intro trail same
    have lengths := congrArg List.length same
    rw [trailOnto, List.length_append, List.length_map] at lengths
    exact List.eq_nil_of_length_eq_zero (by omega)
  cases move with
  | deliver value inner trail =>
    rcases h with ⟨_, _, same⟩ | same
    · obtain ⟨_, same, _⟩ := Move.deliver.inj same
      exact .inl ⟨value, trail, by rw [tasks inner same]⟩
    · cases same
  | retreat trail =>
    rcases h with ⟨_, _, same⟩ | same
    · cases same
    · exact .inr (by rw [choices trail (Move.retreat.inj same)])
  | seek | gather | follow =>
    rcases h with ⟨_, _, same⟩ | same
    · cases same
    · cases same

/-! ### Lockstep -/

/-- Where two evaluations stand, when `R` holds of where they stand after their next moves. -/
inductive InStep (k : Cont) (rest : Trail) (k' : Cont) (rest' : Trail)
    (R : Promise × Store → Promise × Store → Prop) : Promise × Store → Promise × Store → Prop
  /-- Both end with the same error. -/
  | error (e : EvalError) (s : Store) : InStep k rest k' rest' R (.error e, s) (.error e, s)
  /-- Both fail. -/
  | failure (s : Store) : InStep k rest k' rest' R (retreat rest, s) (retreat rest', s)
  /-- Both have the same value. When they are sent back, from whatever store, they go on. -/
  | success (value : Value) (trail trail' : Trail) (s : Store)
      (again : ∀ t, R (retreat trail, t) (retreat trail', t)) :
      InStep k rest k' rest' R (deliver value k trail, s) (deliver value k' trail', s)
  /-- Both make a move inside. -/
  | move (move move' : Move) (s : Store) (inside : ¬Leaves k rest move)
      (inside' : ¬Leaves k' rest' move') (next : R (bounce move s) (bounce move' s)) :
      InStep k rest k' rest' R (.next move, s) (.next move', s)

/-- Two evaluations make the same moves until both end with the same error, both fail, or both
have the same value; and the same again whenever both are sent back. -/
def Lockstep (k : Cont) (rest : Trail) (k' : Cont) (rest' : Trail) (a b : Promise × Store) :
    Prop :=
  ∃ R : Promise × Store → Promise × Store → Prop,
    (∀ a b, R a b → InStep k rest k' rest' R a b) ∧ R a b

variable {a b : Promise × Store} {R S : Promise × Store → Promise × Store → Prop}

theorem InStep.mono (le : ∀ a b, R a b → S a b) (h : InStep k rest k' rest' R a b) :
    InStep k rest k' rest' S a b := by
  cases h with
  | error e s => exact .error e s
  | failure s => exact .failure s
  | success value trail trail' s again =>
    exact .success value trail trail' s fun t => le _ _ (again t)
  | move move move' s inside inside' next =>
    exact .move move move' s inside inside' (le _ _ next)

/-- Two evaluations in lockstep are so after their next moves. -/
theorem Lockstep.inStep (h : Lockstep k rest k' rest' a b) :
    InStep k rest k' rest' (Lockstep k rest k' rest') a b := by
  obtain ⟨R, closed, here⟩ := h
  exact (closed a b here).mono fun _ _ now => ⟨R, closed, now⟩

/-- A relation is one of lockstep if each step keeps it or leads to lockstep. -/
theorem Lockstep.of_closed
    (closed : ∀ a b, R a b →
      InStep k rest k' rest' (fun a b => R a b ∨ Lockstep k rest k' rest' a b) a b)
    (here : R a b) : Lockstep k rest k' rest' a b :=
  ⟨fun a b => R a b ∨ Lockstep k rest k' rest' a b,
    fun a b now => now.elim (closed a b) fun later => later.inStep.mono fun _ _ => .inr,
    .inl here⟩

/-- Where the evaluation of a node can stand: at an error, or before a move of its own. -/
def Promise.Inner (promise : Promise) : Prop :=
  match promise with
  | .error _ => True
  | .done .. => False
  | .next move => move.Plain

theorem inner_of_quiet {c : Promise × Store} (quiet : Quiet trail s c) : c.1.Inner := by
  obtain ⟨promise, t⟩ := c
  cases promise with
  | error e => trivial
  | done value trail' => exact absurd rfl (quiet.value value trail')
  | next move => exact (quiet.move move rfl).1

theorem eval_inner (node : Node) (env : Env) (s : Store) : (eval node env [] [] s).1.Inner :=
  inner_of_quiet (eval_quiet node env (by simp [PlainCont]) (by simp [PlainTrail]))

theorem define_inner (name : String) (value : Value) (env : Env) (hk : PlainCont k)
    (ht : PlainTrail trail) : (define name value env k trail s).1.Inner := by
  unfold define
  split
  · exact ⟨hk, ht⟩
  · split
    · trivial
    · exact ⟨hk, ht.cons trivial⟩

/-- A move inside an evaluation leads to another move of it, or to an error. -/
theorem bounce_inner (plain : move.Plain) (inside : ¬Leaves [] [] move) :
    (bounce move s).1.Inner := by
  cases move with
  | deliver value k trail =>
    cases k with
    | nil => exact absurd (.inl ⟨value, trail, rfl⟩) inside
    | cons task k =>
      have hk : PlainCont k := fun member => plain.1 (.tail _ member)
      by_cases binds : ∃ name env, task = .bind name env
      · obtain ⟨name, env, rfl⟩ := binds
        exact define_inner name value env hk plain.2
      · have here : task ≠ .reject := fun same => plain.1 (by rw [same]; exact .head _)
        exact inner_of_quiet (perform_quiet value here
          (fun name env same => binds ⟨name, env, same⟩) hk plain.2)
  | retreat trail =>
    cases trail with
    | nil => exact absurd (.inr rfl) inside
    | cons choice trail =>
      have ht : PlainTrail trail := fun choice member => plain choice (.tail _ member)
      cases choice with
      | undo name env => exact ht
      | retry node env k => exact inner_of_quiet (eval_quiet node env (plain _ (.head _)) ht)
      | plan plan => exact absurd (plain _ (.head _)) id
  | seek name env k trail => exact inner_of_quiet (lookup_quiet name env plain.1 plain.2)
  | gather goal values k trail =>
    cases goal with
    | list => exact plain
    | call function => exact inner_of_quiet (apply_quiet function values plain.1 plain.2)
  | follow plan => exact absurd plain id

/-- Two evaluations of a node are in lockstep, with more choices in front of those they leave to, if
going back to these choices is. -/
theorem eval_lockstep_before (node : Node) (env : Env) (s : Store) {u u' : Trail}
    (le : rest.length ≤ u.length) (le' : rest'.length ≤ u'.length)
    (after : ∀ t,
      InStep k rest k' rest' (Lockstep k rest k' rest') (retreat u, t) (retreat u', t)) :
    Lockstep k rest k' rest' (eval node env k u s) (eval node env k' u' s) := by
  -- the two stand where the evaluation on its own stands, each in front of what is after it
  refine .of_closed (R := fun a b => ∃ c : Promise × Store, c.1.Inner ∧ a = stateOnto k u c ∧
    b = stateOnto k' u' c) ?_ ⟨_, eval_inner node env s, eval_eq_onto node env k u s,
    eval_eq_onto node env k' u' s⟩
  rintro _ _ ⟨⟨promise, t⟩, inner, rfl, rfl⟩
  cases promise with
  | error e => exact .error e t
  | done => exact absurd inner id
  | next move =>
    by_cases leaves : Leaves [] [] move
    · obtain ⟨value, trail, rfl⟩ | rfl := leaves
      · exact .success value _ _ t fun t' => .inl ⟨(retreat trail, t'), inner.2, rfl, rfl⟩
      · exact (after t).mono fun _ _ => .inr
    · refine .move _ _ t (fun h => leaves (leaves_of_onto h le))
        (fun h => leaves (leaves_of_onto h le')) (.inl ?_)
      rw [bounce_onto inner leaves, bounce_onto inner leaves]
      exact ⟨_, bounce_inner inner leaves, rfl, rfl⟩

/-- A node is evaluated in lockstep with itself. -/
theorem eval_lockstep (node : Node) (env : Env) (s : Store) (k : Cont) (rest : Trail) (k' : Cont)
    (rest' : Trail) :
    Lockstep k rest k' rest' (eval node env k rest s) (eval node env k' rest' s) :=
  eval_lockstep_before node env s (Nat.le_refl _) (Nat.le_refl _) .failure

/-- An error that an evaluation comes to on its own is the one that it comes to in front of
anything, after as many moves. -/
theorem steps_onto {n : Nat} {a : Promise × Store} {e : EvalError} (within : a.1.Inner)
    (steps : Steps n a (.error e, t)) (raised : e ≠ .noMoreAlternatives) :
    Steps n (stateOnto k rest a) (.error e, t) := by
  generalize last : (Promise.error e, t) = b at steps
  induction steps with
  | refl =>
    subst last
    exact .refl _
  | @move n move s b more ih =>
    subst last
    by_cases leaves : Leaves [] [] move
    · -- what leaves an evaluation on its own ends with a value or for want of alternatives
      exfalso
      obtain ⟨value, trail, rfl⟩ | rfl := leaves
      · cases more
      · cases more with
        | refl => exact raised rfl
    · refine .move (?_ : Steps n (bounce (move.onto k rest) s) _)
      rw [bounce_onto within leaves]
      exact ih (bounce_inner within leaves) rfl

/-- **The evaluation of a node is uniform in its continuation and its trail.** With two
continuations and two trails it makes the same moves, and does the same to the store, until both
have the same error, fail, or have the same value; and sent back they go on in the same way. An
error that it comes to on its own is the end with every continuation and every trail. -/
theorem evaluation_is_uniform (node : Node) (env : Env) (s : Store) :
    (∀ k rest k' rest',
      Lockstep k rest k' rest' (eval node env k rest s) (eval node env k' rest' s)) ∧
    ∀ n e t, Steps n (eval node env [] [] s) (.error e, t) → e ≠ .noMoreAlternatives →
      ∀ k rest, Steps n (eval node env k rest s) (.error e, t) := by
  refine ⟨eval_lockstep node env s, fun n e t steps raised k rest => ?_⟩
  rw [eval_eq_onto]
  exact steps_onto (eval_inner node env s) steps raised

/-- The choice between a name that nothing binds and one, as a tree. -/
def unboundOrOne : Node :=
  .apply (.symbol "then" default) [.symbol "x" default, .atom (.int 1) default] default

/-- An error in the first alternative of a choice is the end, whatever is left to be tried. -/
theorem unboundOrOne_raises :
    let session := Session.start none
    let error := (Promise.error (.symbolNotFound "x"), session.store)
    Steps 1 (eval unboundOrOne session.global [] [] session.store) error ∧
      Steps 1 (eval unboundOrOne session.global [.check .and]
        [.retry (.atom (.bool true) default) session.global []] session.store) error := by
  intro session error
  have alone : Steps 1 (eval unboundOrOne session.global [] [] session.store) error :=
    .single (.seek "x" ⟨0, 0⟩ [] [.retry (.atom (.int 1) default) session.global []]) session.store
  exact ⟨alone, (evaluation_is_uniform unboundOrOne session.global session.store).2 1 _ _ alone
    nofun _ _⟩

end Retrace.Machine
