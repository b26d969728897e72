/-
What one move does to the store and to what is left to be tried.

* `Grows` — stores that differ by frames and functions that were made.
* `undoings` — the undoings on a trail.
* `Quiet` — an outcome that makes frames and functions only, and keeps the undoings.
* `eval_quiet`, `apply_quiet` — the evaluation of a node and the application of a
  function begin quietly.
* **`bounce_cases`** — a move is quiet, makes one definition and puts its undoing on
  the trail, takes one undoing from the trail and does it, or ends the run.

Design notes: plans and rejections are written by hand. No node leads to them, and
`Plain` says that a move is without them.
-/
import Retrace.Machine.Step
import Retrace.Proofs.Scope.Definitions
import Retrace.Proofs.Value.Faults

namespace Retrace

/-! ### Stores with frames and functions that were made -/

namespace Store

/-- A store that comes from another by making frames and functions. -/
inductive Grows (s : Store) : Store → Prop
  | refl : Grows s s
  | frame {t} (env : Env) (bindings : Bindings) (before : Grows s t) :
      Grows s (t.extend env bindings).2
  | function {t} (params : List String) (body : List Node) (env : Env) (before : Grows s t) :
      Grows s (t.makeClosure params body env).2

variable {s t u : Store} {env : Env} {frame : Frame}

theorem Grows.trans (first : Grows s t) (second : Grows t u) : Grows s u := by
  induction second with
  | refl => exact first
  | frame env bindings _ ih => exact .frame env bindings ih
  | function params body env _ ih => exact .function params body env ih

theorem Grows.le (grows : Grows s t) : s ≤ t := by
  induction grows with
  | refl => exact le_refl s
  | frame env bindings _ ih => exact le_trans ih (le_extend bindings)
  | function params body env _ ih => exact le_trans ih (le_makeClosure params body)

/-- A frame is an old one or it is as it was made. -/
theorem Grows.frame?_eq (grows : Grows s t) (h : t.frame? env = some frame) :
    s.frame? env = some frame ∨ ∃ inside bindings, frame = newFrame inside bindings := by
  induction grows with
  | refl => exact .inl h
  | @frame t inside bindings _ ih =>
    rw [frame?_extend] at h
    split at h
    · exact .inr ⟨inside, bindings, (Option.some.inj h).symm⟩
    · exact ih h
  | function params body _ _ ih => exact ih h

end Store

namespace Machine

open Store (Grows)

variable {k : Cont} {trail trail' : Trail} {s t : Store} {c : Promise × Store}

/-! ### Trails -/

/-- What is left to be tried when a move fails. -/
def Move.trail? : Move → Option Trail
  | .deliver _ _ trail | .retreat trail | .seek _ _ _ trail | .gather _ _ _ trail => some trail
  | .follow _ => none

/-- What is left to be tried where an evaluation stands. -/
def Promise.trail? : Promise → Option Trail
  | .error _ => none
  | .done _ trail => trail
  | .next move => move.trail?

/-- The frame and the name of an undoing. -/
def Choice.undoing? : Choice → Option (Env × String)
  | .undo name env => some (env, name)
  | .retry .. | .plan _ => none

/-- The undoings on a trail, the latest first. -/
def undoings (trail : Trail) : List (Env × String) :=
  trail.filterMap Choice.undoing?

theorem undoings_retry (node : Node) (env : Env) (k : Cont) (trail : Trail) :
    undoings (.retry node env k :: trail) = undoings trail :=
  rfl

/-- A continuation that a node leads to. -/
def PlainCont (k : Cont) : Prop :=
  .reject ∉ k

/-- A choice that a node leads to. -/
def Choice.Plain : Choice → Prop
  | .undo .. => True
  | .retry _ _ k => PlainCont k
  | .plan _ => False

/-- A trail that a node leads to. -/
def PlainTrail (trail : Trail) : Prop :=
  ∀ choice ∈ trail, choice.Plain

/-- A move that a node leads to. -/
def Move.Plain : Move → Prop
  | .deliver _ k trail | .seek _ _ k trail | .gather _ _ k trail => PlainCont k ∧ PlainTrail trail
  | .retreat trail => PlainTrail trail
  | .follow _ => False

/-! ### Quiet outcomes -/

/-- An outcome that makes frames and functions only, that keeps the undoings on the trail, and
that does not end a search. -/
structure Quiet (trail : Trail) (s : Store) (c : Promise × Store) : Prop where
  grows : Grows s c.2
  value : ∀ value trail', c.1 ≠ .done value trail'
  error : ∀ e, c.1 = .error e → e ≠ .noMoreAlternatives
  move : ∀ move, c.1 = .next move → move.Plain ∧
    ∃ trail', move.trail? = some trail' ∧ undoings trail' = undoings trail

theorem quiet_error {e : EvalError} (other : e ≠ .noMoreAlternatives) :
    Quiet trail s (.error e, s) := by
  refine ⟨.refl, nofun, fun e' h => ?_, nofun⟩
  obtain rfl := Promise.error.inj h
  exact other

theorem quiet_next {move : Move} (plain : move.Plain) (open_choices : move.trail? = some trail) :
    Quiet trail s (.next move, s) := by
  refine ⟨.refl, nofun, nofun, fun move' h => ?_⟩
  obtain rfl := Promise.next.inj h
  exact ⟨plain, trail, open_choices, rfl⟩

theorem quiet_deliver (value : Value) (hk : PlainCont k) (ht : PlainTrail trail) :
    Quiet trail s (deliver value k trail, s) :=
  quiet_next ⟨hk, ht⟩ rfl

/-- Frames and functions may have been made before. -/
theorem Quiet.of_grows (grows : Grows s t) (h : Quiet trail t c) : Quiet trail s c :=
  { h with grows := grows.trans h.grows }

/-- Choices between the undoings do not matter. -/
theorem Quiet.of_undoings (same : undoings trail' = undoings trail) (h : Quiet trail' s c) :
    Quiet trail s c :=
  { h with
    move := by
      intro move now
      obtain ⟨plain, trail'', has, same'⟩ := h.move move now
      exact ⟨plain, trail'', has, same'.trans same⟩ }

theorem PlainCont.cons {task : Task} (plain : task ≠ .reject) (hk : PlainCont k) :
    PlainCont (task :: k) :=
  fun member => (List.mem_cons.mp member).elim (fun same => plain same.symm) hk

theorem PlainTrail.cons {choice : Choice} (plain : choice.Plain) (ht : PlainTrail trail) :
    PlainTrail (choice :: trail) := by
  intro choice' member
  rcases List.mem_cons.mp member with rfl | member
  · exact plain
  · exact ht choice' member

theorem lookup_quiet (name : String) (env : Env) (hk : PlainCont k) (ht : PlainTrail trail) :
    Quiet trail s (lookup name env k trail s, s) := by
  unfold lookup
  split
  · exact quiet_error nofun
  · split
    · exact quiet_deliver _ hk ht
    · exact quiet_next ⟨hk, ht⟩ rfl

/-- The evaluation of a node begins quietly. -/
theorem eval_quiet (node : Node) (env : Env) (hk : PlainCont k) (ht : PlainTrail trail) :
    Quiet trail s (eval node env k trail s) := by
  fun_induction eval node env k trail s
  case case1 => exact quiet_next ht rfl
  case case2 => exact lookup_quiet _ _ hk ht
  case case3 | case6 => exact quiet_deliver _ hk ht
  case case4 => exact quiet_next ⟨hk, ht⟩ rfl
  -- a part that is evaluated at once leaves a task behind it
  case case5 ih | case8 ih | case9 ih | case14 ih | case18 ih | case20 ih | case22 ih =>
    exact ih (hk.cons (by rintro ⟨⟩)) ht
  case case7 ih => exact ih hk ht
  case case11 body _ names _ function t made =>
    have grows := Grows.function names body env (@Grows.refl s)
    rw [made] at grows
    exact (quiet_deliver function hk ht).of_grows grows
  case case16 ih => exact (ih hk (ht.cons hk)).of_undoings (undoings_retry ..)
  case case10 | case12 | case13 | case15 | case17 | case19 | case21 => exact quiet_error nofun

theorem evalAll_quiet (goal : Goal) (done : List Value) (todo : List Node) (env : Env)
    (hk : PlainCont k) (ht : PlainTrail trail) :
    Quiet trail s (evalAll goal done todo env k trail s) := by
  unfold evalAll
  split
  · exact quiet_next ⟨hk, ht⟩ rfl
  · exact eval_quiet _ env (hk.cons (by rintro ⟨⟩)) ht

theorem evalSequence_quiet (statements : List Node) (env : Env) (hk : PlainCont k)
    (ht : PlainTrail trail) : Quiet trail s (evalSequence statements env k trail s) := by
  unfold evalSequence
  split
  · exact quiet_deliver _ hk ht
  · exact eval_quiet _ env hk ht
  · exact eval_quiet _ env (hk.cons (by rintro ⟨⟩)) ht

/-- The application of a function begins quietly. -/
theorem apply_quiet (function : Value) (args : List Value) (hk : PlainCont k)
    (ht : PlainTrail trail) : Quiet trail s (apply function args k trail s) := by
  unfold apply
  split
  · split
    · exact (evalSequence_quiet _ _ hk ht).of_grows (.frame _ _ .refl)
    · exact quiet_error nofun
  · next p =>
    split
    · exact quiet_deliver _ hk ht
    · next e failed =>
      have fault := p.apply_faults args e failed
      exact quiet_error fun same => by rw [same] at fault; exact fault
  · exact quiet_error nofun

/-! ### Moves -/

/-- What a run does to the definitions that were made in it. -/
inductive Event
  | defined (d : Definition)
  | undone (env : Env) (name : String)

/-- The definition that a value at a binding makes: there is one if there is a frame in which
the name is free. -/
def definition? (name : String) (value : Value) (env : Env) (s : Store) : Option Definition :=
  (s.frame? env).bind fun frame =>
    if (frame.bindings.lookup name).isNone then some ⟨env, name, value⟩ else none

/-- What a move does to the definitions that were made in a run: a value that arrives at a
binding may be defined, and an undoing that comes first on the trail is done when a move goes
back. -/
def event? (move : Move) (s : Store) : Option Event :=
  match move with
  | .deliver value (.bind name env :: _) _ =>
    (definition? name value env s).map .defined
  | .retreat (.undo name env :: _) => some (.undone env name)
  | _ => none

/-- The outcomes of a move, with what it does to the definitions. -/
inductive Outcome (trail : Trail) (s : Store) : Option Event → Promise × Store → Prop
  | quiet {result : Promise × Store} (h : Quiet trail s result) : Outcome trail s none result
  | value (value : Value) : Outcome trail s none (.done value (some trail), s)
  | exhausted (empty : trail = []) : Outcome trail s none (.error .noMoreAlternatives, s)
  | defined {d : Definition} {frame : Frame} {k : Cont} (here : s.frame? d.env = some frame)
      (free : frame.bindings.lookup d.name = none) (plain : PlainCont k) :
      Outcome trail s (some (.defined d))
        (deliver (.symbol d.name) k (.undo d.name d.env :: trail), s.bind d.env d.name d.value)
  | undone {env : Env} {name : String} {rest : Trail} (first : trail = .undo name env :: rest) :
      Outcome trail s (some (.undone env name)) (retreat rest, s.unbind env name)

theorem define_outcome (name : String) (value : Value) (env : Env) (hk : PlainCont k)
    (ht : PlainTrail trail) :
    Outcome trail s ((definition? name value env s).map .defined)
      (define name value env k trail s) := by
  unfold definition? define
  cases here : s.frame? env with
  | none => exact .quiet (quiet_deliver _ hk ht)
  | some frame =>
    simp only [Option.bind_some]
    cases free : frame.bindings.lookup name with
    | none => exact .defined (d := ⟨env, name, value⟩) here free hk
    | some _ => exact .quiet (quiet_error nofun)

theorem fail_outcome (ht : PlainTrail trail) :
    Outcome trail s (event? (.retreat trail) s) (fail trail s) := by
  unfold fail
  split
  -- nothing is left, an undoing comes first, an alternative does, or a plan
  · exact .exhausted rfl
  · exact .undone rfl
  · next node env k rest =>
    have plain : PlainTrail rest := fun choice member => ht choice (.tail _ member)
    have hk : PlainCont k := ht _ (.head _)
    exact .quiet ((eval_quiet node env hk plain).of_undoings (undoings_retry ..).symm)
  · exact absurd (ht _ (.head _)) id

/-- A value that arrives at a task that is no binding begins something quietly. -/
theorem perform_quiet {task : Task} (value : Value) (plain : task ≠ .reject)
    (other : ∀ name env, task ≠ .bind name env) (hk : PlainCont k) (ht : PlainTrail trail) :
    Quiet trail s (perform task value k trail s) := by
  unfold perform
  split
  -- one case for each kind of task, and in it one for each kind of value that it tells apart
  · exact evalAll_quiet _ _ _ _ hk ht
  · exact evalSequence_quiet _ _ hk ht
  · exact absurd rfl (other _ _)
  · split
    · exact eval_quiet _ _ hk ht
    · exact eval_quiet _ _ hk ht
    · exact quiet_error nofun
  · split
    · split
      · exact quiet_deliver _ hk ht
      · exact eval_quiet _ _ (hk.cons (by rintro ⟨⟩)) ht
    · exact quiet_error nofun
  · split
    · exact quiet_deliver _ hk ht
    · exact quiet_error nofun
  · exact evalAll_quiet _ _ _ _ hk ht
  · exact absurd rfl plain

/-- **What a move can do**: make frames and functions, make one definition and put its undoing
on the trail, take one undoing from the trail and do it, or end the run. -/
theorem bounce_cases {move : Move} (plain : move.Plain) (current : move.trail? = some trail) :
    Outcome trail s (event? move s) (bounce move s) := by
  cases move with
  | deliver value k rest =>
    obtain rfl := Option.some.inj current
    cases k with
    | nil => exact .value value
    | cons task k =>
      have hk : PlainCont k := fun member => plain.1 (.tail _ member)
      have here : task ≠ .reject := fun same => plain.1 (by rw [same]; exact .head _)
      -- a binding is the one task at which a definition is made
      by_cases binds : ∃ name env, task = .bind name env
      · obtain ⟨name, env, rfl⟩ := binds
        exact define_outcome name value env hk plain.2
      · have other : ∀ name env, task ≠ .bind name env := fun name env same =>
          binds ⟨name, env, same⟩
        have quiet := perform_quiet (s := s) value here other hk plain.2
        cases task with
        | bind name env => exact absurd rfl (other name env)
        | _ => exact .quiet quiet
  | retreat rest =>
    obtain rfl := Option.some.inj current
    exact fail_outcome plain
  | seek name env k rest =>
    obtain rfl := Option.some.inj current
    exact .quiet (lookup_quiet name env plain.1 plain.2)
  | gather goal values k rest =>
    obtain rfl := Option.some.inj current
    cases goal with
    | list => exact .quiet (quiet_deliver _ plain.1 plain.2)
    | call function => exact .quiet (apply_quiet function values plain.1 plain.2)
  | follow plan => exact absurd plain id

end Machine

end Retrace
