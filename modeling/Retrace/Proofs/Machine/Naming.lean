/-
The names that frames bind.

* `Reshapes` — what a move does to the trees of a store: nothing, a definition, its
  undoing, or a new frame for the operands of a function.
* **`bounce_reshapes`** — every move does one of these, and `Reframes` says it of frames.
* `Store.Named` — every frame but the global one binds identifiers only.
* **`named_of_steps`** — moves from a regular state keep it so.
* **`local?_of_steps`** — a name that was bound in a frame when the evaluation of a node began
  is bound to the same value at every move.

Design notes: a name comes into a frame in two ways. It is the name of a definition, or it is
a parameter. Both are names of a well-formed tree, and these are identifiers. What was there
before is not taken away, because an undoing sets free what its own definition bound, and
nothing that is bound can be defined.
-/
import Retrace.Proofs.Machine.Undoing
import Retrace.Proofs.Machine.WellFormed

namespace Retrace

namespace Machine

variable {k : Cont} {trail : Trail} {s t : Store} {env : Env} {value : Value}

/-! ### What a move does to trees -/

/-- The environment of the frame that a move makes. It makes one when a function is applied to as
many values as it has parameters. -/
def Move.makes (s : Store) : Move → Option Env
  | .gather (.call (.closure c)) args _ _ =>
    if c.params.length = args.length then some (s.extend c.env (c.params.zip args)).1 else none
  | _ => none

/-- What a move does to the trees of a store, and the environment that it makes. -/
inductive Reshapes (s : Store) : Move → Option Env → Store → Prop
  | same {move t} (trees : t.trees = s.trees) : Reshapes s move none t
  | bind {name value env k trail} :
      Reshapes s (.deliver value (.bind name env :: k) trail) none (s.bind env name value)
  | unbind {move name env} : Reshapes s move none (s.unbind env name)
  | extend {c args k trail t} (trees : t.trees = (s.extend c.env (c.params.zip args)).2.trees) :
      Reshapes s (.gather (.call (.closure c)) args k trail)
        (some (s.extend c.env (c.params.zip args)).1) t

/-- The evaluation of a node begins with the trees as they are. -/
theorem eval_trees (node : Node) (env : Env) (k : Cont) (trail : Trail) :
    (eval node env k trail s).2.trees = s.trees := by
  fun_induction eval node env k trail s
  case case5 ih | case7 ih | case8 ih | case9 ih | case14 ih | case16 ih | case18 ih | case20 ih
      | case22 ih => exact ih
  case case11 made =>
    obtain ⟨rfl, rfl⟩ := Prod.mk.inj made
    rfl
  all_goals rfl

theorem evalAll_trees (goal : Goal) (done : List Value) (todo : List Node) :
    (evalAll goal done todo env k trail s).2.trees = s.trees := by
  cases todo with
  | nil => rfl
  | cons node todo => exact eval_trees node env _ trail

theorem evalSequence_trees (statements : List Node) (env : Env) :
    (evalSequence statements env k trail s).2.trees = s.trees := by
  rcases statements with _ | ⟨first, _ | ⟨next, others⟩⟩
  · rfl
  · exact eval_trees first env k trail
  · exact eval_trees first env _ trail

theorem fail_reshapes (move : Move) : Reshapes s move none (fail trail s).2 := by
  cases trail with
  | nil => exact .same rfl
  | cons choice trail =>
    cases choice with
    | undo name env => exact .unbind
    | retry node env k => exact .same (eval_trees node env k trail)
    | plan plan => exact .same rfl

theorem perform_reshapes (task : Task) (value : Value) :
    Reshapes s (.deliver value (task :: k) trail) none (perform task value k trail s).2 := by
  cases task with
  | collect goal done todo env => exact .same (evalAll_trees ..)
  | sequence next others env => exact .same (evalSequence_trees ..)
  | bind name env =>
    show Reshapes s _ none (define name value env k trail s).2
    unfold define
    split
    · exact .same rfl
    · split
      · exact .same rfl
      · exact .bind
  | choose consequent alternative env =>
    cases value with
    | bool b =>
      cases b with
      | true => exact .same (eval_trees consequent env k trail)
      | false => exact .same (eval_trees alternative env k trail)
    | int | str | symbol | list | closure | primitive => exact .same rfl
  | junction kind right env =>
    cases value with
    | bool b =>
      show Reshapes s _ none (if b = kind.decisive then _ else _ : Promise × Store).2
      split
      · exact .same rfl
      · exact .same (eval_trees right env _ trail)
    | int | str | symbol | list | closure | primitive => exact .same rfl
  | check kind =>
    cases value with
    | bool | int | str | symbol | list | closure | primitive => exact .same rfl
  | operands args env => exact .same (evalAll_trees ..)
  | reject => exact fail_reshapes _

theorem apply_reshapes (function : Value) (args : List Value) :
    Reshapes s (.gather (.call function) args k trail)
      (Move.makes s (.gather (.call function) args k trail))
      (apply function args k trail s).2 := by
  cases function with
  | closure c =>
    rw [apply, Move.makes]
    split
    · exact .extend (evalSequence_trees c.body _)
    · exact .same rfl
  | primitive p =>
    rw [apply]
    cases p.apply args with
    | ok value => exact .same rfl
    | error e => exact .same rfl
  | int | str | bool | symbol | list => exact .same rfl

/-- **What a move does to trees**: it makes no change, a definition, an undoing, or one new
frame. -/
theorem bounce_reshapes (move : Move) (s : Store) :
    Reshapes s move (move.makes s) (bounce move s).2 := by
  cases move with
  | deliver value k trail =>
    cases k with
    | nil => exact .same rfl
    | cons task k => exact perform_reshapes task value
  | retreat trail => exact fail_reshapes _
  | seek name env k trail => exact .same rfl
  | gather goal values k trail =>
    cases goal with
    | list => exact .same rfl
    | call function => exact apply_reshapes function values
  | follow plan => exact .same rfl

/-! ### What a move does to frames -/

/-- What a move does to the frames of a store. -/
inductive Reframes (s : Store) : Move → Store → Prop
  | same {move t} (frames : ∀ env, t.frame? env = s.frame? env) : Reframes s move t
  | bind {name value env k trail} :
      Reframes s (.deliver value (.bind name env :: k) trail) (s.bind env name value)
  | unbind {move name env} : Reframes s move (s.unbind env name)
  | extend {c args k trail t}
      (frames : ∀ env, t.frame? env = (s.extend c.env (c.params.zip args)).2.frame? env) :
      Reframes s (.gather (.call (.closure c)) args k trail) t

/-- The evaluation of a node begins with the frames as they are. -/
theorem eval_frame? (node : Node) (env e : Env) (k : Cont) (trail : Trail) :
    (eval node env k trail s).2.frame? e = s.frame? e :=
  Store.frame?_congr (eval_trees node env k trail) e

theorem evalSequence_frame? (statements : List Node) (env e : Env) :
    (evalSequence statements env k trail s).2.frame? e = s.frame? e :=
  Store.frame?_congr (evalSequence_trees statements env) e

theorem Reshapes.reframes {move : Move} {made : Option Env} (changed : Reshapes s move made t) :
    Reframes s move t := by
  cases changed with
  | same trees => exact .same (Store.frame?_congr trees)
  | bind => exact .bind
  | unbind => exact .unbind
  | extend trees => exact .extend (Store.frame?_congr trees)

/-- What a move does to frames. -/
theorem bounce_reframes (move : Move) (s : Store) : Reframes s move (bounce move s).2 :=
  (bounce_reshapes move s).reframes

end Machine

/-! ### Names in frames -/

/-- Bindings of identifiers. -/
def Bindings.Named (bindings : Bindings) : Prop :=
  ∀ binding ∈ bindings, Lexer.isIdentifier binding.1

/-- Every frame but the global one binds identifiers only. -/
def Store.Named (global : Env) (s : Store) : Prop :=
  ∀ env frame, env ≠ global → s.frame? env = some frame → frame.bindings.Named

namespace Bindings.Named

variable {bindings made : Bindings} {name : String} {value : Value}

theorem put (h : bindings.Named) (identifier : Lexer.isIdentifier name) :
    (bindings.put name value).Named :=
  forall_put h identifier

theorem remove (h : bindings.Named) : (bindings.remove name).Named :=
  forall_remove h

/-- A new frame has the names that it is made with. -/
theorem foldl_put (h : bindings.Named) (start : made.Named) :
    Bindings.Named (bindings.foldl (fun bs (name, value) => bs.put name value) made) :=
  forall_foldl_put h start

/-- A name that is no identifier is free. -/
theorem lookup_eq_none (h : bindings.Named) (other : ¬Lexer.isIdentifier name) :
    bindings.lookup name = none := by
  rw [List.lookup_eq_none_iff]
  intro binding member
  rw [bne_iff_ne]
  rintro rfl
  exact other (h binding member)

end Bindings.Named

namespace Machine

variable {s t : Store} {global env : Env} {name : String} {value : Value} {node : Node} {n : Nat}

/-- A move keeps the names of frames identifiers. -/
theorem Reframes.named {move : Move} (changed : Reframes s move t) (h : s.Named global)
    (regular : move.WellFormed) : t.Named global := by
  intro e frame other found
  cases changed with
  | same frames =>
    rw [frames e] at found
    exact h e frame other found
  | bind =>
    -- the name of a pending definition is an identifier
    have identifier : Lexer.isIdentifier _ := regular.2.1 _ (.head _)
    rw [Store.frame?_bind] at found
    split at found
    · obtain ⟨before, here, rfl⟩ := Option.map_eq_some_iff.mp found
      exact (h e before other here).put identifier
    · exact h e frame other found
  | unbind =>
    rw [Store.frame?_unbind] at found
    split at found
    · obtain ⟨before, here, rfl⟩ := Option.map_eq_some_iff.mp found
      exact (h e before other here).remove
    · exact h e frame other found
  | @extend c args k trail t frames =>
    have function : c.WellFormed := regular.1
    rw [frames e, Store.frame?_extend] at found
    split at found
    · obtain rfl := Option.some.inj found
      refine Bindings.Named.foldl_put (fun binding member => ?_) nofun
      exact function.1 _ (List.of_mem_zip member).1
    · exact h e frame other found

/-- **Moves from a regular state keep the names of frames identifiers.** -/
theorem named_of_steps {a b : Promise × Store} (steps : Steps n a b) (regular : Regular a)
    (h : a.2.Named global) : b.2.Named global := by
  induction steps with
  | refl => exact h
  | @move n move s state _ ih =>
    exact ih (bounce_regular regular) ((bounce_reframes move s).named h regular.2)

/-! ### Names that stay -/

/-- What a frame bound at first is bound as long as there are definitions and undoings. -/
theorem Balanced.local?_eq {m : Moment} (h : Balanced s m)
    (bound : s.local? env name = some value) : m.store.local? env name = some value := by
  obtain ⟨frame, here, found⟩ := Option.bind_eq_some_iff.mp bound
  have first := h.old env frame here
  -- no definition that stands is of a name that the frame had
  have fresh : (env, name) ∉ (standing m.log).map Definition.key := by
    intro member
    obtain ⟨d, stands, same⟩ := List.mem_map.mp member
    obtain ⟨rfl, rfl⟩ := Prod.mk.inj same
    obtain ⟨frame', known, free⟩ := h.free d stands
    obtain rfl := Option.some.inj (first.symm.trans known)
    rw [free] at found
    cases found
  have made : (madeIn env (standing m.log)).lookup name = none := by
    have none_made := (@lookup_madeIn env name (standing m.log) []).mpr ⟨fresh, rfl⟩
    rwa [List.append_nil] at none_made
  rw [Store.local?, h.frames env, first, Option.map_some, Option.bind_some, List.lookup_append,
    made, found]
  rfl

/-- **What is bound when the evaluation of a node begins is bound at every move.** -/
theorem local?_of_steps {promise : Promise} (bound : s.local? env name = some value)
    (steps : Steps n (eval node global [] [] s) (promise, t)) :
    t.local? env name = some value := by
  obtain ⟨m, visits, here⟩ := visits_of_steps steps (@Visits.start (.start s _)) rfl
  obtain ⟨_, rfl⟩ := Prod.mk.inj here
  exact (balanced_of_visits visits).1.local?_eq bound

end Machine

end Retrace
