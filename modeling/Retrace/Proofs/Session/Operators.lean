/-
Operators keep their meaning.

* `Primitive.operators` — the primitives whose names cannot be defined.
* `Store.Guarded` — a store whose global frame binds every primitive under its name, and
  whose other frames bind identifiers and lead to the global one.
* `guarded_of_steps` — moves of a statement keep the store guarded.
* `Session.During` — the sessions that there are in the course of runs of programs.
* **`operators_keep_their_meaning`** — at every move of every run, an operator is what it was
  at the start, from wherever it is looked up.

Design notes: that no program binds an operator rests on three things. What is read as a name
is an identifier, a definition is of a name that is free in its frame, and an undoing is of a
definition that stands. All of them hold in the middle of a statement, so it does not matter
how statements end.
-/
import Retrace.Proofs.Machine.Scoping

namespace Retrace

/-- The primitives that operators are bound to. The others have names that a program may bind
in frames of its own. -/
def Primitive.operators : List Primitive :=
  [add, sub, mul, div, mod, eq, ne, lt, gt, le, ge, cons, append, xor, not]

/-- The names of operators are no identifiers. -/
theorem Primitive.not_identifier : ∀ p ∈ operators, ¬Lexer.isIdentifier p.name := by
  decide

/-! ### Guarded stores -/

/-- A store in which operators have their meaning. -/
structure Store.Guarded (global : Env) (s : Store) : Prop where
  /-- Every primitive is bound under its name. -/
  primitives p : s.local? global p.name = some (.primitive p)
  /-- Names that a program bound are identifiers. -/
  named : s.Named global
  /-- Every frame leads to the global one. -/
  rooted : s.Rooted global
  /-- Functions are made in frames that exist. -/
  within : s.Within s.Knows
  /-- The bodies and parameters of functions are well-formed. -/
  wellFormed : s.WellFormed

namespace Store.Guarded

variable {s : Store} {global env : Env} {p : Primitive}

theorem knows_global (h : s.Guarded global) : s.Knows global := by
  obtain ⟨frame, found, _⟩ := Option.bind_eq_some_iff.mp (h.primitives .add)
  exact ⟨frame, found⟩

/-- Other frames do not bind operators. -/
theorem free (h : s.Guarded global) (operator : p ∈ Primitive.operators) (other : env ≠ global) :
    s.local? env p.name = none := by
  rw [Store.local?, Option.bind_eq_none_iff]
  intro frame found
  exact (h.named env frame other found).lookup_eq_none (Primitive.not_identifier p operator)

end Store.Guarded

namespace Machine

variable {s t : Store} {global : Env} {node : Node} {promise : Promise} {n : Nat}

/-- **Moves of a statement keep the store guarded.** -/
theorem guarded_of_steps (h : s.Guarded global) (wellFormed : node.WellFormed .statement)
    (steps : Steps n (eval node global [] [] s) (promise, t)) : t.Guarded global := by
  have regular : Regular (eval node global [] [] s) :=
    eval_regular wellFormed h.wellFormed (List.forall_mem_nil _) (List.forall_mem_nil _)
  have held := scoped_of_steps steps (eval_scoped node h.within h.rooted h.knows_global)
  constructor
  case primitives => exact fun p => local?_of_steps (h.primitives p) steps
  case named =>
    refine named_of_steps steps regular fun env frame other found => ?_
    rw [eval_frame?] at found
    exact h.named env frame other found
  case rooted => exact held.rooted
  case within => exact held.store
  case wellFormed => exact (regular_of_steps steps regular).1

end Machine

/-! ### Sessions -/

namespace Session

/-- The sessions that there are in the course of runs of programs, with what is left of the
program that is running. -/
inductive During : Session → Reader → Prop
  | start {session : Session} (text : String) (reached : Reached session) :
      During session (.plain text)
  | statement {session session' : Session} {r r' : Reader} {node : Node} {fuel : Nat}
      {value : Value} (before : During session r) (read : r.read = (.ok (some node), r'))
      (evaluated : session.evaluate fuel node = some (.ok value, session')) : During session' r'

variable {session session' : Session} {r r' : Reader} {fuel : Nat} {node : Node}

/-- A statement that is well-formed leaves a guarded store, whatever comes of it. -/
theorem evaluate_guarded {result : Except EvalError Value}
    (h : session.store.Guarded session.global) (wellFormed : node.WellFormed .statement)
    (evaluated : session.evaluate fuel node = some (result, session')) :
    session'.store.Guarded session'.global := by
  rw [Machine.evaluate_eq] at evaluated
  obtain ⟨ending, ran, same⟩ := Option.map_eq_some_iff.mp evaluated
  obtain ⟨_, rfl⟩ := Prod.mk.inj same
  obtain ⟨n, last, _, steps, _⟩ := Machine.run_eq_some ran
  exact Machine.guarded_of_steps h wellFormed steps

/-- A session begins with one frame, the global one. -/
theorem start_frame? (limit : Option Nat) (env : Env) :
    (start limit).store.frame? env =
      if env = (start limit).global then
        some (Store.newFrame Store.empty.addRoot.1 Primitive.bindings)
      else none := by
  show (Store.empty.addRoot.2.extend Store.empty.addRoot.1 Primitive.bindings).2.frame? env = _
  rw [Store.frame?_extend, Store.frame?_addRoot, Store.frame?_empty]
  exact if_congr (and_iff_left (by decide)) rfl rfl

theorem start_guarded (limit : Option Nat) : (start limit).store.Guarded (start limit).global := by
  have frames : ∀ env frame, (start limit).store.frame? env = some frame →
      env = (start limit).global ∧
        frame = Store.newFrame Store.empty.addRoot.1 Primitive.bindings := by
    intro env frame found
    rw [start_frame?] at found
    split at found
    · next here => exact ⟨here, (Option.some.inj found).symm⟩
    · cases found
  constructor
  case primitives => exact fun p => by cases p <;> rfl
  case named =>
    intro env frame other found
    exact absurd (frames env frame found).1 other
  case rooted => exact fun env frame found => .inl (frames env frame found).1
  case within =>
    intro env frame found
    obtain ⟨_, rfl⟩ := frames env frame found
    refine Bindings.Each.foldl_put (fun binding member => ?_) nofun
    obtain ⟨p, _, rfl⟩ := List.mem_map.mp member
    trivial
  case wellFormed => exact start_wellFormed limit

/-- Every session that runs of programs lead to is guarded. -/
theorem Reached.guarded (h : session.Reached) : session.store.Guarded session.global := by
  induction h with
  | start limit => exact start_guarded limit
  | run before ran ih =>
    refine (runWithin_keeps (P := fun session => session.store.Guarded session.global)
      (Q := fun _ => True) ?_ ih .start ran).1
    intro session session' node fuel result guarded wellFormed evaluated
    exact ⟨evaluate_guarded guarded wellFormed evaluated, fun _ _ => trivial⟩

/-- So is every session in the course of a run, and what is left of the program can be read. -/
theorem During.guarded (h : During session r) :
    session.store.Guarded session.global ∧ ∃ text config, Reader.Reached text config r := by
  induction h with
  | start text reached => exact ⟨reached.guarded, text, _, .start⟩
  | @statement session session' r r' node fuel value before read evaluated ih =>
    obtain ⟨guarded, text, config, reached⟩ := ih
    have wellFormed := Reader.read_wellFormed reached (congrArg Prod.fst read)
    refine ⟨evaluate_guarded guarded wellFormed evaluated, text, config, ?_⟩
    have next := reached.read
    rwa [read] at next

end Session

open Machine in
/-- **Operators keep their meaning.** At every move of every statement of every run of a program,
in a session that any runs of programs led to, the global frame binds every primitive under its
name, and no other frame binds an operator. So an operator that is looked up from any frame is the
primitive of its name. -/
theorem operators_keep_their_meaning {session : Session} {r r' : Reader} {node : Node}
    (during : session.During r) (read : r.read = (.ok (some node), r')) {n : Nat}
    {promise : Promise} {s : Store}
    (steps : Steps n (eval node session.global [] [] session.store) (promise, s)) :
    (∀ p : Primitive, s.local? session.global p.name = some (.primitive p)) ∧
    (∀ env, env ≠ session.global → ∀ p ∈ Primitive.operators, s.local? env p.name = none) ∧
    ∀ env, s.Knows env → ∀ p ∈ Primitive.operators, ∀ k trail,
      ∃ m, Steps m (lookup p.name env k trail s, s) (deliver (.primitive p) k trail, s) := by
  obtain ⟨guarded, text, config, reached⟩ := during.guarded
  have wellFormed := Reader.read_wellFormed reached (congrArg Prod.fst read)
  have now := guarded_of_steps guarded wellFormed steps
  refine ⟨now.primitives, fun env other p operator => now.free operator other, ?_⟩
  intro env known p operator k trail
  have free := fun e other => @Store.Guarded.free s session.global e p now operator other
  exact lookup_global now.rooted (now.primitives p) free known k trail

/-- A function whose parameter has the name of a primitive that is no operator, applied to a number,
as it is read. -/
def parameterHead : Node :=
  .apply (.apply (.symbol "fn" ⟨0, 2⟩) [.list [.symbol "head" ⟨4, 8⟩] ⟨3, 9⟩,
      .block [.apply (.symbol "+" ⟨17, 18⟩) [.symbol "head" ⟨12, 16⟩, .atom (.int 1) ⟨19, 20⟩]
        ⟨12, 20⟩] ⟨10, 23⟩] ⟨0, 23⟩) [.atom (.int 2) ⟨24, 25⟩] ⟨0, 26⟩

open Machine in
/-- After three moves the body of the function runs in a frame of its own. The name of the parameter
is bound there, and the sum in the body is still a sum. -/
theorem operators_keep_their_meaning_in_function :
    let session := Session.start none
    session.During (.plain "fn (head) \x7b head + 1; \x7d(2);") ∧
      ∃ r' promise s,
        (Reader.plain "fn (head) \x7b head + 1; \x7d(2);").read = (.ok (some parameterHead), r') ∧
        Steps 3 (eval parameterHead session.global [] [] session.store) (promise, s) ∧
        s.local? ⟨0, 2⟩ Primitive.head.name = some (.int 2) ∧
        ∃ m, Steps m (lookup Primitive.add.name ⟨0, 2⟩ [] [] s, s)
          (deliver (.primitive .add) [] [], s) := by
  intro session
  have during : session.During (.plain "fn (head) \x7b head + 1; \x7d(2);") :=
    .start _ (.start none)
  have read : (Reader.plain "fn (head) \x7b head + 1; \x7d(2);").read.1 =
      .ok (some parameterHead) := by cbv
  have steps : ∃ promise s, Steps 3 (eval parameterHead session.global [] [] session.store)
      (promise, s) ∧ s.local? ⟨0, 2⟩ Primitive.head.name = some (.int 2) :=
    ⟨_, _, .move (.move (.move (.refl _))), rfl⟩
  obtain ⟨promise, s, steps, bound⟩ := steps
  obtain ⟨frame, found, _⟩ := Option.bind_eq_some_iff.mp bound
  obtain ⟨_, _, lookups⟩ := operators_keep_their_meaning during (Prod.ext read rfl) steps
  refine ⟨during, _, promise, s, Prod.ext read rfl, steps, bound, ?_⟩
  exact lookups ⟨0, 2⟩ ⟨frame, found⟩ .add (by decide) [] []

end Retrace
