/-
The machine searches depth first and from left to right.

* `Agrees` — the machine, started in a state, finds given answers one after the other:
  it delivers the first to its continuation, and when it goes back along the trail that
  came with an answer it finds the answers after it.
* `Agrees.orElse`, `Agrees.bind` — alternatives and sequences of searches.
* `agrees_node` — what the machine finds for a node are the answers of the node.
* **`agrees_solve`** — the machine finds the answers of a node, whatever its definitions
  and calls are.

Design notes:
* The trail that comes with an answer is not described. It is known by what going back
  along it does, for every store in which the frames of the answer are as they were
  and whatever was defined since is undone.
* A depth is also a number of moves: where the meaning is unknown at a depth, the
  machine has made that many moves and goes on. So nothing that the machine finds is
  missing from the answers at a sufficient depth.
-/
import Retrace.Proofs.Machine.Answers
import Retrace.Proofs.Machine.Runs

namespace Retrace.Machine

open Answers Meaning

variable {k : Cont} {trail trail' : Trail} {base base' : Store} {ds : List Definition}
  {n m depth : Nat} {c c' : Promise × Store} {t : Answers Value} {w : World}

/-! ### Agreement of a state with answers -/

/-- The machine finds the answers. Each is delivered to the continuation, and the answers after
it are found on going back. When there are no more, the machine goes back along the trail of
the beginning, and what it defined is undone. -/
def Agrees (k : Cont) (trail : Trail) (base : Store) (ds : List Definition) :
    Nat → Answers Value → Promise × Store → Prop
  | n, .unknown, c => ∃ c', Steps n c c'
  | _, .failed error w, c => ∃ m, Steps m c (.error error, w.store)
  | _, .exhausted b, c => base ≤ b ∧ ∃ m, Steps m c (retreat trail, b.withDefinitions ds)
  | n, .found answer w next, c =>
    base ≤ w.base ∧ w.base.Has w.definitions ∧
      ∃ m trail', Steps m c (deliver answer k trail', w.store) ∧
        ∀ b, w.base ≤ b →
          Agrees k trail base ds (n - m) (next b) (retreat trail', b.withDefinitions w.definitions)

theorem Agrees.after (steps : Steps m c c') (h : Agrees k trail base ds n t c') :
    Agrees k trail base ds (n + m) t c := by
  cases t with
  | unknown =>
    obtain ⟨last, more⟩ := h
    rw [Nat.add_comm]
    exact ⟨last, steps.trans more⟩
  | failed =>
    obtain ⟨m', more⟩ := h
    exact ⟨m + m', steps.trans more⟩
  | exhausted =>
    obtain ⟨le, m', more⟩ := h
    exact ⟨le, m + m', steps.trans more⟩
  | found =>
    obtain ⟨le, has, m', trail', more, rest⟩ := h
    refine ⟨le, has, m + m', trail', steps.trans more, fun b hb => ?_⟩
    rw [show n + m - (m + m') = n - m' by omega]
    exact rest b hb

theorem Agrees.of_le (le : m ≤ n) (h : Agrees k trail base ds n t c) :
    Agrees k trail base ds m t c := by
  induction t generalizing m n c with
  | unknown =>
    obtain ⟨last, steps⟩ := h
    exact steps.truncate le
  | failed => exact h
  | exhausted => exact h
  | found answer w next ih =>
    obtain ⟨le', has, j, trail', steps, rest⟩ := h
    exact ⟨le', has, j, trail', steps, fun b hb => ih b (by omega) (rest b hb)⟩

/-- An agreement with what comes after one move. -/
theorem Agrees.after_move {move : Move} {s : Store}
    (h : Agrees k trail base ds n t (bounce move s)) :
    Agrees k trail base ds (n + 1) t (.next move, s) :=
  h.after (.single move s)

theorem Agrees.of_base_le (le : base' ≤ base) (h : Agrees k trail base ds n t c) :
    Agrees k trail base' ds n t c := by
  induction t generalizing n c with
  | unknown => exact h
  | failed => exact h
  | exhausted => exact ⟨Store.le_trans le h.1, h.2⟩
  | found answer w next ih =>
    obtain ⟨le', has, j, trail', steps, rest⟩ := h
    exact ⟨Store.le_trans le le', has, j, trail', steps, fun b hb => ih b (rest b hb)⟩

theorem agrees_one (has : w.base.Has w.definitions) (n : Nat) (answer : Value) :
    Agrees k trail w.base w.definitions n (one answer w) (deliver answer k trail, w.store) :=
  ⟨Store.le_refl _, has, 0, trail, .refl _, fun _ hb => ⟨hb, 0, .refl _⟩⟩

/-- After the answers of one search the machine finds those of another, if going back along
the trail of the first leads into the second. -/
theorem Agrees.orElse {other : Store → Answers Value}
    (first : Agrees k trail' w.base w.definitions n t c) (le : base ≤ w.base)
    (second : ∀ b, w.base ≤ b →
      Agrees k trail base ds n (other b) (retreat trail', b.withDefinitions w.definitions)) :
    Agrees k trail base ds n (t.orElse other) c := by
  induction t generalizing n c with
  | unknown => exact first
  | failed => exact first
  | exhausted b =>
    -- the machine is back at the trail of the first search, which leads into the second
    obtain ⟨hb, m, steps⟩ := first
    exact ((second b hb).after steps).of_le (Nat.le_add_right n m)
  | found answer w' next ih =>
    obtain ⟨le', has, m, trail'', steps, rest⟩ := first
    refine ⟨Store.le_trans le le', has, m, trail'', steps, fun b hb => ?_⟩
    exact ih b (rest b hb) fun b' hb' => (second b' hb').of_le (Nat.sub_le n m)

/-- For one answer after the other the machine finds the answers of what follows, if each answer
arrives at a task that leads into what follows. -/
theorem Agrees.bind {task : Task} {f : Value → World → Answers Value}
    (first : Agrees (task :: k) trail base ds n t c)
    (follows : ∀ answer (w : World) trail', base ≤ w.base → w.base.Has w.definitions →
      Agrees k trail' w.base w.definitions n (f answer w) (perform task answer k trail' w.store)) :
    Agrees k trail base ds n (t.bind f) c := by
  induction t generalizing n c with
  | unknown => exact first
  | failed => exact first
  | exhausted => exact first
  | found answer w next ih =>
    obtain ⟨le, has, m, trail', steps, rest⟩ := first
    have here : Agrees k trail' w.base w.definitions (n - m) (f answer w)
        (deliver answer (task :: k) trail', w.store) :=
      (follows answer w trail' le has).after_move.of_le (by omega)
    refine ((here.orElse le fun b hb => ?_).after steps).of_le (by omega)
    -- going back from the last answer of `f` leads to the answers after this one
    exact ih b (rest b hb) fun answer w trail le has =>
      (follows answer w trail le has).of_le (Nat.sub_le n m)

/-! ### Names -/

theorem agrees_find (has : w.base.Has w.definitions) (reach : Nat) (name : String) (env : Env) :
    Agrees k trail w.base w.definitions reach (find reach name env w)
      (lookup name env k trail w.store, w.store) := by
  induction reach generalizing env with
  | zero => exact ⟨_, .refl _⟩
  | succ reach ih =>
    unfold find lookup
    cases w.store.frame? env with
    | none => exact ⟨0, .refl _⟩
    | some frame =>
      simp only
      cases frame.bindings.lookup name with
      | some value => exact agrees_one has _ value
      | none => exact (ih ⟨env.tree, frame.parent⟩).after_move

/-- A definition is undone on the way back, whatever frames were made since. -/
theorem agrees_define (has : w.base.Has w.definitions) (n : Nat) (name : String) (value : Value)
    (env : Env) :
    Agrees k trail w.base w.definitions n (Meaning.define name value env w)
      (define name value env k trail w.store) := by
  unfold Meaning.define define
  cases here : w.store.frame? env with
  | none => exact agrees_one has n _
  | some frame =>
    simp only
    cases free : frame.bindings.lookup name with
    | some _ => exact ⟨0, .refl _⟩
    | none =>
      refine ⟨Store.le_refl _, ?_, 0, .undo name env :: trail, .refl _, fun b hb => ?_⟩
      · intro d member
        rcases List.mem_cons.mp member with rfl | member
        · rw [← @Store.isSome_frame?_withDefinitions w.base env w.definitions]
          exact Option.isSome_of_eq_some here
        · exact has d member
      · -- in a store with more frames the frame of the definition is the same
        have still : (b.withDefinitions w.definitions).frame? env = some frame :=
          Store.withDefinitions_le hb w.definitions env frame here
        refine ⟨hb, 1, ?_⟩
        have back := Steps.single (.retreat (.undo name env :: trail))
          (b.withDefinitions (⟨env, name, value⟩ :: w.definitions))
        rw [bounce, fail, Store.withDefinitions, Store.unbind_bind still free] at back
        exact back

/-! ### Operands of conditionals and junctions -/

theorem agrees_truth (has : w.base.Has w.definitions) (n : Nat) (kind : Junction)
    (value : Value) :
    Agrees k trail w.base w.definitions n (truth kind value w)
      (perform (.check kind) value k trail w.store) := by
  cases value <;> first | exact agrees_one has n _ | exact ⟨0, .refl _⟩

theorem agrees_branch {consequent alternative : Node} {env : Env}
    {first second : World → Answers Value}
    (hfirst : Agrees k trail w.base w.definitions n (first w)
      (eval consequent env k trail w.store))
    (hsecond : Agrees k trail w.base w.definitions n (second w)
      (eval alternative env k trail w.store)) (condition : Value) :
    Agrees k trail w.base w.definitions n (branch first second condition w)
      (perform (.choose consequent alternative env) condition k trail w.store) := by
  cases condition with
  | bool b =>
    cases b with
    | true => exact hfirst
    | false => exact hsecond
  | _ => exact ⟨0, .refl _⟩

theorem agrees_join {right : Node} {env : Env} {second : World → Answers Value}
    (has : w.base.Has w.definitions) (kind : Junction)
    (hsecond : Agrees (.check kind :: k) trail w.base w.definitions n (second w)
      (eval right env (.check kind :: k) trail w.store)) (left : Value) :
    Agrees k trail w.base w.definitions n (join kind second left w)
      (perform (.junction kind right env) left k trail w.store) := by
  cases left with
  | bool b =>
    simp only [join, perform]
    by_cases decisive : b = kind.decisive
    · rw [if_pos decisive, if_pos decisive]
      exact agrees_one has n _
    · rw [if_neg decisive, if_neg decisive]
      exact hsecond.bind fun value w trail' _ has => agrees_truth has n kind value
  | _ => exact ⟨0, .refl _⟩

/-! ### Malformed forms -/

/-- The operands that a special form has to have. -/
def Fits (args : List Node) : Form → Prop
  | .define => ∃ name span value, args = [.atom (.symbol name) span, value]
  | .function => ∃ params span body span' names,
      args = [.list params span, .block body span'] ∧ params.mapM Node.symbol? = some names
  | .conditional => ∃ condition consequent alternative, args = [condition, consequent, alternative]
  | .choice | .and | .or => ∃ left right, args = [left, right]

theorem eval_malformed {op : Node} {args : List Node} {form : Form} {s : Store} (span : Span)
    (env : Env) (special : op.form? = some form) (wrong : ¬Fits args form) :
    eval (.apply op args span) env k trail s = (typeError (.malformed form), s) := by
  unfold eval
  simp only [special]
  cases form with
  | define =>
    simp only
    split
    · exact absurd ⟨_, _, _, rfl⟩ wrong
    · rfl
  | function =>
    simp only
    split
    · split
      · next names found => exact absurd ⟨_, _, _, _, names, rfl, found⟩ wrong
      · rfl
    · rfl
  | conditional =>
    simp only
    split
    · exact absurd ⟨_, _, _, rfl⟩ wrong
    · rfl
  | choice | and | or =>
    simp only
    split
    · exact absurd ⟨_, _, rfl⟩ wrong
    · rfl

theorem solveNode_malformed {call : Value → List Value → World → Answers Value} {reach : Nat}
    {op : Node} {args : List Node} {form : Form} (span : Span) (env : Env)
    (special : op.form? = some form) (wrong : ¬Fits args form) :
    solveNode call reach env (.apply op args span) w = .failed (.type (.malformed form)) w := by
  unfold solveNode
  simp only [special]
  cases form with
  | define =>
    simp only
    split
    · exact absurd ⟨_, _, _, rfl⟩ wrong
    · rfl
  | function =>
    simp only
    split
    · split
      · next names found => exact absurd ⟨_, _, _, _, names, rfl, found⟩ wrong
      · rfl
    · rfl
  | conditional =>
    simp only
    split
    · exact absurd ⟨_, _, _, rfl⟩ wrong
    · rfl
  | choice | and | or =>
    simp only
    split
    · exact absurd ⟨_, _, rfl⟩ wrong
    · rfl

/-! ### Nodes -/

theorem agrees_closure (has : w.base.Has w.definitions) (n : Nat) (names : List String)
    (body : List Node) (env : Env) :
    Agrees k trail w.base w.definitions n
      (one (w.base.makeClosure names body env).1
        { w with base := (w.base.makeClosure names body env).2 })
      (deliver (w.store.makeClosure names body env).1 k trail,
        (w.store.makeClosure names body env).2) := by
  have below := @Store.le_makeClosure w.base env names body
  rw [World.store, Store.makeClosure_withDefinitions]
  let later : World := { w with base := (w.base.makeClosure names body env).2 }
  have still : later.base.Has later.definitions := has.mono below
  exact (agrees_one still n _).of_base_le below

/-- The machine finds the answers of calls, with calls nested up to a depth. -/
def CallsAgree (depth : Nat) : Prop :=
  ∀ function args k trail (w : World), w.base.Has w.definitions →
    Agrees k trail w.base w.definitions depth (call depth function args w)
      (.next (.gather (.call function) args k trail), w.store)

mutual

/-- The machine finds the answers of a node, with any continuation and any trail. -/
theorem agrees_node (calls : CallsAgree depth) (env : Env) (node : Node) (k : Cont)
    (trail : Trail) (w : World) (has : w.base.Has w.definitions) :
    Agrees k trail w.base w.definitions depth (solveNode (call depth) depth env node w)
      (eval node env k trail w.store) := by
  cases node with
  | atom literal span =>
    cases literal with
    | symbol name =>
      rw [solveNode, eval]
      split
      · exact ⟨Store.le_refl _, 0, .refl _⟩
      · exact agrees_find has depth name env
    | int => exact agrees_one has depth _
    | str => exact agrees_one has depth _
    | bool => exact agrees_one has depth _
  | list items span =>
    rw [solveNode, eval_list]
    exact agrees_all calls env items .list [] k trail w has fun values k trail w has =>
      (agrees_one has depth _).after_move.of_le (Nat.le_succ _)
  | block statements span =>
    rw [solveNode, eval_block]
    exact agrees_each calls env statements k trail w has
  | apply op args span =>
    cases special : op.form? with
    | none =>
      -- the function position comes first, then the arguments, and then the call
      unfold solveNode eval
      simp only [special]
      refine (agrees_node calls env op _ trail w has).bind fun function w trail' _ has => ?_
      exact agrees_all calls env args (.call function) [] k trail' w has fun values k trail w has =>
        calls function values k trail w has
    | some form =>
      by_cases fits : Fits args form
      · cases form with
        | define =>
          obtain ⟨name, _, value, rfl⟩ := fits
          unfold solveNode eval
          simp only [special]
          exact (agrees_node calls env value _ trail w has).bind fun value w trail' _ has =>
            agrees_define has depth name value env
        | function =>
          obtain ⟨params, _, body, _, names, rfl, named⟩ := fits
          unfold solveNode eval
          simp only [special, named]
          exact agrees_closure has depth names body env
        | conditional =>
          obtain ⟨condition, consequent, alternative, rfl⟩ := fits
          unfold solveNode eval
          simp only [special]
          exact (agrees_node calls env condition _ trail w has).bind fun value w trail' _ has =>
            agrees_branch (agrees_node calls env consequent k trail' w has)
              (agrees_node calls env alternative k trail' w has) value
        | choice =>
          obtain ⟨first, second, rfl⟩ := fits
          unfold solveNode eval
          simp only [special]
          refine (agrees_node calls env first k (.retry second env k :: trail) w has).orElse
            (Store.le_refl _) fun b hb => ?_
          -- back at the choice, the definitions are those that were made before it
          have again := agrees_node calls env second k trail ⟨b, w.definitions⟩ (has.mono hb)
          exact (again.after_move.of_le (Nat.le_succ _)).of_base_le hb
        | and =>
          obtain ⟨left, right, rfl⟩ := fits
          unfold solveNode eval
          simp only [special]
          exact (agrees_node calls env left _ trail w has).bind fun value w trail' _ has =>
            agrees_join has .and (agrees_node calls env right _ trail' w has) value
        | or =>
          obtain ⟨left, right, rfl⟩ := fits
          unfold solveNode eval
          simp only [special]
          exact (agrees_node calls env left _ trail w has).bind fun value w trail' _ has =>
            agrees_join has .or (agrees_node calls env right _ trail' w has) value
      · rw [solveNode_malformed span env special fits, eval_malformed span env special fits]
        exact ⟨0, .refl _⟩

/-- The machine finds the values of nodes in order, and hands them to a goal. -/
theorem agrees_all (calls : CallsAgree depth) (env : Env) (nodes : List Node) (goal : Goal)
    (done : List Value) (k : Cont) (trail : Trail) (w : World) (has : w.base.Has w.definitions)
    {f : List Value → World → Answers Value}
    (follows : ∀ values k trail (w : World), w.base.Has w.definitions →
      Agrees k trail w.base w.definitions depth (f values w)
        (.next (.gather goal values k trail), w.store)) :
    Agrees k trail w.base w.definitions depth
      ((solveAll (call depth) depth env nodes w).bind fun values => f (done.reverse ++ values))
      (evalAll goal done nodes env k trail w.store) := by
  cases nodes with
  | nil =>
    rw [solveAll, one_bind, evalAll, List.append_nil]
    exact follows _ k trail w has
  | cons node nodes =>
    -- the values so far are kept in reverse by the machine
    rw [solveAll, Answers.bind_assoc, evalAll]
    refine (agrees_node calls env node _ trail w has).bind fun value w trail' _ has => ?_
    rw [Answers.bind_assoc]
    simp only [one_bind]
    have rest := agrees_all calls env nodes goal (value :: done) k trail' w has follows
    simp only [List.reverse_cons, List.append_assoc, List.singleton_append] at rest
    exact rest

/-- The machine finds the answers of statements in order. -/
theorem agrees_each (calls : CallsAgree depth) (env : Env) (statements : List Node) (k : Cont)
    (trail : Trail) (w : World) (has : w.base.Has w.definitions) :
    Agrees k trail w.base w.definitions depth (solveEach (call depth) depth env statements w)
      (evalSequence statements env k trail w.store) := by
  match statements with
  | [] => exact agrees_one has depth _
  | [last] => exact agrees_node calls env last k trail w has
  | first :: next :: others =>
    rw [solveEach, evalSequence]
    exact (agrees_node calls env first _ trail w has).bind fun _ w trail' _ has =>
      agrees_each calls env (next :: others) k trail' w has

end

/-- The machine finds the answers of calls, however deep they are nested. -/
theorem callsAgree (depth : Nat) : CallsAgree depth := by
  induction depth with
  | zero =>
    intro function args k trail w _
    exact ⟨_, .refl _⟩
  | succ depth ih =>
    intro function args k trail w has
    refine Agrees.after_move ?_
    unfold call bounce apply
    cases function with
    | closure c =>
      simp only
      by_cases fits : c.params.length = args.length
      · -- the frame of the call lasts, so it may as well be made before the definitions
        rw [if_pos fits, if_pos fits, World.store, Store.extend_withDefinitions _ has]
        have below := @Store.le_extend w.base c.env (c.params.zip args)
        let inside : World := { w with base := (w.base.extend c.env (c.params.zip args)).2 }
        have still : inside.base.Has inside.definitions := has.mono below
        exact (agrees_each ih _ c.body k trail inside still).of_base_le below
      · rw [if_neg fits, if_neg fits]
        exact ⟨0, .refl _⟩
    | primitive p =>
      simp only
      cases p.apply args with
      | ok value => exact agrees_one has depth value
      | error e => exact ⟨0, .refl _⟩
    | _ => exact ⟨0, .refl _⟩

/-- The machine, started with nothing to do and nothing to try, finds the answers of a node. -/
theorem agrees_solve (depth : Nat) (env : Env) (node : Node) (s : Store) :
    Agrees [] [] s [] depth (solve depth env node s) (eval node env [] [] s) :=
  agrees_node (callsAgree depth) env node [] [] ⟨s, []⟩ fun _ member => absurd member (by simp)

end Retrace.Machine
