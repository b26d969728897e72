/-
Every environment is one of a frame that exists, and leads to the global frame.

* `Store.Knows` — a store has the frame of an environment.
* `Store.Rooted` — every frame but the global one is inside a frame that was made before it.
* `Move.Within` and so on — the environments in what the machine has left to do.
* `Scoped` — a state whose environments have frames, in a store that is rooted.
* **`bounce_scoped`** — a move keeps a state scoped.
* **`lookup_global`** — a name that no other frame binds is looked up in the global one, from
  wherever the lookup begins.

Design notes: a new frame is put inside the environment of a function, and a function has the
environment in which it was evaluated. So it is enough that no environment comes from nowhere.
The environments of a lookup on its way are left out: nothing is made of them.
-/
import Retrace.Proofs.Machine.Naming

namespace Retrace

/-! ### Frames that exist -/

namespace Store

/-- The frame of an environment exists. -/
def Knows (s : Store) (env : Env) : Prop :=
  ∃ frame, s.frame? env = some frame

/-- Every frame but the global one is inside a frame with a smaller number. -/
def Rooted (global : Env) (s : Store) : Prop :=
  ∀ env frame, s.frame? env = some frame →
    env = global ∨ frame.parent < env.number ∧ s.Knows ⟨env.tree, frame.parent⟩

variable {s t : Store} {global env e : Env} {name : String} {value : Value} {bindings : Bindings}

theorem Knows.of_le (h : s.Knows env) (le : s ≤ t) : t.Knows env := by
  obtain ⟨frame, found⟩ := h
  exact ⟨frame, le env frame found⟩

/-- An environment with a frame has a number that was given, in a tree that exists. -/
theorem Knows.bounds (h : s.Knows env) : env.number ≤ s.created env ∧ env.tree < s.trees.size := by
  obtain ⟨frame, found⟩ := h
  unfold frame? at found
  split at found
  · cases found
  · next n number =>
    have small : n < s.created env := (Array.getElem?_eq_some_iff.mp found).1
    refine ⟨by omega, ?_⟩
    -- the tree has a frame, so there is one
    by_contra outside
    rw [created, framesOf, Array.getElem?_eq_none (by omega)] at small
    exact absurd small (Nat.not_lt_zero n)

theorem knows_update (f : Bindings → Bindings) : (s.update env f).Knows e ↔ s.Knows e := by
  unfold Knows
  rw [frame?_update]
  split
  · constructor
    · rintro ⟨_, found⟩
      obtain ⟨frame, found, _⟩ := Option.map_eq_some_iff.mp found
      exact ⟨frame, found⟩
    · rintro ⟨frame, found⟩
      exact ⟨_, congrArg (Option.map _) found⟩
  · exact Iff.rfl

/-- The frame that an extension makes exists. -/
theorem knows_extend (h : env.tree < s.trees.size) :
    (s.extend env bindings).2.Knows ⟨env.tree, s.created env + 1⟩ :=
  ⟨_, by rw [frame?_extend, if_pos ⟨rfl, h⟩]⟩

/-- Stores with the same frames are rooted in the same way. -/
theorem Rooted.congr (h : s.Rooted global) (frames : ∀ env, t.frame? env = s.frame? env) :
    t.Rooted global := by
  intro env frame found
  rw [frames] at found
  refine (h env frame found).imp_right fun inside => ⟨inside.1, ?_⟩
  obtain ⟨around, found⟩ := inside.2
  exact ⟨around, (frames _).trans found⟩

/-- A frame stays inside the same frame, whatever is bound in it. -/
theorem Rooted.update (h : s.Rooted global) (f : Bindings → Bindings) :
    (s.update env f).Rooted global := by
  intro e frame found
  obtain ⟨before, here, same⟩ :
      ∃ before, s.frame? e = some before ∧ frame.parent = before.parent := by
    rw [frame?_update] at found
    split at found
    · obtain ⟨before, here, rfl⟩ := Option.map_eq_some_iff.mp found
      exact ⟨before, here, rfl⟩
    · exact ⟨frame, found, rfl⟩
  rw [same, knows_update]
  exact h e before here

/-- A new frame is inside one that was there before. -/
theorem Rooted.extend (h : s.Rooted global) (known : s.Knows env) :
    (s.extend env bindings).2.Rooted global := by
  intro e frame found
  rw [frame?_extend] at found
  split at found
  · next new =>
    obtain rfl := Option.some.inj found
    obtain ⟨rfl, _⟩ := new
    exact .inr ⟨Nat.lt_succ_of_le known.bounds.1, known.of_le (le_extend bindings)⟩
  · refine (h e frame found).imp_right fun inside => ⟨inside.1, ?_⟩
    exact inside.2.of_le (le_extend bindings)

end Store

/-! ### Environments in values and tasks -/

/-- Every function in a value was made in an environment of some kind. -/
abbrev Value.Within (E : Env → Prop) (value : Value) : Prop :=
  value.Each fun c => E c.env

/-- Every function that is bound in a store was made in an environment of some kind. -/
abbrev Store.Within (E : Env → Prop) (s : Store) : Prop :=
  s.Each fun c => E c.env

namespace Machine

variable {E F : Env → Prop}

def Goal.Within (E : Env → Prop) : Goal → Prop
  | .list => True
  | .call function => function.Within E

/-- A task with environments of some kind. -/
def Task.Within (E : Env → Prop) : Task → Prop
  | .collect goal done _ env => goal.Within E ∧ (∀ value ∈ done, value.Within E) ∧ E env
  | .sequence _ _ env | .bind _ env | .choose _ _ env | .junction _ _ env | .operands _ env => E env
  | .check _ | .reject => True

/-- Tasks with environments of some kind. -/
def ContWithin (E : Env → Prop) (k : Cont) : Prop :=
  ∀ task ∈ k, task.Within E

/-- A choice with environments of some kind. -/
def Choice.Within (E : Env → Prop) : Choice → Prop
  | .undo _ env => E env
  | .retry _ env k => E env ∧ ContWithin E k
  | .plan _ => False

/-- Choices with environments of some kind. -/
def TrailWithin (E : Env → Prop) (trail : Trail) : Prop :=
  ∀ choice ∈ trail, choice.Within E

/-- A move with environments of some kind. -/
def Move.Within (E : Env → Prop) : Move → Prop
  | .deliver value k trail => value.Within E ∧ ContWithin E k ∧ TrailWithin E trail
  | .retreat trail => TrailWithin E trail
  | .seek _ _ k trail => ContWithin E k ∧ TrailWithin E trail
  | .gather goal values k trail =>
    goal.Within E ∧ (∀ value ∈ values, value.Within E) ∧ ContWithin E k ∧ TrailWithin E trail
  | .follow _ => False

/-- Where an evaluation stands, with environments of some kind. -/
def Promise.Within (E : Env → Prop) : Promise → Prop
  | .error _ => True
  | .done value _ => value.Within E
  | .next move => move.Within E

section

variable (le : ∀ env, E env → F env)

include le

theorem Goal.Within.mono {goal : Goal} (h : goal.Within E) : goal.Within F := by
  cases goal with
  | list => trivial
  | call function => exact Value.Each.mono (fun c => le c.env) h

theorem Task.Within.mono {task : Task} (h : task.Within E) : task.Within F := by
  cases task with
  | collect goal done todo env =>
    obtain ⟨hgoal, hdone, henv⟩ := h
    refine ⟨hgoal.mono le, fun value member => ?_, le env henv⟩
    exact (hdone value member).mono fun c => le c.env
  | sequence | bind | choose | junction | operands => exact le _ h
  | check | reject => trivial

theorem ContWithin.mono {k : Cont} (h : ContWithin E k) : ContWithin F k := by
  intro task member
  exact (h task member).mono le

theorem TrailWithin.mono {trail : Trail} (h : TrailWithin E trail) : TrailWithin F trail := by
  intro choice member
  have here := h choice member
  cases choice with
  | undo name env => exact le env here
  | retry node env k => exact ⟨le env here.1, here.2.mono le⟩
  | plan plan => exact here

theorem Move.Within.mono {move : Move} (h : move.Within E) : move.Within F := by
  cases move with
  | deliver value k trail =>
    exact ⟨Value.Each.mono (fun c => le c.env) h.1, h.2.1.mono le, h.2.2.mono le⟩
  | retreat trail => exact TrailWithin.mono le h
  | seek name env k trail => exact ⟨h.1.mono le, h.2.mono le⟩
  | gather goal values k trail =>
    obtain ⟨hgoal, hvalues, hk, ht⟩ := h
    refine ⟨hgoal.mono le, fun value member => ?_, hk.mono le, ht.mono le⟩
    exact (hvalues value member).mono fun c => le c.env
  | follow plan => exact h

end

/-! ### Moves -/

variable {k : Cont} {trail : Trail} {s t : Store} {env global : Env} {value : Value}

theorem contWithin_cons {task : Task} (here : task.Within E) (hk : ContWithin E k) :
    ContWithin E (task :: k) :=
  List.forall_mem_cons.mpr ⟨here, hk⟩

theorem trailWithin_cons {choice : Choice} (here : choice.Within E) (ht : TrailWithin E trail) :
    TrailWithin E (choice :: trail) :=
  List.forall_mem_cons.mpr ⟨here, ht⟩

theorem lookup_within (name : String) (env : Env) (hs : s.Within E) (hk : ContWithin E k)
    (ht : TrailWithin E trail) : (lookup name env k trail s).Within E := by
  unfold lookup
  cases here : s.frame? env with
  | none => trivial
  | some frame =>
    cases found : frame.bindings.lookup name with
    | none =>
      simp only [found]
      exact ⟨hk, ht⟩
    | some value =>
      simp only [found]
      exact ⟨(hs env frame here).lookup found, hk, ht⟩

theorem define_within (name : String) (he : E env) (hk : ContWithin E k)
    (ht : TrailWithin E trail) : (define name value env k trail s).1.Within E := by
  unfold define
  split
  · exact ⟨trivial, hk, ht⟩
  · split
    · trivial
    · exact ⟨trivial, hk, trailWithin_cons he ht⟩

/-- What the evaluation of a node begins with has the environments that it is given. -/
theorem eval_within (node : Node) (hs : s.Within E) (he : E env) (hk : ContWithin E k)
    (ht : TrailWithin E trail) : (eval node env k trail s).1.Within E := by
  fun_induction eval node env k trail s
  case case1 => exact ht
  case case2 => exact lookup_within _ _ hs hk ht
  case case3 => exact ⟨Value.each_ofLiteral _, hk, ht⟩
  case case4 => exact ⟨trivial, List.forall_mem_nil _, hk, ht⟩
  case case6 => exact ⟨trivial, hk, ht⟩
  -- a part that is evaluated at once leaves a task or a choice behind it
  case case5 ih => exact ih (contWithin_cons ⟨trivial, List.forall_mem_nil _, he⟩ hk) ht
  case case7 ih => exact ih hk ht
  case case8 ih | case9 ih | case14 ih | case18 ih | case20 ih | case22 ih =>
    exact ih (contWithin_cons he hk) ht
  case case16 ih => exact ih hk (trailWithin_cons ⟨he, hk⟩ ht)
  case case11 made =>
    obtain ⟨rfl, rfl⟩ := Prod.mk.inj made
    exact ⟨he, hk, ht⟩
  case case10 | case12 | case13 | case15 | case17 | case19 | case21 => trivial

theorem evalAll_within {goal : Goal} {done : List Value} (todo : List Node)
    (hgoal : goal.Within E) (hdone : ∀ value ∈ done, value.Within E) (hs : s.Within E) (he : E env)
    (hk : ContWithin E k) (ht : TrailWithin E trail) :
    (evalAll goal done todo env k trail s).1.Within E := by
  cases todo with
  | nil =>
    refine ⟨hgoal, fun value member => ?_, hk, ht⟩
    exact hdone value (List.mem_reverse.mp member)
  | cons node todo => exact eval_within node hs he (contWithin_cons ⟨hgoal, hdone, he⟩ hk) ht

theorem evalSequence_within (statements : List Node) (hs : s.Within E) (he : E env)
    (hk : ContWithin E k) (ht : TrailWithin E trail) :
    (evalSequence statements env k trail s).1.Within E := by
  rcases statements with _ | ⟨first, _ | ⟨next, others⟩⟩
  · exact ⟨trivial, hk, ht⟩
  · exact eval_within first hs he hk ht
  · exact eval_within first hs he (contWithin_cons he hk) ht

/-- The body of a function begins in the frame that is made for it. -/
theorem apply_within {function : Value} {args : List Value} (hfunction : function.Within E)
    (made : ∀ c, function = .closure c → c.params.length = args.length →
      E ⟨c.env.tree, s.created c.env + 1⟩)
    (hargs : ∀ arg ∈ args, arg.Within E) (hs : s.Within E) (hk : ContWithin E k)
    (ht : TrailWithin E trail) : (apply function args k trail s).1.Within E := by
  cases function with
  | closure c =>
    rw [apply]
    split
    · next fits =>
      have inside : (s.extend c.env (c.params.zip args)).2.Within E := by
        refine hs.extend fun binding member => ?_
        exact hargs _ (List.of_mem_zip member).2
      exact evalSequence_within c.body inside (made c rfl fits) hk ht
    · trivial
  | primitive p =>
    have results := p.apply_each hargs
    rw [apply]
    cases result : p.apply args with
    | ok value =>
      rw [result] at results
      exact ⟨results, hk, ht⟩
    | error e => trivial
  | int | str | bool | symbol | list => trivial

theorem fail_within (hs : s.Within E) (ht : TrailWithin E trail) :
    (fail trail s).1.Within E := by
  cases trail with
  | nil => trivial
  | cons choice trail =>
    obtain ⟨here, rest⟩ := List.forall_mem_cons.mp ht
    cases choice with
    | undo name env => exact rest
    | retry node env k => exact eval_within node hs here.1 here.2 rest
    | plan plan => exact absurd here id

theorem perform_within {task : Task} (htask : task.Within E) (hv : value.Within E)
    (hs : s.Within E) (hk : ContWithin E k) (ht : TrailWithin E trail) :
    (perform task value k trail s).1.Within E := by
  cases task with
  | collect goal done todo env =>
    obtain ⟨hgoal, hdone, he⟩ := htask
    exact evalAll_within todo hgoal (List.forall_mem_cons.mpr ⟨hv, hdone⟩) hs he hk ht
  | sequence next others env => exact evalSequence_within _ hs htask hk ht
  | bind name env => exact define_within name htask hk ht
  | choose consequent alternative env =>
    cases value with
    | bool b =>
      cases b with
      | true => exact eval_within consequent hs htask hk ht
      | false => exact eval_within alternative hs htask hk ht
    | int | str | symbol | list | closure | primitive => trivial
  | junction kind right env =>
    cases value with
    | bool b =>
      show Promise.Within E (if b = kind.decisive then _ else _ : Promise × Store).1
      split
      · exact ⟨trivial, hk, ht⟩
      · exact eval_within right hs htask (contWithin_cons trivial hk) ht
    | int | str | symbol | list | closure | primitive => trivial
  | check kind =>
    cases value with
    | bool b => exact ⟨trivial, hk, ht⟩
    | int | str | symbol | list | closure | primitive => trivial
  | operands args env => exact evalAll_within args hv nofun hs htask hk ht
  | reject => exact fail_within hs ht

/-- What a move leads to has the environments that it is given, and the one that it makes. -/
theorem bounce_within {move : Move} (hm : move.Within E) (hs : s.Within E)
    (made : ∀ c args k trail, move = .gather (.call (.closure c)) args k trail →
      c.params.length = args.length → E ⟨c.env.tree, s.created c.env + 1⟩) :
    (bounce move s).1.Within E := by
  cases move with
  | deliver value k trail =>
    obtain ⟨hv, hk, ht⟩ := hm
    cases k with
    | nil => exact hv
    | cons task k =>
      obtain ⟨htask, hk⟩ := List.forall_mem_cons.mp hk
      exact perform_within htask hv hs hk ht
  | retreat trail => exact fail_within hs hm
  | seek name env k trail => exact lookup_within name env hs hm.1 hm.2
  | gather goal values k trail =>
    obtain ⟨hgoal, hvalues, hk, ht⟩ := hm
    cases goal with
    | list => exact ⟨Value.eachAll_iff.mpr hvalues, hk, ht⟩
    | call function =>
      refine apply_within hgoal (fun c same => ?_) hvalues hs hk ht
      exact made c values k trail (by rw [same])
  | follow plan => exact absurd hm id

/-! ### States -/

/-- A state whose environments have frames, in a store where every frame leads to the global
one. -/
structure Scoped (global : Env) (c : Promise × Store) : Prop where
  promise : c.1.Within c.2.Knows
  store : c.2.Within c.2.Knows
  rooted : c.2.Rooted global

/-- No frame goes away. -/
theorem Reframes.knows {move : Move} (changed : Reframes s move t) (known : s.Knows env) :
    t.Knows env := by
  cases changed with
  | same frames =>
    obtain ⟨frame, found⟩ := known
    exact ⟨frame, (frames env).trans found⟩
  | bind | unbind => exact (Store.knows_update _).mpr known
  | extend frames =>
    obtain ⟨frame, found⟩ := known.of_le (Store.le_extend _)
    exact ⟨frame, (frames env).trans found⟩

/-- What is bound after a move was bound before, or is in the move. -/
theorem Reframes.within {move : Move} (changed : Reframes s move t) (hm : move.Within E)
    (hs : s.Within E) : t.Within E := by
  cases changed with
  | same frames =>
    intro env frame found
    exact hs env frame ((frames env).symm.trans found)
  | bind => exact hs.bind hm.1
  | unbind => exact hs.unbind
  | @extend c args k trail t frames =>
    intro env frame found
    refine hs.extend (fun binding member => ?_) env frame ((frames env).symm.trans found)
    exact hm.2.1 _ (List.of_mem_zip member).2

theorem Reframes.rooted {move : Move} (changed : Reframes s move t) (hm : move.Within s.Knows)
    (h : s.Rooted global) : t.Rooted global := by
  cases changed with
  | same frames => exact h.congr frames
  | bind | unbind => exact h.update _
  | extend frames =>
    -- the new frame is inside the environment of the function
    have around : s.Knows _ := hm.1
    exact (h.extend around).congr frames

/-- **A move keeps a state scoped.** -/
theorem bounce_scoped {move : Move} (h : Scoped global (.next move, s)) :
    Scoped global (bounce move s) := by
  obtain ⟨hm, hs, rooted⟩ := h
  have changed := bounce_reframes move s
  have still : ∀ env, s.Knows env → (bounce move s).2.Knows env := fun env => changed.knows
  have hm' : move.Within (bounce move s).2.Knows := Move.Within.mono still hm
  have hs' : s.Within (bounce move s).2.Knows := hs.mono fun c => still c.env
  refine ⟨bounce_within hm' hs' ?_, changed.within hm' hs', changed.rooted hm rooted⟩
  -- the frame of a function that is applied is there when its body begins
  rintro c args k trail rfl fits
  have around : s.Knows c.env := hm.1
  obtain ⟨frame, found⟩ := @Store.knows_extend s c.env (c.params.zip args) around.bounds.2
  refine ⟨frame, ?_⟩
  show (apply (.closure c) args k trail s).2.frame? _ = _
  rw [apply, if_pos fits]
  exact (evalSequence_frame? c.body _ _).trans found

/-- Moves keep a state scoped. -/
theorem scoped_of_steps {n : Nat} {a b : Promise × Store} (steps : Steps n a b)
    (h : Scoped global a) : Scoped global b := by
  induction steps with
  | refl => exact h
  | move _ ih => exact ih (bounce_scoped h)

/-- The evaluation of a node begins scoped. -/
theorem eval_scoped (node : Node) (hs : s.Within s.Knows) (rooted : s.Rooted global)
    (known : s.Knows env) : Scoped global (eval node env [] [] s) := by
  have frames := fun e => @eval_frame? s node env e [] []
  have same : (eval node env [] [] s).2.Knows = s.Knows := by
    funext e
    rw [Store.Knows, frames e, Store.Knows]
  refine ⟨?_, ?_, rooted.congr frames⟩
  · rw [same]
    exact eval_within node hs known (List.forall_mem_nil _) (List.forall_mem_nil _)
  · rw [same]
    intro e frame found
    exact hs e frame ((frames e).symm.trans found)

/-! ### Looking up -/

/-- **A name that no other frame binds is looked up in the global one**, from wherever the lookup
begins. -/
theorem lookup_global {name : String} (rooted : s.Rooted global)
    (bound : s.local? global name = some value)
    (free : ∀ e, e ≠ global → s.local? e name = none) (known : s.Knows env) (k : Cont)
    (trail : Trail) :
    ∃ n, Steps n (lookup name env k trail s, s) (deliver value k trail, s) := by
  induction number : env.number using Nat.strongRecOn generalizing env with
  | _ m ih =>
    obtain ⟨frame, found⟩ := known
    by_cases here : env = global
    · -- the global frame has the name
      subst here
      rw [Store.local?, found, Option.bind_some] at bound
      rw [lookup, found]
      simp only [bound]
      exact ⟨0, .refl _⟩
    · -- another frame does not have it, so the frame around it is next
      have unbound := free env here
      rw [Store.local?, found, Option.bind_some] at unbound
      obtain ⟨less, around⟩ := (rooted env frame found).resolve_left here
      obtain ⟨n, steps⟩ := ih frame.parent (number ▸ less) around rfl
      rw [lookup, found]
      simp only [unbound]
      exact ⟨n + 1, .move steps⟩

end Machine

end Retrace
