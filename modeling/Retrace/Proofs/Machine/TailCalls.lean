/-
Tail calls go on with the continuation of their caller.

* `Node.TailPart` — the parts of a node that are in tail position of it.
* `Site.node?` — the node that a site is the site of.
* `Site.Tail` — a node in tail position of the node that is followed, of the body of a function that
  such a node calls, and so on.
* `Phase.Sound` — sites name the nodes that are evaluated, and what goes on for a tail position goes
  on with the continuation that was there at the start.
* `step_sound` — this is kept by everything that is done.
* **`tail_calls_keep_continuation`** — in every run, nodes in tail position are evaluated with the
  continuation of the node, and so are the bodies of the functions that they call.

Design notes:
* A continuation could grow in a way that no result shows. So the claim is about the continuation
  at each beginning of an evaluation, and it takes sites to say which of them it is about.
* A task is left in front of the continuation that its node was evaluated with. That continuation is
  the rest of the list behind the task, wherever the list is kept, also in choices. The
  invariant is about that rest.
-/
import Retrace.Proofs.Machine.Sites

namespace Retrace

/-! ### Parts of nodes -/

namespace Node

/-- The nodes that a node has. -/
def parts : Node → List Node
  | atom _ _ => []
  | list items _ => items
  | block statements _ => statements
  | apply op args _ => op :: args

/-- The part of a node with a number of parts behind it. -/
def part? (node : Node) (behind : Nat) : Option Node :=
  node.parts.reverse[behind]?

/-- The parts in tail position: the last statement of a block, the second and the third argument of
`if`, and both of `then`. -/
inductive TailPart : Node → Nat → Prop
  | last {statements : List Node} {span : Span} (nonempty : statements ≠ []) :
      TailPart (.block statements span) 0
  | consequent {op condition consequent alternative : Node} {span : Span}
      (form : op.form? = some .conditional) :
      TailPart (.apply op [condition, consequent, alternative] span) 1
  | alternative {op condition consequent alternative : Node} {span : Span}
      (form : op.form? = some .conditional) :
      TailPart (.apply op [condition, consequent, alternative] span) 0
  | first {op first second : Node} {span : Span} (form : op.form? = some .choice) :
      TailPart (.apply op [first, second] span) 1
  | second {op first second : Node} {span : Span} (form : op.form? = some .choice) :
      TailPart (.apply op [first, second] span) 0

/-- Of the applications, only `if` and `then` have parts in tail position. -/
theorem not_tailPart {op : Node} {args : List Node} {span : Span} {behind : Nat}
    (other : op.form? ≠ some .conditional ∧ op.form? ≠ some .choice) :
    ¬TailPart (.apply op args span) behind := by
  intro tail
  cases tail with
  | consequent form | alternative form => exact other.1 form
  | first form | second form => exact other.2 form

theorem part?_append {node m : Node} (front behind : List Node)
    (parts : node.parts = front ++ m :: behind) : node.part? behind.length = some m := by
  simp [part?, parts]

end Node

namespace Machine

/-! ### Sites in tail position -/

namespace Site

/-- A site of the evaluation that is followed. -/
def Inside : Site → Prop
  | .outside => False
  | .start => True
  | .part site _ | .body site _ => site.Inside

/-- The node that a site is the site of, when the evaluation of a node is followed. -/
def node? (followed : Node) : Site → Option Node
  | .outside => none
  | .start => some followed
  | .part site behind => (site.node? followed).bind (·.part? behind)
  | .body site function => (site.node? followed).map fun _ => .block function.body default

/-- A node in tail position: the node that is followed, the parts in tail position of a node in tail
position, and the body of a function that an application in tail position calls. -/
inductive Tail (followed : Node) : Site → Prop
  | start : Tail followed .start
  | part {site : Site} {node : Node} {behind : Nat} (around : Tail followed site)
      (here : site.node? followed = some node) (tail : node.TailPart behind) :
      Tail followed (.part site behind)
  | body {site : Site} {op : Node} {args : List Node} {span : Span} {function : Closure}
      (around : Tail followed site) (here : site.node? followed = some (.apply op args span)) :
      Tail followed (.body site function)

theorem Tail.inside {followed : Node} {site : Site} (h : site.Tail followed) : site.Inside := by
  induction h with
  | start => trivial
  | part _ _ _ ih | body _ _ ih => exact ih

end Site

/-! ### What holds of every phase -/

/-- What a node has its parts collected for, when some are left. -/
def Goal.LeftBy (node : Node) (todo : List Node) : Goal → Prop
  | .list => ∃ items span, node = .list items span ∧ todo <:+ items
  | .call _ => ∃ op args span, node = .apply op args span ∧ op.form? = none ∧ todo <:+ args

/-- What the evaluation of a node leaves to be done for it. -/
def Task.LeftBy (node : Node) : Task → Prop
  | .collect goal _ todo _ => goal.LeftBy node todo
  | .operands args _ => ∃ op span, node = .apply op args span ∧ op.form? = none
  | .sequence next others _ => ∃ statements span, node = .block statements span ∧
      next :: others <:+ statements
  | .choose consequent alternative _ => ∃ op condition span,
      node = .apply op [condition, consequent, alternative] span ∧ op.form? = some .conditional
  | .junction _ right _ => ∃ op left span, node = .apply op [left, right] span ∧
      (op.form? = some .and ∨ op.form? = some .or)
  | .bind .. | .check _ | .reject => True

section

variable (followed : Node) (base : SitedCont)

/-- A node has the site that names it, and in tail position the continuation of the start. -/
def At (site : Site) (node : Node) (k : SitedCont) : Prop :=
  site.node? followed = some node ∧ (site.Tail followed → k = base)

/-- Every task was left by the node at its site, in front of the continuation of that node. -/
def ContSound : SitedCont → Prop
  | [] => True
  | sited :: k =>
    (sited.site.Inside → ∃ node, sited.task.LeftBy node ∧ At followed base sited.site node k) ∧
      ContSound k

def SitedChoice.Sound : SitedChoice → Prop
  | .retry node _ site k =>
    (site.Inside → At followed base site node k) ∧ ContSound followed base k
  | .undo .. | .plan _ => True

def TrailSound (trail : SitedTrail) : Prop :=
  ∀ choice ∈ trail, choice.Sound followed base

/-- Sites name the nodes that are evaluated, and what goes on for a node in tail position goes on
with the continuation of the start. -/
def Phase.Sound : Phase → Prop
  | .evaluate node _ site k trail =>
    (site.Inside → At followed base site node k) ∧ ContSound followed base k ∧
      TrailSound followed base trail
  | .gather goal _ site k trail =>
    (site.Inside → ∃ node, goal.LeftBy node [] ∧ At followed base site node k) ∧
      ContSound followed base k ∧ TrailSound followed base trail
  | .deliver _ k trail | .seek _ _ k trail =>
    ContSound followed base k ∧ TrailSound followed base trail
  | .retreat trail => TrailSound followed base trail
  | .bare _ => True

end

variable {followed node m : Node} {base k k' : SitedCont} {trail : SitedTrail} {site : Site}
  {behind : Nat} {env : Env} {s : Store} {task : Task}

/-! ### Parts of what is sound -/

/-- A part is evaluated for its node: in tail position with the continuation of the node, elsewhere
with any. -/
theorem At.part (h : At followed base site node k) (part : node.part? behind = some m)
    (same : node.TailPart behind → k' = k) : At followed base (.part site behind) m k' := by
  refine ⟨by rw [Site.node?, h.1, Option.bind_some, part], fun tail => ?_⟩
  cases tail with
  | part around here tail =>
    obtain rfl := Option.some.inj (h.1.symm.trans here)
    rw [same tail, h.2 around]

theorem contSound_outside (inner : Cont) (hk : ContSound followed base k) :
    ContSound followed base (contOutside inner ++ k) := by
  induction inner with
  | nil => exact hk
  | cons task inner ih => exact ⟨False.elim, ih⟩

theorem trailSound_outside (inner : Trail) (hk : ContSound followed base k)
    (ht : TrailSound followed base trail) :
    TrailSound followed base (inner.map (·.outside k) ++ trail) := by
  intro choice member
  obtain new | old := List.mem_append.mp member
  · obtain ⟨choice, _, rfl⟩ := List.mem_map.mp new
    cases choice with
    | undo | plan => trivial
    | retry node env inner => exact ⟨False.elim, contSound_outside inner hk⟩
  · exact ht choice old

/-- What the evaluation machine does in front of what is sound is sound. -/
theorem before_sound (c : Promise × Store) (hk : ContSound followed base k)
    (ht : TrailSound followed base trail) : (stateBefore k trail c).1.Sound followed base := by
  obtain ⟨promise, s⟩ := c
  cases promise with
  | error | done => trivial
  | next move =>
    cases move with
    | deliver value inner choices | seek name env inner choices =>
      exact ⟨contSound_outside inner hk, trailSound_outside choices hk ht⟩
    | retreat choices => exact trailSound_outside choices hk ht
    | gather goal values inner choices =>
      exact ⟨False.elim, contSound_outside inner hk, trailSound_outside choices hk ht⟩
    | follow plan => trivial

/-! ### What is done keeps this -/

/-- What the opening of a node says of its parts. -/
def Opening.Of (node : Node) : Opening → Prop
  | .items inner => ∃ span, node = .list inner span
  | .part behind first task =>
    node.part? behind = some first ∧ ¬node.TailPart behind ∧ task.LeftBy node
  | .last m => node.part? 0 = some m
  | .choice first second => node.part? 1 = some first ∧ node.part? 0 = some second
  | .direct => True

theorem opening_of (node : Node) (env : Env) : (opening node env).Of node := by
  fun_cases opening node env
  case case1 items span => exact ⟨span, rfl⟩
  case case2 last span => rfl
  case case3 first next others span =>
    exact ⟨Node.part?_append [] (next :: others) rfl, by rintro ⟨⟩, _, span, rfl,
      List.suffix_cons _ _⟩
  case case4 special => exact ⟨rfl, Node.not_tailPart (by rw [special]; decide), trivial⟩
  case case5 special => exact ⟨rfl, by rintro ⟨⟩, _, _, _, rfl, special⟩
  case case6 => exact ⟨rfl, rfl⟩
  case case7 special =>
    exact ⟨rfl, Node.not_tailPart (by rw [special]; decide), _, _, _, rfl, .inl special⟩
  case case8 special =>
    exact ⟨rfl, Node.not_tailPart (by rw [special]; decide), _, _, _, rfl, .inr special⟩
  case case9 special =>
    exact ⟨Node.part?_append [] _ rfl,
      Node.not_tailPart (by rw [special]; decide), _, _, rfl, special⟩
  case case10 | case11 => trivial

/-- What is left by a list or an application goes on with its parts, none of which is in tail
position. -/
theorem collect_sound {goal : Goal} {done : List Value} {todo : List Node}
    (left : site.Inside → ∃ node, goal.LeftBy node todo ∧ At followed base site node k)
    (hk : ContSound followed base k) (ht : TrailSound followed base trail) :
    (collect goal done todo env site k trail).Sound followed base := by
  cases todo with
  | nil => exact ⟨left, hk, ht⟩
  | cons m todo =>
    refine ⟨fun inside => ?_, ⟨fun inside => ?_, hk⟩, ht⟩
    · obtain ⟨node, left, here⟩ := left inside
      cases goal with
      | list =>
        obtain ⟨items, span, rfl, front, rfl⟩ := left
        exact here.part (Node.part?_append _ _ rfl) (by rintro ⟨⟩)
      | call function =>
        obtain ⟨op, args, span, rfl, plain, front, rfl⟩ := left
        exact here.part (Node.part?_append (op :: front) _ rfl) fun tail =>
          absurd tail (Node.not_tailPart (by rw [plain]; decide))
    · obtain ⟨node, left, here⟩ := left inside
      refine ⟨node, ?_, here⟩
      cases goal with
      | list =>
        obtain ⟨items, span, rfl, rest⟩ := left
        exact ⟨items, span, rfl, (List.suffix_cons m todo).trans rest⟩
      | call function =>
        obtain ⟨op, args, span, rfl, plain, rest⟩ := left
        exact ⟨op, args, span, rfl, plain, (List.suffix_cons m todo).trans rest⟩

theorem goOn_sound {next : Node} {others : List Node}
    (left : site.Inside → ∃ node, (Task.sequence next others env).LeftBy node ∧
      At followed base site node k)
    (hk : ContSound followed base k) (ht : TrailSound followed base trail) :
    (goOn next others env site k trail).Sound followed base := by
  cases others with
  | nil =>
    refine ⟨fun inside => ?_, hk, ht⟩
    obtain ⟨node, ⟨statements, span, rfl, front, rfl⟩, here⟩ := left inside
    exact here.part (Node.part?_append _ [] rfl) fun _ => rfl
  | cons after others =>
    refine ⟨fun inside => ?_, ⟨fun inside => ?_, hk⟩, ht⟩
    · obtain ⟨node, ⟨statements, span, rfl, front, rfl⟩, here⟩ := left inside
      exact here.part (Node.part?_append _ (after :: others) rfl) (by rintro ⟨⟩)
    · obtain ⟨node, ⟨statements, span, rfl, rest⟩, here⟩ := left inside
      exact ⟨_, ⟨statements, span, rfl, (List.suffix_cons next _).trans rest⟩, here⟩

theorem begin_sound (here : site.Inside → At followed base site node k)
    (hk : ContSound followed base k) (ht : TrailSound followed base trail) :
    (begin node env site k trail s).1.Sound followed base := by
  have parts := opening_of node env
  unfold begin
  generalize opening node env = opened at parts
  cases opened with
  | items items =>
    obtain ⟨span, rfl⟩ := parts
    refine collect_sound (fun inside => ?_) hk ht
    exact ⟨_, ⟨items, span, rfl, List.suffix_refl _⟩, here inside⟩
  | part behind first task =>
    obtain ⟨part, notTail, left⟩ := parts
    refine ⟨fun inside => (here inside).part part fun tail => absurd tail notTail, ⟨?_, hk⟩, ht⟩
    exact fun inside => ⟨node, left, here inside⟩
  | last m => exact ⟨fun inside => (here inside).part parts fun _ => rfl, hk, ht⟩
  | choice first second =>
    refine ⟨fun inside => (here inside).part parts.1 fun _ => rfl, hk, ?_⟩
    refine List.forall_mem_cons.mpr ⟨⟨?_, hk⟩, ht⟩
    exact fun inside => (here inside).part parts.2 fun _ => rfl
  | direct => exact before_sound _ hk ht

theorem back_sound (ht : TrailSound followed base trail) :
    (back trail s).1.Sound followed base := by
  rcases trail with _ | ⟨choice, trail⟩
  · trivial
  · obtain ⟨here, rest⟩ := List.forall_mem_cons.mp ht
    cases choice with
    | undo name env => exact rest
    | retry node env site k => exact ⟨here.1, here.2, rest⟩
    | plan plan => trivial

theorem act_sound {value : Value}
    (left : site.Inside → ∃ node, task.LeftBy node ∧ At followed base site node k)
    (hk : ContSound followed base k) (ht : TrailSound followed base trail) :
    (act task site value k trail s).1.Sound followed base := by
  fun_cases act task site value k trail s
  case case1 goal done todo env => exact collect_sound left hk ht
  case case2 args env =>
    refine collect_sound (fun inside => ?_) hk ht
    obtain ⟨node, ⟨op, span, rfl, plain⟩, here⟩ := left inside
    exact ⟨_, ⟨op, args, span, rfl, plain, List.suffix_refl _⟩, here⟩
  case case3 next others env => exact goOn_sound left hk ht
  case case4 | case5 =>
    refine ⟨fun inside => ?_, hk, ht⟩
    obtain ⟨node, ⟨op, condition, span, rfl, form⟩, here⟩ := left inside
    exact here.part rfl fun _ => rfl
  case case6 => exact ⟨hk, ht⟩
  case case7 kind right env b further =>
    refine ⟨fun inside => ?_, ⟨fun inside => ?_, hk⟩, ht⟩
    · obtain ⟨node, ⟨op, left, span, rfl, form⟩, here⟩ := left inside
      refine here.part rfl fun tail => absurd tail ?_
      rcases form with form | form <;> exact Node.not_tailPart (by rw [form]; decide)
    · obtain ⟨node, _, here⟩ := left inside
      exact ⟨node, trivial, here⟩
  case case8 => exact back_sound ht
  case case9 => exact before_sound _ hk ht

theorem call_sound {function : Value} {values : List Value}
    (left : site.Inside → ∃ node, (Goal.call function).LeftBy node [] ∧
      At followed base site node k)
    (hk : ContSound followed base k) (ht : TrailSound followed base trail) :
    (call function values site k trail s).1.Sound followed base := by
  fun_cases call function values site k trail s
  case case1 c enough env t made =>
    refine ⟨fun inside => ?_, hk, ht⟩
    obtain ⟨node, _, here⟩ := left inside
    refine ⟨by rw [Site.node?, here.1, Option.map_some], fun tail => ?_⟩
    cases tail with
    | body around _ => exact here.2 around
  case case2 => exact before_sound _ hk ht
  case case3 => exact before_sound _ hk ht

/-- **Everything that is done keeps this.** -/
theorem step_sound {c : Phase × Store} (h : c.1.Sound followed base) :
    (step c).1.Sound followed base := by
  obtain ⟨phase, s⟩ := c
  cases phase with
  | evaluate node env site k trail => exact begin_sound h.1 h.2.1 h.2.2
  | gather goal values site k trail =>
    cases goal with
    | list => exact h.2
    | call function => exact call_sound h.1 h.2.1 h.2.2
  | deliver value k trail =>
    cases k with
    | nil => trivial
    | cons sited k => exact act_sound h.1.1 h.1.2 h.2
  | retreat trail => exact back_sound h
  | seek name env k trail => exact before_sound (lookup name env [] [] s, s) h.1 h.2
  | bare promise => cases promise <;> trivial

theorem iterate_sound {c : Phase × Store} (h : c.1.Sound followed base) (i : Nat) :
    (step^[i] c).1.Sound followed base := by
  induction i with
  | zero => exact h
  | succ i ih =>
    rw [Function.iterate_succ_apply']
    exact step_sound ih

/-- **Tail calls go on with the continuation of their caller.** The run with sites of the evaluation of
a node is the run of the evaluation machine. In it, every node is evaluated at the site that names
it. A node in tail position is evaluated with exactly the continuation that the node was to be
evaluated with, and so is the body of every function that an application in tail position calls,
which is in tail position itself: chains of such calls may be of any length. -/
theorem tail_calls_keep_continuation (node : Node) (env : Env) (k : Cont) (trail : Trail)
    (s : Store) :
    let run := fun i =>
      step^[i] (.evaluate node env .start (contOutside k) (trailOutside trail), s)
    (∀ i, ∃ n, Steps n (eval node env k trail s) (forget (run i))) ∧
    (∀ n state, Steps n (eval node env k trail s) state → ∃ i, forget (run i) = state) ∧
    (∀ i m e site k' trail' t, run i = (.evaluate m e site k' trail', t) → site.Inside →
      site.node? node = some m) ∧
    (∀ i m e site k' trail' t, run i = (.evaluate m e site k' trail', t) → site.Tail node →
      forgetCont k' = k) ∧
    (∀ i c values site k' trail' t, run i = (.gather (.call (.closure c)) values site k' trail', t) →
      site.Tail node → forgetCont k' = k ∧ (Site.body site c).Tail node ∧
      (c.params.length = values.length → ∃ e u,
        run (i + 1) = (.evaluate (.block c.body default) e (.body site c) k' trail', u))) := by
  intro run
  have start : forget (.evaluate node env .start (contOutside k) (trailOutside trail), s) =
      eval node env k trail s := by
    rw [forget, forgetCont_outside, forgetTrail_outside]
  have outside : ContSound node (contOutside k) (contOutside k) := by
    have empty : ContSound node (contOutside k) (contOutside k ++ []) := contSound_outside k trivial
    rwa [List.append_nil] at empty
  have sound (i) : (run i).1.Sound node (contOutside k) := by
    refine iterate_sound (c := (.evaluate _ _ _ _ _, _))
      ⟨fun _ => ⟨rfl, fun _ => rfl⟩, outside, ?_⟩ i
    have empty : TrailSound node (contOutside k) (trailOutside trail ++ []) :=
      trailSound_outside trail trivial (List.forall_mem_nil _)
    rwa [List.append_nil] at empty
  refine ⟨fun i => ?_, fun n state steps => ?_, ?_, ?_, ?_⟩
  · rw [← start]
    exact steps_of_iterate _ i
  · rw [← start] at steps
    exact iterate_of_steps steps
  · intro i m e site k' trail' t here inside
    have holds := sound i
    rw [here] at holds
    exact (holds.1 inside).1
  · intro i m e site k' trail' t here tail
    have holds := sound i
    rw [here] at holds
    rw [(holds.1 tail.inside).2 tail, forgetCont_outside]
  · intro i c values site k' trail' t here tail
    have holds := sound i
    rw [here] at holds
    obtain ⟨_, ⟨op, args, span, rfl, _⟩, caller⟩ := holds.1 tail.inside
    refine ⟨by rw [caller.2 tail, forgetCont_outside], .body tail caller.1, fun enough => ?_⟩
    have next : run (i + 1) = step (run i) := Function.iterate_succ_apply' _ _ _
    rw [next, here, step, call, if_pos enough]
    exact ⟨_, _, rfl⟩

/-- The call of a function that calls itself. -/
def callOfLoop : Node :=
  .apply (.symbol "loop" default) [] default

/-- A function that calls itself. -/
def loop : Closure :=
  ⟨0, [], [callOfLoop], ⟨0, 1⟩⟩

/-- The second call of a function that calls itself goes on with the continuation of the first. -/
theorem tail_calls_keep_continuation_loop :
    let s := (Store.empty.addRoot.2.extend ⟨0, 0⟩ [("loop", .closure loop)]).2
    ∃ i e k' t, step^[i] (.evaluate callOfLoop ⟨0, 1⟩ .start (contOutside [.check .and]) [], s) =
        (.evaluate (.block loop.body default) e (.body (.part (.body .start loop) 0) loop) k' [], t) ∧
      forgetCont k' = [.check .and] := by
  intro s
  have tail : (Site.body (.part (.body .start loop) 0) loop).Tail callOfLoop :=
    .body (.part (.body .start rfl) rfl (.last (List.cons_ne_nil _ _))) rfl
  obtain ⟨_, _, _, same, _⟩ :=
    tail_calls_keep_continuation callOfLoop ⟨0, 1⟩ [.check .and] [] s
  exact ⟨10, ⟨0, 3⟩, _, _, rfl, same 10 _ _ _ _ _ _ rfl tail⟩

end Machine

end Retrace
