/-
Frames are numbered in the order in which they are made.

* `Path.number_pairwise`, `Path.envText_eq` — from a frame outwards the numbers fall, and an
  environment is shown as these numbers.
* `present_addRoot`, `present_extend` — which environments there are after a new tree, and after a
  new frame.
* `Machine.History` — new trees, new frames and evaluations in any order, with all environments
  that were made and all promises that evaluations came to.
* `Machine.Recorded` — the environments that were made are those that there are, and the frames of
  every tree have the numbers from one on.
* `Recorded.reshaped` — a move keeps this.
* **`frames_numbered_in_order`** — the frames of every tree are numbered in the order in which they
  were made, and every walk outwards ends at the root of its tree.

Design notes: an evaluation is not run to its end. Each of its moves is a step of the history, and
between two of them anything else can be done. So evaluations that fail, that go back or that are
given up need no case of their own. Environments come from nowhere but from the history: those that
an evaluation is given, and those in the values that a frame is given, were made before.
-/
import Retrace.Proofs.Machine.Lookup

namespace Retrace

namespace Store

variable {s t : Store} {env e root : Env} {frames : List Env} {bindings : Bindings}

/-! ### Numbers on a path -/

namespace Path

/-- A path leads to the root of its tree. -/
theorem root_eq (path : s.Path env frames root) : root = ⟨env.tree, 0⟩ := by
  induction path with
  | @root root h =>
    obtain ⟨tree, number⟩ := root
    obtain rfl : number = 0 := eq_of_beq h
    rfl
  | frame _ _ _ ih => exact ih

theorem number_le (path : s.Path env frames root) :
    ∀ e ∈ frames ++ [root], e.number ≤ env.number := by
  induction path with
  | root => exact List.forall_mem_singleton.mpr (Nat.le_refl _)
  | frame _ inside _ ih =>
    refine List.forall_mem_cons.mpr ⟨Nat.le_refl _, fun e member => ?_⟩
    exact (ih e member).trans inside.le

/-- From a frame outwards the numbers fall. -/
theorem number_pairwise (path : s.Path env frames root) :
    ((frames ++ [root]).map (·.number)).Pairwise (· > ·) := by
  induction path with
  | root => exact List.pairwise_singleton _ _
  | frame _ inside rest ih =>
    refine List.pairwise_cons.mpr ⟨List.forall_mem_map.mpr fun e member => ?_, ih⟩
    exact Nat.lt_of_le_of_lt (rest.number_le e member) inside

/-- An environment is shown as the numbers on its path. -/
theorem envText_eq (path : s.Path env frames root) :
    s.envText env = " -> ".intercalate
      (((frames ++ [root]).map (·.number)).map fun n => "<" ++ toString n ++ ">") := by
  rw [envText, path.chain_eq, List.map_map]
  rfl

end Path

/-! ### Environments that there are -/

theorem present_congr (trees : t.trees = s.trees) : t.Present e ↔ s.Present e := by
  unfold Present Knows
  rw [frame?_congr trees, trees]

theorem present_update (f : Bindings → Bindings) :
    (s.update env f).Present e ↔ s.Present e := by
  rw [Present, knows_update, trees_size_update, Present]

theorem Orderly.congr (h : s.Orderly) (trees : t.trees = s.trees) : t.Orderly where
  names e frame found := h.names e frame ((frame?_congr trees e).symm.trans found)
  around e frame found := by
    rw [present_congr trees]
    exact h.around e frame ((frame?_congr trees e).symm.trans found)

/-- A new tree has a root that was not there before. -/
theorem not_present_addRoot : ¬s.Present s.addRoot.1 :=
  fun present => Nat.lt_irrefl _ present.bounds.2

theorem present_addRoot : s.addRoot.2.Present e ↔ s.Present e ∨ e = s.addRoot.1 := by
  have size : s.addRoot.2.trees.size = s.trees.size + 1 := Array.size_push _
  unfold Present Knows
  rw [frame?_addRoot, size, or_assoc]
  refine or_congr_right ?_
  constructor
  · rintro ⟨root, small⟩
    rcases Nat.lt_succ_iff_lt_or_eq.mp small with old | new
    · exact .inl ⟨root, old⟩
    · obtain ⟨tree, number⟩ := e
      obtain rfl : number = 0 := eq_of_beq root
      exact .inr (congrArg (Env.mk · 0) new)
  · rintro (⟨root, small⟩ | rfl)
    · exact ⟨root, Nat.lt_succ_of_lt small⟩
    · exact ⟨rfl, Nat.lt_succ_self _⟩

/-- A new frame has a number that was not given before. -/
theorem not_present_extend : ¬s.Present (s.extend env bindings).1 :=
  fun present => Nat.lt_irrefl _ present.bounds.1

theorem present_extend (exists_tree : env.tree < s.trees.size) :
    (s.extend env bindings).2.Present e ↔ s.Present e ∨ e = (s.extend env bindings).1 := by
  unfold Present Knows
  rw [frame?_extend, trees_size_extend, extend_env]
  split
  · next new => simp [new.1]
  · next other =>
    have different : e ≠ ⟨env.tree, s.created env + 1⟩ := fun same => other ⟨same, exists_tree⟩
    rw [or_iff_left different]

end Store

namespace Machine

/-! ### Histories -/

/-- What was done so far: all environments that were made, the first one first, all promises that
evaluations came to, and the store. New trees, new frames, evaluations that begin and moves of those
that have begun follow each other in any order. -/
inductive History : List Env → List Promise → Store → Prop
  | start : History [] [] .empty
  | root {made promises s} (before : History made promises s) :
      History (made ++ [s.addRoot.1]) promises s.addRoot.2
  | extended {made promises s env bindings} (before : History made promises s) (here : env ∈ made)
      (values : ∀ binding ∈ bindings, binding.2.Within (· ∈ made)) :
      History (made ++ [(s.extend env bindings).1]) promises (s.extend env bindings).2
  | begun {made promises s node env k trail} (before : History made promises s) (here : env ∈ made)
      (hk : ContWithin (· ∈ made) k) (ht : TrailWithin (· ∈ made) trail) :
      History made (promises ++ [(eval node env k trail s).1]) (eval node env k trail s).2
  | moved {made promises s move} (before : History made promises s)
      (stood : .next move ∈ promises) :
      History (made ++ (move.makes s).toList) (promises ++ [(bounce move s).1]) (bounce move s).2

/-- The frames among some environments that are under a root. -/
def framesUnder (root : Env) (made : List Env) : List Env :=
  made.filter fun env => env.tree == root.tree && !env.isRoot

/-- The environments that were made are those that there are, each once, and the frames under every
root have the numbers from one on. No other environment is known to the store or to a promise. -/
structure Recorded (made : List Env) (promises : List Promise) (s : Store) : Prop where
  present env : s.Present env ↔ env ∈ made
  once : made.Nodup
  numbers root : (framesUnder root made).map (·.number) = List.range' 1 (s.created root)
  orderly : s.Orderly
  values : s.Within (· ∈ made)
  promises promise (h : promise ∈ promises) : promise.Within (· ∈ made)

variable {made : List Env} {promises promises' : List Promise} {s t : Store} {env root : Env}
  {bindings : Bindings} {move : Move}

theorem Promise.Within.mono {E F : Env → Prop} (le : ∀ env, E env → F env) {promise : Promise}
    (h : promise.Within E) : promise.Within F := by
  cases promise with
  | error e => trivial
  | done value trail => exact Value.Each.mono (fun c => le c.env) h
  | next move => exact Move.Within.mono le h

namespace Recorded

theorem start : Recorded [] [] .empty where
  present env := by
    refine iff_of_false (fun present => ?_) List.not_mem_nil
    exact Nat.not_lt_zero _ present.bounds.2
  once := .nil
  numbers root := by simp [framesUnder]
  orderly := .empty
  values env frame found := by simp at found
  promises := nofun

/-- Promises that evaluations came to stay. -/
theorem promises_concat (h : Recorded made promises s) {more : List Env} {promise : Promise}
    (here : promise.Within (· ∈ made ++ more)) :
    ∀ other ∈ promises ++ [promise], other.Within (· ∈ made ++ more) := by
  refine List.forall_mem_append.mpr ⟨fun other member => ?_, List.forall_mem_singleton.mpr here⟩
  exact (h.promises other member).mono fun _ => List.mem_append_left more

/-- An environment that was not there is made once. -/
theorem once_concat (h : Recorded made promises s) (fresh : ¬s.Present env) :
    (made ++ [env]).Nodup :=
  h.once.append (List.nodup_singleton _) (List.disjoint_singleton.mpr ((h.present env).not.mp fresh))

/-- No environment is new. -/
theorem same (h : Recorded made promises s) (present : ∀ env, t.Present env ↔ s.Present env)
    (created : ∀ env, t.created env = s.created env) (orderly : t.Orderly)
    (values : t.Within (· ∈ made)) (within : ∀ promise ∈ promises', promise.Within (· ∈ made)) :
    Recorded made promises' t where
  present env := (present env).trans (h.present env)
  once := h.once
  numbers root := by rw [created, h.numbers]
  orderly := orderly
  values := values
  promises := within

theorem addRoot (h : Recorded made promises s) :
    Recorded (made ++ [s.addRoot.1]) promises s.addRoot.2 where
  present env := by rw [Store.present_addRoot, h.present, List.mem_append, List.mem_singleton]
  once := h.once_concat Store.not_present_addRoot
  numbers root := by
    -- the new environment is no frame
    have none_more : framesUnder root (made ++ [s.addRoot.1]) = framesUnder root made := by
      rw [framesUnder, List.filter_append]
      simp [framesUnder, Store.addRoot, Env.isRoot]
    rw [none_more, Store.created_addRoot, h.numbers]
  orderly := h.orderly.addRoot
  values env frame found := by
    rw [Store.frame?_addRoot] at found
    exact fun binding member => Value.Each.mono (fun c => List.mem_append_left _)
      (h.values env frame found binding member)
  promises promise member := (h.promises promise member).mono fun _ => List.mem_append_left _

/-- One frame is new, and has the next number of its tree. -/
theorem extend (h : Recorded made promises s) (here : env ∈ made)
    (trees : t.trees = (s.extend env bindings).2.trees)
    (values : t.Within (· ∈ made ++ [(s.extend env bindings).1]))
    (within : ∀ promise ∈ promises', promise.Within (· ∈ made ++ [(s.extend env bindings).1])) :
    Recorded (made ++ [(s.extend env bindings).1]) promises' t where
  present e := by
    have exists_tree := ((h.present env).mpr here).bounds.2
    rw [Store.present_congr trees, Store.present_extend exists_tree, h.present, List.mem_append,
      List.mem_singleton]
  once := h.once_concat Store.not_present_extend
  numbers root := by
    have exists_tree := ((h.present env).mpr here).bounds.2
    rw [Store.created_congr trees, Store.created_extend, framesUnder, List.filter_append,
      List.map_append]
    have before := h.numbers root
    rw [framesUnder] at before
    rw [before]
    by_cases under : root.tree = env.tree
    · have same : s.created root = s.created env := by
        rw [Store.created, Store.framesOf, under]
        rfl
      rw [if_pos ⟨under, exists_tree⟩, List.range'_1_concat, same]
      simp [under, Env.isRoot, Nat.add_comm]
    · rw [if_neg fun both => under both.1]
      simp [Ne.symm under]
  orderly := (h.orderly.extend ((h.present env).mpr here)).congr trees
  values := values
  promises := within

/-- **A move keeps the record**: it makes no environment, or the next frame of a tree. -/
theorem reshaped {new : Option Env} (h : Recorded made promises s) (changed : Reshapes s move new t)
    (hm : move.Within (· ∈ made)) (values : t.Within (· ∈ made ++ new.toList))
    (within : ∀ promise ∈ promises', promise.Within (· ∈ made ++ new.toList)) :
    Recorded (made ++ new.toList) promises' t := by
  cases changed with
  | same trees =>
    simp only [Option.toList_none, List.append_nil] at values within ⊢
    exact h.same (fun _ => Store.present_congr trees) (Store.created_congr trees)
      (h.orderly.congr trees) values within
  | bind =>
    simp only [Option.toList_none, List.append_nil] at values within ⊢
    exact h.same (fun _ => Store.present_update _) (fun _ => Store.created_update _)
      (h.orderly.update fun _ => Bindings.nodup_put) values within
  | unbind =>
    simp only [Option.toList_none, List.append_nil] at values within ⊢
    exact h.same (fun _ => Store.present_update _) (fun _ => Store.created_update _)
      (h.orderly.update fun _ => Bindings.nodup_remove) values within
  | extend trees => exact h.extend hm.1 trees values within

/-- An evaluation that begins makes no environment. -/
theorem begun {node : Node} {k : Cont} {trail : Trail} (h : Recorded made promises s)
    (here : env ∈ made) (hk : ContWithin (· ∈ made) k) (ht : TrailWithin (· ∈ made) trail) :
    Recorded made (promises ++ [(eval node env k trail s).1]) (eval node env k trail s).2 := by
  have trees := eval_trees (s := s) node env k trail
  have within := eval_within node h.values here hk ht
  rw [← List.append_nil made] at within
  refine h.same (fun _ => Store.present_congr trees) (Store.created_congr trees)
    (h.orderly.congr trees) (fun e frame found => ?_) ?_
  · exact h.values e frame ((Store.frame?_congr trees e).symm.trans found)
  · simpa only [List.append_nil] using h.promises_concat within

theorem moved (h : Recorded made promises s) (stood : .next move ∈ promises) :
    Recorded (made ++ (move.makes s).toList) (promises ++ [(bounce move s).1])
      (bounce move s).2 := by
  have hm : move.Within (· ∈ made) := h.promises _ stood
  have le : ∀ env ∈ made, env ∈ made ++ (move.makes s).toList :=
    fun _ => List.mem_append_left _
  have hm' := Move.Within.mono le hm
  have hs' := h.values.mono fun c => le c.env
  refine h.reshaped (bounce_reshapes move s) hm ((bounce_reframes move s).within hm' hs')
    (h.promises_concat (bounce_within hm' hs' ?_))
  -- the frame that a function is given is the one that the move makes
  rintro c args k trail rfl fits
  refine List.mem_append_right _ ?_
  rw [Move.makes, if_pos fits]
  exact List.mem_singleton_self _

end Recorded

/-- Every history is recorded. -/
theorem History.recorded (history : History made promises s) : Recorded made promises s := by
  induction history with
  | start => exact .start
  | root _ ih => exact ih.addRoot
  | @extended made promises s env bindings _ here values ih =>
    refine ih.extend here rfl ?_ fun promise member => ?_
    · refine Store.Each.extend (ih.values.mono fun c => List.mem_append_left _) ?_
      exact fun binding member =>
        Value.Each.mono (fun c => List.mem_append_left _) (values binding member)
    · exact (ih.promises promise member).mono fun _ => List.mem_append_left _
  | begun _ here hk ht ih => exact ih.begun here hk ht
  | moved _ stood ih => exact ih.moved stood

/-- **Frames are numbered in the order in which they are made.** After any history, the environments
that were made are those that there are, each once. The frames under a root have the numbers from
one to the count of that root, in the order in which they were made. From every environment frames
lead to the root of its tree, of which it tells the count. Each is inside an environment with a
smaller number, and the environment is shown as their numbers, which fall and end with zero. -/
theorem frames_numbered_in_order (history : History made promises s) :
    made.Nodup ∧ (∀ env, s.Present env ↔ env ∈ made) ∧
      (∀ root ∈ made, root.isRoot →
        (framesUnder root made).map (·.number) = List.range' 1 (s.created root)) ∧
      ∀ env ∈ made, ∃ (frames : List Env) (root : Env), s.Path env frames root ∧
        root ∈ made ∧ root.isRoot ∧ root.tree = env.tree ∧ s.created env = s.created root ∧
        (∀ parent, s.parent? env = some parent → parent ∈ made ∧ parent.number < env.number) ∧
        s.chain env = frames ++ [root] ∧
        (frames.map Env.number ++ [0]).Pairwise (· > ·) ∧
        s.envText env = " -> ".intercalate
          ((frames.map Env.number ++ [0]).map fun n => "<" ++ toString n ++ ">") := by
  have recorded := history.recorded
  refine ⟨recorded.once, recorded.present, fun root _ _ => recorded.numbers root, fun env here => ?_⟩
  have present := (recorded.present env).mpr here
  obtain ⟨frames, root, path⟩ := recorded.orderly.path present
  obtain rfl := path.root_eq
  have last : (frames ++ [Env.mk env.tree 0]).map (·.number) = frames.map Env.number ++ [0] :=
    List.map_append
  refine ⟨frames, _, path, ?_, rfl, rfl, rfl, fun parent around => ?_, path.chain_eq, ?_, ?_⟩
  · exact (recorded.present _).mp (.inr ⟨rfl, present.bounds.2⟩)
  · obtain ⟨frame, found, rfl⟩ := Option.map_eq_some_iff.mp around
    obtain ⟨smaller, outside⟩ := recorded.orderly.around env frame found
    exact ⟨(recorded.present _).mp outside, smaller⟩
  · exact last ▸ path.number_pairwise
  · rw [path.envText_eq, last]

/-- The call of a function that goes back. -/
def callThatFails : Node :=
  .apply (.apply (.symbol "fn" default)
    [.list [] default, .block [.symbol "back" default] default] default) [] default

/-- The frame of a call that failed keeps its number. The next frame of the tree has the number after
it, and a tree made meanwhile has numbers of its own. -/
theorem frames_numbered_in_order_after_failure :
    ∃ promises s, History [⟨0, 0⟩, ⟨0, 1⟩, ⟨1, 0⟩, ⟨0, 2⟩, ⟨1, 1⟩, ⟨0, 3⟩] promises s ∧
      .error .noMoreAlternatives ∈ promises ∧ s.created ⟨0, 2⟩ = 3 ∧ s.created ⟨1, 1⟩ = 1 ∧
      s.envText ⟨0, 3⟩ = "<3> -> <1> -> <0>" := by
  have three : History [⟨0, 0⟩, ⟨0, 1⟩, ⟨1, 0⟩] [] _ :=
    (@History.extended _ _ _ _ [] History.start.root (.head _) nofun).root
  have called : History [⟨0, 0⟩, ⟨0, 1⟩, ⟨1, 0⟩] _ _ :=
    @History.begun _ _ _ callThatFails ⟨0, 1⟩ [] [] three (.tail _ (.head _)) nofun nofun
  have entered : History [⟨0, 0⟩, ⟨0, 1⟩, ⟨1, 0⟩, ⟨0, 2⟩] _ _ :=
    (called.moved (.head _)).moved (.tail _ (.head _))
  have failed : History [⟨0, 0⟩, ⟨0, 1⟩, ⟨1, 0⟩, ⟨0, 2⟩] _ _ :=
    entered.moved (.tail _ (.tail _ (.head _)))
  have history : History [⟨0, 0⟩, ⟨0, 1⟩, ⟨1, 0⟩, ⟨0, 2⟩, ⟨1, 1⟩, ⟨0, 3⟩] _ _ :=
    @History.extended _ _ _ ⟨0, 1⟩ [] (@History.extended _ _ _ ⟨1, 0⟩ [] failed
      (.tail _ (.tail _ (.head _))) nofun) (.tail _ (.head _)) nofun
  obtain ⟨_, _, numbers, walks⟩ := frames_numbered_in_order history
  have first := congrArg List.length (numbers ⟨0, 0⟩ (.head _) rfl)
  have second := congrArg List.length (numbers ⟨1, 0⟩ (.tail _ (.tail _ (.head _))) rfl)
  rw [List.length_range'] at first second
  obtain ⟨frames, root, path, _, _, _, _, _, _, _, text⟩ := walks ⟨0, 3⟩ (by decide)
  refine ⟨_, _, history, .tail _ (.tail _ (.tail _ (.head _))), first.symm, second.symm, ?_⟩
  -- the walk goes from the last frame to the one around it, and then to the root
  cases path with
  | root h => cases h
  | frame found _ rest =>
    obtain rfl := Option.some.inj found
    cases rest with
    | root h => cases h
    | frame found _ rest =>
      obtain rfl := Option.some.inj found
      cases rest with
      | root => exact text.trans rfl
      | frame found => cases found

end Machine

end Retrace
