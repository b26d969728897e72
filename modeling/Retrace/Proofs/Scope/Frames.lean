/-
Stores seen frame by frame.

What the operations on stores do is said by what they do to the frame of each
environment:

* `frame?_bind`, `frame?_unbind` — one frame changes, and nothing else;
* `frame?_extend` — one frame is added, under the next number of its tree;
* `eq_of_frames` — a store is its frames, so two stores with the same frames are
  equal;
* **`unbind_bind`** — setting free a name that a definition bound gives the store
  before the definition.

Design notes: a name is bound at the front of its frame, in place of what it was
bound to. Where the name was free there is nothing to replace, and this is what
makes a definition reversible.
-/
import Retrace.Scope.Store

namespace Retrace

namespace Bindings

variable {bindings : Bindings} {name : String}

/-- Setting a free name free changes nothing. -/
theorem remove_of_free (free : bindings.lookup name = none) :
    bindings.remove name = bindings := by
  rw [remove, List.filter_eq_self]
  intro binding member
  have different := List.lookup_eq_none_iff.mp free binding member
  simpa [bne_iff_ne, ne_comm] using different

/-- Binding a free name adds a binding at the front. -/
theorem put_of_free (value : Value) (free : bindings.lookup name = none) :
    bindings.put name value = (name, value) :: bindings := by
  have kept := remove_of_free free
  rw [remove] at kept
  rw [put, kept]

/-- A free name that is bound and set free again is as it was. -/
theorem remove_put (value : Value) (free : bindings.lookup name = none) :
    (bindings.put name value).remove name = bindings := by
  rw [put_of_free value free, remove, List.filter_cons_of_neg (by simp)]
  exact remove_of_free free

variable {P : String × Value → Prop} {value : Value} {made : Bindings}

/-- What holds of all bindings and of one more holds when this is put to them. -/
theorem forall_put (h : ∀ binding ∈ bindings, P binding) (here : P (name, value)) :
    ∀ binding ∈ bindings.put name value, P binding := by
  intro binding member
  rcases List.mem_cons.mp member with rfl | member
  · exact here
  · exact h binding (List.mem_filter.mp member).1

theorem forall_remove (h : ∀ binding ∈ bindings, P binding) :
    ∀ binding ∈ bindings.remove name, P binding := by
  intro binding member
  exact h binding (List.mem_filter.mp member).1

/-- A new frame has the bindings that it is made with. -/
theorem forall_foldl_put (h : ∀ binding ∈ bindings, P binding)
    (start : ∀ binding ∈ made, P binding) :
    ∀ binding ∈ bindings.foldl (fun bs (name, value) => bs.put name value) made, P binding := by
  induction bindings generalizing made with
  | nil => exact start
  | cons binding bindings ih =>
    refine ih (fun b member => h b (.tail _ member)) ?_
    exact forall_put start (h binding (.head _))

end Bindings

namespace Store

variable {s t : Store} {env e : Env} {name : String} {value : Value}

/-! ### A store is its frames -/

/-- Two stores with as many trees, as many frames in each, and the same frames under the
same numbers are equal. -/
theorem eq_of_frames (closures : s.closures = t.closures) (trees : s.trees.size = t.trees.size)
    (created : ∀ env, s.created env = t.created env)
    (frames : ∀ env, s.frame? env = t.frame? env) : s = t := by
  obtain ⟨treesOfS, _⟩ := s
  obtain ⟨treesOfT, _⟩ := t
  simp only at closures trees
  subst closures
  congr 1
  refine Array.ext trees fun i hs ht => ?_
  have sizes : treesOfS[i].size = treesOfT[i].size := by
    simpa [Store.created, framesOf, hs, ht] using created ⟨i, 0⟩
  refine Array.ext sizes fun j hjs hjt => ?_
  have same := frames ⟨i, j + 1⟩
  simpa [frame?, framesOf, hs, ht, hjs, hjt] using same

theorem frame?_root (root : env.isRoot) : s.frame? env = none := by
  unfold frame?
  rw [eq_of_beq root]

/-- Stores with the same trees have the same frames. -/
theorem frame?_congr (trees : t.trees = s.trees) (env : Env) : t.frame? env = s.frame? env := by
  unfold frame? framesOf
  rw [trees]

theorem created_congr (trees : t.trees = s.trees) (env : Env) :
    t.created env = s.created env := by
  unfold created framesOf
  rw [trees]

/-! ### Changing the bindings of a frame -/

@[simp] theorem closures_update (f : Bindings → Bindings) :
    (s.update env f).closures = s.closures := by
  unfold update
  split <;> rfl

@[simp] theorem trees_size_update (f : Bindings → Bindings) :
    (s.update env f).trees.size = s.trees.size := by
  unfold update
  split
  · rfl
  · exact Array.size_modify

@[simp] theorem created_update (f : Bindings → Bindings) :
    (s.update env f).created e = s.created e := by
  unfold update
  split
  · rfl
  · simp only [created, framesOf, Array.getElem?_modify]
    split
    · cases s.trees[e.tree]? <;> simp
    · rfl

theorem frame?_update (f : Bindings → Bindings) :
    (s.update env f).frame? e =
      if e = env then (s.frame? e).map fun frame => { frame with bindings := f frame.bindings }
      else s.frame? e := by
  obtain ⟨tree, number⟩ := env
  obtain ⟨tree', number'⟩ := e
  rcases number with _ | n
  · rcases number' with _ | n' <;> simp [update, frame?]
  · rcases number' with _ | n'
    · simp [frame?]
    · simp only [update, frame?, framesOf, Array.getElem?_modify, Env.mk.injEq]
      by_cases same : tree = tree'
      · subst same
        by_cases here : n = n'
        · subst here
          cases s.trees[tree]? <;> simp [Array.getElem?_modify]
        · cases s.trees[tree]? <;> simp [Array.getElem?_modify, here, Ne.symm here]
      · simp [same, Ne.symm same]

@[simp] theorem closures_bind : (s.bind env name value).closures = s.closures :=
  closures_update _

@[simp] theorem trees_size_bind : (s.bind env name value).trees.size = s.trees.size :=
  trees_size_update _

@[simp] theorem created_bind : (s.bind env name value).created e = s.created e :=
  created_update _

/-- Binding a name changes the frame it is bound in, and no other. -/
theorem frame?_bind :
    (s.bind env name value).frame? e =
      if e = env then
        (s.frame? e).map fun frame => { frame with bindings := frame.bindings.put name value }
      else s.frame? e :=
  frame?_update _

/-- Setting a name free changes the frame it was bound in, and no other. -/
theorem frame?_unbind :
    (s.unbind env name).frame? e =
      if e = env then
        (s.frame? e).map fun frame => { frame with bindings := frame.bindings.remove name }
      else s.frame? e :=
  frame?_update _

/-- **A definition is reversible**: setting its name free gives back the store. -/
theorem unbind_bind {frame : Frame} (exists_frame : s.frame? env = some frame)
    (free : frame.bindings.lookup name = none) :
    (s.bind env name value).unbind env name = s := by
  -- only the frame of the definition is touched, and it is touched twice
  refine eq_of_frames ?_ ?_ ?_ fun e => ?_
  · rw [unbind, closures_update, closures_bind]
  · rw [unbind, trees_size_update, trees_size_bind]
  · intro e
    rw [unbind, created_update, created_bind]
  · rw [frame?_unbind, frame?_bind]
    by_cases here : e = env
    · subst here
      rw [if_pos rfl, if_pos rfl, exists_frame]
      simp only [Option.map_some, Bindings.remove_put value free]
    · rw [if_neg here, if_neg here]

/-! ### Adding a tree -/

theorem framesOf_addRoot : s.addRoot.2.framesOf e = s.framesOf e := by
  simp only [addRoot, framesOf, Array.getElem?_push]
  split
  · next new => rw [new, Array.getElem?_eq_none (Nat.le_refl _), Option.getD_some, Option.getD_none]
  · rfl

@[simp] theorem created_addRoot : s.addRoot.2.created e = s.created e :=
  congrArg Array.size framesOf_addRoot

/-- A new tree has no frame. -/
@[simp] theorem frame?_addRoot : s.addRoot.2.frame? e = s.frame? e := by
  simp only [frame?, framesOf_addRoot]

@[simp] theorem created_empty : empty.created e = 0 := by
  simp [created, framesOf, empty]

@[simp] theorem frame?_empty : empty.frame? e = none := by
  unfold frame?
  split
  · rfl
  · simp [framesOf, empty]

/-! ### Adding a frame -/

/-- The frame that an extension adds. -/
def newFrame (env : Env) (bindings : Bindings) : Frame :=
  ⟨env.number, bindings.foldl (fun bs (name, value) => bs.put name value) []⟩

variable {bindings : Bindings}

@[simp] theorem closures_extend : (s.extend env bindings).2.closures = s.closures := rfl

@[simp] theorem extend_env : (s.extend env bindings).1 = ⟨env.tree, s.created env + 1⟩ := rfl

@[simp] theorem trees_size_extend :
    (s.extend env bindings).2.trees.size = s.trees.size :=
  Array.size_modify

theorem created_extend :
    (s.extend env bindings).2.created e =
      if e.tree = env.tree ∧ env.tree < s.trees.size then s.created e + 1 else s.created e := by
  simp only [extend, created, framesOf, Array.getElem?_modify]
  by_cases same : env.tree = e.tree
  · rw [if_pos same, ← same]
    by_cases h : env.tree < s.trees.size <;> simp [h]
  · rw [if_neg same, if_neg (fun both => same both.1.symm)]

/-- An extension adds one frame under the next number of its tree, and changes no other. -/
theorem frame?_extend :
    (s.extend env bindings).2.frame? e =
      if e = ⟨env.tree, s.created env + 1⟩ ∧ env.tree < s.trees.size then
        some (newFrame env bindings)
      else s.frame? e := by
  obtain ⟨tree', number'⟩ := e
  rcases number' with _ | n
  · simp [frame?]
  · simp only [extend, frame?, created, framesOf, Array.getElem?_modify, Env.mk.injEq]
    by_cases same : env.tree = tree'
    · -- in its own tree, the frame is pushed behind the others
      subst same
      by_cases h : env.tree < s.trees.size
      · simp only [h, getElem?_pos, Option.map_some, Option.getD_some, Array.getElem?_push,
          if_true, true_and, and_true, Nat.add_right_cancel_iff]
        rfl
      · simp [h]
    · simp [same, Ne.symm same]

/-- No frame has the number that an extension gives. -/
theorem frame?_next : s.frame? ⟨env.tree, s.created env + 1⟩ = none := by
  simp [frame?, created, framesOf]

end Store

end Retrace
