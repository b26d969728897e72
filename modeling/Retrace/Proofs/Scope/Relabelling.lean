/-
Stores with other numbers and other places.

* `Relabelling` — a change of the places in trees and of the numbers of frames.
* `Relabelling.Relates` — two stores of which the second has every frame of the first,
  under its new number and with its values changed.
* **`Relates.extend`**, **`Relates.bind`**, **`Relates.unbind`** — the operations on stores
  go along with the change.

Design notes: the second store may have frames that come from none of the first. Nothing is
said of these. All that is asked for is that the next frames that either store makes belong
together, however many there will be.
-/
import Retrace.Proofs.Node.Places
import Retrace.Proofs.Value.Closures

namespace Retrace

/-- A change of the places in trees and of the numbers of frames. -/
structure Relabelling where
  place : Span → Span
  env : Env → Env
  /-- Frames stay in their trees. -/
  tree e : (env e).tree = e.tree
  /-- Different frames stay different. -/
  injective {e e'} : env e = env e' → e = e'

namespace Relabelling

variable (ρ : Relabelling)

/-- A function with the environment it was made in and the places of its body changed. -/
def closure (c : Closure) : Closure :=
  { c with body := Node.placedAll ρ.place c.body, env := ρ.env c.env }

theorem unseen : Closure.Unseen ρ.closure :=
  ⟨fun _ => rfl, fun _ => rfl⟩

/-- A value with its functions changed. -/
abbrev value (value : Value) : Value :=
  value.mapped ρ.closure

/-- Bindings with their values changed. -/
abbrev bindings (bindings : Bindings) : Bindings :=
  bindings.mapped ρ.closure

/-- The number of the frame around a frame of a tree, changed. -/
def parent (tree number : Nat) : Nat :=
  (ρ.env ⟨tree, number⟩).number

/-- A frame of a tree, changed. -/
def frame (tree : Nat) (frame : Frame) : Frame :=
  ⟨ρ.parent tree frame.parent, ρ.bindings frame.bindings⟩

/-- A store and another with every frame of it, changed. -/
structure Relates (s s' : Store) : Prop where
  closures : s'.closures = s.closures
  trees : s'.trees.size = s.trees.size
  frame? env : s'.frame? (ρ.env env) = (s.frame? env).map (ρ.frame env.tree)
  /-- The frames that are made next belong together. -/
  next tree n : ρ.env ⟨tree, s.created ⟨tree, 0⟩ + 1 + n⟩ = ⟨tree, s'.created ⟨tree, 0⟩ + 1 + n⟩

variable {ρ} {s s' : Store} {env e : Env} {name : String} {value : Value} {bindings : Bindings}

theorem env_eq_iff : ρ.env e = ρ.env env ↔ e = env :=
  ⟨ρ.injective, congrArg ρ.env⟩

/-- The frame around a frame, in the tree of an environment that was changed. -/
theorem env_parent (tree number : Nat) :
    (⟨tree, ρ.parent tree number⟩ : Env) = ρ.env ⟨tree, number⟩ :=
  congrArg (Env.mk · _) (ρ.tree ⟨tree, number⟩).symm

/-- The environment that the next frame of a tree is under. -/
theorem Relates.next_env (h : ρ.Relates s s') (env : Env) :
    ρ.env ⟨env.tree, s.created env + 1⟩ = ⟨env.tree, s'.created (ρ.env env) + 1⟩ := by
  have same : s'.created (ρ.env env) = s'.created ⟨env.tree, 0⟩ := by
    rw [Store.created, Store.created, Store.framesOf, Store.framesOf, ρ.tree]
  rw [same]
  exact h.next env.tree 0

theorem Relates.makeClosure (h : ρ.Relates s s') (params : List String) (body : List Node)
    (env : Env) :
    (s'.makeClosure params (Node.placedAll ρ.place body) (ρ.env env)).1 =
        ρ.value (s.makeClosure params body env).1 ∧
      ρ.Relates (s.makeClosure params body env).2
        (s'.makeClosure params (Node.placedAll ρ.place body) (ρ.env env)).2 := by
  refine ⟨?_, congrArg (· + 1) h.closures, h.trees, h.frame?, h.next⟩
  rw [Store.makeClosure, h.closures]
  rfl

theorem Relates.update (h : ρ.Relates s s') {f f' : Bindings → Bindings}
    (along : ∀ bs, f' (ρ.bindings bs) = ρ.bindings (f bs)) :
    ρ.Relates (s.update env f) (s'.update (ρ.env env) f') := by
  refine ⟨?_, ?_, fun e => ?_, fun tree n => ?_⟩
  · rw [Store.closures_update, Store.closures_update, h.closures]
  · rw [Store.trees_size_update, Store.trees_size_update, h.trees]
  · simp only [Store.frame?_update, env_eq_iff, h.frame?]
    split
    · cases s.frame? e with
      | none => rfl
      | some frame =>
        exact congrArg (fun bs => some (Frame.mk (ρ.parent e.tree frame.parent) bs)) (along _)
    · rfl
  · rw [Store.created_update, Store.created_update, h.next]

theorem Relates.bind (h : ρ.Relates s s') :
    ρ.Relates (s.bind env name value) (s'.bind (ρ.env env) name (ρ.value value)) :=
  h.update fun _ => Bindings.put_mapped

theorem Relates.unbind (h : ρ.Relates s s') :
    ρ.Relates (s.unbind env name) (s'.unbind (ρ.env env) name) :=
  h.update fun _ => Bindings.remove_mapped

/-- A new frame is around what it is made with, changed. -/
theorem newFrame_frame :
    Store.newFrame (ρ.env env) (ρ.bindings bindings) =
      ρ.frame env.tree (Store.newFrame env bindings) :=
  congrArg (Frame.mk (ρ.env env).number) (Bindings.foldl_put_mapped [])

theorem Relates.extend (h : ρ.Relates s s') :
    (s'.extend (ρ.env env) (ρ.bindings bindings)).1 = ρ.env (s.extend env bindings).1 ∧
      ρ.Relates (s.extend env bindings).2 (s'.extend (ρ.env env) (ρ.bindings bindings)).2 := by
  have made : (⟨(ρ.env env).tree, s'.created (ρ.env env) + 1⟩ : Env) =
      ρ.env ⟨env.tree, s.created env + 1⟩ := by
    rw [h.next_env, ρ.tree]
  refine ⟨made, h.closures, ?_, fun e => ?_, fun tree n => ?_⟩
  · rw [Store.trees_size_extend, Store.trees_size_extend, h.trees]
  · rw [Store.frame?_extend, made, Store.frame?_extend]
    simp only [env_eq_iff, ρ.tree, h.trees, h.frame?]
    split
    · next here =>
      rw [here.1]
      exact congrArg some newFrame_frame
    · rfl
  · simp only [Store.created_extend, ρ.tree, h.trees]
    split
    · have same := h.next tree (n + 1)
      rwa [show s.created ⟨tree, 0⟩ + 1 + (n + 1) = s.created ⟨tree, 0⟩ + 1 + 1 + n by omega,
        show s'.created ⟨tree, 0⟩ + 1 + (n + 1) = s'.created ⟨tree, 0⟩ + 1 + 1 + n by omega] at same
    · exact h.next tree n

end Relabelling

end Retrace
