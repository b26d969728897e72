/-
Values without places in a text.

* `Value.bare`, `Bindings.bare`, `Store.bare` — values, bindings and stores, with the
  bodies of functions without their places.
* `Relabelling.erased` — the change that leaves places out.
* **`Store.bare_iff`** — a store without places is the one that belongs to a store with this
  change.

Design notes: the trees in a store are the bodies of functions, and places are the only
part of a tree that evaluation does not use. What is left of a store without them is
all that a program can find out about it.
-/
import Retrace.Proofs.Scope.Relabelling

namespace Retrace

/-- A function without places. -/
def Closure.bare (c : Closure) : Closure :=
  { c with body := Node.bareAll c.body }

namespace Value

mutual

/-- A value without places. -/
def bare : Value → Value
  | closure c => closure c.bare
  | list items => list (bareAll items)
  | int n => int n
  | str s => str s
  | bool b => bool b
  | symbol name => symbol name
  | primitive p => primitive p

/-- Values without places. -/
def bareAll : List Value → List Value
  | [] => []
  | value :: values => value.bare :: bareAll values

end

end Value

/-- Bindings without places. -/
def Bindings.bare (bindings : Bindings) : Bindings :=
  bindings.map fun (name, value) => (name, value.bare)

/-- A frame without places. -/
def Frame.bare (frame : Frame) : Frame :=
  { frame with bindings := frame.bindings.bare }

/-- A store without places. -/
def Store.bare (s : Store) : Store :=
  { s with trees := s.trees.map (·.map Frame.bare) }

/-! ### Leaving places out is a change -/

/-- Every place is left out, and every frame keeps its number. -/
def Relabelling.erased : Relabelling where
  place _ := default
  env := id
  tree _ := rfl
  injective same := same

open Relabelling (erased)

theorem Closure.erased_eq_bare : erased.closure = bare := by
  funext c
  show { c with body := Node.placedAll (fun _ => default) c.body } = c.bare
  rw [Node.placedAll_default, bare]

namespace Value

mutual

theorem mapped_eq_bare (value : Value) : erased.value value = value.bare := by
  cases value with
  | list items => exact congrArg list (mappedAll_eq_bareAll items)
  | closure c => exact congrArg (fun f => closure (f c)) Closure.erased_eq_bare
  | int | str | bool | symbol | primitive => rfl

theorem mappedAll_eq_bareAll (values : List Value) :
    mappedAll erased.closure values = bareAll values := by
  match values with
  | [] => rfl
  | value :: values =>
    rw [mappedAll, bareAll, ← mapped_eq_bare value, mappedAll_eq_bareAll values]

end

theorem erased_eq_bare : erased.value = bare :=
  funext mapped_eq_bare

theorem bareAll_eq_map (values : List Value) : bareAll values = values.map bare := by
  rw [← mappedAll_eq_bareAll, mappedAll_eq_map, ← erased_eq_bare]

/-- Places are not shown. -/
theorem text_bare (value : Value) : value.bare.text = value.text := by
  rw [← mapped_eq_bare, text_mapped erased.unseen]

end Value

theorem Bindings.erased_eq_bare : erased.bindings = bare := by
  unfold Relabelling.bindings Bindings.mapped bare
  simp only [← Value.erased_eq_bare]

theorem Frame.erased_eq_bare (tree : Nat) : erased.frame tree = bare := by
  unfold Relabelling.frame bare
  simp only [← Bindings.erased_eq_bare]
  rfl

namespace Store

variable {s : Store} {env : Env} {bindings : Bindings}

theorem framesOf_bare : s.bare.framesOf env = (s.framesOf env).map Frame.bare := by
  unfold framesOf bare
  rw [Array.getElem?_map]
  cases s.trees[env.tree]? with
  | none => exact Array.map_empty.symm
  | some frames => rfl

@[simp] theorem created_bare : s.bare.created env = s.created env := by
  rw [created, framesOf_bare, Array.size_map, created]

theorem frame?_bare : s.bare.frame? env = (s.frame? env).map Frame.bare := by
  unfold frame?
  split
  · rfl
  · rw [framesOf_bare, Array.getElem?_map]

theorem trees_size_bare : s.bare.trees.size = s.trees.size :=
  Array.size_map

/-- Two stores that are the same frame by frame are the same without places. -/
theorem bare_eq_of_frames {t : Store} (closures : t.closures = s.closures)
    (trees : t.trees.size = s.trees.size) (created : ∀ env, t.created env = s.created env)
    (frames : ∀ env, t.frame? env = (s.frame? env).map Frame.bare) : t = s.bare :=
  eq_of_frames closures (trees.trans trees_size_bare.symm)
    (fun env => (created env).trans created_bare.symm) fun env =>
    (frames env).trans frame?_bare.symm

/-- **A store without places is the one that belongs to it when places are left out.** -/
theorem bare_iff {t : Store} : t = s.bare ↔ erased.Relates s t := by
  constructor
  · rintro rfl
    refine ⟨rfl, trees_size_bare, fun env => ?_, fun tree n => ?_⟩
    · rw [Frame.erased_eq_bare]
      exact frame?_bare
    · rw [created_bare]
      rfl
  · intro h
    refine bare_eq_of_frames h.closures h.trees (fun env => ?_) fun env => ?_
    · have same : s.created env + 1 = t.created env + 1 := congrArg Env.number (h.next env.tree 0)
      omega
    · have frame := h.frame? env
      rwa [Frame.erased_eq_bare] at frame

theorem extend_bare : (s.bare.extend env bindings.bare).2 = (s.extend env bindings).2.bare := by
  obtain ⟨_, related⟩ := @(bare_iff.mp (Eq.refl s.bare)).extend erased s s.bare env bindings
  rw [Bindings.erased_eq_bare] at related
  exact bare_iff.mpr related

end Store

end Retrace
