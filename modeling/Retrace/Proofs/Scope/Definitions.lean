/-
Stores as frames with definitions made in them.

* `Definition` — a binding that was made after its frame.
* `Store.withDefinitions` — a store in which definitions were made one after the
  other.
* `s ≤ t` — every frame of `s` is in `t`, as it is.
* **`extend_withDefinitions`** — adding a frame and making definitions commute.

Design notes: a store is taken apart into what lasts and what is taken back. Frames
and the identities of functions last: they are numbered in the order in which they
were made, whatever became of the branch that made them. Definitions belong to a
branch. With the two apart, going back to a choice is to forget definitions and to
keep the rest, and no name has to be set free.
-/
import Retrace.Proofs.Scope.Frames

namespace Retrace

/-- A binding that was made in a frame after the frame was made. -/
structure Definition where
  env : Env
  name : String
  value : Value

namespace Store

variable {s t u : Store} {env : Env} {ds : List Definition}

/-- The store with definitions made in it, the latest first in the list. -/
def withDefinitions (s : Store) : List Definition → Store
  | [] => s
  | d :: ds => (s.withDefinitions ds).bind d.env d.name d.value

/-! ### Stores that grow -/

/-- A store is below another that has all its frames, as they are. -/
instance : LE Store where
  le s t := ∀ env frame, s.frame? env = some frame → t.frame? env = some frame

theorem le_refl (s : Store) : s ≤ s := fun _ _ h => h

theorem le_trans (hst : s ≤ t) (htu : t ≤ u) : s ≤ u :=
  fun env frame h => htu env frame (hst env frame h)

theorem le_extend (bindings : Bindings) : s ≤ (s.extend env bindings).2 := by
  intro e frame h
  rw [frame?_extend, if_neg]
  · exact h
  · rintro ⟨rfl, _⟩
    rw [frame?_next] at h
    exact absurd h (by simp)

theorem le_makeClosure (params : List String) (body : List Node) :
    s ≤ (s.makeClosure params body env).2 := fun _ _ h => h

theorem bind_le_bind (h : s ≤ t) (name : String) (value : Value) :
    s.bind env name value ≤ t.bind env name value := by
  intro e frame he
  rw [frame?_bind] at he ⊢
  by_cases here : e = env
  · rw [if_pos here, Option.map_eq_some_iff] at he
    obtain ⟨old, hold, rfl⟩ := he
    rw [if_pos here, h e old hold, Option.map_some]
  · rw [if_neg here] at he ⊢
    exact h e frame he

/-- Definitions keep the order of stores. -/
theorem withDefinitions_le (h : s ≤ t) (ds : List Definition) :
    s.withDefinitions ds ≤ t.withDefinitions ds := by
  induction ds with
  | nil => exact h
  | cons d ds ih => exact bind_le_bind ih d.name d.value

/-! ### What definitions leave alone -/

@[simp] theorem closures_withDefinitions : (s.withDefinitions ds).closures = s.closures := by
  induction ds with
  | nil => rfl
  | cons d ds ih => rw [withDefinitions, closures_bind, ih]

@[simp] theorem created_withDefinitions : (s.withDefinitions ds).created env = s.created env := by
  induction ds with
  | nil => rfl
  | cons d ds ih => rw [withDefinitions, created_bind, ih]

@[simp] theorem isSome_frame?_withDefinitions :
    ((s.withDefinitions ds).frame? env).isSome = (s.frame? env).isSome := by
  induction ds with
  | nil => rfl
  | cons d ds ih =>
    rw [withDefinitions, frame?_bind, ← ih]
    split <;> simp

/-- Definitions are about frames that a store has. -/
def Has (s : Store) (ds : List Definition) : Prop :=
  ∀ d ∈ ds, (s.frame? d.env).isSome

theorem Has.mono (h : s.Has ds) (le : s ≤ t) : t.Has ds := by
  intro d member
  obtain ⟨frame, hframe⟩ := Option.isSome_iff_exists.mp (h d member)
  rw [le d.env frame hframe]
  rfl

/-! ### Making frames and functions among definitions -/

theorem extend_bind {name : String} {value : Value} {e : Env} (bindings : Bindings)
    (exists_frame : (s.frame? e).isSome) :
    ((s.bind e name value).extend env bindings).2
      = (s.extend env bindings).2.bind e name value := by
  -- the new frame is not the one that the name is bound in, because that one exists
  have other : e ≠ ⟨env.tree, s.created env + 1⟩ := by
    rintro rfl
    rw [frame?_next] at exists_frame
    exact absurd exists_frame (by simp)
  refine eq_of_frames ?_ ?_ (fun i => ?_) fun i => ?_
  · rw [closures_extend, closures_bind, closures_bind, closures_extend]
  · rw [trees_size_extend, trees_size_bind, trees_size_bind, trees_size_extend]
  · rw [created_extend, created_bind, created_bind, trees_size_bind, created_extend]
  · rw [frame?_extend, frame?_bind, frame?_bind, frame?_extend, created_bind, trees_size_bind]
    by_cases new : i = ⟨env.tree, s.created env + 1⟩ ∧ env.tree < s.trees.size
    · rw [if_pos new, if_neg (by rw [new.1]; exact other.symm), if_pos new]
    · rw [if_neg new, if_neg new]

/-- Adding a frame and making definitions commute. -/
theorem extend_withDefinitions (bindings : Bindings) (has : s.Has ds) :
    (s.withDefinitions ds).extend env bindings
      = (⟨env.tree, s.created env + 1⟩, (s.extend env bindings).2.withDefinitions ds) := by
  refine Prod.ext (by rw [extend_env, created_withDefinitions]) ?_
  induction ds with
  | nil => rfl
  | cons d ds ih =>
    have here : ((s.withDefinitions ds).frame? d.env).isSome := by
      rw [isSome_frame?_withDefinitions]
      exact has d (List.mem_cons_self ..)
    have others := ih fun d' member => has d' (List.mem_cons_of_mem _ member)
    rw [withDefinitions, extend_bind bindings here, others, withDefinitions]

theorem makeClosure_bind {name : String} {value : Value} {e : Env} (params : List String)
    (body : List Node) :
    ((s.bind e name value).makeClosure params body env).2
      = (s.makeClosure params body env).2.bind e name value := by
  unfold bind update
  split <;> rfl

/-- Making a function and making definitions commute. -/
theorem makeClosure_withDefinitions (params : List String) (body : List Node) :
    (s.withDefinitions ds).makeClosure params body env
      = ((s.makeClosure params body env).1,
        (s.makeClosure params body env).2.withDefinitions ds) := by
  refine Prod.ext (by simp only [makeClosure, closures_withDefinitions]) ?_
  induction ds with
  | nil => rfl
  | cons d ds ih => rw [withDefinitions, makeClosure_bind, ih, withDefinitions]

end Store

end Retrace
