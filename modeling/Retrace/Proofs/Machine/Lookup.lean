/-
Lookups and what is visible.

* `Store.Made` — a store that was made by new trees and frames, definitions, and undoings.
* `Store.Orderly` — in every frame names are bound once, and a frame is inside an older one.
* `Store.Made.orderly` — every store that was made is orderly.
* `lookup_found` — a lookup takes one move for each frame that it passes, and delivers the value
  of the first frame that binds the name.
* `lookup_missing` — a lookup that finds nothing has passed all frames.
* **`lookup_agrees_with_visible`** — lookups, frames and the list of visible names tell the same
  of a name.

Design notes: a definition is undone by its trail, which sets a name free in a frame. Nothing
is asked here of when that happens. The names that are bound after any definitions and
undoings are some names, each bound once, and no more is needed.
-/
import Retrace.Proofs.Machine.Applications
import Retrace.Proofs.Machine.Withdrawal
import Retrace.Proofs.Scope.Visible

namespace Retrace

/-! ### Stores that are made step by step -/

namespace Store

variable {s t : Store} {env e : Env} {name : String} {value : Value} {bindings : Bindings}

/-- Stores made by new trees, new frames, definitions, and undoings of definitions. -/
inductive Made : Store → Prop
  | empty : Made .empty
  | root {s : Store} (before : Made s) : Made s.addRoot.2
  | extended {s : Store} {env : Env} {bindings : Bindings} (before : Made s)
      (present : s.Present env) : Made (s.extend env bindings).2
  | defined {s : Store} {env : Env} {name : String} {value : Value} {k : Machine.Cont}
      {trail : Machine.Trail} (before : Made s) (present : s.Present env) :
      Made (Machine.define name value env k trail s).2
  | undone {s : Store} {env : Env} {name : String} {trail : Machine.Trail} (before : Made s)
      (present : s.Present env) : Made (Machine.fail (.undo name env :: trail) s).2

/-- In every frame names are bound once, and every frame is inside an older one or a root. -/
structure Orderly (s : Store) : Prop where
  names env frame (h : s.frame? env = some frame) : (frame.bindings.map (·.1)).Nodup
  around env frame (h : s.frame? env = some frame) :
    frame.parent < env.number ∧ s.Present ⟨env.tree, frame.parent⟩

theorem Present.mono (h : s.Present env) (knows : s.Knows env → t.Knows env)
    (trees : s.trees.size ≤ t.trees.size) : t.Present env :=
  h.imp knows (And.imp_right fun small => Nat.lt_of_lt_of_le small trees)

/-- An environment that is present has a number that was given, in a tree that exists. -/
theorem Present.bounds (h : s.Present env) :
    env.number ≤ s.created env ∧ env.tree < s.trees.size := by
  obtain known | ⟨root, small⟩ := h
  · exact known.bounds
  · exact ⟨(eq_of_beq root : env.number = 0) ▸ Nat.zero_le _, small⟩

namespace Orderly

/-- To change the bindings of one frame keeps a store orderly when no name becomes bound twice. -/
theorem update (h : s.Orderly) {f : Bindings → Bindings}
    (keeps : ∀ bindings : Bindings, (bindings.map (·.1)).Nodup → ((f bindings).map (·.1)).Nodup) :
    (s.update env f).Orderly := by
  have present : ∀ {e}, s.Present e → (s.update env f).Present e := fun here =>
    here.mono (knows_update f).mpr (Nat.le_of_eq (trees_size_update f).symm)
  constructor <;> intro e frame found <;> rw [frame?_update] at found <;> split at found
  case names.isTrue =>
    obtain ⟨old, before, rfl⟩ := Option.map_eq_some_iff.mp found
    exact keeps _ (h.names e old before)
  case names.isFalse => exact h.names e frame found
  case around.isTrue =>
    obtain ⟨old, before, rfl⟩ := Option.map_eq_some_iff.mp found
    exact (h.around e old before).imp_right present
  case around.isFalse => exact (h.around e frame found).imp_right present

theorem extend (h : s.Orderly) (present : s.Present env) : (s.extend env bindings).2.Orderly := by
  have still : ∀ {e}, s.Present e → (s.extend env bindings).2.Present e := fun here =>
    here.mono (Knows.of_le · (le_extend bindings)) (Nat.le_of_eq trees_size_extend.symm)
  constructor <;> intro e frame found <;> rw [frame?_extend] at found <;> split at found
  case names.isTrue =>
    obtain rfl := Option.some.inj found
    exact Bindings.nodup_foldl_put .nil
  case names.isFalse => exact h.names e frame found
  case around.isTrue new =>
    obtain rfl := Option.some.inj found
    obtain ⟨rfl, _⟩ := new
    exact ⟨Nat.lt_succ_of_le present.bounds.1, still present⟩
  case around.isFalse => exact (h.around e frame found).imp_right still

theorem addRoot (h : s.Orderly) : s.addRoot.2.Orderly := by
  have still : ∀ {e}, s.Present e → s.addRoot.2.Present e := fun here =>
    here.mono (Exists.imp fun _ found => frame?_addRoot.trans found)
      (Nat.le_of_lt (by simp [Store.addRoot]))
  constructor <;> intro e frame found <;> rw [frame?_addRoot] at found
  case names => exact h.names e frame found
  case around => exact (h.around e frame found).imp_right still

theorem empty : Orderly .empty := by
  constructor <;> intro e frame found <;> rw [frame?_empty] at found <;> cases found

end Orderly

/-- Every store that was made is orderly. -/
theorem Made.orderly (made : s.Made) : s.Orderly := by
  induction made with
  | empty => exact .empty
  | root _ ih => exact ih.addRoot
  | extended _ present ih => exact ih.extend present
  | @defined s env name value k trail _ _ ih =>
    unfold Machine.define
    split
    · exact ih
    · split
      · exact ih
      · exact ih.update fun _ => Bindings.nodup_put
  | undone _ _ ih => exact ih.update fun _ => Bindings.nodup_remove

/-- In an orderly store the frames around an environment lead to a root. -/
theorem Orderly.path (h : s.Orderly) (present : s.Present env) :
    ∃ frames root, s.Path env frames root := by
  -- the numbers of the frames fall
  induction number : env.number using Nat.strongRecOn generalizing env with
  | ind n ih =>
    obtain ⟨frame, found⟩ | ⟨root, _⟩ := present
    · obtain ⟨inside, around⟩ := h.around env frame found
      obtain ⟨frames, root, rest⟩ := ih frame.parent (number ▸ inside) around rfl
      exact ⟨_, _, .frame found inside rest⟩
    · exact ⟨_, _, .root root⟩

end Store

/-! ### Lookups move by move -/

namespace Machine

variable {s : Store} {env e root : Env} {front back frames : List Env} {name : String}
  {value : Value}

/-- A lookup takes one move for each frame that it passes, and then delivers the value of the first
frame that binds the name. -/
theorem lookup_found (path : s.Path env (front ++ e :: back) root)
    (free : ∀ passed ∈ front, ¬ s.Binds passed name) (bound : s.local? e name = some value) :
    Finds s env name value front.length := by
  induction front generalizing env with
  | nil =>
    cases path with
    | frame found inside rest =>
      rw [Store.local?, found, Option.bind_some] at bound
      exact .here found bound
  | cons passed front ih =>
    cases path with
    | frame found inside rest =>
      exact .outside found (Store.lookup_of_not_binds found (free _ (.head _)))
        (ih rest fun passed member => free passed (.tail _ member))

/-- A lookup that finds nothing takes one move for each frame. -/
theorem lookup_missing (path : s.Path env frames root) (free : ∀ e ∈ frames, ¬ s.Binds e name)
    (k : Cont) (trail : Trail) :
    Steps frames.length (lookup name env k trail s, s) (.error (.symbolNotFound name), s) := by
  induction path with
  | root h =>
    simp only [lookup, Store.frame?_root h]
    exact .refl _
  | frame found inside rest ih =>
    rw [lookup_passes found (Store.lookup_of_not_binds found (free _ (.head _)))]
    exact .move (ih fun e member => free e (.tail _ member))

/-- Some frame is the first one that binds a name that a frame binds. -/
theorem innermost (h : ∃ e ∈ frames, s.Binds e name) :
    ∃ front e back value, frames = front ++ e :: back ∧ (∀ passed ∈ front, ¬ s.Binds passed name) ∧
      s.local? e name = some value := by
  obtain ⟨e, found⟩ := Option.isSome_iff_exists.mp (List.find?_isSome.mpr h)
  obtain ⟨binds, front, back, split, free⟩ := List.find?_eq_some_iff_append.mp found
  obtain ⟨value, bound⟩ := Option.isSome_iff_exists.mp binds
  have unbound : ∀ passed ∈ front, ¬ s.Binds passed name := fun passed member => by
    simpa using free passed member
  exact ⟨front, e, back, value, split, unbound, bound⟩

/-- **Lookups, frames and the list of visible names tell the same.** From an environment a path of
frames leads to a root. A lookup delivers the value that the first frame of the path that binds the
name has for it, after as many moves as frames were passed, to the continuation and with the trail
it was begun with. When no frame binds the name it is an error, after as many moves as there are
frames. The names for which a lookup delivers a value are those that are visible, each once, in the
order of the frames that it is found in, and those of one frame in ascending order. -/
theorem lookup_agrees_with_visible (made : s.Made) (present : s.Present env) :
    ∃ frames root, s.Path env frames root ∧ s.chain env = frames ++ [root] ∧
      (∀ front e back name value, frames = front ++ e :: back →
        (∀ passed ∈ front, ¬ s.Binds passed name) → s.local? e name = some value →
        s.depth env name = front.length ∧ ∀ k trail,
          Steps front.length (lookup name env k trail s, s) (.next (.deliver value k trail), s)) ∧
      (∀ name, (∀ e ∈ frames, ¬ s.Binds e name) → ∀ k trail,
        Steps frames.length (lookup name env k trail s, s) (.error (.symbolNotFound name), s)) ∧
      (∀ name, name ∈ s.visible env ↔ ∃ value n, ∀ k trail,
        Steps n (lookup name env k trail s, s) (.next (.deliver value k trail), s)) ∧
      (s.visible env).Nodup ∧
      (s.visible env).Pairwise fun a b =>
        s.depth env a < s.depth env b ∨ s.depth env a = s.depth env b ∧ a < b := by
  obtain ⟨frames, root, path⟩ := made.orderly.path present
  refine ⟨frames, root, path, path.chain_eq, ?_, fun name free => lookup_missing path free, ?_,
    Store.nodup_visible made.orderly.names, Store.visible_pairwise made.orderly.names⟩
  · rintro front e back name value rfl free bound
    have binds : s.Binds e name := by
      rw [Store.Binds, bound, Option.isSome_some]
    exact ⟨path.depth_eq free binds, lookup_found path free bound⟩
  · intro name
    rw [path.mem_visible]
    constructor
    · intro bound
      obtain ⟨front, e, back, value, rfl, free, bound⟩ := innermost bound
      exact ⟨value, front.length, lookup_found path free bound⟩
    · rintro ⟨value, n, delivers⟩
      -- otherwise the lookup would also end with an error
      by_contra unbound
      have missing := lookup_missing path (fun e member binds => unbound ⟨e, member, binds⟩) [] []
      have delivered := (delivers [] []).trans (.single _ s)
      obtain ⟨_, same⟩ := missing.stop_unique (by rintro ⟨⟩) delivered (by rintro ⟨⟩)
      cases same

/-- Two frames, of which the inner one hides a name of the outer one. -/
def shadowing : Store :=
  let outer := Store.empty.addRoot.2.extend ⟨0, 0⟩ [("a", .int 1), ("b", .int 2)]
  (outer.2.extend outer.1 [("a", .int 3)]).2

theorem lookup_agrees_with_visible_shadowing :
    shadowing.Made ∧ shadowing.Present ⟨0, 2⟩ ∧ "b" ∈ shadowing.visible ⟨0, 2⟩ ∧
      shadowing.depth ⟨0, 2⟩ "a" = 0 ∧ ∀ k trail,
        Steps 0 (lookup "a" ⟨0, 2⟩ k trail shadowing, shadowing)
          (.next (.deliver (.int 3) k trail), shadowing) := by
  have made : shadowing.Made :=
    .extended (.extended (.root .empty) (.inr ⟨rfl, by decide⟩)) (.inl ⟨_, rfl⟩)
  have present : shadowing.Present ⟨0, 2⟩ := .inl ⟨_, rfl⟩
  obtain ⟨frames, root, path, _, found, _, listed, _⟩ := lookup_agrees_with_visible made present
  cases path with
  | root h => cases h
  | frame here _ rest =>
    obtain rfl := Option.some.inj here
    cases rest with
    | root h => cases h
    | frame here _ _ =>
      obtain rfl := Option.some.inj here
      have hidden := found [] ⟨0, 2⟩ _ "a" (.int 3) rfl (List.forall_mem_nil _) rfl
      have seen := found [⟨0, 2⟩] ⟨0, 1⟩ _ "b" (.int 2) rfl (by decide) rfl
      exact ⟨made, present, (listed "b").mpr ⟨_, _, seen.2⟩, hidden⟩

end Machine

end Retrace
