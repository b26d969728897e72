/-
What can be seen from an environment.

* `Store.Path` — the frames from an environment outwards, and the root behind them.
* `Store.Binds` — a frame itself binds a name.
* `Store.depth` — the number of frames in front of the innermost one that binds a name.
* `Path.chain_eq` — the chain of an environment is its path.
* `Path.mem_visible` — a name is visible when a frame of the path binds it.
* **`visible_pairwise`** — visible names stand in the order of the innermost frames that bind
  them, and those of one frame in ascending order.

Design notes: names are gathered frame by frame and then lose their duplicates, so that of
each name the first mention is kept. The proof takes the frames one by one. What the first
frame mentions is taken out of all later ones, and this is why the claim on the later ones is
made for every selection of their names.
-/
import Retrace.Proofs.Scope.Frames

namespace Retrace

/-! ### First mentions -/

section

variable {α β : Type} [BEq β]

/-- Of a list without duplicates nothing but duplicates is missing. -/
theorem eraseDups_sublist (l : List β) : l.eraseDups.Sublist l :=
  match l with
  | [] => List.Sublist.refl _
  | b :: l => by
    rw [List.eraseDups_cons]
    exact ((eraseDups_sublist _).trans List.filter_sublist).cons_cons b
termination_by l.length
decreasing_by
  have shorter := List.length_filter_le (fun c => !c == b) l
  simp only [List.length_cons]
  omega

variable [LawfulBEq β]

/-- When pieces in which no item stands twice are put one behind the other and only first mentions
are kept, items stand in the order of the pieces that mention them first, and those of one piece
as they stand there. -/
theorem pairwise_eraseDups_flatMap {pieces : α → List β} {has : α → β → Bool}
    {before : β → β → Prop} (mem : ∀ a b, b ∈ pieces a ↔ has a b) {l : List α}
    (sorted : ∀ a ∈ l, (pieces a).Pairwise before) (chosen : β → Bool) :
    ((l.flatMap pieces).filter chosen).eraseDups.Pairwise fun b c =>
      l.findIdx (has · b) < l.findIdx (has · c) ∨
        l.findIdx (has · b) = l.findIdx (has · c) ∧ before b c := by
  induction l generalizing chosen with
  | nil => exact .nil
  | cons a l ih =>
    have here : ∀ {b}, b ∈ pieces a → (a :: l).findIdx (has · b) = 0 := by
      intro b member
      rw [List.findIdx_cons, (mem a b).mp member, cond_true]
    have later : ∀ {b}, b ∉ pieces a →
        (a :: l).findIdx (has · b) = l.findIdx (has · b) + 1 := by
      intro b absent
      rw [mem, Bool.not_eq_true] at absent
      rw [List.findIdx_cons, absent, cond_false]
    -- what the first piece mentions is not chosen from the later ones
    have rest : ((l.flatMap pieces).filter chosen).removeAll ((pieces a).filter chosen) =
        (l.flatMap pieces).filter fun b => chosen b && !(pieces a).elem b := by
      rw [List.removeAll, List.filter_filter]
      refine List.filter_congr fun b _ => ?_
      cases picked : chosen b <;> simp [picked]
    rw [List.flatMap_cons, List.filter_append, List.eraseDups_append, rest,
      List.pairwise_append]
    have absent : ∀ {b}, b ∈ ((l.flatMap pieces).filter
        fun b => chosen b && !(pieces a).elem b).eraseDups → b ∉ pieces a := by
      intro b member
      have picked := (List.mem_filter.mp (List.mem_eraseDups.mp member)).2
      simpa using (Bool.and_eq_true_iff.mp picked).2
    have first : ∀ {b}, b ∈ ((pieces a).filter chosen).eraseDups → b ∈ pieces a :=
      fun member => (List.mem_filter.mp (List.mem_eraseDups.mp member)).1
    refine ⟨?_, ?_, ?_⟩
    · have kept : ((pieces a).filter chosen).eraseDups.Sublist (pieces a) :=
        (eraseDups_sublist _).trans List.filter_sublist
      refine List.Pairwise.imp_of_mem (fun hb hc ordered => .inr ⟨?_, ordered⟩)
        ((sorted a (.head _)).sublist kept)
      rw [here (first hb), here (first hc)]
    · refine List.Pairwise.imp_of_mem (fun hb hc ordered => ?_)
        (ih (fun a member => sorted a (.tail _ member)) _)
      rw [later (absent hb), later (absent hc)]
      exact ordered.imp Nat.succ_lt_succ (And.imp_left (congrArg (· + 1)))
    · intro b hb c hc
      rw [here (first hb), later (absent hc)]
      exact .inl (Nat.succ_pos _)

end

/-! ### Names of a frame -/

namespace Bindings

variable {bindings : Bindings} {name : String}

theorem mem_names : name ∈ bindings.names ↔ (bindings.lookup name).isSome := by
  rw [names, (List.mergeSort_perm _ _).mem_iff, List.lookup_isSome_iff, List.mem_map]
  exact exists_congr fun binding => and_congr_right fun _ => eq_comm.trans beq_iff_eq.symm

/-- Where no name is bound twice, the names ascend. -/
theorem names_pairwise (h : (bindings.map (·.1)).Nodup) :
    bindings.names.Pairwise (· < ·) := by
  have sorted : bindings.names.Pairwise fun a b => decide (a ≤ b) = true :=
    List.pairwise_mergeSort (fun a b c => by simpa using String.le_trans)
      (fun a b => by simpa using String.le_total a b) _
  have nodup : bindings.names.Pairwise (· ≠ ·) := (List.mergeSort_perm _ _).nodup_iff.mpr h
  exact sorted.imp₂ (fun _ _ le ne => Std.lt_of_le_of_ne (of_decide_eq_true le) ne) nodup

end Bindings

/-! ### The frames around an environment -/

namespace Store

variable {s : Store} {env e root : Env} {front back frames : List Env} {name : String}

/-- The frames from an environment outwards, one inside the other, and the root behind them. -/
inductive Path (s : Store) : Env → List Env → Env → Prop
  | root {root : Env} (h : root.isRoot) : Path s root [] root
  | frame {env root : Env} {frames : List Env} {frame : Frame} (found : s.frame? env = some frame)
      (inside : frame.parent < env.number) (rest : Path s ⟨env.tree, frame.parent⟩ frames root) :
      Path s env (env :: frames) root

/-- The frame of an environment itself binds a name. -/
def Binds (s : Store) (env : Env) (name : String) : Bool :=
  (s.local? env name).isSome

/-- The number of frames in front of the innermost one that binds a name. -/
def depth (s : Store) (env : Env) (name : String) : Nat :=
  (s.chain env).findIdx (s.Binds · name)

/-- The names that a frame binds, in ascending order. -/
def names (s : Store) (env : Env) : List String :=
  ((s.frame? env).map (·.bindings.names)).getD []

theorem mem_names : name ∈ s.names env ↔ s.Binds env name := by
  unfold names Binds local?
  cases s.frame? env with
  | none => simp
  | some frame => exact Bindings.mem_names

theorem lookup_of_not_binds {frame : Frame} (found : s.frame? env = some frame)
    (free : ¬ s.Binds env name) : frame.bindings.lookup name = none := by
  simpa only [Binds, local?, found, Option.bind_some, Bool.not_eq_true,
    Option.isSome_eq_false_iff, Option.isNone_iff_eq_none] using free

/-- A root binds nothing. -/
theorem binds_root (h : root.isRoot) : s.Binds root name = false := by
  rw [Binds, local?, frame?_root h, Option.bind_none, Option.isSome_none]

namespace Path

theorem isRoot (path : s.Path env frames root) : root.isRoot := by
  induction path with
  | root h => exact h
  | frame _ _ _ ih => exact ih

/-- The chain of an environment is its path. -/
theorem chain_eq (path : s.Path env frames root) : s.chain env = frames ++ [root] := by
  induction path with
  | root h =>
    rw [chain, parent?, frame?_root h]
    rfl
  | @frame env root frames frame found inside rest ih =>
    rw [chain, parent?, found, Option.map_some]
    simp only [inside, if_true, ih, List.cons_append]

/-- A name is visible when a frame of the path binds it. -/
theorem mem_visible (path : s.Path env frames root) :
    name ∈ s.visible env ↔ ∃ e ∈ frames, s.Binds e name := by
  have bare : ¬ s.Binds root name := by
    rw [binds_root path.isRoot]
    exact Bool.false_ne_true
  show name ∈ ((s.chain env).flatMap s.names).eraseDups ↔ _
  simp [List.mem_eraseDups, path.chain_eq, mem_names, bare]

/-- The frames in front of the innermost one that binds a name are those that do not. -/
theorem depth_eq (path : s.Path env (front ++ e :: back) root)
    (free : ∀ passed ∈ front, ¬ s.Binds passed name) (binds : s.Binds e name) :
    s.depth env name = front.length := by
  have bare : front.findIdx (s.Binds · name) = front.length :=
    List.findIdx_eq_length.mpr fun passed member => Bool.eq_false_iff.mpr (free passed member)
  rw [depth, path.chain_eq, List.append_assoc, List.findIdx_append, bare,
    if_neg (Nat.lt_irrefl _), List.cons_append, List.findIdx_cons, binds, cond_true,
    Nat.zero_add]

end Path

/-- Visible names stand in the order of the innermost frames that bind them, and those of one frame
in ascending order. -/
theorem visible_pairwise
    (nodup : ∀ env frame, s.frame? env = some frame → (frame.bindings.map (·.1)).Nodup) :
    (s.visible env).Pairwise fun a b =>
      s.depth env a < s.depth env b ∨ s.depth env a = s.depth env b ∧ a < b := by
  have sorted : ∀ e ∈ s.chain env, (s.names e).Pairwise (· < ·) := by
    intro e _
    unfold names
    cases found : s.frame? e with
    | none => exact .nil
    | some frame => exact Bindings.names_pairwise (nodup e frame found)
  have ordered := pairwise_eraseDups_flatMap (fun _ _ => mem_names) sorted fun _ => true
  rwa [List.filter_eq_self.mpr fun _ _ => rfl] at ordered

/-- What stands in such an order stands there once. -/
theorem nodup_visible
    (nodup : ∀ env frame, s.frame? env = some frame → (frame.bindings.map (·.1)).Nodup) :
    (s.visible env).Nodup := by
  refine (visible_pairwise nodup).imp ?_
  rintro a b (deeper | ⟨_, less⟩) rfl
  · exact Nat.lt_irrefl _ deeper
  · exact String.lt_irrefl _ less

end Store

end Retrace
