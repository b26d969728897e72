/-
The names that are offered are the nearest ones.

* `mem_eraseReps`, `pairwise_eraseReps` — in a list in order, repeats stand next to each other, so
  without neighbours that are equal every item is there once.
* `Report.Nearer` — one candidate stands before another: it is nearer to a name, or equally near
  and earlier in the order of texts.
* `Report.Ranked` — the candidates to be offered, in order.
* `Ranked.unique` — there is one such list, whatever the order of the candidates is and however
  often each of them is listed.
* **`similar_offers_nearest`** — the names that are offered are the first three of that list.

Design notes: candidates are sorted together with their distances, and the distance is that of the
candidate. So two entries with the same candidate are the same entry, and what is proved of the
entries is taken over to the candidates at the end.
-/
import Retrace.Proofs.Text.Distance
import Retrace.Report.Suggestion

namespace Retrace

/-! ### Repeats next to each other -/

section

variable {α : Type}

theorem eraseReps_loop (r : α → α → Bool) (a : α) (l kept : List α) :
    List.eraseRepsBy.loop r a l kept = kept.reverse ++ List.eraseRepsBy.loop r a l [] := by
  induction l generalizing a kept with
  | nil => simp [List.eraseRepsBy.loop]
  | cons b l ih =>
    unfold List.eraseRepsBy.loop
    split
    · exact ih a kept
    · rw [ih b (a :: kept), ih b [a], List.reverse_cons, List.append_assoc]
      rfl

variable [BEq α] [LawfulBEq α] {a b c : α} {l : List α}

/-- An item is dropped when the one behind it is equal. -/
theorem eraseReps_cons_cons :
    (a :: b :: l).eraseReps =
      if a == b then (b :: l).eraseReps else a :: (b :: l).eraseReps := by
  show List.eraseRepsBy.loop _ a (b :: l) [] = if a == b then List.eraseRepsBy.loop _ b l []
    else a :: List.eraseRepsBy.loop _ b l []
  rw [List.eraseRepsBy.loop]
  cases same : a == b with
  | true => rw [eq_of_beq same, if_pos rfl]
  | false =>
    rw [if_neg Bool.false_ne_true]
    exact eraseReps_loop _ b l [a]

/-- No item is lost. -/
theorem mem_eraseReps : c ∈ l.eraseReps ↔ c ∈ l := by
  induction l with
  | nil => rfl
  | cons a l ih =>
    cases l with
    | nil => rfl
    | cons b l =>
      rw [eraseReps_cons_cons]
      split
      · next same => rw [ih, eq_of_beq same, List.mem_cons (a := c) (b := b) (l := b :: l),
          or_iff_right_of_imp fun here => here ▸ List.mem_cons_self]
      · rw [List.mem_cons, ih, List.mem_cons (b := a)]

/-- In a list in order, nothing stands twice when neighbours differ. -/
theorem pairwise_eraseReps {le : α → α → Prop} (antisymm : ∀ a b, le a b → le b a → a = b)
    (sorted : l.Pairwise le) : l.eraseReps.Pairwise fun a b => le a b ∧ a ≠ b := by
  induction sorted with
  | nil => exact .nil
  | @cons a l first rest ih =>
    cases l with
    | nil => exact List.pairwise_singleton _ _
    | cons b l =>
      rw [eraseReps_cons_cons]
      split
      · exact ih
      · next differ =>
        refine List.pairwise_cons.mpr ⟨fun c member => ?_, ih⟩
        rw [mem_eraseReps] at member
        refine ⟨first c member, ?_⟩
        rintro rfl
        -- an equal item further on would have equal items only in front of it
        have here := first b (.head _)
        rcases List.mem_cons.mp member with rfl | later
        · exact differ (beq_self_eq_true _)
        · have back := (List.pairwise_cons.mp rest).1 _ later
          exact differ (beq_iff_eq.mpr (antisymm _ _ here back))

end

namespace Report

open Text

variable {name : String} {candidates others ranked ranked' : List String} {within : Nat}
  {p q r : Nat × String}

/-! ### The order of candidates -/

theorem noLater_iff : noLater p q = true ↔ p.1 < q.1 ∨ p.1 = q.1 ∧ p.2 ≤ q.2 := by
  simp [noLater]

theorem noLater_trans (first : noLater p q) (second : noLater q r) : noLater p r := by
  rw [noLater_iff] at first second ⊢
  rcases first with less | ⟨same, upTo⟩
  · exact .inl (second.elim less.trans fun equal => equal.1 ▸ less)
  · rw [same]
    exact second.imp_right (And.imp_right (String.le_trans upTo))

theorem noLater_total (p q : Nat × String) : noLater p q || noLater q p := by
  rw [Bool.or_eq_true, noLater_iff, noLater_iff]
  rcases Nat.lt_trichotomy p.1 q.1 with less | same | more
  · exact .inl (.inl less)
  · exact (String.le_total p.2 q.2).imp (fun upTo => .inr ⟨same, upTo⟩)
      fun upTo => .inr ⟨same.symm, upTo⟩
  · exact .inr (.inl more)

theorem noLater_antisymm (first : noLater p q) (second : noLater q p) : p = q := by
  rw [noLater_iff] at first second
  obtain ⟨same, upTo⟩ := first.resolve_left fun less => by omega
  obtain ⟨_, back⟩ := second.resolve_left fun less => by omega
  exact Prod.ext same (String.le_antisymm upTo back)

/-- One candidate stands before another: it is nearer to a name, or it is equally near and comes
first in the order of texts. -/
def Nearer (name a b : String) : Prop :=
  editDistance name.toList a.toList < editDistance name.toList b.toList ∨
    editDistance name.toList a.toList = editDistance name.toList b.toList ∧ a < b

theorem Nearer.ne {a b : String} (h : Nearer name a b) : a ≠ b := by
  rintro rfl
  rcases h with less | ⟨_, less⟩
  · exact Nat.lt_irrefl _ less
  · exact String.lt_irrefl _ less

theorem Nearer.asymm {a b : String} (h : Nearer name a b) : ¬Nearer name b a := by
  rintro (less | ⟨same, less⟩)
  · rcases h with more | ⟨same, _⟩ <;> omega
  · rcases h with more | ⟨_, more⟩
    · omega
    · exact String.lt_asymm more less

/-! ### Ranked candidates -/

/-- The candidates that are within a distance of a name and are not the name itself, in the order
in which they are offered. -/
structure Ranked (name : String) (candidates : List String) (within : Nat) (ranked : List String) :
    Prop where
  mem c : c ∈ ranked ↔ c ∈ candidates ∧ 0 < editDistance name.toList c.toList ∧
    editDistance name.toList c.toList ≤ within
  ordered : ranked.Pairwise (Nearer name)

namespace Ranked

/-- Every candidate is there once. -/
theorem nodup (h : Ranked name candidates within ranked) : ranked.Nodup :=
  h.ordered.imp Nearer.ne

/-- How candidates are listed makes no difference. -/
theorem congr (h : Ranked name candidates within ranked)
    (same : ∀ c, c ∈ candidates ↔ c ∈ others) : Ranked name others within ranked :=
  ⟨fun c => (h.mem c).trans (and_congr_left fun _ => same c), h.ordered⟩

/-- **There is one such list.** -/
theorem unique (h : Ranked name candidates within ranked)
    (h' : Ranked name candidates within ranked') : ranked = ranked' := by
  have perm : ranked.Perm ranked' :=
    (List.perm_ext_iff_of_nodup h.nodup h'.nodup).mpr fun c => (h.mem c).trans (h'.mem c).symm
  exact perm.eq_of_pairwise (fun _ _ _ _ before after => absurd after before.asymm)
    h.ordered h'.ordered

end Ranked

/-! ### What is offered -/

/-- The candidates that can be offered, with their distances, as often as they are listed. -/
def near (name : String) (candidates : List String) (within : Nat) : List (Nat × String) :=
  (candidates.map fun c => (distance name c, c)).filter fun (d, _) => 0 < d && d ≤ within

theorem mem_near : p ∈ near name candidates within ↔
    p.2 ∈ candidates ∧ p.1 = distance name p.2 ∧ 0 < p.1 ∧ p.1 ≤ within := by
  obtain ⟨d, c⟩ := p
  simp only [near, List.mem_filter, List.mem_map, Prod.mk.injEq, Bool.and_eq_true,
    decide_eq_true_eq]
  constructor
  · rintro ⟨⟨c, member, rfl, rfl⟩, bounds⟩
    exact ⟨member, rfl, bounds⟩
  · rintro ⟨member, rfl, bounds⟩
    exact ⟨⟨c, member, rfl, rfl⟩, bounds⟩

/-- The same in order, without repeats. -/
def entries (name : String) (candidates : List String) (within : Nat) : List (Nat × String) :=
  ((near name candidates within).mergeSort noLater).eraseReps

theorem similar_eq_take (name : String) (candidates : List String) (within : Nat) :
    similar name candidates within = ((entries name candidates within).map (·.2)).take 3 :=
  List.map_take

theorem mem_entries : p ∈ entries name candidates within ↔ p ∈ near name candidates within := by
  rw [entries, mem_eraseReps, (List.mergeSort_perm _ _).mem_iff]

theorem entries_pairwise (name : String) (candidates : List String) (within : Nat) :
    (entries name candidates within).Pairwise fun p q => noLater p q ∧ p ≠ q := by
  have sorted := List.pairwise_mergeSort (fun p q r => @noLater_trans p q r) noLater_total
    (near name candidates within)
  exact pairwise_eraseReps (fun _ _ => noLater_antisymm) sorted

/-- The candidates in the order of the entries are ranked. -/
theorem entries_ranked (name : String) (candidates : List String) (within : Nat) :
    Ranked name candidates within ((entries name candidates within).map (·.2)) := by
  constructor
  case mem =>
    intro c
    rw [List.mem_map, ← distance_eq_editDistance]
    constructor
    · rintro ⟨p, member, rfl⟩
      obtain ⟨listed, scored, bounds⟩ := mem_near.mp (mem_entries.mp member)
      exact ⟨listed, scored ▸ bounds⟩
    · rintro ⟨listed, bounds⟩
      exact ⟨(distance name c, c), mem_entries.mpr (mem_near.mpr ⟨listed, rfl, bounds⟩), rfl⟩
  case ordered =>
    refine List.pairwise_map.mpr ((entries_pairwise ..).imp_of_mem ?_)
    rintro p q hp hq ⟨upTo, differ⟩
    have scored := (mem_near.mp (mem_entries.mp hp)).2.1
    have scored' := (mem_near.mp (mem_entries.mp hq)).2.1
    rw [Nearer, ← distance_eq_editDistance, ← distance_eq_editDistance, ← scored, ← scored']
    refine (noLater_iff.mp upTo).imp_right fun ⟨same, texts⟩ => ⟨same, ?_⟩
    exact Std.lt_of_le_of_ne texts fun equal => differ (Prod.ext same equal)

/-- **The names that are offered are the nearest ones.** There is exactly one list of the candidates
that are within the distance of the name and differ from it, each once, the nearest first and those
that are equally near in the order of their texts. Its first three are offered, or all of them if
there are fewer. So it makes no difference in which order candidates are listed, and how often. -/
theorem similar_offers_nearest (name : String) (candidates : List String) (within : Nat) :
    (∃ ranked, Ranked name candidates within ranked ∧ ranked.Nodup ∧
      (∀ ranked', Ranked name candidates within ranked' → ranked' = ranked) ∧
      similar name candidates within = ranked.take 3) ∧
    ∀ others, (∀ c, c ∈ others ↔ c ∈ candidates) →
      similar name others within = similar name candidates within := by
  have ranked := entries_ranked name candidates within
  refine ⟨⟨_, ranked, ranked.nodup, fun _ other => other.unique ranked, similar_eq_take ..⟩, ?_⟩
  intro others same
  have listed := (entries_ranked name others within).congr same
  rw [similar_eq_take, similar_eq_take, listed.unique ranked]

/-- A candidate that is listed twice, the name itself, and one that is too far away. -/
example : similar "ab" ["b", "abc", "a", "b", "ab", "ba"] 1 = ["a", "abc", "b"] := by cbv

end Report

end Retrace
