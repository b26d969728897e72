/-
Trees of operators, grouped by how tightly the operators bind.

* `OpTree` — operators between two operands each, over operands that are taken whole.
* `OpTree.links` — the operators from left to right, each with the operand after it.
* `OpTree.Grouped` — every operator has operands that bind tightly enough for it.
* **`OpTree.Grouped.unique`** — operators in a row are grouped in one way only, whatever
  their levels and sides are.

Design notes: nothing is assumed of the bindings. Operators of one level may go to
different sides, and even then there is no choice: of two operators in a row, the one on
the right is below the other exactly if its level is at least what the other asks of its
right operand.
-/
import Retrace.Node.Basic
import Retrace.Operator.Table

namespace Retrace

/-- The least level of a right operand is the level of the operator or one above. -/
theorem Binding.level_le_right (b : Binding) : b.level ≤ b.right := by
  unfold right
  split <;> omega

theorem Binding.right_le (b : Binding) : b.right ≤ b.level + 1 := by
  unfold right
  split <;> omega

/-- An operator, how it binds, and the operand after it. -/
structure Link where
  op : String
  binding : Binding
  operand : Node

/-- Operators between two operands each, over operands that are taken whole. -/
inductive OpTree
  | unit (operand : Node)
  | join (left : OpTree) (op : String) (binding : Binding) (right : OpTree)

namespace OpTree

/-- The tree as the reader builds it, without places in the text. -/
def node : OpTree → Node
  | unit operand => operand
  | join left op _ right => .apply (.symbol op default) [left.node, right.node] default

/-- The operand that comes first. -/
def first : OpTree → Node
  | unit operand => operand
  | join left _ _ _ => left.first

/-- The operators from left to right, each with the operand after it. -/
def links : OpTree → List Link
  | unit _ => []
  | join left op binding right => left.links ++ ⟨op, binding, right.first⟩ :: right.links

/-- How the outermost operator binds. -/
def root? : OpTree → Option Binding
  | unit _ => none
  | join _ _ binding _ => some binding

/-- To the right of an operator stands what binds as tightly as it asks for, and to its left
stands what did not take it. -/
def Grouped : OpTree → Prop
  | unit _ => True
  | join left _ binding right =>
    left.Grouped ∧ right.Grouped ∧
      (∀ b, left.root? = some b → binding.level < b.right) ∧
      ∀ b, right.root? = some b → binding.right ≤ b.level

variable {t t' left right : OpTree} {b : Binding} {op : String} {n : Nat}

/-- The outermost operator is one of the operators. -/
theorem exists_link_of_root (h : t.root? = some b) : ∃ link ∈ t.links, link.binding = b := by
  cases t with
  | unit operand => exact nomatch h
  | join left op binding right =>
    obtain rfl := Option.some.inj h
    exact ⟨⟨op, binding, right.first⟩, by simp [links], rfl⟩

/-- If the outermost operator is of a level or above, then so are all. -/
theorem Grouped.le_level (h : t.Grouped) (outermost : ∀ b, t.root? = some b → n ≤ b.level) :
    ∀ link ∈ t.links, n ≤ link.binding.level := by
  induction t with
  | unit operand => exact fun link member => nomatch member
  | join left op binding right ihl ihr =>
    obtain ⟨hl, hr, below, above⟩ := h
    have here : n ≤ binding.level := outermost binding rfl
    intro link member
    rcases List.mem_append.mp member with member | member
    · -- the left part has an outermost level no lower than that of the whole
      refine ihl hl (fun b root => ?_) link member
      have := below b root
      have := b.right_le
      omega
    · rcases List.mem_cons.mp member with rfl | member
      · exact here
      · refine ihr hr (fun b root => ?_) link member
        have := above b root
        have := binding.level_le_right
        omega

/-- If the outermost operator did not take an operator of a level, then none did. -/
theorem Grouped.lt_right (h : t.Grouped) (outermost : ∀ b, t.root? = some b → n < b.right) :
    ∀ link ∈ t.links, n < link.binding.right := by
  induction t generalizing n with
  | unit operand => exact fun link member => nomatch member
  | join left op binding right ihl ihr =>
    obtain ⟨hl, hr, below, above⟩ := h
    have here : n < binding.right := outermost binding rfl
    intro link member
    rcases List.mem_append.mp member with member | member
    · refine ihl hl (fun b root => ?_) link member
      have := below b root
      have := binding.right_le
      omega
    · rcases List.mem_cons.mp member with rfl | member
      · exact here
      · -- what stands to the right is of a level that the outermost operator asks for
        have := hr.le_level above link member
        have := link.binding.level_le_right
        omega

/-- A grouped tree is what its operators and operands make it. -/
theorem Grouped.unique (h : t.Grouped) (h' : t'.Grouped) (sameFirst : t.first = t'.first)
    (sameLinks : t.links = t'.links) : t = t' := by
  induction t generalizing t' with
  | unit operand =>
    cases t' with
    | unit operand' => exact congrArg unit sameFirst
    | join left' op' binding' right' => exact absurd sameLinks (by simp [links])
  | join left op binding right ihl ihr =>
    cases t' with
    | unit operand' => exact absurd sameLinks (by simp [links])
    | join left' op' binding' right' =>
      obtain ⟨hl, hr, below, above⟩ := h
      obtain ⟨hl', hr', below', above'⟩ := h'
      rw [links, links] at sameLinks
      -- if one tree has its outermost operator before that of the other, then the later of the
      -- two is of a level that the earlier asks for, and at the same time it is not
      have clash : ∀ {l l' r r' : OpTree} {a a' : Binding} {o o' : String} {x : Link} {xs},
          r.Grouped → l'.Grouped → (∀ b, r.root? = some b → a.right ≤ b.level) →
          (∀ b, l'.root? = some b → a'.level < b.right) →
          l'.links = l.links ++ x :: xs →
          (⟨o, a, r.first⟩ : Link) :: r.links = x :: xs ++ ⟨o', a', r'.first⟩ :: r'.links →
          False := by
        intro l l' r r' a a' o o' x xs hr hl' above below' before behind
        obtain ⟨rfl, tail⟩ := List.cons.inj behind
        have asked := hr.le_level above ⟨o', a', r'.first⟩ (by rw [tail]; simp)
        have refused := hl'.lt_right below' ⟨o, a, r.first⟩ (by rw [before]; simp)
        exact absurd asked (Nat.not_le_of_lt refused)
      rcases List.append_eq_append_iff.mp sameLinks with ⟨xs, before, behind⟩ | ⟨xs, before, behind⟩
      · cases xs with
        | nil =>
          rw [List.append_nil] at before
          obtain ⟨link, others⟩ := List.cons.inj behind
          obtain ⟨rfl, rfl, same⟩ := Link.mk.inj link
          rw [ihl hl hl' sameFirst before.symm, ihr hr hr' same others]
        | cons x xs => exact absurd (clash hr hl' above below' before behind) id
      · cases xs with
        | nil =>
          rw [List.append_nil] at before
          obtain ⟨link, others⟩ := List.cons.inj behind
          obtain ⟨rfl, rfl, same⟩ := Link.mk.inj link
          rw [ihl hl hl' sameFirst before, ihr hr hr' same.symm others.symm]
        | cons x xs => exact absurd (clash hr' hl above' below before behind) id

end OpTree

end Retrace
