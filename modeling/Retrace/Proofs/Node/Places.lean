/-
Trees and their places in a text.

* `Node.bare` — a tree without its places.
* `Node.placed` — a tree with other places.
* **`Node.bare_placed`** — a tree with other places is the same without them.

Design notes: places are changed everywhere in a tree and in the same way, so a change of
places is a function on spans. To leave them out is the change that makes them all one.
-/
import Retrace.Node.Basic

namespace Retrace.Node

/-! ### Without places -/

mutual

/-- A tree without its places in the text. -/
def bare : Node → Node
  | atom literal _ => atom literal default
  | apply op args _ => apply op.bare (bareAll args) default
  | list items _ => list (bareAll items) default
  | block statements _ => block (bareAll statements) default

/-- Trees without their places in the text. -/
def bareAll : List Node → List Node
  | [] => []
  | node :: nodes => node.bare :: bareAll nodes

end

theorem bareAll_eq_map (nodes : List Node) : bareAll nodes = nodes.map bare := by
  induction nodes with
  | nil => rfl
  | cons node nodes ih => rw [bareAll, ih, List.map_cons]

@[simp] theorem symbol?_bare (node : Node) : node.bare.symbol? = node.symbol? := by
  cases node with
  | atom literal span => cases literal <;> rfl
  | apply | list | block => rfl

@[simp] theorem form?_bare (op : Node) : op.bare.form? = op.form? := by
  rw [form?, form?, symbol?_bare]

theorem isBlockForm_bare (op : Node) : op.bare.isBlockForm = op.isBlockForm := by
  rw [isBlockForm, isBlockForm, form?_bare]

mutual

/-- Whether a tree ends with a block does not depend on places. -/
theorem endsWithBlock_bare (node : Node) : node.bare.endsWithBlock = node.endsWithBlock := by
  cases node with
  | atom | list | block => rfl
  | apply op args span =>
    rw [bare, endsWithBlock, endsWithBlock, isBlockForm_bare, lastEndsWithBlock_bareAll]

theorem lastEndsWithBlock_bareAll (nodes : List Node) :
    lastEndsWithBlock (bareAll nodes) = lastEndsWithBlock nodes := by
  match nodes with
  | [] => rfl
  | [node] => exact endsWithBlock_bare node
  | _ :: next :: nodes => exact lastEndsWithBlock_bareAll (next :: nodes)

end

mutual

/-- The text of a tree does not depend on places. -/
theorem text_bare (node : Node) : node.bare.text = node.text := by
  cases node with
  | atom => rfl
  | apply op args span => rw [bare, text, text, text_bare op, joined_bareAll]
  | list items span => rw [bare, text, text, joined_bareAll]
  | block statements span => rw [bare, text, text, joined_bareAll]

theorem joined_bareAll (separator : String) (nodes : List Node) :
    joined separator (bareAll nodes) = joined separator nodes := by
  match nodes with
  | [] => rfl
  | [node] => exact text_bare node
  | node :: next :: nodes =>
    rw [bareAll, bareAll, joined, joined, text_bare node, ← bareAll, joined_bareAll]

end

/-! ### Other places -/

mutual

/-- A tree with its parts in other places. -/
def placed (place : Span → Span) : Node → Node
  | atom literal span => atom literal (place span)
  | apply op args span => apply (op.placed place) (placedAll place args) (place span)
  | list items span => list (placedAll place items) (place span)
  | block statements span => block (placedAll place statements) (place span)

/-- Trees with their parts in other places. -/
def placedAll (place : Span → Span) : List Node → List Node
  | [] => []
  | node :: nodes => node.placed place :: placedAll place nodes

end

variable {place : Span → Span}

theorem placedAll_eq_map (nodes : List Node) :
    placedAll place nodes = nodes.map (placed place) := by
  induction nodes with
  | nil => rfl
  | cons node nodes ih => rw [placedAll, ih, List.map_cons]

theorem span_placed (place : Span → Span) (node : Node) :
    (node.placed place).span = place node.span := by
  cases node <;> rfl

mutual

/-- A tree in other places is the same without its places. -/
theorem bare_placed (node : Node) : (node.placed place).bare = node.bare := by
  cases node with
  | atom literal span => rfl
  | apply op args span => rw [placed, bare, bare, bare_placed op, bareAll_placedAll args]
  | list items span => rw [placed, bare, bare, bareAll_placedAll items]
  | block statements span => rw [placed, bare, bare, bareAll_placedAll statements]

theorem bareAll_placedAll (nodes : List Node) :
    bareAll (placedAll place nodes) = bareAll nodes := by
  match nodes with
  | [] => rfl
  | node :: nodes => rw [placedAll, bareAll, bareAll, bare_placed node, bareAll_placedAll nodes]

end

theorem endsWithBlock_placed (node : Node) :
    (node.placed place).endsWithBlock = node.endsWithBlock := by
  rw [← endsWithBlock_bare, bare_placed, endsWithBlock_bare]

@[simp] theorem symbol?_placed (node : Node) : (node.placed place).symbol? = node.symbol? := by
  rw [← symbol?_bare, bare_placed, symbol?_bare]

@[simp] theorem form?_placed (op : Node) : (op.placed place).form? = op.form? := by
  rw [← form?_bare, bare_placed, form?_bare]

mutual

theorem placed_default (node : Node) : node.placed (fun _ => default) = node.bare := by
  cases node with
  | atom literal span => rfl
  | apply op args span => rw [placed, bare, placed_default op, placedAll_default args]
  | list items span => rw [placed, bare, placedAll_default items]
  | block statements span => rw [placed, bare, placedAll_default statements]

theorem placedAll_default (nodes : List Node) :
    placedAll (fun _ => default) nodes = bareAll nodes := by
  match nodes with
  | [] => rfl
  | node :: nodes => rw [placedAll, bareAll, placed_default node, placedAll_default nodes]

end

mutual

theorem placed_id (node : Node) : node.placed id = node := by
  cases node with
  | atom literal span => rfl
  | apply op args span => rw [placed, placed_id op, placedAll_id args, id]
  | list items span => rw [placed, placedAll_id items, id]
  | block statements span => rw [placed, placedAll_id statements, id]

theorem placedAll_id (nodes : List Node) : placedAll id nodes = nodes := by
  match nodes with
  | [] => rfl
  | node :: nodes => rw [placedAll, placed_id node, placedAll_id nodes]

end

end Retrace.Node
