/-
Climbing builds the one tree that groups a row of operators.

* `ReadsBefore` — tokens that are read as one operand, in front of what comes after
  them.
* `Part` — an operator of a table and the operand after it.
* `climb_reads` — the operators of a row that are of a level or above are read, and
  those that the row has after them are left.
* `GroupsRow` — the parser of expressions builds the grouped tree of a row, and there is
  no other.
* **`expression_groups_operators`** — it does, where the last operand is read in front of
  what comes after the row.
* **`row_groups_before`** — that is so in front of any token but an opening parenthesis,
  `else` and the operators of the table.

Design notes: operands are whatever the parser of operands reads. Nothing is asked of
their tokens but that they are read when they stand alone, and that what follows the row
does not go on the last of them.
-/
import Retrace.Proofs.Operator.Grouping
import Retrace.Proofs.Reader.Complete
import Retrace.Proofs.Reader.Local

namespace Retrace

variable {table : OperatorTable} {after : Feed}

/-- Tokens that are read as an operand, in front of what comes after them. -/
def ReadsBefore (table : OperatorTable) (tokens : List Token) (after : Feed) (node : Node) :
    Prop :=
  ∃ (bound : Nat) (c c' : Cursor) (result : Node), c.Proper ∧ c.feed = tokens.map some ++ after ∧
    Grammar.operand (Grammar.upTo table bound) bound c = .ok result c' ∧ c'.feed = after ∧
    result.bare = node

/-- Tokens that are read as an operand when they stand alone. -/
def StandsAlone (table : OperatorTable) (tokens : List Token) (node : Node) : Prop :=
  ReadsBefore table tokens [] node

theorem ReadsBefore.reads {tokens : List Token} {node : Node}
    (h : ReadsBefore table tokens after node) :
    Reads table .operand (tokens.map some ++ after) [node] after := by
  obtain ⟨bound, c, c', result, proper, before, run, behind, bare⟩ := h
  have sound := Grammar.operand_sound (Grammar.upTo_sound table bound) bound _ c proper before
  rw [run] at sound
  have reads := sound.2
  rw [behind, bare] at reads
  exact reads

/-- What stands alone is read in the same way in front of tokens that do not go on it. -/
theorem StandsAlone.reads {tokens : List Token} {node : Node} {t : Token}
    (h : StandsAlone table tokens node) (next : after.next = some t) (fine : AfterOperand t) :
    Reads table .operand (tokens.map some ++ after) [node] after := by
  obtain ⟨u, same, reads⟩ := (ReadsBefore.reads h).local (.inr ⟨t, next, fine⟩)
  rw [List.append_nil, List.append_nil] at same
  rw [same]
  exact reads

/-! ### Rows of operators -/

/-- The tokens of an operand, and its tree. -/
structure Operand where
  tokens : List Token
  node : Node

/-- An operator, how it binds, and the operand after it. -/
structure Part where
  op : Operator
  binding : Binding
  operand : Operand

/-- An operator as the trees have it. -/
def Part.link (part : Part) : Link :=
  ⟨part.op.text, part.binding, part.operand.node⟩

/-- The tokens of a row of operators, and what comes after them. -/
def feedOf : List Part → Feed → Feed
  | [], after => after
  | part :: parts, after =>
    some (.op part.op) :: (part.operand.tokens.map some ++ feedOf parts after)

/-- The operand that comes last. -/
def lastOperand : Operand → List Part → Operand
  | operand, [] => operand
  | _, part :: parts => lastOperand part.operand parts

theorem lastOperand_append (operand : Operand) (parts parts' : List Part) :
    lastOperand operand (parts ++ parts') = lastOperand (lastOperand operand parts) parts' := by
  induction parts generalizing operand with
  | nil => rfl
  | cons part parts ih => exact ih part.operand

/-- Operators of a table, with operands that stand alone. -/
def IsRow (table : OperatorTable) (parts : List Part) : Prop :=
  ∀ part ∈ parts, table.find? part.op.text = some part.binding ∧
    StandsAlone table part.operand.tokens part.operand.node

/-- The last operand of a row stands alone as the others do. -/
theorem IsRow.last {operand : Operand} {parts : List Part} (row : IsRow table parts)
    (alone : StandsAlone table operand.tokens operand.node) :
    StandsAlone table (lastOperand operand parts).tokens (lastOperand operand parts).node := by
  induction parts generalizing operand with
  | nil => exact alone
  | cons part parts ih =>
    exact ih (fun part member => row part (.tail _ member)) (row part (.head _)).2

/-- Every operand of a row is read in front of the rest of the row. -/
theorem reads_operand {operand : Operand} {parts : List Part}
    (alone : StandsAlone table operand.tokens operand.node)
    (last : Reads table .operand ((lastOperand operand parts).tokens.map some ++ after)
      [(lastOperand operand parts).node] after) :
    Reads table .operand (operand.tokens.map some ++ feedOf parts after) [operand.node]
      (feedOf parts after) := by
  cases parts with
  | nil => exact last
  | cons part parts => exact alone.reads rfl ⟨nofun, nofun⟩

/-- The operators at the head of a row that are of a level or above, if a higher level is
looked at first. -/
theorem takeWhile_levels {least least' : Nat} (le : least ≤ least') (parts : List Part) :
    parts.takeWhile (least ≤ ·.binding.level) =
      parts.takeWhile (least' ≤ ·.binding.level) ++
        (parts.dropWhile (least' ≤ ·.binding.level)).takeWhile (least ≤ ·.binding.level) := by
  induction parts with
  | nil => rfl
  | cons part parts ih =>
    by_cases high : least' ≤ part.binding.level
    · have low : least ≤ part.binding.level := Nat.le_trans le high
      simp [high, low, ih]
    · simp [high]

theorem dropWhile_levels {least least' : Nat} (le : least ≤ least') (parts : List Part) :
    parts.dropWhile (least ≤ ·.binding.level) =
      (parts.dropWhile (least' ≤ ·.binding.level)).dropWhile (least ≤ ·.binding.level) := by
  induction parts with
  | nil => rfl
  | cons part parts ih =>
    by_cases high : least' ≤ part.binding.level
    · have low : least ≤ part.binding.level := Nat.le_trans le high
      simp [high, low, ih]
    · simp [high]

/-- A tree with the operators of a row that are of a level or above, and with a left part that
is given. -/
structure Climbed (table : OperatorTable) (least : Nat) (left : OpTree) (parts : List Part)
    (after : Feed) (tree : OpTree) : Prop where
  grouped : tree.Grouped
  first : tree.first = left.first
  links : tree.links = left.links ++ (parts.takeWhile (least ≤ ·.binding.level)).map Part.link
  reads : Reads table (.climb least left.node) (feedOf parts after) [tree.node]
    (feedOf (parts.dropWhile (least ≤ ·.binding.level)) after)

/-- The loop of operators builds grouped trees. -/
theorem climb_reads {t : Token} (next : after.next = some t) (ends : table.operator? t = none)
    (operand : Operand) (parts : List Part) (row : IsRow table parts)
    (last : Reads table .operand ((lastOperand operand parts).tokens.map some ++ after)
      [(lastOperand operand parts).node] after)
    (least : Nat) (left : OpTree) (grouped : left.Grouped)
    (untaken : ∀ part ∈ parts.head?, least ≤ part.binding.level →
      ∀ b, left.root? = some b → part.binding.level < b.right) :
    ∃ tree, Climbed table least left parts after tree := by
  -- the right operand and the rest of the loop both have fewer operators left
  induction size : parts.length using Nat.strongRecOn generalizing operand parts least left with
  | _ size' ih =>
    cases parts with
    | nil =>
      have loose : table.Loose least t := fun op b here => nomatch ends.symm.trans here
      exact ⟨left, grouped, rfl, by simp, .stop next loose⟩
    | cons part parts =>
      obtain ⟨found, alone⟩ := row part (.head _)
      have sign : table.operator? (.op part.op) = some (part.op.text, part.binding) := by
        show (table.find? part.op.text).map (part.op.text, ·) = _
        rw [found, Option.map_some]
      by_cases tight : least ≤ part.binding.level
      · -- the right operand takes the operators that are tight enough for it
        have others : IsRow table parts := fun part member => row part (.tail _ member)
        have shorter : parts.length < size' := by rw [← size, List.length_cons]; omega
        obtain ⟨right, hright⟩ := ih parts.length shorter part.operand parts others last
          part.binding.right (.unit part.operand.node) trivial
          (fun _ _ _ _ root => nomatch root) rfl
        have above : ∀ b, right.root? = some b → part.binding.right ≤ b.level := by
          intro b root
          obtain ⟨link, member, rfl⟩ := OpTree.exists_link_of_root root
          rw [hright.links, OpTree.links, List.nil_append] at member
          obtain ⟨part', member', rfl⟩ := List.mem_map.mp member
          show part.binding.right ≤ part'.binding.level
          simpa using List.all_eq_true.mp List.all_takeWhile part' member'
        -- and the loop goes on with those that it left
        have first := Reads.expression (reads_operand alone last) hright.reads
        have levels := takeWhile_levels (Nat.le_trans tight part.binding.level_le_right) parts
        have levels' := dropWhile_levels (Nat.le_trans tight part.binding.level_le_right) parts
        have taken := hright.links
        have split : parts.takeWhile (part.binding.right ≤ ·.binding.level) ++
          parts.dropWhile (part.binding.right ≤ ·.binding.level) = parts :=
            List.takeWhile_append_dropWhile
        have stopped := List.head?_dropWhile_not (part.binding.right ≤ ·.binding.level) parts
        have fewer := (List.dropWhile_suffix (l := parts)
          (part.binding.right ≤ ·.binding.level)).length_le
        generalize parts.takeWhile (part.binding.right ≤ ·.binding.level) = inner at *
        generalize parts.dropWhile (part.binding.right ≤ ·.binding.level) = rest at *
        have last' := last
        rw [lastOperand, ← split, lastOperand_append] at last'
        have remaining : IsRow table rest := fun part member =>
          others part (by rw [← split]; exact List.mem_append_right _ member)
        obtain ⟨tree, htree⟩ := ih rest.length (Nat.lt_of_le_of_lt fewer shorter)
          (lastOperand part.operand inner) rest remaining last' least
          (.join left part.op.text part.binding right)
          ⟨grouped, hright.grouped, untaken part rfl tight, above⟩ (by
            intro part' head _ b root
            obtain rfl := Option.some.inj root
            rw [head] at stopped
            simpa using stopped) rfl
        refine ⟨tree, htree.grouped, htree.first, ?_, ?_⟩
        · rw [htree.links, OpTree.links, taken, OpTree.links, hright.first, OpTree.first,
            List.takeWhile_cons_of_pos (by simpa using tight), levels]
          simp [Part.link]
        · rw [List.dropWhile_cons_of_pos (by simpa using tight), levels']
          exact .climb sign tight first htree.reads
      · refine ⟨left, grouped, rfl, by simp [tight], ?_⟩
        rw [List.dropWhile_cons_of_neg (by simpa using tight)]
        refine .stop rfl fun op b here => ?_
        obtain ⟨_, rfl⟩ := Prod.mk.inj (Option.some.inj (sign.symm.trans here))
        exact Nat.lt_of_not_le tight

/-- In front of what comes after a row, the parser of expressions takes the operators of the row up
to the first that is below its level. It builds a tree of them that is grouped, and no other tree
of them is. -/
def GroupsRow (table : OperatorTable) (least : Nat) (operand : Operand) (parts : List Part)
    (after : Feed) : Prop :=
  ∃ tree : OpTree,
    (tree.Grouped ∧ tree.first = operand.node ∧
      tree.links = (parts.takeWhile (least ≤ ·.binding.level)).map Part.link) ∧
    (∀ other : OpTree, other.Grouped → other.first = operand.node →
      other.links = (parts.takeWhile (least ≤ ·.binding.level)).map Part.link → other = tree) ∧
    ∀ c : Cursor, c.Proper → c.feed = operand.tokens.map some ++ feedOf parts after →
      ∃ result c', Parser.expression table least c = .ok result c' ∧
        result.bare = tree.node ∧ c'.Proper ∧
        c'.feed = feedOf (parts.dropWhile (least ≤ ·.binding.level)) after

/-- A row is grouped if its last operand is read in front of what comes after the row. -/
theorem row_groups {t : Token} (least : Nat) {operand : Operand} {parts : List Part}
    (alone : StandsAlone table operand.tokens operand.node) (row : IsRow table parts)
    (next : after.next = some t) (ends : table.operator? t = none)
    (last : Reads table .operand ((lastOperand operand parts).tokens.map some ++ after)
      [(lastOperand operand parts).node] after) :
    GroupsRow table least operand parts after := by
  obtain ⟨tree, htree⟩ := climb_reads next ends operand parts row last least (.unit operand.node)
    trivial fun _ _ _ _ root => nomatch root
  have first : tree.first = operand.node := htree.first
  have links := htree.links
  rw [OpTree.links, List.nil_append] at links
  refine ⟨tree, ⟨htree.grouped, first, links⟩, fun other grouped first' links' => ?_, ?_⟩
  · exact grouped.unique htree.grouped (first'.trans first.symm) (links'.trans links.symm)
  · intro c proper before
    have reads := Reads.expression (reads_operand alone last) htree.reads
    have run := expression_of_reads reads c proper before
    cases here : Parser.expression table least c with
    | error e c' =>
      rw [here] at run
      exact absurd run id
    | ok result c' =>
      rw [here] at run
      obtain ⟨proper', bare, behind⟩ := run
      exact ⟨result, c', rfl, (List.cons.inj bare).1, proper', behind⟩

/-- **A row is grouped in front of any token that does not go on it.** Only an operator of the
table, an argument list and `else` go on a row whose operands stand alone. -/
theorem row_groups_before {t : Token} (least : Nat) {operand : Operand} {parts : List Part}
    (alone : StandsAlone table operand.tokens operand.node) (row : IsRow table parts)
    (next : after.next = some t) (ends : table.operator? t = none) (fine : AfterOperand t) :
    GroupsRow table least operand parts after :=
  row_groups least alone row next ends ((row.last alone).reads next fine)

/-- **Climbing builds the one tree that groups a row of operators.** From a row of operands with
operators of the table between them, in front of a token that is no operator of the table and
that does not go on the last operand, the parser of expressions takes the operators up to the
first that is below its level. It builds a tree of them that is grouped, and no other tree of
them is. -/
theorem expression_groups_operators (table : OperatorTable) (least : Nat) (operand : Operand)
    (parts : List Part) (after : Feed) (t : Token)
    (alone : StandsAlone table operand.tokens operand.node) (row : IsRow table parts)
    (next : after.next = some t) (ends : table.operator? t = none)
    (last : ReadsBefore table (lastOperand operand parts).tokens after
      (lastOperand operand parts).node) :
    ∃ tree : OpTree,
      (tree.Grouped ∧ tree.first = operand.node ∧
        tree.links = (parts.takeWhile (least ≤ ·.binding.level)).map Part.link) ∧
      (∀ other : OpTree, other.Grouped → other.first = operand.node →
        other.links = (parts.takeWhile (least ≤ ·.binding.level)).map Part.link → other = tree) ∧
      ∀ c : Cursor, c.Proper → c.feed = operand.tokens.map some ++ feedOf parts after →
        ∃ result c', Parser.expression table least c = .ok result c' ∧
          result.bare = tree.node ∧ c'.Proper ∧
          c'.feed = feedOf (parts.dropWhile (least ≤ ·.binding.level)) after :=
  row_groups least alone row next ends last.reads

/-- A number as an operand. -/
def numberOperand (n : Int64) : Operand :=
  ⟨[.int n], .atom (.int n) default⟩

/-- A cursor before tokens that have no places. -/
def Cursor.ofTokens (tokens : List Token) : Cursor :=
  ⟨[], tokens.map fun token => .ok ⟨token, default⟩, ⟨.eof, default⟩, none⟩

/-- A product binds tighter than the sum that it stands in: what is read of `1 + 2 * 3;` is the
one tree that groups it. -/
theorem expression_groups_sum_of_product :
    ∃ tree : OpTree, tree.Grouped ∧
      tree.links.map (·.op) = ["+", "*"] ∧
      ∃ result c', Parser.expression .builtins 0
          (.ofTokens [.int 1, .op .add, .int 2, .op .mul, .int 3, .mark .semicolon])
        = .ok result c' ∧ result.bare = tree.node := by
  have proper : ∀ tokens, .eof ∉ tokens → (Cursor.ofTokens tokens).Proper := by
    intro tokens noEnd
    refine ⟨rfl, fun lexeme member => ?_, [], [], rfl, by simp, by simp, .inl rfl⟩
    obtain ⟨token, there, same⟩ := List.mem_map.mp member
    obtain rfl := Except.ok.inj same
    rintro rfl
    exact noEnd there
  have alone : ∀ n, StandsAlone .builtins [.int n] (.atom (.int n) default) := fun n =>
    ⟨1, .ofTokens [.int n], _, _, proper _ (by simp), rfl, rfl, rfl, rfl⟩
  obtain ⟨tree, ⟨grouped, _, links⟩, _, run⟩ := expression_groups_operators .builtins 0
    (numberOperand 1)
    [⟨.add, ⟨5, .left, true⟩, numberOperand 2⟩, ⟨.mul, ⟨6, .left, true⟩, numberOperand 3⟩]
    [some (.mark .semicolon)] (.mark .semicolon) (alone 1)
    (by
      intro part member
      simp only [List.mem_cons, List.not_mem_nil, or_false] at member
      rcases member with rfl | rfl
      · exact ⟨rfl, alone 2⟩
      · exact ⟨rfl, alone 3⟩)
    rfl rfl
    ⟨1, .ofTokens [.int 3, .mark .semicolon], _, _, proper _ (by simp), rfl, rfl, rfl, rfl⟩
  obtain ⟨result, c', parsed, bare, _⟩ := run
    (.ofTokens [.int 1, .op .add, .int 2, .op .mul, .int 3, .mark .semicolon])
    (proper _ (by simp)) rfl
  exact ⟨tree, grouped, by rw [links]; rfl, result, c', parsed, bare⟩

end Retrace
