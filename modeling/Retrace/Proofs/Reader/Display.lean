/-
The prefix form of a tree determines it.

* `Literal.Plain` — literals that a text can have: numbers without a sign, and symbols that
  are not written like other literals.
* `Node.Shows` — the grammar of the prefix form.
* `Shows.unique` — a text shows at most one tree, and leaves one rest.
* `Node.text_injective` — so trees with plain leaves are told apart by their prefix forms.
* **`Reader.text_determines`** — trees that are read from any texts with any operators are
  the same up to places if they are shown alike.

Design notes:
* An application is shown behind its operator, which can be an application itself. So the
  grammar of the prefix form reads a head and then goes on from it, as the grammar of programs
  does with argument lists. No rule begins with the tree that it makes.
* Lists, arguments and blocks differ in their brackets and their separator only.
* Which trees are read plays no part but for their leaves, and these are the tokens of the
  text.
-/
import Retrace.Proofs.Reader.Leaves
import Retrace.Proofs.Token.Quoted

namespace Retrace

open Lexer Text

/-! ### Leaves -/

/-- The characters between the atoms of a prefix form, and the quote that a string begins with. -/
def dividers : List Char :=
  ['[', ']', '\x7b', '\x7d', ',', ';', ' ', '"']

/-- Characters of numbers and symbols. -/
def isSolid (c : Char) : Bool :=
  !dividers.contains c

/-- Texts of symbols that are not written like another literal. -/
def isSymbol (s : String) : Bool :=
  s.toList.all isSolid && s.toList.head?.any (!·.isDigit) && s ≠ "true" && s ≠ "false"

/-- Literals that a text can have: numbers without a sign, and symbols that are not written like
other literals. -/
def Literal.Plain : Literal → Prop
  | int n => 0 ≤ n
  | symbol s => isSymbol s
  | str _ | bool _ => True

theorem solid_of_nameRest {c : Char} (h : isNameRest c) : isSolid c := by
  by_cases ascii : c.toNat < 0x80
  · exact of_ascii (P := fun c => isNameRest c → isSolid c) (by decide +kernel) ascii h
  · have all : dividers.all (·.toNat < 0x80) := rfl
    rw [isSolid, Bool.not_eq_true']
    refine Bool.eq_false_iff.mpr fun member => ascii ?_
    exact of_decide_eq_true (List.all_eq_true.mp all c (List.contains_iff_mem.mp member))

theorem solid_of_digit {c : Char} (h : c.isDigit) : isSolid c :=
  of_ascii (P := fun c => c.isDigit → isSolid c) (by decide +kernel) (digit_ascii h) h

theorem nameRest_of_nameStart {c : Char} (h : isNameStart c) : isNameRest c := by
  rw [isNameStart, Bool.or_eq_true] at h
  rw [isNameRest, Bool.or_eq_true, Bool.or_eq_true]
  exact h.imp_left .inl

theorem isSymbol_of_identifier {s : String} (h : isIdentifier s) : isSymbol s := by
  obtain ⟨isWord, free⟩ := Bool.and_eq_true_iff.mp h
  obtain ⟨c, cs, chars, start, continues⟩ := isWord_iff.mp isWord
  have solid : ∀ d ∈ s.toList, isSolid d := by
    rw [chars]
    refine List.forall_mem_cons.mpr ⟨solid_of_nameRest (nameRest_of_nameStart start), ?_⟩
    exact fun d member => solid_of_nameRest (continues d member)
  have noTrue : s ≠ "true" := by
    rintro rfl
    cases free
  have noFalse : s ≠ "false" := by
    rintro rfl
    cases free
  have first : s.toList.head?.any (!·.isDigit) := by
    rw [chars]
    simp [digit_not_nameStart start]
  simp only [isSymbol, List.all_eq_true.mpr solid, first, noTrue, noFalse, Bool.and_self,
    decide_true, ne_eq, not_false_eq_true]

/-- The leaves of the tokens of a text are plain. -/
theorem Token.literal_plain {t : Token} {literal : Literal} (h : t.literal? = some literal)
    (writable : t.Writable) : literal.Plain := by
  cases t with
  | int n =>
    obtain rfl := Option.some.inj h
    exact writable
  | str s | bool b =>
    obtain rfl := Option.some.inj h
    trivial
  | name s =>
    obtain rfl := Option.some.inj h
    exact isSymbol_of_identifier writable
  | keyword k =>
    cases k with
    | back | not =>
      obtain rfl := Option.some.inj h
      exact rfl
    | _ => cases h
  | op o =>
    obtain rfl := Option.some.inj h
    cases o <;> exact rfl
  | mark | eof => cases h

/-! ### Literals -/

/-- The characters of a number, a truth value or a symbol are solid. -/
theorem Literal.text_solid {literal : Literal} (plain : literal.Plain)
    (noString : ∀ s, literal ≠ .str s) : ∀ c ∈ literal.text.toList, isSolid c := by
  cases literal with
  | int n =>
    obtain ⟨k, same⟩ := Int.eq_ofNat_of_zero_le (Int64.le_iff_toInt_le.mp plain)
    rw [text, same]
    show ∀ c ∈ (Nat.repr k).toList, isSolid c
    rw [Nat.toList_repr]
    intro c member
    exact solid_of_digit (Nat.isDigit_of_mem_toDigits (by decide) (by decide) member)
  | str s => exact absurd rfl (noString s)
  | bool b => exact List.all_eq_true.mp (by cases b <;> rfl)
  | symbol s =>
    simp only [Plain, isSymbol, Bool.and_eq_true, List.all_eq_true] at plain
    exact plain.1.1.1

/-- Numbers begin with a digit, and the other literals do not. -/
theorem Literal.text_digit {literal : Literal} (plain : literal.Plain) :
    literal.text.toList.head?.any Char.isDigit ↔ ∃ n, literal = .int n := by
  cases literal with
  | int n =>
    refine iff_of_true ?_ ⟨n, rfl⟩
    obtain ⟨k, same⟩ := Int.eq_ofNat_of_zero_le (Int64.le_iff_toInt_le.mp plain)
    rw [text, same]
    show (Nat.repr k).toList.head?.any Char.isDigit
    rw [Nat.toList_repr]
    cases digits : Nat.toDigits 10 k with
    | nil => exact absurd digits Nat.toDigits_ne_nil
    | cons c cs =>
      have member : c ∈ Nat.toDigits 10 k := digits ▸ List.mem_cons_self
      exact Nat.isDigit_of_mem_toDigits (by decide) (by decide) member
  | str s =>
    refine iff_of_false ?_ (by simp)
    rw [text, quoted, String.toList_ofList]
    exact Bool.false_ne_true
  | bool b => cases b <;> exact iff_of_false (by decide) (by simp)
  | symbol s =>
    refine iff_of_false ?_ (by simp)
    simp only [Plain, isSymbol, Bool.and_eq_true] at plain
    show ¬s.toList.head?.any Char.isDigit
    cases chars : s.toList with
    | nil => exact Bool.false_ne_true
    | cons c cs => simpa [chars] using plain.1.1.2

/-- Literals that are no strings are told apart by their texts. -/
theorem Literal.text_inj {a b : Literal} (plain : a.Plain) (plain' : b.Plain)
    (noString : ∀ s, a ≠ .str s) (noString' : ∀ s, b ≠ .str s) (same : a.text = b.text) :
    a = b := by
  have digit := text_digit plain
  rw [same, text_digit plain'] at digit
  cases a with
  | int n =>
    obtain ⟨m, rfl⟩ := digit.mpr ⟨n, rfl⟩
    exact congrArg Literal.int (Int64.toInt_inj.mp (Int.repr_inj.mp same))
  | str s => exact absurd rfl (noString s)
  | bool p =>
    cases b with
    | int m => exact nomatch digit.mp ⟨m, rfl⟩
    | str s => exact absurd rfl (noString' s)
    | bool q => cases p <;> cases q <;> first | rfl | exact absurd same (by decide)
    | symbol s =>
      simp only [Plain, isSymbol, Bool.and_eq_true, decide_eq_true_eq] at plain'
      cases p
      · exact absurd same.symm plain'.2
      · exact absurd same.symm plain'.1.2
  | symbol s =>
    cases b with
    | int m => exact nomatch digit.mp ⟨m, rfl⟩
    | str s => exact absurd rfl (noString' s)
    | bool q =>
      simp only [Plain, isSymbol, Bool.and_eq_true, decide_eq_true_eq] at plain
      cases q
      · exact absurd same plain.2
      · exact absurd same plain.1.2
    | symbol t => exact congrArg Literal.symbol same

theorem Literal.text_ne_nil {literal : Literal} (plain : literal.Plain) :
    literal.text.toList ≠ [] := by
  cases literal with
  | int n =>
    have digit := (text_digit plain).mpr ⟨n, rfl⟩
    intro nothing
    rw [nothing] at digit
    cases digit
  | str s =>
    rw [text, quoted, String.toList_ofList]
    exact List.cons_ne_nil _ _
  | bool b => cases b <;> exact List.cons_ne_nil _ _
  | symbol s =>
    simp only [Plain, isSymbol, Bool.and_eq_true] at plain
    show s.toList ≠ []
    intro nothing
    simp [nothing] at plain

/-- A string begins with a quote, and no other literal does. -/
theorem Literal.text_quote {literal : Literal} (plain : literal.Plain) :
    literal.text.toList.head? = some '"' ↔ ∃ s, literal = .str s := by
  by_cases isString : ∃ s, literal = .str s
  · refine iff_of_true ?_ isString
    obtain ⟨s, rfl⟩ := isString
    rw [text, quoted, String.toList_ofList]
    rfl
  · refine iff_of_false (fun quote => ?_) isString
    have solid := text_solid plain (not_exists.mp isString) '"' (List.mem_of_mem_head? quote)
    exact Bool.noConfusion solid

/-- **Literals can be told apart** in front of a character that is not solid, and so can the texts
behind them. -/
theorem Literal.text_cancel {a b : Literal} {rest rest' : List Char} (plain : a.Plain)
    (plain' : b.Plain) (outside : Outside isSolid rest) (outside' : Outside isSolid rest')
    (same : a.text.toList ++ rest = b.text.toList ++ rest') : a = b ∧ rest = rest' := by
  have heads : a.text.toList.head? = b.text.toList.head? := by
    have heads := congrArg List.head? same
    rwa [List.head?_append_of_ne_nil _ (text_ne_nil plain),
      List.head?_append_of_ne_nil _ (text_ne_nil plain')] at heads
  have strings := text_quote plain
  rw [heads, text_quote plain'] at strings
  by_cases isString : ∃ s, a = .str s
  · obtain ⟨t, rfl⟩ := strings.mpr isString
    obtain ⟨s, rfl⟩ := isString
    obtain ⟨rfl, behind⟩ := quoted_cancel same
    exact ⟨rfl, behind⟩
  · have noString := not_exists.mp isString
    have noString' := not_exists.mp fun found => isString (strings.mp found)
    obtain ⟨text, behind⟩ := append_class (text_solid plain noString) (text_solid plain' noString')
      outside outside' same
    exact ⟨text_inj plain plain' noString noString' (String.toList_inj.mp text), behind⟩

namespace Node

/-! ### The grammar of the prefix form -/

/-- What stands between brackets. The arguments of an application are shown like a list. -/
inductive Enclosure
  | list
  | block

namespace Enclosure

def opening : Enclosure → Char
  | list => '['
  | block => '\x7b'

def closing : Enclosure → Char
  | list => ']'
  | block => '\x7d'

def separator : Enclosure → String
  | list => ", "
  | block => "; "

/-- Trees between brackets, as a tree without a place. -/
def node : Enclosure → List Node → Node
  | list => listOf
  | block => blockOf

end Enclosure

/-- The productions of the prefix form. -/
inductive Shape
  | tree
  /-- The arguments of a tree. -/
  | applied (op : Node)
  /-- Trees through the closing bracket. -/
  | items (e : Enclosure)
  /-- The same, behind the first of them. -/
  | more (e : Enclosure)

/-- A text shows trees, and more text is behind them. -/
inductive Shows : Shape → List Char → List Node → List Char → Prop
  | atom {literal : Literal} {text nodes rest} (plain : literal.Plain)
      (outside : Outside isSolid text)
      (others : Shows (.applied (.atom literal default)) text nodes rest) :
      Shows .tree (literal.text.toList ++ text) nodes rest
  | enclosed {e : Enclosure} {text items text' nodes rest}
      (inside : Shows (.items e) text items text')
      (others : Shows (.applied (e.node items)) text' nodes rest) :
      Shows .tree (e.opening :: text) nodes rest
  | unapplied {op text} (other : text.head? ≠ some '[') : Shows (.applied op) text [op] text
  | applied {op text args text' nodes rest} (inside : Shows (.items .list) text args text')
      (others : Shows (.applied (call op args)) text' nodes rest) :
      Shows (.applied op) ('[' :: text) nodes rest
  | nothing {e : Enclosure} {text} : Shows (.items e) (e.closing :: text) [] text
  | items {e : Enclosure} {text node text' nodes rest} (first : Shows .tree text [node] text')
      (others : Shows (.more e) text' nodes rest) : Shows (.items e) text (node :: nodes) rest
  | closed {e : Enclosure} {text} : Shows (.more e) (e.closing :: text) [] text
  | separated {e : Enclosure} {text node text' nodes rest} (first : Shows .tree text [node] text')
      (others : Shows (.more e) text' nodes rest) :
      Shows (.more e) (e.separator.toList ++ text) (node :: nodes) rest

namespace Shows

variable {e : Enclosure} {op : Node} {nodes nodes' : List Node} {text rest rest' : List Char}
  {shape : Shape}

theorem tree_inv (h : Shows .tree text nodes rest) :
    (∃ literal text', text = literal.text.toList ++ text' ∧ literal.Plain ∧
      Outside isSolid text' ∧ Shows (.applied (.atom literal default)) text' nodes rest) ∨
    ∃ (e : Enclosure) (text' : _) (items : _) (text'' : _), text = e.opening :: text' ∧
      Shows (.items e) text' items text'' ∧ Shows (.applied (e.node items)) text'' nodes rest := by
  cases h with
  | atom plain outside others => exact .inl ⟨_, _, rfl, plain, outside, others⟩
  | enclosed inside others => exact .inr ⟨_, _, _, _, rfl, inside, others⟩

theorem items_inv (h : Shows (.items e) text nodes rest) :
    (text = e.closing :: rest ∧ nodes = []) ∨
    ∃ node text' others, nodes = node :: others ∧ Shows .tree text [node] text' ∧
      Shows (.more e) text' others rest := by
  cases h with
  | nothing => exact .inl ⟨rfl, rfl⟩
  | items first others => exact .inr ⟨_, _, _, rfl, first, others⟩

theorem more_inv (h : Shows (.more e) text nodes rest) :
    (text = e.closing :: rest ∧ nodes = []) ∨
    ∃ text' node text'' others, text = e.separator.toList ++ text' ∧ nodes = node :: others ∧
      Shows .tree text' [node] text'' ∧ Shows (.more e) text'' others rest := by
  cases h with
  | closed => exact .inl ⟨rfl, rfl⟩
  | separated first others => exact .inr ⟨_, _, _, _, rfl, rfl, first, others⟩

/-- An atom does not begin with a bracket. -/
theorem atom_ne {literal : Literal} (plain : literal.Plain) {c : Char} (divides : isSolid c = false)
    (noQuote : c ≠ '"') : (literal.text.toList ++ text).head? ≠ some c := by
  rw [List.head?_append_of_ne_nil _ (Literal.text_ne_nil plain)]
  intro same
  by_cases isString : ∃ s, literal = .str s
  · rw [(Literal.text_quote plain).mpr isString] at same
    exact noQuote (Option.some.inj same).symm
  · have solid := Literal.text_solid plain (not_exists.mp isString) c (List.mem_of_mem_head? same)
    rw [divides] at solid
    exact Bool.noConfusion solid

/-- A tree does not begin with a bracket that closes. -/
theorem tree_ne (h : Shows .tree text nodes rest) (e : Enclosure) :
    text.head? ≠ some e.closing := by
  obtain ⟨literal, text', rfl, plain, _⟩ | ⟨e', text', _, _, rfl, _⟩ := h.tree_inv
  · exact atom_ne plain (by cases e <;> rfl) (by cases e <;> decide)
  · cases e <;> cases e' <;> exact fun same => nomatch same

/-- **The prefix form is unambiguous**: a text shows at most one tree, and leaves one rest. -/
theorem unique (h : Shows shape text nodes rest) (h' : Shows shape text nodes' rest') :
    nodes = nodes' ∧ rest = rest' := by
  induction h generalizing nodes' rest' with
  | @atom literal text _ _ plain outside _ ih =>
    obtain ⟨literal', text', same, plain', outside', others⟩ | ⟨e, _, _, _, same, _⟩ := h'.tree_inv
    · obtain ⟨rfl, rfl⟩ := Literal.text_cancel plain plain' outside outside' same
      exact ih others
    · refine absurd (congrArg List.head? same) (atom_ne plain ?_ ?_)
      · cases e <;> rfl
      · cases e <;> decide
  | @enclosed e text _ _ _ _ _ _ ih₁ ih₂ =>
    obtain ⟨literal, text', same, plain, _⟩ | ⟨e', text', items, _, same, inside, others⟩ :=
      h'.tree_inv
    · refine absurd (congrArg List.head? same).symm (atom_ne plain ?_ ?_)
      · cases e <;> rfl
      · cases e <;> decide
    · obtain ⟨opening, rfl⟩ := List.cons.inj same
      obtain rfl : e = e' := by
        cases e <;> cases e' <;> first | rfl | exact absurd opening (by decide)
      obtain ⟨rfl, rfl⟩ := ih₁ inside
      exact ih₂ others
  | unapplied other =>
    cases h' with
    | unapplied => exact ⟨rfl, rfl⟩
    | applied => exact absurd rfl other
  | applied _ _ ih₁ ih₂ =>
    cases h' with
    | unapplied other => exact absurd rfl other
    | applied inside others =>
      obtain ⟨rfl, rfl⟩ := ih₁ inside
      exact ih₂ others
  | @nothing e text =>
    obtain ⟨same, rfl⟩ | ⟨_, _, _, _, first, _⟩ := h'.items_inv
    · exact ⟨rfl, (List.cons.inj same).2⟩
    · exact absurd rfl (first.tree_ne e)
  | @items e text _ _ _ _ first _ ih₁ ih₂ =>
    obtain ⟨rfl, rfl⟩ | ⟨node, _, nodes, rfl, first', others⟩ := h'.items_inv
    · exact absurd rfl (first.tree_ne e)
    · obtain ⟨node, rfl⟩ := ih₁ first'
      obtain ⟨nodes, rest⟩ := ih₂ others
      exact ⟨by rw [(List.cons.inj node).1, nodes], rest⟩
  | @closed e text =>
    obtain ⟨same, rfl⟩ | ⟨_, _, _, _, same, _⟩ := h'.more_inv
    · exact ⟨rfl, (List.cons.inj same).2⟩
    · cases e <;> exact nomatch congrArg List.head? same
  | @separated e text _ _ _ _ _ _ ih₁ ih₂ =>
    obtain ⟨same, _⟩ | ⟨text', node, _, nodes, same, rfl, first, others⟩ := h'.more_inv
    · cases e <;> exact nomatch congrArg List.head? same
    · obtain rfl := List.append_cancel_left same
      obtain ⟨node, rfl⟩ := ih₁ first
      obtain ⟨nodes, rest⟩ := ih₂ others
      exact ⟨by rw [(List.cons.inj node).1, nodes], rest⟩

end Shows

/-! ### Trees are shown -/

/-- A tree whose leaves are literals that a text can have. -/
def Plain (node : Node) : Prop :=
  ∀ literal ∈ node.leaves, literal.Plain

theorem mem_arranged {operator : Bool} {op : List Literal} {args : List (List Literal)}
    {literal : Literal} :
    literal ∈ arranged operator op args ↔ literal ∈ op ∨ literal ∈ args.flatten := by
  unfold arranged
  split
  · simp only [List.mem_append, List.flatten_cons, List.flatten_nil, List.append_nil]
    tauto
  · rw [List.mem_append]

/-- The word of a special form is a symbol. -/
theorem plain_of_form {op : Node} {form : Form} (h : op.form? = some form) : op.Plain := by
  obtain ⟨name, symbol, named⟩ := Option.bind_eq_some_iff.mp h
  have text : form.name = name := of_decide_eq_true (List.find?_eq_some_iff_append.mp named).1
  cases op with
  | atom literal span =>
    cases literal with
    | symbol s =>
      obtain rfl := Option.some.inj symbol
      refine List.forall_mem_singleton.mpr ?_
      rw [← text]
      cases form <;> rfl
    | int | str | bool => cases symbol
  | apply | list | block => cases symbol

/-- The parts of an application have its leaves. -/
theorem Plain.parts {op : Node} {args : List Node} {span : Span}
    (h : (apply op args span).Plain) : op.Plain ∧ ∀ literal ∈ leavesAll args, literal.Plain := by
  rw [Plain, leaves] at h
  split at h
  · next isForm =>
    rw [isBlockForm, Bool.or_eq_true, Bool.or_eq_true] at isForm
    simp only [decide_eq_true_eq] at isForm
    obtain (form | form) | form := isForm <;> exact ⟨plain_of_form form, h⟩
  · exact ⟨fun literal member => h literal (mem_arranged.mpr (.inl member)),
      fun literal member => h literal (mem_arranged.mpr (.inr member))⟩

/-- What is behind the first of some trees between brackets. -/
def behind (e : Enclosure) (rest : List Char) : List Node → List Char
  | [] => e.closing :: rest
  | node :: nodes => e.separator.toList ++ (node.text.toList ++ behind e rest nodes)

theorem joined_cons (e : Enclosure) (rest : List Char) (node : Node) (nodes : List Node) :
    (joined e.separator (node :: nodes)).toList ++ e.closing :: rest =
      node.text.toList ++ behind e rest nodes := by
  induction nodes generalizing node with
  | nil => rw [joined, behind]
  | cons next nodes ih =>
    rw [joined, behind, String.toList_append, String.toList_append, List.append_assoc,
      List.append_assoc, ih]

theorem behind_outside (e : Enclosure) (rest : List Char) (nodes : List Node) :
    Outside isSolid (behind e rest nodes) ∧ (behind e rest nodes).head? ≠ some '[' := by
  cases nodes <;> cases e <;> refine ⟨?_, by simp [behind, Enclosure.closing, Enclosure.separator]⟩
  all_goals
    rintro _ ⟨⟩
    rfl

mutual

/-- The text of a tree shows it, and then what is behind the text. -/
theorem shows_tree (node : Node) (plain : node.Plain) {text rest : List Char} {nodes : List Node}
    (outside : Outside isSolid text) (others : Shows (.applied node.bare) text nodes rest) :
    Shows .tree (node.text.toList ++ text) nodes rest := by
  cases node with
  | atom literal span => exact .atom (List.forall_mem_singleton.mp plain) outside others
  | list items span =>
    have shown : (list items span).text.toList ++ text =
        '[' :: ((joined ", " items).toList ++ ']' :: text) := by simp [Node.text]
    rw [shown]
    exact .enclosed (shows_items .list items plain text) others
  | block statements span =>
    have shown : (block statements span).text.toList ++ text =
        '\x7b' :: ((joined "; " statements).toList ++ '\x7d' :: text) := by simp [Node.text]
    rw [shown]
    exact .enclosed (shows_items .block statements plain text) others
  | apply op args span =>
    obtain ⟨plainOp, plainArgs⟩ := plain.parts
    have shown : (apply op args span).text.toList ++ text =
        op.text.toList ++ '[' :: ((joined ", " args).toList ++ ']' :: text) := by simp [Node.text]
    have bracket : Outside isSolid ('[' :: ((joined ", " args).toList ++ ']' :: text)) := by
      rintro _ ⟨⟩
      rfl
    rw [shown]
    exact shows_tree op plainOp bracket (.applied (shows_items .list args plainArgs text) others)

theorem shows_items (e : Enclosure) (nodes : List Node)
    (plain : ∀ literal ∈ leavesAll nodes, literal.Plain) (text : List Char) :
    Shows (.items e) ((joined e.separator nodes).toList ++ e.closing :: text) (bareAll nodes)
      text := by
  match nodes with
  | [] => exact .nothing
  | node :: nodes =>
    have plain' := List.forall_mem_append.mp plain
    obtain ⟨outside, noBracket⟩ := behind_outside e text nodes
    rw [joined_cons]
    exact .items (shows_tree node plain'.1 outside (.unapplied noBracket))
      (shows_more e nodes plain'.2 text)

theorem shows_more (e : Enclosure) (nodes : List Node)
    (plain : ∀ literal ∈ leavesAll nodes, literal.Plain) (text : List Char) :
    Shows (.more e) (behind e text nodes) (bareAll nodes) text := by
  match nodes with
  | [] => exact .closed
  | node :: nodes =>
    have plain' := List.forall_mem_append.mp plain
    obtain ⟨outside, noBracket⟩ := behind_outside e text nodes
    exact .separated (shows_tree node plain'.1 outside (.unapplied noBracket))
      (shows_more e nodes plain'.2 text)

end

/-- **Trees with plain leaves are told apart by their prefix forms.** -/
theorem text_injective {node node' : Node} (plain : node.Plain) (plain' : node'.Plain)
    (same : node.text = node'.text) : node.bare = node'.bare := by
  have shown : ∀ tree : Node, tree.Plain → Shows .tree (tree.text.toList ++ []) [tree.bare] [] :=
    fun tree plain => shows_tree tree plain nofun (.unapplied nofun)
  have first := shown node plain
  rw [same] at first
  exact (List.cons.inj (first.unique (shown node' plain')).1).1

end Node

/-! ### What a reader reads -/

namespace Reader

variable {text text' : String} {config config' : ReaderConfig} {r r' : Reader} {node node' : Node}

/-- The trees that a reader gives have plain leaves. -/
theorem read_plain (h : Reached text config r) (result : r.read.1 = .ok (some node)) :
    node.Plain := by
  have found := result_of_read (Prod.ext result rfl : r.read = (.ok (some node), r.read.2))
  obtain ⟨semicolons, feed, rest, same, _, reads, _⟩ :=
    ((yields_onward r.config.operators _).result h.lexed.proper found.1).2 node rfl
  have inside : ∀ item ∈ feed, item ∈ r.cursor.feed := fun item member =>
    same ▸ List.mem_append_right _ member
  have leaves : feed.leaves = Node.leavesAll [node.bare] ++ rest.leaves :=
    reads.leaves (fun name member => h.lexed.named name (inside _ member)) trivial
  intro literal member
  have token : literal ∈ feed.leaves := by
    rw [leaves, Node.leavesAll_cons, Node.leaves_bare]
    exact List.mem_append_left _ (List.mem_append_left _ member)
  obtain ⟨item, here, leaf⟩ := List.mem_filterMap.mp token
  obtain ⟨t, rfl, leaf⟩ := Option.bind_eq_some_iff.mp leaf
  obtain ⟨other, writable⟩ := h.writable.feed (inside _ here)
  exact Token.literal_plain leaf (writable other)

/-- **The prefix form determines the tree.** Trees that are read from any texts, with any operators
and after whatever errors, are the same up to places if they are shown alike. -/
theorem text_determines (h : Reached text config r) (h' : Reached text' config' r')
    (result : r.read.1 = .ok (some node)) (result' : r'.read.1 = .ok (some node'))
    (same : node.text = node'.text) : node.bare = node'.bare :=
  Node.text_injective (read_plain h result) (read_plain h' result') same

/-- A sum and a product that are grouped by the table of operators in one text, and by parentheses
against the table in another. -/
theorem text_determines_grouping :
    ∃ node node',
      (plain "x + 1 * 2;").read.1 = .ok (some node) ∧
      (ofText "x + (1 * 2);" ((ReaderConfig.standard .plain none).register "+" 9 .left).1).read.1 =
        .ok (some node') ∧
      node.text = node'.text ∧ node.span ≠ node'.span ∧ node.bare = node'.bare := by
  have result : (plain "x + 1 * 2;").read.1 = .ok (some (.apply (.symbol "+" ⟨2, 3⟩)
      [.symbol "x" ⟨0, 1⟩, .apply (.symbol "*" ⟨6, 7⟩)
        [.atom (.int 1) ⟨4, 5⟩, .atom (.int 2) ⟨8, 9⟩] ⟨4, 9⟩] ⟨0, 9⟩)) := by cbv
  have result' : (ofText "x + (1 * 2);"
      ((ReaderConfig.standard .plain none).register "+" 9 .left).1).read.1 =
      .ok (some (.apply (.symbol "+" ⟨2, 3⟩) [.symbol "x" ⟨0, 1⟩, .apply (.symbol "*" ⟨7, 8⟩)
        [.atom (.int 1) ⟨5, 6⟩, .atom (.int 2) ⟨9, 10⟩] ⟨5, 10⟩] ⟨0, 10⟩)) := by cbv
  exact ⟨_, _, result, result', rfl, by decide, text_determines .start .start result result' rfl⟩

end Reader

end Retrace
