/-
Trees that are read are well-formed.

* `Node.IsIdentifier` — a symbol that can be a name.
* `Form.Takes` — the operands of a special form.
* **`Node.WellFormed`** — a tree whose special forms have their operands, and in which no
  symbol of a special form stands by itself, at every depth.
* `Reads.wellFormed` — what the rules read is well-formed.
* `Reader.Reached` — the readers that reading and skipping lead to.
* **`Reader.read_wellFormed`** — every tree that a reader gives is well-formed, whatever its
  text and its operators, and after whatever errors.

Design notes:
* A definition stands among statements only, so what a tree is read as is part of being
  well-formed.
* The lexer knows the words that are no names, and evaluation tells special forms by
  their symbols. That the two agree is in `ofName?_identifier`.
* Only the names among the tokens matter, so that they are identifiers is all that is
  carried through reading.
-/
import Retrace.Proofs.Reader.Complete
import Retrace.Proofs.Reader.Local
import Retrace.Proofs.Reader.Motion
import Retrace.Proofs.Token.Items

namespace Retrace

/-- What a tree is read as. -/
inductive Place
  | statement
  | expression
  deriving DecidableEq

namespace Node

/-- A symbol that can be a name: a word that is no keyword. -/
def IsIdentifier (node : Node) : Prop :=
  ∃ name, node.symbol? = some name ∧ Lexer.isIdentifier name

/-- A list of symbols that can be names. -/
def IsParameters : Node → Prop
  | list params _ => ∀ param ∈ params, param.IsIdentifier
  | _ => False

/-- A block. -/
def IsBlock : Node → Prop
  | block _ _ => True
  | _ => False

/-- A conditional. -/
def IsConditional : Node → Prop
  | apply op _ _ => op.form? = some .conditional
  | _ => False

end Node

/-- The operands of a special form: a definition has a name and a value, and stands among
statements; a function has parameters and a block; a conditional has a condition, a block, and a
block or another conditional; the others have two operands. -/
def Form.Takes (place : Place) : Form → List Node → Prop
  | define, [name, _] => place = .statement ∧ name.IsIdentifier
  | function, [params, body] => params.IsParameters ∧ body.IsBlock
  | conditional, [_, consequent, alternative] =>
    consequent.IsBlock ∧ (alternative.IsBlock ∨ alternative.IsConditional)
  | choice, [_, _] | and, [_, _] | or, [_, _] => True
  | _, _ => False

namespace Node

mutual

/-- A tree that can be read in a place: a special form has its operands, and no symbol of a
special form stands by itself. -/
def WellFormed (place : Place) : Node → Prop
  | atom literal _ => ∀ name, literal = .symbol name → Form.ofName? name = none
  | apply op args _ =>
    match op.form? with
    | some form => form.Takes place args ∧ AllWellFormed .expression args
    | none => op.WellFormed .expression ∧ AllWellFormed .expression args
  | list items _ => AllWellFormed .expression items
  | block statements _ => AllWellFormed .statement statements

/-- Trees that can be read in a place. -/
def AllWellFormed (place : Place) : List Node → Prop
  | [] => True
  | node :: nodes => node.WellFormed place ∧ AllWellFormed place nodes

end

variable {place : Place} {node op : Node} {args : List Node} {span : Span}

theorem allWellFormed_iff {nodes : List Node} :
    AllWellFormed place nodes ↔ ∀ node ∈ nodes, node.WellFormed place := by
  induction nodes with
  | nil => simp [AllWellFormed]
  | cons node nodes ih => rw [AllWellFormed, ih, List.forall_mem_cons]

theorem wellFormed_special {form : Form} (special : op.form? = some form) :
    (apply op args span).WellFormed place ↔
      form.Takes place args ∧ AllWellFormed .expression args := by
  rw [WellFormed, special]

theorem wellFormed_call (plain : op.form? = none) :
    (apply op args span).WellFormed place ↔
      op.WellFormed .expression ∧ AllWellFormed .expression args := by
  rw [WellFormed, plain]

/-- A well-formed tree is no symbol of a special form. -/
theorem WellFormed.form?_eq_none (h : node.WellFormed place) : node.form? = none := by
  cases node with
  | atom literal span =>
    cases literal with
    | symbol name => exact h name rfl
    | int | str | bool => rfl
  | apply | list | block => rfl

end Node

variable {place : Place} {node op : Node} {args : List Node} {span : Span}

/-- What a special form takes among expressions it takes among statements. -/
theorem Form.Takes.statement {form : Form} (h : form.Takes .expression args) :
    form.Takes .statement args := by
  -- only a definition asks where it stands
  rcases args with _ | ⟨a, _ | ⟨b, _ | ⟨c, _ | ⟨d, others⟩⟩⟩⟩ <;> cases form <;>
    first | exact h | exact ⟨rfl, h.2⟩

/-- What can be read as an expression can be read as a statement. -/
theorem Node.WellFormed.statement (h : node.WellFormed .expression) :
    node.WellFormed .statement := by
  cases node with
  | atom | list | block => exact h
  | apply op args span =>
    cases special : op.form? with
    | none =>
      rw [wellFormed_call special] at h ⊢
      exact h
    | some form =>
      rw [wellFormed_special special] at h ⊢
      exact ⟨h.1.statement, h.2⟩

/-! ### Trees without their places in the text -/

namespace Node

theorem isIdentifier_bare : node.bare.IsIdentifier ↔ node.IsIdentifier := by
  rw [IsIdentifier, IsIdentifier, symbol?_bare]

theorem isParameters_bare : node.bare.IsParameters ↔ node.IsParameters := by
  cases node with
  | list params span =>
    rw [bare, IsParameters, IsParameters, bareAll_eq_map, List.forall_mem_map]
    exact forall₂_congr fun _ _ => isIdentifier_bare
  | atom | apply | block => exact Iff.rfl

theorem isBlock_bare : node.bare.IsBlock ↔ node.IsBlock := by
  cases node with
  | atom | apply | list | block => exact Iff.rfl

theorem isConditional_bare : node.bare.IsConditional ↔ node.IsConditional := by
  cases node with
  | apply op args span => rw [bare, IsConditional, IsConditional, form?_bare]
  | atom | list | block => exact Iff.rfl

theorem takes_bareAll {form : Form} :
    form.Takes place (bareAll args) ↔ form.Takes place args := by
  rcases args with _ | ⟨a, _ | ⟨b, _ | ⟨c, _ | ⟨d, others⟩⟩⟩⟩ <;> cases form <;>
    simp only [bareAll, Form.Takes, isIdentifier_bare, isParameters_bare, isBlock_bare,
      isConditional_bare]

mutual

/-- Whether a tree is well-formed does not depend on places. -/
theorem wellFormed_bare (place : Place) (node : Node) :
    node.bare.WellFormed place ↔ node.WellFormed place := by
  cases node with
  | atom literal span => exact Iff.rfl
  | list items span => exact allWellFormed_bareAll .expression items
  | block statements span => exact allWellFormed_bareAll .statement statements
  | apply op args span =>
    rw [bare]
    cases special : op.form? with
    | some form =>
      rw [wellFormed_special (special ▸ form?_bare op), wellFormed_special special,
        takes_bareAll, allWellFormed_bareAll .expression args]
    | none =>
      rw [wellFormed_call (special ▸ form?_bare op), wellFormed_call special,
        wellFormed_bare .expression op, allWellFormed_bareAll .expression args]

theorem allWellFormed_bareAll (place : Place) (nodes : List Node) :
    AllWellFormed place (bareAll nodes) ↔ AllWellFormed place nodes := by
  match nodes with
  | [] => exact Iff.rfl
  | node :: nodes =>
    rw [bareAll, AllWellFormed, AllWellFormed, wellFormed_bare place node,
      allWellFormed_bareAll place nodes]

end

end Node

/-! ### What the rules read -/

/-- A feed in which the names are identifiers. -/
def Feed.Named (feed : Feed) : Prop :=
  ∀ name, some (.name name) ∈ feed → Lexer.isIdentifier name

/-- What is known of a tree that a phrase reads. -/
def Phrase.Reading : Phrase → Node → Prop
  | name | separated .parameter | delimited _ _ .parameter => Node.IsIdentifier
  | statement | statements => Node.WellFormed .statement
  | block => fun node => node.IsBlock ∧ node.WellFormed .expression
  | conditional => fun node => node.IsConditional ∧ node.WellFormed .expression
  | alternative => fun node =>
    (node.IsBlock ∨ node.IsConditional) ∧ node.WellFormed .expression
  | separated .expression | delimited _ _ .expression | function | primary | applied _ | operand
  | climb _ _ | expression _ => Node.WellFormed .expression

/-- What is known of the tree that a phrase goes on from. -/
def Phrase.Ready : Phrase → Prop
  | applied node | climb _ node => node.WellFormed .expression
  | _ => True

/-- No word that can be a name is the symbol of a special form. -/
theorem ofName?_identifier {name : String} (h : Lexer.isIdentifier name) :
    Form.ofName? name = none := by
  rw [Form.ofName?, List.find?_eq_none]
  intro form _ same
  have text : form.name = name := of_decide_eq_true same
  have keyword : (Lexer.reserved.lookup name).isSome := by
    rw [← text]
    cases form <;> rfl
  rw [Lexer.isIdentifier, Bool.and_eq_true, Option.isNone_iff_eq_none] at h
  rw [h.2] at keyword
  exact Bool.noConfusion keyword

open Node in
theorem Node.IsIdentifier.wellFormed (h : node.IsIdentifier) : node.WellFormed place := by
  obtain ⟨name, symbol, identifier⟩ := h
  cases node with
  | atom literal span =>
    rintro name' rfl
    obtain rfl := Option.some.inj symbol
    exact ofName?_identifier identifier
  | apply | list | block => cases symbol

theorem Feed.Named.tail {item : Option Token} {feed : Feed} (h : Feed.Named (item :: feed)) :
    feed.Named :=
  fun name member => h name (.tail _ member)

section

open Node

variable {table : OperatorTable} {phrase : Phrase} {feed rest : Feed} {nodes : List Node}

/-- What a phrase leaves has the names that it was given. -/
theorem Reads.rest_named (h : Reads table phrase feed nodes rest) (named : feed.Named) :
    rest.Named := by
  obtain ⟨u, rfl, _⟩ := h.local (.inl rfl)
  exact fun name member => named name (List.mem_append_right u member)

/-- A name is an identifier. -/
theorem isIdentifier_named {name : String} (h : Feed.Named (some (.name name) :: feed)) :
    (named name).IsIdentifier :=
  ⟨name, rfl, h name (.head _)⟩

/-- A symbol that names no special form is a tree by itself. -/
theorem wellFormed_symbol {name : String} (h : Form.ofName? name = none) :
    (named name).WellFormed place := by
  rintro name' same
  obtain rfl := Literal.symbol.inj same
  exact h

/-- An operator applied to operands: a special form with two of them, or a call. -/
theorem wellFormed_operator {t : Token} {op : String} (h : t.between? = some op) {left right : Node}
    (first : left.WellFormed .expression) (second : right.WellFormed .expression) :
    (call (named op) [left, right]).WellFormed .expression := by
  have operands : AllWellFormed .expression [left, right] := ⟨first, second, trivial⟩
  cases t with
  | op o =>
    obtain rfl := Option.some.inj h
    cases o with
    | choice | and | or => exact ⟨trivial, operands⟩
    | _ => exact ⟨wellFormed_symbol rfl, operands⟩
  | _ => cases h

/-- A sign applied to an operand is a call. -/
theorem wellFormed_signed {t : Token} {op : String} (h : t.before? = some op) {node : Node}
    (operand : node.WellFormed .expression) :
    (call (named op) [node]).WellFormed .expression := by
  unfold Token.before? at h
  split at h
  · obtain rfl := Option.some.inj h
    exact ⟨wellFormed_symbol rfl, operand, trivial⟩
  · obtain rfl := Option.some.inj h
    exact ⟨wellFormed_symbol rfl, operand, trivial⟩
  · cases h

/-- **What the rules read is well-formed.** -/
theorem Reads.wellFormed (h : Reads table phrase feed nodes rest) (known : feed.Named)
    (ready : phrase.Ready) : ∀ node ∈ nodes, phrase.Reading node := by
  induction h with
  | name => exact List.forall_mem_singleton.mpr (isIdentifier_named known)
  | @last item _ _ _ _ first after other ih =>
    cases item with
    | parameter | expression => exact ih known trivial
  | @more item _ _ _ _ _ first others ih₁ ih₂ =>
    have behind := ih₂ (first.rest_named known).tail trivial
    cases item with
    | parameter | expression =>
      exact List.forall_mem_cons.mpr ⟨ih₁ known trivial _ (.head _), behind⟩
  | nothing | noStatement => nofun
  | @items opening closing item _ _ _ filled inside ih =>
    cases item with
    | parameter | expression => exact ih known.tail trivial
  | terminated first others ih₁ ih₂ =>
    have behind := ih₂ (first.rest_named known).tail trivial
    exact List.forall_mem_cons.mpr ⟨ih₁ known trivial _ (.head _), behind⟩
  | unterminated first after other ended others ih₁ ih₂ =>
    have behind := ih₂ (first.rest_named known) trivial
    exact List.forall_mem_cons.mpr ⟨ih₁ known trivial _ (.head _), behind⟩
  | block inside ih =>
    have statements := allWellFormed_iff.mpr (ih known.tail trivial)
    exact List.forall_mem_singleton.mpr ⟨trivial, statements⟩
  | function first second ih₁ ih₂ =>
    have params := ih₁ known trivial
    obtain ⟨isBlock, body⟩ := ih₂ (first.rest_named known) trivial _ (.head _)
    have all : AllWellFormed .expression _ :=
      allWellFormed_iff.mpr fun param member => (params param member).wellFormed
    exact List.forall_mem_singleton.mpr ⟨⟨params, isBlock⟩, all, body, trivial⟩
  | conditional first second third ih₁ ih₂ ih₃ =>
    have behind := (first.rest_named known.tail.tail).tail
    have condition := ih₁ known.tail.tail trivial _ (.head _)
    obtain ⟨isBlock, consequent⟩ := ih₂ behind trivial _ (.head _)
    obtain ⟨form, alternative⟩ := ih₃ (second.rest_named behind) trivial _ (.head _)
    refine List.forall_mem_singleton.mpr ⟨rfl, ⟨isBlock, form⟩, condition, consequent, ?_⟩
    exact ⟨alternative, trivial⟩
  | noAlternative after other => exact List.forall_mem_singleton.mpr ⟨.inl trivial, trivial⟩
  | elseConditional second ih =>
    obtain ⟨isConditional, here⟩ := ih known.tail trivial _ (.head _)
    exact List.forall_mem_singleton.mpr ⟨.inr isConditional, here⟩
  | elseBlock second ih =>
    obtain ⟨isBlock, here⟩ := ih known.tail trivial _ (.head _)
    exact List.forall_mem_singleton.mpr ⟨.inl isBlock, here⟩
  | @leaf t node _ isLeaf =>
    refine List.forall_mem_singleton.mpr ?_
    obtain ⟨n, rfl, rfl⟩ | ⟨s, rfl, rfl⟩ | ⟨b, rfl, rfl⟩ | ⟨x, rfl, rfl⟩ | ⟨rfl, rfl⟩ :=
      Token.leaf_cases isLeaf
    · nofun
    · nofun
    · nofun
    · show (named x).WellFormed .expression
      exact (isIdentifier_named known).wellFormed
    · show (named backName).WellFormed .expression
      exact wellFormed_symbol rfl
  | primaryFunction second ih => exact ih known.tail trivial
  | primaryConditional here ih | primaryBlock here ih =>
    exact List.forall_mem_singleton.mpr (ih known trivial _ (.head _)).2
  | parenthesized inside ih => exact ih known.tail trivial
  | list inside ih =>
    exact List.forall_mem_singleton.mpr (allWellFormed_iff.mpr (ih known trivial))
  | unapplied after other => exact List.forall_mem_singleton.mpr ready
  | @applied function _ args _ _ _ first second ih₁ ih₂ =>
    refine ih₂ (first.rest_named known) ?_
    show (call function args).WellFormed .expression
    exact (wellFormed_call ready.form?_eq_none).mpr
      ⟨ready, allWellFormed_iff.mpr (ih₁ known trivial)⟩
  | signed sign second ih =>
    exact List.forall_mem_singleton.mpr
      (wellFormed_signed sign (ih known.tail trivial _ (.head _)))
  | operand first second ih₁ ih₂ =>
    exact ih₂ (first.rest_named known) (ih₁ known trivial _ (.head _))
  | stop after loose => exact List.forall_mem_singleton.mpr ready
  | climb sign tight first second ih₁ ih₂ =>
    have between := OperatorTable.between_of_operator sign
    refine ih₂ (first.rest_named known.tail) ?_
    exact wellFormed_operator between ready (ih₁ known.tail trivial _ (.head _))
  | expression first second ih₁ ih₂ =>
    exact ih₂ (first.rest_named known) (ih₁ known trivial _ (.head _))
  | definition second ih =>
    have target := isIdentifier_named known.tail
    have value := ih known.tail.tail.tail trivial _ (.head _)
    exact List.forall_mem_singleton.mpr ⟨⟨rfl, target⟩, target.wellFormed, value, trivial⟩
  | namedFunction second ih =>
    have target := isIdentifier_named known.tail
    have function := ih known.tail.tail trivial _ (.head _)
    exact List.forall_mem_singleton.mpr ⟨⟨rfl, target⟩, target.wellFormed, function, trivial⟩
  | statementConditional here ih | statementBlock here ih =>
    exact List.forall_mem_singleton.mpr (ih known trivial _ (.head _)).2.statement
  | statement first noConditional noBlock here ih =>
    exact List.forall_mem_singleton.mpr (ih known trivial _ (.head _)).statement

end

/-! ### Readers -/

open Retrace.Parser

namespace Cursor

/-- Cursors over tokens of which something is known. -/
structure Over (P : Token → Prop) (c : Cursor) : Prop where
  proper : c.Proper
  ahead : ∀ lexeme ∈ c.ahead, P lexeme.token
  upcoming : ∀ lexeme, .ok lexeme ∈ c.upcoming → P lexeme.token

/-- Cursors over tokens among which the names are identifiers. -/
structure Lexed (c : Cursor) : Prop where
  proper : c.Proper
  ahead : ∀ lexeme ∈ c.ahead, ∀ name, lexeme.token = .name name → Lexer.isIdentifier name
  upcoming : ∀ lexeme, .ok lexeme ∈ c.upcoming →
    ∀ name, lexeme.token = .name name → Lexer.isIdentifier name

variable {c c' : Cursor} {k : Nat} {P : Token → Prop}

/-- What is known of the tokens that are left stays known, if it holds of the end of input. -/
theorem Step.over (last : P .eof) (step : Step k c c') (h : c.Over P) : c'.Over P := by
  have proper := step.proper h.proper
  obtain ⟨⟨eof, _, _⟩, ahead, upcoming⟩ := h
  cases step with
  | seen =>
    refine ⟨proper, fun lexeme member => ?_, fun lexeme member => upcoming lexeme (.tail _ member)⟩
    rcases List.mem_append.mp member with before | here
    · exact ahead lexeme before
    · obtain rfl := List.mem_singleton.mp here
      exact upcoming _ (.head _)
  | ended =>
    refine ⟨proper, fun lexeme member => ?_, upcoming⟩
    rcases List.mem_append.mp member with before | here
    · exact ahead lexeme before
    · obtain rfl := List.mem_singleton.mp here
      exact eof.symm ▸ last
  | dropped => exact ⟨proper, ahead, fun lexeme member => upcoming lexeme (.tail _ member)⟩
  | consumed => exact ⟨proper, fun lexeme member => ahead lexeme (.tail _ member), upcoming⟩
  | stayed => exact ⟨proper, ahead, upcoming⟩

/-- What is known of the tokens before a cursor holds of its feed. -/
theorem Over.feed (h : c.Over P) {t : Token} (member : some t ∈ c.feed) : t ≠ .eof ∧ P t := by
  rw [Cursor.feed, List.mem_append, List.mem_map, List.mem_map] at member
  rcases member with ⟨lexeme, inside, token⟩ | ⟨item, inside, token⟩
  · obtain rfl := Option.some.inj token
    obtain ⟨inside, other⟩ := List.mem_filter.mp inside
    exact ⟨of_decide_eq_true other, h.ahead lexeme inside⟩
  · cases item with
    | ok lexeme =>
      obtain rfl := Option.some.inj token
      exact ⟨h.proper.upcoming lexeme inside, h.upcoming lexeme inside⟩
    | error e => cases token

theorem lexed_iff_over :
    c.Lexed ↔ c.Over fun t => ∀ name, t = .name name → Lexer.isIdentifier name :=
  ⟨fun h => ⟨h.proper, h.ahead, h.upcoming⟩, fun h => ⟨h.proper, h.ahead, h.upcoming⟩⟩

theorem Step.lexed (step : Step k c c') (h : c.Lexed) : c'.Lexed :=
  lexed_iff_over.mpr (step.over nofun (lexed_iff_over.mp h))

/-- The names before a cursor are identifiers. -/
theorem Lexed.named (h : c.Lexed) : c.feed.Named :=
  fun name member => ((lexed_iff_over.mp h).feed member).2 name rfl

/-- A cursor before a text comes up in reading. -/
theorem ofText_proper (text : String) : (ofText text).Proper := by
  refine ⟨rfl, fun lexeme member isEof => ?_, [], [], rfl, nofun, nofun, .inl rfl⟩
  have writable := lex_writable member
  rw [isEof] at writable
  exact writable

/-- All tokens of a text can be written. -/
theorem ofText_over (text : String) : (ofText text).Over fun t => t ≠ .eof → t.Writable :=
  ⟨ofText_proper text, nofun, fun _ member _ => lex_writable member⟩

theorem ofText_lexed (text : String) : (ofText text).Lexed := by
  refine ⟨ofText_proper text, nofun, fun lexeme member name same => ?_⟩
  have writable := lex_writable member
  rw [same] at writable
  exact writable

end Cursor

namespace Reader

/-- The readers of a text that reading and skipping lead to. -/
inductive Reached (text : String) (config : ReaderConfig) : Reader → Prop
  | start : Reached text config (.ofText text config)
  | read {r} (before : Reached text config r) : Reached text config r.read.2
  | skip {r} (before : Reached text config r) : Reached text config r.skip

variable {text : String} {config : ReaderConfig} {r : Reader}

/-- What every step keeps holds of every reader that is reached. -/
theorem Reached.keeps {I : Cursor → Prop} (step : ∀ {k c c'}, Cursor.Step k c c' → I c → I c')
    (first : I (.ofText text)) (h : Reached text config r) : I r.cursor := by
  induction h with
  | start => exact first
  | @read r _ ih => exact r.read_reaches.1.keeps step ih
  | @skip r _ ih => exact r.skip_reaches.keeps step ih

theorem Reached.lexed (h : Reached text config r) : r.cursor.Lexed :=
  h.keeps Cursor.Step.lexed (Cursor.ofText_lexed text)

/-- All tokens that are left can be written. -/
theorem Reached.writable (h : Reached text config r) :
    r.cursor.Over fun t => t ≠ .eof → t.Writable :=
  h.keeps (Cursor.Step.over fun other => absurd rfl other) (Cursor.ofText_over text)

/-- Semicolons are no names. -/
theorem yields_skipSemicolons {feed : Feed} (h : feed.Named) (bound : Nat) :
    Yields True (skipSemicolons bound) feed fun _ rest => rest.Named := by
  induction bound generalizing feed with
  | zero => exact yields_spent trivial
  | succ bound ih =>
    refine yields_bind
      (yields_accept (fun _ => ih ?_) (fun _ _ _ => yields_pure h) fun _ => trivial)
    exact fun name member => h name (List.mem_of_mem_tail member)

/-- A statement that is read is well-formed. -/
theorem yields_wellFormed (table : OperatorTable) {feed : Feed} (h : feed.Named) :
    Yields True (nextStatement table) feed fun result _ =>
      ∀ node ∈ result, node.WellFormed .statement := by
  refine yields_bound (yields_bind ((yields_skipSemicolons h _).mono fun _ rest named => ?_))
  refine yields_bind (yields_check (fun _ => yields_pure nofun) (fun _ _ _ => ?_) fun _ => trivial)
  refine yields_bind (yields_bound (((Grammar.upTo_sound table _).statement rest).mono ?_))
  intro node rest' reads
  have wellFormed : ∀ node' ∈ some node, node'.WellFormed .statement := by
    rintro _ ⟨⟩
    exact (Node.wellFormed_bare .statement node).mp (reads.wellFormed named trivial _ (.head _))
  split
  · refine yields_bind (yields_accept (fun _ => ?_) (fun _ _ _ => ?_) fun _ => trivial)
    · exact yields_pure wellFormed
    · exact yields_pure wellFormed
  · exact yields_bind (yields_consume (fun _ _ => yields_pure wellFormed) fun _ => trivial)

/-- **Every tree that a reader gives is well-formed**, whatever its text and its operators, and
after whatever errors. -/
theorem read_wellFormed (h : Reached text config r) {node : Node}
    (result : r.read.1 = .ok (some node)) : node.WellFormed .statement := by
  have lexed := h.lexed
  have here := yields_wellFormed r.config.operators lexed.named r.cursor lexed.proper rfl
  unfold read parse at result
  cases run : nextStatement r.config.operators r.cursor with
  | ok found c =>
    simp only [run] at here result
    exact here.2 node (Except.ok.inj result)
  | error e c =>
    simp only [run] at result
    cases result

end Reader

end Retrace
