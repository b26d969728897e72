/-
A statement that ends at its own brace is not lost to what follows it.

* `Sealed` — tokens that are a block, a named function, or a conditional whose last branch
  is a block behind `else`.
* `Sealed.reads` — they are read as one statement in front of everything.
* **`Reader.unended_sealed`** — a reader comes to the same statement, and stands behind its
  brace, whatever comes after it.
* **`read_sealed`** — so the statement is read, unless the text behind it begins with a
  piece that is no token.
* **`read_loses_block`** — then it is lost.

Design notes: the grammar says that nothing can go on such a statement. That its parser does
not even look behind the brace is seen in front of text that is no token, where a look
would stop it. What comes instead of that text makes no difference then.
-/
import Mathlib
import Retrace.Proofs.Reader.Stopping
import Retrace.Proofs.Reader.WellFormed

namespace Retrace

open Retrace.Parser Node

variable {table : OperatorTable} {phrase : Phrase} {feed rest : Feed} {nodes : List Node}

/-! ### Statements that end at their own brace -/

/-- Tokens of a conditional, or of a series of them, of which the last branch is a block behind
`else`. -/
inductive SealedConditional (table : OperatorTable) : Feed → Prop
  | last {feed feed' feed'' : Feed} {condition consequent alternative : Node}
      (first : Reads table (.expression 0) feed [condition] (some (.mark .closeParen) :: feed'))
      (second : Reads table .block feed' [consequent] (some (.keyword .alternative) :: feed''))
      (third : Reads table .block feed'' [alternative] []) :
      SealedConditional table (some (.keyword .conditional) :: some (.mark .openParen) :: feed)
  | again {feed feed' feed'' : Feed} {condition consequent : Node}
      (first : Reads table (.expression 0) feed [condition] (some (.mark .closeParen) :: feed'))
      (second : Reads table .block feed' [consequent] (some (.keyword .alternative) :: feed''))
      (third : SealedConditional table feed'') :
      SealedConditional table (some (.keyword .conditional) :: some (.mark .openParen) :: feed)

/-- Tokens of one statement that ends at its own brace. -/
inductive Sealed (table : OperatorTable) : Feed → Prop
  | block {feed : Feed} {node : Node} (here : Reads table .block feed [node] []) :
      Sealed table feed
  | function {x : String} {feed : Feed} {node : Node}
      (second : Reads table .function feed [node] []) :
      Sealed table (some (.keyword .function) :: some (.name x) :: feed)
  | conditional {feed : Feed} (here : SealedConditional table feed) : Sealed table feed

/-- A phrase reads the same in front of more, if that does not add to it. -/
theorem Reads.append (h : Reads table phrase feed nodes rest) (z : Feed)
    (place : InPlace table phrase rest (rest ++ z)) :
    Reads table phrase (feed ++ z) nodes (rest ++ z) := by
  obtain ⟨u, rfl, there⟩ := h.local place
  rwa [List.append_assoc]

theorem Reads.block_ends {node : Node} (h : Reads table .block feed [node] rest) :
    node.endsWithBlock := by
  cases h with
  | block => rfl

theorem Reads.function_ends {node : Node} (h : Reads table .function feed [node] rest) :
    node.endsWithBlock := by
  cases h with
  | function _ second => exact second.block_ends

theorem SealedConditional.reads (h : SealedConditional table feed) :
    ∃ node : Node, node.endsWithBlock ∧ ∀ z, Reads table .conditional (feed ++ z) [node] z := by
  induction h with
  | @last _ _ _ condition consequent alternative first second third =>
    refine ⟨special .conditional [condition, consequent, alternative], third.block_ends,
      fun z => ?_⟩
    exact .conditional (first.append z (.inl rfl)) (second.append z (.inl rfl))
      (.elseBlock (third.append z (.inr trivial)))
  | @again _ _ _ condition consequent first second third ih =>
    obtain ⟨node, ended, reads⟩ := ih
    refine ⟨special .conditional [condition, consequent, node], ended, fun z => ?_⟩
    refine .conditional (first.append z (.inl rfl)) (second.append z (.inl rfl)) ?_
    -- what comes behind `else` begins with the word of a conditional
    obtain ⟨feed', begins⟩ := (reads z).conditional_inv
    have again := reads z
    show Reads _ .alternative (some (.keyword .alternative) :: (_ ++ z)) _ z
    rw [begins] at again ⊢
    exact .elseConditional again

/-- **A statement that ends at its own brace is read in front of everything.** -/
theorem Sealed.reads (h : Sealed table feed) :
    ∃ node : Node, node.endsWithBlock ∧ ∀ z, Reads table .statement (feed ++ z) [node] z := by
  cases h with
  | block here =>
    exact ⟨_, here.block_ends, fun z => .statementBlock (here.append z (.inr trivial))⟩
  | @function x _ node second =>
    refine ⟨special .define [named x, node], second.function_ends, fun z => ?_⟩
    exact .namedFunction (second.append z (.inr trivial))
  | conditional here =>
    obtain ⟨node, ended, reads⟩ := here.reads
    exact ⟨node, ended, fun z => .statementConditional (reads z)⟩

/-- The tokens of a text are one statement, and the text ends with them. -/
def EndsSealed (table : OperatorTable) (text : String) : Prop :=
  EndsWith .closeBrace text ∧
    ∃ lexemes : List Lexeme, lex text = lexemes.map .ok ∧
      Sealed table (lexemes.map (some ·.token))

/-! ### Behind the brace -/

/-- A cursor that has nothing before it but text that is no token is not ahead of its place, and
the other of a fork has nothing else before it than what comes instead. -/
theorem Cursor.Fork.others {P : Lexeme → Prop} {error : LexError} {more other : List LexItem}
    {c c' : Cursor} (fork : c.Fork P error more other c') (feed : c.feed = [none]) :
    c'.ahead = [] ∧ c'.upcoming = other := by
  obtain ⟨items, split, split', _⟩ := fork.upcoming
  obtain ⟨front, back, ahead, hfront, hback, beyond⟩ := fork.proper.ahead
  have lengths := congrArg List.length feed
  rw [Cursor.feed_eq ahead hfront hback, split] at lengths
  simp only [List.length_append, List.length_map, List.length_cons, List.length_nil] at lengths
  obtain rfl : front = [] := List.length_eq_zero_iff.mp (by omega)
  obtain rfl : items = [] := List.length_eq_zero_iff.mp (by omega)
  have noEnd : back = [] := beyond.resolve_right (by rw [split]; exact List.cons_ne_nil _ _)
  rw [fork.ahead, ahead, noEnd]
  exact ⟨rfl, split'⟩

namespace Reader

/-- Up to its semicolon, a statement that ends at its own brace is read in front of everything. -/
theorem yields_unended (h : Sealed table feed) (z : Feed) :
    Yields False (unended table) (feed ++ z) fun found rest =>
      (∃ node : Node, found = some node ∧ node.endsWithBlock) ∧ rest = z := by
  obtain ⟨tree, ended, reads⟩ := h.reads
  rw [unended, bind_assoc]
  refine yields_begun (reads z) ?_
  rintro node rfl
  rw [endsWithBlock_bare] at ended
  exact yields_pure ⟨⟨node, rfl, ended⟩, rfl⟩

/-- **Whatever comes after it**, a statement that ends at its own brace is found, and the reader
stands behind its brace without having looked further. -/
theorem unended_sealed {lexemes : List Lexeme} (h : Sealed table (lexemes.map (some ·.token)))
    (noEnd : ∀ lexeme ∈ lexemes, lexeme.token ≠ .eof) :
    ∃ node : Node, node.endsWithBlock ∧ ∀ (c : Cursor) (others : List LexItem), c.Proper →
      c.ahead = [] → c.previous = none → c.upcoming = lexemes.map .ok ++ others →
        ∃ c', unended table c = .ok (some node) c' ∧ c'.Proper ∧ c'.ahead = [] ∧
          c'.upcoming = others := by
  -- in front of text that is no token, a look behind the brace would stop the parser
  let error : LexError := ⟨.unterminatedString, ⟨0, 0⟩⟩
  let stopper : Cursor := ⟨[], lexemes.map .ok ++ [.error error], ⟨.eof, ⟨0, 0⟩⟩, none⟩
  have proper : stopper.Proper := by
    refine ⟨rfl, fun lexeme member => ?_, [], [], rfl, List.forall_mem_nil _,
      List.forall_mem_nil _, .inl rfl⟩
    rcases List.mem_append.mp member with inside | last
    · obtain ⟨_, inside, same⟩ := List.mem_map.mp inside
      exact Except.ok.inj same ▸ noEnd _ inside
    · cases List.mem_singleton.mp last
  have feed : stopper.feed = lexemes.map (some ·.token) ++ [none] := by
    simp [stopper, Cursor.feed, tokenOf]
  have run := yields_unended h [none] stopper proper feed
  cases result : unended table stopper with
  | error e c₁ =>
    rw [result] at run
    exact run.elim
  | ok found c₁ =>
    rw [result] at run
    obtain ⟨_, ⟨node, rfl, ended⟩, behind⟩ := run
    refine ⟨node, ended, fun c others proper' ahead previous upcoming => ?_⟩
    have fork : stopper.Fork (fun _ => True) error [] others c :=
      ⟨proper, proper', ahead, previous, ⟨lexemes, rfl, upcoming, fun _ _ => trivial⟩,
        List.forall_mem_nil _⟩
    obtain ⟨c', result', fork'⟩ := (unended_parts table fork).second result
    exact ⟨c', result', fork'.proper', fork'.others behind⟩

/-- What a reader gives for a statement that ended, in front of items of a text. -/
def afterBrace (node : Node) : List LexItem → Except ReadError (Option Node)
  | .error e :: _ => .error (.lexical e)
  | _ => .ok (some node)

/-- The look for a semicolon behind a brace stops at text that is no token. -/
theorem read_of_unended {r : Reader} {node : Node} {c : Cursor} (proper : c.Proper)
    (found : unended r.config.operators r.cursor = .ok (some node) c) (ended : node.endsWithBlock)
    (ahead : c.ahead = []) : r.read.1 = afterBrace node c.upcoming := by
  have run : nextStatement r.config.operators r.cursor = ending node c := by
    rw [nextStatement_unended]
    exact bind_of_result found
  rw [ending, if_pos ended] at run
  -- a token is looked at, and taken if it is a semicolon
  have goesOn : ∀ {t : Token}, c.feed.next = some t → r.read.1 = .ok (some node) := by
    intro t next
    have yields : Yields False (accept (.mark .semicolon) >>= fun _ => pure (some node)) c.feed
        fun result _ => result = some node := by
      exact yields_bind (yields_accept (fun _ => yields_pure rfl) (fun _ _ _ => yields_pure rfl)
        fun absent => absurd (next.symm.trans absent) (Option.some_ne_none _))
    cases result : (accept (.mark .semicolon) >>= fun _ => pure (some node)) c with
    | error e c' =>
      have never := yields c proper rfl
      rw [result] at never
      exact never.elim
    | ok found c' =>
      obtain ⟨_, rfl⟩ := yields.result proper result
      rw [read_of_result (run.trans result)]
  obtain ⟨_, upcoming, eof, previous⟩ := c
  obtain rfl := ahead
  rcases upcoming with _ | ⟨e | lexeme, upcoming⟩
  · exact goesOn (t := .eof) rfl
  · rw [read_of_error (run.trans rfl)]
    rfl
  · exact goesOn (t := lexeme.token) rfl

end Reader

/-- **A statement that ends at its own brace is not lost to what follows it.** It is read as it is
alone, whatever text stands behind the brace, unless that text begins with a piece that is no
token: then this piece is all that the reader gives. -/
theorem read_sealed {s : String} {config : ReaderConfig}
    (closed : EndsSealed config.operators s) :
    ∃ node, (Reader.ofText s config).read.1 = .ok (some node) ∧
      ∀ q, (Reader.ofText (s ++ q) config).read.1 =
        Reader.afterBrace node ((lex q).map (LexItem.shift s.utf8ByteSize)) := by
  obtain ⟨brace, lexemes, lexed, form⟩ := closed
  have noEnd : ∀ lexeme ∈ lexemes, lexeme.token ≠ .eof := by
    intro lexeme member
    refine (Cursor.ofText_proper s).upcoming lexeme ?_
    show _ ∈ lex s
    rw [lexed]
    exact List.mem_map_of_mem member
  obtain ⟨node, ended, behind⟩ := Reader.unended_sealed form noEnd
  have reads : ∀ (text : String) (others : List LexItem),
      lex text = lexemes.map .ok ++ others →
        (Reader.ofText text config).read.1 = Reader.afterBrace node others := by
    intro text others items
    obtain ⟨c, found, proper, ahead, upcoming⟩ :=
      behind (.ofText text) others (Cursor.ofText_proper text) rfl rfl items
    rw [← upcoming]
    exact Reader.read_of_unended (r := .ofText text config) proper found ended ahead
  refine ⟨node, reads s [] (by rw [lexed, List.append_nil]), fun q => ?_⟩
  refine reads (s ++ q) _ ?_
  rw [lex_append_mark (by decide) brace, lexed, Text.width_toList]

/-- An argument list behind a conditional is no part of it. -/
theorem read_sealed_conditional :
    EndsSealed .builtins "if(1){}else{}" ∧ ∃ node,
      (Reader.plain "if(1){}else{}").read.1 = .ok (some node) ∧
      (Reader.plain ("if(1){}else{}" ++ "(2)")).read.1 = .ok (some node) := by
  have items : lex "if(1){}else{}" =
      [⟨.keyword .conditional, ⟨0, 2⟩⟩, ⟨.mark .openParen, ⟨2, 3⟩⟩, ⟨.int 1, ⟨3, 4⟩⟩,
        ⟨.mark .closeParen, ⟨4, 5⟩⟩, ⟨.mark .openBrace, ⟨5, 6⟩⟩, ⟨.mark .closeBrace, ⟨6, 7⟩⟩,
        ⟨.keyword .alternative, ⟨7, 11⟩⟩, ⟨.mark .openBrace, ⟨11, 12⟩⟩,
        ⟨.mark .closeBrace, ⟨12, 13⟩⟩].map .ok := by cbv
  have one : Reads .builtins (.expression 0)
      [some (.int 1), some (.mark .closeParen), some (.mark .openBrace), some (.mark .closeBrace),
        some (.keyword .alternative), some (.mark .openBrace), some (.mark .closeBrace)] _ _ :=
    .expression (.operand (.leaf rfl) (.unapplied rfl (by decide))) (.stop rfl (loose_mark _ _))
  have closed : EndsSealed .builtins "if(1){}else{}" :=
    ⟨⟨12, by rw [items]; cbv⟩, _, items,
      .conditional (.last one (.block .noStatement) (.block .noStatement))⟩
  let config : ReaderConfig := .standard .plain none
  have sealed : EndsSealed config.operators "if(1){}else{}" := closed
  obtain ⟨node, alone, both⟩ := read_sealed sealed
  refine ⟨closed, node, alone, (both "(2)").trans ?_⟩
  have first : lex "(2)" = [.ok ⟨.mark .openParen, ⟨0, 1⟩⟩, .ok ⟨.int 2, ⟨1, 2⟩⟩,
      .ok ⟨.mark .closeParen, ⟨2, 3⟩⟩] := by cbv
  rw [first]
  rfl

/-- The look for a semicolon behind a block comes to a piece that is no token, and the block, which
was read already, is lost. -/
theorem read_loses_block :
    EndsSealed .builtins "{1;}" ∧
      (Reader.plain "{1;}").read.1 = .ok (some (.block [.atom (.int 1) ⟨1, 2⟩] ⟨0, 4⟩)) ∧
      (Reader.plain ("{1;}" ++ " $")).read.1 =
        .error (.lexical ⟨.unexpectedChar '$', ⟨5, 6⟩⟩) := by
  have items : lex "{1;}" =
      [⟨.mark .openBrace, ⟨0, 1⟩⟩, ⟨.int 1, ⟨1, 2⟩⟩, ⟨.mark .semicolon, ⟨2, 3⟩⟩,
        ⟨.mark .closeBrace, ⟨3, 4⟩⟩].map .ok := by cbv
  have one : Reads .builtins .statement
      [some (.int 1), some (.mark .semicolon), some (.mark .closeBrace)] _ _ :=
    .statement rfl (by decide) (by decide)
      (.expression (.operand (.leaf rfl) (.unapplied rfl (by decide))) (.stop rfl (loose_mark _ _)))
  have closed : EndsSealed .builtins "{1;}" :=
    ⟨⟨3, by rw [items]; cbv⟩, _, items, .block (.block (.terminated one .noStatement))⟩
  have run : Reader.nextStatement .builtins (Cursor.ofText ("{1;}" ++ " $")) =
      .error (.lexical ⟨.unexpectedChar '$', ⟨5, 6⟩⟩)
        ⟨[], [], ⟨.eof, ⟨6, 6⟩⟩, some ⟨.mark .closeBrace, ⟨3, 4⟩⟩⟩ := by cbv
  exact ⟨closed, by cbv, Reader.error_of_run (r := .plain ("{1;}" ++ " $")) run⟩

end Retrace
