/-
Semicolons that stand for nothing.

* `Feed.depth` — how many braces are open behind tokens.
* `Apart` — tokens among which every semicolon is inside braces and no two semicolons are
  next to each other.
* **`Reads.pairs`** — such are the tokens of every phrase, with their braces in pairs.
* `Program.added` — behind a semicolon that is outside of all braces, one more makes no
  difference.
* `Program.outside` — where semicolons are next to each other, they are outside of braces.
* **`semicolon_added`** — so one more leaves the trees of a text as they are, or the text is
  not read, depending on the braces that are open.
* **`semicolon_added_in_block`** — an empty statement in a block is an error.

Design notes: the statements of a text and those of a block are parsed by two loops. Only the
first one passes over semicolons. In a block a statement is looked for behind each of them,
and no statement begins with a semicolon.
-/
import Mathlib
import Retrace.Proofs.Reader.Program
import Retrace.Proofs.Reader.WellFormed

namespace Retrace

open Node Reader

variable {table : OperatorTable} {phrase : Phrase} {feed feed' rest u v w : Feed}
  {nodes : List Node} {t : Token} {around : Int}

/-! ### Braces that are open -/

/-- How many more braces open than close among tokens. -/
def Feed.depth (feed : Feed) : Int :=
  feed.count (some (.mark .openBrace)) - feed.count (some (.mark .closeBrace))

namespace Feed

@[simp] theorem depth_nil : depth [] = 0 := rfl

@[simp] theorem depth_append : (u ++ v).depth = u.depth + v.depth := by
  simp only [depth, List.count_append]
  omega

@[simp] theorem depth_open : depth (some (.mark .openBrace) :: v) = v.depth + 1 := by
  simp [depth]
  omega

@[simp] theorem depth_close : depth (some (.mark .closeBrace) :: v) = v.depth - 1 := by
  simp [depth]
  omega

theorem depth_other (opening : t ≠ .mark .openBrace) (closing : t ≠ .mark .closeBrace) :
    depth (some t :: v) = v.depth := by
  simp [depth, opening, closing]

@[simp] theorem depth_semicolon : depth (some (.mark .semicolon) :: v) = v.depth :=
  depth_other (by decide) (by decide)

end Feed

/-! ### Semicolons among tokens -/

/-- A place among tokens in front of others is among the first or among the others. -/
theorem place_append {item : Option Token} (h : u ++ v = feed ++ item :: rest) :
    (∃ back, u = feed ++ item :: back ∧ rest = back ++ v) ∨
      ∃ front, feed = u ++ front ∧ v = front ++ item :: rest := by
  rcases List.append_eq_append_iff.mp h with ⟨front, rfl, same⟩ | ⟨_ | ⟨_, back⟩, rfl, same⟩
  · exact .inr ⟨front, rfl, same⟩
  · exact .inr ⟨[], by simp, same.symm⟩
  · obtain ⟨rfl, rfl⟩ := List.cons.inj same
    exact .inl ⟨back, rfl, rfl⟩

/-- Tokens with a number of braces open before them: at every semicolon a brace is open, and no two
semicolons are next to each other. -/
structure Apart (around : Int) (tokens : Feed) : Prop where
  inside (front back : Feed) :
    tokens = front ++ some (.mark .semicolon) :: back → 0 < around + front.depth
  single (front back : Feed) :
    tokens ≠ front ++ some (.mark .semicolon) :: some (.mark .semicolon) :: back

namespace Apart

/-- Without semicolons nothing is asked for. -/
theorem of_notMem (none : some (.mark .semicolon) ∉ u) : Apart around u := by
  refine ⟨?_, ?_⟩ <;> rintro front back rfl <;> exact absurd (by simp) none

theorem mono {around' : Int} (h : Apart around u) (le : around ≤ around') : Apart around' u :=
  ⟨fun front back same => by have := h.inside front back same; omega, h.single⟩

theorem append (h : Apart around u) (h' : Apart (around + u.depth) v)
    (meet : ∀ front back, u = front ++ [some (.mark .semicolon)] →
      v ≠ some (.mark .semicolon) :: back) : Apart around (u ++ v) := by
  refine ⟨fun front back whole => ?_, fun front back whole => ?_⟩
  · obtain ⟨back', rfl, _⟩ | ⟨front', rfl, rfl⟩ := place_append whole
    · exact h.inside front back' rfl
    · have inside := h'.inside front' back rfl
      rw [Feed.depth_append]
      omega
  · obtain ⟨_ | ⟨_, back'⟩, rfl, same⟩ | ⟨front', rfl, rfl⟩ := place_append whole
    · exact meet front back rfl same.symm
    · obtain ⟨rfl, _⟩ := List.cons.inj same
      exact h.single front back' rfl
    · exact h'.single front' back rfl

/-- Outside of braces no tokens begin with a semicolon. -/
theorem not_first (h : Apart 0 (some (.mark .semicolon) :: v)) : False := by
  have inside := h.inside [] v rfl
  simp at inside

end Apart

/-- Tokens that are no braces and no semicolons. -/
def Token.Flat (t : Token) : Prop :=
  t ≠ .mark .openBrace ∧ t ≠ .mark .closeBrace ∧ t ≠ .mark .semicolon

instance (t : Token) : Decidable t.Flat :=
  inferInstanceAs (Decidable (_ ∧ _ ∧ _))

theorem Token.flat_name (x : String) : (Token.name x).Flat :=
  ⟨nofun, nofun, nofun⟩

/-- What stands in a feed before a rest: its braces are in pairs, every semicolon is inside braces,
and no two semicolons are next to each other. -/
def Feed.Paired (feed rest : Feed) : Prop :=
  ∃ u, feed = u ++ rest ∧ u.depth = 0 ∧ Apart 0 u

/-- The same for statements between braces: the brace in front of them counts. -/
def Feed.PairedInside (feed rest : Feed) : Prop :=
  ∃ u, feed = u ++ rest ∧ u.depth = 0 ∧ Apart 1 u

namespace Feed.Paired

theorem refl : Feed.Paired feed feed :=
  ⟨[], rfl, rfl, .of_notMem List.not_mem_nil⟩

theorem trans (first : Feed.Paired feed feed') (second : Feed.Paired feed' rest) :
    Feed.Paired feed rest := by
  obtain ⟨u, rfl, balanced, apart⟩ := first
  obtain ⟨v, rfl, balanced', apart'⟩ := second
  refine ⟨u ++ v, (List.append_assoc ..).symm, by rw [depth_append]; omega, ?_⟩
  refine apart.append (by rwa [balanced]) ?_
  rintro _ back _ rfl
  exact apart'.not_first

theorem taken (flat : t.Flat) : Feed.Paired (some t :: feed) feed := by
  obtain ⟨opening, closing, semicolon⟩ := flat
  refine ⟨[some t], rfl, depth_other opening closing, .of_notMem fun member => ?_⟩
  exact semicolon (Option.some.inj (List.mem_singleton.mp member)).symm

theorem cons (flat : t.Flat) (h : Feed.Paired feed rest) : Feed.Paired (some t :: feed) rest :=
  (taken flat).trans h

/-- Tokens outside of braces do not end with a semicolon. -/
theorem not_last (balanced : u.depth = 0) (apart : Apart 0 u) :
    u ≠ v ++ [some (.mark .semicolon)] := by
  rintro rfl
  have inside := apart.inside v [] rfl
  simp at balanced
  omega

theorem braces (h : Feed.PairedInside feed (some (.mark .closeBrace) :: rest)) :
    Feed.Paired (some (.mark .openBrace) :: feed) rest := by
  obtain ⟨u, rfl, balanced, apart⟩ := h
  refine ⟨some (.mark .openBrace) :: (u ++ [some (.mark .closeBrace)]), by simp, by simp [balanced],
    ?_⟩
  have opening : Apart 0 [some (.mark .openBrace)] := .of_notMem (by decide)
  have closing : Apart (1 + u.depth) [some (.mark .closeBrace)] := .of_notMem (by decide)
  refine opening.append (apart.append closing ?_) ?_
  · rintro _ _ _ ⟨⟩
  · rintro (_ | ⟨_, _ | _⟩) back same <;> cases same

end Feed.Paired

namespace Feed.PairedInside

/-- Statements behind a statement. -/
theorem behind (first : Feed.Paired feed feed') (others : Feed.PairedInside feed' rest) :
    Feed.PairedInside feed rest := by
  obtain ⟨u, rfl, balanced, apart⟩ := first
  obtain ⟨v, rfl, balanced', apart'⟩ := others
  refine ⟨u ++ v, (List.append_assoc ..).symm, by rw [depth_append]; omega, ?_⟩
  refine (apart.mono (by omega)).append (by rwa [balanced]) fun front back same => ?_
  exact absurd same (Paired.not_last balanced apart)

/-- Statements behind a semicolon. -/
theorem semicolon (others : Feed.PairedInside feed rest)
    (apart : feed.next ≠ some (.mark .semicolon)) :
    Feed.PairedInside (some (.mark .semicolon) :: feed) rest := by
  obtain ⟨u, rfl, balanced, apart'⟩ := others
  refine ⟨some (.mark .semicolon) :: u, rfl, by rwa [depth_semicolon], ?_⟩
  have single : Apart 1 [some (.mark .semicolon)] := by
    refine ⟨?_, ?_⟩ <;> rintro (_ | ⟨_, _ | _⟩) back same <;> simp at same ⊢
  refine single.append (by rwa [depth_semicolon]) ?_
  rintro _ back _ rfl
  exact apart rfl

end Feed.PairedInside

/-- How the braces and semicolons of a phrase stand. -/
def Phrase.Pairs (phrase : Phrase) (feed rest : Feed) : Prop :=
  match phrase with
  | .statements => feed.PairedInside rest
  | .delimited opening closing _ =>
    Token.Flat (.mark opening) → Token.Flat (.mark closing) → feed.Paired rest
  | _ => feed.Paired rest

theorem Item.pairs {item : Item} (h : item.phrase.Pairs feed rest) : feed.Paired rest := by
  cases item with
  | parameter | expression => exact h

theorem Reads.statements_next (h : Reads table .statements feed nodes rest) :
    feed.next ≠ some (.mark .semicolon) := by
  cases h with
  | noStatement => exact nofun
  | terminated first | unterminated first =>
    obtain ⟨t, next, begins⟩ := first.statement_next
    rw [next]
    rintro ⟨⟩
    cases begins

/-- **The braces of a phrase are in pairs, and its semicolons are inside braces and apart.** -/
theorem Reads.pairs (h : Reads table phrase feed nodes rest) : phrase.Pairs feed rest := by
  induction h with
  | name => exact .taken (Token.flat_name _)
  | last _ _ _ ih => exact Item.pairs ih
  | more first _ ih₁ ih₂ => exact (Item.pairs ih₁).trans (.cons (by decide) ih₂)
  | nothing =>
    intro opening closing
    exact .cons opening (.taken closing)
  | items _ _ ih =>
    intro opening closing
    exact .cons opening (Feed.Paired.trans ih (.taken closing))
  | noStatement => exact ⟨[], rfl, rfl, .of_notMem List.not_mem_nil⟩
  | terminated _ others ih₁ ih₂ =>
    exact .behind ih₁ (Feed.PairedInside.semicolon ih₂ others.statements_next)
  | unterminated _ _ _ _ _ ih₁ ih₂ => exact .behind ih₁ ih₂
  | block _ ih => exact .braces ih
  | function _ _ ih₁ ih₂ => exact Feed.Paired.trans (ih₁ (by decide) (by decide)) ih₂
  | conditional _ _ _ ih₁ ih₂ ih₃ =>
    have branches := Feed.Paired.trans ih₂ ih₃
    exact .cons (by decide) (.cons (by decide)
      (Feed.Paired.trans ih₁ (.cons (t := .mark .closeParen) (by decide) branches)))
  | noAlternative => exact .refl
  | elseConditional _ ih | elseBlock _ ih => exact .cons (by decide) ih
  | leaf isLeaf =>
    refine .taken ⟨?_, ?_, ?_⟩ <;> rintro rfl <;> cases isLeaf
  | primaryFunction _ ih => exact .cons (by decide) ih
  | primaryConditional _ ih | primaryBlock _ ih => exact ih
  | parenthesized _ ih =>
    exact .cons (by decide) (Feed.Paired.trans ih (.taken (by decide)))
  | list _ ih => exact ih (by decide) (by decide)
  | unapplied => exact .refl
  | applied _ _ ih₁ ih₂ => exact Feed.Paired.trans (ih₁ (by decide) (by decide)) ih₂
  | signed sign _ ih =>
    refine .cons ⟨?_, ?_, ?_⟩ ih <;> rintro rfl <;> cases sign
  | operand _ _ ih₁ ih₂ => exact Feed.Paired.trans ih₁ ih₂
  | stop => exact .refl
  | climb sign _ _ _ ih₁ ih₂ =>
    refine .cons ⟨?_, ?_, ?_⟩ (Feed.Paired.trans ih₁ ih₂) <;> rintro rfl <;> cases sign
  | expression _ _ ih₁ ih₂ => exact Feed.Paired.trans ih₁ ih₂
  | definition _ ih => exact .cons (by decide) (.cons (Token.flat_name _) (.cons (by decide) ih))
  | namedFunction _ ih => exact .cons (by decide) (.cons (Token.flat_name _) ih)
  | statementConditional _ ih | statementBlock _ ih => exact ih
  | statement _ _ _ _ ih => exact ih

/-! ### One more semicolon -/

/-- **Behind a semicolon outside of braces one more is passed over.** -/
theorem Program.added (h : Program table feed nodes)
    (place : feed = u ++ some (.mark .semicolon) :: w) (outside : u.depth = 0) :
    Program table (u ++ some (.mark .semicolon) :: some (.mark .semicolon) :: w) nodes := by
  induction h generalizing u with
  | nothing => exact absurd place (by simp)
  | skipped behind ih =>
    cases u with
    | nil =>
      obtain rfl := (List.cons.inj place).2
      exact .skipped (.skipped behind)
    | cons item u =>
      obtain ⟨rfl, rfl⟩ := List.cons.inj place
      rw [Feed.depth_semicolon] at outside
      exact .skipped (ih rfl outside)
  | @statement feed rest feed' node nodes first ends others ih =>
    obtain ⟨v, rfl, balanced, apart⟩ : Feed.Paired feed rest := first.pairs
    have placed : ∀ z, Feed.next z = rest.next → Reads table .statement (v ++ z) [node] z := by
      intro z same
      obtain ⟨v', again, reads⟩ := first.local (.inl same)
      obtain rfl := List.append_cancel_right again
      exact reads
    -- inside the statement every semicolon has a brace open before it
    obtain ⟨back, rfl, _⟩ | ⟨u, rfl, rfl⟩ := place_append place
    · have inside := apart.inside u back rfl
      omega
    rw [Feed.depth_append] at outside
    rw [List.append_assoc]
    rcases ends with same | ⟨rfl, ended, t, next, other⟩
    · cases u with
      | nil =>
        obtain rfl := (List.cons.inj same).2
        exact .statement (placed _ rfl) (.inl rfl) (.skipped others)
      | cons item u =>
        obtain ⟨rfl, rfl⟩ := List.cons.inj same
        rw [Feed.depth_semicolon] at outside
        exact .statement (placed _ rfl) (.inl rfl) (ih rfl (by omega))
    · cases u with
      | nil => exact absurd (Option.some.inj next).symm other
      | cons item u =>
        exact .statement (placed _ rfl) (.inr ⟨rfl, ended, t, next, other⟩) (ih rfl (by omega))

/-- **Semicolons that are next to each other are outside of braces.** -/
theorem Program.outside (h : Program table feed nodes)
    (place : feed = u ++ some (.mark .semicolon) :: some (.mark .semicolon) :: w) :
    u.depth = 0 := by
  induction h generalizing u with
  | nothing => exact absurd place (by simp)
  | skipped behind ih =>
    cases u with
    | nil => rfl
    | cons item u =>
      obtain ⟨rfl, rfl⟩ := List.cons.inj place
      rw [Feed.depth_semicolon]
      exact ih rfl
  | @statement feed rest feed' node nodes first ends others ih =>
    obtain ⟨v, rfl, balanced, apart⟩ : Feed.Paired feed rest := first.pairs
    obtain ⟨_ | ⟨_, back⟩, rfl, same⟩ | ⟨u, rfl, rfl⟩ := place_append place
    · exact absurd rfl (Feed.Paired.not_last balanced apart)
    · obtain ⟨rfl, _⟩ := List.cons.inj same
      exact absurd rfl (apart.single u back)
    rw [Feed.depth_append, balanced]
    rcases ends with same | ⟨rfl, _⟩
    · cases u with
      | nil => rfl
      | cons item u =>
        obtain ⟨rfl, rfl⟩ := List.cons.inj same
        rw [Feed.depth_semicolon, ih rfl]
        rfl
    · rw [ih rfl]
      rfl

/-! ### Texts -/

/-- Behind a text that ends with a semicolon come the tokens of another. -/
theorem Cursor.feed_append {p : String} (ends : EndsStatement p) (q : String) :
    (Cursor.ofText (p ++ q)).feed = (Cursor.ofText p).feed ++ (Cursor.ofText q).feed := by
  have unmoved : tokenOf ∘ LexItem.shift (Text.width p.toList) = tokenOf := by
    funext item
    cases item <;> rfl
  show (lex (p ++ q)).map tokenOf = (lex p).map tokenOf ++ (lex q).map tokenOf
  rw [lex_append ends, List.map_append, List.map_map, unmoved]

theorem Cursor.feed_of_ends {p : String} (ends : EndsStatement p) :
    ∃ u : Feed, (Cursor.ofText p).feed = u ++ [some (.mark .semicolon)] := by
  obtain ⟨start, last⟩ := ends
  obtain ⟨front, split⟩ := List.getLast?_eq_some_iff.mp last
  refine ⟨front.map tokenOf, ?_⟩
  show (lex p).map tokenOf = _
  rw [split, List.map_append]
  rfl

/-- **Semicolons that stand for nothing are passed over outside of blocks only.** Take two texts of
which the first ends with a semicolon, and let them together be read as some trees. If all braces
of the first text are closed, the two with one more semicolon between them are read as the same
trees, up to places. If a brace is open, they are not read. -/
theorem semicolon_added {p q : String} {config : ReaderConfig} (ends : EndsStatement p)
    (result : (Reader.ofText (p ++ q) config).readAll.1 = .ok nodes) :
    ((Cursor.ofText p).feed.depth = 0 →
      ∃ nodes', (Reader.ofText (p ++ ";" ++ q) config).readAll.1 = .ok nodes' ∧
        bareAll nodes' = bareAll nodes) ∧
    ((Cursor.ofText p).feed.depth ≠ 0 →
      ∃ e, (Reader.ofText (p ++ ";" ++ q) config).readAll.1 = .error e) := by
  obtain ⟨u, split⟩ := Cursor.feed_of_ends ends
  have semicolon : EndsStatement ";" := ⟨0, by cbv⟩
  have alone : (Cursor.ofText ";").feed = [some (.mark .semicolon)] := by cbv
  have without : (Cursor.ofText (p ++ q)).feed =
      u ++ some (.mark .semicolon) :: (Cursor.ofText q).feed := by
    rw [Cursor.feed_append ends, split, List.append_assoc]
    rfl
  have added : (Cursor.ofText (p ++ ";" ++ q)).feed =
      u ++ some (.mark .semicolon) :: some (.mark .semicolon) :: (Cursor.ofText q).feed := by
    rw [String.append_assoc, Cursor.feed_append ends, Cursor.feed_append semicolon, split, alone,
      List.append_assoc]
    rfl
  have depth : (Cursor.ofText p).feed.depth = u.depth := by
    rw [split, Feed.depth_append]
    exact Int.add_zero _
  rw [depth]
  refine ⟨fun outside => ?_, fun inside => ?_⟩
  · have program := Reader.readAll_program (Cursor.ofText_proper _) result
    refine Reader.readAll_of_program (r := .ofText (p ++ ";" ++ q) config)
      (Cursor.ofText_proper _) ?_
    show Program _ (Cursor.ofText (p ++ ";" ++ q)).feed _
    rw [added]
    exact program.added without outside
  · cases result' : (Reader.ofText (p ++ ";" ++ q) config).readAll.1 with
    | error e => exact ⟨e, rfl⟩
    | ok nodes' =>
      have program := Reader.readAll_program (Cursor.ofText_proper _) result'
      exact absurd (program.outside added) inside

/-- Between two statements one more semicolon makes no difference, though the first of them is a
block with a semicolon in it. -/
theorem semicolon_added_behind_block :
    EndsStatement "\x7b1;\x7d;" ∧
      (Reader.plain ("\x7b1;\x7d;" ++ "2;")).readAll.1 =
        .ok [.block [.atom (.int 1) ⟨1, 2⟩] ⟨0, 4⟩, .atom (.int 2) ⟨5, 6⟩] ∧
      (Cursor.ofText "\x7b1;\x7d;").feed.depth = 0 ∧
      ∃ nodes, (Reader.plain ("\x7b1;\x7d;" ++ ";" ++ "2;")).readAll.1 = .ok nodes ∧
        bareAll nodes = [blockOf [.atom (.int 1) default], .atom (.int 2) default] := by
  have ends : EndsStatement "\x7b1;\x7d;" := ⟨4, by cbv⟩
  have result : (Reader.plain ("\x7b1;\x7d;" ++ "2;")).readAll.1 =
      .ok [.block [.atom (.int 1) ⟨1, 2⟩] ⟨0, 4⟩, .atom (.int 2) ⟨5, 6⟩] := by cbv
  have closed : (Cursor.ofText "\x7b1;\x7d;").feed.depth = 0 := by cbv
  exact ⟨ends, result, closed, (semicolon_added ends result).1 closed⟩

/-- Inside a block one more semicolon is an error. -/
theorem semicolon_added_in_block :
    EndsStatement "\x7b1;" ∧
      (Reader.plain ("\x7b1;" ++ "\x7d")).readAll.1 = .ok [.block [.atom (.int 1) ⟨1, 2⟩] ⟨0, 4⟩] ∧
      (Reader.plain ("\x7b1;" ++ ";" ++ "\x7d")).readAll.1 =
        .error (.unexpectedToken "expression" (.mark .semicolon) ⟨3, 4⟩) := by
  have ends : EndsStatement "\x7b1;" := ⟨2, by cbv⟩
  have result : (Reader.plain ("\x7b1;" ++ "\x7d")).readAll.1 =
      .ok [.block [.atom (.int 1) ⟨1, 2⟩] ⟨0, 4⟩] := by cbv
  have run : Reader.nextStatement .builtins (Cursor.ofText ("\x7b1;" ++ ";" ++ "\x7d")) =
      .error (.unexpectedToken "expression" (.mark .semicolon) ⟨3, 4⟩)
        ⟨[⟨.mark .semicolon, ⟨3, 4⟩⟩], [.ok ⟨.mark .closeBrace, ⟨4, 5⟩⟩], ⟨.eof, ⟨5, 5⟩⟩,
          some ⟨.mark .semicolon, ⟨2, 3⟩⟩⟩ := by cbv
  have stops := Reader.read_of_error (r := Reader.plain ("\x7b1;" ++ ";" ++ "\x7d")) run
  refine ⟨ends, result, ?_⟩
  rw [Reader.readAll, Reader.readWithin, stops]

end Retrace
