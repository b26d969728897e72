/-
Reading does not look at places.

* `Lexeme.bare`, `ReadError.bare`, `Cursor.bare` — tokens, errors and cursors without
  places.
* `erasure` — a cursor, and the same cursor without places.
* **`nextStatement_bare`** — without places the next statement is read in the same way.
* `Reader.Alike` — readers of the same tokens.
* **`Reader.readAll_alike`** — readers of the same tokens give the same trees or the same
  error, but for places.

Design notes: two texts with the same tokens have different places, and so have the trees
that are read from them. Each reading is compared with a third, that of the same tokens
with all places the same.
-/
import Retrace.Proofs.Reader.RoundTrip
import Retrace.Proofs.Reader.Tracking
import Retrace.Proofs.Reader.WellFormed

namespace Retrace

open Retrace.Parser Tracking

/-! ### Without places -/

/-- A token without its place. -/
def Lexeme.bare (lexeme : Lexeme) : Lexeme :=
  lexeme.placed fun _ => default

/-- What stands at a place of a text, without the place. -/
def LexItem.bare : LexItem → LexItem
  | .ok lexeme => .ok lexeme.bare
  | .error error => .error (error.placed fun _ => default)

/-- An error without its place. -/
def ReadError.bare (error : ReadError) : ReadError :=
  error.placed fun _ => default

/-- A cursor over the same tokens without places. -/
def Cursor.bare (c : Cursor) : Cursor :=
  ⟨c.ahead.map Lexeme.bare, c.upcoming.map LexItem.bare, c.eof.bare, c.previous.map Lexeme.bare⟩

namespace Cursor

variable (c : Cursor)

/-- As many tokens are left without places. -/
theorem remaining_bare : c.bare.remaining = c.remaining := by
  have same : (fun lexeme : Lexeme => decide (lexeme.token ≠ .eof)) ∘ Lexeme.bare =
      fun lexeme => decide (lexeme.token ≠ .eof) := rfl
  simp only [remaining, bare, List.filter_map, same, List.length_map]

theorem currentSpan_bare : c.bare.currentSpan = default := by
  obtain ⟨ahead, upcoming, eof, previous⟩ := c
  cases ahead with
  | cons lexeme ahead => rfl
  | nil => cases previous <;> rfl

end Cursor

/-- A look shows the same without places. -/
theorem lookFurther_bare (c : Cursor) :
    Pairing.Agree ⟨fun _ => default, fun c c' => c' = c.bare, fun _ => False⟩ id (lookFurther c)
      (lookFurther c.bare) := by
  obtain ⟨ahead, upcoming, eof, previous⟩ := c
  rcases upcoming with _ | ⟨error | lexeme, upcoming⟩
  · exact .inr ⟨_, rfl, by simp [Cursor.bare]⟩
  · exact .inr ⟨_, rfl, rfl⟩
  · exact .inr ⟨_, rfl, by simp [Cursor.bare]⟩

/-- A cursor, and the same cursor without places. -/
def erasure : Tracking where
  place _ := default
  together c c' := c' = c.bare
  lost _ := False
  place_join _ _ := rfl
  place_emptyAt _ := rfl
  ahead here := congrArg Cursor.ahead here
  current here := here ▸ Cursor.currentSpan_bare _
  latest here consumed := by
    rw [here, Cursor.bare, consumed]
    rfl
  remaining_le here := Nat.le_of_eq (here ▸ (Cursor.remaining_bare _).symm)
  look _ here _ := here ▸ lookFurther_bare _
  advanced here first := by
    rename_i c _ lexeme ahead
    subst here
    by_cases last : lexeme.token = .eof
    · simp only [if_pos last, Cursor.bare]
      rfl
    · simp only [if_neg last, Cursor.bare]
      rfl
  lost_step _ _ lost := lost

/-- What a parser came to, without places. -/
def bareRun {α : Type} (g : α → α) :
    EStateM.Result ReadError Cursor α → EStateM.Result ReadError Cursor α
  | .ok a c => .ok (g a) c.bare
  | .error e c => .error e.bare c.bare

/-- **Without places the next statement is read in the same way.** -/
theorem nextStatement_bare (table : OperatorTable) {c : Cursor} (proper : c.Proper) :
    Reader.nextStatement table c.bare =
      bareRun (Option.map Node.bare) (Reader.nextStatement table c) := by
  have tracks : Tracks erasure (c.remaining + 1) none _ _ _ := nextStatement_tracks table
  have agree := tracks.agree proper (Nat.lt_succ_self _) Cursor.sees_none rfl
  have same : Node.placed erasure.place = Node.bare := funext Node.placed_default
  rw [same] at agree
  cases run : Reader.nextStatement table c with
  | ok node c₁ =>
    rw [run] at agree
    obtain ⟨_, found, rfl⟩ := agree.resolve_left id
    exact found
  | error e c₁ =>
    rw [run] at agree
    obtain ⟨_, found, rfl⟩ := agree.resolve_left id
    exact found

/-! ### Readers of the same tokens -/

namespace Reader

/-- Readers with the same operators before the same tokens. -/
structure Alike (r r' : Reader) : Prop where
  operators : r'.config.operators = r.config.operators
  proper : r.cursor.Proper
  proper' : r'.cursor.Proper
  cursor : r'.cursor.bare = r.cursor.bare

variable {r r' : Reader}

theorem Alike.remaining (h : Alike r r') : r'.cursor.remaining = r.cursor.remaining := by
  rw [← Cursor.remaining_bare, h.cursor, Cursor.remaining_bare]

/-- What came of reading, without places. -/
def bareResult {α : Type} (g : α → α) : Except ReadError α → Except ReadError α
  | .ok a => .ok (g a)
  | .error e => .error e.bare

/-- Results that are the same without places: both are errors, or neither is. -/
theorem bareResult_cases {α : Type} {g : α → α} {result result' : Except ReadError α}
    (h : bareResult g result' = bareResult g result) :
    (∃ e e', result = .error e ∧ result' = .error e' ∧ e'.bare = e.bare) ∨
      ∃ a a', result = .ok a ∧ result' = .ok a' ∧ g a' = g a := by
  cases result with
  | error e =>
    cases result' with
    | error e' => exact .inl ⟨e, e', rfl, rfl, Except.error.inj h⟩
    | ok a' => cases h
  | ok a =>
    cases result' with
    | error e' => cases h
    | ok a' => exact .inr ⟨a, a', rfl, rfl, Except.ok.inj h⟩

/-- **Readers of the same tokens give the same**, but for places. -/
theorem read_alike (h : Alike r r') :
    bareResult (Option.map Node.bare) r'.read.1 = bareResult (Option.map Node.bare) r.read.1 ∧
      Alike r.read.2 r'.read.2 := by
  have same : bareRun (Option.map Node.bare) (nextStatement r'.config.operators r'.cursor) =
      bareRun (Option.map Node.bare) (nextStatement r.config.operators r.cursor) := by
    rw [← nextStatement_bare _ h.proper, ← nextStatement_bare _ h.proper', h.operators, h.cursor]
  have proper := (read_reaches r).1.proper h.proper
  have proper' := (read_reaches r').1.proper h.proper'
  cases run : nextStatement r.config.operators r.cursor with
  | ok node c =>
    cases run' : nextStatement r'.config.operators r'.cursor with
    | error e c' =>
      rw [run, run'] at same
      cases same
    | ok node' c' =>
      rw [run, run'] at same
      obtain ⟨nodes, cursors⟩ := EStateM.Result.ok.inj same
      rw [read_of_result run] at proper ⊢
      rw [read_of_result run'] at proper' ⊢
      exact ⟨congrArg Except.ok nodes, h.operators, proper, proper', cursors⟩
  | error e c =>
    cases run' : nextStatement r'.config.operators r'.cursor with
    | ok node' c' =>
      rw [run, run'] at same
      cases same
    | error e' c' =>
      rw [run, run'] at same
      obtain ⟨errors, cursors⟩ := EStateM.Result.error.inj same
      rw [read_of_error run] at proper ⊢
      rw [read_of_error run'] at proper' ⊢
      exact ⟨congrArg Except.error errors, h.operators, proper, proper', cursors⟩

/-- What readers of the same tokens give, case by case: errors, the end of the text, or trees that
are the same but for places. -/
theorem read_cases (h : Alike r r') :
    ∃ r₁ r₁', Alike r₁ r₁' ∧
      ((∃ e e', r.read = (.error e, r₁) ∧ r'.read = (.error e', r₁') ∧ e'.bare = e.bare) ∨
        (r.read = (.ok none, r₁) ∧ r'.read = (.ok none, r₁')) ∨
        ∃ node node', r.read = (.ok (some node), r₁) ∧ r'.read = (.ok (some node'), r₁') ∧
          node'.bare = node.bare) := by
  obtain ⟨same, there⟩ := read_alike h
  refine ⟨r.read.2, r'.read.2, there, ?_⟩
  generalize r.read = outcome at same ⊢
  generalize r'.read = outcome' at same ⊢
  obtain ⟨result, r₁⟩ := outcome
  obtain ⟨result', r₁'⟩ := outcome'
  obtain ⟨e, e', rfl, rfl, errors⟩ | ⟨node, node', rfl, rfl, nodes⟩ := bareResult_cases same
  · exact .inl ⟨e, e', rfl, rfl, errors⟩
  · cases node with
    | none =>
      obtain rfl := Option.map_eq_none_iff.mp nodes
      exact .inr (.inl ⟨rfl, rfl⟩)
    | some node =>
      obtain ⟨node', rfl, trees⟩ := Option.map_eq_some_iff.mp nodes
      exact .inr (.inr ⟨node, node', rfl, rfl, trees⟩)

theorem readWithin_alike (h : Alike r r') (bound : Nat) :
    bareResult Node.bareAll (r'.readWithin bound).1 =
      bareResult Node.bareAll (r.readWithin bound).1 := by
  induction bound generalizing r r' with
  | zero => rfl
  | succ bound ih =>
    rw [readWithin, readWithin]
    obtain ⟨r₁, r₁', there, ⟨e, e', read, read', same⟩ | ⟨read, read'⟩ |
      ⟨node, node', read, read', same⟩⟩ := read_cases h
    · rw [read, read']
      exact congrArg Except.error same
    · rw [read, read']
    · have others := ih there
      rw [read, read']
      show bareResult Node.bareAll ((r₁'.readWithin bound).1.map _) =
        bareResult Node.bareAll ((r₁.readWithin bound).1.map _)
      obtain ⟨e, e', failed, failed', errors⟩ | ⟨nodes, nodes', rest, rest', trees⟩ :=
        bareResult_cases others
      · rw [failed, failed']
        exact congrArg Except.error errors
      · rw [rest, rest']
        refine congrArg Except.ok ?_
        rw [Node.bareAll, Node.bareAll, same, trees]

/-- **Readers of the same tokens give the same statements or the same error**, but for places. -/
theorem readAll_alike (h : Alike r r') :
    bareResult Node.bareAll r'.readAll.1 = bareResult Node.bareAll r.readAll.1 := by
  rw [readAll, readAll, h.remaining]
  exact readWithin_alike h _

/-- Texts with the same tokens have readers of the same tokens. -/
theorem ofText_alike {text text' : String} (config : ReaderConfig)
    (same : (lex text').map LexItem.bare = (lex text).map LexItem.bare) :
    Alike (ofText text config) (ofText text' config) := by
  refine ⟨rfl, Cursor.ofText_proper text, Cursor.ofText_proper text', ?_⟩
  show Cursor.mk _ _ _ _ = Cursor.mk _ _ _ _
  rw [Cursor.mk.injEq]
  exact ⟨rfl, same, rfl, rfl⟩

end Reader

end Retrace
