/-
What calls to a reader return.

* `Reader.answers` — what a sequence of calls returns, call by call.
* `answers_further` — behind another text every sequence of calls returns the same, further
  on.
* `answers_before` — with text behind it a text gives its statements first.
* `answers_behind` — where no statement is left, the calls go on with the text behind.
* **`reading_is_local`** — behind a text that ends with a semicolon, every sequence of calls
  returns what it returns on the text alone, but for skips that are used up before it.

Design notes: a statement takes one semicolon. Those that the first text has beyond that
are still to come when its last statement was read. To read passes over all of them, but
to skip gives up on the text through the next semicolon, and so each of them takes one
skip.
-/
import Mathlib
import Retrace.Proofs.Reader.Concatenation
import Retrace.Proofs.Reader.WellFormed

namespace Retrace

open Retrace.Parser Tracking

/-! ### Skipping -/

/-- Behind another text the same text is given up. -/
theorem Parser.skipWithin_further {n fuel : Nat} {c c' : Cursor} (proper : c.Proper)
    (h : c.Further n c') : (skipWithin fuel c).Further n (skipWithin fuel c') := by
  induction fuel generalizing c c' with
  | zero => exact h
  | succ fuel ih =>
    have agree : (further n).Agree _ (advance c) (advance c') := agree_advance proper h
    have reaches := advance_comes c
    rw [Comes] at reaches
    rw [skipWithin, skipWithin]
    cases run : advance c with
    | ok lexeme c₁ =>
      rw [run] at agree reaches
      obtain ⟨c₁', run', there⟩ := agree.resolve_left id
      rw [run']
      by_cases stops : lexeme.token = .mark .semicolon ∨ lexeme.token = .eof
      · have stops' : (lexeme.placed (Span.shift n)).token = .mark .semicolon ∨
            (lexeme.placed (Span.shift n)).token = .eof := stops
        simp only [if_pos stops]
        exact (if_pos stops').symm ▸ there
      · have goes' : ¬((lexeme.placed (Span.shift n)).token = .mark .semicolon ∨
            (lexeme.placed (Span.shift n)).token = .eof) := stops
        simp only [if_neg stops]
        exact (if_neg goes').symm ▸ ih (reaches.proper proper) there
    | error e c₁ =>
      rw [run] at agree reaches
      obtain ⟨c₁', run', there⟩ := agree.resolve_left id
      rw [run']
      exact ih (reaches.proper proper) there

namespace Cursor

variable {last eof : Lexeme} {more : List LexItem} {c c' : Cursor} {rest : Feed}

/-- A semicolon that was looked at is all that is given up. -/
theorem skip_seen {lexeme : Lexeme} {ahead : List Lexeme} (first : c.ahead = lexeme :: ahead)
    (semicolon : lexeme.token = .mark .semicolon) :
    c.skipPastSemicolon = { c with ahead := ahead, previous := some lexeme } := by
  have other : lexeme.token ≠ .eof := by
    rw [semicolon]
    nofun
  rw [skipPastSemicolon, skipWithin, advance_seen first]
  simp only [if_neg other, if_pos (Or.inl semicolon : _ ∨ lexeme.token = .eof)]

/-- A semicolon that comes next is all that is given up. -/
theorem skip_upcoming {lexeme : Lexeme} {upcoming : List LexItem} (looked : c.ahead = [])
    (first : c.upcoming = .ok lexeme :: upcoming) (semicolon : lexeme.token = .mark .semicolon) :
    c.skipPastSemicolon = ⟨[], upcoming, c.eof, some lexeme⟩ := by
  obtain ⟨_, _, eof, previous⟩ := c
  obtain rfl : _ = [] := looked
  obtain rfl : _ = _ :: _ := first
  have taken : advance ⟨[], .ok lexeme :: upcoming, eof, previous⟩ = .ok lexeme
      ⟨if lexeme.token = .eof then [lexeme] else [], upcoming, eof, some lexeme⟩ := rfl
  have other : lexeme.token ≠ .eof := by
    rw [semicolon]
    nofun
  rw [skipPastSemicolon, skipWithin, taken]
  simp only [if_neg other, if_pos (Or.inl semicolon : _ ∨ lexeme.token = .eof)]

/-- With a semicolon next, the same is given up before more text. -/
theorem Extends.skip (here : c.Extends last more eof c')
    (feed : c.feed = some (.mark .semicolon) :: rest) :
    c.skipPastSemicolon.Extends last more eof c'.skipPastSemicolon ∧
      c.skipPastSemicolon.feed = rest := by
  obtain ⟨rfl, closed, within⟩ := here
  obtain ⟨ahead, upcoming, eof', previous⟩ := c
  rw [feed_eq (List.append_nil _).symm within (List.forall_mem_nil _)] at feed
  cases ahead with
  | cons lexeme ahead =>
    obtain ⟨token, rfl⟩ := List.cons.inj feed
    have semicolon : lexeme.token = .mark .semicolon := Option.some.inj token
    have others : ∀ lexeme ∈ ahead, lexeme.token ≠ .eof := fun lexeme' member =>
      within lexeme' (.tail _ member)
    rw [skip_seen rfl semicolon, skip_seen rfl semicolon]
    constructor
    · exact ⟨rfl, closed.consumed, others⟩
    · exact feed_eq (List.append_nil _).symm others (List.forall_mem_nil _)
  | nil =>
    cases upcoming with
    | nil => cases feed
    | cons item upcoming =>
      obtain ⟨token, rfl⟩ := List.cons.inj feed
      cases item with
      | error e => cases token
      | ok lexeme =>
        have semicolon : lexeme.token = .mark .semicolon := Option.some.inj token
        rw [skip_upcoming rfl rfl semicolon, skip_upcoming rfl rfl semicolon]
        constructor
        · exact ⟨rfl, closed.seen.consumed, List.forall_mem_nil _⟩
        · exact feed_eq rfl (List.forall_mem_nil _) (List.forall_mem_nil _)

/-- With nothing left of the first text, the second begins. -/
theorem Extends.ended {start n : Nat} {q : String}
    (here : c.Extends ⟨.mark .semicolon, ⟨start, n⟩⟩ ((lex q).map (LexItem.shift n))
      ((eofOf q).shift n) c') (nothing : c.feed = []) : (ofText q).Further n c' := by
  obtain ⟨rfl, closed, within⟩ := here
  obtain ⟨ahead, upcoming, eof', previous⟩ := c
  rw [feed_eq (List.append_nil _).symm within (List.forall_mem_nil _), List.append_eq_nil_iff,
    List.map_eq_nil_iff, List.map_eq_nil_iff] at nothing
  obtain ⟨rfl, rfl⟩ : ahead = [] ∧ upcoming = [] := nothing
  cases previous with
  | none => cases closed
  | some lexeme =>
    obtain rfl := Except.ok.inj (Option.some.inj closed)
    exact ⟨rfl, rfl, rfl, nofun, fun _ => ⟨_, rfl, rfl⟩⟩

end Cursor

/-! ### Calls -/

namespace Reader

/-- A call to a reader. -/
inductive Call
  | read
  | skip
  deriving DecidableEq, Repr

/-- What a sequence of calls returns. To skip returns nothing. -/
def answers (r : Reader) : List Call → List (Except ReadError (Option Node))
  | [] => []
  | .read :: calls => r.read.1 :: r.read.2.answers calls
  | .skip :: calls => r.skip.answers calls

/-- The reader after a number of statements were read. -/
def after (r : Reader) : (reads : Nat) → Reader
  | 0 => r
  | reads + 1 => r.read.2.after reads

/-- The calls that are left when a number of skips are used up before the first read. -/
def Call.without : (used : Nat) → List Call → List Call
  | used + 1, .skip :: calls => without used calls
  | _, calls => calls

variable {r r' r₁ : Reader} {n : Nat} {last eof : Lexeme} {more : List LexItem}

theorem after_config (reads : Nat) : (r.after reads).config = r.config := by
  induction reads generalizing r with
  | zero => rfl
  | succ reads ih =>
    rw [after, ih]
    cases run : nextStatement r.config.operators r.cursor with
    | ok node c => rw [read_of_result run]
    | error e c =>
      rw [read_of_error run]
      rfl

theorem skip_further (h : Further n r r') : Further n r.skip r'.skip := by
  have same : r'.cursor.remaining = r.cursor.remaining := h.cursor.remaining
  refine ⟨h.config, (skip_reaches r).proper h.proper, ?_⟩
  show (skipWithin (r.cursor.remaining + 1) r.cursor).Further n
    (skipWithin (r'.cursor.remaining + 1) r'.cursor)
  rw [same]
  exact skipWithin_further h.proper h.cursor

/-- **Behind another text every sequence of calls returns the same**, further on. -/
theorem answers_further (h : Further n r r') (calls : List Call) :
    r'.answers calls = (r.answers calls).map (shifted n) := by
  induction calls generalizing r r' with
  | nil => rfl
  | cons call calls ih =>
    cases call with
    | read =>
      obtain ⟨result, there⟩ := read_further h
      rw [answers, answers, List.map_cons, result, ih there]
    | skip => exact ih (skip_further h)

/-- With text behind it a text gives its statements first. -/
theorem answers_before (semicolon : last.token = .mark .semicolon) {nodes : List Node}
    {bound : Nat} (h : Extends last more eof r r') (enough : r.cursor.remaining < bound)
    (all : r.readWithin bound = (.ok nodes, r₁)) (calls : List Call) :
    ∃ r₂', Extends last more eof (r.after nodes.length) r₂' ∧
      (r.after nodes.length).read.1 = .ok none ∧
      r'.answers (List.replicate nodes.length .read ++ calls) =
        nodes.map (fun node => .ok (some node)) ++ r₂'.answers calls := by
  induction bound generalizing r r' nodes with
  | zero => exact absurd enough (Nat.not_lt_zero _)
  | succ bound ih =>
    rw [readWithin] at all
    cases read : r.read with
    | mk result r₂ =>
      rw [read] at all
      rcases result with e | _ | node
      · cases (Prod.mk.inj all).1
      · obtain rfl := Except.ok.inj (Prod.mk.inj all).1
        refine ⟨r', h, ?_, rfl⟩
        show r.read.1 = _
        rw [read]
      · obtain ⟨r₂', read', h₂⟩ := read_extends semicolon h read
        have less := (read_consumes h.proper read).2
        cases rest : r₂.readWithin bound with
        | mk others r₃ =>
          simp only [rest] at all
          obtain ⟨result, rfl⟩ := Prod.mk.inj all
          cases others with
          | error e => cases result
          | ok others =>
            obtain rfl := Except.ok.inj result
            obtain ⟨r₃', h₃, nothing, same⟩ := ih h₂ (by omega) rest
            have next : r.after (node :: others).length = r₂.after others.length := by
              show r.read.2.after others.length = _
              rw [read]
            refine ⟨r₃', next ▸ h₃, next ▸ nothing, ?_⟩
            show r'.read.1 :: r'.read.2.answers (List.replicate others.length .read ++ calls) = _
            rw [read', same]
            rfl

/-- Where semicolons are all that is left of the first text, the calls go on with the second, but
for the skips that the semicolons take. -/
theorem answers_behind {start left : Nat} {q : String}
    (h : Extends ⟨.mark .semicolon, ⟨start, n⟩⟩ ((lex q).map (LexItem.shift n))
      ((eofOf q).shift n) r r')
    (feed : r.cursor.feed = List.replicate left (some (.mark .semicolon))) (calls : List Call) :
    r'.answers calls =
      ((ofText q r'.config).answers (Call.without left calls)).map (shifted n) := by
  induction calls generalizing r r' left with
  | nil => cases left <;> rfl
  | cons call calls ih =>
    cases call with
    | read =>
      -- to read passes over all semicolons that are left
      let second : Cursor := ⟨[], (lex q).map (LexItem.shift n), (eofOf q).shift n,
        some ⟨.mark .semicolon, ⟨start, n⟩⟩⟩
      have there : Further n (ofText q r'.config) { r' with cursor := second } :=
        ⟨rfl, Cursor.ofText_proper q, rfl, rfl, rfl, nofun, fun _ => ⟨_, rfl, rfl⟩⟩
      have all : ∀ item ∈ r.cursor.feed, item = some (.mark .semicolon) := by
        rw [feed]
        exact fun item member => List.eq_of_mem_replicate member
      have goesOn : r'.read = Reader.read { r' with cursor := second } := by
        rw [read, read, parse, parse, nextStatement_behind rfl h.proper h.cursor all]
      have unused : Call.without left (.read :: calls) = .read :: calls := by
        cases left <;> rfl
      rw [unused, ← answers_further there, answers, answers, goesOn]
    | skip =>
      cases left with
      | zero =>
        have there : Further n (ofText q r'.config) r' :=
          ⟨rfl, Cursor.ofText_proper q, h.cursor.ended feed⟩
        exact answers_further there (.skip :: calls)
      | succ left =>
        obtain ⟨cursor, feed'⟩ := h.cursor.skip feed
        have there : Extends _ _ _ r.skip r'.skip :=
          ⟨h.config, (skip_reaches r).proper h.proper, cursor⟩
        exact ih there feed'

end Reader

/-! ### Two texts -/

/-- **Reading is lazy and local.** Let a text end with a semicolon and consist of statements, and
let a number of semicolons be left of it after the last of these. With any text behind it, as many
reads as there are statements return them, at the same places. From then on every sequence of calls
returns what it returns on the second text alone, with all places further on by the bytes of the
first, except that each semicolon that is left takes a skip that comes before the first read. -/
theorem reading_is_local {p : String} (ends : EndsStatement p) {config : ReaderConfig}
    {nodes : List Node} (all : (Reader.ofText p config).readAll.1 = .ok nodes) :
    ∃ left : Nat,
      ((Reader.ofText p config).after nodes.length).cursor.feed =
        List.replicate left (some (.mark .semicolon)) ∧
      ∀ (q : String) (calls : List Reader.Call),
        (Reader.ofText (p ++ q) config).answers (List.replicate nodes.length .read ++ calls) =
          nodes.map (fun node => .ok (some node)) ++
            ((Reader.ofText q config).answers (Reader.Call.without left calls)).map
              (Reader.shifted p.utf8ByteSize) := by
  obtain ⟨start, last⟩ := ends
  have statements : (Reader.ofText p config).readWithin _ = (.ok nodes, _) := Prod.ext all rfl
  have both : ∀ q, Reader.Extends _ _ _ (.ofText p config) (.ofText (p ++ q) config) := fun q =>
    ⟨rfl, Cursor.ofText_proper p, Reader.ofText_extends last q⟩
  have before := fun q calls =>
    Reader.answers_before rfl (both q) (Nat.lt_succ_self _) statements calls
  obtain ⟨r₁, here, nothing, _⟩ := before "" []
  obtain ⟨found, _⟩ := Reader.result_of_read (Prod.ext nothing rfl)
  refine ⟨_, List.eq_replicate_of_mem (semicolons_of_none here.proper found), ?_⟩
  intro q calls
  obtain ⟨r', there, _, same⟩ := before q calls
  have config' : r'.config = config := there.config.trans (Reader.after_config _)
  rw [same, Reader.answers_behind there (List.eq_replicate_of_mem
    (semicolons_of_none here.proper found)), config', Text.width_toList]

/-- The second semicolon is left of the first text, and takes the first of two skips. -/
theorem reading_is_local_skip :
    EndsStatement "1;;" ∧
      (Reader.plain "1;;").readAll.1 = .ok [.atom (.int 1) ⟨0, 1⟩] ∧
      (Reader.plain ("1;;" ++ "2;3;")).answers [.read, .skip, .skip, .read] =
        [.ok (some (.atom (.int 1) ⟨0, 1⟩)), .ok (some (.atom (.int 3) ⟨5, 6⟩))] := by
  have ends : EndsStatement "1;;" := ⟨2, by cbv⟩
  have all : (Reader.plain "1;;").readAll.1 = .ok [.atom (.int 1) ⟨0, 1⟩] := by cbv
  have count : ((Reader.plain "1;;").after 1).cursor.feed.length = 1 := by cbv
  have alone : (Reader.plain "2;3;").answers [.skip, .read] =
      [.ok (some (.atom (.int 3) ⟨2, 3⟩))] := by cbv
  refine ⟨ends, all, ?_⟩
  obtain ⟨left, feed, same⟩ := reading_is_local ends all
  have one : left = 1 := by
    rw [← count]
    show _ = (Cursor.feed _).length
    exact (List.length_replicate ▸ congrArg List.length feed).symm
  subst one
  have both := same "2;3;" [.skip, .skip, .read]
  rw [show Reader.Call.without 1 [.skip, .skip, .read] = [.skip, .read] from rfl] at both
  exact both.trans (by rw [show Reader.ofText "2;3;" _ = Reader.plain "2;3;" from rfl, alone]; rfl)

/-- A semicolon alone is no statement. Behind it the first skip gives up no statement, and without
it the same skip does. -/
theorem skip_takes_semicolon :
    EndsStatement ";" ∧ (Reader.plain ";").readAll.1 = .ok [] ∧
      (Reader.plain (";" ++ "1;2;")).answers [.skip, .read] ≠
        ((Reader.plain "1;2;").answers [.skip, .read]).map (Reader.shifted (";".utf8ByteSize)) := by
  refine ⟨⟨0, by cbv⟩, by cbv, ?_⟩
  have whole : (Reader.plain (";" ++ "1;2;")).answers [.skip, .read] =
      [.ok (some (.atom (.int 1) ⟨1, 2⟩))] := by cbv
  have alone : (Reader.plain "1;2;").answers [.skip, .read] =
      [.ok (some (.atom (.int 2) ⟨2, 3⟩))] := by cbv
  rw [whole, alone]
  intro same
  cases same

end Retrace
