/-
Reading ends, and it makes progress.

* `Parser.SkipsTo`, `Reader.ReadsAll` — what it is to skip and to read all statements, as loops
  that are not bounded.
* `skips_to`, `readAll_ends` — these loops end, and their bounds make no difference.
* `Reader.Recovers` — reading on to the end of the text, with a skip after each error.
* `Reader.Progress` — what a call does to a reader: no bound is used up, and each read that is
  not the last lowers what is left to be done, together with the skip after it.
* **`Reader.reading_ends`** — reading on to the end takes one read more than the text has bytes
  at most, and each call on the way makes progress.

Design notes:
* An error may leave the cursor where it was. It is the skip that goes on then, because an
  error is at something that is left.
* Bytes and tokens are not compared with each other. Every read takes something from the items
  that are left, and what is left to be done goes down by as much at least.
-/
import Retrace.Proofs.Reader.Halting
import Retrace.Proofs.Reader.Position

namespace Retrace

open Retrace.Parser

namespace Parser

variable {c c' : Cursor}

/-! ### Skipping -/

/-- A cursor from which nothing more is skipped is reached: behind a semicolon, or at the end. -/
inductive SkipsTo : Cursor → Cursor → Prop
  | stopped {c c' : Cursor} {lexeme : Lexeme} (here : advance c = .ok lexeme c')
      (last : lexeme.token = .mark .semicolon ∨ lexeme.token = .eof) : SkipsTo c c'
  | passed {c c' c'' : Cursor} {lexeme : Lexeme} (here : advance c = .ok lexeme c')
      (other : ¬(lexeme.token = .mark .semicolon ∨ lexeme.token = .eof)) (more : SkipsTo c' c'') :
      SkipsTo c c''
  | dropped {c c' c'' : Cursor} {e : ReadError} (here : advance c = .error e c')
      (more : SkipsTo c' c'') : SkipsTo c c''

/-- A token that is not the end of input is consumed. -/
theorem advance_lowers {lexeme : Lexeme} (proper : c.Proper) (h : advance c = .ok lexeme c')
    (other : lexeme.token ≠ .eof) : c'.remaining + 1 = c.remaining := by
  have consumes : Yields True advance c.feed fun lexeme rest =>
      c.feed.next = some lexeme.token ∧ rest = c.feed.tail :=
    yields_advance (fun _ next => ⟨next, rfl⟩) fun _ => trivial
  obtain ⟨_, next, left⟩ := consumes.result proper h
  obtain ⟨rest, feed⟩ := Feed.cons_of_next next other
  rw [remaining_eq, remaining_eq, left, feed]
  rfl

/-- The end of input comes when nothing is left. -/
theorem advance_ended {lexeme : Lexeme} (proper : c.Proper) (h : advance c = .ok lexeme c')
    (last : lexeme.token = .eof) : c.remaining = 0 := by
  have ends : Yields True advance c.feed fun lexeme _ => c.feed.next = some lexeme.token :=
    yields_advance (fun _ next => next) fun _ => trivial
  have next := (ends.result proper h).2
  rw [remaining_eq, proper.feed_nil (next.trans (congrArg some last)), List.length_nil]

/-- A piece that is no token is passed over. -/
theorem advance_drops {e : ReadError} (h : advance c = .error e c') :
    c'.remaining + 1 = c.remaining := by
  obtain ⟨ahead, upcoming, eof, previous⟩ := c
  cases ahead with
  | cons lexeme ahead =>
    rw [advance_seen rfl] at h
    cases h
  | nil =>
    rcases upcoming with _ | ⟨error | lexeme, upcoming⟩
    · have run : advance ⟨[], [], eof, previous⟩ = .ok eof _ := rfl
      rw [run] at h
      cases h
    · have run : advance ⟨[], .error error :: upcoming, eof, previous⟩ =
          .error (.lexical error) ⟨[], upcoming, eof, previous⟩ := rfl
      rw [run] at h
      cases h
      rfl
    · have run : advance ⟨[], .ok lexeme :: upcoming, eof, previous⟩ = .ok lexeme _ := rfl
      rw [run] at h
      cases h

theorem skipWithin_to {fuel : Nat} (proper : c.Proper) (enough : c.remaining < fuel) :
    SkipsTo c (skipWithin fuel c) := by
  induction fuel generalizing c with
  | zero => exact absurd enough (Nat.not_lt_zero _)
  | succ fuel ih =>
    have reaches := advance_comes c
    rw [Comes] at reaches
    rw [skipWithin]
    cases run : advance c with
    | ok lexeme c₁ =>
      rw [run] at reaches
      simp only
      split
      · next last => exact .stopped run last
      · next other =>
        have less := advance_lowers proper run fun isEof => other (.inr isEof)
        exact .passed run other (ih (reaches.proper proper) (by omega))
    | error e c₁ =>
      rw [run] at reaches
      have less := advance_drops run
      exact .dropped run (ih (reaches.proper proper) (by omega))

/-- **Skipping ends**, and its bound makes no difference. -/
theorem skips_to (proper : c.Proper) : SkipsTo c c.skipPastSemicolon :=
  skipWithin_to proper (Nat.lt_succ_self _)

/-- Where something is left, to skip takes some of it. -/
theorem skip_lowers (proper : c.Proper) (left : 0 < c.remaining) :
    c.skipPastSemicolon.remaining < c.remaining := by
  have reaches := advance_comes c
  rw [Comes] at reaches
  rw [Cursor.skipPastSemicolon, skipWithin]
  cases run : advance c with
  | ok lexeme c₁ =>
    rw [run] at reaches
    have other : lexeme.token ≠ .eof := fun last => by
      rw [advance_ended proper run last] at left
      exact Nat.lt_irrefl 0 left
    have less := advance_lowers proper run other
    have onwards := (skipWithin_reaches c.remaining c₁).remaining_le (reaches.proper proper)
    simp only
    split <;> omega
  | error e c₁ =>
    rw [run] at reaches
    have less := advance_drops run
    have onwards := (skipWithin_reaches c.remaining c₁).remaining_le (reaches.proper proper)
    simp only
    omega

/-- At most one token is looked at after a step, if that was so before. -/
theorem advance_short (short : c.ahead.length ≤ 1) :
    match advance c with
    | .ok _ c' | .error _ c' => c'.ahead.length ≤ 1 := by
  obtain ⟨ahead, upcoming, eof, previous⟩ := c
  cases ahead with
  | cons lexeme ahead =>
    rw [advance_seen rfl]
    simp only
    split
    · exact short
    · exact Nat.le_of_succ_le short
  | nil =>
    rcases upcoming with _ | ⟨error | lexeme, upcoming⟩
    · show (if eof.token = .eof then [eof] else []).length ≤ 1
      split <;> simp
    · exact Nat.zero_le 1
    · show (if lexeme.token = .eof then [lexeme] else []).length ≤ 1
      split <;> simp

theorem skipWithin_short (fuel : Nat) (short : c.ahead.length ≤ 1) :
    (skipWithin fuel c).ahead.length ≤ 1 := by
  induction fuel generalizing c with
  | zero => exact short
  | succ fuel ih =>
    have here := advance_short short
    rw [skipWithin]
    cases run : advance c with
    | ok lexeme c₁ =>
      rw [run] at here
      simp only
      split
      · exact here
      · exact ih here
    | error e c₁ =>
      rw [run] at here
      exact ih here

end Parser

/-- What an error says was expected, if it is about what the text says. -/
def ReadError.expected? : ReadError → Option String
  | lexical _ => none
  | unexpectedToken expected _ _ | unexpectedEnd expected _ => some expected

theorem Cursor.expected_unexpected (c : Cursor) (expected : String) :
    (c.unexpected expected).expected? = some expected := by
  unfold Cursor.unexpected
  split
  · rfl
  · split <;> rfl

namespace Reader

variable {text : String} {config : ReaderConfig} {r r' : Reader}

/-! ### Reading all statements -/

/-- What it is to read all statements that are left. -/
inductive ReadsAll : Reader → Except ReadError (List Node) × Reader → Prop
  | failed {r r' : Reader} {e : ReadError} (here : r.read = (.error e, r')) :
      ReadsAll r (.error e, r')
  | ended {r r' : Reader} (here : r.read = (.ok none, r')) : ReadsAll r (.ok [], r')
  | more {r r' r'' : Reader} {node : Node} {result : Except ReadError (List Node)}
      (here : r.read = (.ok (some node), r')) (others : ReadsAll r' (result, r'')) :
      ReadsAll r (result.map (node :: ·), r'')

theorem readWithin_ends {bound : Nat} (proper : r.cursor.Proper)
    (enough : r.cursor.remaining < bound) : ReadsAll r (r.readWithin bound) := by
  induction bound generalizing r with
  | zero => exact absurd enough (Nat.not_lt_zero _)
  | succ bound ih =>
    rw [readWithin]
    rcases run : r.read with ⟨e | (_ | node), r'⟩
    · exact .failed run
    · exact .ended run
    · obtain ⟨proper', less⟩ := read_consumes proper run
      exact .more run (ih proper' (by omega))

/-- **Reading all statements ends**, and its bound makes no difference. -/
theorem readAll_ends (proper : r.cursor.Proper) : ReadsAll r r.readAll :=
  readWithin_ends proper (Nat.lt_succ_self _)

/-! ### Readers that are reached -/

theorem Reached.within (h : Reached text config r) : r.cursor.Within text :=
  h.keeps Cursor.Step.within (Cursor.ofText_within text)

/-- A read leaves one token that was looked at, or none, and it does not use up a bound. -/
theorem read_halts (proper : r.cursor.Proper) (short : r.cursor.ahead.length ≤ 1) :
    r.read.2.cursor.ahead.length ≤ 1 ∧
      ∀ e, r.read.1 = .error e → e.expected? ≠ some boundWanted := by
  have halts := nextStatement_halts r.config.operators _ r.cursor proper rfl (Nat.zero_le _) short
  cases run : nextStatement r.config.operators r.cursor with
  | ok result c =>
    rw [run] at halts
    rw [read_of_result run]
    exact ⟨halts, nofun⟩
  | error e c =>
    rw [run] at halts
    rw [read_of_error run]
    refine ⟨halts.elim And.right fun stuck => Nat.le_of_eq stuck.looked, ?_⟩
    rintro _ ⟨⟩
    rcases halts with ⟨⟨e, rfl⟩, _⟩ | ⟨_, _, ⟨expected, other, rfl⟩, _⟩
    · exact nofun
    · rw [Cursor.expected_unexpected]
      exact fun same => other (Option.some.inj same)

/-- Between calls no more than one token was looked at. -/
theorem Reached.short (h : Reached text config r) : r.cursor.ahead.length ≤ 1 := by
  induction h with
  | start => exact Nat.zero_le 1
  | read before ih => exact (read_halts before.within.proper ih).1
  | skip _ ih => exact skipWithin_short _ ih

/-! ### Progress -/

/-- What a call does to a reader of a text. No bound is used up, skipping and reading all statements
end, and each read that is not the last lowers what is left to be done, together with the skip
after it. -/
structure Progress (text : String) (r : Reader) : Prop where
  read : ∀ e, r.read.1 = .error e → e.expected? ≠ some boundWanted
  readAll : ReadsAll r r.readAll
  skip : SkipsTo r.cursor r.skip.cursor
  statement : ∀ node r', r.read = (.ok (some node), r') →
    r'.cursor.outstanding text < r.cursor.outstanding text
  error : ∀ e r', r.read = (.error e, r') →
    r'.skip.cursor.outstanding text < r.cursor.outstanding text

/-- The error of a read is at something that is left, or behind something that was read. -/
theorem skip_after_error {e : ReadError} (proper : r.cursor.Proper)
    (h : r.read = (.error e, r')) : r'.skip.cursor.remaining < r.cursor.remaining := by
  have reaches := (read_reaches r).1
  rw [h] at reaches
  have proper' := reaches.proper proper
  have le := reaches.remaining_le proper
  have left : 0 < r.cursor.remaining := by
    refine Nat.pos_of_ne_zero fun nothing => ?_
    rw [remaining_eq] at nothing
    have ends : Yields False (nextStatement r.config.operators) r.cursor.feed
        fun result _ => result = none := by
      rw [List.length_eq_zero_iff.mp nothing]
      exact yields_noStatement
    obtain ⟨_, _, run, _⟩ := read_of_yields proper rfl ends
    cases h.symm.trans run
  rcases Nat.eq_zero_or_pos r'.cursor.remaining with nothing | some_left
  · have skips := (skip_reaches r').remaining_le proper'
    omega
  · have skips := skip_lowers proper' some_left
    exact Nat.lt_of_lt_of_le skips le

theorem Reached.progress (h : Reached text config r) : r.Progress text := by
  have within := h.within
  have proper := within.proper
  refine ⟨(read_halts proper h.short).2, readAll_ends proper, skips_to proper,
    fun node r' here => ?_, fun e r' here => ?_⟩
  · have reaches := (read_reaches r).1
    rw [here] at reaches
    have less := (read_consumes proper here).2
    have spends := within.spends reaches
    simp only at spends
    omega
  · have reaches := (read_reaches r).1
    rw [here] at reaches
    have less := skip_after_error proper here
    have spends := within.spends (reaches.trans (skip_reaches r'))
    omega

/-! ### Reading on to the end -/

/-- Reading on to the end of a text, with a skip after each error, takes a number of reads. -/
inductive Recovers : Reader → Nat → Prop
  | ended {r r' : Reader} (here : r.read = (.ok none, r')) : Recovers r 1
  | statement {r r' : Reader} {node : Node} {n : Nat} (here : r.read = (.ok (some node), r'))
      (others : Recovers r' n) : Recovers r (n + 1)
  | error {r r' : Reader} {e : ReadError} {n : Nat} (here : r.read = (.error e, r'))
      (others : Recovers r'.skip n) : Recovers r (n + 1)

/-- What is left to be done bounds the reads that are not the last. -/
theorem Reached.recovers (h : Reached text config r) :
    ∃ n ≤ r.cursor.outstanding text + 1, Recovers r n := by
  generalize size : r.cursor.outstanding text = left
  induction left using Nat.strongRecOn generalizing r with
  | ind left ih =>
    subst size
    have progress := h.progress
    have next : Reached text config r.read.2 := .read h
    rcases run : r.read with ⟨e | (_ | node), r'⟩ <;> rw [run] at next
    · have less := progress.error e r' run
      obtain ⟨n, few, others⟩ := ih _ less next.skip rfl
      exact ⟨n + 1, by omega, .error run others⟩
    · exact ⟨1, Nat.le_add_left 1 _, .ended run⟩
    · have less := progress.statement node r' run
      obtain ⟨n, few, others⟩ := ih _ less next rfl
      exact ⟨n + 1, by omega, .statement run others⟩

/-- **Reading ends and makes progress.** To read on to the end of a text takes one read more than it
has bytes at most, whatever the operators. From whatever reader is reached, each call ends, and
each read that is not the last lowers what is left to be done, together with the skip after it. -/
theorem reading_ends (text : String) (config : ReaderConfig) :
    (∃ n ≤ text.utf8ByteSize + 1, Recovers (ofText text config) n) ∧
      ∀ r, Reached text config r → r.Progress text := by
  refine ⟨?_, fun r h => h.progress⟩
  have first : Reached text config (ofText text config) := .start
  have recovers := first.recovers
  rwa [show (ofText text config).cursor = .ofText text from rfl, Cursor.ofText_outstanding]
    at recovers

/-- A text whose first statement ends too early is read to its end, and the reader that skipped
that statement makes progress. -/
theorem reading_ends_after_error :
    (∃ n ≤ "1 +; 2;".utf8ByteSize + 1, Recovers (plain "1 +; 2;") n) ∧
      (plain "1 +; 2;").read.2.skip.Progress "1 +; 2;" := by
  have ends := reading_ends "1 +; 2;" (.standard .plain none)
  exact ⟨ends.1, ends.2 _ (.skip (.read .start))⟩

end Reader

end Retrace
