/-
What all of a text is read as.

* `Onward` — how the next statement lies in a feed.
* `Program` — the statements of a whole feed.
* **`Reader.readAll_program`** — the trees of a text that is read are those of its feed.
* **`Reader.readAll_of_program`** — a text whose feed has trees is read, and these are what
  it is read as.

Design notes: semicolons between statements are passed over one by one, so that a property
of programs is proved by a case for a semicolon and a case for a statement. How many of them
a single call of the reader passes over plays no part.
-/
import Retrace.Proofs.Reader.Concatenation

namespace Retrace

open Retrace.Parser Node Reader

variable {table : OperatorTable} {feed rest : Feed} {node : Node} {nodes : List Node}

/-- How the next statement lies in a feed: only semicolons are before it. -/
def Onward (table : OperatorTable) (node : Node) (before after : Feed) : Prop :=
  ∃ semicolons feed rest, before = semicolons ++ feed ∧
    (∀ item ∈ semicolons, item = some (.mark .semicolon)) ∧
    Reads table .statement feed [node] rest ∧ EndsAt node rest after

/-- The statements of a feed up to its end, with the semicolons between them passed over. -/
inductive Program (table : OperatorTable) : Feed → List Node → Prop
  | nothing : Program table [] []
  | skipped {feed : Feed} {nodes : List Node} (behind : Program table feed nodes) :
      Program table (some (.mark .semicolon) :: feed) nodes
  | statement {feed rest feed' : Feed} {node : Node} {nodes : List Node}
      (first : Reads table .statement feed [node] rest) (ends : EndsAt node rest feed')
      (others : Program table feed' nodes) : Program table feed (node :: nodes)

namespace Program

theorem behind {semicolons : Feed} (all : ∀ item ∈ semicolons, item = some (.mark .semicolon))
    (h : Program table feed nodes) : Program table (semicolons ++ feed) nodes := by
  induction semicolons with
  | nil => exact h
  | cons item semicolons ih =>
    obtain ⟨rfl, others⟩ := List.forall_mem_cons.mp all
    exact .skipped (ih others)

theorem of_semicolons (all : ∀ item ∈ feed, item = some (.mark .semicolon)) :
    Program table feed [] := by
  rw [← List.append_nil feed]
  exact behind all .nothing

/-- The next statement and the statements behind it. -/
theorem onward (first : Onward table node feed rest) (others : Program table rest nodes) :
    Program table feed (node :: nodes) := by
  obtain ⟨semicolons, feed, _, rfl, all, reads, ends⟩ := first
  exact behind all (.statement reads ends others)

end Program

namespace Reader

/-! ### What is read is a program -/

/-- Only semicolons are before a statement that is read. -/
theorem yields_onward (table : OperatorTable) (feed : Feed) :
    Yields True (nextStatement table) feed fun result after =>
      ∀ node ∈ result, Onward table node.bare feed after := by
  refine yields_bound (yields_bind ((yields_skipped_all feed _).mono ?_))
  rintro _ feed ⟨semicolons, rfl, all⟩
  refine yields_bind (yields_check (fun _ => ?_) (fun _ _ _ => ?_) fun _ => trivial)
  · refine yields_pure fun node absent => ?_
    cases absent
  refine yields_bind (yields_bound (((Grammar.upTo_sound table _).statement feed).mono ?_))
  intro node rest reads
  have passes : ∀ {after}, EndsAt node.bare rest after →
      ∀ node' ∈ some node, Onward table node'.bare (semicolons ++ feed) after := by
    rintro after ends _ ⟨⟩
    exact ⟨semicolons, feed, rest, rfl, all, reads, ends⟩
  split
  · next ended =>
    rw [← endsWithBlock_bare] at ended
    refine yields_bind (yields_accept (fun next => ?_) (fun t next other => ?_) fun _ => trivial)
    · obtain ⟨after, rfl⟩ := Feed.cons_of_next next (by decide)
      exact yields_pure (passes (.inl rfl))
    · exact yields_pure (passes (.inr ⟨rfl, ended, t, next, other⟩))
  · refine yields_bind (yields_consume (fun next _ => ?_) fun _ => trivial)
    obtain ⟨after, rfl⟩ := Feed.cons_of_next next (by decide)
    exact yields_pure (passes (.inl rfl))

variable {r r' : Reader} {bound : Nat}

theorem read_onward (proper : r.cursor.Proper) (h : r.read = (.ok (some node), r')) :
    Onward r.config.operators node.bare r.cursor.feed r'.cursor.feed := by
  obtain ⟨run, _⟩ := result_of_read h
  exact ((yields_onward r.config.operators r.cursor.feed).result proper run).2 node rfl

theorem readWithin_program (proper : r.cursor.Proper) (enough : r.cursor.remaining < bound)
    (h : (r.readWithin bound).1 = .ok nodes) :
    Program r.config.operators r.cursor.feed (bareAll nodes) := by
  induction bound generalizing r nodes with
  | zero => exact absurd enough (Nat.not_lt_zero _)
  | succ bound ih =>
    rw [readWithin] at h
    rcases run : r.read with ⟨_ | (_ | node), r'⟩ <;> rw [run] at h
    · cases h
    · obtain rfl := Except.ok.inj h
      exact .of_semicolons (semicolons_of_none proper (result_of_read run).1)
    · obtain ⟨proper', less⟩ := read_consumes proper run
      cases rest : (r'.readWithin bound).1 with
      | error e =>
        simp only [rest] at h
        cases h
      | ok others =>
        simp only [rest] at h
        obtain rfl := Except.ok.inj h
        have behind := ih proper' (by omega) rest
        rw [(result_of_read run).2] at behind
        exact .onward (read_onward proper run) behind

/-- **The trees of a text that is read are those of its feed.** -/
theorem readAll_program (proper : r.cursor.Proper) (h : r.readAll.1 = .ok nodes) :
    Program r.config.operators r.cursor.feed (bareAll nodes) :=
  readWithin_program proper (Nat.lt_succ_self _) h

/-! ### A program is read -/

/-- A semicolon in front of a reader makes no difference. -/
theorem readWithin_skips {c : Cursor} (less : r.cursor.remaining = c.remaining + 1)
    (accepted : accept (.mark .semicolon) r.cursor = .ok true c) :
    r.readWithin (bound + 1) = { r with cursor := c }.readWithin (bound + 1) := by
  have same : r.read = { r with cursor := c }.read := by
    rw [read, read, parse, parse]
    simp only [nextStatement_skips less accepted]
  rw [readWithin, readWithin, same]

theorem readWithin_of_program (h : Program table feed nodes) (proper : r.cursor.Proper)
    (operators : r.config.operators = table) (here : r.cursor.feed = feed)
    (enough : feed.length < bound) :
    ∃ nodes', (r.readWithin bound).1 = .ok nodes' ∧ bareAll nodes' = nodes := by
  induction h generalizing r bound with
  | nothing =>
    obtain ⟨bound, rfl⟩ : ∃ b, bound = b + 1 := ⟨bound - 1, by omega⟩
    have nothing : Yields False (nextStatement table) r.cursor.feed
        fun result _ => result = none := by
      rw [here]
      exact yields_noStatement
    obtain ⟨_, r', run, _, _, rfl⟩ := read_of_yields proper operators nothing
    refine ⟨[], ?_, rfl⟩
    rw [readWithin, run]
  | skipped behind ih =>
    obtain ⟨bound, rfl⟩ : ∃ b, bound = b + 1 := ⟨bound - 1, by omega⟩
    obtain ⟨c, accepted, proper', there⟩ := accept_semicolon proper here
    rw [List.length_cons] at enough
    have less : r.cursor.remaining = c.remaining + 1 := by
      rw [remaining_eq, remaining_eq, here, there, List.length_cons]
    rw [readWithin_skips less accepted]
    exact ih (r := { r with cursor := c }) proper' operators there (by omega)
  | statement first ends others ih =>
    obtain ⟨bound, rfl⟩ : ∃ b, bound = b + 1 := ⟨bound - 1, by omega⟩
    have next := yields_statement first ends
    rw [← here] at next
    obtain ⟨result, r', run, operators', proper', bare, there⟩ :=
      read_of_yields proper operators next
    obtain ⟨node, rfl, same⟩ := Option.map_eq_some_iff.mp bare
    have less := (read_consumes proper run).2
    rw [remaining_eq, remaining_eq, here, there] at less
    obtain ⟨nodes', run', bares⟩ := @ih r' bound proper' operators' there (by omega)
    refine ⟨node :: nodes', ?_, ?_⟩
    · rw [readWithin, run]
      show Except.map _ (readWithin r' bound).1 = _
      rw [run']
      rfl
    · rw [bareAll, same, bares]

/-- **A text whose feed has trees is read**, and these are what it is read as. -/
theorem readAll_of_program (proper : r.cursor.Proper)
    (h : Program r.config.operators r.cursor.feed nodes) :
    ∃ nodes', r.readAll.1 = .ok nodes' ∧ bareAll nodes' = nodes := by
  refine readWithin_of_program h proper rfl rfl ?_
  rw [remaining_eq]
  exact Nat.lt_succ_self _

end Reader

end Retrace
