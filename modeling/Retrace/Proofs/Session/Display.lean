/-
Reading back what is shown.

* `Session.start_subtracts` — before the first statement the minus sign has its meaning.
* **`data_reads_back`** — the text of data, with a semicolon behind it, is a program that
  comes to the data, unless the least integer is in it or a string that is shown with an
  escape that string literals do not have. Then it is no program at all.

Design notes: the program is one statement. Its value is that of the expression that the data is
shown as, because its text is read as the tokens of this expression.
-/
import Mathlib
import Retrace.Proofs.Machine.Data
import Retrace.Proofs.Session.Statements

namespace Retrace

theorem Session.start_subtracts (limit : Option Nat) :
    Machine.Subtracts (start limit).store (start limit).global :=
  ⟨_, rfl, rfl⟩

/-- **Data is read back from what it is shown as**, unless it is flawed: then the program stops
with a lexical error. -/
theorem data_reads_back {v : Value} (data : v.IsData) :
    (v.Legible → ∃ enough, ∀ fuel ≥ enough, runProgram fuel (v.text ++ ";") = some (.ok v)) ∧
    (¬v.Legible → ∃ e, ∀ fuel,
      runProgram fuel (v.text ++ ";") = some (.error (.read (.lexical e)))) ∧
    (¬v.Legible ↔ v.Flawed) := by
  refine ⟨fun legible => ?_, fun illegible => ?_, data.flawed_iff.symm⟩
  · obtain ⟨e, written⟩ := legible.written
    obtain ⟨m, steps⟩ := written.steps (Session.start_subtracts none) [] []
    rw [← Session.store_start_bare] at steps
    refine ⟨m + 1, fun fuel enough => ?_⟩
    obtain ⟨_, _, run, _⟩ :=
      Session.run_data data (written.feed Lexer.ends_semicolon) rfl steps enough
    rw [runProgram, run]
    rfl
  · have broken : Broken .builtins (Lexer.feed (v.text.toList ++ [';'])) :=
      data.broken (data.flawed_iff.mpr illegible) Lexer.ends_semicolon
    rw [← Reader.plain_feed] at broken
    have proper : (Reader.plain (v.text ++ ";")).cursor.Proper := Cursor.ofText_proper _
    obtain ⟨e, r', read⟩ := Reader.read_of_broken proper broken
    refine ⟨e, fun fuel => ?_⟩
    rw [runProgram, Session.run_eq, Session.runFrom_error read]
    rfl

/-- A negative number and a line feed in a list are read back, and a single quote in a list is not:
its escape is not one that a literal has. -/
theorem data_reads_back_line_feed :
    let v := Value.list [.int (-5), .str "\n"]
    let w := Value.list [.bool true, .str "'"]
    (v.IsData ∧ v.Legible ∧ v.text = "[-5, \"\\n\"]" ∧
      ∃ enough, ∀ fuel ≥ enough, runProgram fuel (v.text ++ ";") = some (.ok v)) ∧
    w.IsData ∧ ¬w.Legible ∧ w.text = "[true, \"\\'\"]" ∧
      ∃ e, ∀ fuel, runProgram fuel (w.text ++ ";") = some (.error (.read (.lexical e))) := by
  intro v w
  have data : v.IsData := .list (by simp [Value.IsData.int, Value.IsData.str])
  have data' : w.IsData := .list (by simp [Value.IsData.bool, Value.IsData.str])
  have lineFeed : Text.pieces "\n".toList = [['\\', 'n']] := by cbv
  have quote : Text.pieces "'".toList = [['\\', '\'']] := by cbv
  have legible : v.Legible := by
    have string : Value.Legible (.str "\n") := by
      refine .str ?_
      rw [lineFeed]
      exact List.forall_mem_singleton.mpr (.inr (by decide))
    exact .list (List.forall_mem_cons.mpr ⟨.int (by decide), List.forall_mem_singleton.mpr string⟩)
  have flawed : w.Flawed := by
    have member : ['\\', '\''] ∈ Text.pieces "'".toList := by
      rw [quote]
      exact .head _
    exact .list (.tail _ (.head _)) (.str member (.inl rfl))
  have illegible := (data_reads_back data').2.2.mpr flawed
  refine ⟨⟨data, legible, by cbv, (data_reads_back data).1 legible⟩, data', illegible, by cbv,
    (data_reads_back data').2.1 illegible⟩

end Retrace
