/-
Evaluation does not look at places in a text.

* `Session.bare` — a session without places.
* **`Session.evaluate_bare`** — a statement without places comes to what the statement comes
  to, without places.

Design notes: to leave places out is a change that keeps the numbers of frames, and
evaluation goes along with every change. Without places there is one store that belongs to a
store, so what comes of a statement is determined.
-/
import Retrace.Proofs.Machine.Relabelling
import Retrace.Proofs.Value.Places

namespace Retrace

open Relabelling (erased)

namespace Session

/-- A session without places. -/
def bare (session : Session) : Session :=
  { session with store := session.store.bare }

/-- What came of a statement, without places. -/
def bareOutcome (outcome : Except EvalError Value × Session) : Except EvalError Value × Session :=
  (outcome.1.map Value.bare, outcome.2.bare)

/-- A session without places is the one that belongs to it when places are left out. -/
theorem bare_iff {session session' : Session} :
    session' = session.bare ↔ erased.Sessions session session' := by
  constructor
  · rintro rfl
    exact ⟨Store.bare_iff.mp rfl, rfl, rfl, rfl⟩
  · rintro ⟨store, global, limit, steps⟩
    obtain ⟨s, g, l, n⟩ := session'
    simp only at store global limit steps
    rw [Store.bare_iff.mpr store, global, limit, steps]
    rfl

/-- **A statement without places comes to the same, without places.** -/
theorem evaluate_bare (session : Session) (fuel : Nat) (node : Node) :
    session.bare.evaluate fuel node.bare = (session.evaluate fuel node).map bareOutcome := by
  have outcomes := Relabelling.evaluate_follows (bare_iff.mp (Eq.refl session.bare)) fuel node
  rw [Relabelling.node, show node.placed erased.place = node.bare from node.placed_default]
    at outcomes
  obtain ⟨none, none'⟩ | ⟨outcome, outcome', some, some', same⟩ := Relabelling.rel_cases outcomes
  · rw [none, none']
    rfl
  · rw [some, some']
    refine congrArg Option.some (Prod.ext ?_ (bare_iff.mpr same.sessions))
    rw [same.result, Value.erased_eq_bare]
    rfl

end Session

end Retrace
