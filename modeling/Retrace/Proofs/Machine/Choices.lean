/-
A choice is associative, and going back is its unit.

* `Delivers` — moves from one state to another, with the values they hand to a
  continuation.
* `Beside` — where two runs stand that have the same to do and to try, down to where the
  trails they began with are left.
* `Beside.step` — two runs side by side stay so with every move, until they go back to
  these trails.
* `Beside.matched`, `Beside.late` — what follows for whole runs, when the two trails lead
  to the same after one move, or the second leads to the first.
* **`choices_form_a_monoid`** — the two groupings of three alternatives, and a choice
  with an alternative that only goes back, against the alternative alone.
* **`evaluate_groupings`** — a session cannot tell the two groupings apart.

Design notes:
* The runs are compared twice. `Lockstep` leaves the continuation open: it may answer a
  value by sending the evaluation back, at once or much later and from any store.
  `Matched` is about the runs of the machine with the tasks and the choices that are
  given.
* What differs between two groupings is one place of the trail, however much is put in
  front of it later. So runs are side by side when they differ there only, and what is
  left to be tried is no part of how a run is seen to go.
-/
import Retrace.Proofs.Machine.Uniform

namespace Retrace

/-- The choice between two nodes, with the places of its symbol and of the whole. -/
def Node.choice (places : Span × Span) (first second : Node) : Node :=
  .apply (.symbol Form.choice.name places.1) [first, second] places.2

/-- The node that goes back. -/
def Node.back (place : Span) : Node :=
  .symbol Node.backName place

namespace Machine

variable {k : Cont} {rest rest' trail : Trail} {s t : Store} {move move' : Move} {n : Nat}
  {values : List Value} {a b c : Promise × Store}

/-- A choice evaluates its first alternative, with the second one left to be tried. -/
theorem eval_choice (places : Span × Span) (first second : Node) (env : Env) (k : Cont)
    (trail : Trail) (s : Store) :
    eval (.choice places first second) env k trail s =
      eval first env k (.retry second env k :: trail) s := by
  have special : (Node.symbol Form.choice.name places.1).form? = some .choice := rfl
  rw [Node.choice, eval.eq_def]
  simp only [special]

theorem eval_back (place : Span) (env : Env) (k : Cont) (trail : Trail) (s : Store) :
    eval (.back place) env k trail s = (retreat trail, s) := by
  rw [Node.back, Node.symbol, eval, if_pos rfl]

/-! ### Groupings in lockstep -/

theorem not_leaves_retreat {u : Trail} (longer : rest.length < u.length) :
    ¬Leaves k rest (.retreat u) := by
  rintro (⟨_, _, same⟩ | same)
  · cases same
  · rw [Move.retreat.inj same] at longer
    exact absurd longer (Nat.lt_irrefl _)

/-- Two evaluations of a node with an alternative each are in lockstep if the alternatives are. -/
theorem eval_lockstep_retry (node : Node) {env : Env} {s : Store} {other other' : Node}
    {u u' : Trail} (le : rest.length ≤ u.length) (le' : rest'.length ≤ u'.length)
    (after : ∀ t, Lockstep k rest k rest' (eval other env k u t) (eval other' env k u' t)) :
    Lockstep k rest k rest' (eval node env k (.retry other env k :: u) s)
      (eval node env k (.retry other' env k :: u') s) := by
  have longer : rest.length < (Choice.retry other env k :: u).length := Nat.lt_succ_of_le le
  have longer' : rest'.length < (Choice.retry other' env k :: u').length := Nat.lt_succ_of_le le'
  exact eval_lockstep_before node env s (Nat.le_of_lt longer) (Nat.le_of_lt longer') fun t =>
    .move _ _ t (not_leaves_retreat longer) (not_leaves_retreat longer') (after t)

/-- The two groupings of three alternatives are evaluated in lockstep. -/
theorem lockstep_groupings (p q p' q' : Span × Span) (first second third : Node) (env : Env) :
    Lockstep k trail k trail
      (eval (.choice p (.choice q first second) third) env k trail s)
      (eval (.choice p' first (.choice q' second third)) env k trail s) := by
  rw [eval_choice, eval_choice, eval_choice]
  refine eval_lockstep_retry first (Nat.le_succ _) (Nat.le_refl _) fun t => ?_
  -- from the second alternative on the groupings are the same
  rw [eval_choice]
  exact eval_lockstep_retry second (Nat.le_refl _) (Nat.le_refl _) fun t' =>
    eval_lockstep third env t' k trail k trail

/-! ### Values that are handed over -/

/-- The values that a move hands to a continuation: one or none. -/
inductive Handed (k : Cont) : Move → List Value → Prop
  | value (value : Value) (trail : Trail) : Handed k (.deliver value k trail) [value]
  | none (move : Move) (other : ∀ value trail, move ≠ .deliver value k trail) : Handed k move []

/-- A number of moves from one state to another, with the values that they hand to a continuation,
in order. -/
inductive Delivers (k : Cont) : Nat → List Value → Promise × Store → Promise × Store → Prop
  | refl (state : Promise × Store) : Delivers k 0 [] state state
  | move {n : Nat} {first values : List Value} {move : Move} {s : Store} {last : Promise × Store}
      (now : Handed k move first) (later : Delivers k n values (bounce move s) last) :
      Delivers k (n + 1) (first ++ values) (.next move, s) last

theorem delivers_succ_iff {last : Promise × Store} :
    Delivers k (n + 1) values (.next move, s) last ↔
      ∃ first more, Handed k move first ∧ values = first ++ more ∧
        Delivers k n more (bounce move s) last := by
  constructor
  · intro h
    cases h with
    | move now later => exact ⟨_, _, now, rfl, later⟩
  · rintro ⟨first, more, now, rfl, later⟩
    exact .move now later

/-- Going back hands nothing over. -/
theorem delivers_retreat {last : Promise × Store} :
    Delivers k (n + 1) values (retreat trail, s) last ↔
      Delivers k n values (bounce (.retreat trail) s) last := by
  rw [retreat, delivers_succ_iff]
  constructor
  · rintro ⟨first, more, now, rfl, later⟩
    cases now with
    | none => exact later
  · exact fun later => ⟨[], values, .none _ nofun, rfl, later⟩

/-! ### What is seen of a run -/

/-- A move, without what is left to be tried. -/
def Move.bare : Move → Move
  | .deliver value k _ => .deliver value k []
  | .retreat _ => .retreat []
  | .seek name env k _ => .seek name env k []
  | .gather goal values k _ => .gather goal values k []
  | .follow plan => .follow plan

/-- Where an evaluation stands, without what is left to be tried. -/
def Promise.bare : Promise → Promise
  | .error e => .error e
  | .done value _ => .done value none
  | .next move => .next move.bare

/-- States with the same store and the same result or the same move to make, whatever is left to
be tried. -/
def Alike (a b : Promise × Store) : Prop :=
  a.1.bare = b.1.bare ∧ a.2 = b.2

theorem Handed.of_bare (same : move.bare = move'.bare) (h : Handed k move values) :
    Handed k move' values := by
  cases h with
  | value value trail =>
    cases move' with
    | deliver value' k' trail' =>
      obtain ⟨rfl, rfl, _⟩ := Move.deliver.inj same
      exact .value value trail'
    | _ => cases same
  | none _ other =>
    refine .none move' ?_
    rintro value trail rfl
    cases move with
    | deliver value' k' trail' =>
      obtain ⟨rfl, rfl, _⟩ := Move.deliver.inj same
      exact other value' trail' rfl
    | _ => cases same

/-- Two runs go alike for a number of moves: each hands over what the other does, and comes to a
state like that of the other. -/
def Matched (k : Cont) (n : Nat) (a b : Promise × Store) : Prop :=
  (∀ values last, Delivers k n values a last →
    ∃ last', Delivers k n values b last' ∧ Alike last last') ∧
  ∀ values last', Delivers k n values b last' →
    ∃ last, Delivers k n values a last ∧ Alike last last'

theorem Matched.refl (k : Cont) (n : Nat) (a : Promise × Store) : Matched k n a a :=
  ⟨fun _ last h => ⟨last, h, rfl, rfl⟩, fun _ last h => ⟨last, h, rfl, rfl⟩⟩

theorem Matched.zero (alike : Alike a b) : Matched k 0 a b := by
  constructor
  · intro values last h
    cases h
    exact ⟨b, .refl b, alike⟩
  · intro values last h
    cases h
    exact ⟨a, .refl a, alike⟩

/-- What has come to a result makes no moves to be matched. -/
theorem Matched.of_result (stopped : a.1.result? ≠ none) (stopped' : b.1.result? ≠ none) :
    Matched k (n + 1) a b := by
  constructor
  · intro values last h
    cases h
    exact absurd rfl stopped
  · intro values last h
    cases h
    exact absurd rfl stopped'

/-- A move that is seen to be the same does not part two runs. -/
theorem Matched.succ (same : move.bare = move'.bare)
    (next : Matched k n (bounce move s) (bounce move' s)) :
    Matched k (n + 1) (.next move, s) (.next move', s) := by
  constructor
  · intro values last h
    obtain ⟨first, more, now, rfl, later⟩ := delivers_succ_iff.mp h
    obtain ⟨last', later', alike⟩ := next.1 more last later
    exact ⟨last', .move (now.of_bare same) later', alike⟩
  · intro values last h
    obtain ⟨first, more, now, rfl, later⟩ := delivers_succ_iff.mp h
    obtain ⟨last', later', alike⟩ := next.2 more last later
    exact ⟨last', .move (now.of_bare same.symm) later', alike⟩

/-! ### Runs side by side -/

/-- A trail on which no plan is written out. -/
def Unplanned (trail : Trail) : Prop :=
  ∀ plan, .plan plan ∉ trail

/-- Where two runs stand that differ in what their trails end with: inside an evaluation that has
the same to do and to try after it, or at the same value. -/
inductive Beside (rest rest' : Trail) : Promise × Store → Promise × Store → Prop
  | inside (c : Promise × Store) (k : Cont) (trail : Trail) (inner : c.1.Inner)
      (unplanned : Unplanned trail) :
      Beside rest rest' (stateOnto k (trail ++ rest) c) (stateOnto k (trail ++ rest') c)
  | done (value : Value) (trail : Trail) (s : Store) :
      Beside rest rest' (.done value (some (trail ++ rest)), s)
        (.done value (some (trail ++ rest')), s)

/-- Where a move leads two runs that are side by side: they still are, or they went back to what
their trails end with. -/
def Onwards (rest rest' : Trail) (s : Store) (a b : Promise × Store) : Prop :=
  Beside rest rest' a b ∨ a = bounce (.retreat rest) s ∧ b = bounce (.retreat rest') s

/-- The evaluations of a node with two trails are side by side. -/
theorem eval_beside (node : Node) (env : Env) (k : Cont) (trail : Trail)
    (unplanned : Unplanned trail) (s : Store) :
    Beside rest rest' (eval node env k (trail ++ rest) s) (eval node env k (trail ++ rest') s) := by
  rw [eval_eq_onto node env k (trail ++ rest), eval_eq_onto node env k (trail ++ rest')]
  exact .inside _ k trail (eval_inner node env s) unplanned

theorem Beside.alike (beside : Beside rest rest' a b) : Alike a b := by
  cases beside with
  | inside c k trail inner _ =>
    refine ⟨?_, rfl⟩
    obtain ⟨promise, s⟩ := c
    cases promise with
    | error | done => rfl
    | next move => cases move <;> rfl
  | done => exact ⟨rfl, rfl⟩

theorem retreat_onwards (unplanned : Unplanned trail) :
    Onwards rest rest' s (bounce (.retreat (trail ++ rest)) s)
      (bounce (.retreat (trail ++ rest')) s) := by
  cases trail with
  | nil => exact .inr ⟨rfl, rfl⟩
  | cons choice trail =>
    have unplanned' : Unplanned trail := fun plan member => unplanned plan (.tail _ member)
    left
    cases choice with
    | undo name env =>
      have nothing : (retreat []).Inner := nofun
      exact .inside (retreat [], s.unbind env name) [] trail nothing unplanned'
    | retry node env k => exact eval_beside node env k trail unplanned' s
    | plan plan => exact absurd (.head _) (unplanned plan)

/-- A value that leaves an evaluation finds the same to do in both runs. -/
theorem deliver_onwards (value : Value) (k : Cont) (unplanned : Unplanned trail) :
    Onwards rest rest' s (bounce (.deliver value k (trail ++ rest)) s)
      (bounce (.deliver value k (trail ++ rest')) s) := by
  cases k with
  | nil => exact .inl (.done value trail s)
  | cons task k =>
    by_cases reject : task = .reject
    · subst reject
      exact retreat_onwards unplanned
    · -- the task begins something of its own, in front of the others
      have whole : ∀ u, bounce (.deliver value (task :: k) u) s =
          stateOnto k u (perform task value [] [] s) := fun u =>
        @perform_onto k [] u [] s task value reject
      have plain : (Move.deliver value [task] []).Plain :=
        ⟨PlainCont.cons reject List.not_mem_nil, nofun⟩
      have inner : (perform task value [] [] s).1.Inner :=
        bounce_inner plain (by rintro (⟨_, _, same⟩ | same) <;> cases same)
      rw [whole, whole]
      exact .inl (.inside _ k trail inner unplanned)

theorem unplanned_onto {own : Trail} (plain : PlainTrail own) (unplanned : Unplanned trail) :
    Unplanned (own.map (·.onto k) ++ trail) := by
  intro plan member
  rcases List.mem_append.mp member with here | there
  · obtain ⟨choice, among, same⟩ := List.mem_map.mp here
    cases choice with
    | plan plan => exact plain _ among
    | undo | retry => cases same
  · exact unplanned plan there

/-- **Two runs side by side stop together, or make a move that is seen to be the same** and are
side by side again or back at what their trails end with. -/
theorem Beside.step (beside : Beside rest rest' a b) :
    (a.1.result? ≠ none ∧ b.1.result? ≠ none) ∨
      ∃ move move' s, a = (.next move, s) ∧ b = (.next move', s) ∧ move.bare = move'.bare ∧
        Onwards rest rest' s (bounce move s) (bounce move' s) := by
  cases beside with
  | done => exact .inl ⟨nofun, nofun⟩
  | inside c k trail inner unplanned =>
    obtain ⟨promise, s⟩ := c
    cases promise with
    | error => exact .inl ⟨nofun, nofun⟩
    | done => exact absurd inner id
    | next move =>
      right
      by_cases leaves : Leaves [] [] move
      · obtain ⟨value, own, rfl⟩ | rfl := leaves
        · have regroup : ∀ u, trailOnto k (trail ++ u) own = own.map (·.onto k) ++ trail ++ u :=
            fun u => (List.append_assoc ..).symm
          refine ⟨_, _, s, rfl, rfl, rfl, ?_⟩
          simp only [Move.onto, regroup]
          exact deliver_onwards value k (unplanned_onto inner.2 unplanned)
        · exact ⟨_, _, s, rfl, rfl, rfl, retreat_onwards unplanned⟩
      · refine ⟨_, _, s, rfl, rfl, by cases move <;> rfl, .inl ?_⟩
        rw [bounce_onto inner leaves, bounce_onto inner leaves]
        exact .inside _ k trail (bounce_inner inner leaves) unplanned

/-- Runs side by side go alike if their trails lead to the same after one move. -/
theorem Beside.matched (meet : ∀ s, bounce (.retreat rest) s = bounce (.retreat rest') s)
    (beside : Beside rest rest' a b) (n : Nat) : Matched k n a b := by
  induction n generalizing a b with
  | zero => exact .zero beside.alike
  | succ n ih =>
    obtain ⟨stopped, stopped'⟩ | ⟨move, move', s, rfl, rfl, same, onwards⟩ := beside.step
    · exact .of_result stopped stopped'
    · refine .succ same ?_
      rcases onwards with beside | ⟨back, back'⟩
      · exact ih beside
      · rw [back, back', meet]
        exact .refl ..

/-- How a run ended, without the choices left open. -/
def Ending.bare (ending : Ending) : Except EvalError Value × Meter × Store :=
  (ending.value, ending.meter, ending.store)

/-- Like results are how a run of no moves ends. -/
theorem Alike.run_bare (alike : Alike a b) (stopped : a.1.result? ≠ none) (fuel : Nat)
    (meter : Meter) :
    (run fuel meter a.1 a.2).map Ending.bare = (run fuel meter b.1 b.2).map Ending.bare := by
  obtain ⟨promise, s⟩ := a
  obtain ⟨promise', s'⟩ := b
  obtain ⟨same, rfl⟩ := alike
  cases promise with
  | next => exact absurd rfl stopped
  | error e =>
    cases promise' with
    | error =>
      obtain rfl := Promise.error.inj same
      rfl
    | done | next => cases same
  | done value trail =>
    cases promise' with
    | done value' trail' =>
      obtain ⟨rfl, _⟩ := Promise.done.inj same
      rw [run_of_result rfl, run_of_result rfl]
      rfl
    | error | next => cases same

/-- Runs side by side end alike under every limit, if their trails lead to the same after one
move. -/
theorem Beside.run_bare (meet : ∀ s, bounce (.retreat rest) s = bounce (.retreat rest') s)
    (beside : Beside rest rest' a b) (fuel : Nat) (meter : Meter) :
    (run fuel meter a.1 a.2).map Ending.bare = (run fuel meter b.1 b.2).map Ending.bare := by
  induction fuel generalizing a b meter with
  | zero =>
    obtain ⟨stopped, _⟩ | ⟨move, move', s, rfl, rfl, _⟩ := beside.step
    · exact beside.alike.run_bare stopped 0 meter
    · unfold run
      cases meter.spent? <;> rfl
  | succ fuel ih =>
    obtain ⟨stopped, _⟩ | ⟨move, move', s, rfl, rfl, _, onwards⟩ := beside.step
    · exact beside.alike.run_bare stopped (fuel + 1) meter
    · unfold run
      cases meter.spent? with
      | some limit => rfl
      | none =>
        rcases onwards with beside | ⟨back, back'⟩
        · exact ih beside meter.tick
        · simp only [back, back', meet]

/-! ### A run that goes back once more -/

/-- Within a number of moves the evaluation of a node begins, with a continuation and a trail. -/
def Reaches (node : Node) (env : Env) (k : Cont) (trail : Trail) (n : Nat) (a : Promise × Store) :
    Prop :=
  ∃ m ≤ n, ∃ t, Steps m a (eval node env k trail t)

theorem Reaches.succ {node : Node} {env : Env} (h : Reaches node env k trail n (bounce move s)) :
    Reaches node env k trail (n + 1) (.next move, s) := by
  obtain ⟨m, le, t, steps⟩ := h
  exact ⟨m + 1, Nat.succ_le_succ le, t, .move steps⟩

/-- What a run does not begin with it reaches after its first move. -/
theorem Reaches.later {node : Node} {env : Env} (h : Reaches node env k trail n a)
    (other : ∀ t, a ≠ eval node env k trail t) :
    ∃ m move s, n = m + 1 ∧ a = (.next move, s) ∧ Reaches node env k trail m (bounce move s) := by
  obtain ⟨m, le, t, steps⟩ := h
  generalize last : eval node env k trail t = b at steps
  cases steps with
  | refl => exact absurd last.symm (other t)
  | @move m move s _ more =>
    subst last
    exact ⟨n - 1, move, s, by omega, rfl, m, by omega, t, more⟩

/-- Runs side by side do not go back behind what their trails end with. -/
theorem Beside.ne_retreat (longer : rest.length < rest'.length) (beside : Beside rest rest' a b)
    (t : Store) : b ≠ (retreat rest, t) := by
  rintro same
  cases beside with
  | done => cases same
  | inside c k trail inner unplanned =>
    obtain ⟨promise, s⟩ := c
    cases promise with
    | error | done => cases same
    | next move =>
      cases move with
      | retreat own =>
        have lengths := congrArg List.length (Move.retreat.inj (Promise.next.inj
          (congrArg Prod.fst same)))
        simp only [trailOnto, List.length_append] at lengths
        omega
      | _ => cases same

/-- A move that is seen to be the same keeps one run a move behind the other. -/
theorem delivers_shift (same : move.bare = move'.bare)
    (next : ∀ values last, Delivers k n values (bounce move s) last ↔
      Delivers k (n + 1) values (bounce move' s) last) (values : List Value)
    (last : Promise × Store) :
    Delivers k (n + 1) values (.next move, s) last ↔
      Delivers k (n + 1 + 1) values (.next move', s) last := by
  rw [delivers_succ_iff, delivers_succ_iff]
  constructor
  · rintro ⟨first, more, now, joined, later⟩
    exact ⟨first, more, now.of_bare same, joined, (next more last).mp later⟩
  · rintro ⟨first, more, now, joined, later⟩
    exact ⟨first, more, now.of_bare same.symm, joined, (next more last).mpr later⟩

/-- Of runs side by side, one whose trail ends with an alternative that goes back takes one move
more from the moment that it gets there, and none before. -/
theorem Beside.late {place : Span} {env : Env}
    (beside : Beside rest (.retry (.back place) env k :: rest) a b) (n : Nat) :
    (Reaches (.back place) env k rest n b ∧
        ∀ values last, Delivers k n values a last ↔ Delivers k (n + 1) values b last) ∨
      (¬Reaches (.back place) env k rest n b ∧ Matched k n a b) := by
  have away : ∀ {a b}, Beside rest (.retry (.back place) env k :: rest) a b →
      ∀ t, b ≠ eval (.back place) env k rest t := by
    intro a b beside t
    rw [eval_back]
    exact beside.ne_retreat (Nat.lt_succ_self _) t
  induction n generalizing a b with
  | zero =>
    refine .inr ⟨fun reaches => ?_, .zero beside.alike⟩
    obtain ⟨m, _, _, now, _⟩ := reaches.later (away beside)
    cases now
  | succ n ih =>
    have reached := fun reaches => Reaches.later reaches (n := n + 1) (away beside)
    obtain ⟨stopped, stopped'⟩ | ⟨move, move', s, rfl, rfl, same, onwards⟩ := beside.step
    · refine .inr ⟨fun reaches => ?_, .of_result stopped stopped'⟩
      obtain ⟨_, _, _, _, rfl, _⟩ := reached reaches
      exact stopped' rfl
    · rcases onwards with beside | ⟨gone, gone'⟩
      · rcases ih beside with ⟨reaches, shift⟩ | ⟨never, matched⟩
        · exact .inl ⟨reaches.succ, delivers_shift same shift⟩
        · refine .inr ⟨fun reaches => never ?_, .succ same matched⟩
          obtain ⟨m, _, _, now, now', reaches⟩ := reached reaches
          cases now
          cases now'
          exact reaches
      · -- the second run begins with going back, and then stands where the first one is
        have begins : bounce move' s = eval (.back place) env k rest s := gone'
        refine .inl ⟨.succ ⟨0, Nat.zero_le n, s, ?_⟩, delivers_shift same fun values last => ?_⟩
        · rw [begins]
          exact .refl _
        · rw [begins, eval_back, delivers_retreat, gone]

/-! ### The laws -/

section

variable (first second third : Node) (env : Env) (k : Cont) (trail : Trail) (s : Store)
  (p q p' q' : Span × Span)

theorem groupings_beside : Beside (.retry second env k :: .retry third env k :: trail)
    (.retry (.choice q' second third) env k :: trail)
    (eval (.choice p (.choice q first second) third) env k trail s)
    (eval (.choice p' first (.choice q' second third)) env k trail s) := by
  rw [eval_choice, eval_choice, eval_choice]
  exact eval_beside first env k [] nofun s

/-- Going back leads to the second alternative, with the third one left to be tried. -/
theorem groupings_meet (t : Store) :
    bounce (.retreat (.retry second env k :: .retry third env k :: trail)) t =
      bounce (.retreat (.retry (.choice q' second third) env k :: trail)) t :=
  (eval_choice q' second third env k trail t).symm

/-- **Choices form a monoid.** The two groupings of three alternatives hand the same values to the
continuation and come to the same result with the same store, in the same number of moves; and so
they do with a continuation that does as it likes with the values, and with the going back that it
is given with each of them. An alternative that only goes back adds nothing: in front of another it
takes one move more, and behind it one move more from when the other has failed. -/
theorem choices_form_a_monoid (place : Span) :
    let left := eval (.choice p (.choice q first second) third) env k trail s
    let right := eval (.choice p' first (.choice q' second third)) env k trail s
    let alone := eval first env k trail s
    let inFront := eval (.choice p (.back place) first) env k trail s
    let behind := eval (.choice p first (.back place)) env k trail s
    (Lockstep k trail k trail left right ∧ ∀ n, Matched k n left right) ∧
      (∀ n values last,
        Delivers k n values alone last ↔ Delivers k (n + 1) values inFront last) ∧
      Lockstep k trail k (.retry (.back place) env k :: trail) alone behind ∧
      (∀ t, bounce (.retreat (.retry (.back place) env k :: trail)) t = (retreat trail, t)) ∧
      ∀ n,
        (Reaches (.back place) env k trail n behind ∧ ∀ values last,
          Delivers k n values alone last ↔ Delivers k (n + 1) values behind last) ∨
        (¬Reaches (.back place) env k trail n behind ∧ Matched k n alone behind) := by
  intro left right alone inFront behind
  have opened : behind = eval first env k (.retry (.back place) env k :: trail) s :=
    eval_choice p first (.back place) env k trail s
  refine ⟨⟨lockstep_groupings p q p' q' first second third env, ?_⟩, fun n values last => ?_, ?_,
    fun t => eval_back place env k trail t, ?_⟩
  · exact (groupings_beside first second third env k trail s p q p' q').matched
      (groupings_meet second third env k trail q')
  · have turned : inFront = (retreat (.retry first env k :: trail), s) := by
      rw [← eval_back place env k, ← eval_choice p]
    rw [turned, delivers_retreat]
    rfl
  · rw [opened]
    exact eval_lockstep first env s k trail k _
  · rw [opened]
    exact (eval_beside first env k [] nofun s).late

/-- Statements that group three alternatives in different ways end in the same way, with the same
session after them. -/
theorem evaluate_groupings (session : Session) (fuel : Nat) :
    session.evaluate fuel (.choice p (.choice q first second) third) =
      session.evaluate fuel (.choice p' first (.choice q' second third)) := by
  have alike := (groupings_beside first second third session.global [] [] session.store
    p q p' q').run_bare (groupings_meet second third session.global [] [] q') fuel
      (.start session.limit)
  have ends := congrArg (Option.map fun e : Except EvalError Value × Meter × Store =>
    (e.1, { session with store := e.2.2, steps := e.2.1.steps })) alike
  rw [Option.map_map, Option.map_map] at ends
  rw [evaluate_eq, evaluate_eq]
  exact ends

end

end Machine

end Retrace
