/-
Runs of the machine, move by move.

* `Steps n` — the states that are a number of moves apart.
* `run_eq_some` — a run with a result made its moves and stopped: at an error, at a
  value, or before a move that its meter does not allow.
* `run_of_moves` — moves that the meter allows are the first part of a run.
* `run_mono` — more fuel does not change a run.
* **`run_of_steps`** — moves to a result are a run, unless the meter stops it.

Design notes: fuel and meters do not occur in `Steps`, so what is proved of moves
holds of every run, with whatever fuel and limit it is made.
-/
import Retrace.Session

namespace Retrace.Machine

/-- States a number of moves apart. -/
inductive Steps : Nat → Promise × Store → Promise × Store → Prop
  | refl (state) : Steps 0 state state
  | move {n m s state} (rest : Steps n (bounce m s) state) : Steps (n + 1) (.next m, s) state

/-- What a promise that makes no more moves came to. -/
def Promise.result? : Promise → Option (Except EvalError (Value × Option Trail))
  | .error e => some (.error e)
  | .done value trail => some (.ok (value, trail))
  | .next _ => none

variable {a b c : Promise × Store} {m n : Nat}

theorem Steps.trans (first : Steps m a b) (second : Steps n b c) : Steps (m + n) a c := by
  induction first with
  | refl => rwa [Nat.zero_add]
  | @move k _ _ _ _ ih =>
    rw [Nat.add_right_comm]
    exact .move (ih second)

theorem Steps.single (move : Move) (s : Store) : Steps 1 (.next move, s) (bounce move s) :=
  .move (.refl _)

/-- The first of some moves end in a state too. -/
theorem Steps.truncate (steps : Steps n a c) (le : m ≤ n) : ∃ b, Steps m a b := by
  induction steps generalizing m with
  | refl =>
    obtain rfl : m = 0 := by omega
    exact ⟨_, .refl _⟩
  | move _ ih =>
    rcases m with _ | m
    · exact ⟨_, .refl _⟩
    · obtain ⟨b, hb⟩ := ih (by omega : m ≤ _)
      exact ⟨b, .move hb⟩

/-- No state is more moves away than one that makes no more moves. -/
theorem Steps.le_of_result (stop : Steps n a c) (done : c.1.result? ≠ none)
    (steps : Steps m a b) : m ≤ n := by
  induction stop generalizing m with
  | refl =>
    cases steps with
    | refl => exact Nat.le_refl 0
    | move => exact absurd rfl done
  | move _ ih =>
    cases steps with
    | refl => exact Nat.zero_le _
    | move rest => exact Nat.succ_le_succ (ih done rest)

/-- From one state the machine goes one way. -/
theorem Steps.unique (first : Steps n a b) (second : Steps n a c) : b = c := by
  induction first with
  | refl => cases second with | refl => rfl
  | move _ ih => cases second with | move rest => exact ih rest

/-- From one state the machine stops in one state only. -/
theorem Steps.stop_unique (first : Steps m a b) (stopped : b.1.result? ≠ none)
    (second : Steps n a c) (stopped' : c.1.result? ≠ none) : m = n ∧ b = c := by
  obtain rfl : m = n :=
    Nat.le_antisymm (second.le_of_result stopped' first) (first.le_of_result stopped second)
  exact ⟨rfl, first.unique second⟩

/-! ### Runs -/

variable {promise : Promise} {s : Store} {meter : Meter} {fuel : Nat}

/-- A run with a result made some moves, and stopped at a result or for want of moves. -/
theorem run_eq_some {ending : Ending} (h : run fuel meter promise s = some ending) :
    ∃ n last, n ≤ fuel ∧ Steps n (promise, s) (last, ending.store) ∧
      ending.meter = ⟨meter.limit, meter.steps + n⟩ ∧
      (last.result? = some ending.result ∨
        ∃ move limit, last = .next move ∧ meter.limit = some limit ∧
          ending.result = .error (.stepLimitExceeded limit)) := by
  -- a result stops the run at once, and every move costs one piece of the fuel
  induction fuel generalizing promise s meter with
  | zero =>
    unfold run at h
    cases promise with
    | error error =>
      obtain rfl := Option.some.inj h
      exact ⟨0, _, Nat.le_refl _, .refl _, rfl, .inl rfl⟩
    | done value trail =>
      obtain rfl := Option.some.inj h
      exact ⟨0, _, Nat.le_refl _, .refl _, rfl, .inl rfl⟩
    | next move =>
      simp only at h
      split at h
      · next limit spent =>
        obtain rfl := Option.some.inj h
        exact ⟨0, _, Nat.le_refl _, .refl _, rfl,
          .inr ⟨move, limit, rfl, (Option.filter_eq_some_iff.mp spent).1, rfl⟩⟩
      · exact absurd h (by simp)
  | succ fuel ih =>
    unfold run at h
    cases promise with
    | error error =>
      obtain rfl := Option.some.inj h
      exact ⟨0, _, Nat.zero_le _, .refl _, rfl, .inl rfl⟩
    | done value trail =>
      obtain rfl := Option.some.inj h
      exact ⟨0, _, Nat.zero_le _, .refl _, rfl, .inl rfl⟩
    | next move =>
      simp only at h
      split at h
      · next limit spent =>
        obtain rfl := Option.some.inj h
        exact ⟨0, _, Nat.zero_le _, .refl _, rfl,
          .inr ⟨move, limit, rfl, (Option.filter_eq_some_iff.mp spent).1, rfl⟩⟩
      · -- the meter allows the move, and counts it
        obtain ⟨n, last, le, steps, count, stop⟩ := ih h
        refine ⟨n + 1, last, by omega, .move steps, ?_, stop⟩
        rw [count, Meter.tick]
        simp only [Meter.mk.injEq, true_and]
        omega

/-- With that many moves left on the meter, a run goes on from where its first moves end. -/
theorem run_of_moves {last : Promise} {s' : Store} (steps : Steps n (promise, s) (last, s'))
    (allowed : ∀ limit, meter.limit = some limit → meter.steps + n ≤ limit) :
    run fuel meter promise s =
      if n ≤ fuel then run (fuel - n) ⟨meter.limit, meter.steps + n⟩ last s' else none := by
  induction n generalizing promise s meter fuel with
  | zero => cases steps with | refl => simp
  | succ n ih =>
    cases steps with
    | @move _ move _ _ rest =>
      have unspent : meter.spent? = none := by
        rw [Meter.spent?, Option.filter_eq_none_iff]
        intro limit limited
        have := allowed limit limited
        simp
        omega
      rcases fuel with _ | fuel
      · rw [run]
        simp only [unspent]
        simp
      · have step : run (fuel + 1) meter (.next move) s
            = run fuel meter.tick (bounce move s).1 (bounce move s).2 := by
          rw [run]
          simp only [unspent]
        have next : ∀ limit, meter.tick.limit = some limit → meter.tick.steps + n ≤ limit := by
          intro limit limited
          have := allowed limit limited
          simp only [Meter.tick]
          omega
        rw [step, @ih (bounce move s).1 (bounce move s).2 meter.tick fuel rest next]
        have shift : meter.steps + 1 + n = meter.steps + (n + 1) := by omega
        simp only [Meter.tick, shift, Nat.add_le_add_iff_right, Nat.add_sub_add_right]

/-- What has come of a run comes of it with more fuel too. -/
theorem run_mono {fuel' : Nat} {ending : Ending} (h : run fuel meter promise s = some ending)
    (le : fuel ≤ fuel') : run fuel' meter promise s = some ending := by
  induction fuel generalizing promise s meter fuel' with
  | zero =>
    unfold run at h ⊢
    cases promise with
    | error | done => exact h
    | next move =>
      simp only at h ⊢
      cases spent : meter.spent? with
      | some limit =>
        rw [spent] at h
        exact h
      | none =>
        rw [spent] at h
        cases h
  | succ fuel ih =>
    obtain ⟨fuel', rfl⟩ : ∃ k, fuel' = k + 1 := ⟨fuel' - 1, by omega⟩
    unfold run at h ⊢
    cases promise with
    | error | done => exact h
    | next move =>
      simp only at h ⊢
      cases spent : meter.spent? with
      | some limit =>
        rw [spent] at h
        exact h
      | none =>
        rw [spent] at h
        exact ih h (by omega)

/-- What has come to a result makes no moves. -/
theorem run_of_result {result : Except EvalError (Value × Option Trail)}
    (stop : promise.result? = some result) :
    run fuel meter promise s = some ⟨result, meter, s⟩ := by
  unfold run
  cases promise with
  | error error =>
    obtain rfl := Option.some.inj stop
    rfl
  | done value trail =>
    obtain rfl := Option.some.inj stop
    rfl
  | next move => exact absurd stop (by simp [Promise.result?])

/-- Moves to a result are a run with that result, unless the meter stops it before. -/
theorem run_of_steps {last : Promise} {s' : Store}
    {result : Except EvalError (Value × Option Trail)} (steps : Steps n (promise, s) (last, s'))
    (stop : last.result? = some result) (le : n ≤ fuel) :
    run fuel meter promise s = some ⟨result, ⟨meter.limit, meter.steps + n⟩, s'⟩ ∨
      ∃ ending limit, run fuel meter promise s = some ending ∧ meter.limit = some limit ∧
        ending.result = .error (.stepLimitExceeded limit) := by
  induction n generalizing promise s meter fuel with
  | zero =>
    cases steps with
    | refl => exact .inl (run_of_result stop)
  | succ n ih =>
    cases steps with
    | @move _ move _ _ rest =>
      obtain ⟨fuel, rfl⟩ : ∃ k, fuel = k + 1 := ⟨fuel - 1, by omega⟩
      cases spent : meter.spent? with
      | some limit =>
        -- the limit is reached before the result
        right
        refine ⟨⟨.error (.stepLimitExceeded limit), meter, s⟩, limit, ?_,
          (Option.filter_eq_some_iff.mp spent).1, rfl⟩
        rw [run]
        simp only [spent]
      | none =>
        have step : run (fuel + 1) meter (.next move) s
            = run fuel meter.tick (bounce move s).1 (bounce move s).2 := by
          rw [run]
          simp only [spent]
        have shift : meter.steps + 1 + n = meter.steps + (n + 1) := by omega
        rw [step]
        rcases @ih (bounce move s).1 (bounce move s).2 meter.tick fuel rest (by omega) with
          done | stopped
        · left
          rw [done, Meter.tick, shift]
        · right
          exact stopped

/-- Without a limit, moves to a result are a run with that result. -/
theorem run_of_steps_unlimited {last : Promise} {s' : Store}
    {result : Except EvalError (Value × Option Trail)} (steps : Steps n (promise, s) (last, s'))
    (stop : last.result? = some result) (le : n ≤ fuel) :
    run fuel (.start none) promise s = some ⟨result, ⟨none, n⟩, s'⟩ := by
  rcases @run_of_steps n promise s (.start none) fuel last s' result steps stop le with
    done | ⟨_, _, _, limited, _⟩
  · rw [done]
    simp [Meter.start]
  · exact absurd limited (by simp [Meter.start])

/-! ### Statements -/

/-- A statement is a run with nothing to do and nothing to try, in the global frame. -/
theorem evaluate_eq (session : Session) (fuel : Nat) (node : Node) :
    session.evaluate fuel node =
      (run fuel (.start session.limit) (eval node session.global [] [] session.store).1
        (eval node session.global [] [] session.store).2).map fun ending =>
          (ending.value, { session with store := ending.store, steps := ending.meter.steps }) := by
  obtain ⟨store, global, limit, steps⟩ := session
  unfold Session.evaluate
  simp only
  split <;> next h => rw [h]; rfl

end Retrace.Machine
