/-
The limit on moves cuts a run off exactly, and changes nothing before it.

* `Settles` — an attempt with fuel that has a result from some fuel on, and none before.
* `Meter.Reached` — the meters of a driver with a limit, over all that it ran.
* `run_allowed` — a run whose moves the meter allows ends as it does without a limit.
* `run_cut` — a run with a move more than the meter allows stops before that move.
* `Meter.Reached.spent?_eq` — a driver that looks at its counter instead of the number of
  moves finds the same.
* **`limit_cuts_exactly`** — a driver with a limit runs what fits in the moves it has
  left, and stops anything else after exactly that many moves; every statement of a
  session has the whole limit to itself.

Design notes: the limit is a limit on moves and not on fuel, so both runs are compared
for every fuel. The moves after which a limited run stops are those of `Steps`, which
knows no limit.
-/
import Retrace.Proofs.Machine.Runs

namespace Retrace.Machine

/-- An attempt that has its result from some fuel on, and none with less. -/
def Settles {α : Type} (attempt : Nat → Option α) (needed : Nat) (result : α) : Prop :=
  ∀ fuel, attempt fuel = if needed ≤ fuel then some result else none

theorem Settles.eq {α : Type} {attempt : Nat → Option α} {needed fuel : Nat}
    {result other : α} (settles : Settles attempt needed result)
    (found : attempt fuel = some other) : other = result := by
  rw [settles fuel] at found
  split at found
  · exact (Option.some.inj found).symm
  · exact absurd found (by simp)

theorem Settles.map {α β : Type} {attempt : Nat → Option α} {needed : Nat} {result : α}
    (settles : Settles attempt needed result) (f : α → β) :
    Settles (fun fuel => (attempt fuel).map f) needed (f result) := by
  intro fuel
  show (attempt fuel).map f = _
  rw [settles fuel]
  split <;> rfl

/-- The meters that a driver with a limit can have, whatever it has run so far. -/
inductive Meter.Reached (limit : Nat) : Meter → Prop
  | start : Reached limit (.start (some limit))
  | run {fuel meter promise s ending} (before : Reached limit meter)
      (ends : run fuel meter promise s = some ending) : Reached limit ending.meter

variable {promise last : Promise} {s s' : Store} {meter : Meter} {move : Move}
  {result : Except EvalError (Value × Option Trail)} {limit moves : Nat}

/-- A run whose moves the meter allows comes to its result, in that many moves. -/
theorem run_allowed (steps : Steps moves (promise, s) (last, s'))
    (stop : last.result? = some result)
    (allowed : ∀ limit, meter.limit = some limit → meter.steps + moves ≤ limit) :
    Settles (fun fuel => run fuel meter promise s) moves
      ⟨result, ⟨meter.limit, meter.steps + moves⟩, s'⟩ := by
  intro fuel
  show run fuel meter promise s = _
  rw [run_of_moves steps allowed, run_of_result stop]

/-- A run that has moves to make when the limit is reached stops there. -/
theorem run_cut (steps : Steps moves (promise, s) (.next move, s'))
    (limited : meter.limit = some limit) (reached : meter.steps + moves = limit) :
    Settles (fun fuel => run fuel meter promise s) moves
      ⟨.error (.stepLimitExceeded limit), ⟨some limit, limit⟩, s'⟩ := by
  intro fuel
  have allowed : ∀ other, meter.limit = some other → meter.steps + moves ≤ other := by
    intro other same
    obtain rfl := Option.some.inj (limited.symm.trans same)
    exact Nat.le_of_eq reached
  have spent : (Meter.mk (some limit) limit).spent? = some limit := by
    simp [Meter.spent?, Option.filter]
  have stops : ∀ left, run left ⟨some limit, limit⟩ (.next move) s'
      = some ⟨.error (.stepLimitExceeded limit), ⟨some limit, limit⟩, s'⟩ := by
    intro left
    unfold run
    simp only [spent]
  show run fuel meter promise s = _
  rw [run_of_moves steps allowed, limited, reached, stops]

/-- Within any number of moves there is a result, or there are as many moves. -/
theorem stops_or_moves (moves : Nat) (promise : Promise) (s : Store) :
    (∃ n last s' result, n ≤ moves ∧ Steps n (promise, s) (last, s') ∧
      last.result? = some result) ∨
      ∃ move s', Steps moves (promise, s) (.next move, s') := by
  induction moves generalizing promise s with
  | zero =>
    cases promise with
    | error error => exact .inl ⟨0, _, _, _, Nat.le_refl 0, .refl _, rfl⟩
    | done value trail => exact .inl ⟨0, _, _, _, Nat.le_refl 0, .refl _, rfl⟩
    | next move => exact .inr ⟨move, s, .refl _⟩
  | succ moves ih =>
    cases promise with
    | error error => exact .inl ⟨0, _, _, _, Nat.zero_le _, .refl _, rfl⟩
    | done value trail => exact .inl ⟨0, _, _, _, Nat.zero_le _, .refl _, rfl⟩
    | next move =>
      rcases ih (bounce move s).1 (bounce move s).2 with
        ⟨n, last, s', result, le, steps, stop⟩ | ⟨last, s', steps⟩
      · exact .inl ⟨n + 1, last, s', result, Nat.succ_le_succ le, .move steps, stop⟩
      · exact .inr ⟨last, s', .move steps⟩

/-- A driver keeps its limit, and its count does not pass it. -/
theorem Meter.Reached.within (reached : Meter.Reached limit meter) :
    meter.limit = some limit ∧ meter.steps ≤ limit := by
  induction reached with
  | start => exact ⟨rfl, Nat.zero_le limit⟩
  | @run fuel meter promise s ending _ ends ih =>
    obtain ⟨limited, le⟩ := ih
    rcases stops_or_moves (limit - meter.steps) promise s with
      ⟨moves, last, s', result, fits, steps, stop⟩ | ⟨move, s', steps⟩
    · have allowed : meter.steps + moves ≤ limit := by omega
      have settles : Settles (fun fuel => Machine.run fuel meter promise s) _ _ :=
        run_allowed steps stop fun other same => by
          obtain rfl := Option.some.inj (limited.symm.trans same)
          exact allowed
      rw [settles.eq ends]
      exact ⟨limited, allowed⟩
    · have settles := run_cut steps limited (by omega)
      rw [settles.eq ends]
      exact ⟨rfl, Nat.le_refl limit⟩

/-- The counter of a driver with a limit of 64 bits has not wrapped. -/
theorem Meter.Reached.toNat_count {limit : UInt64} (reached : Meter.Reached limit.toNat meter) :
    meter.count.toNat = meter.steps :=
  UInt64.toNat_ofNat_of_lt' (Nat.lt_of_le_of_lt reached.within.2 limit.toNat_lt_size)

/-- So a driver that looks at its counter finds the limit used up when the moves are. -/
theorem Meter.Reached.spent?_eq {limit : UInt64} (reached : Meter.Reached limit.toNat meter) :
    meter.spent? = if limit ≤ meter.count then some limit.toNat else none := by
  have same : limit ≤ meter.count ↔ limit.toNat ≤ meter.steps := by
    rw [UInt64.le_iff_toNat_le, reached.toNat_count]
  rw [Meter.spent?, reached.within.1]
  simp [Option.filter, same]

/-- What an unlimited run comes to is what its moves come to. -/
theorem steps_of_unlimited {fuel : Nat} {ending : Ending}
    (ends : run fuel (.start none) promise s = some ending) :
    ∃ last, Steps ending.meter.steps (promise, s) (last, ending.store) ∧
      last.result? = some ending.result := by
  obtain ⟨moves, last, _, steps, count, stop | ⟨_, _, _, limited, _⟩⟩ := run_eq_some ends
  · refine ⟨last, ?_, stop⟩
    rw [count]
    simpa [Meter.start] using steps
  · exact absurd limited (by simp [Meter.start])

/-- What an unlimited run comes to within a limit, a driver comes to. -/
theorem run_fits (limited : meter.limit = some limit) {fuel : Nat} {ending : Ending}
    (ends : run fuel (.start none) promise s = some ending)
    (fits : meter.steps + ending.meter.steps ≤ limit) :
    Settles (fun fuel => run fuel meter promise s) ending.meter.steps
      { ending with meter := ⟨some limit, meter.steps + ending.meter.steps⟩ } := by
  obtain ⟨last, steps, stop⟩ := steps_of_unlimited ends
  have settles : Settles (fun fuel => run fuel meter promise s) _ _ :=
    run_allowed steps stop fun other same => by
      obtain rfl := Option.some.inj (limited.symm.trans same)
      exact fits
  rwa [limited] at settles

/-- What does not come to an end within a limit, a driver stops when the limit is reached. -/
theorem run_exceeds (limited : meter.limit = some limit) (le : meter.steps ≤ limit)
    (exceeds : ∀ fuel ending, run fuel (.start none) promise s = some ending →
      limit < meter.steps + ending.meter.steps) :
    ∃ move s', Steps (limit - meter.steps) (promise, s) (.next move, s') ∧
      Settles (fun fuel => run fuel meter promise s) (limit - meter.steps)
        ⟨.error (.stepLimitExceeded limit), ⟨some limit, limit⟩, s'⟩ := by
  rcases stops_or_moves (limit - meter.steps) promise s with
    ⟨moves, last, s', result, fits, steps, stop⟩ | ⟨move, s', steps⟩
  · have ends := run_of_steps_unlimited steps stop (Nat.le_refl moves)
    have long := exceeds moves _ ends
    simp only at long
    omega
  · exact ⟨move, s', steps, run_cut steps limited (by omega)⟩

/-! ### The limit of a driver and of a session -/

/-- **The limit cuts a run off exactly and changes nothing before it.** Take a driver with a
limit, whatever it ran before. A promise that comes to an end without a limit, in moves that the
driver has left, comes to the same end with it, and its moves are counted. Anything else is
stopped when the limit is reached, with the store of the unlimited machine at that point. And a
statement of a session with a limit has the whole limit, whatever the statements before it
used. -/
theorem limit_cuts_exactly (limit : Nat) :
    (∀ meter, Meter.Reached limit meter → meter.limit = some limit ∧ meter.steps ≤ limit ∧
      ∀ promise s,
        (∀ fuel ending, run fuel (.start none) promise s = some ending →
          meter.steps + ending.meter.steps ≤ limit →
          Settles (fun fuel => run fuel meter promise s) ending.meter.steps
            { ending with meter := ⟨some limit, meter.steps + ending.meter.steps⟩ }) ∧
        ((∀ fuel ending, run fuel (.start none) promise s = some ending →
            limit < meter.steps + ending.meter.steps) →
          ∃ move s', Steps (limit - meter.steps) (promise, s) (.next move, s') ∧
            Settles (fun fuel => run fuel meter promise s) (limit - meter.steps)
              ⟨.error (.stepLimitExceeded limit), ⟨some limit, limit⟩, s'⟩)) ∧
    ∀ (session : Session) (node : Node), session.limit = some limit →
      (∀ fuel result after,
        { session with limit := none }.evaluate fuel node = some (result, after) →
        after.steps ≤ limit →
        Settles (fun fuel => session.evaluate fuel node) after.steps
          (result, { after with limit := some limit })) ∧
      ((∀ fuel result after,
          { session with limit := none }.evaluate fuel node = some (result, after) →
          limit < after.steps) →
        ∃ move s', Steps limit (eval node session.global [] [] session.store) (.next move, s') ∧
          Settles (fun fuel => session.evaluate fuel node) limit
            (.error (.stepLimitExceeded limit),
              { session with store := s', steps := limit })) := by
  constructor
  · intro meter reached
    obtain ⟨limited, le⟩ := reached.within
    exact ⟨limited, le, fun promise s =>
      ⟨fun fuel ending ends fits => run_fits limited ends fits,
        fun exceeds => run_exceeds limited le exceeds⟩⟩
  · intro session node limited
    -- a statement starts with a meter of its own
    have statement : (fun fuel => session.evaluate fuel node) = fun fuel =>
        (run fuel (.start (some limit)) (eval node session.global [] [] session.store).1
          (eval node session.global [] [] session.store).2).map fun ending =>
            (ending.value,
              { session with store := ending.store, steps := ending.meter.steps }) := by
      funext fuel
      rw [evaluate_eq, limited]
    rw [statement]
    constructor
    · intro fuel result after evaluated fits
      rw [evaluate_eq, Option.map_eq_some_iff] at evaluated
      obtain ⟨ending, ends, same⟩ := evaluated
      obtain ⟨rfl, rfl⟩ := Prod.mk.inj same
      have here : (Meter.start (some limit)).steps + ending.meter.steps ≤ limit := by
        simpa [Meter.start] using fits
      have settles := (run_fits rfl ends here).map fun ending =>
        (ending.value, { session with store := ending.store, steps := ending.meter.steps })
      simpa [Meter.start, limited, Ending.value] using settles
    · intro exceeds
      have long : ∀ fuel ending,
          run fuel (.start none) (eval node session.global [] [] session.store).1
            (eval node session.global [] [] session.store).2 = some ending →
          limit < (Meter.start (some limit)).steps + ending.meter.steps := by
        intro fuel ending ends
        have long := exceeds fuel _ _ (by rw [evaluate_eq, ends]; rfl)
        simpa [Meter.start] using long
      obtain ⟨move, s', steps, settles⟩ := run_exceeds rfl (Nat.zero_le limit) long
      exact ⟨move, s', steps, settles.map _⟩

/-- A plan that makes some empty moves before it is done. -/
def countdown (moves : Nat) : Promise :=
  follow (.suspended moves (.done (.int 0)))

/-- A driver with three moves of which one is used up runs a countdown from two and stops one
from three; a session with one move for each statement evaluates a number after a number. -/
theorem limit_cuts_countdowns :
    let numbered : Session := { Session.start (some 1) with steps := 1 }
    Meter.Reached 3 ⟨some 3, 1⟩ ∧
      Settles (fun fuel => run fuel ⟨some 3, 1⟩ (countdown 2) .empty) 2
        ⟨.ok (.int 0, none), ⟨some 3, 3⟩, .empty⟩ ∧
      Settles (fun fuel => run fuel ⟨some 3, 1⟩ (countdown 3) .empty) 2
        ⟨.error (.stepLimitExceeded 3), ⟨some 3, 3⟩, .empty⟩ ∧
      Settles (fun fuel => numbered.evaluate fuel (.atom (.int 5) default)) 1
        (.ok (.int 5), numbered) := by
  intro numbered
  have ends : run 1 (.start (some 3)) (countdown 1) .empty
      = some ⟨.ok (.int 0, none), ⟨some 3, 1⟩, .empty⟩ := rfl
  have reached : Meter.Reached 3 ⟨some 3, 1⟩ := .run .start ends
  obtain ⟨-, -, runs⟩ := (limit_cuts_exactly 3).1 ⟨some 3, 1⟩ reached
  refine ⟨reached, ?_, ?_, ?_⟩
  · exact (runs (countdown 2) .empty).1 2 ⟨.ok (.int 0, none), ⟨none, 2⟩, .empty⟩ rfl
      (by decide)
  · -- three moves are more than are left, and the state after two has one to make
    have long : Steps 3 (countdown 3, .empty) (.done (.int 0) none, .empty) :=
      .move (.move (.move (.refl _)))
    have endless : ∀ limit, (Meter.start none).limit = some limit →
        (Meter.start none).steps + 3 ≤ limit := fun _ => nofun
    have tooLong : ∀ fuel ending, run fuel (.start none) (countdown 3) .empty = some ending →
        3 < 1 + ending.meter.steps := by
      intro fuel ending ends
      rw [(run_allowed long rfl endless).eq ends]
      decide
    obtain ⟨move, s', steps, settles⟩ := (runs (countdown 3) .empty).2 tooLong
    have two : Steps 2 (countdown 3, .empty)
        (.next (.follow (.suspended 0 (.done (.int 0)))), .empty) :=
      .move (.move (.refl _))
    obtain ⟨-, rfl⟩ := Prod.mk.inj (steps.unique two)
    exact settles
  · exact ((limit_cuts_exactly 1).2 numbered (.atom (.int 5) default) rfl).1 1 _ _ rfl
      (Nat.le_refl 1)

end Retrace.Machine
