/-
Evaluation is depth-first search from left to right.

* `enumerate` — what the machine finds when it is sent back from each result to the
  choice before it.
* `take_of_enumerate`, `enumerate_of_take` — the machine finds the answers of a node,
  and no others.
* **`evaluation_finds_answers_in_order`** — both together, for any number of results
  and with their stores, and for sessions: a statement comes to the first answer of its
  node, unless the limit on moves is exceeded before.

Design notes: a statement whose search never ends has no further result, and at no
depth a further answer, so the two sides also diverge together.
-/
import Retrace.Proofs.Machine.DepthFirst

namespace Retrace

open Answers Meaning

namespace Machine

variable {n depth fuel count : Nat} {c : Promise × Store} {t : Answers Value} {base : Store}

/-- The first results of an evaluation with their stores, and how it ended if it ended before it
had as many. From each result but the last the machine goes back along the trail that came with
it. Each result takes fuel of its own. -/
def enumerate (fuel : Nat) : (count : Nat) → Promise × Store →
    Option (List (Value × Store) × Option (EvalError × Store))
  | 0, _ => some ([], none)
  | count + 1, (promise, s) =>
    match run fuel (.start none) promise s with
    | none => none
    | some ending =>
      match ending.result with
      | .error e => some ([], some (e, ending.store))
      | .ok (value, trail) =>
        (enumerate fuel count (retreat (trail.getD []), ending.store)).map
          fun (results, ended) => ((value, ending.store) :: results, ended)

/-- Where the machine stops first, if the answers that it agrees with are known. -/
theorem Agrees.stop (agrees : Agrees [] [] base [] n t c) :
    match t with
    | .unknown => ∃ c', Steps n c c'
    | .failed e w => ∃ m, Steps m c (.error e, w.store)
    | .exhausted b => ∃ m, Steps m c (.error .noMoreAlternatives, b)
    | .found answer w next => ∃ m trail, Steps m c (.done answer (some trail), w.store) ∧
        Agrees [] [] base [] (n - m) (next w.base) (retreat trail, w.store) := by
  cases t with
  | unknown => exact agrees
  | failed => exact agrees
  | exhausted b =>
    obtain ⟨_, m, steps⟩ := agrees
    exact ⟨m + 1, steps.trans (.single (.retreat []) b)⟩
  | found answer w next =>
    obtain ⟨_, _, m, trail, steps, rest⟩ := agrees
    refine ⟨m + 1, trail, steps.trans (.single (.deliver answer [] trail) w.store), ?_⟩
    exact (rest w.base (Store.le_refl _)).of_le (by omega)

/-- The answers are found, given enough fuel. -/
theorem enumerate_of_take {results : List (Value × Store) × Option (EvalError × Store)}
    (agrees : Agrees [] [] base [] n t c) (h : t.take count = some results) :
    ∃ enough, ∀ fuel, enough ≤ fuel → enumerate fuel count c = some results := by
  induction count generalizing n t c results with
  | zero => exact ⟨0, fun _ _ => h⟩
  | succ count ih =>
    have stop := agrees.stop
    cases t with
    | unknown => exact absurd h (by simp [take])
    | failed e w =>
      obtain ⟨m, steps⟩ := stop
      refine ⟨m, fun fuel le => ?_⟩
      rw [enumerate, run_of_steps_unlimited steps rfl le]
      exact h
    | exhausted b =>
      obtain ⟨m, steps⟩ := stop
      refine ⟨m, fun fuel le => ?_⟩
      rw [enumerate, run_of_steps_unlimited steps rfl le]
      exact h
    | found answer w next =>
      obtain ⟨m, trail, steps, rest⟩ := stop
      obtain ⟨others, hothers, rfl⟩ := Option.map_eq_some_iff.mp h
      -- the first answer and those after it may take different amounts of fuel
      obtain ⟨enough, hfuel⟩ := ih rest hothers
      refine ⟨max m enough, fun fuel le => ?_⟩
      rw [enumerate, run_of_steps_unlimited steps rfl (by omega)]
      simp only [Option.getD_some]
      rw [hfuel fuel (by omega)]
      rfl

/-- What a run without a limit comes to, the machine stops with. -/
theorem steps_of_run {ending : Ending} (h : run fuel (.start none) c.1 c.2 = some ending) :
    ∃ m last, m ≤ fuel ∧ Steps m c (last, ending.store) ∧ last.result? = some ending.result := by
  obtain ⟨m, last, le, steps, _, stopped | ⟨_, _, _, limited, _⟩⟩ := run_eq_some h
  · exact ⟨m, last, le, steps, stopped⟩
  · exact absurd limited (by simp [Meter.start])

/-- The machine finds nothing that is not among the answers at a sufficient depth. -/
theorem take_of_enumerate {results : List (Value × Store) × Option (EvalError × Store)}
    (agrees : Agrees [] [] base [] n t c) (deep : (fuel + 1) * count ≤ n)
    (h : enumerate fuel count c = some results) : t.take count = some results := by
  induction count generalizing n t c results with
  | zero => exact h
  | succ count ih =>
    rw [Nat.mul_succ] at deep
    obtain ⟨promise, s⟩ := c
    rw [enumerate] at h
    cases hrun : run fuel (.start none) promise s with
    | none =>
      rw [hrun] at h
      exact absurd h (by simp)
    | some ending =>
      rw [hrun] at h
      obtain ⟨m, last, le, steps, stopped⟩ := @steps_of_run fuel (promise, s) ending hrun
      have stops : last.result? ≠ none := by simp [stopped]
      have stop := agrees.stop
      cases t with
      | unknown =>
        -- the machine makes more moves than the fuel allows
        obtain ⟨_, more⟩ := stop
        have := steps.le_of_result stops more
        omega
      | failed e w =>
        obtain ⟨_, steps'⟩ := stop
        obtain ⟨_, same⟩ := steps.stop_unique stops steps' (by simp [Promise.result?])
        obtain ⟨rfl, hstore⟩ := Prod.mk.inj same
        obtain hresult := (Option.some.inj stopped).symm
        simp only [hresult, hstore] at h
        exact h
      | exhausted b =>
        obtain ⟨_, steps'⟩ := stop
        obtain ⟨_, same⟩ := steps.stop_unique stops steps' (by simp [Promise.result?])
        obtain ⟨rfl, hstore⟩ := Prod.mk.inj same
        obtain hresult := (Option.some.inj stopped).symm
        simp only [hresult, hstore] at h
        exact h
      | found answer w next =>
        obtain ⟨m', trail, steps', rest⟩ := stop
        obtain ⟨rfl, same⟩ := steps.stop_unique stops steps' (by simp [Promise.result?])
        obtain ⟨rfl, hstore⟩ := Prod.mk.inj same
        obtain hresult := (Option.some.inj stopped).symm
        simp only [hresult, hstore, Option.getD_some] at h
        obtain ⟨others, hothers, rfl⟩ := Option.map_eq_some_iff.mp h
        rw [take, ih rest (by omega) hothers]
        rfl

/-- The results that the machine finds, each on going back from the one before, are the answers
of the node. -/
theorem enumerate_iff_take (env : Env) (node : Node) (s : Store) (count : Nat)
    (results : List (Value × Store) × Option (EvalError × Store)) :
    (∃ fuel, enumerate fuel count (eval node env [] [] s) = some results) ↔
      ∃ depth, (solve depth env node s).take count = some results := by
  constructor
  · rintro ⟨fuel, h⟩
    exact ⟨(fuel + 1) * count, take_of_enumerate (agrees_solve _ env node s) (Nat.le_refl _) h⟩
  · rintro ⟨depth, h⟩
    obtain ⟨enough, hfuel⟩ := enumerate_of_take (agrees_solve depth env node s) h
    exact ⟨enough, hfuel enough (Nat.le_refl _)⟩

/-- The answers do not depend on the depth at which they are known. -/
theorem take_unique {depth' : Nat} {env : Env} {node : Node} {s : Store}
    {results results' : List (Value × Store) × Option (EvalError × Store)}
    (h : (solve depth env node s).take count = some results)
    (h' : (solve depth' env node s).take count = some results') : results = results' := by
  -- the machine finds both, and it finds one thing only
  obtain ⟨enough, hfuel⟩ := enumerate_of_take (agrees_solve depth env node s) h
  obtain ⟨enough', hfuel'⟩ := enumerate_of_take (agrees_solve depth' env node s) h'
  have both := (hfuel (max enough enough') (by omega)).symm.trans
    (hfuel' (max enough enough') (by omega))
  exact Option.some.inj both

/-! ### Statements of a session -/

/-- A result with its store, as all that there is to find. -/
def sole (result : Except EvalError Value) (s : Store) :
    List (Value × Store) × Option (EvalError × Store) :=
  match result with
  | .ok value => ([(value, s)], none)
  | .error e => ([], some (e, s))

theorem sole_inj {result result' : Except EvalError Value} {s s' : Store}
    (h : sole result s = sole result' s') : result = result' ∧ s = s' := by
  cases result <;> cases result' <;> simp_all [sole]

/-- What a run comes to is what the machine finds first. -/
theorem enumerate_one {ending : Ending} (h : run fuel (.start none) c.1 c.2 = some ending) :
    enumerate fuel 1 c = some (sole ending.value ending.store) := by
  obtain ⟨promise, s⟩ := c
  rw [enumerate, h]
  obtain ⟨result, meter, store⟩ := ending
  cases result <;> rfl

theorem run_of_enumerate {results : List (Value × Store) × Option (EvalError × Store)}
    (h : enumerate fuel 1 c = some results) :
    ∃ ending, run fuel (.start none) c.1 c.2 = some ending := by
  obtain ⟨promise, s⟩ := c
  rw [enumerate] at h
  cases hrun : run fuel (.start none) promise s with
  | none =>
    rw [hrun] at h
    exact absurd h (by simp)
  | some ending => exact ⟨ending, rfl⟩

/-- **Evaluation is depth-first search from left to right.** Sent back from each result to the
choice before it, the machine finds the answers of the node in order, each with its store, and
ends as they end; and a statement of a session comes to the first of them, unless the limit on
moves is exceeded before. -/
theorem evaluation_finds_answers_in_order (session : Session) (node : Node) :
    (∀ env s count results,
      (∃ fuel, enumerate fuel count (eval node env [] [] s) = some results) ↔
        ∃ depth, (solve depth env node s).take count = some results) ∧
    (∀ fuel result session', session.evaluate fuel node = some (result, session') →
      (∃ depth, (solve depth session.global node session.store).take 1
        = some (sole result session'.store)) ∨
      ∃ limit, session.limit = some limit ∧ result = .error (.stepLimitExceeded limit)) ∧
    (∀ depth result s,
      (solve depth session.global node session.store).take 1 = some (sole result s) →
      ∃ fuel result' session', session.evaluate fuel node = some (result', session') ∧
        (result' = result ∧ session'.store = s ∨
          ∃ limit, session.limit = some limit ∧ result' = .error (.stepLimitExceeded limit))) := by
  refine ⟨fun env s count results => enumerate_iff_take env node s count results, ?_, ?_⟩
  · intro fuel result session' h
    rw [evaluate_eq, Option.map_eq_some_iff] at h
    obtain ⟨ending, hrun, same⟩ := h
    obtain ⟨rfl, rfl⟩ := Prod.mk.inj same
    obtain ⟨m, last, _, steps, _, stopped | ⟨_, limit, _, limited, exceeded⟩⟩ :=
      run_eq_some hrun
    · -- a run that the limit did not stop is one without a limit
      left
      have alone := enumerate_one (run_of_steps_unlimited steps stopped (Nat.le_refl m))
      exact (enumerate_iff_take _ node _ 1 _).mp ⟨m, alone⟩
    · right
      exact ⟨limit, limited, by rw [Ending.value, exceeded]; rfl⟩
  · intro depth result s h
    obtain ⟨fuel, hfound⟩ := (enumerate_iff_take _ node _ 1 _).mpr ⟨depth, h⟩
    obtain ⟨ending, hrun⟩ := run_of_enumerate hfound
    obtain ⟨m, last, le, steps, stopped⟩ := steps_of_run hrun
    have first := (enumerate_one hrun).symm.trans hfound
    obtain ⟨rfl, rfl⟩ := sole_inj (Option.some.inj first)
    -- the same moves are a run of the session, as far as its limit allows
    rcases @run_of_steps m _ _ (.start session.limit) fuel last _ _ steps stopped le with
      done | ⟨exceeding, limit, done, limited, exceeded⟩
    · refine ⟨fuel, _, _, by rw [evaluate_eq, done]; rfl, .inl ⟨rfl, rfl⟩⟩
    · refine ⟨fuel, _, _, by rw [evaluate_eq, done]; rfl, .inr ⟨limit, limited, ?_⟩⟩
      rw [Ending.value, exceeded]
      rfl

/-- The choice between one and two, as a tree. -/
def oneOrTwo : Node :=
  .apply (.symbol "then" default) [.atom (.int 1) default, .atom (.int 2) default] default

/-- A choice between two numbers has each of them as an answer, and a session comes to the
first. -/
theorem answers_of_oneOrTwo :
    let session := Session.start none
    (∃ depth, (solve depth session.global oneOrTwo session.store).take 3
      = some ([(.int 1, session.store), (.int 2, session.store)],
          some (.noMoreAlternatives, session.store))) ∧
    (∃ fuel result session', session.evaluate fuel oneOrTwo = some (result, session') ∧
      result = .ok (.int 1)) := by
  intro session
  have all := evaluation_finds_answers_in_order session oneOrTwo
  refine ⟨(all.1 session.global session.store 3 _).mp ⟨2, rfl⟩, ?_⟩
  obtain ⟨fuel, result, session', evaluated, ⟨same, _⟩ | ⟨limit, limited, _⟩⟩ :=
    all.2.2 0 (.ok (.int 1)) session.store rfl
  · exact ⟨fuel, result, session', evaluated, same⟩
  · exact absurd limited (by simp [session, Session.start])

end Machine

end Retrace
