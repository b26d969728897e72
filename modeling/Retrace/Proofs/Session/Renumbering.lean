/-
The numbers of frames are not seen by programs.

* `Session.startAmong` — a session whose tree has more frames than the global one when it
  begins.
* `renumbering` — the frames that a program makes have numbers that are larger by as many.
* `ProgramLog`, `Session.logs` — what comes of programs that are run one after the other,
  statement by statement.
* **`frame_numbers_are_not_seen`** — the statements of programs come to the same in both
  sessions, after as many moves and with as many new frames, and frames that were made in the
  same order bind the same names.

Design notes: the other frames may be made before the global frame or after it, inside any
environment of the tree and with any bindings. No program finds them, because no function is
made in them. The frames of the two sessions that belong together are those that were made
one after the other by the same programs, and the number of the one gives that of the other.
-/
import Mathlib.Data.List.Forall2
import Retrace.Proofs.Machine.Relabelling

namespace Retrace

/-! ### Further frames -/

namespace Store

/-- Makes frames in the tree of a root, each inside an environment with a number. -/
def extendEach (s : Store) (root : Env) : List (Nat × Bindings) → Store
  | [] => s
  | (number, bindings) :: more => (s.extend ⟨root.tree, number⟩ bindings).2.extendEach root more

variable {s : Store} {root env : Env}

theorem closures_extendEach (more : List (Nat × Bindings)) :
    (s.extendEach root more).closures = s.closures := by
  induction more generalizing s with
  | nil => rfl
  | cons _ more ih => exact ih

theorem trees_size_extendEach (more : List (Nat × Bindings)) :
    (s.extendEach root more).trees.size = s.trees.size := by
  induction more generalizing s with
  | nil => rfl
  | cons _ more ih => rw [extendEach, ih, trees_size_extend]

theorem le_extendEach (more : List (Nat × Bindings)) : s ≤ s.extendEach root more := by
  induction more generalizing s with
  | nil => exact le_refl s
  | cons _ more ih => exact le_trans (le_extend _) ih

/-- Each frame is counted in its tree. -/
theorem created_extendEach (more : List (Nat × Bindings)) :
    (s.extendEach root more).created env =
      if env.tree = root.tree ∧ root.tree < s.trees.size then s.created env + more.length
      else s.created env := by
  induction more generalizing s with
  | nil => simp [extendEach]
  | cons _ more ih =>
    rw [extendEach, ih, created_extend, trees_size_extend, List.length_cons]
    split
    · omega
    · rfl

/-- There is no frame with a number that was not given. -/
theorem frame?_eq_none (h : env.number = 0 ∨ s.created env < env.number) : s.frame? env = none := by
  unfold frame?
  split
  · rfl
  · next n number =>
    refine Array.getElem?_eq_none ?_
    rw [number] at h
    have large : s.created env < n + 1 := h.resolve_left (Nat.succ_ne_zero n)
    exact Nat.le_of_lt_succ large

end Store

/-- The number of a frame in a tree with more frames before and after the first one. -/
def renumber (before after : Nat) : Nat → Nat
  | 0 => 0
  | 1 => before + 1
  | n + 2 => n + 2 + (before + after)

theorem renumber_injective {before after m n : Nat}
    (same : renumber before after m = renumber before after n) : m = n := by
  rcases m with _ | _ | m <;> rcases n with _ | _ | n <;> simp only [renumber] at same <;> omega

/-- The frames of the first tree have other numbers, and every place is kept. -/
def renumbering (before after : Nat) : Relabelling where
  place := id
  env e := if e.tree = 0 then ⟨0, renumber before after e.number⟩ else e
  tree e := by
    split
    · next first => exact first.symm
    · rfl
  injective {e e'} same := by
    obtain ⟨tree, number⟩ := e
    obtain ⟨tree', number'⟩ := e'
    simp only at same
    split at same <;> split at same
    · next first first' =>
      subst first first'
      rw [renumber_injective (Env.mk.inj same).2]
    · next other => exact absurd (Env.mk.inj same).1.symm other
    · next other _ => exact absurd (Env.mk.inj same).1 other
    · exact same

theorem renumbering_env_other {before after : Nat} {env : Env} (other : env.tree ≠ 0) :
    (renumbering before after).env env = env :=
  if_neg other

namespace Session

/-- A session whose tree has frames that were made before the global frame and after it. -/
def startAmong (limit : Option Nat) (before after : List (Nat × Bindings)) : Session :=
  let (root, store) := Store.empty.addRoot
  let (global, store) := (store.extendEach root before).extend root Primitive.bindings
  ⟨store.extendEach root after, global, limit, 0⟩

/-- With no other frames this is a session before its first statement. -/
theorem startAmong_nil (limit : Option Nat) : startAmong limit [] [] = start limit :=
  rfl

variable {limit : Option Nat} {before after : List (Nat × Bindings)}

/-- The frames of a session when it begins, in the order in which they were made. -/
theorem store_startAmong :
    (startAmong limit before after).store =
      ((Store.empty.addRoot.2.extendEach ⟨0, 0⟩ before).extend ⟨0, 0⟩
        Primitive.bindings).2.extendEach ⟨0, 0⟩ after :=
  rfl

theorem closures_startAmong : (startAmong limit before after).store.closures = 0 := by
  rw [store_startAmong, Store.closures_extendEach, Store.closures_extend,
    Store.closures_extendEach]
  rfl

theorem trees_size_startAmong : (startAmong limit before after).store.trees.size = 1 := by
  rw [store_startAmong, Store.trees_size_extendEach, Store.trees_size_extend,
    Store.trees_size_extendEach]
  rfl

theorem created_startAmong (env : Env) :
    (startAmong limit before after).store.created env =
      if env.tree = 0 then before.length + 1 + after.length else 0 := by
  have none_made : Store.empty.addRoot.2.created env = 0 := by simp
  have one : Store.empty.addRoot.2.trees.size = 1 := rfl
  rw [store_startAmong, Store.created_extendEach, Store.created_extend, Store.created_extendEach,
    Store.trees_size_extend, Store.trees_size_extendEach, none_made, one]
  by_cases first : env.tree = 0 <;> simp [first]

theorem global_startAmong : (startAmong limit before after).global = ⟨0, before.length + 1⟩ := by
  have none_made : Store.empty.addRoot.2.created ⟨0, 0⟩ = 0 := rfl
  show (⟨0, (Store.empty.addRoot.2.extendEach ⟨0, 0⟩ before).created ⟨0, 0⟩ + 1⟩ : Env) = _
  rw [Store.created_extendEach, if_pos (by decide), none_made, Nat.zero_add]

/-- The global frame is inside the root, whatever other frames there are. -/
theorem frame?_startAmong :
    (startAmong limit before after).store.frame? ⟨0, before.length + 1⟩ =
      some (Store.newFrame ⟨0, 0⟩ Primitive.bindings) := by
  rw [store_startAmong, ← @global_startAmong limit before after]
  refine Store.le_extendEach after _ _ ?_
  have here : 0 < (Store.empty.addRoot.2.extendEach ⟨0, 0⟩ before).trees.size := by
    rw [Store.trees_size_extendEach]
    decide
  rw [Store.frame?_extend, if_pos ⟨rfl, here⟩]

/-- **The sessions belong together when they begin.** -/
theorem startAmong_relates :
    (renumbering before.length after.length).Relates (start limit).store
      (startAmong limit before after).store := by
  have few := fun env => @created_startAmong limit [] [] env
  have many := fun env => @created_startAmong limit before after env
  rw [← startAmong_nil]
  constructor
  case closures => exact closures_startAmong.trans closures_startAmong.symm
  case trees => exact trees_size_startAmong.trans trees_size_startAmong.symm
  case frame? =>
    rintro ⟨tree, number⟩
    by_cases first : tree = 0
    · subst first
      rcases number with _ | _ | n
      -- the root, the global frame, and frames that are not made yet
      · rfl
      · have global := @frame?_startAmong limit [] []
        rw [show (startAmong limit [] []).store.frame? ⟨0, 0 + 1⟩ = some _ from global]
        exact frame?_startAmong
      · have absent : (startAmong limit [] []).store.frame? ⟨0, n + 2⟩ = none := by
          refine Store.frame?_eq_none (.inr ?_)
          rw [few]
          exact Nat.succ_lt_succ (Nat.succ_pos n)
        have absent' : (startAmong limit before after).store.frame?
            ⟨0, n + 2 + (before.length + after.length)⟩ = none := by
          refine Store.frame?_eq_none (.inr ?_)
          rw [many, if_pos rfl]
          show _ < n + 2 + (before.length + after.length)
          omega
        rw [absent]
        exact absent'
    · -- another tree has no frames
      have absent : (startAmong limit [] []).store.frame? ⟨tree, number⟩ = none := by
        refine Store.frame?_eq_none ?_
        rw [few, if_neg first]
        exact Nat.eq_zero_or_pos number
      have absent' : (startAmong limit before after).store.frame? ⟨tree, number⟩ = none := by
        refine Store.frame?_eq_none ?_
        rw [many, if_neg first]
        exact Nat.eq_zero_or_pos number
      rw [absent, renumbering_env_other first]
      exact absent'
  case next =>
    intro tree n
    rw [few, many]
    by_cases first : tree = 0
    · subst first
      simp only [renumbering, if_true, List.length_nil, Env.mk.injEq, true_and]
      rw [show 0 + 1 + 0 + 1 + n = n + 2 by omega, renumber]
      omega
    · rw [if_neg first, if_neg first, renumbering_env_other first]

/-! ### Programs, statement by statement -/

variable {session session' : Session} {fuel : Nat} {last : Value} {r : Reader} {bound : Nat}

/-- What comes of at most `bound` statements up to the first error, each with the session after
it. -/
def statementsWithin (fuel : Nat) (session : Session) (reader : Reader) :
    (bound : Nat) → List (Except EvalError Value × Session)
  | 0 => []
  | bound + 1 =>
    match reader.read with
    | (.ok (some node), reader) =>
      match session.evaluate fuel node with
      | none => []
      | some (.error error, session) => [(.error error, session)]
      | some (.ok value, session) =>
        (.ok value, session) :: statementsWithin fuel session reader bound
    | (.ok none, _) | (.error _, _) => []

/-- What comes of the statements of a program up to the first error. -/
def statements (session : Session) (fuel : Nat) (text : String) :
    List (Except EvalError Value × Session) :=
  let reader := Reader.plain text
  statementsWithin fuel session reader (reader.cursor.remaining + 1)

end Session

/-- What comes of a program: what comes of its statements, and how it ends. -/
structure ProgramLog where
  statements : List (Except EvalError Value × Session)
  /-- Without an end its fuel ran out. -/
  ending : Option (Except RunError Value × Session × Reader)

/-- What comes of programs that are run one after the other, each with fuel of its own. After one
that does not come to an end no other is run. -/
def Session.logs (session : Session) : List (Nat × String) → List ProgramLog
  | [] => []
  | (fuel, text) :: programs =>
    let ending := session.run fuel text
    ⟨session.statements fuel text, ending⟩ ::
      match ending with
      | none => []
      | some (_, session, _) => session.logs programs

/-! ### The same with other numbers -/

/-- What came of a statement or of a program in two sessions, of which the second has other frames
before and after the global one. -/
structure Matches {ε : Type} (before after : Nat) (outcome outcome' : Except ε Value × Session) :
    Prop where
  /-- The same error, or values that differ in the numbers of frames only. -/
  result : outcome'.1 = outcome.1.map (renumbering before after).value
  /-- Values are shown in the same way. -/
  shown : outcome'.1.map Value.text = outcome.1.map Value.text
  steps : outcome'.2.steps = outcome.2.steps
  /-- There are as many frames, and the others. -/
  frames : outcome'.2.frames = outcome.2.frames + (before + after)
  /-- A frame is inside the frame, and binds the names to the values, that belong to those of the
  frame that was made in its turn. -/
  bindings number : outcome'.2.store.frame? ⟨0, renumber before after number⟩ =
    (outcome.2.store.frame? ⟨0, number⟩).map ((renumbering before after).frame 0)

/-- What came of a program in two sessions: its statements match, and so does its end, with the
same text left. Or it does not come to an end in either. -/
structure ProgramLog.Matches (before after : Nat) (log log' : ProgramLog) : Prop where
  statements : List.Forall₂ (Retrace.Matches before after) log.statements log'.statements
  ending : Option.Rel (fun (result, session, reader) (result', session', reader') =>
    Retrace.Matches before after (result, session) (result', session') ∧ reader' = reader)
    log.ending log'.ending

namespace Session

/-- Sessions with stores that belong together, in which the global frames are the first frame and
the one after the other frames before it. -/
structure Renumbered (before after : Nat) (session session' : Session) : Prop where
  sessions : (renumbering before after).Sessions session session'
  global : session.global = ⟨0, 1⟩

variable {before after : Nat} {session session' : Session} {fuel : Nat} {last : Value}
  {r : Reader} {bound : Nat}

/-- What comes of two sessions that belong together matches. -/
theorem Renumbered.matches {ε : Type} (h : Renumbered before after session session')
    (result : Except ε Value) :
    Matches before after (result, session)
      (result.map (renumbering before after).value, session') := by
  have store := h.sessions.store
  constructor
  case result => rfl
  case shown =>
    cases result with
    | ok value => exact congrArg Except.ok (value.text_mapped (renumbering before after).unseen)
    | error e => rfl
  case steps => exact h.sessions.steps
  case frames =>
    -- the frames that are made after the next have numbers that are that much larger
    have next : session.store.created ⟨0, 0⟩ + 2 + (before + after) =
        session'.store.created ⟨0, 0⟩ + 2 := congrArg Env.number (store.next 0 1)
    rw [frames, frames, h.sessions.global, h.global]
    show session'.store.created ⟨0, 0⟩ = session.store.created ⟨0, 0⟩ + (before + after)
    omega
  case bindings => exact fun number => store.frame? ⟨0, number⟩

/-- A statement is evaluated in the same global frame as the one before it. -/
theorem evaluate_global {node : Node} {result : Except EvalError Value}
    (evaluated : session.evaluate fuel node = some (result, session')) :
    session'.global = session.global := by
  rw [Machine.evaluate_eq] at evaluated
  obtain ⟨ending, _, same⟩ := Option.map_eq_some_iff.mp evaluated
  obtain ⟨_, rfl⟩ := Prod.mk.inj same
  rfl

/-- What came of a statement or of a program in sessions that belong together. -/
structure Together {ε : Type} (before after : Nat) (outcome outcome' : Except ε Value × Session) :
    Prop where
  result : outcome'.1 = outcome.1.map (renumbering before after).value
  sessions : Renumbered before after outcome.2 outcome'.2

theorem Together.matches {ε : Type} {outcome outcome' : Except ε Value × Session}
    (h : Together before after outcome outcome') : Matches before after outcome outcome' := by
  obtain ⟨result, session⟩ := outcome
  obtain ⟨result', session'⟩ := outcome'
  obtain ⟨rfl, sessions⟩ : result' = _ ∧ Renumbered before after session session' :=
    ⟨h.result, h.sessions⟩
  exact sessions.matches result

/-- **A statement comes to the same in sessions that belong together.** -/
theorem evaluate_renumbered (h : Renumbered before after session session') (fuel : Nat)
    (node : Node) :
    Option.Rel (Together before after) (session.evaluate fuel node)
      (session'.evaluate fuel node) := by
  have outcomes := Relabelling.evaluate_follows h.sessions fuel node
  -- every place is kept
  have kept : node.placed (renumbering before after).place = node := node.placed_id
  rw [Relabelling.node, kept] at outcomes
  obtain ⟨none, none'⟩ | ⟨outcome, outcome', some, some', same⟩ := Relabelling.rel_cases outcomes
  · rw [none, none']
    exact .none
  · rw [some, some']
    refine .some ⟨same.result, same.sessions, ?_⟩
    exact (evaluate_global some).trans h.global

/-- **So do the statements of a program, and its end.** -/
theorem program_renumbered (h : Renumbered before after session session') :
    List.Forall₂ (Together before after) (statementsWithin fuel session r bound)
        (statementsWithin fuel session' r bound) ∧
      Option.Rel (fun (result, session, reader) (result', session', reader') =>
          Together before after (result, session) (result', session') ∧ reader' = reader)
        (runWithin fuel last session r bound)
        (runWithin fuel ((renumbering before after).value last) session' r bound) := by
  induction bound generalizing session session' last r with
  | zero => exact ⟨.nil, .some ⟨⟨rfl, h⟩, rfl⟩⟩
  | succ bound ih =>
    unfold statementsWithin runWithin
    cases r.read with
    | mk found reader =>
      rcases found with error | _ | node
      · exact ⟨.nil, .some ⟨⟨rfl, h⟩, rfl⟩⟩
      · exact ⟨.nil, .some ⟨⟨rfl, h⟩, rfl⟩⟩
      · obtain ⟨none, none'⟩ | ⟨outcome, outcome', some, some', same⟩ :=
          Relabelling.rel_cases (evaluate_renumbered h fuel node)
        · simp only [none, none']
          exact ⟨.nil, .none⟩
        · obtain ⟨result, session₁⟩ := outcome
          obtain ⟨result', session₁'⟩ := outcome'
          obtain ⟨rfl, sessions⟩ : result' = _ ∧ Renumbered before after session₁ session₁' :=
            ⟨same.result, same.sessions⟩
          simp only [some, some']
          cases result with
          | error e => exact ⟨.cons same .nil, .some ⟨⟨rfl, sessions⟩, rfl⟩⟩
          | ok value =>
            obtain ⟨others, ran⟩ := ih sessions
            exact ⟨.cons same others, ran⟩

/-- **And so do programs that are run one after the other.** -/
theorem logs_renumbered (h : Renumbered before after session session')
    (programs : List (Nat × String)) :
    List.Forall₂ (ProgramLog.Matches before after) (session.logs programs)
      (session'.logs programs) := by
  induction programs generalizing session session' with
  | nil => exact .nil
  | cons program programs ih =>
    obtain ⟨fuel, text⟩ := program
    obtain ⟨comes, ended⟩ := @program_renumbered before after session session' fuel (.list [])
      (.plain text) ((Reader.plain text).cursor.remaining + 1) h
    have statements : List.Forall₂ (Matches before after) (session.statements fuel text)
        (session'.statements fuel text) := comes.imp fun _ _ => Together.matches
    have ended : Option.Rel _ (session.run fuel text) (session'.run fuel text) := ended
    obtain ⟨stuck, stuck'⟩ | ⟨ran, ran', ends, ends', same, reader⟩ := Relabelling.rel_cases ended
    · simp only [logs, stuck, stuck']
      exact .cons ⟨statements, .none⟩ .nil
    · simp only [logs, ends, ends']
      exact .cons ⟨statements, .some ⟨same.matches, reader⟩⟩ (ih same.sessions)

/-- The two sessions belong together when they begin. -/
theorem startAmong_renumbered (limit : Option Nat) (before after : List (Nat × Bindings)) :
    Renumbered before.length after.length (start limit) (startAmong limit before after) :=
  ⟨⟨startAmong_relates, global_startAmong, rfl, rfl⟩, rfl⟩

end Session

/-- **The numbers of frames are not seen by programs.** Programs are run one after the other in a
session, and in a session whose tree has further frames: some that were made before the global
frame and some that were made after it, in any places and with any bindings. Statement by
statement they come to the same errors, or to values that are shown in the same way, after as many
moves and with as many new frames. Frames that were made in the same order bind the same names, to
values that differ in the numbers of frames only. -/
theorem frame_numbers_are_not_seen (limit : Option Nat) (before after : List (Nat × Bindings))
    (programs : List (Nat × String)) :
    (Session.startAmong limit before after).frames =
        (Session.start limit).frames + (before.length + after.length) ∧
      List.Forall₂ (ProgramLog.Matches before.length after.length)
        ((Session.start limit).logs programs)
        ((Session.startAmong limit before after).logs programs) := by
  have begins := Session.startAmong_renumbered limit before after
  exact ⟨(begins.matches (.ok (.list []) : Except EvalError Value)).frames,
    Session.logs_renumbered begins programs⟩

end Retrace
