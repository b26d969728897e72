/-
A loop that counts down.

* `Spin.source`, `Spin.callText` — the definition of the loop, and a run of it, as text.
* `Spin.Round` — what holds when a round of the loop begins.
* `Spin.Round.next` — a round of the loop, up to the beginning of the next one.
* **`spin_affine`** — the loop comes to zero, makes a frame for each round, and the same number of
  moves in each; and how far the counter of 64 bits shows that number.

Design notes:
* A round of the loop ends with a call of the loop, so what is left to do is the same in each round.
  Only the innermost frame is another one.
* The frame in which the loop is defined is not changed by the loop, and every other frame is
  inside it. So each name is looked up with one move, and the parameter with none.
* The number of moves has no bound, and from 1229782938247303441 rounds on it is more than the
  counter can show. The counter wraps then (`Machine.Meter.count`), and the run goes on to zero.
-/
import Retrace.Proofs.Machine.Applications
import Retrace.Proofs.Machine.Scoping
import Retrace.Proofs.Session.Statements

namespace Retrace

namespace Spin

open Node Machine

/-- The definition of the loop. -/
def source : String :=
  "fn spin(n) { if (n == 0) { 0; } else { spin(n - 1); } }"

/-- A run of the loop. -/
def callText (n : Int64) : String :=
  "spin(" ++ toString n.toInt ++ ")"

/-- A number as a tree, without a place. -/
def number (n : Int64) : Node :=
  .atom (.int n) default

/-- What a round does, without places. -/
def body : Node :=
  special .conditional [call (named Primitive.eq.name) [named "n", number 0], blockOf [number 0],
    blockOf [call (named "spin") [call (named Primitive.sub.name) [named "n", number 1]]]]

/-- The moves of a run of the loop. -/
def moves (n : Nat) : Nat :=
  10 + 15 * n

/-- What the counter shows after a run of the loop. -/
def shown (n : Nat) : UInt64 :=
  .ofNat (moves n)

/-- The moves are affine in the rounds, with what is shown of two short runs. -/
theorem moves_eq (n : Nat) :
    moves n = (shown 0).toNat + n * ((shown 1).toNat - (shown 0).toNat) := by
  have first : (shown 0).toNat = 10 := rfl
  have second : (shown 1).toNat = 25 := rfl
  rw [first, second, moves]
  omega

/-- The counter shows the moves of a run as long as they fit in its 64 bits. -/
theorem toNat_shown_eq_iff (n : Nat) : (shown n).toNat = moves n ↔ n ≤ 1229782938247303440 := by
  have wraps : (shown n).toNat = moves n % 2 ^ 64 := UInt64.toNat_ofNat'
  rw [wraps, moves]
  omega

/-- With one round more it has wrapped. -/
example : shown 1229782938247303441 = 9 := by decide

/-! ### Rounds -/

/-- A frame in which the loop is bound, and the functions that it uses. -/
structure Bound (frame : Frame) (global : Env) : Prop where
  loop : ∃ id, frame.bindings.lookup "spin" = some (.closure ⟨id, ["n"], [body], global⟩)
  compares : frame.bindings.lookup Primitive.eq.name = some (.primitive .eq)
  subtracts : frame.bindings.lookup Primitive.sub.name = some (.primitive .sub)

/-- The beginning of a round: the innermost frame binds the parameter, and the loop is bound in the
frame around it. -/
structure Round (frame : Frame) (global : Env) (s : Store) (env : Env) (n : Int64) : Prop where
  outer : s.frame? global = some frame
  inner : s.frame? env = some (Store.newFrame global [("n", .int n)])
  tree : env.tree = global.tree

variable {frame : Frame} {global env : Env} {s : Store} {n x : Int64} {d m : Nat} {k : Cont}
  {trail : Trail} {node : Node}

/-- A call of the loop comes to the beginning of a round, for what its operand comes to. -/
theorem Bound.enter (bound : Bound frame global) (outer : s.frame? global = some frame)
    (found : ∀ value, frame.bindings.lookup "spin" = some value → Finds s env "spin" value d)
    (argument : Comes s env node (.int x) m) (k : Cont) (trail : Trail) :
    ∃ s' env', Steps (d + m + 3) (eval (call (named "spin") [node]) env k trail s)
        (eval body env' k trail s') ∧
      Round frame global s' env' x ∧ s'.created global = s.created global + 1 := by
  obtain ⟨id, loop⟩ := bound.loop
  obtain ⟨_, exists_tree⟩ := Store.Knows.bounds ⟨frame, outer⟩
  refine ⟨_, _, enter_steps rfl (by decide) (found _ loop) argument k trail, ⟨?_, ?_, rfl⟩, ?_⟩
  · exact Store.le_extend _ _ _ outer
  · rw [Store.frame?_extend, if_pos ⟨rfl, exists_tree⟩]
  · rw [Store.created_extend, if_pos ⟨rfl, exists_tree⟩]

namespace Round

variable (round : Round frame global s env n)

include round

/-- What the outer frame binds, and the inner one does not, is found with one move. -/
theorem finds {name : String} {value : Value} (other : (name == "n") = false)
    (bound : frame.bindings.lookup name = some value) : Finds s env name value 1 := by
  have free : (Store.newFrame global [("n", .int n)]).bindings.lookup name = none := by
    show List.lookup name [("n", _)] = none
    rw [List.lookup_cons, other]
    rfl
  have around : (⟨env.tree, (Store.newFrame global [("n", .int n)]).parent⟩ : Env) = global := by
    rw [round.tree]
    rfl
  refine .outside round.inner free ?_
  rw [around]
  exact .here round.outer bound

theorem parameter : Comes s env (named "n") (.int n) 0 :=
  Finds.comes (.here round.inner rfl) (by decide)

/-- A round looks first whether it is the last one. -/
theorem condition (bound : Bound frame global) :
    Comes s env (call (named Primitive.eq.name) [named "n", number 0]) (.bool (n == 0)) 5 :=
  .binary (round.finds rfl bound.compares) round.parameter (.int _) rfl

/-- The last round. -/
theorem last (bound : Bound frame global) (zero : n = 0) (k : Cont) (trail : Trail) :
    Steps 6 (eval body env k trail s) (deliver (.int 0) k trail, s) := by
  have condition := round.condition bound
  rw [zero] at condition
  exact conditional_steps condition _ _ k trail

/-- Every other round ends with the beginning of the next one. -/
theorem next (bound : Bound frame global) (more : n ≠ 0) (k : Cont) (trail : Trail) :
    ∃ s' env', Steps 15 (eval body env k trail s) (eval body env' k trail s') ∧
      Round frame global s' env' (n - 1) ∧ s'.created global = s.created global + 1 := by
  have condition := round.condition bound
  rw [beq_eq_false_iff_ne.mpr more] at condition
  have smaller : Comes s env (call (named Primitive.sub.name) [named "n", number 1])
      (.int (n - 1)) 5 :=
    .binary (round.finds rfl bound.subtracts) round.parameter (.int _) rfl
  obtain ⟨s', env', enters, round', created⟩ :=
    bound.enter round.outer (fun _ loop => round.finds rfl loop) smaller k trail
  -- the call is the last statement of the branch, so it is evaluated in place of the body
  have chooses : Steps 6 (eval body env k trail s) (eval (call (named "spin")
      [call (named Primitive.sub.name) [named "n", number 1]]) env k trail s) :=
    conditional_steps condition _ _ k trail
  exact ⟨s', env', chooses.trans enters, round', created⟩

/-- **All rounds from one on.** -/
theorem all (bound : Bound frame global) {rounds : Nat} (counted : n.toInt = rounds) (k : Cont)
    (trail : Trail) :
    ∃ s', Steps (6 + 15 * rounds) (eval body env k trail s) (deliver (.int 0) k trail, s') ∧
      s'.frame? global = some frame ∧ s'.created global = s.created global + rounds := by
  induction rounds generalizing s env n with
  | zero =>
    have zero : n = 0 := Int64.toInt_inj.mp counted
    exact ⟨s, round.last bound zero k trail, round.outer, rfl⟩
  | succ rounds ih =>
    have more : n ≠ 0 := by
      rintro rfl
      cases counted
    have smaller : (n - 1).toInt = rounds := by
      have large := n.toInt_lt
      have less : ((rounds + 1 : Nat) : Int) - (1 : Int64).toInt = rounds := by
        show ((rounds + 1 : Nat) : Int) - 1 = rounds
        omega
      rw [Int64.toInt_sub, counted, less]
      exact Int.bmod_eq_of_le (by omega) (by omega)
    obtain ⟨s₁, env₁, goOn, round₁, created₁⟩ := round.next bound more k trail
    obtain ⟨s', others, outer, created⟩ := ih round₁ smaller
    have count : 6 + 15 * (rounds + 1) = 15 + (6 + 15 * rounds) := by omega
    exact ⟨s', count ▸ goOn.trans others, outer, by omega⟩

end Round

/-! ### Sessions -/

/-- Sessions in which the loop was defined, and then run any number of times. -/
inductive Reached : Session → Prop
  | defined {fuel result session r}
      (run : (Session.start none).run fuel source = some (result, session, r)) : Reached session
  | again {session fuel result session' r} {n : Int64} (before : Reached session)
      (natural : 0 ≤ n) (run : session.run fuel (callText n ++ ";") = some (result, session', r)) :
      Reached session'

/-- What the loop needs of a session. -/
structure Ready (session : Session) : Prop where
  unlimited : session.limit = none
  bound : ∃ frame, session.store.bare.frame? session.global = some frame ∧
    Bound frame session.global

/-- The text of a run is read as an application of the loop. -/
theorem feed_callText (natural : 0 ≤ n) :
    Lexer.feed ((callText n).toList ++ [';']) =
      Feed.inFront (.apply (.name ⟨"spin", rfl⟩) [.int n natural] : Expr .builtins).tokens
        (Lexer.feed [';']) := by
  have split : (callText n).toList ++ [';'] =
      's' :: 'p' :: 'i' :: 'n' :: '(' :: ((toString n.toInt).toList ++ [')', ';']) := by
    simp only [callText, String.toList_append, List.append_assoc]
    rfl
  rw [split, Lexer.feed_scan rfl]
  show some (Token.name "spin") :: Lexer.feed ('(' :: _) = _
  rw [Lexer.feed_single rfl (by decide) (by decide),
    Lexer.feed_number natural (by decide) (by decide),
    Lexer.feed_single rfl (by decide) (by decide)]
  rfl

/-- A run of the loop comes to zero, and the loop can be run again. -/
theorem Ready.run {session : Session} (ready : Ready session) (natural : 0 ≤ n) :
    ∃ enough, ∀ fuel ≥ enough, ∃ session' r,
      session.run fuel (callText n ++ ";") = some (.ok (.int 0), session', r) ∧
      session'.frames = session.frames + (n.toInt.toNat + 1) ∧
      session'.steps = moves n.toInt.toNat ∧ Ready session' := by
  obtain ⟨frame, outer, bound⟩ := ready.bound
  have counted : n.toInt = n.toInt.toNat :=
    (Int.toNat_of_nonneg (Int64.le_iff_toInt_le.mp natural)).symm
  obtain ⟨s₁, env₁, enters, round, created₁⟩ :=
    bound.enter outer (fun _ loop => .here outer loop) (.int n) [] []
  obtain ⟨s', rounds, outer', created⟩ := round.all bound counted [] []
  refine ⟨moves n.toInt.toNat, fun fuel enough => ?_⟩
  have count : moves n.toInt.toNat = 0 + 0 + 3 + (6 + 15 * n.toInt.toNat) + 1 := by
    rw [moves]
    omega
  obtain ⟨session', r, run, after⟩ := Session.run_data (.int 0) (feed_callText natural)
    ready.unlimited (enters.trans rounds) (count ▸ enough)
  have store : session'.store.bare = s' := congrArg Session.store after
  have global : session'.global = session.global := (congrArg Session.global after : _)
  have frames : session.store.bare.created session.global = session.frames := Store.created_bare
  refine ⟨session', r, run, ?_, (congrArg Session.steps after).trans count.symm, ?_⟩
  · rw [Session.frames, ← Store.created_bare, store, global]
    omega
  · refine ⟨(congrArg Session.limit after).trans ready.unlimited, frame, ?_, ?_⟩
    · rw [store, global]
      exact outer'
    · rw [global]
      exact bound

/-- The global frame after the definition. -/
def defined : Frame :=
  ⟨0, Bindings.put Primitive.bindings.reverse "spin" (.closure ⟨0, ["n"], [body], ⟨0, 1⟩⟩)⟩

/-- The definition of the loop is a program, and the loop can be run after it. -/
theorem ready_start : ∃ session r,
    (Session.start none).run 2 source = some (.ok (.symbol "spin"), session, r) ∧
      Ready session := by
  have computed : ((Session.start none).run 2 source).map (fun ran =>
      (ran.1, ran.2.1.limit, ran.2.1.global, ran.2.1.store.bare.frame? ⟨0, 1⟩)) =
      some (.ok (.symbol "spin"), none, ⟨0, 1⟩, some defined) := by cbv
  obtain ⟨⟨result, session, r⟩, run, same⟩ := Option.map_eq_some_iff.mp computed
  simp only [Prod.mk.injEq] at same
  obtain ⟨rfl, unlimited, global, outer⟩ := same
  refine ⟨session, r, run, unlimited, defined, ?_, ?_⟩
  · rw [global]
    exact outer
  · rw [global]
    exact ⟨⟨0, rfl⟩, rfl, rfl⟩

/-- A session in which the loop was defined and run is ready for the next run. -/
theorem Reached.ready {session : Session} (reached : Reached session) : Ready session := by
  induction reached with
  | defined run =>
    obtain ⟨session, r, run', ready⟩ := ready_start
    obtain ⟨_, rfl, _⟩ := Session.run_unique run run'
    exact ready
  | again before natural run ready =>
    obtain ⟨enough, runs⟩ := ready.run natural
    obtain ⟨session', r, run', _, _, ready'⟩ := runs enough (Nat.le_refl _)
    cases Session.run_unique run run'
    exact ready'

end Spin

/-- **The moves of the loop are affine in the rounds.** After the definition of the loop, and any
runs of it, every run comes to zero and makes a frame for each round and one for the first call.
Its moves are those of no round, and for each round as many as one round makes more, as the
counter shows them. The counter wraps at 64 bits: it shows the moves of a run themselves up to
1229782938247303440 rounds, and no longer. -/
theorem spin_affine :
    (∃ enough, ∀ fuel ≥ enough, ∃ session r,
      (Session.start none).run fuel Spin.source = some (.ok (.symbol "spin"), session, r)) ∧
    (∀ n, Spin.moves n =
      (Spin.shown 0).toNat + n * ((Spin.shown 1).toNat - (Spin.shown 0).toNat)) ∧
    (∀ n, (Spin.shown n).toNat = Spin.moves n ↔ n ≤ 1229782938247303440) ∧
    ∀ session, Spin.Reached session → ∀ n : Int64, 0 ≤ n →
      ∃ enough, ∀ fuel ≥ enough, ∃ session' r,
        session.run fuel (Spin.callText n ++ ";") = some (.ok (.int 0), session', r) ∧
        session'.frames = session.frames + (n.toInt.toNat + 1) ∧
        session'.steps = Spin.moves n.toInt.toNat ∧
        session'.count = Spin.shown n.toInt.toNat := by
  refine ⟨⟨2, fun fuel enough => ?_⟩, Spin.moves_eq, Spin.toNat_shown_eq_iff,
    fun session reached n natural => ?_⟩
  · obtain ⟨session, r, run, _⟩ := Spin.ready_start
    exact ⟨session, r, Session.run_mono run enough⟩
  · obtain ⟨enough, runs⟩ := reached.ready.run natural
    refine ⟨enough, fun fuel large => ?_⟩
    obtain ⟨session', r, run, frames, steps, _⟩ := runs fuel large
    exact ⟨session', r, run, frames, steps, congrArg UInt64.ofNat steps⟩

/-- Three rounds and the last one, after the definition. -/
theorem spin_affine_three : ∃ session, Spin.Reached session ∧
    ∃ enough, ∀ fuel ≥ enough, ∃ session' r,
      session.run fuel "spin(3);" = some (.ok (.int 0), session', r) ∧
      session'.frames = session.frames + 4 ∧ session'.steps = 55 ∧ session'.count = 55 := by
  obtain ⟨⟨enough, defined⟩, _, _, runs⟩ := spin_affine
  obtain ⟨session, r, run⟩ := defined enough (Nat.le_refl enough)
  have reached : Spin.Reached session := .defined run
  exact ⟨session, reached, runs session reached 3 (by decide)⟩

end Retrace
