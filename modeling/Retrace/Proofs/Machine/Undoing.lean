/-
Definitions and their undoings in a run.

* `Moment` — a state of a run with its history: each frame as it was first seen, and
  the definitions and undoings so far.
* `Visits` — the moments of a run.
* `opened`, `closed` — which definitions are still there, and which were undone.
* `Balanced` — every frame is as it was first, with the definitions whose undoing is
  on the trail, and no others.
* `balanced_of_visits` — every moment of a run is balanced.
* **`evaluation_balances_definitions`** — the same for sessions, and what it means for
  the frames that a statement leaves behind.

Design notes:
* A definition is known by its serial number, which is the number of definitions and
  undoings before it. Two definitions of one name in one frame, one after the other
  was undone, are two.
* An error drops the trail. The moment of the error keeps the trail of the branch in
  which it came up.
-/
import Retrace.Proofs.Machine.Moves
import Retrace.Proofs.Machine.Runs

namespace Retrace

/-- The frame and the name of a definition. -/
def Definition.key (d : Definition) : Env × String :=
  (d.env, d.name)

/-- The bindings that definitions make in one frame, the latest first. -/
def madeIn (env : Env) (ds : List Definition) : Bindings :=
  ds.filterMap fun d => if d.env = env then some (d.name, d.value) else none

section

variable {env : Env} {name : String} {ds : List Definition} {bindings : Bindings}

theorem madeIn_cons (d : Definition) (ds : List Definition) :
    madeIn env (d :: ds) =
      if d.env = env then (d.name, d.value) :: madeIn env ds else madeIn env ds := by
  rw [madeIn, List.filterMap_cons]
  by_cases here : d.env = env
  · rw [if_pos here, if_pos here]
    rfl
  · rw [if_neg here, if_neg here]
    rfl

/-- In a frame about which there are no definitions, none are made. -/
theorem madeIn_eq_nil (absent : ∀ d ∈ ds, d.env ≠ env) : madeIn env ds = [] := by
  rw [madeIn, List.filterMap_eq_nil_iff]
  intro d member
  rw [if_neg (absent d member)]

/-- A name is free if no definition is of it and the bindings before do not have it. -/
theorem lookup_madeIn : (madeIn env ds ++ bindings).lookup name = none ↔
    (env, name) ∉ ds.map Definition.key ∧ bindings.lookup name = none := by
  induction ds with
  | nil => simp [madeIn]
  | cons d ds ih =>
    rw [madeIn_cons, List.map_cons, List.mem_cons, Definition.key, Prod.mk.injEq]
    by_cases here : d.env = env
    · rw [if_pos here, List.cons_append, List.lookup_cons]
      by_cases same : name = d.name
      · simp [here, same]
      · rw [beq_false_of_ne same]
        simp [ih, same]
    · rw [if_neg here, ih]
      simp [Ne.symm here]

end

namespace Machine

variable {s : Store} {log : List Event} {d : Definition}

/-! ### Histories -/

/-- The definitions that are not undone, each with its serial number. A history has its latest
event first. -/
def opened : List Event → List (Nat × Definition)
  | [] => []
  | .defined d :: log => (log.length, d) :: opened log
  | .undone _ _ :: log => (opened log).tail

/-- The serial numbers of the definitions that were undone. -/
def closed : List Event → List Nat
  | [] => []
  | .defined _ :: log => closed log
  | .undone _ _ :: log => (opened log).head?.toList.map (·.1) ++ closed log

/-- Every undoing is that of the latest definition that is not undone yet. -/
def Paired : List Event → Prop
  | [] => True
  | .defined _ :: log => Paired log
  | .undone env name :: log =>
    (∃ latest others, opened log = latest :: others ∧ latest.2.key = (env, name)) ∧ Paired log

/-- The definitions that are not undone, the latest first. -/
def standing (log : List Event) : List Definition :=
  (opened log).map (·.2)

/-- Serial numbers are smaller than the number of events. -/
theorem serial_lt {i : Nat} (member : i ∈ (opened log).map (·.1) ++ closed log) :
    i < log.length := by
  induction log with
  | nil => exact absurd member (by simp [opened, closed])
  | cons event log ih =>
    rw [List.length_cons]
    cases event with
    | defined d =>
      rcases List.mem_cons.mp member with rfl | member
      · exact Nat.lt_succ_self _
      · exact Nat.lt_succ_of_lt (ih member)
    | undone env name =>
      refine Nat.lt_succ_of_lt (ih ?_)
      rw [opened, closed] at member
      cases h : opened log with
      | nil =>
        rw [h] at member
        exact member
      | cons latest others =>
        -- the serial number of the latest definition moves from one list to the other
        rw [h] at member
        exact List.perm_middle.mem_iff.mp member

/-- No definition is undone twice, and none that was undone is still there. -/
theorem undone_once (log : List Event) : ((opened log).map (·.1) ++ closed log).Nodup := by
  induction log with
  | nil => exact List.nodup_nil
  | cons event log ih =>
    cases event with
    | defined d =>
      refine List.nodup_cons.mpr ⟨fun member => ?_, ih⟩
      exact Nat.lt_irrefl _ (serial_lt member)
    | undone env name =>
      rw [opened, closed]
      cases h : opened log with
      | nil =>
        rw [h] at ih
        exact ih
      | cons latest others =>
        rw [h] at ih
        exact List.perm_middle.nodup_iff.mpr ih

/-! ### Moments of a run -/

/-- A state of a run with its history. -/
structure Moment where
  promise : Promise
  store : Store
  /-- What is left to be tried. -/
  trail : Trail
  /-- Each frame as it was when the run began, or as it was made since. -/
  origin : Env → Option Frame
  /-- The definitions and undoings so far, the latest first. -/
  log : List Event

namespace Moment

/-- The first moment of a run from a store. -/
def start (s : Store) (c : Promise × Store) : Moment where
  promise := c.1
  store := c.2
  trail := c.1.trail?.getD []
  origin env := (s.frame? env).or (c.2.frame? env)
  log := []

/-- The moment after another. A frame that is new was just made. -/
def follow (m : Moment) (event : Option Event) (c : Promise × Store) : Moment where
  promise := c.1
  store := c.2
  trail := c.1.trail?.getD m.trail
  origin env := (m.origin env).or (c.2.frame? env)
  log := event.toList ++ m.log

/-- The moment after a move. -/
def next (m : Moment) (move : Move) : Moment :=
  m.follow (event? move m.store) (bounce move m.store)

end Moment

/-- The moments of a run. -/
inductive Visits (first : Moment) : Moment → Prop
  | start : Visits first first
  | move {m move} (before : Visits first m) (now : m.promise = .next move) :
      Visits first (m.next move)

/-- Every frame is as it was first, with the definitions whose undoing is on the trail. -/
structure Balanced (s : Store) (m : Moment) : Prop where
  /-- A frame has its first bindings and one for each definition that stands. -/
  frames env : m.store.frame? env = (m.origin env).map fun frame =>
    { frame with bindings := madeIn env (standing m.log) ++ frame.bindings }
  /-- The first bindings of an old frame are those that it had when the run began. -/
  old env frame (h : s.frame? env = some frame) : m.origin env = some frame
  /-- The first bindings of a new frame are those that it was made with. -/
  new env frame (h : m.origin env = some frame) (absent : s.frame? env = none) :
    ∃ inside bindings, frame = Store.newFrame inside bindings
  /-- The undoings on the trail are those of the definitions that stand. -/
  undoings : undoings m.trail = (standing m.log).map Definition.key
  /-- No two definitions that stand are of one name in one frame. -/
  distinct : ((standing m.log).map Definition.key).Nodup
  /-- A definition that stands is of a name that its frame did not bind. -/
  free d (h : d ∈ standing m.log) :
    ∃ frame, m.origin d.env = some frame ∧ frame.bindings.lookup d.name = none
  /-- Every undoing was that of the latest definition that stood. -/
  paired : Paired m.log

variable {m : Moment} {c : Promise × Store}

/-- Frames that a moment does not know are not there. -/
theorem Balanced.origin_eq_none (h : Balanced s m) {env : Env} :
    m.origin env = none ↔ m.store.frame? env = none := by
  rw [h.frames env, Option.map_eq_none_iff]

/-- The frames of definitions that stand were there before. -/
theorem Balanced.madeIn_eq_nil (h : Balanced s m) {env : Env} (absent : m.origin env = none) :
    madeIn env (standing m.log) = [] := by
  refine Retrace.madeIn_eq_nil fun d member same => ?_
  obtain ⟨frame, known, _⟩ := h.free d member
  rw [same, absent] at known
  exact absurd known (by simp)

/-- Frames keep what was known of them. -/
theorem origin_follow {event : Option Event} {env : Env} {frame : Frame}
    (h : m.origin env = some frame) : (m.follow event c).origin env = some frame := by
  show (m.origin env).or (c.2.frame? env) = some frame
  rw [h, Option.some_or]

/-- What is new is what the store has. -/
theorem origin_follow_none {event : Option Event} {env : Env} (h : m.origin env = none) :
    (m.follow event c).origin env = c.2.frame? env := by
  show (m.origin env).or (c.2.frame? env) = c.2.frame? env
  rw [h, Option.none_or]

/-! ### One move -/

/-- Making frames and functions, with the same undoings on the trail, keeps the balance. -/
theorem Balanced.of_grows (h : Balanced s m) (grows : m.store.Grows c.2)
    (same : Machine.undoings (c.1.trail?.getD m.trail) = Machine.undoings m.trail) :
    Balanced s (m.follow none c) where
  frames env := by
    cases known : m.origin env with
    | some frame =>
      rw [origin_follow known]
      exact grows.le env _ (by rw [h.frames env, known]; rfl)
    | none =>
      -- no definition is about a frame that was not there
      rw [origin_follow_none known]
      show c.2.frame? env = _
      rw [show standing (m.follow none c).log = standing m.log from rfl, h.madeIn_eq_nil known]
      simp
  old env frame present := origin_follow (h.old env frame present)
  new env frame present absent := by
    cases known : m.origin env with
    | some frame' =>
      rw [origin_follow known] at present
      exact h.new env frame (known.trans present) absent
    | none =>
      rw [origin_follow_none known] at present
      rcases grows.frame?_eq present with before | made
      · rw [h.origin_eq_none.mp known] at before
        exact absurd before (by simp)
      · exact made
  undoings := same.trans h.undoings
  distinct := h.distinct
  free d member := by
    obtain ⟨frame, known, free⟩ := h.free d member
    exact ⟨frame, origin_follow known, free⟩
  paired := h.paired

/-- A move that adds no frame leaves nothing new to know. -/
theorem Balanced.origin_follow (h : Balanced s m) {event : Option Event}
    (absent : ∀ env, m.store.frame? env = none → c.2.frame? env = none) (env : Env) :
    (m.follow event c).origin env = m.origin env := by
  cases known : m.origin env with
  | some frame => exact Machine.origin_follow known
  | none =>
    rw [origin_follow_none known]
    exact absent env (h.origin_eq_none.mp known)

/-- The names of standing definitions and first bindings are the names that are bound. -/
theorem Balanced.lookup_eq_none (h : Balanced s m) {env : Env} {frame : Frame} {name : String}
    (here : m.store.frame? env = some frame) :
    frame.bindings.lookup name = none ↔
      (env, name) ∉ (standing m.log).map Definition.key ∧
        ∃ first, m.origin env = some first ∧ first.bindings.lookup name = none := by
  rw [h.frames env, Option.map_eq_some_iff] at here
  obtain ⟨first, known, rfl⟩ := here
  refine lookup_madeIn.trans (and_congr_right fun _ => ?_)
  constructor
  · exact fun unbound => ⟨first, known, unbound⟩
  · rintro ⟨first', known', unbound⟩
    obtain rfl := Option.some.inj (known.symm.trans known')
    exact unbound

/-- A definition of a free name keeps the balance. -/
theorem Balanced.of_defined (h : Balanced s m) {d : Definition} {frame : Frame}
    (here : m.store.frame? d.env = some frame) (free : frame.bindings.lookup d.name = none)
    (k : Cont) :
    Balanced s (m.follow (some (.defined d))
      (deliver (.symbol d.name) k (.undo d.name d.env :: m.trail),
        m.store.bind d.env d.name d.value)) := by
  obtain ⟨fresh, first, known, unbound⟩ := (h.lookup_eq_none here).mp free
  have same := fun event promise => @Balanced.origin_follow s m
    (promise, m.store.bind d.env d.name d.value) h event fun env absent => by
      rw [Store.frame?_bind, absent]
      split <;> rfl
  constructor
  case frames =>
    intro env
    rw [same]
    show (m.store.bind d.env d.name d.value).frame? env = (m.origin env).map fun frame =>
      { frame with bindings := madeIn env (d :: standing m.log) ++ frame.bindings }
    rw [Store.frame?_bind, madeIn_cons]
    by_cases at_home : env = d.env
    · -- the name is free, so it is bound in front of the other bindings
      subst at_home
      rw [if_pos rfl, if_pos rfl, here]
      rw [h.frames, known] at here
      obtain rfl := Option.some.inj here
      rw [known, Option.map_some, Option.map_some, Bindings.put_of_free _ free]
      rfl
    · rw [if_neg at_home, if_neg (Ne.symm at_home)]
      exact h.frames env
  case old => exact fun env frame present => by rw [same]; exact h.old env frame present
  case new => exact fun env frame => by rw [same]; exact h.new env frame
  case undoings => exact congrArg _ h.undoings
  case distinct => exact List.nodup_cons.mpr ⟨fresh, h.distinct⟩
  case free =>
    intro d' member
    rw [same]
    rcases List.mem_cons.mp member with rfl | member
    · exact ⟨first, known, unbound⟩
    · exact h.free d' member
  case paired => exact h.paired

/-- An undoing that is first on the trail is that of the latest definition that stands. -/
theorem Balanced.latest (h : Balanced s m) {env : Env} {name : String} {rest : Trail}
    (first : m.trail = .undo name env :: rest) :
    ∃ latest others, opened m.log = latest :: others ∧ latest.2.key = (env, name) ∧
      Machine.undoings rest = (others.map (·.2)).map Definition.key := by
  have keys := h.undoings
  rw [first, standing] at keys
  cases here : opened m.log with
  | nil =>
    rw [here] at keys
    exact absurd keys (by simp [Machine.undoings, Choice.undoing?])
  | cons latest others =>
    rw [here] at keys
    obtain ⟨key, keys⟩ := List.cons.inj keys
    exact ⟨latest, others, rfl, key.symm, keys⟩

/-- An undoing that is first on the trail keeps the balance. -/
theorem Balanced.of_undone (h : Balanced s m) {env : Env} {name : String} {rest : Trail}
    (first : m.trail = .undo name env :: rest) :
    Balanced s (m.follow (some (.undone env name))
      (retreat rest, m.store.unbind env name)) := by
  have same := fun event promise => @Balanced.origin_follow s m
    (promise, m.store.unbind env name) h event fun env absent => by
      rw [Store.frame?_unbind, absent]
      split <;> rfl
  obtain ⟨latest, others, here, key, keys⟩ := h.latest first
  obtain ⟨rfl, rfl⟩ := Prod.mk.inj key
  have before : standing m.log = latest.2 :: others.map (·.2) := by rw [standing, here]; rfl
  have after : standing (.undone latest.2.env latest.2.name :: m.log) = others.map (·.2) := by
    rw [standing, opened, here, List.tail_cons]
  have distinct := h.distinct
  rw [before] at distinct
  obtain ⟨fresh, distinct⟩ := List.nodup_cons.mp distinct
  obtain ⟨first, known, unbound⟩ := h.free latest.2 (by rw [before]; exact .head _)
  constructor
  case frames =>
    intro env
    rw [same]
    refine Eq.trans ?_ (congrArg (fun ds => (m.origin env).map fun frame : Frame =>
      { frame with bindings := madeIn env ds ++ frame.bindings }) after.symm)
    show (m.store.unbind latest.2.env latest.2.name).frame? env = _
    rw [Store.frame?_unbind, h.frames, before, madeIn_cons]
    by_cases at_home : env = latest.2.env
    · -- without the latest definition the name is free
      subst at_home
      have free := lookup_madeIn.mpr ⟨fresh, unbound⟩
      rw [if_pos rfl, if_pos rfl, known, Option.map_some, Option.map_some, Option.map_some,
        List.cons_append, Bindings.remove, List.filter_cons_of_neg (by simp),
        ← Bindings.remove, Bindings.remove_of_free free]
    · rw [if_neg at_home, if_neg (Ne.symm at_home)]
  case old => exact fun env frame present => by rw [same]; exact h.old env frame present
  case new => exact fun env frame => by rw [same]; exact h.new env frame
  case undoings => exact keys.trans (congrArg _ after.symm)
  case distinct => exact (congrArg (fun ds => (ds.map Definition.key).Nodup) after).mpr distinct
  case free =>
    intro d member
    rw [same]
    refine h.free d ?_
    rw [before]
    exact .tail _ (after ▸ member)
  case paired => exact ⟨⟨latest, others, here, rfl⟩, h.paired⟩

/-! ### Runs -/

/-- The trail of a moment is that of its move, and an exhausted search has an empty one. -/
structure Current (m : Moment) : Prop where
  move move (h : m.promise = .next move) : move.Plain ∧ move.trail? = some m.trail
  exhausted (h : m.promise = .error .noMoreAlternatives) : m.trail = []

theorem balanced_follow (h : Balanced s m) {event : Option Event}
    (outcome : Outcome m.trail m.store event c) (plain : PlainTrail m.trail) :
    Balanced s (m.follow event c) ∧ Current (m.follow event c) := by
  cases outcome with
  | quiet quiet =>
    obtain ⟨promise, t⟩ := c
    cases promise with
    | error e =>
      exact ⟨h.of_grows quiet.grows rfl, nofun,
        fun same => absurd (Promise.error.inj same) (quiet.error e rfl)⟩
    | done value trail => exact absurd rfl (quiet.value value trail)
    | next move =>
      -- the trail may be another one, with the same undoings on it
      obtain ⟨hmove, trail', current, same⟩ := quiet.move move rfl
      have now : (Promise.next move).trail?.getD m.trail = trail' := by
        rw [Promise.trail?, current, Option.getD_some]
      refine ⟨h.of_grows quiet.grows (by rw [now, same]), fun move' again => ?_, nofun⟩
      obtain rfl := Promise.next.inj again
      exact ⟨hmove, current.trans (congrArg some now.symm)⟩
  | value value => exact ⟨h.of_grows .refl rfl, nofun, nofun⟩
  | exhausted empty => exact ⟨h.of_grows .refl rfl, nofun, fun _ => empty⟩
  | @defined d frame k here free hk =>
    refine ⟨h.of_defined here free k, fun move now => ?_, nofun⟩
    obtain rfl := Promise.next.inj now
    exact ⟨⟨hk, plain.cons trivial⟩, rfl⟩
  | @undone env name rest first =>
    refine ⟨h.of_undone first, fun move now => ?_, nofun⟩
    obtain rfl := Promise.next.inj now
    exact ⟨fun choice member => plain choice (by rw [first]; exact .tail _ member), rfl⟩

theorem PlainTrail.of_move {move : Move} {trail : Trail} (plain : move.Plain)
    (current : move.trail? = some trail) : PlainTrail trail := by
  cases move with
  | follow => exact absurd plain id
  | retreat => exact Option.some.inj current ▸ plain
  | deliver | seek | gather => exact Option.some.inj current ▸ plain.2

/-- Every moment of the evaluation of a node is balanced. -/
theorem balanced_of_visits {node : Node} {env : Env}
    (visits : Visits (.start s (eval node env [] [] s)) m) : Balanced s m ∧ Current m := by
  induction visits with
  | start =>
    -- nothing happened before the first moment, and a node begins quietly
    let before : Moment := ⟨.next (.retreat []), s, [], s.frame?, []⟩
    have calm : Balanced s before :=
      { frames := fun env => by simp [before, standing, opened, madeIn]
        old := fun _ _ present => present
        new := fun env frame present absent => by
          rw [show before.origin env = s.frame? env from rfl, absent] at present
          exact absurd present (by simp)
        undoings := rfl
        distinct := List.nodup_nil
        free := fun d member => absurd member (by simp [before, standing, opened])
        paired := trivial }
    have quiet : Quiet [] s (eval node env [] [] s) := eval_quiet node env (by simp [PlainCont])
      (by simp [PlainTrail])
    exact balanced_follow calm (.quiet quiet) (by simp [before, PlainTrail])
  | @move m move before now ih =>
    obtain ⟨balanced, current⟩ := ih
    obtain ⟨plain, trail⟩ := current.move move now
    exact balanced_follow balanced (bounce_cases plain trail) (.of_move plain trail)

/-- Moves visit moments. -/
theorem visits_of_steps {first : Moment} {n : Nat} {a b : Promise × Store}
    (steps : Steps n a b) (visits : Visits first m) (here : (m.promise, m.store) = a) :
    ∃ m', Visits first m' ∧ (m'.promise, m'.store) = b := by
  induction steps generalizing m with
  | refl => exact ⟨m, visits, here⟩
  | @move n move s _ rest ih =>
    obtain ⟨now, rfl⟩ := Prod.mk.inj here
    exact ih (.move visits now) rfl

/-- **Definitions and undoings are balanced at every moment.** Each frame has the bindings that
it had first and one for each definition whose undoing is on the trail, and no definition is
undone twice. So a statement leaves in the frames the definitions of the branch in which it
ended, and a search that is exhausted leaves none. -/
theorem evaluation_balances_definitions (session : Session) (node : Node) :
    let first := Moment.start session.store (eval node session.global [] [] session.store)
    (∀ m, Visits first m →
      Balanced session.store m ∧ ((opened m.log).map (·.1) ++ closed m.log).Nodup) ∧
    ∀ fuel result session', session.evaluate fuel node = some (result, session') →
      ∃ m, Visits first m ∧ m.store = session'.store ∧
        (m.promise.result?.map (·.map (·.1)) = some result ∨
          ∃ move limit, m.promise = .next move ∧
            session.limit = some limit ∧ result = .error (.stepLimitExceeded limit)) ∧
        (∀ env frame, session.store.frame? env = some frame →
          session'.store.frame? env = some
            { frame with bindings := madeIn env (standing m.log) ++ frame.bindings }) ∧
        (result = .error .noMoreAlternatives →
          ∀ env frame, session.store.frame? env = some frame →
            session'.store.frame? env = some frame) := by
  intro first
  refine ⟨fun m visits => ⟨(balanced_of_visits visits).1, undone_once m.log⟩, ?_⟩
  -- the run of the statement ends at one of its moments
  intro fuel result session' h
  rw [evaluate_eq, Option.map_eq_some_iff] at h
  obtain ⟨ending, hrun, same⟩ := h
  obtain ⟨rfl, rfl⟩ := Prod.mk.inj same
  obtain ⟨n, last, _, steps, _, stop⟩ := run_eq_some hrun
  obtain ⟨m, visits, here⟩ := visits_of_steps steps (@Visits.start first) rfl
  obtain ⟨rfl, hstore⟩ := Prod.mk.inj here
  obtain ⟨balanced, current⟩ := balanced_of_visits visits
  have left_behind : ∀ env frame, session.store.frame? env = some frame →
      ending.store.frame? env = some
        { frame with bindings := madeIn env (standing m.log) ++ frame.bindings } := by
    intro env frame present
    rw [← hstore, balanced.frames env, balanced.old env frame present, Option.map_some]
  have ended : m.promise.result?.map (·.map (·.1)) = some ending.value ∨
      ∃ move limit, m.promise = .next move ∧
        session.limit = some limit ∧ ending.value = .error (.stepLimitExceeded limit) := by
    rcases stop with stopped | ⟨move, limit, now, limited, exceeded⟩
    · exact .inl (by rw [stopped]; rfl)
    · exact .inr ⟨move, limit, now, limited, by rw [Ending.value, exceeded]; rfl⟩
  refine ⟨m, visits, hstore, ended, left_behind, fun exhausted env frame present => ?_⟩
  -- an exhausted search has nothing left on the trail, so no definition stands
  have empty : m.trail = [] := by
    refine current.exhausted ?_
    rw [exhausted] at ended
    rcases ended with result | ⟨_, _, _, _, exceeded⟩
    · cases now : m.promise with
      | error e =>
        rw [now] at result
        rw [Except.error.inj (Option.some.inj result)]
      | done value trail =>
        rw [now] at result
        exact nomatch Option.some.inj result
      | next move =>
        rw [now] at result
        exact nomatch result
    · exact nomatch Except.error.inj exceeded
  have none_stands : standing m.log = [] := by
    have keys := balanced.undoings
    rw [empty] at keys
    exact List.map_eq_nil_iff.mp keys.symm
  rw [left_behind env frame present, none_stands]
  rfl

/-- A block that defines a name and goes back, as a tree. -/
def defineAndGoBack : Node :=
  .block [.apply (.symbol "define" default) [.symbol "x" default, .atom (.int 1) default] default,
    .symbol "back" default] default

/-- Going back from a definition with no choice left leaves every frame as it was. -/
theorem defineAndGoBack_leaves_frames :
    let session := Session.start none
    ∃ session', session.evaluate 5 defineAndGoBack = some (.error .noMoreAlternatives, session') ∧
      ∀ env frame, session.store.frame? env = some frame →
        session'.store.frame? env = some frame := by
  intro session
  refine ⟨_, rfl, ?_⟩
  obtain ⟨_, _, _, _, _, kept⟩ :=
    (evaluation_balances_definitions session defineAndGoBack).2 5 _ _ rfl
  exact kept rfl

end Machine

end Retrace
