/-
Definitions that are taken back in any order.

* `Grant` — a definition, and the trail that takes it back.
* `Ledger` — a store, its frames as they were made, and the grants that were not used.
* `Turn` — a new tree or frame, a definition, or a definition taken back.
* `Exact` — every frame has the bindings that it was made with and those of the grants that
  were not used.
* `exact_of_turns` — every ledger is exact.
* **`withdrawals_are_exact`** — what a definition and a withdrawal do then, and that frames
  are as before when all definitions since were taken back.

Design notes:
* A trail knows the frame and the name of its definition, and not the binding. It finds the
  right one because no frame binds a name twice, in whatever order the trails are used.
* A grant leaves the ledger when it is used, so none is used twice.
* At a root nothing is bound, and there is nothing to take back.
-/
import Retrace.Machine.Direct
import Retrace.Proofs.Machine.Scoping
import Retrace.Proofs.Machine.Undoing

namespace Retrace

/-! ### Names without duplicates -/

namespace Bindings

variable {bindings made front back : Bindings} {name : String} {value : Value}

theorem lookup_eq_none_iff_notMem :
    bindings.lookup name = none ↔ name ∉ bindings.map (·.1) := by
  rw [List.lookup_eq_none_iff, List.mem_map]
  constructor
  · rintro different ⟨binding, member, rfl⟩
    have other := different binding member
    rw [bne_self_eq_false] at other
    exact Bool.false_ne_true other
  · intro absent binding member
    simpa [bne_iff_ne] using fun same => absent ⟨binding, member, same.symm⟩

theorem nodup_remove (h : (bindings.map (·.1)).Nodup) :
    ((bindings.remove name).map (·.1)).Nodup :=
  h.sublist (List.filter_sublist.map _)

theorem nodup_put (h : (bindings.map (·.1)).Nodup) :
    ((bindings.put name value).map (·.1)).Nodup := by
  refine List.nodup_cons.mpr ⟨fun member => ?_, nodup_remove h⟩
  obtain ⟨binding, inside, same⟩ := List.mem_map.mp member
  have other := (List.mem_filter.mp inside).2
  rw [same] at other
  simp at other

/-- The bindings that a frame is made with have no duplicates. -/
theorem nodup_foldl_put (h : (made.map (·.1)).Nodup) :
    ((bindings.foldl (fun bs (name, value) => bs.put name value) made).map (·.1)).Nodup := by
  induction bindings generalizing made with
  | nil => exact h
  | cons binding bindings ih => exact ih (nodup_put h)

/-- Where no name is bound twice, one binding is removed and no other. -/
theorem remove_middle (h : ((front ++ (name, value) :: back).map (·.1)).Nodup) :
    Bindings.remove (front ++ (name, value) :: back) name = front ++ back := by
  rw [List.map_append, List.map_cons] at h
  obtain ⟨absent, _⟩ := List.nodup_middle.mp h |> List.nodup_cons.mp
  rw [← List.map_append, ← lookup_eq_none_iff_notMem] at absent
  have kept := remove_of_free absent
  rw [remove, List.filter_append] at kept ⊢
  rw [List.filter_cons_of_neg (by simp)]
  exact kept

end Bindings

theorem madeIn_append {env : Env} (ds ds' : List Definition) :
    madeIn env (ds ++ ds') = madeIn env ds ++ madeIn env ds' :=
  List.filterMap_append

/-- An environment that a program can have: a root, or that of a frame. -/
def Store.Present (s : Store) (env : Env) : Prop :=
  s.Knows env ∨ env.isRoot ∧ env.tree < s.trees.size

namespace Machine

/-! ### Single operations -/

section

variable {s : Store} {env : Env} {name : String} {value : Value} {frame : Frame} {fuel : Nat}

/-- A definition does nothing at a root, binds a name that is free, and is an error otherwise. -/
theorem defineValue_cases (s : Store) (env : Env) (name : String) (value : Value) :
    s.frame? env = none ∧ defineValue s env name value = (.ok falseTrail, s) ∨
    ∃ frame, s.frame? env = some frame ∧
      (frame.bindings.lookup name = none ∧ defineValue s env name value =
          (.ok (.undo name env :: falseTrail), s.bind env name value) ∨
        frame.bindings.lookup name ≠ none ∧
          defineValue s env name value = (.error (.symbolAlreadyDefined name), s)) := by
  unfold defineValue define
  cases here : s.frame? env with
  | none => exact .inl ⟨rfl, rfl⟩
  | some frame =>
    refine .inr ⟨frame, rfl, ?_⟩
    cases found : frame.bindings.lookup name with
    | none =>
      simp only [found]
      exact .inl ⟨trivial, rfl⟩
    | some value' =>
      simp only [found]
      exact .inr ⟨nofun, rfl⟩

theorem undo_falseTrail (enough : 1 ≤ fuel) :
    undo fuel s falseTrail = some ⟨.ok (.bool false, none), ⟨none, 1⟩, s⟩ :=
  run_of_steps_unlimited (.single _ s) rfl enough

/-- To go back from a definition is to set its name free, and then to give `false`. -/
theorem undo_definition (enough : 2 ≤ fuel) :
    undo fuel s (.undo name env :: falseTrail) =
      some ⟨.ok (.bool false, none), ⟨none, 2⟩, s.unbind env name⟩ :=
  run_of_steps_unlimited (.move (.single _ _)) rfl enough

theorem unbind_root (root : env.isRoot) : s.unbind env name = s := by
  unfold Store.unbind Store.update
  rw [eq_of_beq root]

end

/-! ### Ledgers -/

/-- A definition that was made, and the trail that takes it back. -/
structure Grant where
  made : Definition
  trail : Trail

/-- A store, each of its frames as it was made, and the grants that were not used, the latest
first. -/
structure Ledger where
  store : Store
  origin : Env → Option Frame
  grants : List Grant

namespace Ledger

/-- The ledger before anything is made. -/
def start : Ledger :=
  ⟨.empty, fun _ => none, []⟩

/-- The ledger with another store. A frame that is new was just made. -/
def see (l : Ledger) (store : Store) : Ledger :=
  { l with store, origin := fun env => (l.origin env).or (store.frame? env) }

/-- A frame as it should be: with the bindings that it was made with, and one for each definition
in it that was not taken back. -/
def frame? (l : Ledger) (env : Env) : Option Frame :=
  (l.origin env).map fun first =>
    { first with bindings := madeIn env (l.grants.map (·.made)) ++ first.bindings }

end Ledger

/-- One operation on a store. -/
inductive Turn : Ledger → Ledger → Prop
  | root {l : Ledger} : Turn l (l.see l.store.addRoot.2)
  | extended {l : Ledger} {env : Env} {bindings : Bindings} (present : l.store.Present env) :
      Turn l (l.see (l.store.extend env bindings).2)
  | defined {l : Ledger} {d : Definition} {trail : Trail} {store : Store}
      (present : l.store.Present d.env)
      (done : defineValue l.store d.env d.name d.value = (.ok trail, store)) :
      Turn l { l.see store with grants := ⟨d, trail⟩ :: l.grants }
  | refused {l : Ledger} {d : Definition} {e : EvalError} {store : Store}
      (present : l.store.Present d.env)
      (done : defineValue l.store d.env d.name d.value = (.error e, store)) : Turn l (l.see store)
  | withdrawn {l : Ledger} {before after : List Grant} {g : Grant} {fuel : Nat} {ending : Ending}
      (held : l.grants = before ++ g :: after)
      (done : undo fuel l.store g.trail = some ending) :
      Turn l { l.see ending.store with grants := before ++ after }

/-- Operations one after the other. -/
inductive Turns (first : Ledger) : Ledger → Prop
  | none : Turns first first
  | more {l l' : Ledger} (before : Turns first l) (turn : Turn l l') : Turns first l'

/-- The trail of a grant takes its definition back. At a root it does nothing. -/
def Grant.Valid (g : Grant) (s : Store) : Prop :=
  s.Knows g.made.env ∧ g.trail = .undo g.made.name g.made.env :: falseTrail ∨
    g.made.env.isRoot ∧ g.trail = falseTrail

/-- Every frame has the bindings that it was made with and those of the grants that were not used,
and the grants that were not used can be used. -/
structure Exact (l : Ledger) : Prop where
  /-- The frames are as they should be. -/
  frames env : l.store.frame? env = l.frame? env
  /-- A frame was made with the bindings that it was given. -/
  made env first (h : l.origin env = some first) :
    ∃ inside bindings, first = Store.newFrame inside bindings
  /-- No frame binds a name twice. -/
  names env frame (h : l.store.frame? env = some frame) : (frame.bindings.map (·.1)).Nodup
  /-- The grants that were not used can be used. -/
  valid g (h : g ∈ l.grants) : g.Valid l.store

variable {l l' : Ledger} {g : Grant} {env : Env} {first : Frame}

theorem Grant.Valid.mono {s t : Store} (h : g.Valid s) (keeps : s.Knows g.made.env →
    t.Knows g.made.env) : g.Valid t :=
  h.imp_left (And.imp_left keeps)

/-- A trail sets the name of its definition free, and gives `false`. -/
theorem Grant.Valid.undo {s : Store} {fuel : Nat} {ending : Ending} (h : g.Valid s)
    (done : Machine.undo fuel s g.trail = some ending) :
    ending.value = .ok (.bool false) ∧ ending.store = s.unbind g.made.env g.made.name := by
  obtain ⟨_, trail⟩ | ⟨root, trail⟩ := h
  · rw [trail] at done
    rcases fuel with _ | _ | fuel
    · cases done
    · cases done
    · obtain rfl := Option.some.inj ((undo_definition (by omega)).symm.trans done)
      exact ⟨rfl, rfl⟩
  · rw [trail] at done
    rcases fuel with _ | fuel
    · cases done
    · obtain rfl := Option.some.inj ((undo_falseTrail (by omega)).symm.trans done)
      exact ⟨rfl, (unbind_root root).symm⟩

theorem Grant.Valid.ends {s : Store} {fuel : Nat} (h : g.Valid s) (enough : 2 ≤ fuel) :
    ∃ ending, Machine.undo fuel s g.trail = some ending := by
  obtain ⟨_, trail⟩ | ⟨_, trail⟩ := h
  · exact ⟨_, trail ▸ undo_definition enough⟩
  · exact ⟨_, trail ▸ undo_falseTrail (by omega)⟩

/-! ### One turn -/

theorem Ledger.see_origin {store : Store} (h : l.origin env = some first) :
    (l.see store).origin env = some first := by
  show (l.origin env).or _ = _
  rw [h, Option.some_or]

namespace Exact

theorem origin_eq_none (h : Exact l) : l.origin env = none ↔ l.store.frame? env = none := by
  rw [h.frames env, Ledger.frame?, Option.map_eq_none_iff]

/-- Where no frame is new, all frames keep what is known of them. -/
theorem see_origin (h : Exact l) {store : Store}
    (absent : ∀ env, l.store.frame? env = none → store.frame? env = none) :
    (l.see store).origin = l.origin := by
  funext env
  show (l.origin env).or (store.frame? env) = _
  cases known : l.origin env with
  | some first => rw [Option.some_or]
  | none => rw [Option.none_or, absent env (h.origin_eq_none.mp known)]

/-- Operations after which all frames are the same. -/
theorem of_same (h : Exact l) {store : Store}
    (same : ∀ env, store.frame? env = l.store.frame? env) :
    Exact (l.see store) := by
  have origin := h.see_origin fun env absent => (same env).trans absent
  have knows : ∀ {env}, l.store.Knows env → store.Knows env :=
    fun ⟨frame, found⟩ => ⟨frame, (same _).trans found⟩
  constructor
  case frames =>
    intro env
    rw [Ledger.frame?, origin]
    exact (same env).trans (h.frames env)
  case made =>
    rw [origin]
    exact h.made
  case names => exact fun env frame found => h.names env frame ((same env).symm.trans found)
  case valid => exact fun g member => (h.valid g member).mono knows

/-- No definition is in a frame that is not there. -/
theorem madeIn_eq_nil (h : Exact l) (absent : l.store.frame? env = none) (inner : ¬env.isRoot) :
    madeIn env (l.grants.map (·.made)) = [] := by
  refine Retrace.madeIn_eq_nil fun d member same => ?_
  obtain ⟨g, inside, rfl⟩ := List.mem_map.mp member
  rw [← same] at absent inner
  obtain ⟨⟨frame, found⟩, _⟩ | ⟨root, _⟩ := h.valid g inside
  · exact absurd (absent.symm.trans found) (by simp)
  · exact inner root

/-- A new frame has the bindings that it was given, each name once. -/
theorem extended (h : Exact l) {bindings : Bindings} :
    Exact (l.see (l.store.extend env bindings).2) := by
  have keeps : l.store ≤ (l.store.extend env bindings).2 := Store.le_extend bindings
  have unknown : ∀ {e}, l.origin e = none →
      (l.see (l.store.extend env bindings).2).origin e = (l.store.extend env bindings).2.frame? e :=
    fun absent => by
      show (l.origin _).or _ = _
      rw [absent, Option.none_or]
  constructor
  case frames =>
    intro e
    rw [Ledger.frame?]
    cases known : l.origin e with
    | some first =>
      rw [Ledger.see_origin known]
      exact keeps e _ (by rw [h.frames e, Ledger.frame?, known]; rfl)
    | none =>
      have absent := h.origin_eq_none.mp known
      rw [unknown known]
      show (l.store.extend env bindings).2.frame? e = _
      rw [Store.frame?_extend]
      split
      · next new =>
        have inner : ¬e.isRoot := by rw [new.1]; exact Bool.false_ne_true
        have none_made :
            madeIn e ((l.see (l.store.extend env bindings).2).grants.map (·.made)) = [] :=
          h.madeIn_eq_nil absent inner
        rw [none_made]
        rfl
      · rw [absent]
        rfl
  case made =>
    intro e first present
    cases known : l.origin e with
    | some first' =>
      rw [Ledger.see_origin known] at present
      exact h.made e first (known.trans present)
    | none =>
      rw [unknown known, Store.frame?_extend] at present
      split at present
      · exact ⟨env, bindings, (Option.some.inj present).symm⟩
      · rw [h.origin_eq_none.mp known] at present
        cases present
  case names =>
    intro e frame found
    have found : (l.store.extend env bindings).2.frame? e = some frame := found
    rw [Store.frame?_extend] at found
    split at found
    · obtain rfl := Option.some.inj found
      exact Bindings.nodup_foldl_put List.nodup_nil
    · exact h.names e frame found
  case valid => exact fun g member => (h.valid g member).mono fun known => known.of_le keeps

/-- A definition of a name that is free. -/
theorem defined (h : Exact l) {d : Definition} {frame : Frame}
    (here : l.store.frame? d.env = some frame) (free : frame.bindings.lookup d.name = none) :
    Exact { l.see (l.store.bind d.env d.name d.value) with
      grants := ⟨d, .undo d.name d.env :: falseTrail⟩ :: l.grants } := by
  have origin : (l.see (l.store.bind d.env d.name d.value)).origin = l.origin :=
    h.see_origin fun env absent => by
      rw [Store.frame?_bind, absent]
      split <;> rfl
  have knows : ∀ {env}, l.store.Knows env → (l.store.bind d.env d.name d.value).Knows env :=
    (Store.knows_update _).mpr
  constructor
  case frames =>
    intro env
    rw [Ledger.frame?]
    simp only [origin]
    show (l.store.bind d.env d.name d.value).frame? env = _
    rw [Store.frame?_bind, List.map_cons, madeIn_cons]
    by_cases at_home : env = d.env
    · -- the name is free, so it is bound in front of the other bindings
      subst at_home
      rw [if_pos rfl, if_pos rfl, here, Option.map_some, Bindings.put_of_free _ free]
      rw [h.frames, Ledger.frame?] at here
      obtain ⟨first, known, rfl⟩ := Option.map_eq_some_iff.mp here
      rw [known]
      rfl
    · rw [if_neg at_home, if_neg (Ne.symm at_home)]
      exact h.frames env
  case made =>
    simp only [origin]
    exact h.made
  case names =>
    intro env frame found
    have found : (l.store.bind d.env d.name d.value).frame? env = some frame := found
    rw [Store.frame?_bind] at found
    split at found
    · obtain ⟨frame', found', rfl⟩ := Option.map_eq_some_iff.mp found
      exact Bindings.nodup_put (h.names env frame' found')
    · exact h.names env frame found
  case valid =>
    intro g member
    rcases List.mem_cons.mp member with rfl | member
    · exact .inl ⟨knows ⟨frame, here⟩, rfl⟩
    · exact (h.valid g member).mono knows

/-- A definition at a root. -/
theorem defined_root (h : Exact l) {d : Definition} (root : d.env.isRoot) :
    Exact { l.see l.store with grants := ⟨d, falseTrail⟩ :: l.grants } := by
  have origin : (l.see l.store).origin = l.origin := h.see_origin fun _ absent => absent
  constructor
  case frames =>
    intro env
    rw [Ledger.frame?]
    simp only [origin]
    show l.store.frame? env = _
    rw [List.map_cons, madeIn_cons]
    by_cases at_home : d.env = env
    · -- a root has no frame
      subst at_home
      have absent := Store.frame?_root (s := l.store) root
      rw [absent, h.origin_eq_none.mpr absent]
      rfl
    · rw [if_neg at_home]
      exact h.frames env
  case made =>
    simp only [origin]
    exact h.made
  case names => exact h.names
  case valid =>
    intro g member
    rcases List.mem_cons.mp member with rfl | member
    · exact .inr ⟨root, rfl⟩
    · exact h.valid g member

/-- The frame of a grant that was not used binds its name to its value. -/
theorem frame_split (h : Exact l) {before after : List Grant} {frame : Frame}
    (held : l.grants = before ++ g :: after) (here : l.store.frame? g.made.env = some frame) :
    ∃ first, l.origin g.made.env = some first ∧ frame =
      { first with bindings := madeIn g.made.env (before.map (·.made)) ++
        (g.made.name, g.made.value) ::
          (madeIn g.made.env (after.map (·.made)) ++ first.bindings) } := by
  rw [h.frames, Ledger.frame?] at here
  obtain ⟨first, known, rfl⟩ := Option.map_eq_some_iff.mp here
  refine ⟨first, known, ?_⟩
  rw [held, List.map_append, List.map_cons, madeIn_append, madeIn_cons, if_pos rfl,
    List.append_assoc, List.cons_append]

/-- A definition that is taken back. -/
theorem withdrawn (h : Exact l) {before after : List Grant}
    (held : l.grants = before ++ g :: after) :
    Exact { l.see (l.store.unbind g.made.env g.made.name) with grants := before ++ after } := by
  have origin : (l.see (l.store.unbind g.made.env g.made.name)).origin = l.origin :=
    h.see_origin fun env absent => by
      rw [Store.frame?_unbind, absent]
      split <;> rfl
  constructor
  case frames =>
    intro env
    rw [Ledger.frame?]
    simp only [origin]
    show (l.store.unbind g.made.env g.made.name).frame? env = _
    rw [Store.frame?_unbind, List.map_append, madeIn_append]
    by_cases at_home : env = g.made.env
    · subst at_home
      rw [if_pos rfl]
      cases here : l.store.frame? g.made.env with
      | none =>
        rw [h.origin_eq_none.mpr here]
        rfl
      | some frame =>
        obtain ⟨first, known, same⟩ := h.frame_split held here
        have names := h.names _ frame here
        subst same
        rw [known, Option.map_some, Option.map_some, Bindings.remove_middle names,
          List.append_assoc]
    · rw [if_neg at_home, h.frames, Ledger.frame?, held, List.map_append, List.map_cons,
        madeIn_append, madeIn_cons, if_neg (Ne.symm at_home)]
  case made =>
    simp only [origin]
    exact h.made
  case names =>
    intro env frame found
    have found : (l.store.unbind g.made.env g.made.name).frame? env = some frame := found
    rw [Store.frame?_unbind] at found
    split at found
    · obtain ⟨frame', found', rfl⟩ := Option.map_eq_some_iff.mp found
      exact Bindings.nodup_remove (h.names env frame' found')
    · exact h.names env frame found
  case valid =>
    intro g' member
    refine (h.valid g' ?_).mono (Store.knows_update _).mpr
    rw [held]
    rcases List.mem_append.mp member with member | member
    · exact List.mem_append_left _ member
    · exact List.mem_append_right _ (.tail _ member)

/-- **A turn keeps a ledger exact.** -/
theorem turn (h : Exact l) (turn : Turn l l') : Exact l' := by
  cases turn with
  | root => exact h.of_same fun _ => Store.frame?_addRoot
  | extended => exact h.extended
  | @defined d trail store present done =>
    obtain ⟨absent, made⟩ | ⟨frame, here, ⟨free, made⟩ | ⟨_, made⟩⟩ :=
      defineValue_cases l.store d.env d.name d.value
    · obtain ⟨same, rfl⟩ := Prod.mk.inj (made.symm.trans done)
      obtain rfl := Except.ok.inj same
      obtain ⟨frame, found⟩ | ⟨root, _⟩ := present
      · exact absurd (absent.symm.trans found) (by simp)
      · exact h.defined_root root
    · obtain ⟨same, rfl⟩ := Prod.mk.inj (made.symm.trans done)
      obtain rfl := Except.ok.inj same
      exact h.defined here free
    · exact nomatch (Prod.mk.inj (made.symm.trans done)).1
  | @refused d e store present done =>
    obtain ⟨_, made⟩ | ⟨frame, _, ⟨_, made⟩ | ⟨_, made⟩⟩ :=
      defineValue_cases l.store d.env d.name d.value
    · exact nomatch (Prod.mk.inj (made.symm.trans done)).1
    · exact nomatch (Prod.mk.inj (made.symm.trans done)).1
    · obtain rfl := (Prod.mk.inj (made.symm.trans done)).2
      exact h.of_same fun _ => rfl
  | @withdrawn before after g fuel ending held done =>
    have valid := h.valid g (by rw [held]; exact List.mem_append_right _ (.head _))
    rw [(valid.undo done).2]
    exact h.withdrawn held

end Exact

/-! ### Many turns -/

theorem exact_start : Exact .start where
  frames _ := Store.frame?_empty
  made _ _ h := nomatch h
  names env frame h := by
    rw [show Ledger.start.store.frame? env = none from Store.frame?_empty] at h
    cases h
  valid _ member := nomatch member

/-- **Every ledger is exact.** -/
theorem exact_of_turns (turns : Turns .start l) : Exact l := by
  induction turns with
  | none => exact exact_start
  | more _ turn ih => exact ih.turn turn

/-- What is known of a frame stays known. -/
theorem origin_of_turns (turns : Turns l l') (h : l.origin env = some first) :
    l'.origin env = some first := by
  induction turns with
  | none => exact h
  | more _ turn ih => cases turn <;> exact Ledger.see_origin ih

/-- **Definitions are taken back exactly, in any order.** After any number of new trees, new frames,
definitions and withdrawals, in which no definition is taken back twice: every frame has the
bindings that it was made with and one for each definition in it that was not taken back. A
definition is an error that changes nothing if its name is among those of its frame, and otherwise
it is made. To take a definition back gives `false`, and removes its binding and no other. When all
definitions since some point were taken back, in whatever order, the frames are as they were. -/
theorem withdrawals_are_exact (turns : Turns .start l) :
    Exact l ∧
    (∀ env name value,
      (∃ frame, l.frame? env = some frame ∧ name ∈ frame.bindings.map (·.1)) ∧
          defineValue l.store env name value = (.error (.symbolAlreadyDefined name), l.store) ∨
        (¬∃ frame, l.frame? env = some frame ∧ name ∈ frame.bindings.map (·.1)) ∧
          ∃ trail store, defineValue l.store env name value = (.ok trail, store)) ∧
    (∀ before g after, l.grants = before ++ g :: after → ∀ fuel, 2 ≤ fuel →
      ∃ ending, undo fuel l.store g.trail = some ending ∧ ending.value = .ok (.bool false) ∧
        (∀ env, env ≠ g.made.env → ending.store.frame? env = l.store.frame? env) ∧
        ∀ frame, l.store.frame? g.made.env = some frame → ∃ front back,
          frame.bindings = front ++ (g.made.name, g.made.value) :: back ∧
            ending.store.frame? g.made.env = some { frame with bindings := front ++ back }) ∧
    (∀ l', Turns l l' → l'.grants = l.grants → ∀ env frame, l.store.frame? env = some frame →
      l'.store.frame? env = some frame) := by
  have exact_here := exact_of_turns turns
  refine ⟨exact_here, fun env name value => ?_, fun before g after held fuel enough => ?_,
    fun l' further same env frame here => ?_⟩
  · rw [← exact_here.frames]
    obtain ⟨absent, made⟩ | ⟨frame, here, ⟨free, made⟩ | ⟨bound, made⟩⟩ :=
      defineValue_cases l.store env name value
    · refine .inr ⟨?_, _, _, made⟩
      rintro ⟨frame, found, _⟩
      exact absurd (absent.symm.trans found) (by simp)
    · refine .inr ⟨?_, _, _, made⟩
      rintro ⟨frame', found, bound⟩
      obtain rfl := Option.some.inj (here.symm.trans found)
      exact Bindings.lookup_eq_none_iff_notMem.mp free bound
    · refine .inl ⟨⟨frame, here, ?_⟩, made⟩
      by_contra absent
      exact bound (Bindings.lookup_eq_none_iff_notMem.mpr absent)
  · have valid := exact_here.valid g (by rw [held]; exact List.mem_append_right _ (.head _))
    obtain ⟨ending, done⟩ := valid.ends enough
    obtain ⟨value, store⟩ := valid.undo done
    refine ⟨ending, done, value, fun env other => ?_, fun frame here => ?_⟩
    · rw [store, Store.frame?_unbind, if_neg other]
    · obtain ⟨first, _, rfl⟩ := exact_here.frame_split held here
      refine ⟨_, _, rfl, ?_⟩
      rw [store, Store.frame?_unbind, if_pos rfl, here, Option.map_some,
        Bindings.remove_middle (exact_here.names _ _ here)]
  · -- the frame was known already, and the same definitions are in it
    have further_exact : Exact l' := by
      clear same here
      induction further with
      | none => exact exact_here
      | more _ turn ih => exact ih.turn turn
    rw [exact_here.frames, Ledger.frame?, Option.map_eq_some_iff] at here
    obtain ⟨first, known, rfl⟩ := here
    rw [further_exact.frames, Ledger.frame?, origin_of_turns further known, same]
    rfl

/-- Two names are defined in a frame and taken back in the order in which they were defined. The
frame is as it was. -/
theorem withdrawals_in_order_of_definition :
    ∃ l l' : Ledger, Turns .start l ∧ l.store.frame? ⟨0, 1⟩ = some ⟨0, [("z", .int 0)]⟩ ∧
      (∃ between, Turns l between ∧ between.grants.map (·.made.name) = ["y", "x"]) ∧
      Turns l l' ∧ l'.grants = l.grants ∧
      l'.store.frame? ⟨0, 1⟩ = some ⟨0, [("z", .int 0)]⟩ := by
  let env : Env := ⟨0, 1⟩
  let x : Grant := ⟨⟨env, "x", .int 1⟩, .undo "x" env :: falseTrail⟩
  let y : Grant := ⟨⟨env, "y", .int 2⟩, .undo "y" env :: falseTrail⟩
  let tree := Ledger.start.see Store.empty.addRoot.2
  let l := tree.see (tree.store.extend ⟨0, 0⟩ [("z", .int 0)]).2
  let l₁ : Ledger := { l.see (l.store.bind env "x" (.int 1)) with grants := [x] }
  let l₂ : Ledger := { l₁.see (l₁.store.bind env "y" (.int 2)) with grants := [y, x] }
  let l₃ : Ledger := { l₂.see (l₂.store.unbind env "x") with grants := [y] }
  let l₄ : Ledger := { l₃.see (l₃.store.unbind env "y") with grants := [] }
  have made : Turns .start l := .more (.more .none .root) (.extended (.inr ⟨rfl, by decide⟩))
  have both : Turns l l₂ := .more (.more .none (.defined (d := x.made) (.inl ⟨_, rfl⟩) rfl))
    (.defined (d := y.made) (.inl ⟨_, rfl⟩) rfl)
  have first : Turn l₂ l₃ := @Turn.withdrawn l₂ [y] [] x 2 ⟨_, _, _⟩ rfl rfl
  have second : Turn l₃ l₄ := @Turn.withdrawn l₃ [] [] y 2 ⟨_, _, _⟩ rfl rfl
  have here : l.store.frame? env = some ⟨0, [("z", .int 0)]⟩ := rfl
  have neither : Turns l l₄ := .more (.more both first) second
  obtain ⟨_, _, _, restored⟩ := withdrawals_are_exact made
  exact ⟨l, l₄, made, here, ⟨l₂, both, rfl⟩, neither, rfl, restored l₄ neither rfl env _ here⟩

end Machine

end Retrace
