/-
The functions inside values.

* `Value.Each` — a property of every function that a value holds.
* `Value.mapped` — a value with every function in it changed.
* **`Primitive.apply_each`** — what primitives make has the functions that they are given.
* **`Primitive.apply_mapped`** — primitives come to the same with functions that are changed,
  as long as these keep their identity and their parameters.
* `Store.Each` — a property of every function that is bound in a store.

Design notes: a primitive takes values apart and puts them together, and compares and shows
functions by their identity and their parameters. Their bodies and environments are not seen
by any primitive. What is said here is all that is needed to change them, or to keep track
of them.
-/
import Retrace.Proofs.Scope.Frames
import Retrace.Value.Primitive

namespace Retrace

/-! ### A property of every function -/

namespace Value

mutual

/-- Every function that a value holds has a property. -/
def Each (P : Closure → Prop) : Value → Prop
  | list items => EachAll P items
  | closure c => P c
  | int _ | str _ | bool _ | symbol _ | primitive _ => True

/-- Every function that values hold has a property. -/
def EachAll (P : Closure → Prop) : List Value → Prop
  | [] => True
  | value :: values => value.Each P ∧ EachAll P values

end

variable {P Q : Closure → Prop}

theorem eachAll_iff {values : List Value} :
    EachAll P values ↔ ∀ value ∈ values, value.Each P := by
  induction values with
  | nil => simp [EachAll]
  | cons value values ih => rw [EachAll, ih, List.forall_mem_cons]

theorem each_ofLiteral (literal : Literal) : (ofLiteral literal).Each P := by
  cases literal with
  | int | str | bool | symbol => trivial

mutual

theorem Each.mono (le : ∀ c, P c → Q c) {value : Value} (h : value.Each P) : value.Each Q := by
  cases value with
  | list items => exact EachAll.mono le h
  | closure c => exact le c h
  | int | str | bool | symbol | primitive => trivial

theorem EachAll.mono (le : ∀ c, P c → Q c) {values : List Value} (h : EachAll P values) :
    EachAll Q values := by
  match values, h with
  | [], _ => trivial
  | _ :: _, ⟨here, others⟩ => exact ⟨Each.mono le here, EachAll.mono le others⟩

end

end Value

/-- Every function that is bound has a property. -/
def Bindings.Each (P : Closure → Prop) (bindings : Bindings) : Prop :=
  ∀ binding ∈ bindings, binding.2.Each P

/-- Every function that is bound in a frame of a store has a property. -/
def Store.Each (P : Closure → Prop) (s : Store) : Prop :=
  ∀ env frame, s.frame? env = some frame → frame.bindings.Each P

namespace Bindings.Each

variable {P : Closure → Prop} {bindings : Bindings} {name : String} {value : Value}

theorem put (h : bindings.Each P) (here : value.Each P) : (bindings.put name value).Each P :=
  forall_put h here

theorem remove (h : bindings.Each P) : (bindings.remove name).Each P :=
  forall_remove h

theorem lookup (h : bindings.Each P) (found : bindings.lookup name = some value) :
    value.Each P := by
  obtain ⟨front, back, split, _⟩ := List.lookup_eq_some_iff.mp found
  exact h (name, value) (by simp [split])

/-- A new frame has the values that it is made with. -/
theorem foldl_put {made : Bindings} (h : bindings.Each P) (start : made.Each P) :
    Bindings.Each P (bindings.foldl (fun bs (name, value) => bs.put name value) made) :=
  forall_foldl_put h start

end Bindings.Each

namespace Store.Each

variable {P Q : Closure → Prop} {s : Store} {env : Env} {name : String} {value : Value}

theorem mono (le : ∀ c, P c → Q c) (h : s.Each P) : s.Each Q :=
  fun env frame found binding member => (h env frame found binding member).mono le

theorem bind (h : s.Each P) (here : value.Each P) : (s.bind env name value).Each P := by
  intro e frame found
  rw [frame?_bind] at found
  split at found
  · obtain ⟨frame', found', rfl⟩ := Option.map_eq_some_iff.mp found
    exact (h e frame' found').put here
  · exact h e frame found

theorem unbind (h : s.Each P) : (s.unbind env name).Each P := by
  intro e frame found
  rw [frame?_unbind] at found
  split at found
  · obtain ⟨frame', found', rfl⟩ := Option.map_eq_some_iff.mp found
    exact (h e frame' found').remove
  · exact h e frame found

theorem extend {bindings : Bindings} (h : s.Each P) (here : bindings.Each P) :
    (s.extend env bindings).2.Each P := by
  intro e frame found
  rw [frame?_extend] at found
  split at found
  · obtain rfl := Option.some.inj found
    exact here.foldl_put nofun
  · exact h e frame found

end Store.Each

/-! ### What primitives make -/

/-- Errors that programs make themselves. A malformed special form is none, and neither is a fault
that someone else found. -/
def EvalError.Ordinary : EvalError → Prop
  | .type (.malformed _) | .type (.stated _) => False
  | _ => True

/-- A result of which something holds, or an ordinary error. -/
def Results {α : Type} (P : α → Prop) (result : Except EvalError α) : Prop :=
  match result with
  | .ok a => P a
  | .error e => e.Ordinary

theorem Results.bind {α β : Type} {P : α → Prop} {Q : β → Prop} {result : Except EvalError α}
    {f : α → Except EvalError β} (first : Results P result) (second : ∀ a, P a → Results Q (f a)) :
    Results Q (result >>= f) := by
  cases result with
  | ok a => exact second a first
  | error e => exact first

namespace Value

variable {P : Closure → Prop} (value : Value)

theorem asInt_results : Results (fun _ => True) value.asInt := by
  cases value <;> trivial

theorem asBool_results : Results (fun _ => True) value.asBool := by
  cases value <;> trivial

theorem asDivisor_results : Results (fun _ => True) value.asDivisor := by
  refine value.asInt_results.bind fun n _ => ?_
  split <;> trivial

theorem asList_results {value : Value} (h : value.Each P) :
    Results (∀ item ∈ ·, item.Each P) value.asList := by
  cases value with
  | list items => exact eachAll_iff.mp h
  | int | str | bool | symbol | closure | primitive => trivial

end Value

namespace Primitive

variable {P : Closure → Prop} {a b : Value}

theorem arithmetic_results (op : Int64 → Int64 → Int64) :
    Results (Value.Each P) (arithmetic op a b) :=
  a.asInt_results.bind fun _ _ => b.asInt_results.bind fun _ _ => trivial

theorem comparison_results (op : Int64 → Int64 → Bool) :
    Results (Value.Each P) (comparison op a b) :=
  a.asInt_results.bind fun _ _ => b.asInt_results.bind fun _ _ => trivial

theorem division_results (op : Int64 → Int64 → Int64) :
    Results (Value.Each P) (division op a b) := by
  refine a.asInt_results.bind fun x _ => b.asDivisor_results.bind fun y _ => ?_
  split <;> trivial

theorem applyTwo_each (p : Primitive) (first : a.Each P) (second : b.Each P) :
    Results (Value.Each P) (p.applyTwo a b) := by
  cases p with
  | add | sub | mul => exact arithmetic_results _
  | div | mod => exact division_results _
  | lt | gt | le | ge => exact comparison_results _
  | eq | ne => trivial
  | cons =>
    refine (Value.asList_results second).bind fun items all => ?_
    exact ⟨first, Value.eachAll_iff.mpr all⟩
  | append =>
    refine (Value.asList_results first).bind fun front inFront => ?_
    refine (Value.asList_results second).bind fun back behind => ?_
    exact Value.eachAll_iff.mpr (List.forall_mem_append.mpr ⟨inFront, behind⟩)
  | xor => exact a.asBool_results.bind fun _ _ => b.asBool_results.bind fun _ _ => trivial
  | not | head | tail | length => trivial

/-- **What a primitive makes has the functions that it is given**, and its errors are ordinary. -/
theorem apply_each (p : Primitive) {args : List Value} (h : ∀ arg ∈ args, arg.Each P) :
    Results (Value.Each P) (p.apply args) := by
  unfold apply
  split
  · exact (Value.asInt_results _).bind fun _ _ => trivial
  · exact (Value.asBool_results _).bind fun _ _ => trivial
  · refine (Value.asList_results (h _ (.head _))).bind fun items all => ?_
    split
    · trivial
    · exact all _ (.head _)
  · refine (Value.asList_results (h _ (.head _))).bind fun items all => ?_
    split
    · trivial
    · exact Value.eachAll_iff.mpr fun item member => all item (.tail _ member)
  · exact (Value.asList_results (h _ (.head _))).bind fun _ _ => trivial
  · exact applyTwo_each p (h _ (.head _)) (h _ (.tail _ (.head _)))
  · trivial

end Primitive

/-! ### Changing functions -/

/-- Changes that are not seen: functions keep their identity and their parameters. -/
structure Closure.Unseen (g : Closure → Closure) : Prop where
  identity c : (g c).identity = c.identity
  params c : (g c).params = c.params

namespace Value

mutual

/-- A value with every function in it changed. -/
def mapped (g : Closure → Closure) : Value → Value
  | closure c => closure (g c)
  | list items => list (mappedAll g items)
  | int n => int n
  | str s => str s
  | bool b => bool b
  | symbol name => symbol name
  | primitive p => primitive p

/-- Values with every function in them changed. -/
def mappedAll (g : Closure → Closure) : List Value → List Value
  | [] => []
  | value :: values => value.mapped g :: mappedAll g values

end

variable {g : Closure → Closure} (a b : Value)

theorem mappedAll_eq_map (values : List Value) : mappedAll g values = values.map (mapped g) := by
  induction values with
  | nil => rfl
  | cons value values ih => rw [mappedAll, ih, List.map_cons]

mutual

/-- Programs do not see the change. -/
theorem same_mapped (unseen : Closure.Unseen g) (a b : Value) :
    (a.mapped g).same (b.mapped g) = a.same b := by
  cases a with
  | list as =>
    cases b with
    | list bs => exact sameList_mappedAll unseen as bs
    | int | str | bool | symbol | closure | primitive => rfl
  | closure c =>
    cases b with
    | closure d => rw [mapped, mapped, same, same, unseen.identity, unseen.identity]
    | int | str | bool | symbol | list | primitive => rfl
  | int | str | bool | symbol | primitive => cases b <;> rfl

theorem sameList_mappedAll (unseen : Closure.Unseen g) (as bs : List Value) :
    sameList (mappedAll g as) (mappedAll g bs) = sameList as bs := by
  match as, bs with
  | [], [] | [], _ :: _ | _ :: _, [] => rfl
  | a :: as, b :: bs =>
    rw [mappedAll, mappedAll, sameList, sameList, same_mapped unseen a b,
      sameList_mappedAll unseen as bs]

end

mutual

/-- The change is not shown. -/
theorem text_mapped (unseen : Closure.Unseen g) (a : Value) : (a.mapped g).text = a.text := by
  cases a with
  | list items => rw [mapped, text, text, joined_mappedAll unseen items]
  | closure c => rw [mapped, text, text, unseen.params]
  | int | str | bool | symbol | primitive => rfl

theorem joined_mappedAll (unseen : Closure.Unseen g) (values : List Value) :
    joined (mappedAll g values) = joined values := by
  match values with
  | [] => rfl
  | [value] => exact text_mapped unseen value
  | value :: next :: values =>
    have others := joined_mappedAll unseen (next :: values)
    rw [mappedAll] at others
    rw [mappedAll, mappedAll, joined, joined, text_mapped unseen value, others]

end

theorem asInt_mapped : (a.mapped g).asInt = a.asInt := by
  cases a <;> rfl

theorem asBool_mapped : (a.mapped g).asBool = a.asBool := by
  cases a <;> rfl

theorem asDivisor_mapped : (a.mapped g).asDivisor = a.asDivisor := by
  rw [asDivisor, asDivisor, asInt_mapped]

theorem asList_mapped : (a.mapped g).asList = a.asList.map (List.map (mapped g)) := by
  cases a with
  | list items => exact congrArg Except.ok (mappedAll_eq_map items)
  | int | str | bool | symbol | closure | primitive => rfl

end Value

namespace Primitive

open Value

variable {g : Closure → Closure} (a b : Value)

theorem arithmetic_mapped (op : Int64 → Int64 → Int64) :
    arithmetic op (a.mapped g) (b.mapped g) = (arithmetic op a b).map (mapped g) := by
  rw [arithmetic, arithmetic, asInt_mapped, asInt_mapped]
  cases a.asInt <;> cases b.asInt <;> rfl

theorem comparison_mapped (op : Int64 → Int64 → Bool) :
    comparison op (a.mapped g) (b.mapped g) = (comparison op a b).map (mapped g) := by
  rw [comparison, comparison, asInt_mapped, asInt_mapped]
  cases a.asInt <;> cases b.asInt <;> rfl

theorem division_mapped (op : Int64 → Int64 → Int64) :
    division op (a.mapped g) (b.mapped g) = (division op a b).map (mapped g) := by
  rw [division, division, asInt_mapped, asDivisor_mapped]
  cases a.asInt with
  | error e => rfl
  | ok x =>
    cases b.asDivisor with
    | error e => rfl
    | ok y =>
      show (if x = Int64.minValue ∧ y = -1 then _ else _) =
        Except.map (mapped g) (if x = Int64.minValue ∧ y = -1 then _ else _)
      split <;> rfl

theorem applyTwo_mapped (unseen : Closure.Unseen g) (p : Primitive) :
    p.applyTwo (a.mapped g) (b.mapped g) = (p.applyTwo a b).map (mapped g) := by
  cases p with
  | add | sub | mul => exact arithmetic_mapped a b _
  | div | mod => exact division_mapped a b _
  | lt | gt | le | ge => exact comparison_mapped a b _
  | eq => exact congrArg (fun b => Except.ok (Value.bool b)) (same_mapped unseen a b)
  | ne => exact congrArg (fun b => Except.ok (Value.bool !b)) (same_mapped unseen a b)
  | cons =>
    simp only [applyTwo, asList_mapped]
    cases b.asList with
    | error e => rfl
    | ok items =>
      exact congrArg (fun bs => Except.ok (list (a.mapped g :: bs))) (mappedAll_eq_map items).symm
  | append =>
    simp only [applyTwo, asList_mapped]
    cases a.asList with
    | error e => rfl
    | ok front =>
      cases b.asList with
      | error e => rfl
      | ok back =>
        show Except.ok (Value.list (front.map (mapped g) ++ back.map (mapped g))) =
          Except.ok (Value.list (mappedAll g (front ++ back)))
        rw [mappedAll_eq_map, List.map_append]
  | xor =>
    simp only [applyTwo, asBool_mapped]
    cases a.asBool <;> cases b.asBool <;> rfl
  | not | head | tail | length => rfl

/-- A primitive applied to one value. -/
theorem applyOne_mapped (p : Primitive) : p.apply [a.mapped g] = (p.apply [a]).map (mapped g) := by
  cases p with
  | sub =>
    simp only [apply, asInt_mapped]
    cases a.asInt <;> rfl
  | not =>
    simp only [apply, asBool_mapped]
    cases a.asBool <;> rfl
  | head =>
    simp only [apply, asList_mapped]
    cases a.asList with
    | error e => rfl
    | ok items => cases items <;> rfl
  | tail =>
    simp only [apply, asList_mapped]
    cases a.asList with
    | error e => rfl
    | ok items =>
      cases items with
      | nil => rfl
      | cons first others =>
        exact congrArg (fun values => Except.ok (list values)) (mappedAll_eq_map others).symm
  | length =>
    simp only [apply, asList_mapped]
    cases a.asList with
    | error e => rfl
    | ok items =>
      exact congrArg (fun n => Except.ok (int (Int64.ofNat n))) (List.length_map (mapped g))
  | _ => rfl

/-- **Primitives do not see the change.** -/
theorem apply_mapped (unseen : Closure.Unseen g) (p : Primitive) (args : List Value) :
    p.apply (args.map (mapped g)) = (p.apply args).map (mapped g) := by
  rcases args with _ | ⟨a, _ | ⟨b, _ | ⟨c, args⟩⟩⟩
  · cases p <;> rfl
  · exact applyOne_mapped a p
  · have two : ∀ a b, p.apply [a, b] = p.applyTwo a b := fun a b => by cases p <;> rfl
    exact (two _ _).trans
      ((applyTwo_mapped a b unseen p).trans (congrArg (Except.map (mapped g)) (two a b).symm))
  · have none : ∀ a b c args, p.apply (a :: b :: c :: args) =
        .error (.arity p.name p.arity (args.length + 3)) := fun a b c args => by cases p <;> rfl
    rw [List.map_cons, List.map_cons, List.map_cons, none, none, List.length_map]
    rfl

end Primitive

/-! ### Changing bindings -/

/-- Bindings with every function in them changed. -/
def Bindings.mapped (g : Closure → Closure) (bindings : Bindings) : Bindings :=
  bindings.map fun (name, value) => (name, value.mapped g)

namespace Bindings

variable {g : Closure → Closure} {bindings : Bindings} {name : String} {value : Value}

theorem lookup_mapped :
    (bindings.mapped g).lookup name = (bindings.lookup name).map (Value.mapped g) := by
  induction bindings with
  | nil => rfl
  | cons binding bindings ih =>
    obtain ⟨name', value⟩ := binding
    show List.lookup name ((name', value.mapped g) :: Bindings.mapped g bindings) = _
    rw [List.lookup_cons, List.lookup_cons, ih]
    cases name == name' <;> rfl

theorem remove_mapped : (bindings.mapped g).remove name = (bindings.remove name).mapped g := by
  unfold remove mapped
  rw [List.filter_map]
  rfl

theorem put_mapped :
    (bindings.mapped g).put name (value.mapped g) = (bindings.put name value).mapped g :=
  congrArg (List.cons (name, value.mapped g)) remove_mapped

theorem foldl_put_mapped (made : Bindings) :
    (bindings.mapped g).foldl (fun bs (name, value) => bs.put name value) (made.mapped g) =
      Bindings.mapped g (bindings.foldl (fun bs (name, value) => bs.put name value) made) := by
  induction bindings generalizing made with
  | nil => rfl
  | cons binding bindings ih =>
    obtain ⟨name, value⟩ := binding
    have first : (made.mapped g).put name (value.mapped g) = (made.put name value).mapped g :=
      put_mapped
    show List.foldl _ ((made.mapped g).put name (value.mapped g)) (Bindings.mapped g bindings) = _
    rw [first, ih]
    rfl

end Bindings

end Retrace
