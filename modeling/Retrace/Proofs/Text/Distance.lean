/-
The distance of two texts is the least number of edits between them.

* `Edit`, `Edits` — one character put in, taken out or replaced, and a number of such edits one
  after the other.
* `editDistance` — the distance by recursion on both texts.
* `edits_editDistance`, `Edits.editDistance_le` — there are so many edits, and no fewer.
* `IsRow`, `Filled` — a row holds the distances of the first characters of the one text to the first
  characters of the other, and while it is filled in it holds those of two such texts.
* **`distance_least`** — so the distance that is computed row by row is the least number of edits,
  and a metric.

Design notes: edits may be anywhere in a text and in any order, and the recursion knows only edits
at the front. That an edit further in changes the distance by one at most is what brings them
together. The rows grow at the end of both texts, so they are about the texts read backwards. That
this makes no difference is seen from the edits.
-/
import Mathlib
import Retrace.Text.Distance

namespace Retrace.Text

variable {as bs cs : List Char} {m n : Nat}

/-! ### Edits -/

/-- One edit: a character is put in, taken out or replaced. -/
inductive Edit : List Char → List Char → Prop
  | insert (front back : List Char) (c : Char) : Edit (front ++ back) (front ++ c :: back)
  | delete (front back : List Char) (c : Char) : Edit (front ++ c :: back) (front ++ back)
  | replace (front back : List Char) (c d : Char) :
      Edit (front ++ c :: back) (front ++ d :: back)

/-- A number of edits, one after the other. -/
inductive Edits : Nat → List Char → List Char → Prop
  | nothing {as : List Char} : Edits 0 as as
  | more {n : Nat} {as bs cs : List Char} (first : Edit as bs) (others : Edits n bs cs) :
      Edits (n + 1) as cs

theorem Edit.symm (h : Edit as bs) : Edit bs as := by
  cases h with
  | insert front back c => exact .delete front back c
  | delete front back c => exact .insert front back c
  | replace front back c d => exact .replace front back d c

/-- An edit behind a further character. -/
theorem Edit.cons (c : Char) (h : Edit as bs) : Edit (c :: as) (c :: bs) := by
  cases h with
  | insert front back d => exact .insert (c :: front) back d
  | delete front back d => exact .delete (c :: front) back d
  | replace front back d e => exact .replace (c :: front) back d e

/-- An edit of a text read backwards. -/
theorem Edit.reverse (h : Edit as bs) : Edit as.reverse bs.reverse := by
  cases h with
  | insert front back c =>
    simpa using Edit.insert back.reverse front.reverse c
  | delete front back c =>
    simpa using Edit.delete back.reverse front.reverse c
  | replace front back c d =>
    simpa using Edit.replace back.reverse front.reverse c d

theorem Edit.edits (h : Edit as bs) : Edits 1 as bs :=
  .more h .nothing

theorem Edits.trans (first : Edits m as bs) (second : Edits n bs cs) : Edits (m + n) as cs := by
  induction first with
  | nothing => rwa [Nat.zero_add]
  | more edit _ ih =>
    rw [Nat.add_right_comm]
    exact .more edit (ih second)

theorem Edits.symm (h : Edits n as bs) : Edits n bs as := by
  induction h with
  | nothing => exact .nothing
  | more edit _ ih => exact ih.trans edit.symm.edits

theorem Edits.cons (c : Char) (h : Edits n as bs) : Edits n (c :: as) (c :: bs) := by
  induction h with
  | nothing => exact .nothing
  | more edit _ ih => exact .more (edit.cons c) ih

theorem Edits.reverse (h : Edits n as bs) : Edits n as.reverse bs.reverse := by
  induction h with
  | nothing => exact .nothing
  | more edit _ ih => exact .more edit.reverse ih

theorem edits_zero_iff : Edits 0 as bs ↔ as = bs := by
  constructor
  · rintro ⟨⟩
    rfl
  · rintro rfl
    exact .nothing

/-- All characters of a text are put in. -/
theorem edits_insert (bs : List Char) : Edits bs.length [] bs := by
  induction bs with
  | nil => exact .nothing
  | cons b bs ih => exact ih.trans (Edit.insert [] bs b).edits

/-! ### The distance by recursion on both texts -/

/-- The distance of two texts: the first character of the one is taken out, or that of the other is
put in, or the one stands in the place of the other. -/
def editDistance : List Char → List Char → Nat
  | [], bs => bs.length
  | as, [] => as.length
  | a :: as, b :: bs =>
    min (min (editDistance as (b :: bs) + 1) (editDistance (a :: as) bs + 1))
      (editDistance as bs + mismatch a b)

theorem editDistance_nil (as : List Char) : editDistance as [] = as.length := by
  cases as <;> rw [editDistance]
  exact nofun

theorem editDistance_cons_cons (a b : Char) (as bs : List Char) :
    editDistance (a :: as) (b :: bs) =
      min (min (editDistance as (b :: bs) + 1) (editDistance (a :: as) bs + 1))
        (editDistance as bs + mismatch a b) := by
  rw [editDistance]

theorem editDistance_self (as : List Char) : editDistance as as = 0 := by
  induction as with
  | nil => rw [editDistance, List.length_nil]
  | cons a as ih =>
    rw [editDistance, ih, mismatch, if_pos rfl]
    omega

theorem mismatch_le (a b : Char) : mismatch a b ≤ 1 := by
  unfold mismatch
  split <;> omega

/-- **There are so many edits.** -/
theorem edits_editDistance (as bs : List Char) : Edits (editDistance as bs) as bs := by
  fun_induction editDistance as bs with
  | case1 bs => exact edits_insert bs
  | case2 as _ => exact (edits_insert as).symm
  | case3 a as b bs ih₁ ih₂ ih₃ =>
    have without : Edits (editDistance as (b :: bs) + 1) (a :: as) (b :: bs) :=
      .more (.delete [] as a) ih₁
    have put : Edits (editDistance (a :: as) bs + 1) (a :: as) (b :: bs) :=
      ih₂.trans (Edit.insert [] bs b).edits
    have instead : Edits (editDistance as bs + mismatch a b) (a :: as) (b :: bs) := by
      unfold mismatch
      split
      · next same => exact same ▸ ih₃.cons a
      · exact (ih₃.cons a).trans (Edit.replace [] bs a b).edits
    -- The distance is one of the three, so its edits are there.
    rcases min_choice (min (editDistance as (b :: bs) + 1) (editDistance (a :: as) bs + 1))
        (editDistance as bs + mismatch a b) with outer | outer
    · rw [outer]
      rcases min_choice (editDistance as (b :: bs) + 1) (editDistance (a :: as) bs + 1) with
        inner | inner
      · exact inner.symm ▸ without
      · exact inner.symm ▸ put
    · exact outer.symm ▸ instead

/-! ### An edit changes the distance by one at most -/

theorem editDistance_cons_left_le (a : Char) (as cs : List Char) :
    editDistance (a :: as) cs ≤ editDistance as cs + 1 := by
  cases cs with
  | nil => simp [editDistance_nil]
  | cons c cs =>
    rw [editDistance]
    omega

theorem editDistance_cons_right_le (c : Char) (as cs : List Char) :
    editDistance as (c :: cs) ≤ editDistance as cs + 1 := by
  cases as with
  | nil => simp [editDistance]
  | cons a as =>
    rw [editDistance]
    omega

theorem editDistance_cons_cons_le (a c : Char) (as cs : List Char) :
    editDistance (a :: as) (c :: cs) ≤ editDistance as cs + mismatch a c := by
  rw [editDistance]
  omega

/-- A character in front of the one text brings it no more than one nearer to another. -/
theorem editDistance_le_cons_left (a : Char) (as cs : List Char) :
    editDistance as cs ≤ editDistance (a :: as) cs + 1 := by
  induction cs with
  | nil => simp [editDistance_nil]; omega
  | cons c cs ih =>
    have far := editDistance_cons_right_le c as cs
    rw [editDistance]
    omega

theorem editDistance_replace_le (a b : Char) (as cs : List Char) :
    editDistance (a :: as) cs ≤ editDistance (b :: as) cs + 1 := by
  induction cs with
  | nil => simp [editDistance_nil]
  | cons c cs ih =>
    have without := editDistance_cons_left_le a as (c :: cs)
    have put := editDistance_cons_right_le c (a :: as) cs
    have instead := editDistance_cons_cons_le a c as cs
    have := mismatch_le a c
    rw [editDistance_cons_cons b]
    omega

/-- Texts that are at most one apart from every third are so behind a further character. -/
theorem editDistance_behind_le (a : Char)
    (close : ∀ cs, editDistance as cs ≤ editDistance bs cs + 1) (cs : List Char) :
    editDistance (a :: as) cs ≤ editDistance (a :: bs) cs + 1 := by
  induction cs with
  | nil => simpa [editDistance_nil] using close []
  | cons c cs ih =>
    have without := editDistance_cons_left_le a as (c :: cs)
    have put := editDistance_cons_right_le c (a :: as) cs
    have instead := editDistance_cons_cons_le a c as cs
    have := close cs
    have := close (c :: cs)
    rw [editDistance_cons_cons a c bs]
    omega

/-- So they are behind any number of characters. -/
theorem editDistance_append_le (front : List Char)
    (close : ∀ cs, editDistance as cs ≤ editDistance bs cs + 1) (cs : List Char) :
    editDistance (front ++ as) cs ≤ editDistance (front ++ bs) cs + 1 := by
  induction front generalizing cs with
  | nil => exact close cs
  | cons a front ih => exact editDistance_behind_le a ih cs

/-- **An edit changes the distance to a third text by one at most.** -/
theorem Edit.editDistance_le (h : Edit as bs) (cs : List Char) :
    editDistance as cs ≤ editDistance bs cs + 1 := by
  cases h with
  | insert front back c => exact editDistance_append_le front (editDistance_le_cons_left c back) cs
  | delete front back c => exact editDistance_append_le front (editDistance_cons_left_le c back) cs
  | replace front back c d =>
    exact editDistance_append_le front (editDistance_replace_le c d back) cs

/-- **There are no fewer edits.** -/
theorem Edits.editDistance_le (h : Edits n as bs) : editDistance as bs ≤ n := by
  induction h with
  | nothing => rw [editDistance_self]
  | more edit _ ih => exact (edit.editDistance_le _).trans (Nat.succ_le_succ ih)

theorem isLeast_editDistance (as bs : List Char) :
    IsLeast {n | Edits n as bs} (editDistance as bs) :=
  ⟨edits_editDistance as bs, fun _ h => h.editDistance_le⟩

theorem editDistance_eq_zero_iff : editDistance as bs = 0 ↔ as = bs := by
  constructor
  · intro h
    exact edits_zero_iff.mp (h ▸ edits_editDistance as bs)
  · rintro rfl
    exact editDistance_self as

theorem editDistance_comm (as bs : List Char) : editDistance as bs = editDistance bs as :=
  Nat.le_antisymm (edits_editDistance bs as).symm.editDistance_le
    (edits_editDistance as bs).symm.editDistance_le

theorem editDistance_triangle (as bs cs : List Char) :
    editDistance as cs ≤ editDistance as bs + editDistance bs cs :=
  ((edits_editDistance as bs).trans (edits_editDistance bs cs)).editDistance_le

/-- It makes no difference that both texts are read backwards. -/
theorem editDistance_reverse (as bs : List Char) :
    editDistance as.reverse bs.reverse = editDistance as bs := by
  apply Nat.le_antisymm
  · exact (edits_editDistance as bs).reverse.editDistance_le
  · simpa using (edits_editDistance as.reverse bs.reverse).reverse.editDistance_le

/-! ### The rows -/

/-- The first characters of a text, the last of them first. -/
def reversedTo (bs : Array Char) (k : Nat) : List Char :=
  (bs.toList.take k).reverse

theorem reversedTo_succ {bs : Array Char} {k : Nat} (h : k < bs.size) :
    reversedTo bs (k + 1) = bs[k] :: reversedTo bs k := by
  rw [reversedTo, List.take_succ_eq_append_getElem (by simpa using h), List.reverse_append]
  rfl

theorem length_reversedTo {bs : Array Char} {k : Nat} (h : k ≤ bs.size) :
    (reversedTo bs k).length = k := by
  simp [reversedTo, h]

variable {bs : Array Char} {row : Vector Nat (bs.size + 1)} {rs : List Char} {a : Char}
  {diagonal j : Nat}

/-- The row holds the distances of a text to the first characters of another. Both are read
backwards. -/
def IsRow (rs : List Char) (bs : Array Char) (row : Vector Nat (bs.size + 1)) : Prop :=
  ∀ k (h : k ≤ bs.size), row[k] = editDistance rs (reversedTo bs k)

/-- A row that is filled in up to the cell at `j`: there it is the row of a text with one character
more, and from there on that of the text itself. -/
structure Filled (a : Char) (rs : List Char) (bs : Array Char) (row : Vector Nat (bs.size + 1))
    (diagonal j : Nat) : Prop where
  new : ∀ k (h : k ≤ bs.size), k ≤ j → row[k] = editDistance (a :: rs) (reversedTo bs k)
  old : ∀ k (h : k ≤ bs.size), j < k → row[k] = editDistance rs (reversedTo bs k)
  kept : diagonal = editDistance rs (reversedTo bs j)

theorem IsRow.filled (is : IsRow rs bs row) (first : 0 < bs.size + 1) :
    Filled a rs bs (row.set 0 (rs.length + 1)) row[0] 0 where
  new k h upTo := by
    obtain rfl : k = 0 := Nat.le_zero.mp upTo
    simp [reversedTo, editDistance_nil]
  old k h later := by
    rw [Vector.getElem_set_ne (by omega) (by omega) (by omega)]
    exact is k h
  kept := is 0 (Nat.zero_le _)

/-- The next cell is filled in with the least of the three. -/
theorem Filled.next (filled : Filled a rs bs row diagonal j) (h : j < bs.size)
    (here : j < bs.size + 1) (next : j + 1 < bs.size + 1) :
    Filled a rs bs
      (row.set (j + 1) (min (min (row[j + 1] + 1) (row[j] + 1)) (diagonal + mismatch a bs[j])))
      row[j + 1] (j + 1) where
  new k hk upTo := by
    rcases Nat.lt_or_eq_of_le upTo with before | rfl
    · rw [Vector.getElem_set_ne (by omega) (by omega) (by omega)]
      exact filled.new k hk (Nat.le_of_lt_succ before)
    · rw [Vector.getElem_set_self, filled.old (j + 1) h (Nat.lt_succ_self j),
        filled.new j h.le (Nat.le_refl j), filled.kept, reversedTo_succ h, editDistance]
  old k hk later := by
    rw [Vector.getElem_set_ne (by omega) (by omega) (by omega)]
    exact filled.old k hk (by omega)
  kept := filled.old (j + 1) h (Nat.lt_succ_self j)

/-- A row that is filled in to its end is the row of the text with one character more. -/
theorem Filled.fillFrom (filled : Filled a rs bs row diagonal j) (h : j ≤ bs.size) :
    IsRow (a :: rs) bs (fillFrom a bs row diagonal j) := by
  fun_induction Text.fillFrom a bs row diagonal j with
  | case1 row diagonal j inside above cell ih =>
    exact ih (filled.next inside (by omega) (by omega)) inside
  | case2 row diagonal j outside =>
    intro k hk
    exact filled.new k hk (by omega)

theorem IsRow.nextRow (is : IsRow rs bs row) (a : Char) :
    IsRow (a :: rs) bs (nextRow bs row (a, rs.length)) :=
  (is.filled (Nat.succ_pos _)).fillFrom (Nat.zero_le _)

/-- The rows of the characters of a text, one after the other. -/
theorem IsRow.foldl (is : IsRow rs bs row) (as : List Char) :
    IsRow (as.reverse ++ rs) bs ((as.zipIdx rs.length).foldl (Text.nextRow bs) row) := by
  induction as generalizing rs row with
  | nil => exact is
  | cons a as ih =>
    rw [List.reverse_cons, List.append_assoc]
    exact ih (is.nextRow a)

theorem isRow_range (bs : Array Char) : IsRow [] bs (Vector.range (bs.size + 1)) := by
  intro k h
  rw [Vector.getElem_range, editDistance, length_reversedTo h]

/-- **The distance that is computed row by row is the one by recursion.** -/
theorem distance_eq_editDistance (a b : String) :
    distance a b = editDistance a.toList b.toList := by
  have last := (isRow_range b.toList.toArray).foldl a.toList _ (Nat.le_refl _)
  rw [List.append_nil, reversedTo] at last
  rw [← editDistance_reverse]
  simpa [distance] using last

/-- **The distance is the least number of edits.** One edit puts a character in, takes one out or
replaces one. It is the value of the recursion on both texts, and a metric. -/
theorem distance_least (a b : String) :
    IsLeast {n | Edits n a.toList b.toList} (distance a b) ∧
      distance a b = editDistance a.toList b.toList ∧
      (distance a b = 0 ↔ a = b) ∧
      distance a b = distance b a ∧
      ∀ c, distance a c ≤ distance a b + distance b c := by
  refine ⟨?_, distance_eq_editDistance a b, ?_, ?_, fun c => ?_⟩
  · rw [distance_eq_editDistance]
    exact isLeast_editDistance _ _
  · rw [distance_eq_editDistance, editDistance_eq_zero_iff, String.toList_inj]
  · rw [distance_eq_editDistance, distance_eq_editDistance, editDistance_comm]
  · simp only [distance_eq_editDistance]
    exact editDistance_triangle _ _ _

end Retrace.Text
