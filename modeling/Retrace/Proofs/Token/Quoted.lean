/-
Shown strings can be told apart.

* `append_class` — where a class of characters ends, a text can be cut in one way only.
* `Text.ShownAs` — what a character between quotes is shown as.
* **`ShownAs.cancel`** — what is shown in front of a text says which character it is, and
  where the text begins.
* **`quoted_cancel`** — a shown string says which string it is, and where it ends.

Design notes: what a character is shown as hangs on whether it is the first one. To tell
characters apart this is of no account, so it is left out of the relation.
-/
import Mathlib.Data.List.Forall2
import Retrace.Proofs.Token.Shown

namespace Retrace

/-- A text that does not begin with a character of a class. -/
def Outside (p : Char → Bool) (rest : List Char) : Prop :=
  ∀ c, rest.head? = some c → p c = false

section

variable {p : Char → Bool} {as bs rest rest' : List Char}

theorem takeWhile_class (inside : ∀ c ∈ as, p c) (outside : Outside p rest) :
    (as ++ rest).takeWhile p = as := by
  rw [List.takeWhile_append_of_pos inside]
  cases rest with
  | nil => rw [List.takeWhile_nil, List.append_nil]
  | cons c rest =>
    rw [List.takeWhile_cons_of_neg (Bool.eq_false_iff.mp (outside c rfl)), List.append_nil]

/-- Where a class of characters ends, a text can be cut in one way only. -/
theorem append_class (first : ∀ c ∈ as, p c) (second : ∀ c ∈ bs, p c) (outside : Outside p rest)
    (outside' : Outside p rest') (same : as ++ rest = bs ++ rest') : as = bs ∧ rest = rest' := by
  have taken := congrArg (List.takeWhile p) same
  rw [takeWhile_class first outside, takeWhile_class second outside'] at taken
  exact ⟨taken, List.append_cancel_left (taken ▸ same)⟩

end

namespace Text

variable {c d : Char} {cs ds u v x y : List Char}

/-! ### Code points -/

/-- A number is determined by its hexadecimal digits. -/
theorem toDigits_hex_inj {m n : Nat} (same : Nat.toDigits 16 m = Nat.toDigits 16 n) : m = n := by
  have digits : ∀ a < 16, ∀ b < 16, Nat.digitChar a = Nat.digitChar b → a = b := by decide
  induction m using Nat.strongRecOn generalizing n with
  | _ m ih =>
    have small : ∀ k < 16, (Nat.toDigits 16 k).length = 1 := fun k less => by
      rw [Nat.toDigits_of_lt_base less]
      rfl
    have large : ∀ k, 16 ≤ k → 1 < (Nat.toDigits 16 k).length := fun k enough => by
      have filled := List.length_pos_iff.mpr (Nat.toDigits_ne_nil (n := k / 16) (b := 16))
      rw [Nat.toDigits_of_base_le (by decide) enough, List.length_append]
      simp
      omega
    have lengths := congrArg List.length same
    by_cases less : m < 16 <;> by_cases less' : n < 16
    · rw [Nat.toDigits_of_lt_base less, Nat.toDigits_of_lt_base less'] at same
      exact digits m less n less' (List.cons.inj same).1
    · have := small m less
      have := large n (by omega)
      omega
    · have := small n less'
      have := large m (by omega)
      omega
    · rw [Nat.toDigits_of_base_le (n := m) (by decide) (by omega),
        Nat.toDigits_of_base_le (n := n) (by decide) (by omega)] at same
      obtain ⟨front, last⟩ := List.append_inj' same rfl
      have quotient := ih (m / 16) (by omega) front
      have remainder := digits _ (Nat.mod_lt m (by decide)) _ (Nat.mod_lt n (by decide))
        (List.cons.inj last).1
      omega

theorem digitChar_ne_brace (n : Nat) : Nat.digitChar n ≠ '\x7d' :=
  Nat.digitChar_ne _ (by decide)

/-- No digit is a closing brace. -/
theorem toDigits_hex_plain (n : Nat) : ∀ c ∈ Nat.toDigits 16 n, c != '\x7d' := by
  induction n using Nat.strongRecOn with
  | _ n ih =>
    intro c member
    by_cases less : n < 16
    · rw [Nat.toDigits_of_lt_base less, List.mem_singleton] at member
      exact bne_iff_ne.mpr (member ▸ digitChar_ne_brace n)
    · rw [Nat.toDigits_of_base_le (by decide) (Nat.le_of_not_lt less), List.mem_append,
        List.mem_singleton] at member
      rcases member with front | rfl
      · exact ih (n / 16) (by omega) c front
      · exact bne_iff_ne.mpr (digitChar_ne_brace _)

/-- A character written by its code point can be told apart from others that are. -/
theorem codePoint_cancel (same : codePoint c ++ x = codePoint d ++ y) : c = d ∧ x = y := by
  simp only [codePoint, List.append_assoc, List.cons_append, List.nil_append, List.cons.injEq,
    true_and] at same
  have brace : ∀ z, Outside (· != '\x7d') ('\x7d' :: z) := by
    rintro z _ ⟨⟩
    rfl
  obtain ⟨digits, behind⟩ := append_class (toDigits_hex_plain _) (toDigits_hex_plain _) (brace x)
    (brace y) same
  exact ⟨Char.toNat_inj.mp (toDigits_hex_inj digits), (List.cons.inj behind).2⟩

/-! ### Characters between quotes -/

/-- The character that a letter stands for after a backslash. -/
def letterOf? : Char → Option Char
  | '0' => some '\x00'
  | 't' => some '\t'
  | 'r' => some '\r'
  | 'n' => some '\n'
  | '\\' => some '\\'
  | '"' => some '"'
  | '\'' => some '\''
  | _ => none

/-- What a character between double quotes is shown as: itself, a letter after a backslash, or its
code point. -/
inductive ShownAs (c : Char) : List Char → Prop
  | plain (backslash : c ≠ '\\') (quote : c ≠ '"') : ShownAs c [c]
  | letter {e : Char} (stands : letterOf? e = some c) : ShownAs c ['\\', e]
  | code : ShownAs c (codePoint c)

theorem escapeChar_shownAs (first : Bool) (c : Char) :
    ShownAs c (escapeChar ['"', '\''] first c) := by
  by_cases special : c ∈ ['\x00', '\t', '\r', '\n', '\\', '"', '\'']
  · simp only [List.mem_cons, List.not_mem_nil, or_false] at special
    rcases special with rfl | rfl | rfl | rfl | rfl | rfl | rfl <;> exact .letter rfl
  · simp only [List.mem_cons, List.not_mem_nil, or_false, not_or] at special
    obtain ⟨zero, tab, carriage, feed, backslash, double, single⟩ := special
    have solid : controlLetter? c = none := by
      simp only [controlLetter?, if_neg zero, if_neg tab, if_neg carriage, if_neg feed]
    have unquoted : ¬(c = '\\' || ['"', '\''].contains c) := by
      simp [backslash, double, single]
    rw [escapeChar, solid]
    simp only [if_neg unquoted]
    split
    · exact .code
    · exact .plain backslash double

/-- A shown character does not begin with a quote. -/
theorem ShownAs.head_ne (h : ShownAs c u) : (u ++ x).head? ≠ some '"' := by
  cases h with
  | plain _ quote => exact fun same => quote (Option.some.inj same)
  | letter | code => exact fun same => nomatch same

/-- **Shown characters can be told apart**, and so can the texts behind them. -/
theorem ShownAs.cancel (h : ShownAs c u) (h' : ShownAs d v) (same : u ++ x = v ++ y) :
    c = d ∧ x = y := by
  cases h with
  | plain backslash _ =>
    cases h' with
    | plain => exact List.cons.inj same
    | letter | code => exact absurd (List.cons.inj same).1 backslash
  | letter stands =>
    cases h' with
    | plain backslash _ => exact absurd (List.cons.inj same).1.symm backslash
    | letter stands' =>
      obtain ⟨rfl, behind⟩ := List.cons.inj (List.cons.inj same).2
      exact ⟨Option.some.inj (stands.symm.trans stands'), behind⟩
    | code =>
      -- no escape of one letter is written with the letter of code points
      obtain ⟨rfl, _⟩ := List.cons.inj (List.cons.inj same).2
      cases stands
  | code =>
    cases h' with
    | plain backslash _ => exact absurd (List.cons.inj same).1.symm backslash
    | letter stands =>
      obtain ⟨rfl, _⟩ := List.cons.inj (List.cons.inj same).2
      cases stands
    | code => exact codePoint_cancel same

/-! ### Strings -/

theorem pieces_shownAs (cs : List Char) : List.Forall₂ ShownAs cs (pieces cs) := by
  cases cs with
  | nil => exact .nil
  | cons c cs =>
    refine .cons (escapeChar_shownAs true c) ?_
    rw [List.forall₂_map_right_iff]
    exact List.forall₂_same.mpr fun d _ => escapeChar_shownAs false d

/-- Characters shown one by one up to a quote can be told apart. -/
theorem shownAll_cancel {us vs : List (List Char)} (h : List.Forall₂ ShownAs cs us)
    (h' : List.Forall₂ ShownAs ds vs)
    (same : us.flatten ++ '"' :: x = vs.flatten ++ '"' :: y) : cs = ds ∧ x = y := by
  induction h generalizing ds vs with
  | nil =>
    cases h' with
    | nil => exact ⟨rfl, (List.cons.inj same).2⟩
    | cons first others =>
      rw [List.flatten_cons, List.append_assoc] at same
      exact absurd (congrArg List.head? same).symm first.head_ne
  | cons first others ih =>
    rw [List.flatten_cons, List.append_assoc] at same
    cases h' with
    | nil => exact absurd (congrArg List.head? same) first.head_ne
    | cons first' others' =>
      rw [List.flatten_cons, List.append_assoc] at same
      obtain ⟨rfl, behind⟩ := first.cancel first' same
      obtain ⟨rfl, rest⟩ := ih others' behind
      exact ⟨rfl, rest⟩

/-- **Shown strings can be told apart**, and so can the texts behind them. -/
theorem quoted_cancel {s t : String}
    (same : (quoted s).toList ++ x = (quoted t).toList ++ y) : s = t ∧ x = y := by
  rw [quoted, quoted, String.toList_ofList, String.toList_ofList, List.cons_append,
    List.cons_append, List.append_assoc, List.append_assoc, escape_eq_flatten,
    escape_eq_flatten] at same
  obtain ⟨chars, behind⟩ := shownAll_cancel (pieces_shownAs _) (pieces_shownAs _)
    (List.cons.inj same).2
  exact ⟨String.toList_inj.mp chars, behind⟩

end Text

end Retrace
