/-
Byte offsets between characters.

* `width_append`, `width_toList` — the bytes of a text.
* `isValid_iff` — an offset is between characters when it is the width of what is before it.
* **`slice?_eq_some_iff`** — a slice is the middle of a text in three parts.

Design notes: an offset is never looked at by itself. It is the width of a first part of the text,
and what is done at offsets is said of parts.
-/
import Retrace.Text.Bytes

namespace Retrace.Text

variable {cs front middle back : List Char} {n start stop : Nat}

theorem width_append (cs ds : List Char) : width (cs ++ ds) = width cs + width ds := by
  induction cs with
  | nil => simp [width]
  | cons c cs ih =>
    rw [List.cons_append, width, width, ih]
    omega

theorem width_pos {cs : List Char} (h : cs ≠ []) : 0 < width cs := by
  cases cs with
  | nil => exact absurd rfl h
  | cons c cs =>
    have here := c.utf8Size_pos
    rw [width]
    omega

theorem width_eq_utf8ByteSize (cs : List Char) : width cs = (String.ofList cs).utf8ByteSize := by
  induction cs with
  | nil => rfl
  | cons c cs ih =>
    rw [width, ih, String.ofList_cons, String.utf8ByteSize_append, String.utf8ByteSize_singleton]

/-- The width of a text is the number of bytes that it takes. -/
theorem width_toList (s : String) : width s.toList = s.utf8ByteSize := by
  rw [width_eq_utf8ByteSize, String.ofList_toList]

/-! ### Cutting at a byte offset -/

theorem takeBytes_width (cs ds : List Char) : takeBytes (width cs) (cs ++ ds) = cs := by
  induction cs with
  | nil => cases ds <;> rfl
  | cons c cs ih =>
    have size := c.utf8Size_pos
    obtain ⟨n, same⟩ : ∃ n, width (c :: cs) = n + 1 := ⟨width (c :: cs) - 1, by rw [width]; omega⟩
    have left : n + 1 - c.utf8Size = width cs := by
      rw [width] at same
      omega
    rw [same, List.cons_append, takeBytes, left, ih]

theorem dropBytes_width (cs ds : List Char) : dropBytes (width cs) (cs ++ ds) = ds := by
  induction cs with
  | nil => cases ds <;> rfl
  | cons c cs ih =>
    have size := c.utf8Size_pos
    obtain ⟨n, same⟩ : ∃ n, width (c :: cs) = n + 1 := ⟨width (c :: cs) - 1, by rw [width]; omega⟩
    have left : n + 1 - c.utf8Size = width cs := by
      rw [width] at same
      omega
    rw [same, List.cons_append, dropBytes, left, ih]

theorem takeBytes_all (h : width cs ≤ n) : takeBytes n cs = cs := by
  fun_induction takeBytes n cs with
  | case1 => rfl
  | case2 c cs => exact absurd h (by have := width_pos (List.cons_ne_nil c cs); omega)
  | case3 n c cs ih => rw [ih (by rw [width] at h; omega)]

/-- Of two texts that begin a text, the wider one goes on from the other. -/
theorem width_mono {rest front' back' : List Char} (h : front ++ rest = front' ++ back')
    (le : width front ≤ width front') : ∃ middle, front' = front ++ middle := by
  rcases List.append_eq_append_iff.mp h with ⟨middle, longer, _⟩ | ⟨middle, longer, _⟩
  · exact ⟨middle, longer⟩
  · rw [longer, width_append] at le
    have nothing : middle = [] := Classical.byContradiction fun filled => by
      have := width_pos filled
      omega
    exact ⟨[], by rw [longer, nothing, List.append_nil, List.append_nil]⟩

theorem cut?_width (front back : List Char) :
    cut? (width front) (front ++ back) = some (front, back) := by
  induction front with
  | nil => cases back <;> rfl
  | cons c front ih =>
    have size := c.utf8Size_pos
    obtain ⟨n, same⟩ : ∃ n, width (c :: front) = n + 1 :=
      ⟨width (c :: front) - 1, by rw [width]; omega⟩
    have here : n + 1 = c.utf8Size + width front := same.symm
    have left : n + 1 - c.utf8Size = width front := by omega
    rw [same, List.cons_append, cut?, if_neg (by omega), left, ih]
    rfl

/-- A text is cut in two parts, of which the first is as wide as the offset. -/
theorem cut?_eq_some_iff :
    cut? n cs = some (front, back) ↔ cs = front ++ back ∧ width front = n := by
  refine ⟨fun h => ?_, fun ⟨split, wide⟩ => by rw [split, ← wide, cut?_width]⟩
  fun_induction cut? n cs generalizing front with
  | case1 cs =>
    obtain ⟨rfl, rfl⟩ := Prod.mk.inj (Option.some.inj h)
    exact ⟨rfl, rfl⟩
  | case2 n => cases h
  | case3 n c cs inside => cases h
  | case4 n c cs outside ih =>
    obtain ⟨⟨front', back'⟩, cut, same⟩ := Option.map_eq_some_iff.mp h
    obtain ⟨rfl, rfl⟩ := Prod.mk.inj same
    obtain ⟨rfl, wide⟩ := ih cut
    exact ⟨rfl, by rw [width]; omega⟩

/-- **A slice is the middle of a text in three parts.** -/
theorem slice?_eq_some_iff : slice? start stop cs = some middle ↔
    ∃ front back, cs = front ++ middle ++ back ∧ width front = start ∧
      width (front ++ middle) = stop := by
  simp only [slice?, Option.bind_eq_bind, Option.bind_eq_some_iff, Option.pure_def,
    Option.some.injEq, Prod.exists, cut?_eq_some_iff]
  constructor
  · rintro ⟨_, back, ⟨rfl, wide⟩, front, _, ⟨rfl, wide'⟩, rfl⟩
    exact ⟨front, back, rfl, wide', wide⟩
  · rintro ⟨front, back, rfl, wide', wide⟩
    exact ⟨_, back, ⟨rfl, wide⟩, front, _, ⟨rfl, wide'⟩, rfl⟩

theorem slice?_width (front middle back : List Char) :
    slice? (width front) (width front + width middle) (front ++ middle ++ back) = some middle :=
  slice?_eq_some_iff.mpr ⟨front, back, rfl, rfl, width_append front middle⟩

/-- An offset is between characters when it is the width of what is before it. -/
theorem isValid_iff {text : String} :
    String.Pos.Raw.IsValid text ⟨n⟩ ↔
      ∃ front back, text.toList = front ++ back ∧ width front = n := by
  rw [String.Pos.Raw.isValid_iff_exists_append]
  constructor
  · rintro ⟨front, back, rfl, same⟩
    refine ⟨front.toList, back.toList, String.toList_append, ?_⟩
    rw [width_toList]
    exact (congrArg String.Pos.Raw.byteIdx same).symm
  · rintro ⟨front, back, split, rfl⟩
    refine ⟨String.ofList front, String.ofList back, ?_, ?_⟩
    · rw [← String.ofList_append, ← split, String.ofList_toList]
    · rw [width_eq_utf8ByteSize]
      rfl

end Retrace.Text
