/-
How items lie in the text that they were found in.

* `splitTrivia_skipped` — what is skipped in front of an item is blanks and comments, and a
  comment without an end comes to the end of the text.
* `Lexer.Tiles` — items side by side over a text, with the end of the text behind them.
* `itemsFrom_tiles` — the items of a text lie so.
* `Tiling` — the same without the text cut up: what the spans of the items say.
* **`items_tile`** — the spans of the items of every text are a tiling of it, and the text of
  each token is that token alone.

Design notes: everything is read off one cut of the text, gap by gap and piece by piece,
that follows the recursion of the lexer. A span is then two sums of widths. An item without
a token has a piece of text like the others, so that a text with errors in it needs no case
of its own.
-/
import Retrace.Proofs.Token.Layout

namespace Retrace

/-- The place of an item. -/
def LexItem.span : LexItem → Span
  | .ok lexeme => lexeme.span
  | .error error => error.span

/-- The items of a text through its end. -/
def lexThrough (text : String) : List LexItem :=
  lex text ++ [.ok (eofOf text)]

namespace Lexer

open Text

variable {c : Char} {cs gap rest text : List Char} {offset : Nat} {items : List LexItem}

/-! ### What is skipped -/

/-- Blanks and comments, of which the last has no end. -/
def OpenTrivia (gap : List Char) : Prop :=
  ∃ front body, Trivia front ∧ '\n' ∉ body ∧ gap = front ++ '/' :: '/' :: body

/-- What may be skipped in front of a text. Only in front of nothing can a comment have no end. -/
def Skipped (gap rest : List Char) : Prop :=
  Trivia gap ∨ OpenTrivia gap ∧ rest = []

/-- What may be skipped inside a comment: the comment through its end, and more; or all that there
is. -/
def SkippedInside (gap rest : List Char) : Prop :=
  (∃ body more, gap = body ++ '\n' :: more ∧ '\n' ∉ body ∧ Skipped more rest) ∨
    '\n' ∉ gap ∧ rest = []

theorem Skipped.blank (here : isBlank c) (h : Skipped gap rest) : Skipped (c :: gap) rest := by
  rcases h with trivia | ⟨⟨front, body, trivia, inside, rfl⟩, nothing⟩
  · exact .inl (.blank here trivia)
  · exact .inr ⟨⟨c :: front, body, .blank here trivia, inside, rfl⟩, nothing⟩

/-- A slash in front of another one, and of what may be skipped inside the comment. -/
theorem SkippedInside.slash (h : SkippedInside ('/' :: gap) rest) :
    Skipped ('/' :: '/' :: gap) rest := by
  rcases h with ⟨body, more, same, inside, skipped⟩ | ⟨inside, nothing⟩
  · cases body with
    | nil => cases same
    | cons d body =>
      obtain rfl : gap = body ++ '\n' :: more := (List.cons.inj same).2
      have inside' : '\n' ∉ body := fun member => inside (.tail _ member)
      rcases skipped with trivia | ⟨⟨front, last, trivia, inside, rfl⟩, nothing⟩
      · exact .inl (.comment inside' trivia)
      · refine .inr ⟨⟨_, last, .comment inside' trivia, inside, ?_⟩, nothing⟩
        simp only [List.cons_append, List.append_assoc]
  · exact .inr ⟨⟨[], gap, .nothing, fun member => inside (.tail _ member), rfl⟩, nothing⟩

/-- A character inside a comment, and what may be skipped behind it. -/
theorem SkippedInside.cons (h : if c = '\n' then Skipped gap rest else SkippedInside gap rest) :
    SkippedInside (c :: gap) rest := by
  split at h
  · next feed => exact .inl ⟨[], gap, by rw [feed, List.nil_append], List.not_mem_nil, h⟩
  · next other =>
    have ne : '\n' ≠ c := fun same => other same.symm
    rcases h with ⟨body, more, rfl, inside, skipped⟩ | ⟨inside, nothing⟩
    · exact .inl ⟨c :: body, more, rfl, List.not_mem_cons_of_ne_of_not_mem ne inside, skipped⟩
    · exact .inr ⟨List.not_mem_cons_of_ne_of_not_mem ne inside, nothing⟩

/-- **What is skipped is blanks and comments.** -/
theorem splitTrivia_skipped (comment : Bool) (cs : List Char) :
    if comment then SkippedInside (splitTrivia comment cs).1 (splitTrivia comment cs).2
    else Skipped (splitTrivia comment cs).1 (splitTrivia comment cs).2 := by
  fun_induction splitTrivia comment cs with
  | case1 comment =>
    cases comment
    · exact .inl .nothing
    · exact .inr ⟨List.not_mem_nil, rfl⟩
  | case2 c cs skipped rest here ih =>
    rw [here] at ih
    refine .cons ?_
    by_cases feed : c = '\n'
    · rw [if_pos feed]
      simpa [feed] using ih
    · rw [if_neg feed]
      simpa [feed] using ih
  | case3 c cs blank skipped rest here ih =>
    rw [here] at ih
    exact Skipped.blank blank ih
  | case4 c cs _ slashes skipped rest here ih =>
    obtain ⟨rfl, second⟩ := slashes
    -- the second slash is the first character inside the comment
    cases cs with
    | nil => cases second
    | cons d cs =>
      obtain rfl := Option.some.inj second
      rw [splitTrivia] at here
      obtain ⟨rfl, rfl⟩ := Prod.mk.inj here
      rw [splitTrivia] at ih
      exact SkippedInside.slash ih
  | case5 c cs _ _ => exact .inl .nothing

/-- In front of an item, every comment has an end. -/
theorem trivia_of_splitTrivia (h : (splitTrivia false cs).2 = c :: rest) :
    Trivia (splitTrivia false cs).1 := by
  rcases splitTrivia_skipped false cs with trivia | ⟨_, nothing⟩
  · exact trivia
  · exact absurd (h.symm.trans nothing) (List.cons_ne_nil _ _)

/-! ### Items side by side -/

/-- A text that is lexed to one token, from its first byte to its last. -/
def LexesTo (text : List Char) (t : Token) : Prop :=
  itemsFrom 0 text = [.ok ⟨t, ⟨0, width text⟩⟩]

/-- Items side by side over a text that begins at an offset. Each stands behind blanks and comments
over a piece of the text, and a piece with a token is lexed to it. Behind the last of them is the
end of the text. -/
inductive Tiles : Nat → List Char → List LexItem → Prop
  | done {offset : Nat} {gap : List Char} (skipped : Skipped gap []) :
      Tiles offset gap [.ok ⟨.eof, .emptyAt (offset + width gap)⟩]
  | item {offset : Nat} {gap piece rest : List Char} {item : LexItem} {items : List LexItem}
      (skipped : Trivia gap) (filled : piece ≠ [])
      (place : item.span = ⟨offset + width gap, offset + width gap + width piece⟩)
      (solid : tokenOf item ≠ some .eof)
      (alone : ∀ t, tokenOf item = some t → LexesTo piece t)
      (others : Tiles (offset + width gap + width piece) rest items) :
      Tiles offset (gap ++ piece ++ rest) (item :: items)

theorem itemAt_span (start : Nat) (piece : Scan Token) :
    (itemAt start piece).span = ⟨start, start + width piece.used⟩ := by
  unfold itemAt
  cases piece.found <;> rfl

theorem found_of_itemAt {start : Nat} {piece : Scan Token} {t : Token}
    (h : tokenOf (itemAt start piece) = some t) : piece.found = .ok t := by
  unfold itemAt at h
  cases found : piece.found with
  | error fault =>
    rw [found] at h
    cases h
  | ok token =>
    rw [found] at h
    exact congrArg _ (Option.some.inj h)

/-- A text that stands for a token is lexed to it. -/
theorem StandsFor.lexesTo {t : Token} (h : StandsFor text t) : LexesTo text t := by
  obtain ⟨c, cs, rfl, scans⟩ := h
  obtain ⟨trivia, found, left⟩ := scans [] nofun
  rw [List.append_nil] at trivia found left
  have whole := scan_append c cs
  rw [left, List.append_nil] at whole
  rw [LexesTo, itemsFrom_cons 0 (congrArg Prod.snd trivia), left, itemsFrom_end rfl, trivia, itemAt,
    found, whole]
  simp only [width, Nat.zero_add]

/-- **The items of a text lie side by side over it.** -/
theorem itemsFrom_tiles (offset : Nat) (cs : List Char) :
    Tiles offset cs (itemsFrom offset cs ++ [.ok ⟨.eof, .emptyAt (offset + width cs)⟩]) := by
  induction cs using items_induction generalizing offset with
  | nothing cs h =>
    have skipped := splitTrivia_skipped false cs
    have whole := splitTrivia_append false cs
    rw [h, List.append_nil] at whole
    rw [if_neg Bool.false_ne_true, whole, h] at skipped
    rw [itemsFrom_end h]
    exact .done skipped
  | item cs c rest h ih =>
    have whole : (splitTrivia false cs).1 ++ (scan c rest).used ++ (scan c rest).rest = cs := by
      rw [List.append_assoc, scan_append, ← h, splitTrivia_append]
    have stop : offset + width cs = offset + width (splitTrivia false cs).1 +
        width (scan c rest).used + width (scan c rest).rest := by
      rw [width_split h]
      omega
    have tiles : Tiles offset ((splitTrivia false cs).1 ++ (scan c rest).used ++ (scan c rest).rest)
        (itemsFrom offset cs ++ [.ok ⟨.eof, .emptyAt (offset + width cs)⟩]) := by
      rw [itemsFrom_cons offset h, stop]
      refine .item (trivia_of_splitTrivia h) (used_ne_nil c rest) (itemAt_span _ _) ?_ ?_ (ih _)
      · exact fun eof => scan_writable (found_of_itemAt eof)
      · exact fun t token => (standsFor_used h (found_of_itemAt token)).lexesTo
    rwa [whole] at tiles

/-! ### What the spans say -/

/-- Items side by side are behind the offset of their text. -/
theorem Tiles.start_le (h : Tiles offset cs items) :
    ∀ item ∈ items, offset ≤ item.span.start := by
  induction h with
  | @done offset gap _ =>
    intro item member
    obtain rfl := List.mem_singleton.mp member
    exact Nat.le_add_right offset (width gap)
  | item _ _ place _ _ _ ih =>
    intro other member
    rcases List.mem_cons.mp member with rfl | behind
    · rw [place]
      exact Nat.le_add_right _ _
    · have := ih other behind
      omega

/-- Each of them is behind those before it. -/
theorem Tiles.pairwise (h : Tiles offset cs items) :
    items.Pairwise fun a b => a.span.start < b.span.start ∧ a.span.stop ≤ b.span.start := by
  induction h with
  | done => exact List.pairwise_singleton _ _
  | item _ filled place _ _ others ih =>
    refine List.pairwise_cons.mpr ⟨fun other member => ?_, ih⟩
    have behind := others.start_le other member
    have wide := width_pos filled
    rw [place]
    exact ⟨by simp only; omega, behind⟩

/-- There are no more of them than bytes, and the end. -/
theorem Tiles.length_le (h : Tiles offset cs items) : items.length ≤ width cs + 1 := by
  induction h with
  | done => exact Nat.le_add_left _ _
  | item _ filled _ _ _ _ ih =>
    have wide := width_pos filled
    rw [List.length_cons, width_append, width_append]
    omega

/-- The last of them is the end of the text, and it is the only one that is empty. -/
theorem Tiles.ended (h : Tiles offset cs items) :
    ∃ front, items = front ++ [.ok ⟨.eof, .emptyAt (offset + width cs)⟩] ∧
      ∀ item ∈ front, item.span.start < item.span.stop ∧ tokenOf item ≠ some .eof := by
  induction h with
  | done => exact ⟨[], rfl, List.forall_mem_nil _⟩
  | @item offset gap piece rest item items _ filled place solid _ _ ih =>
    obtain ⟨front, rfl, others⟩ := ih
    have wide := width_pos filled
    refine ⟨item :: front, ?_, List.forall_mem_cons.mpr ⟨⟨?_, solid⟩, others⟩⟩
    · rw [width_append, width_append, List.cons_append, ← Nat.add_assoc, ← Nat.add_assoc]
    · rw [place]
      exact Nat.lt_add_of_pos_right wide

/-- Where items that begin at an offset stop. -/
def stopFrom (offset : Nat) : List LexItem → Nat
  | [] => offset
  | item :: items => stopFrom item.span.stop items

theorem stopFrom_concat (front : List LexItem) (item : LexItem) :
    stopFrom offset (front ++ [item]) = item.span.stop := by
  induction front generalizing offset with
  | nil => rfl
  | cons _ _ ih => exact ih

/-- Around each of them, the text is cut into what is before it, a gap, its own piece and what is
behind it. -/
theorem Tiles.cut (h : Tiles offset cs items) {front back : List LexItem} {item : LexItem}
    (split : items = front ++ item :: back) :
    ∃ before gap piece after, cs = before ++ gap ++ piece ++ after ∧
      stopFrom offset front = offset + width before ∧
      item.span = ⟨offset + width before + width gap,
        offset + width before + width gap + width piece⟩ ∧
      (Trivia gap ∨ OpenTrivia gap ∧ back = []) ∧
      ∀ t, tokenOf item = some t → t ≠ .eof → LexesTo piece t := by
  induction h generalizing front with
  | @done offset gap skipped =>
    obtain ⟨rfl, rfl, rfl⟩ : front = [] ∧ item = .ok ⟨.eof, .emptyAt (offset + width gap)⟩ ∧
        back = [] := by
      cases front with
      | nil => exact ⟨rfl, (List.cons.inj split).1.symm, (List.cons.inj split).2.symm⟩
      | cons _ front => simp at split
    refine ⟨[], gap, [], [], by simp, rfl, rfl, skipped.imp_right fun h => ⟨h.1, rfl⟩, ?_⟩
    exact fun t token other => absurd (Option.some.inj token).symm other
  | @item offset gap piece rest first others skipped _ place _ alone _ ih =>
    cases front with
    | nil =>
      obtain ⟨rfl, -⟩ := List.cons.inj split
      exact ⟨[], gap, piece, rest, rfl, rfl, place, .inl skipped, fun t token _ => alone t token⟩
    | cons other front =>
      obtain ⟨rfl, behind⟩ := List.cons.inj split
      obtain ⟨before, gap', piece', after, rfl, stop, place', found⟩ := ih behind
      have stop' : first.span.stop = offset + width gap + width piece := by rw [place]
      refine ⟨gap ++ piece ++ before, gap', piece', after, by simp, ?_, ?_, found⟩
      · rw [stopFrom, stop', stop, width_append, width_append]
        omega
      · rw [place', width_append, width_append, ← Nat.add_assoc, ← Nat.add_assoc]

end Lexer

/-- The items of a text, with its end, lie side by side over it. -/
theorem lexThrough_tiles (text : String) : Lexer.Tiles 0 text.toList (lexThrough text) := by
  have tiles := Lexer.itemsFrom_tiles 0 text.toList
  rw [Nat.zero_add] at tiles
  exact tiles

/-- An item stops behind where those before it stop, and not behind the end of the text. -/
theorem lex_stop {text : String} {front back : List LexItem} {item : LexItem}
    (h : lex text = front ++ item :: back) :
    Lexer.stopFrom 0 front < item.span.stop ∧ item.span.stop ≤ text.utf8ByteSize := by
  have split : lexThrough text = front ++ item :: (back ++ [.ok (eofOf text)]) := by
    rw [lexThrough, h, List.append_assoc]
    rfl
  have tiles := lexThrough_tiles text
  obtain ⟨others, all, filled⟩ := tiles.ended
  obtain ⟨before, gap, piece, after, whole, stop, place, _⟩ := tiles.cut split
  have member : item ∈ others := by
    obtain rfl : others = lex text := (List.append_inj' all.symm rfl).1
    rw [h]
    simp
  have nonempty := (filled item member).1
  have size := Text.width_eq_utf8ByteSize text.toList
  rw [String.ofList_toList, whole] at size
  simp only [Text.width_append] at size
  rw [place] at nonempty ⊢
  simp only at nonempty ⊢
  omega

/-- An offset behind a part of a text is between characters. -/
theorem isValid_width (before after : List Char) :
    String.Pos.Raw.IsValid (String.ofList (before ++ after)) ⟨Text.width before⟩ :=
  Text.isValid_iff.mpr ⟨before, after, String.toList_ofList, rfl⟩

/-- What the items of a text, with its end, say of it by their spans. -/
structure Tiling (text : String) (items : List LexItem) : Prop where
  /-- There are no more of them than bytes, and the end. -/
  few : items.length ≤ text.utf8ByteSize + 1
  /-- The last of them is the end of the text, and it is the only one that is empty. -/
  ended : ∃ front, items = front ++ [.ok ⟨.eof, ⟨text.utf8ByteSize, text.utf8ByteSize⟩⟩] ∧
    ∀ item ∈ front, item.span.start < item.span.stop ∧ tokenOf item ≠ some .eof
  /-- They begin and end between characters of the text. -/
  between : ∀ item ∈ items, String.Pos.Raw.IsValid text ⟨item.span.start⟩ ∧
    String.Pos.Raw.IsValid text ⟨item.span.stop⟩
  /-- Each is behind those before it. -/
  increasing : items.Pairwise fun a b => a.span.start < b.span.start ∧ a.span.stop ≤ b.span.start
  /-- In front of each, and behind the one before it, is nothing but blanks and comments. Only in
  front of the end can a comment have no end. -/
  gaps : ∀ front item back, items = front ++ item :: back →
    let gap := (Source.spanText ⟨text⟩ ⟨Lexer.stopFrom 0 front, item.span.start⟩).toList
    Lexer.Trivia gap ∨ Lexer.OpenTrivia gap ∧ back = []
  /-- The text of a token is lexed to that token, from its first byte to its last. -/
  alone : ∀ lexeme, .ok lexeme ∈ items → lexeme.token ≠ .eof →
    let piece := Source.spanText ⟨text⟩ lexeme.span
    lexThrough piece = [.ok ⟨lexeme.token, ⟨0, piece.utf8ByteSize⟩⟩, .ok (eofOf piece)]

/-- A text that is lexed to one token, with its end. -/
theorem Lexer.LexesTo.through {piece : List Char} {t : Token} (h : LexesTo piece t) :
    lexThrough (String.ofList piece) =
      [.ok ⟨t, ⟨0, (String.ofList piece).utf8ByteSize⟩⟩, .ok (eofOf (String.ofList piece))] := by
  rw [lexThrough, lex, String.toList_ofList, h, Text.width_eq_utf8ByteSize]
  rfl

/-- **The items of every text tile it.** -/
theorem items_tile (text : String) : Tiling text (lexThrough text) := by
  obtain ⟨cs, rfl⟩ : ∃ cs, text = String.ofList cs := ⟨text.toList, String.ofList_toList.symm⟩
  have size : Text.width cs = (String.ofList cs).utf8ByteSize := Text.width_eq_utf8ByteSize cs
  have tiles := lexThrough_tiles (String.ofList cs)
  rw [String.toList_ofList] at tiles
  refine ⟨?_, ?_, ?_, tiles.pairwise, ?_, ?_⟩
  · exact size ▸ tiles.length_le
  · have ended := tiles.ended
    rwa [Nat.zero_add, size] at ended
  · intro item member
    obtain ⟨front, back, split⟩ := List.append_of_mem member
    obtain ⟨before, gap, piece, after, rfl, _, place, _⟩ := tiles.cut split
    rw [place, Nat.zero_add, ← Text.width_append, ← Text.width_append]
    refine ⟨?_, isValid_width _ _⟩
    rw [List.append_assoc]
    exact isValid_width _ _
  · intro front item back split
    obtain ⟨before, gap, piece, after, rfl, stop, place, skipped, _⟩ := tiles.cut split
    rw [stop, place, Nat.zero_add, List.append_assoc, Source.spanText_middle]
    simp only [String.toList_ofList]
    exact skipped
  · intro lexeme member other
    obtain ⟨front, back, split⟩ := List.append_of_mem member
    obtain ⟨before, gap, piece, after, rfl, _, place, _, alone⟩ := tiles.cut split
    have place : lexeme.span = _ := place
    rw [place, Nat.zero_add, ← Text.width_append, Source.spanText_middle]
    exact (alone lexeme.token rfl other).through

end Retrace
