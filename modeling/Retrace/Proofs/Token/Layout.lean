/-
The layout of a text.

* `Lexer.Trivia`, `Lexer.IsSeparator` — blanks and comments, and those that keep tokens
  apart.
* `scan_alone` — where a token was scanned, its text is scanned as that token in front of
  nothing and in front of any blank.
* `items_stand` — so the texts of the tokens of a text stand for them.
* `Lexer.LaidOut` — a text that other texts are laid out in.
* **`lex_layout`** — laid out in another way, the tokens of a text are the same.

Design notes: a token may need the text behind it to end where it does. A blank does as
well as what was there before: no token goes on with a blank, and two slashes begin a
comment only next to each other. A comment does not, because a slash in front of it would
begin the comment. This is why a separator begins with a blank.
-/
import Retrace.Proofs.Source.Spans
import Retrace.Proofs.Token.Shown

namespace Retrace

namespace Lexer

open Text

variable {c : Char} {cs rest : List Char} {t : Token}

/-! ### Blanks and comments -/

/-- Blanks and comments. A line feed ends a comment. -/
inductive Trivia : List Char → Prop
  | nothing : Trivia []
  | blank {c : Char} {cs : List Char} (here : isBlank c) (others : Trivia cs) : Trivia (c :: cs)
  | comment {body cs : List Char} (inside : '\n' ∉ body) (others : Trivia cs) :
      Trivia ('/' :: '/' :: (body ++ '\n' :: cs))

/-- Nothing, or text that begins with a blank. -/
def Apart (rest : List Char) : Prop :=
  ∀ c, rest.head? = some c → isBlank c

/-- Blanks and comments of which the first is a blank. -/
def IsSeparator (text : String) : Prop :=
  text ≠ "" ∧ Trivia text.toList ∧ Apart text.toList

/-- The end of a comment is behind its first line feed. -/
theorem splitTrivia_comment {body : List Char} (inside : '\n' ∉ body) (rest : List Char) :
    (splitTrivia true (body ++ '\n' :: rest)).2 = (splitTrivia false rest).2 := by
  induction body with
  | nil => rw [List.nil_append, splitTrivia]; rfl
  | cons c body ih =>
    have other : c ≠ '\n' := fun same => inside (same ▸ .head _)
    have goesOn : (c != '\n') = true := bne_iff_ne.mpr other
    rw [List.cons_append, splitTrivia, goesOn]
    exact ih fun member => inside (.tail _ member)

/-- Blanks and comments in front of a text are skipped. -/
theorem Trivia.skipped {gap : List Char} (h : Trivia gap) (rest : List Char) :
    (splitTrivia false (gap ++ rest)).2 = (splitTrivia false rest).2 := by
  induction h with
  | nothing => rfl
  | blank here _ ih =>
    rw [List.cons_append, splitTrivia, if_pos here]
    exact ih
  | @comment body gap inside _ ih =>
    have slash : ¬isBlank '/' := by decide
    rw [List.cons_append, splitTrivia, if_neg slash, if_pos ⟨rfl, rfl⟩, List.cons_append,
      splitTrivia, List.append_assoc, List.cons_append]
    exact (splitTrivia_comment inside (gap ++ rest)).trans ih

theorem Trivia.feed {gap : List Char} (h : Trivia gap) (rest : List Char) :
    feed (gap ++ rest) = feed rest :=
  feed_trivia (h.skipped rest)

/-! ### What a blank is not -/

/-- No name goes on with a blank. -/
theorem nameRest_solid (h : isNameRest c) : isBlank c = false := by
  by_cases ascii : c.toNat < 0x80
  · exact of_ascii (P := fun c => isNameRest c → isBlank c = false) (by decide +kernel) ascii h
  · rw [isNameRest, isLetter, isNumeral, if_neg ascii, if_neg ascii, Bool.or_eq_true,
      Bool.or_eq_true] at h
    rcases h with (letter | numeral) | underscore
    · exact holds_disjoint (by decide +kernel) letter
    · exact holds_disjoint (by decide +kernel) numeral
    · exfalso
      refine ascii ?_
      rw [of_decide_eq_true underscore]
      decide

/-- A class without blanks ends where a blank or nothing follows. -/
theorem Apart.while {p : Char → Bool} (h : Apart rest) (solid : ∀ c, p c → isBlank c = false) :
    rest.takeWhile p = [] ∧ rest.dropWhile p = rest := by
  cases rest with
  | nil => exact ⟨rfl, rfl⟩
  | cons c rest =>
    have other : ¬p c := by
      intro inside
      have blank := h c rfl
      rw [solid c inside] at blank
      cases blank
    exact ⟨List.takeWhile_cons_of_neg other, List.dropWhile_cons_of_neg other⟩

/-- A class that ends before a blank or nothing is taken as a whole. -/
theorem while_apart {p : Char → Bool} (solid : ∀ c, p c → isBlank c = false) (cs : List Char)
    (apart : Apart rest) :
    (cs.takeWhile p ++ rest).takeWhile p = cs.takeWhile p ∧
      (cs.takeWhile p ++ rest).dropWhile p = rest := by
  have inside : ∀ d ∈ cs.takeWhile p, p d := fun d member =>
    List.all_eq_true.mp List.all_takeWhile d member
  obtain ⟨taken, dropped⟩ := apart.while solid
  rw [List.takeWhile_append_of_pos inside, List.dropWhile_append_of_pos inside, taken, dropped,
    List.append_nil]
  exact ⟨rfl, rfl⟩

theorem Apart.head_ne (h : Apart rest) {d : Char} (solid : isBlank d = false) :
    rest.head? ≠ some d := by
  intro same
  have blank := h d same
  rw [solid] at blank
  cases blank

/-! ### Tokens alone -/

/-- A text that is scanned as one token wherever a blank or nothing follows. -/
def StandsFor (text : List Char) (t : Token) : Prop :=
  ∃ c cs, text = c :: cs ∧ ∀ rest, Apart rest →
    splitTrivia false (c :: (cs ++ rest)) = ([], c :: (cs ++ rest)) ∧
    (scan c (cs ++ rest)).found = .ok t ∧ (scan c (cs ++ rest)).rest = rest

theorem StandsFor.feed {text : List Char} (h : StandsFor text t) (apart : Apart rest) :
    feed (text ++ rest) = some t :: feed rest := by
  obtain ⟨c, cs, rfl, scans⟩ := h
  obtain ⟨trivia, found, left⟩ := scans rest apart
  rw [List.cons_append, feed_scan (congrArg Prod.snd trivia), found, left]
  rfl

/-- The body of a string literal is scanned through its closing quote, whatever follows. -/
theorem scanString_alone (cs rest : List Char) : ∀ text, (scanString cs).found = .ok text →
    (scanString ((scanString cs).used ++ rest)).found = .ok text ∧
      (scanString ((scanString cs).used ++ rest)).rest = rest := by
  fun_induction scanString cs with
  | case1 | case3 | case4 =>
    intro text h
    cases h
  | case2 cs =>
    intro text h
    rw [List.singleton_append, scanString.eq_def]
    exact ⟨h, rfl⟩
  | case5 e es d known tail _ ih =>
    intro text h
    cases found : tail.found with
    | error fault =>
      simp only [found] at h
      cases h
    | ok text' =>
      obtain ⟨same, left⟩ := ih text' found
      rw [found] at h
      rw [List.cons_append, List.cons_append, scanString.eq_def]
      simp only [known, tail, same, left]
      exact ⟨h, rfl⟩
  | case6 c cs quote backslash tail ih =>
    intro text h
    cases found : tail.found with
    | error fault =>
      simp only [found] at h
      cases h
    | ok text' =>
      obtain ⟨same, left⟩ := ih text' found
      rw [found] at h
      rw [List.cons_append, scanString.eq_def]
      simp only [quote, backslash, tail, same, left]
      exact ⟨h, rfl⟩

/-- A number that is no number with letters behind it is scanned alone. -/
theorem scanNumber_alone (h : (scanNumber c cs).found = .ok t) :
    ∃ digits, (scanNumber c cs).used = c :: digits ∧ ∀ rest, Apart rest →
      (scanNumber c (digits ++ rest)).found = .ok t ∧
        (scanNumber c (digits ++ rest)).rest = rest := by
  have letters : (cs.dropWhile Char.isDigit).takeWhile isNameRest = [] := by
    rw [scanNumber] at h
    simp only at h
    split at h
    · next fits => exact List.isEmpty_iff.mp fits.1
    · cases h
  refine ⟨cs.takeWhile Char.isDigit, ?_, fun rest apart => ?_⟩
  · rw [scanNumber]
    simp only [letters, List.append_nil]
  · have digits := while_apart (fun c h => (digit_plain h).2.2.2) cs apart
    have noLetters := apart.while fun c (h : isNameRest c) => nameRest_solid h
    rw [scanNumber] at h ⊢
    simp only [letters] at h
    simp only [digits.1, digits.2, noLetters.1, noLetters.2]
    exact ⟨h, trivial⟩

/-- Where a token was scanned, its text is scanned as that token in front of nothing and in front
of any blank. -/
theorem scan_alone (found : (scan c cs).found = .ok t) :
    ∃ us, (scan c cs).used = c :: us ∧ ∀ rest, Apart rest →
      (scan c (us ++ rest)).found = .ok t ∧ (scan c (us ++ rest)).rest = rest := by
  cases single : single? c with
  | some token =>
    simp only [scan, single] at found ⊢
    exact ⟨[], rfl, fun rest _ => ⟨found, rfl⟩⟩
  | none =>
    cases double : double? c with
    | some entry =>
      obtain ⟨second, both, alone⟩ := entry
      have solid : isBlank second = false := by
        unfold double? at double
        split at double <;> simp at double <;> obtain ⟨rfl, _⟩ := double <;> decide
      simp only [scan, single, double] at found ⊢
      by_cases follows : cs.head? = some second
      · rw [if_pos follows] at found ⊢
        refine ⟨[second], rfl, fun rest _ => ?_⟩
        rw [if_pos (by rfl)]
        exact ⟨found, rfl⟩
      · rw [if_neg follows] at found ⊢
        refine ⟨[], rfl, fun rest apart => ?_⟩
        rw [List.nil_append, if_neg (apart.head_ne solid)]
        exact ⟨found, rfl⟩
    | none =>
      simp only [scan, single, double] at found ⊢
      by_cases quote : c = '"'
      · rw [if_pos quote] at found ⊢
        refine ⟨_, rfl, fun rest _ => ?_⟩
        cases body : (scanString cs).found with
        | error fault =>
          simp only [body] at found
          cases found
        | ok text =>
          obtain ⟨same, left⟩ := scanString_alone cs rest text body
          simp only [body] at found
          simp only [if_pos quote, same, left]
          exact ⟨found, trivial⟩
      · rw [if_neg quote] at found ⊢
        by_cases digit : c.isDigit
        · rw [if_pos digit] at found ⊢
          obtain ⟨digits, used, alone⟩ := scanNumber_alone found
          refine ⟨digits, used, fun rest apart => ?_⟩
          rw [if_neg quote, if_pos digit]
          exact alone rest apart
        · rw [if_neg digit] at found ⊢
          by_cases start : isNameStart c
          · rw [if_pos start] at found ⊢
            refine ⟨_, rfl, fun rest apart => ?_⟩
            obtain ⟨taken, dropped⟩ := while_apart (fun c => nameRest_solid) cs apart
            rw [if_neg quote, if_neg digit, if_pos start]
            simp only [taken, dropped]
            exact ⟨found, trivial⟩
          · rw [if_neg start] at found
            cases found

/-- What is scanned behind blanks and comments is neither. -/
theorem splitTrivia_solid {comment : Bool} (h : (splitTrivia comment cs).2 = c :: rest) :
    isBlank c = false ∧ ¬(c = '/' ∧ rest.head? = some '/') := by
  fun_induction splitTrivia comment cs with
  | case1 => cases h
  | case2 c' cs skipped left here ih => exact ih (here ▸ h)
  | case3 c' cs blank skipped left here ih => exact ih (here ▸ h)
  | case4 c' cs solid slashes skipped left here ih => exact ih (here ▸ h)
  | case5 c' cs solid noSlashes =>
    obtain ⟨rfl, rfl⟩ := List.cons.inj h
    exact ⟨Bool.eq_false_iff.mpr solid, noSlashes⟩

/-- The text of a token stands for it. -/
theorem standsFor_used (h : (splitTrivia false cs).2 = c :: rest)
    (found : (scan c rest).found = .ok t) : StandsFor (scan c rest).used t := by
  obtain ⟨us, used, alone⟩ := scan_alone found
  obtain ⟨solid, noSlashes⟩ := splitTrivia_solid h
  refine ⟨c, us, used, fun back apart => ⟨?_, alone back apart⟩⟩
  -- a slash is a token by itself, so what comes next to it is a blank now
  have noSlashes' : ¬(c = '/' ∧ (us ++ back).head? = some '/') := by
    rintro ⟨rfl, second⟩
    have nothing : us = [] := (List.cons.inj used).2.symm
    subst nothing
    exact apart.head_ne (by decide) second
  rw [splitTrivia, if_neg (by rw [solid]; exact Bool.false_ne_true), if_neg noSlashes']

/-- The texts of the tokens of a text stand for them. The text has another in front of it. -/
theorem items_stand (front cs : List Char) {lexemes : List Lexeme}
    (lexed : itemsFrom (width front) cs = lexemes.map .ok) :
    ∀ lexeme ∈ lexemes,
      StandsFor (Source.spanText ⟨String.ofList (front ++ cs)⟩ lexeme.span).toList
        lexeme.token := by
  induction cs using items_induction generalizing front lexemes with
  | nothing cs h =>
    rw [itemsFrom_end h] at lexed
    rw [List.map_eq_nil_iff.mp lexed.symm]
    exact List.forall_mem_nil _
  | item cs c rest h ih =>
    rw [itemsFrom_cons _ h] at lexed
    cases lexemes with
    | nil => cases lexed
    | cons first lexemes =>
      obtain ⟨here, others⟩ := List.cons.inj lexed
      have whole : front ++ cs = front ++ (splitTrivia false cs).1 ++ (scan c rest).used ++
          (scan c rest).rest := by
        have piece := scan_append c rest
        have trivia := splitTrivia_append false cs
        rw [h, ← piece] at trivia
        simp only [List.append_assoc, trivia]
      rw [← width_append] at here
      refine List.forall_mem_cons.mpr ⟨?_, ?_⟩
      · unfold itemAt at here
        cases found : (scan c rest).found with
        | error fault =>
          rw [found] at here
          cases here
        | ok t =>
          rw [found] at here
          obtain rfl := Except.ok.inj here
          rw [whole, Source.spanText_middle, String.toList_ofList]
          exact standsFor_used h found
      · rw [← width_append, ← width_append] at others
        rw [whole]
        exact ih _ others

/-! ### Texts laid out -/

/-- Texts with separators between them. -/
inductive Laid : List String → String → Prop
  | nothing : Laid [] ""
  | last (text : String) : Laid [text] text
  | more {text separator next laid : String} {texts : List String}
      (separates : IsSeparator separator) (others : Laid (next :: texts) laid) :
      Laid (text :: next :: texts) (text ++ separator ++ laid)

/-- Nothing, or a separator. -/
def IsGap (text : String) : Prop :=
  text = "" ∨ IsSeparator text

/-- A text that texts are laid out in: with separators between them, and with a separator or
nothing before the first of them and after the last. -/
def LaidOut (texts : List String) (text : String) : Prop :=
  ∃ before laid after,
    IsGap before ∧ Laid texts laid ∧ IsGap after ∧ text = before ++ laid ++ after

theorem IsGap.trivia {gap : String} (h : IsGap gap) : Trivia gap.toList := by
  rcases h with rfl | ⟨_, trivia, _⟩
  · exact .nothing
  · exact trivia

theorem IsGap.apart {gap : String} (h : IsGap gap) : Apart gap.toList := by
  rcases h with rfl | ⟨_, _, apart⟩
  · exact nofun
  · exact apart

/-- Blanks and comments are not read. -/
theorem Trivia.feed_eq_nil {gap : List Char} (h : Trivia gap) : Lexer.feed gap = [] := by
  have nothing : Lexer.feed [] = [] := feed_end rfl
  rw [← List.append_nil gap, h.feed, nothing]

/-- What is read of texts that stand for tokens, laid out, is these tokens. -/
theorem Laid.feed {textOf : Lexeme → String} {lexemes : List Lexeme} {laid after : String}
    (stand : ∀ lexeme ∈ lexemes, StandsFor (textOf lexeme).toList lexeme.token)
    (h : Laid (lexemes.map textOf) laid) (gap : IsGap after) :
    Lexer.feed (laid.toList ++ after.toList) = lexemes.map (some ·.token) := by
  induction lexemes generalizing laid with
  | nil =>
    cases h
    exact gap.trivia.feed_eq_nil
  | cons lexeme lexemes ih =>
    obtain ⟨here, there⟩ := List.forall_mem_cons.mp stand
    cases lexemes with
    | nil =>
      cases h
      rw [here.feed gap.apart, gap.trivia.feed_eq_nil]
      rfl
    | cons next lexemes =>
      cases h with
      | @more _ separator _ laid _ separates others =>
        obtain ⟨filled, trivia, apart⟩ := separates
        -- what is behind the token begins with the separator
        have apart' : Apart (separator.toList ++ (laid.toList ++ after.toList)) := by
          cases chars : separator.toList with
          | nil => exact absurd (String.toList_eq_nil_iff.mp chars) filled
          | cons c cs =>
            rw [chars] at apart
            exact apart
        rw [String.toList_append, String.toList_append, List.append_assoc, List.append_assoc,
          here.feed apart', trivia.feed, ih there others]
        rfl

end Lexer

/-- What is read of a text without errors is its tokens. -/
theorem lexed_of_feed {items : List LexItem} {tokens : List Token}
    (h : items.map tokenOf = tokens.map some) :
    ∃ lexemes : List Lexeme, items = lexemes.map .ok ∧ lexemes.map (·.token) = tokens := by
  induction items generalizing tokens with
  | nil => exact ⟨[], rfl, (List.map_eq_nil_iff.mp h.symm).symm⟩
  | cons item items ih =>
    cases tokens with
    | nil => cases h
    | cons t tokens =>
      obtain ⟨here, others⟩ := List.cons.inj h
      obtain ⟨lexemes, rfl, rfl⟩ := ih others
      cases item with
      | error e => cases here
      | ok lexeme =>
        refine ⟨lexeme :: lexemes, rfl, ?_⟩
        rw [List.map_cons, Option.some.inj here]

/-- **Laid out in another way, the tokens of a text are the same.** -/
theorem lex_layout {text text' : String} {lexemes : List Lexeme}
    (lexed : lex text = lexemes.map .ok)
    (laidOut : Lexer.LaidOut (lexemes.map fun lexeme => Source.spanText ⟨text⟩ lexeme.span) text') :
    ∃ lexemes' : List Lexeme, lex text' = lexemes'.map .ok ∧
      lexemes'.map (·.token) = lexemes.map (·.token) := by
  obtain ⟨before, laid, after, gap, body, gap', rfl⟩ := laidOut
  have stand : ∀ lexeme ∈ lexemes,
      Lexer.StandsFor (Source.spanText ⟨text⟩ lexeme.span).toList lexeme.token := by
    have here := Lexer.items_stand [] text.toList lexed
    rw [List.nil_append, String.ofList_toList] at here
    exact here
  have read : (lex (before ++ laid ++ after)).map tokenOf = lexemes.map (some ·.token) := by
    show Lexer.feed (before ++ laid ++ after).toList = _
    rw [String.toList_append, String.toList_append, List.append_assoc, gap.trivia.feed,
      body.feed stand gap']
  refine lexed_of_feed (read.trans ?_)
  rw [List.map_map]
  rfl

end Retrace
