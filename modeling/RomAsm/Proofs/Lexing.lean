import RomAsm.Source.Lexeme

/-!
# Reading lexemes back

`IsLexeme` are the texts that are read as one lexeme wherever a space or the end of the source
follows: string literals, characters of punctuation, and words. So a text of lexemes with single
spaces between them falls apart into these lexemes when it is read:

* `Source.next_lexeme` — one lexeme is read, at the beginning of the source or behind a space;
* `Source.collect_lexemes` — by induction, all of them are.

A source of `n` characters has no line and no column beyond `n + 1` (`Source.exists_position`). So
all its locations can be written if that number can.
-/

namespace RomAsm

/-! ### Numbers that can be written -/

/-- A number nearer to zero than one that can be written can be written too. -/
theorem Numeral.isWritable_of_le {m n : Int} (hn : isWritable n = true)
    (hmn : m.natAbs ≤ n.natAbs) : isWritable m = true := by
  rw [isWritable, decide_eq_true_iff, Nat.length_toDigits_le_iff (by decide) (by decide)] at hn ⊢
  exact Nat.lt_of_le_of_lt hmn hn

/-! ### Positions -/

/-- Neither the line nor the column of a position is beyond `n`, and both count from one. -/
structure Position.IsBelow (p : Position) (n : Nat) : Prop where
  line_pos : 1 ≤ p.line
  line_le : p.line ≤ n
  column_pos : 1 ≤ p.column
  column_le : p.column ≤ n

namespace Position.IsBelow

variable {p : Position} {m n : Nat}

theorem mono (h : p.IsBelow m) (hmn : m ≤ n) : p.IsBelow n := by
  obtain ⟨h₁, h₂, h₃, h₄⟩ := h
  exact ⟨h₁, by omega, h₃, by omega⟩

/-- One character leads at most one line or one column further. -/
theorem next (h : p.IsBelow n) (c : Char) : (p.next c).IsBelow (n + 1) := by
  obtain ⟨h₁, h₂, h₃, h₄⟩ := h
  unfold Position.next
  -- a line feed counts a line and goes back to column one, any other character counts a column
  split <;> constructor <;> dsimp only <;> omega

/-- A text leads at most as far as it is long. -/
theorem after (h : p.IsBelow n) (text : List Char) : (p.after text).IsBelow (n + text.length) := by
  induction text generalizing p n with
  | nil => exact h
  | cons c text ih =>
    -- each character may push the bound up by one, and there are `text.length` of them
    have hrest := ih (h.next c)
    rw [List.length_cons]
    exact hrest.mono (by omega)

/-- A location below a number that can be written can be written itself. -/
theorem isWritable (h : p.IsBelow n) (hn : Numeral.isWritable n = true) (s : Source) :
    (s.locate p).isWritable = true := by
  obtain ⟨h₁, h₂, h₃, h₄⟩ := h
  rw [Location.isWritable, Bool.and_eq_true]
  refine ⟨Numeral.isWritable_of_le hn ?_, Numeral.isWritable_of_le hn ?_⟩
  · change p.line.natAbs ≤ _
    omega
  · change p.column.natAbs ≤ _
    omega

end Position.IsBelow

/-! ### Lexemes -/

/-- The texts that are read as one lexeme where a space or the end of the source follows. -/
inductive IsLexeme : List Char → Prop where
  | string {body : List Char} (h : closeString body = some (body, [])) : IsLexeme ('"' :: body)
  | punctuation {c : Char} (h : isPunctuation c = true) : IsLexeme [c]
  | word {c : Char} {rest : List Char} (hfirst : endsWord c = false)
    (h : RomAsm.word (c :: rest) = (c :: rest, [])) : IsLexeme (c :: rest)

/-- A text ends, or goes on with a space. -/
def IsSeparated : List Char → Prop
  | [] => True
  | c :: _ => c = ' '

/-- A string is closed where it is closed, whatever follows. -/
theorem closeString_append {text body rest : List Char}
    (h : closeString text = some (body, rest)) (tail : List Char) :
    closeString (text ++ tail) = some (body, rest ++ tail) := by
  -- induction along the reader: each character it passes is passed again with `tail` behind the
  -- text
  fun_induction closeString text generalizing body rest with
  | case1 => cases h
  | case2 r =>
    cases h
    rfl
  | case3 c r ih =>
    obtain ⟨⟨b, r'⟩, hb, heq⟩ := Option.map_eq_some_iff.1 h
    cases heq
    rw [List.cons_append, List.cons_append, closeString, ih hb]
    rfl
  | case4 c r hquote hescape ih =>
    obtain ⟨⟨b, r'⟩, hb, heq⟩ := Option.map_eq_some_iff.1 h
    cases heq
    -- a backslash is followed by a character of the string, or it would not be closed
    have hne : ∀ d tail', c = '\\' → r ++ tail ≠ d :: tail' := by
      rintro d tail' rfl
      cases r with
      | nil => cases hb
      | cons d' r => exact absurd rfl (hescape d' r rfl)
    rw [List.cons_append]
    unfold closeString
    -- the reader looks at two characters, so `tail` could turn a last backslash into an escape
    split
    · next e => cases e
    · next e =>
      cases e
      exact absurd rfl hquote
    · next d tail' e =>
      obtain ⟨rfl, hd⟩ := List.cons.inj e
      exact absurd hd (hne _ _ rfl)
    · next e =>
      cases e
      rw [ih hb]
      rfl

theorem append_word (text : List Char) : (word text).1 ++ (word text).2 = text := by
  fun_induction word text <;> simp_all

/-- A word that begins with a character of its own has it. -/
theorem exists_word {first : Char} (rest : List Char) (h : endsWord first = false) :
    ∃ w, (word (first :: rest)).1 = first :: w := by
  have happend := append_word (first :: rest)
  cases hw : (word (first :: rest)).1 with
  | nil =>
    -- otherwise the whole text would be left behind, but reading makes it shorter
    have hlt := length_word_lt rest h
    rw [hw, List.nil_append] at happend
    rw [happend] at hlt
    exact absurd hlt (Nat.lt_irrefl _)
  | cons c w =>
    rw [hw] at happend
    obtain ⟨rfl, -⟩ := List.cons.inj happend
    exact ⟨w, rfl⟩

/-- Where a space or the end comes next, there is no word. -/
theorem word_of_isSeparated {tail : List Char} (h : IsSeparated tail) : word tail = ([], tail) := by
  -- a space ends a word at once
  cases tail with
  | nil => rfl
  | cons c tail =>
    obtain rfl : c = ' ' := h
    rfl

/-- A character that stands for itself, also in front of other characters. -/
theorem word_cons {c : Char} {rest : List Char} (hends : endsWord c = false)
    (hquote : ∀ r, c = '\\' → rest = '"' :: r → False)
    (hback : ∀ r, c = '\\' → rest = '\\' :: r → False) :
    word (c :: rest) = (c :: (word rest).1, (word rest).2) := by
  rw [word, hends, if_neg Bool.false_ne_true]
  · exact fun r hc hr => hquote r hc hr
  · exact fun r hc hr => hback r hc hr

/-- A word is read again where a space or the end follows. -/
theorem word_append {text w rest tail : List Char} (h : word text = (w, rest))
    (htail : IsSeparated tail) : word (w ++ tail) = (w, tail) := by
  -- induction along the reader; the cases of escaped pairs differ only in their second character
  fun_induction word text generalizing w rest with
  | case1 | case4 =>
    cases h
    exact word_of_isSeparated htail
  | case2 r v t hword ih | case3 r v t hword ih =>
    cases h
    rw [List.cons_append, List.cons_append, word, ih hword]
  | case5 c r hquote hback hends v t hword ih =>
    cases h
    have hr : r = v ++ t := by
      rw [← append_word r, hword]
    -- what follows the character is the rest of the word, or the space behind it
    have hnext : ∀ d, c = '\\' → (∀ r', r = d :: r' → False) → d ≠ ' ' →
        ∀ r', v ++ tail = d :: r' → False := by
      intro d _ hd hspace r' hv
      cases v with
      | nil =>
        rw [List.nil_append] at hv
        rw [hv] at htail
        exact hspace htail
      | cons e v =>
        obtain ⟨rfl, -⟩ := List.cons.inj hv
        exact hd _ hr
    -- an escaped pair would need its second character in the word itself, where there was none
    rw [List.cons_append, word_cons (Bool.eq_false_iff.2 hends), ih hword]
    · exact fun r' hc => hnext '"' hc (fun r'' => hquote r'' hc) (by decide) r'
    · exact fun r' hc => hnext '\\' hc (fun r'' => hback r'' hc) (by decide) r'

/-- A word without backslashes. -/
theorem IsLexeme.plain {c : Char} {rest : List Char}
    (h : ∀ d ∈ c :: rest, endsWord d = false ∧ d ≠ '\\') : IsLexeme (c :: rest) := by
  -- without backslashes no pair of characters is looked at together
  have hword : ∀ w : List Char, (∀ d ∈ w, endsWord d = false ∧ d ≠ '\\') →
      RomAsm.word w = (w, []) := by
    intro w hw
    induction w with
    | nil => rfl
    | cons d w ih =>
      obtain ⟨hends, hback⟩ := hw d List.mem_cons_self
      rw [word_cons hends (fun _ hd => absurd hd hback) (fun _ hd => absurd hd hback),
        ih fun e he => hw e (List.mem_cons_of_mem d he)]
  exact .word (h c List.mem_cons_self).1 (hword _ h)

theorem isSpace_of_isPunctuation {c : Char} (h : isPunctuation c = true) : isSpace c = false := by
  have hall : (punctuation.all fun d => !isSpace d) = true := by decide
  simpa using List.all_eq_true.1 hall c (List.contains_iff_mem.1 h)

/-- A lexeme begins with a character that belongs to no gap. -/
theorem IsLexeme.scan {text tail : List Char} (h : IsLexeme text) (htail : IsSeparated tail) :
    Gap.scan (text ++ tail) = .reached [] (text ++ tail) := by
  -- a slash would begin a comment together with the next character, but it stands alone here
  obtain ⟨c, rest, hcons, hspace, hslash⟩ : ∃ c rest, text ++ tail = c :: rest ∧
      isSpace c = false ∧ (c = '/' → IsSeparated rest) := by
    cases h with
    | @string body h => exact ⟨'"', body ++ tail, rfl, rfl, fun h => absurd h (by decide)⟩
    | @punctuation c h => exact ⟨c, tail, rfl, isSpace_of_isPunctuation h, fun _ => htail⟩
    | @word c rest hends h =>
      refine ⟨c, rest ++ tail, rfl, ?_, ?_⟩
      · simp only [endsWord, Bool.or_eq_false_iff] at hends
        exact hends.1.1
      · rintro rfl
        cases hends
  rw [hcons, Gap.scan]
  unfold Gap.scanFrom
  -- the gap is empty as soon as neither a comment nor a blank begins
  split
  · next e =>
    cases e
    cases hslash rfl
  · next e =>
    cases e
    cases hslash rfl
  · next e =>
    cases e
    rw [hspace, if_neg Bool.false_ne_true]
  all_goals contradiction

/-- Texts with single spaces between them, as characters. -/
theorem Text.toList_spaced (texts : List String) :
    (Text.spaced texts).toList = Text.joinChars [' '] (texts.map String.toList) := by
  have hspace : " ".toList = [' '] := by simp
  rw [Text.spaced, Text.join, String.toList_ofList, hspace]

/-- A space belongs to the gap in front of a lexeme. -/
theorem scan_space {text : List Char} (h : Gap.scan text = .reached [] text) :
    Gap.scan (' ' :: text) = .reached [' '] text := by
  change (Gap.scan text).behind [' '] = _
  rw [h]
  rfl

namespace Source

variable {s : Source}

/-- From its first character on a lexeme is read to its end. -/
theorem lexemeAt_isLexeme {c : Cursor} {first : Char} {rest tail : List Char}
    (h : IsLexeme (first :: rest)) (htail : IsSeparated tail) :
    s.lexemeAt c first (rest ++ tail) =
      .lexeme ⟨String.ofList (first :: rest), s.locate c.position⟩
        (c.past (first :: rest) tail) := by
  unfold lexemeAt
  cases h with
  -- a literal is complete in itself, so what follows does not matter
  | string h => rw [if_pos rfl, closeString_append h, List.nil_append]
  | punctuation h =>
    have hquote : first ≠ '"' := by
      rintro rfl
      cases h
    rw [if_neg hquote, if_pos h]
    rfl
  | word hends h =>
    simp only [endsWord, Bool.or_eq_false_iff, decide_eq_false_iff_not] at hends
    obtain ⟨⟨-, hpunctuation⟩, hquote⟩ := hends
    -- a word ends where the separator begins
    rw [if_neg hquote, hpunctuation, if_neg Bool.false_ne_true, ← List.cons_append,
      word_append h htail]

/-- **One lexeme is read**, at the beginning of the source or behind a space. -/
theorem next_lexeme {p : Position} {gap text tail : List Char} (hgap : gap = [] ∨ gap = [' '])
    (h : IsLexeme text) (htail : IsSeparated tail) :
    s.next ⟨gap ++ (text ++ tail), p⟩ =
      .lexeme ⟨String.ofList text, s.locate (p.after gap)⟩ ⟨tail, (p.after gap).after text⟩ := by
  obtain ⟨first, rest, rfl⟩ : ∃ first rest, text = first :: rest := by
    cases h <;> exact ⟨_, _, rfl⟩
  have hscan :
      Gap.scan (gap ++ (first :: rest ++ tail)) = .reached gap (first :: rest ++ tail) := by
    rcases hgap with rfl | rfl
    · exact h.scan htail
    · exact scan_space (h.scan htail)
  unfold next
  rw [hscan]
  exact lexemeAt_isLexeme h htail

/-! ### Lexemes with spaces between them -/

/-- The lexemes of some texts that stand one after the other, with single spaces between them. -/
def lexemesFrom (s : Source) (p : Position) : List (List Char) → List Lexeme
  | [] => []
  | text :: rest =>
    ⟨String.ofList text, s.locate p⟩ :: s.lexemesFrom (p.after (text ++ [' '])) rest

/-- At the end of the source there is nothing to collect. -/
theorem collect_of_ended {α : Type} {view : Lexeme → Except Failure (List α)} {c after : Cursor}
    (h : s.next c = .ended after) : (s.collect view c).1 = .ok [] := by
  rw [collect]
  split <;> simp_all

/-- A lexeme is looked at, and then the rest is collected. -/
theorem collect_eq_of_lexeme {α : Type} {view : Lexeme → Except Failure (List α)}
    {c after : Cursor} {l : Lexeme} (h : s.next c = .lexeme l after) :
    (s.collect view c).1 =
      match view l with
      | .error failure => .error failure
      | .ok items => (s.collect view after).1.map (items ++ ·) := by
  rw [collect]
  split
  · next e => rw [h] at e; cases e
  · next e => rw [h] at e; cases e
  · next e =>
    rw [h] at e
    cases e
    cases view l <;> rfl

/-- The items of a lexeme come in front of the others. -/
theorem collect_of_lexeme {α : Type} {view : Lexeme → Except Failure (List α)}
    {c after : Cursor} {l : Lexeme} {items more : List α} (h : s.next c = .lexeme l after)
    (hview : view l = .ok items) (hmore : (s.collect view after).1 = .ok more) :
    (s.collect view c).1 = .ok (items ++ more) := by
  rw [collect_eq_of_lexeme h, hview, hmore]
  rfl

/-- What follows the first of some texts: nothing, or a space and the others. -/
theorem exists_joinChars (text : List Char) (rest : List (List Char)) :
    ∃ tail, Text.joinChars [' '] (text :: rest) = text ++ tail ∧ IsSeparated tail ∧
      (rest = [] ∧ tail = [] ∨ rest ≠ [] ∧ tail = ' ' :: Text.joinChars [' '] rest) := by
  cases rest with
  | nil => exact ⟨[], (List.append_nil text).symm, trivial, .inl ⟨rfl, rfl⟩⟩
  | cons next rest =>
    refine ⟨' ' :: Text.joinChars [' '] (next :: rest), ?_, rfl, .inr ⟨nofun, rfl⟩⟩
    rw [Text.joinChars, List.append_assoc]
    · rfl
    · exact nofun

/-- **A text falls apart into the lexemes it was made of.** -/
theorem collect_lexemes {α : Type} {view : Lexeme → Except Failure (List α)}
    {f : Lexeme → List α} {texts : List (List Char)} (h : ∀ text ∈ texts, IsLexeme text)
    {gap : List Char} (hgap : gap = [] ∨ gap = [' '] ∧ texts ≠ []) (p : Position)
    (hview : ∀ l ∈ s.lexemesFrom (p.after gap) texts, view l = .ok (f l)) :
    (s.collect view ⟨gap ++ Text.joinChars [' '] texts, p⟩).1 =
      .ok ((s.lexemesFrom (p.after gap) texts).flatMap f) := by
  -- the gap is empty in front of the first text only; it is generalized so that it can be a space
  induction texts generalizing gap p with
  | nil =>
    obtain rfl : gap = [] := hgap.resolve_right fun h => h.2 rfl
    have hended : s.next ⟨[], p⟩ = .ended ⟨[], p⟩ := rfl
    exact collect_of_ended hended
  | cons text rest ih =>
    obtain ⟨tail, hjoin, htail, hrest⟩ := exists_joinChars text rest
    have hnext := next_lexeme (s := s) (p := p) (hgap.imp_right And.left)
      (h text List.mem_cons_self) htail
    rw [hjoin, lexemesFrom, List.flatMap_cons]
    refine collect_of_lexeme hnext (hview _ List.mem_cons_self) ?_
    -- the others are read from behind the next space on
    have hview' : ∀ l ∈ s.lexemesFrom ((p.after gap).after (text ++ [' '])) rest,
        view l = .ok (f l) := fun l hl => hview l (List.mem_cons_of_mem _ hl)
    have hafter : ((p.after gap).after (text ++ [' '])) =
        Position.after ((p.after gap).after text) [' '] := List.foldl_append
    rcases hrest with ⟨rfl, rfl⟩ | ⟨hne, rfl⟩
    · have hended (q : Position) : s.next ⟨[], q⟩ = .ended ⟨[], q⟩ := rfl
      exact collect_of_ended (hended _)
    · rw [hafter] at hview' ⊢
      exact ih (fun text' htext => h text' (List.mem_cons_of_mem _ htext)) (.inr ⟨rfl, hne⟩) _
        hview'

/-- The lexemes have the texts they were made of. -/
theorem exists_text {p : Position} {texts : List (List Char)} {l : Lexeme}
    (hl : l ∈ s.lexemesFrom p texts) : ∃ text ∈ texts, l.text = String.ofList text := by
  induction texts generalizing p with
  | nil => cases hl
  | cons text rest ih =>
    rcases List.mem_cons.1 hl with rfl | hl
    · exact ⟨text, List.mem_cons_self, rfl⟩
    · obtain ⟨text', htext, heq⟩ := ih hl
      exact ⟨text', List.mem_cons_of_mem _ htext, heq⟩

/-- Where the lexemes stand. -/
theorem exists_position {p : Position} {n : Nat} (hp : p.IsBelow n) {texts : List (List Char)}
    {l : Lexeme} (hl : l ∈ s.lexemesFrom p texts) :
    ∃ q, l.location = s.locate q ∧ q.IsBelow (n + (Text.joinChars [' '] texts).length) := by
  induction texts generalizing p n with
  | nil => cases hl
  | cons text rest ih =>
    obtain ⟨tail, hjoin, -, hrest⟩ := exists_joinChars text rest
    rcases List.mem_cons.1 hl with rfl | hl
    · exact ⟨p, rfl, hp.mono (by omega)⟩
    · obtain ⟨q, hq, hbelow⟩ := ih (hp.after _) hl
      refine ⟨q, hq, hbelow.mono ?_⟩
      -- a text that is not the last one has at least the space behind it
      rcases hrest with ⟨rfl, -⟩ | ⟨-, rfl⟩
      · cases hl
      · rw [hjoin]
        simp only [List.length_append, List.length_cons, List.length_nil]
        omega

end Source

end RomAsm
