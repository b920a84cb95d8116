import Mathlib.Algebra.Ring.Parity
import RomAsm.Proofs.Positions

/-!
# Quotes and backslashes

Whether a quote counts is a matter of the backslashes right before it: behind an odd number of them
it is escaped. Reading does not count, it goes forward and takes characters in pairs, and in a word
it pairs other characters than in a string literal. Both come to the same:

* `closeString_cases` — a string literal ends with the first quote that is not escaped, counted from
  the beginning of the literal;
* `word_escaped`, `word_ends` — a word goes up to the first white space, punctuation or quote that
  is not escaped, counted in the whole text.

A word may begin only where the count is even, if it begins with a quote or a backslash at all
(`Aligned`). That is the case wherever reading stands between two lexemes.
-/

namespace RomAsm

/-- The number of backslashes at the end of a text. -/
def backslashes (text : List Char) : Nat := (text.reverse.takeWhile (· == '\\')).length

@[simp] theorem backslashes_nil : backslashes [] = 0 := rfl

@[simp] theorem backslashes_backslash (text : List Char) :
    backslashes (text ++ ['\\']) = backslashes text + 1 := by
  simp [backslashes]

theorem backslashes_concat {c : Char} (h : c ≠ '\\') (text : List Char) :
    backslashes (text ++ [c]) = 0 := by
  simp [backslashes, h]

/-- All quotes of a text that stands behind another one are escaped. -/
def Escaped (before text : List Char) : Prop :=
  ∀ u v, text = u ++ '"' :: v → ¬ Even (backslashes (before ++ u))

/-- A text without quotes has none that are not escaped. -/
theorem escaped_nil (before : List Char) : Escaped before [] := by
  intro u v h
  exact absurd h.symm (by simp)

/-- One character more in front of a text. -/
theorem escaped_cons {before text : List Char} {c : Char}
    (hc : c = '"' → ¬ Even (backslashes before)) (h : Escaped (before ++ [c]) text) :
    Escaped before (c :: text) := by
  intro u v heq
  cases u with
  | nil =>
    rw [List.append_nil]
    exact hc (List.cons.inj heq).1
  | cons d u =>
    obtain ⟨rfl, htext⟩ := List.cons.inj heq
    have hquote := h u v htext
    rwa [List.append_assoc, List.singleton_append] at hquote

/-- A backslash and the character behind it, which may be a quote. -/
theorem escaped_pair {before text : List Char} (hbefore : Even (backslashes before)) (c : Char)
    (h : Escaped (before ++ ['\\', c]) text) : Escaped before ('\\' :: c :: text) := by
  have hodd : ¬ Even (backslashes (before ++ ['\\'])) := by
    rw [backslashes_backslash, Nat.even_add_one]
    exact not_not_intro hbefore
  refine escaped_cons (fun hc => absurd hc (by decide)) (escaped_cons (fun _ => hodd) ?_)
  rwa [List.append_assoc]

/-- Behind a backslash and the character it takes with it the count is even again. -/
theorem even_backslashes_pair {before : List Char} (h : Even (backslashes before)) (c : Char) :
    Even (backslashes (before ++ ['\\', c])) := by
  have hsplit : before ++ ['\\', c] = before ++ ['\\'] ++ [c] := by simp
  rw [hsplit]
  by_cases hc : c = '\\'
  · rw [hc, backslashes_backslash, backslashes_backslash]
    exact h.add even_two
  · rw [backslashes_concat hc]
    exact Even.zero

/-! ### String literals -/

/-- **The end of a string literal** is its first quote that is not escaped. The literal is not
closed if there is no such quote. -/
theorem closeString_cases (inner : List Char) (h : Even (backslashes inner)) (text : List Char) :
    (closeString text = none ∧ Escaped inner text) ∨
      ∃ body rest, closeString text = some (body ++ ['"'], rest) ∧ text = body ++ '"' :: rest ∧
        Escaped inner body ∧ Even (backslashes (inner ++ body)) := by
  -- `inner` is what has been read of the literal; pairs keep its count even
  fun_induction closeString text generalizing inner with
  | case1 => exact .inl ⟨rfl, escaped_nil inner⟩
  | case2 rest =>
    refine .inr ⟨[], rest, rfl, rfl, escaped_nil inner, ?_⟩
    rwa [List.append_nil]
  -- a backslash takes the character behind it, quote or not
  | case3 c rest ih =>
    rcases ih _ (even_backslashes_pair h c) with ⟨hnone, hescaped⟩ |
      ⟨body, tail, hsome, rfl, hescaped, heven⟩
    · exact .inl ⟨by rw [hnone]; rfl, escaped_pair h c hescaped⟩
    · refine .inr ⟨'\\' :: c :: body, tail, by rw [hsome]; rfl, rfl, escaped_pair h c hescaped, ?_⟩
      rwa [List.append_assoc] at heven
  | case4 c rest hquote hescape ih =>
    have hne : c = '"' → ¬ Even (backslashes inner) := fun hc => absurd hc hquote
    by_cases hback : c = '\\'
    · -- a backslash with nothing behind it
      cases rest with
      | nil => exact .inl ⟨rfl, escaped_cons hne (escaped_nil _)⟩
      | cons d rest => exact (hescape d rest hback rfl).elim
    · have hzero : Even (backslashes (inner ++ [c])) := by
        rw [backslashes_concat hback]
        exact Even.zero
      rcases ih _ hzero with ⟨hnone, hescaped⟩ | ⟨body, tail, hsome, rfl, hescaped, heven⟩
      · exact .inl ⟨by rw [hnone]; rfl, escaped_cons hne hescaped⟩
      · refine .inr ⟨c :: body, tail, by rw [hsome]; rfl, rfl, escaped_cons hne hescaped, ?_⟩
        rwa [List.append_assoc] at heven

/-! ### Words -/

/-- The count of backslashes is even in front of a quote and in front of a backslash. -/
def Aligned (before text : List Char) : Prop :=
  ∀ c rest, text = c :: rest → c = '"' ∨ c = '\\' → Even (backslashes before)

/-- A word that stands behind `before` goes no further: the text ends, or there is white space,
punctuation or a quote that is not escaped. -/
def EndsWord (before text : List Char) : Prop :=
  ∀ c rest, text = c :: rest → isSpace c = true ∨ isPunctuation c = true ∨
    c = '"' ∧ Even (backslashes before)

theorem aligned_of_even {before : List Char} (h : Even (backslashes before)) (text : List Char) :
    Aligned before text := by
  intro c rest _ _
  exact h

/-- What is said of a word at its beginning, told from behind a pair of characters. -/
theorem aligned_pair {before rest : List Char} {c : Char}
    (h : Aligned before ('\\' :: c :: rest)) : Even (backslashes before) ∧
      Aligned (before ++ ['\\', c]) rest := by
  have heven : Even (backslashes before) := h '\\' _ rfl (.inr rfl)
  exact ⟨heven, aligned_of_even (even_backslashes_pair heven c) rest⟩

/-- A single character of a word: a backslash stands alone only where it has nothing to escape. -/
theorem aligned_single (before : List Char) {rest : List Char} {c : Char}
    (hquote : ∀ r, c = '\\' → rest = '"' :: r → False)
    (hback : ∀ r, c = '\\' → rest = '\\' :: r → False) : Aligned (before ++ [c]) rest := by
  intro d tail hrest hd
  by_cases hc : c = '\\'
  · rcases hd with rfl | rfl
    · exact (hquote tail hc hrest).elim
    · exact (hback tail hc hrest).elim
  · rw [backslashes_concat hc]
    exact Even.zero

/-- **The quotes of a word** are escaped. -/
theorem word_escaped {before text : List Char} (h : Aligned before text) :
    Escaped before (word text).1 := by
  -- `before` is all that stands in front of what is left of the word, in the whole text
  fun_induction word text generalizing before with
  | case1 => exact escaped_nil before
  | case2 rest w tail hword ih | case3 rest w tail hword ih =>
    -- a backslash takes a quote or another backslash with it
    obtain ⟨heven, haligned⟩ := aligned_pair h
    rw [hword] at ih
    exact escaped_pair heven _ (ih haligned)
  | case4 => exact escaped_nil before
  | case5 c rest hquote hback hends w tail hword ih =>
    rw [hword] at ih
    refine escaped_cons ?_ (ih (aligned_single before hquote hback))
    rintro rfl
    exact absurd rfl hends

/-- **The end of a word.** -/
theorem word_ends {before text : List Char} (h : Aligned before text) :
    EndsWord (before ++ (word text).1) (word text).2 := by
  fun_induction word text generalizing before with
  | case1 => exact fun c rest hrest => absurd hrest (by simp)
  -- after a pair the word goes on, with a longer text in front of it
  | case2 rest w tail hword ih | case3 rest w tail hword ih =>
    have hlater := ih (aligned_pair h).2
    rwa [hword, List.append_assoc] at hlater
  | case4 c rest _ _ hends =>
    -- the word is empty, so a quote here stands where the count is even
    intro d tail hrest
    obtain ⟨rfl, rfl⟩ := List.cons.inj hrest
    simp only [endsWord, Bool.or_eq_true, decide_eq_true_eq] at hends
    rw [List.append_nil]
    rcases hends with (hspace | hpunctuation) | rfl
    · exact .inl hspace
    · exact .inr (.inl hpunctuation)
    · exact .inr (.inr ⟨rfl, h '"' rest rfl (.inl rfl)⟩)
  | case5 c rest hquote hback _ w tail hword ih =>
    have hlater := ih (aligned_single before hquote hback)
    rwa [hword, List.append_assoc] at hlater

end RomAsm
