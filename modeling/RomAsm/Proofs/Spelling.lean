import Mathlib.Data.List.Forall2
import RomAsm.Proofs.Lexing
import RomAsm.Source.Token

/-!
# Reading symbols back

A program can be written down as a list of symbols, by the texts of the symbols with single spaces
between them. Reading that text gives the symbols back, each with the location of its text.

`Symbol.Spelled` are the symbols that can be written down in this way. The text of such a symbol is
one lexeme (`Symbol.Spelled.isLexeme`), and that lexeme is classified as the symbol
(`Symbol.Spelled.classify`). With the lemmas about lexemes, this gives `Source.symbols_ofSymbols`.
-/

namespace RomAsm

/-! ### Words -/

/-- A character of a word. -/
def IsWordChar (c : Char) : Prop := endsWord c = false ∧ c ≠ '\\'

instance (c : Char) : Decidable (IsWordChar c) := inferInstanceAs (Decidable (_ ∧ _))

/-- A letter, a digit or an underscore. -/
def isAlphanumeric (c : Char) : Bool := beginsIdentifier c || ('0' ≤ c && c ≤ '9')

/-- Letters, digits and underscores are among the first 128 characters. -/
theorem toNat_lt_of_isAlphanumeric {c : Char} (h : isAlphanumeric c = true) : c.toNat < 128 := by
  simp only [isAlphanumeric, beginsIdentifier, Bool.or_eq_true, Bool.and_eq_true,
    decide_eq_true_eq] at h
  rcases h with ((⟨-, h⟩ | ⟨-, h⟩) | rfl) | ⟨-, h⟩
  · exact Nat.lt_of_le_of_lt (show c.toNat ≤ 'Z'.toNat from h) (by decide)
  · exact Nat.lt_of_le_of_lt (show c.toNat ≤ 'z'.toNat from h) (by decide)
  · decide
  · exact Nat.lt_of_le_of_lt (show c.toNat ≤ '9'.toNat from h) (by decide)

/-- What holds of the letters, digits and underscores, by looking at each of them. -/
theorem forall_isAlphanumeric {p : Char → Bool}
    (h : ∀ n < 128, isAlphanumeric (Char.ofNat n) = true → p (Char.ofNat n) = true) {c : Char}
    (hc : isAlphanumeric c = true) : p c = true := by
  have hp := h c.toNat (toNat_lt_of_isAlphanumeric hc)
  rw [Char.ofNat_toNat] at hp
  exact hp hc

theorem isWordChar_of_isAlphanumeric {c : Char} (h : isAlphanumeric c = true) : IsWordChar c :=
  of_decide_eq_true (forall_isAlphanumeric (p := fun c => decide (IsWordChar c)) (by decide) h)

/-- A digit of any base is a letter or a decimal digit. -/
theorem Numeral.isAlphanumeric_of_digitOf? {base d : Nat} {c : Char}
    (h : digitOf? base c = some d) : isAlphanumeric c = true := by
  obtain ⟨h, -⟩ := Option.filter_eq_some_iff.1 h
  -- digits, then small letters, then capital ones
  unfold digitValue? at h
  split at h
  · next hdigit => simp [isAlphanumeric, hdigit]
  · split at h
    · next hlower => simp [isAlphanumeric, beginsIdentifier, hlower]
    · split at h
      · next hupper => simp [isAlphanumeric, beginsIdentifier, hupper]
      · cases h

/-- A digit of base ten is no letter. -/
theorem Numeral.digit_of_digitOf? {d : Nat} {c : Char} (h : digitOf? 10 c = some d) :
    ('0' ≤ c && c ≤ '9') = true := by
  obtain ⟨h, hd⟩ := Option.filter_eq_some_iff.1 h
  unfold digitValue? at h
  split at h
  · next hdigit => simpa using hdigit
  · split at h
    · cases h
      -- a letter stands for ten at least
      simp only [decide_eq_true_eq] at hd
      omega
    · split at h
      · cases h
        simp only [decide_eq_true_eq] at hd
        omega
      · cases h

/-- All of a list can be mapped if its head and its tail can. -/
theorem mapM_cons_eq_some {α β : Type} {f : α → Option β} {a : α} {as : List α} {bs : List β} :
    (a :: as).mapM f = some bs ↔
      ∃ b bs', f a = some b ∧ as.mapM f = some bs' ∧ bs = b :: bs' := by
  rw [List.mapM_cons]
  cases f a <;> cases as.mapM f <;> simp [eq_comm]

/-- A run of digits is not empty and has nothing but digits. -/
theorem Numeral.digitRun?_eq_some {base : Nat} {text : List Char} {digits : List Nat}
    (h : digitRun? base text = some digits) :
    text ≠ [] ∧ ∀ c ∈ text, ∃ d, digitOf? base c = some d := by
  unfold digitRun? at h
  split at h
  · cases h
  · next hempty =>
    refine ⟨fun hnil => hempty (by rw [hnil]; rfl), ?_⟩
    -- along the digits; only the first is known to be there
    induction text generalizing digits with
    | nil => exact nofun
    | cons c rest ih =>
      obtain ⟨d, ds, hd, hds, -⟩ := mapM_cons_eq_some.1 h
      intro c' hc'
      rcases List.mem_cons.1 hc' with rfl | hc'
      · exact ⟨d, hd⟩
      · by_cases hrest : rest.isEmpty = true
        · rw [List.isEmpty_iff.1 hrest] at hc'
          cases hc'
        · exact ih hrest hds c' hc'

/-- A literal is a word that begins with a digit. -/
theorem Numeral.Literal.word_of_ofChars? {text : List Char} {l : Literal}
    (h : ofChars? text = some l) :
    (∀ c ∈ text, IsWordChar c) ∧ ∃ c rest, text = c :: rest ∧ ('0' ≤ c && c ≤ '9') = true := by
  -- digits are letters and digits in every base, and so are the marks in front of them
  have hrun {base : Nat} {text : List Char} {digits : List Nat}
      (h : digitRun? base text = some digits) : ∀ c ∈ text, IsWordChar c := by
    intro c hc
    obtain ⟨d, hd⟩ := (digitRun?_eq_some h).2 c hc
    exact isWordChar_of_isAlphanumeric (isAlphanumeric_of_digitOf? hd)
  have hmarked {base : Nat} {mark : Char} {rest : List Char} {digits : List Nat}
      (hmark : IsWordChar mark) (h : digitRun? base rest = some digits) :
      (∀ c ∈ '0' :: mark :: rest, IsWordChar c) ∧
        ∃ c rest', '0' :: mark :: rest = c :: rest' ∧ ('0' ≤ c && c ≤ '9') = true := by
    refine ⟨?_, '0', mark :: rest, rfl, rfl⟩
    intro c hc
    rcases List.mem_cons.1 hc with rfl | hc
    · decide
    · rcases List.mem_cons.1 hc with rfl | hc
      · exact hmark
      · exact hrun h c hc
  unfold ofChars? at h
  split at h
  · obtain ⟨digits, hdigits, -⟩ := Option.map_eq_some_iff.1 h
    exact hmarked (by decide) hdigits
  · obtain ⟨digits, hdigits, -⟩ := Option.map_eq_some_iff.1 h
    exact hmarked (by decide) hdigits
  · obtain ⟨digits, hdigits, -⟩ := Option.map_eq_some_iff.1 h
    exact hmarked (by decide) hdigits
  · obtain ⟨digits, hdigits, -⟩ := Option.map_eq_some_iff.1 h
    exact hmarked (by decide) hdigits
  · -- without a mark in front, the first digit is one of base ten
    obtain ⟨digits, hdigits, -⟩ := Option.map_eq_some_iff.1 h
    refine ⟨hrun hdigits, ?_⟩
    obtain ⟨hne, hdigit⟩ := digitRun?_eq_some hdigits
    obtain ⟨c, rest, rfl⟩ := List.exists_cons_of_ne_nil hne
    obtain ⟨d, hd⟩ := hdigit c List.mem_cons_self
    exact ⟨c, rest, rfl, digit_of_digitOf? hd⟩

/-- A literal has no sign, so it is read as a number right away. -/
theorem Numeral.integer?_of_ofChars? {text : List Char} {l : Literal}
    (h : Literal.ofChars? text = some l) :
    integer? text = l.read.map fun n => some (n : Int) := by
  obtain ⟨-, c, rest, htext, hdigit⟩ := Literal.word_of_ofChars? h
  unfold integer?
  split
  · -- a minus sign is no digit
    obtain ⟨rfl, -⟩ := List.cons.inj htext
    cases hdigit
  · rw [h]

/-! ### Classified words -/

/-- The same symbol at a place. -/
def Symbol.at (s : Symbol) (place : Option Location) : Symbol := { s with location := place }

/-- How mnemonics are spelled. -/
theorem Machine.isMnemonic_spelling {text : String} (h : isMnemonic text = true) :
    ∃ c rest, text.toList = c :: rest ∧ (∀ d ∈ c :: rest, isAlphanumeric d = true) ∧
      ('0' ≤ c && c ≤ '9') = false := by
  -- the table is small enough to look at each mnemonic
  have hall : ∀ i ∈ instructions, i.mnemonic.toList.all isAlphanumeric = true ∧
      i.mnemonic.toList.head?.any (fun c => !('0' ≤ c && c ≤ '9')) = true := by decide
  obtain ⟨i, hi, heq⟩ := List.any_eq_true.1 h
  obtain rfl := eq_of_beq heq
  obtain ⟨hchars, hhead⟩ := hall i hi
  cases hlist : i.mnemonic.toList with
  | nil =>
    rw [hlist] at hhead
    cases hhead
  | cons c rest =>
    rw [hlist] at hchars hhead
    exact ⟨c, rest, rfl, List.all_eq_true.1 hchars, by
      simpa only [List.head?_cons, Option.any_some, Bool.not_eq_true'] using hhead⟩

/-- How directives are spelled. -/
theorem Machine.mem_directives_spelling {text : String} (h : text ∈ directives) :
    ∃ rest, text.toList = '.' :: rest ∧ ∀ c ∈ rest, isAlphanumeric c = true := by
  have hall : ∀ t ∈ directives, t.toList.head? = some '.' ∧
      t.toList.tail.all isAlphanumeric = true := by decide
  obtain ⟨hhead, hchars⟩ := hall text h
  obtain ⟨rest, hlist⟩ := List.head?_eq_some_iff.1 hhead
  refine ⟨rest, hlist, ?_⟩
  rw [hlist] at hchars
  exact List.all_eq_true.1 hchars

/-- Only a word that begins with a dot is a directive. -/
theorem Machine.contains_directives {text : String} {c : Char} {rest : List Char}
    (htext : text.toList = c :: rest) (hc : c ≠ '.') : directives.contains text = false := by
  refine Bool.eq_false_iff.2 fun hmem => ?_
  obtain ⟨rest', hrest, -⟩ := mem_directives_spelling (List.contains_iff_mem.1 hmem)
  exact hc (List.cons.inj (htext.symm.trans hrest)).1

/-- How markers are spelled. -/
theorem Machine.lookup_markers_spelling {text : String} {mode : Mode}
    (h : markers.lookup text = some mode) :
    ∃ rest, text.toList = '#' :: rest ∧ ∀ c ∈ rest, isAlphanumeric c = true := by
  have hall : ∀ m ∈ markers, m.1.toList.head? = some '#' ∧
      m.1.toList.tail.all isAlphanumeric = true := by decide
  have hmem : (text, mode) ∈ markers := by
    obtain ⟨before, after, hsplit, -⟩ := List.lookup_eq_some_iff.1 h
    rw [hsplit]
    exact List.mem_append_right _ List.mem_cons_self
  obtain ⟨hhead, hchars⟩ := hall (text, mode) hmem
  obtain ⟨rest, hlist⟩ := List.head?_eq_some_iff.1 hhead
  refine ⟨rest, hlist, ?_⟩
  rw [hlist] at hchars
  exact List.all_eq_true.1 hchars

/-- A word is a mnemonic, a directive or a marker, or else a number or a name. -/
theorem Source.classifyPlain_word (s : Source) {text : String} {c : Char} {rest : List Char}
    (htext : text.toList = c :: rest) (hc : IsWordChar c) (location : Location) :
    s.classifyPlain text.toList location =
      if Machine.isMnemonic text then .ok ⟨.mnemonic, text, none, some location⟩
      else if Machine.directives.contains text then .ok ⟨.directive, text, none, some location⟩
      else match Machine.markers.lookup text with
        | some mode =>
          .ok ⟨if mode = .stack then .stack else .accumulator, text, none, some location⟩
        | none =>
          if c = '#' then .error (s.report (.unknownMarker text) location)
          else if c = '.' then .error (s.report (.unknownDirectiveWord text) location)
          else s.classifyOperand text.toList location := by
  have hends := hc.1
  simp only [endsWord, Bool.or_eq_false_iff, decide_eq_false_iff_not] at hends
  obtain ⟨⟨-, hpunctuation⟩, hquote⟩ := hends
  -- neither a string literal nor a lone punctuation character begins with it
  have hsingle : ¬ ((c :: rest).length = 1 ∧ (c :: rest).all isPunctuation = true) := by
    rw [List.all_cons, hpunctuation, Bool.false_and]
    exact fun h => Bool.false_ne_true h.2
  unfold classifyPlain
  rw [String.ofList_toList, htext]
  simp only [List.head?_cons, Option.some.injEq]
  exact (if_neg hquote).trans (if_neg hsingle)

/-- A word that begins with a letter, a digit or an underscore is no directive and no marker. -/
theorem Source.classifyPlain_alphanumeric (s : Source) {text : String} {c : Char}
    {rest : List Char} (htext : text.toList = c :: rest) (hc : isAlphanumeric c = true)
    (location : Location) :
    s.classifyPlain text.toList location =
      if Machine.isMnemonic text then .ok ⟨.mnemonic, text, none, some location⟩
      else s.classifyOperand text.toList location := by
  have hdot : c ≠ '.' ∧ c ≠ '#' :=
    of_decide_eq_true
      (forall_isAlphanumeric (p := fun c => decide (c ≠ '.' ∧ c ≠ '#')) (by decide) hc)
  have hmarker : Machine.markers.lookup text = none := by
    cases hlookup : Machine.markers.lookup text with
    | none => rfl
    | some mode =>
      obtain ⟨rest', hrest, -⟩ := Machine.lookup_markers_spelling hlookup
      exact absurd (List.cons.inj (htext.symm.trans hrest)).1 hdot.2
  rw [s.classifyPlain_word htext (isWordChar_of_isAlphanumeric hc),
    Machine.contains_directives htext hdot.1, hmarker, if_neg Bool.false_ne_true]
  simp only [if_neg hdot.1, if_neg hdot.2]

/-- A text that spells a name: an identifier that is no mnemonic. -/
def IsName (text : String) : Prop :=
  isIdentifierText text.toList = true ∧ Machine.isMnemonic text = false

instance (text : String) : Decidable (IsName text) := inferInstanceAs (Decidable (_ ∧ _))

/-- How names are spelled. -/
theorem IsName.spelling {text : String} (h : IsName text) :
    ∃ c rest, text.toList = c :: rest ∧ (∀ d ∈ c :: rest, isAlphanumeric d = true) ∧
      beginsIdentifier c = true := by
  have hident := h.1
  cases hlist : text.toList with
  | nil =>
    rw [hlist] at hident
    cases hident
  | cons c rest =>
    rw [hlist, isIdentifierText, Bool.and_eq_true] at hident
    refine ⟨c, rest, rfl, ?_, hident.1⟩
    intro d hd
    rcases List.mem_cons.1 hd with rfl | hd
    · rw [isAlphanumeric, hident.1, Bool.true_or]
    · exact List.all_eq_true.1 hident.2 d hd

/-- What begins an identifier begins no literal, and is no digit of any script. -/
theorem IsName.integer? {text : String} (h : IsName text) :
    Numeral.integer? text.toList = .ok none ∧ text.toList.head?.any Text.isDigit = false := by
  obtain ⟨c, rest, hlist, hchars, hbegins⟩ := h.spelling
  have hc := hchars c List.mem_cons_self
  -- all at once, so that the letters are gone through a single time
  have hother : c ≠ '-' ∧ c ≠ '0' ∧ Numeral.digitOf? 10 c = none ∧ Text.isDigit c = false := by
    have h := forall_isAlphanumeric (p := fun c => !beginsIdentifier c || decide (c ≠ '-' ∧
      c ≠ '0' ∧ Numeral.digitOf? 10 c = none ∧ Text.isDigit c = false)) (by decide +kernel) hc
    rw [hbegins] at h
    exact of_decide_eq_true h
  obtain ⟨hminus, hzero, hdigit, hscript⟩ := hother
  have hrun : Numeral.digitRun? 10 (c :: rest) = none := by
    rw [Numeral.digitRun?, List.mapM_cons, hdigit]
    rfl
  -- a literal begins with a zero and a mark, or with a digit of base ten
  have hliteral : Numeral.Literal.ofChars? (c :: rest) = none := by
    unfold Numeral.Literal.ofChars?
    split
    · next e => exact absurd (List.cons.inj e).1 hzero
    · next e => exact absurd (List.cons.inj e).1 hzero
    · next e => exact absurd (List.cons.inj e).1 hzero
    · next e => exact absurd (List.cons.inj e).1 hzero
    · rw [hrun]
      rfl
  rw [hlist]
  refine ⟨?_, hscript⟩
  unfold Numeral.integer?
  split
  · next e => exact absurd (List.cons.inj e).1 hminus
  · rw [hliteral]

/-! ### Symbols that can be read back -/

/-- A character of a word with letters and digits behind it is a lexeme. -/
theorem IsLexeme.of_alphanumeric {text : List Char} {c : Char} {rest : List Char}
    (htext : text = c :: rest) (hc : IsWordChar c) (hrest : ∀ d ∈ rest, isAlphanumeric d = true) :
    IsLexeme text := by
  subst htext
  refine .plain fun d hd => ?_
  rcases List.mem_cons.1 hd with rfl | hd
  · exact hc
  · exact isWordChar_of_isAlphanumeric (hrest d hd)

namespace Symbol

/-- The symbols, without a location, whose text is read as the symbol. -/
inductive Spelled : Symbol → Prop where
  | operator {text : String} {c : Char} (htext : text.toList = [c]) (h : isPunctuation c = true) :
    Spelled ⟨.operator, text, none, none⟩
  | string {body : List Char} (h : closeString body = some (body, [])) :
    Spelled ⟨.string, String.ofList ('"' :: body), none, none⟩
  | mnemonic {text : String} (h : Machine.isMnemonic text = true) :
    Spelled ⟨.mnemonic, text, none, none⟩
  | directive {text : String} (h : text ∈ Machine.directives) :
    Spelled ⟨.directive, text, none, none⟩
  | marker {text : String} {mode : Machine.Mode} (h : Machine.markers.lookup text = some mode) :
    Spelled ⟨if mode = .stack then .stack else .accumulator, text, none, none⟩
  | immediate : Spelled ⟨.immediate, "!", none, none⟩
  | integer {text : String} {l : Numeral.Literal} {n : Nat}
    (h : Numeral.Literal.ofChars? text.toList = some l) (hread : l.read = .ok n) :
    Spelled ⟨.integer, text, some n, none⟩
  | identifier {text : String} (h : IsName text) : Spelled ⟨.identifier, text, none, none⟩

/-- **The text of a spelled symbol is one lexeme.** -/
theorem Spelled.isLexeme {s : Symbol} (h : s.Spelled) : IsLexeme s.text.toList := by
  cases h with
  | operator htext h =>
    rw [htext]
    exact .punctuation h
  | string h =>
    rw [String.toList_ofList]
    exact .string h
  | mnemonic h =>
    obtain ⟨c, rest, htext, hchars, -⟩ := Machine.isMnemonic_spelling h
    exact .of_alphanumeric htext (isWordChar_of_isAlphanumeric (hchars c List.mem_cons_self))
      fun d hd => hchars d (List.mem_cons_of_mem c hd)
  | directive h =>
    obtain ⟨rest, htext, hchars⟩ := Machine.mem_directives_spelling h
    exact .of_alphanumeric htext (by decide) hchars
  | marker h =>
    obtain ⟨rest, htext, hchars⟩ := Machine.lookup_markers_spelling h
    exact .of_alphanumeric htext (by decide) hchars
  | immediate => exact .plain (List.forall_mem_singleton.2 ⟨rfl, by decide⟩)
  | integer h _ =>
    obtain ⟨hword, c, rest, htext, -⟩ := Numeral.Literal.word_of_ofChars? h
    rw [htext] at hword ⊢
    exact .plain hword
  | identifier h =>
    obtain ⟨c, rest, htext, hchars, -⟩ := h.spelling
    exact .of_alphanumeric htext (isWordChar_of_isAlphanumeric (hchars c List.mem_cons_self))
      fun d hd => hchars d (List.mem_cons_of_mem c hd)

/-- A lexeme that does not begin with a sign is one symbol. -/
theorem classify_of_plain (source : Source) {s : Symbol} {c : Char} {rest : List Char}
    (htext : s.text.toList = c :: rest) (hc : c ≠ '!') {l : Location}
    (hplain : source.classifyPlain s.text.toList l = .ok (s.at (some l))) :
    (source.classify ⟨s.text, l⟩).outcome = .ok [s.at (some l)] := by
  rw [htext] at hplain
  change (source.classifyText source.markLimit s.text.toList l).outcome = _
  rw [htext, Source.classifyText, if_neg hc, hplain]
  rfl

/-- A mnemonic begins with a letter. -/
theorem isMnemonic_eq_false {text : String} {c : Char} {rest : List Char}
    (htext : text.toList = c :: rest)
    (hc : isAlphanumeric c = false ∨ ('0' ≤ c && c ≤ '9') = true) :
    Machine.isMnemonic text = false := by
  refine Bool.eq_false_iff.2 fun hm => ?_
  obtain ⟨c', rest', hlist, hchars, hletter⟩ := Machine.isMnemonic_spelling hm
  obtain ⟨rfl, -⟩ := List.cons.inj (htext.symm.trans hlist)
  rcases hc with hc | hc
  · rw [hchars c List.mem_cons_self] at hc
    cases hc
  · rw [hc] at hletter
    cases hletter

/-- **A spelled symbol is read as itself**, at its location, if there is room for the sign `!`. -/
theorem Spelled.classify {s : Symbol} (h : s.Spelled) {source : Source}
    (hroom : source.markLimit ≠ some 0) (l : Location) :
    (source.classify ⟨s.text, l⟩).outcome = .ok [s.at (some l)] := by
  have hmark {c : Char} (hc : isAlphanumeric c = true) : c ≠ '!' :=
    of_decide_eq_true (forall_isAlphanumeric (p := fun c => decide (c ≠ '!')) (by decide) hc)
  -- the first character tells the classes apart, but for mnemonics and names
  cases h with
  | @operator text c htext h =>
    have hc : c ≠ '!' ∧ c ≠ '"' := by
      have hall : (punctuation.all fun d => d != '!' && d != '"') = true := by decide
      simpa using List.all_eq_true.1 hall c (List.contains_iff_mem.1 h)
    refine classify_of_plain source htext hc.1 ?_
    rw [Source.classifyPlain, String.ofList_toList, htext]
    simp [hc.2, h, Symbol.at]
  | @string body h =>
    refine classify_of_plain source String.toList_ofList (by decide) ?_
    rw [String.toList_ofList, Source.classifyPlain]
    rfl
  | mnemonic h =>
    obtain ⟨c, rest, htext, hchars, -⟩ := Machine.isMnemonic_spelling h
    have hc := hchars c List.mem_cons_self
    refine classify_of_plain source htext (hmark hc) ?_
    rw [source.classifyPlain_alphanumeric htext hc, if_pos h]
    rfl
  | @directive text h =>
    obtain ⟨rest, htext, -⟩ := Machine.mem_directives_spelling h
    refine classify_of_plain source htext (by decide) ?_
    have hmnemonic : Machine.isMnemonic text = false := isMnemonic_eq_false htext (.inl (by decide))
    rw [source.classifyPlain_word htext (by decide), hmnemonic, if_neg Bool.false_ne_true,
      if_pos (List.contains_iff_mem.2 h)]
    rfl
  | @marker text mode h =>
    obtain ⟨rest, htext, -⟩ := Machine.lookup_markers_spelling h
    refine classify_of_plain source htext (by decide) ?_
    have hmnemonic : Machine.isMnemonic text = false := isMnemonic_eq_false htext (.inl (by decide))
    rw [source.classifyPlain_word htext (by decide), hmnemonic, if_neg Bool.false_ne_true,
      Machine.contains_directives htext (by decide), if_neg Bool.false_ne_true, h]
    rfl
  -- the sign is taken off by itself, and nothing is left behind it
  | immediate =>
    have hlist : "!".toList = ['!'] := rfl
    change (source.classifyText source.markLimit "!".toList l).outcome = _
    rw [hlist, Source.classifyText, if_pos rfl, if_neg hroom]
    rfl
  | @integer text literal n h hread =>
    obtain ⟨-, c, rest, htext, hdigit⟩ := Numeral.Literal.word_of_ofChars? h
    have hc : isAlphanumeric c = true := by rw [isAlphanumeric, hdigit, Bool.or_true]
    refine classify_of_plain source htext (hmark hc) ?_
    have hmnemonic : Machine.isMnemonic text = false := isMnemonic_eq_false htext (.inr hdigit)
    have hinteger : Numeral.integer? text.toList = .ok (some n) := by
      rw [Numeral.integer?_of_ofChars? h, hread]
      rfl
    rw [source.classifyPlain_alphanumeric htext hc, hmnemonic, if_neg Bool.false_ne_true,
      Source.classifyOperand, hinteger, String.ofList_toList]
    rfl
  | @identifier text h =>
    obtain ⟨c, rest, htext, hchars, -⟩ := h.spelling
    have hc := hchars c List.mem_cons_self
    obtain ⟨hinteger, hdigit⟩ := h.integer?
    refine classify_of_plain source htext (hmark hc) ?_
    rw [source.classifyPlain_alphanumeric htext hc, h.2, if_neg Bool.false_ne_true,
      Source.classifyOperand, hinteger, String.ofList_toList]
    change (if text.toList.head?.any Text.isDigit = true then _ else _) = _
    rw [hdigit, if_neg Bool.false_ne_true, h.1]
    rfl

end Symbol

/-! ### Whole sources -/

/-- The source that is written as the given symbols, with single spaces between them, for a reader
with room for so many signs in front of a word. -/
def Source.ofSymbols (file : String) (markLimit : Option Nat) (symbols : List Symbol) : Source :=
  { text := (spelled symbols).toList, file := file, markLimit := markLimit }

/-- Each symbol is found again at the place of its lexeme. -/
theorem Source.forall₂_lexemesFrom (s : Source) {f : Lexeme → List Symbol} (symbols : List Symbol)
    (hf : ∀ t ∈ symbols, ∀ l, f ⟨t.text, l⟩ = [t.at (some l)]) (p : Position) :
    List.Forall₂ (fun t u => ∃ l ∈ s.lexemesFrom p (symbols.map fun t => t.text.toList),
        u = t.at (some l.location)) symbols
      ((s.lexemesFrom p (symbols.map fun t => t.text.toList)).flatMap f) := by
  induction symbols generalizing p with
  | nil => exact .nil
  | cons t symbols ih =>
    -- the next lexeme begins behind this one and the space that ends it
    have ih := ih (fun t ht => hf t (List.mem_cons_of_mem _ ht)) (p.after (t.text.toList ++ [' ']))
    rw [List.map_cons, lexemesFrom, List.flatMap_cons, String.ofList_toList,
      hf t List.mem_cons_self]
    refine .cons ⟨_, List.mem_cons_self, rfl⟩ (ih.imp ?_)
    rintro t u ⟨l, hl, hu⟩
    exact ⟨l, List.mem_cons_of_mem _ hl, hu⟩

/-- The lexemes of a source that is written as spelled symbols. -/
theorem Source.collect_ofSymbols {α : Type} (file : String) (markLimit : Option Nat)
    {symbols : List Symbol}
    (h : ∀ t ∈ symbols, t.Spelled) (view : Lexeme → Except Failure (List α))
    (f : Lexeme → List α) (hview : ∀ t ∈ symbols, ∀ l, view ⟨t.text, l⟩ = .ok (f ⟨t.text, l⟩)) :
    ((ofSymbols file markLimit symbols).collect view (ofSymbols file markLimit symbols).start).1 =
      .ok (((ofSymbols file markLimit symbols).lexemesFrom ⟨1, 1⟩
        (symbols.map fun t => t.text.toList)).flatMap f) := by
  -- the text begins like one with a gap in front, here an empty one
  have hstart : (ofSymbols file markLimit symbols).start =
      ⟨[] ++ Text.joinChars [' '] (symbols.map fun t => t.text.toList), ⟨1, 1⟩⟩ := by
    change (⟨(spelled symbols).toList, _⟩ : Cursor) = _
    rw [spelled, Text.toList_spaced, List.map_map]
    rfl
  rw [hstart]
  refine collect_lexemes ?_ (.inl rfl) ⟨1, 1⟩ ?_
  · intro text htext
    obtain ⟨t, ht, rfl⟩ := List.mem_map.1 htext
    exact (h t ht).isLexeme
  · intro l hl
    obtain ⟨text, htext, hl⟩ := exists_text hl
    obtain ⟨t, ht, rfl⟩ := List.mem_map.1 htext
    obtain ⟨text, location⟩ := l
    obtain rfl : text = t.text := hl.trans String.ofList_toList
    exact hview t ht location

/-- **Reading gives back what was written.** A source that is written as spelled symbols is read as
these symbols, each with a location that can be written if the length of the source can. -/
theorem Source.symbols_ofSymbols (file : String) {markLimit : Option Nat}
    (hroom : markLimit ≠ some 0) {symbols : List Symbol} (h : ∀ t ∈ symbols, t.Spelled)
    (hlength : Numeral.isWritable ((spelled symbols).toList.length + 1 : Nat) = true) :
    ∃ located, (ofSymbols file markLimit symbols).symbols = .ok located ∧
      List.Forall₂ (fun t u => ∃ l : Location, l.isWritable = true ∧ u = t.at (some l))
        symbols located := by
  let f : Lexeme → List Symbol := fun l => ((ofSymbols file markLimit symbols).classify l).symbols
  have hclassify : ∀ t ∈ symbols, ∀ l,
      ((ofSymbols file markLimit symbols).classify ⟨t.text, l⟩).outcome = .ok (f ⟨t.text, l⟩) ∧
        f ⟨t.text, l⟩ = [t.at (some l)] := by
    intro t ht l
    have hroom : (ofSymbols file markLimit symbols).markLimit ≠ some 0 := hroom
    have houtcome := (h t ht).classify hroom l
    have hf : f ⟨t.text, l⟩ = [t.at (some l)] := by
      unfold Classified.outcome at houtcome
      split at houtcome
      · exact Except.ok.inj houtcome
      · cases houtcome
    exact ⟨houtcome.trans (congrArg _ hf.symm), hf⟩
  refine ⟨_, collect_ofSymbols file markLimit h _ f fun t ht l => (hclassify t ht l).1, ?_⟩
  refine (forall₂_lexemesFrom _ symbols (fun t ht l => (hclassify t ht l).2) ⟨1, 1⟩).imp ?_
  rintro t u ⟨l, hl, rfl⟩
  refine ⟨l.location, ?_, rfl⟩
  -- neither line nor column can get beyond the number of characters read
  have hbegin : Position.IsBelow ⟨1, 1⟩ 1 := ⟨by decide, by decide, by decide, by decide⟩
  obtain ⟨q, hq, hbelow⟩ := exists_position hbegin hl
  have htext : Text.joinChars [' '] (symbols.map fun t => t.text.toList) =
      (spelled symbols).toList := by
    rw [spelled, Text.toList_spaced, List.map_map]
    rfl
  rw [htext] at hbelow
  rw [hq]
  exact (hbelow.mono (Nat.le_of_eq (Nat.add_comm _ _))).isWritable hlength _

/-- Such a source can also be normalized. -/
theorem Source.normalize_ofSymbols (file : String) (markLimit : Option Nat) {symbols : List Symbol}
    (h : ∀ t ∈ symbols, t.Spelled) :
    ∃ text, (ofSymbols file markLimit symbols).normalize = .ok text := by
  have hlexemes :=
    collect_ofSymbols file markLimit h (fun l => .ok [l]) (fun l => [l]) fun _ _ _ => rfl
  exact ⟨_, Trace.except_bind_eq_ok.2 ⟨_, hlexemes, rfl⟩⟩

end RomAsm
