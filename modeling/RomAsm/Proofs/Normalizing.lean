import RomAsm.Proofs.SameSymbols
import RomAsm.Proofs.Tokens

/-!
# Normalized texts

The normalized text of a source has its lexemes with single spaces between them. A space never
changes a lexeme: each text that was read as a lexeme is read again as the same one
(`Source.isLexeme_of_next`), so the normalized text has the same lexemes, and normalizing it once
more gives it back.

What a lexeme is classified as depends on its text only, and so does what is wrong with it. So the
symbols are the same at other places, or the same problem is reported at another place
(`SameFault`).

* `Source.lexemes_normalized` — the lexemes of a normalized text;
* `Source.SameEnd`, `Source.classifyText_sameEnd`, `Source.viewAll_sameEnd` — one lexeme, and all of
  them, in two sources;
* `Source.normalize_idempotent` — what follows for a source and its normalized text.
-/

namespace RomAsm

/-! ### Lexemes are read again -/

/-- A string literal is closed by its last quote, whatever stood behind it. -/
theorem closeString_self {text body rest : List Char}
    (h : closeString text = some (body, rest)) : closeString body = some (body, []) := by
  fun_induction closeString text generalizing body rest with
  | case1 => cases h
  -- the closing quote
  | case2 r =>
    cases h
    rfl
  -- a backslash and the character behind it
  | case3 c r ih =>
    obtain ⟨⟨b, r'⟩, hb, heq⟩ := Option.map_eq_some_iff.1 h
    cases heq
    rw [closeString, ih hb]
    rfl
  | case4 c r hquote hescape ih =>
    obtain ⟨⟨b, r'⟩, hb, heq⟩ := Option.map_eq_some_iff.1 h
    cases heq
    -- a backslash would have taken the first character of the rest with it
    have hback : c ≠ '\\' := by
      rintro rfl
      cases r with
      | nil => cases hb
      | cons d r => exact hescape d r rfl rfl
    rw [closeString, ih hb]
    · rfl
    · exact hquote
    · exact fun _ _ hc => absurd hc hback

namespace Source

variable {s t : Source}

/-- What is read at a first character is a lexeme. -/
theorem isLexeme_of_lexemeAt {c after : Cursor} {l : Lexeme} {first : Char} {rest : List Char}
    (hspace : isSpace first = false) (h : s.lexemeAt c first rest = .lexeme l after) :
    IsLexeme l.text.toList := by
  have hreads := s.readsAt_lexemeAt c first rest
  rw [h] at hreads
  cases hreads with
  | string hclose =>
    rw [String.toList_ofList]
    exact .string (closeString_self hclose)
  | punctuation hpunctuation =>
    rw [String.toList_singleton]
    exact .punctuation hpunctuation
  | word hquote hpunctuation =>
    -- a word is read again if nothing follows
    have hends : endsWord first = false := by
      simp [endsWord, hspace, hquote, hpunctuation]
    obtain ⟨w, hw⟩ := exists_word rest hends
    have hword : word (first :: rest) = (first :: w, (word (first :: rest)).2) :=
      Prod.ext hw rfl
    have hself := @word_append _ _ _ [] hword trivial
    rw [List.append_nil] at hself
    rw [String.toList_ofList, hw]
    exact .word hends hself

/-- **What was read as a lexeme** is one wherever a space or the end follows. -/
theorem isLexeme_of_next {c after : Cursor} {l : Lexeme} (h : s.next c = .lexeme l after) :
    IsLexeme l.text.toList := by
  obtain ⟨gap, first, rest, hscan, hlexeme⟩ := exists_lexemeAt h
  exact isLexeme_of_lexemeAt (Gap.isSpace_scanFrom hscan) hlexeme

/-! ### The lexemes of a normalized text -/

/-- The texts of lexemes that are laid out with spaces. -/
theorem map_text_lexemesFrom (p : Position) (texts : List (List Char)) :
    (s.lexemesFrom p texts).map (·.text) = texts.map String.ofList := by
  induction texts generalizing p with
  | nil => rfl
  | cons text texts ih =>
    rw [lexemesFrom, List.map_cons, List.map_cons, ih]

/-- **A normalized text** has the lexemes of the source it was made from. -/
theorem lexemes_normalized {ls : List Lexeme} (hls : s.lexemes = .ok ls)
    (ht : t.text = (Text.spaced (ls.map (·.text))).toList) :
    ∃ ls', t.lexemes = .ok ls' ∧ ls'.map (·.text) = ls.map (·.text) := by
  have hlexemes : ∀ text ∈ ls.map (·.text.toList), IsLexeme text := by
    intro text htext
    obtain ⟨l, hl, rfl⟩ := List.mem_map.1 htext
    obtain ⟨c, after, -, hnext⟩ := exists_visits hls l hl
    exact isLexeme_of_next hnext
  -- a text that is spaced begins like one with a gap in front, here an empty one
  have hstart : t.start =
      ⟨[] ++ Text.joinChars [' '] (ls.map (·.text.toList)), t.start.position⟩ := by
    rw [start, ht, Text.toList_spaced, List.map_map]
    rfl
  refine ⟨t.lexemesFrom t.start.position (ls.map (·.text.toList)), ?_, ?_⟩
  · have hcollect := collect_lexemes (s := t) (f := fun l => [l]) hlexemes (.inl rfl)
      t.start.position fun _ _ => rfl
    rw [← hstart, List.flatMap_singleton'] at hcollect
    exact hcollect
  · rw [map_text_lexemesFrom, List.map_map]
    refine List.map_congr_left fun l _ => ?_
    exact String.ofList_toList

theorem normalize_eq_ok {text : String} (h : s.normalize = .ok text) :
    ∃ ls, s.lexemes = .ok ls ∧ text = Text.spaced (ls.map (·.text)) := by
  obtain ⟨ls, hls, htext⟩ := Trace.except_bind_eq_ok.1 h
  exact ⟨ls, hls, (Except.ok.inj htext).symm⟩

/-! ### The same symbols in two sources -/

/-- Two failures with the same cause, met in two sources: a problem with one word that is reported
at a token of each, or a word that goes beyond a limit. -/
inductive SameFault (s t : Source) : Failure → Failure → Prop where
  | reported {p : Problem} {word : String} {l l' : Location} (hword : p.word? = some word)
      (hl : s.Token l) (hl' : t.Token l') : SameFault s t (s.report p l) (t.report p l')
  | fault (f : Numeral.Fault) : SameFault s t (.numeral f) (.numeral f)
  | tooManyMarks : SameFault s t .tooManyMarks .tooManyMarks

/-- Two sources come to symbols that differ in their locations only, or to the same fault. -/
def SameEnd (s t : Source) : Except Failure (List Symbol) → Except Failure (List Symbol) → Prop
  | .ok xs, .ok ys => List.Forall₂ (fun x y => x.alike y = true) xs ys
  | .error f, .error g => SameFault s t f g
  | _, _ => False

theorem alike_located (x : Symbol) (l : Option Location) :
    Symbol.alike x { x with location := l } = true := by
  simp [Symbol.alike]

/-- What comes first is put in front in both sources. -/
theorem SameEnd.append {a b : Except Failure (List Symbol)} {xs ys : List Symbol}
    (hfirst : List.Forall₂ (fun x y => x.alike y = true) xs ys) (h : SameEnd s t a b) :
    SameEnd s t (a.map (xs ++ ·)) (b.map (ys ++ ·)) := by
  cases a with
  | error f =>
    cases b with
    | error g => exact h
    | ok _ => exact h.elim
  | ok xs' =>
    cases b with
    | error _ => exact h.elim
    | ok ys' => exact List.rel_append hfirst h

/-- **A lexeme without a sign** is classified by its text. -/
theorem classifyPlain_sameEnd {text : List Char} {l l' : Location} (hne : text ≠ [])
    (h : s.Reads text l) (h' : t.Reads text l') :
    SameEnd s t ((s.classifyPlain text l).map fun x => [x])
      ((t.classifyPlain text l').map fun x => [x]) := by
  -- the verdict on a word knows neither the source nor the place
  obtain ⟨v, hv, hproblem⟩ := hasVerdict_classifyPlain text
  have hs : s.classifyPlain text l = v.outcome s text l := hv s l
  have ht : t.classifyPlain text l' = v.outcome t text l' := hv t l'
  rw [hs, ht]
  cases v with
  | symbol kind value => exact .cons (alike_located _ _) .nil
  | problem p => exact .reported (hproblem p rfl) (.lexeme h hne) (.lexeme h' hne)
  | fault f => exact .fault f

/-- A sign in front of a lexeme, where there is room for it. -/
theorem outcome_classifyText_sign {marks : Option Nat} (hmarks : marks ≠ some 0) (rest : List Char)
    (l : Location) :
    (s.classifyText marks ('!' :: rest) l).outcome =
      (s.classifyText (marks.map (· - 1)) rest { l with column := l.column + 1 }).outcome.map
        ([⟨.immediate, "!", none, some l⟩] ++ ·) := by
  rw [classifyText, if_pos rfl, if_neg hmarks]
  unfold Classified.outcome
  dsimp only
  cases (s.classifyText (marks.map (· - 1)) rest _).failure <;> rfl

/-- A lexeme without a sign in front. -/
theorem outcome_classifyText_plain {c : Char} (hc : c ≠ '!') (marks : Option Nat)
    (rest : List Char) (l : Location) : (s.classifyText marks (c :: rest) l).outcome =
      (s.classifyPlain (c :: rest) l).map fun x => [x] := by
  rw [classifyText, if_neg hc]
  cases s.classifyPlain (c :: rest) l <;> rfl

/-- **One lexeme in two sources.** -/
theorem classifyText_sameEnd (marks : Option Nat) {text : List Char} {l l' : Location}
    (h : s.Reads text l) (h' : t.Reads text l') :
    SameEnd s t (s.classifyText marks text l).outcome (t.classifyText marks text l').outcome := by
  -- a sign is the same symbol in both sources, and what is left begins one column later in both
  induction text generalizing marks l l' with
  | nil => exact .nil
  | cons c rest ih =>
    by_cases hc : c = '!'
    · subst hc
      by_cases hmarks : marks = some 0
      · subst hmarks
        exact .tooManyMarks
      · rw [outcome_classifyText_sign hmarks, outcome_classifyText_sign hmarks]
        exact (ih _ h.next h'.next).append (.cons (alike_located _ _) .nil)
    · rw [outcome_classifyText_plain hc, outcome_classifyText_plain hc]
      exact classifyPlain_sameEnd (List.cons_ne_nil c rest) h h'

/-- **The same lexemes in two sources**, for readers with the same room. -/
theorem viewAll_sameEnd {ls ls' : List Lexeme} (hroom : t.markLimit = s.markLimit)
    (htexts : ls'.map (·.text) = ls.map (·.text))
    (hls : ∀ l ∈ ls, s.Reads l.text.toList l.location)
    (hls' : ∀ l ∈ ls', t.Reads l.text.toList l.location) :
    SameEnd s t (viewAll (fun l => (s.classify l).outcome) ls)
      (viewAll (fun l => (t.classify l).outcome) ls') := by
  -- along the lexemes, which come in the same order
  induction ls generalizing ls' with
  | nil =>
    obtain rfl := List.map_eq_nil_iff.1 htexts
    exact .nil
  | cons l ls ih =>
    obtain ⟨l', ls', rfl, htext, htexts⟩ := List.map_eq_cons_iff.1 htexts
    obtain ⟨hl, hls⟩ := List.forall_mem_cons.1 hls
    obtain ⟨hl', hls'⟩ := List.forall_mem_cons.1 hls'
    rw [htext] at hl'
    have hfirst : SameEnd s t (s.classify l).outcome (t.classify l').outcome := by
      rw [classify, classify, htext, hroom]
      exact classifyText_sameEnd s.markLimit hl hl'
    have hlater := ih htexts hls hls'
    rw [viewAll, viewAll]
    -- the first lexeme ends the reading in both sources or in neither
    generalize (s.classify l).outcome = a at hfirst
    generalize (t.classify l').outcome = b at hfirst
    cases a with
    | error f =>
      cases b with
      | error g => exact hfirst
      | ok _ => exact hfirst.elim
    | ok xs =>
      cases b with
      | error _ => exact hfirst.elim
      | ok ys => exact hlater.append hfirst

/-! ### Reports -/

/-- The line and the column of every token can be written, and a caret can be set below it. -/
def Reportable (s : Source) : Prop :=
  ∀ l, s.Token l → l.isWritable = true ∧
    Excess.ofCharacters? (Diagnostic.caretIndent l.column.toNat) = none

/-- All but unheard-of texts are reportable. -/
theorem reportable_of_length (hfirst : s.firstLine = 1)
    (hlength : s.text.length + 5 ≤ Excess.indexLimit) : s.Reportable := by
  intro l hl
  obtain ⟨before, first, rest, htext, rfl⟩ := hl.splits
  have hbefore : before.length + 6 ≤ Excess.indexLimit := by
    rw [htext, List.length_append, List.length_cons] at hlength
    omega
  have hstart : s.start.position.IsBelow 1 := by
    rw [start, hfirst]
    exact ⟨Int.le_refl 1, Int.le_refl 1, Int.le_refl 1, Int.le_refl 1⟩
  -- every character leads at most one line or one column further
  have hbelow := hstart.after before
  have hlimit : Numeral.isWritable (Excess.indexLimit : Nat) = true := by decide +kernel
  refine ⟨(hbelow.mono (by omega)).isWritable hlimit s, ?_⟩
  have hcolumn := hbelow.column_le
  show Excess.ofCharacters? (3 + (s.start.position.after before).column.toNat) = none
  rw [Excess.ofCharacters?, if_neg (by omega)]

/-- In a reportable source, a problem with a word becomes a diagnostic. -/
theorem report_eq_diagnostic {p : Problem} {word : String} {l : Location}
    (hword : p.word? = some word) (hs : s.Reportable) (hl : s.Token l) :
    s.report p l = .diagnostic ⟨p, some l, s.line? l.line⟩ := by
  obtain ⟨hwritable, hcaret⟩ := hs l hl
  -- problems with a word have no numbers to write
  have hintegers : p.integers = [] := by
    cases p with
    | unknownMarker | unknownDirectiveWord | invalidNumber | invalidIdentifier => rfl
    | _ => cases hword
  -- a caret is set only if there is a line to quote
  have hexcess : Diagnostic.caretExcess? ⟨p, some l, s.line? l.line⟩ = none := by
    unfold Diagnostic.caretExcess?
    dsimp only
    split
    · split
      · next hl _ =>
        cases hl
        exact hcaret
      · rfl
    · rfl
  rw [report, Failure.ofDiagnostic, hexcess, Diagnostic.isWritable, hintegers]
  simp [hwritable]

/-- So the same fault gives the same message, if both sources are reportable. -/
theorem SameFault.alike {f g : Failure} (h : SameFault s t f g) (hs : s.Reportable)
    (ht : t.Reportable) : f.Alike g := by
  cases h with
  | reported hword hl hl' =>
    rw [report_eq_diagnostic hword hs hl, report_eq_diagnostic hword ht hl']
    exact ⟨rfl, rfl⟩
  | fault f => rfl
  | tooManyMarks => rfl

/-- **Normalizing is idempotent and keeps the tokens.** A normalized text, in a file of any name and
at any line, is its own normalized text. It has the lexemes of the source it was made from. For a
reader with the same room, its symbols differ from those of the source in their locations only, or
the same fault is met in both; then the messages are the same, unless a line or a column is too
large to be shown. -/
theorem normalize_idempotent (s t : Source) {text : String} (h : s.normalize = .ok text)
    (ht : t.text = text.toList) :
    t.normalize = .ok text ∧
      (∃ ls ls', s.lexemes = .ok ls ∧ t.lexemes = .ok ls' ∧
        ls'.map (·.text) = ls.map (·.text)) ∧
      (t.markLimit = s.markLimit → SameEnd s t s.symbols t.symbols ∧
        ∀ f g, s.symbols = .error f → t.symbols = .error g → s.Reportable → t.Reportable →
          f.Alike g) := by
  obtain ⟨ls, hls, rfl⟩ := normalize_eq_ok h
  obtain ⟨ls', hls', htexts⟩ := lexemes_normalized hls ht
  have hreads : ∀ l ∈ ls, s.Reads l.text.toList l.location := by
    intro l hl
    obtain ⟨c, after, hc, hnext⟩ := exists_visits hls l hl
    exact .of_next hc hnext
  have hreads' : ∀ l ∈ ls', t.Reads l.text.toList l.location := by
    intro l hl
    obtain ⟨c, after, hc, hnext⟩ := exists_visits hls' l hl
    exact .of_next hc hnext
  refine ⟨?_, ⟨ls, ls', hls, hls', htexts⟩, fun hroom => ?_⟩
  · rw [normalize, hls', ← htexts]
    rfl
  · have hend : SameEnd s t s.symbols t.symbols := by
      have hs : s.symbols = _ := collect_eq_viewAll s.start hls
      have ht : t.symbols = _ := collect_eq_viewAll t.start hls'
      rw [hs, ht]
      exact viewAll_sameEnd hroom htexts hreads hreads'
    refine ⟨hend, ?_⟩
    intro f g hf hg hs ht
    rw [hf, hg] at hend
    exact SameFault.alike hend hs ht

end Source

/-- A source with a comment, a string literal that looks like one, and a number that is none. -/
def crowded : Source where
  text := "\"a  // b\"/*c*/LDA // d\n\t!12ab".toList
  file := "p.asm"

/-- The same in normalized form. -/
def tidied : Source where
  text := "\"a  // b\" LDA !12ab".toList
  file := "q.asm"

/-- The problem is the same in both, shown at another place in another line. -/
theorem tidied_alike : tidied.normalize = .ok "\"a  // b\" LDA !12ab" ∧
    ∃ d e, crowded.symbols = .error (.diagnostic d) ∧ tidied.symbols = .error (.diagnostic e) ∧
      d.text = "p.asm:2:3: error: invalid number '12ab'\n    \t!12ab\n      ^" ∧
      e.text = "q.asm:1:16: error: invalid number '12ab'\n    \"a  // b\" LDA !12ab\n" ++
        "                   ^" ∧
      (Failure.diagnostic d).Alike (.diagnostic e) := by
  have hnormalize : crowded.normalize = .ok "\"a  // b\" LDA !12ab" := by cbv
  have hcrowded : crowded.symbols = .error (.diagnostic
      ⟨.invalidNumber "12ab", some ⟨"p.asm", 2, 3⟩, some "\t!12ab"⟩) := by cbv
  have htidied : tidied.symbols = .error (.diagnostic
      ⟨.invalidNumber "12ab", some ⟨"q.asm", 1, 16⟩, some "\"a  // b\" LDA !12ab"⟩) := by cbv
  obtain ⟨hagain, -, hsame⟩ := Source.normalize_idempotent crowded tidied hnormalize rfl
  obtain ⟨-, halike⟩ := hsame rfl
  have hreportable : crowded.Reportable := Source.reportable_of_length rfl (by decide)
  have hreportable' : tidied.Reportable := Source.reportable_of_length rfl (by decide)
  exact ⟨hagain, _, _, hcrowded, htidied, rfl, rfl,
    halike _ _ hcrowded htidied hreportable hreportable'⟩

end RomAsm
