import RomAsm.Proofs.Genuine
import RomAsm.Proofs.Positions

/-!
# The tokens of a source

Reading goes from lexeme to lexeme (`Source.Visits`). A token begins where a lexeme begins, and
where the rest of one begins behind the signs in front of it; a string or a comment that is never
closed begins one as well (`Source.Token`). All of these are places in the text: a character of it
stands there (`Source.Token.splits`).

Reading a source ends in genuine symbols, all of them at tokens, or in a failure that is reported at
a token, or in one of two limits: a literal with too many digits and a word with too many signs.

* `Source.Reads` — what is left of a lexeme behind some signs, and where it begins;
* `Source.classifyText_ends`, `Source.symbols_ends` — the symbols of one lexeme, and of a source;
* `Source.normalize_ends` — the normalized text;
* `Source.collect_eq_viewAll` — all views of the lexemes are of the same lexemes.
-/

namespace RomAsm

/-! ### Places of tokens -/

namespace Source

/-- Where reading stands between two lexemes. -/
inductive Visits (s : Source) : Cursor → Prop where
  | start : s.Visits s.start
  | next {c after : Cursor} {l : Lexeme} (hc : s.Visits c) (hnext : s.next c = .lexeme l after) :
      s.Visits after

/-- A text that is left of a lexeme behind some signs, and the location at which it begins. -/
inductive Reads (s : Source) : List Char → Location → Prop where
  | intro {c after : Cursor} {l : Lexeme} {text : List Char} {marks : Nat} (hc : s.Visits c)
      (hnext : s.next c = .lexeme l after)
      (htext : l.text.toList = List.replicate marks '!' ++ text) :
      s.Reads text { l.location with column := l.location.column + marks }

/-- **Where tokens begin.** -/
inductive Token (s : Source) : Location → Prop where
  /-- A lexeme, or what is left of it behind some signs. -/
  | lexeme {text : List Char} {l : Location} (h : s.Reads text l) (htext : text ≠ []) : s.Token l
  /-- The quote of a string literal that is never closed. -/
  | openString {c : Cursor} {gap rest : List Char} (hc : s.Visits c)
      (hscan : Gap.scan c.rest = .reached gap ('"' :: rest)) (hopen : closeString rest = none) :
      s.Token (s.locate (c.position.after gap))
  /-- The mark of a comment that is never closed. -/
  | openComment {c : Cursor} {before : List Char} (hc : s.Visits c)
      (hscan : Gap.scan c.rest = .unclosed before) : s.Token (s.locate (c.position.after before))

end Source

/-- Signs are passed in their line, one column each. -/
theorem Position.after_marks (p : Position) (marks : Nat) :
    p.after (List.replicate marks '!') = ⟨p.line, p.column + marks⟩ := by
  induction marks generalizing p with
  | zero => simp [Position.after]
  | succ marks ih =>
    have hnext : p.next '!' = ⟨p.line, p.column + 1⟩ := if_neg (by decide)
    show (p.next '!').after (List.replicate marks '!') = _
    rw [ih, hnext, Nat.cast_succ, add_assoc, add_comm 1]

namespace Gap

/-- What has been taken stands in front of a comment that is never closed. -/
theorem End.unclosed_of_behind {taken before : List Char} {e : End}
    (h : e.behind taken = .unclosed before) :
    ∃ more, e = .unclosed more ∧ before = taken ++ more := by
  cases e with
  | reached _ _ => cases h
  | unclosed more =>
    cases h
    exact ⟨more, rfl, rfl⟩
  | inside => cases h

/-- A comment that has just been opened is that comment, or the comment comes later. -/
theorem End.unclosed_of_opened {before : List Char} {e : End} (h : e.opened = .unclosed before) :
    e = .inside ∧ before = [] ∨ ∃ more, e = .unclosed more ∧ before = ['/', '*'] ++ more := by
  cases e with
  | reached _ _ => cases h
  | unclosed _ => exact .inr (unclosed_of_behind h)
  | inside =>
    cases h
    exact .inl ⟨rfl, rfl⟩

/-- A comment that is never closed begins with its mark. -/
theorem append_of_unclosed {part : Part} {text before : List Char}
    (h : scanFrom part text = .unclosed before) : ∃ rest, text = before ++ '/' :: '*' :: rest := by
  fun_induction scanFrom part text generalizing before with
  -- one character or two are passed, and the comment comes later
  | case1 r ih | case6 r ih | case5 c r ih | case3 c r _ _ _ ih | case7 c r _ ih =>
    obtain ⟨more, hmore, rfl⟩ := End.unclosed_of_behind h
    obtain ⟨rest, rfl⟩ := ih hmore
    exact ⟨rest, rfl⟩
  -- a comment begins here: it is the one, or it is closed and another one follows
  | case2 r ih =>
    rcases End.unclosed_of_opened h with ⟨-, rfl⟩ | ⟨more, hmore, rfl⟩
    · exact ⟨r, rfl⟩
    · obtain ⟨rest, rfl⟩ := ih hmore
      exact ⟨rest, rfl⟩
  | case4 => cases h
  | case8 => cases h
  | case9 => cases h

end Gap

namespace Source

variable {s : Source}

/-- Reading stands behind some of the text, at the position that goes with it. -/
theorem Visits.splits {c : Cursor} (h : s.Visits c) :
    ∃ before, s.text = before ++ c.rest ∧ c.position = s.start.position.after before := by
  induction h with
  | start => exact ⟨[], rfl, rfl⟩
  | @next c after l hc hnext ih =>
    obtain ⟨before, htext, hposition⟩ := ih
    obtain ⟨gap, hrest, -, hafter⟩ := next_splits hnext
    -- the gap and the lexeme have been passed as well
    refine ⟨before ++ (gap ++ l.text.toList), ?_, ?_⟩
    · rw [htext, hrest, List.append_assoc before]
    · rw [hafter, hposition, ← Position.after_append]

/-- What is left of a lexeme stands in the text, where it is said to begin. -/
theorem Reads.splits {text : List Char} {l : Location} (h : s.Reads text l) :
    ∃ before rest, s.text = before ++ text ++ rest ∧
      l = s.locate (s.start.position.after before) := by
  cases h with
  | @intro c after lexeme text marks hc hnext htext =>
    obtain ⟨before, hbefore, hposition⟩ := hc.splits
    obtain ⟨gap, hrest, hlocation, -⟩ := next_splits hnext
    -- in front of it stand the gap and the signs
    refine ⟨before ++ (gap ++ List.replicate marks '!'), after.rest, ?_, ?_⟩
    · rw [hbefore, hrest, htext]
      simp only [List.append_assoc]
    · rw [Position.after_append, ← hposition, Position.after_append, Position.after_marks,
        hlocation]
      rfl

/-- A character of the text stands where a token begins. -/
theorem Token.splits {l : Location} (h : s.Token l) :
    ∃ before first rest, s.text = before ++ first :: rest ∧
      l = s.locate (s.start.position.after before) := by
  cases h with
  | @lexeme text l h hne =>
    obtain ⟨first, text, rfl⟩ := List.exists_cons_of_ne_nil hne
    obtain ⟨before, rest, htext, hl⟩ := h.splits
    exact ⟨before, first, text ++ rest, by rw [htext, List.append_assoc]; rfl, hl⟩
  | @openString c gap rest hc hscan =>
    obtain ⟨before, hbefore, hposition⟩ := hc.splits
    refine ⟨before ++ gap, '"', rest, ?_, ?_⟩
    · rw [hbefore, Gap.append_of_scanFrom hscan, List.append_assoc]
    · rw [Position.after_append, hposition]
  | @openComment c gap hc hscan =>
    obtain ⟨before, hbefore, hposition⟩ := hc.splits
    obtain ⟨rest, hrest⟩ := Gap.append_of_unclosed hscan
    refine ⟨before ++ gap, '/', '*' :: rest, ?_, ?_⟩
    · rw [hbefore, hrest, List.append_assoc]
    · rw [Position.after_append, hposition]

end Source

/-! ### What a lexeme can be -/

namespace Source

variable {s : Source}

/-- The three kinds of lexemes. -/
theorem text_of_lexemeAt {c after : Cursor} {l : Lexeme} {first : Char} {rest : List Char}
    (h : s.lexemeAt c first rest = .lexeme l after) :
    (∃ body, l.text.toList = '"' :: body) ∨
      (∃ c, l.text.toList = [c] ∧ isPunctuation c = true) ∨
      ∀ c ∈ l.text.toList, isSpace c = false ∧ isPunctuation c = false := by
  have hreads := s.readsAt_lexemeAt c first rest
  rw [h] at hreads
  cases hreads with
  | @string _ body => exact .inl ⟨body, String.toList_ofList⟩
  | punctuation hpunctuation =>
    exact .inr (.inl ⟨first, String.toList_singleton .., hpunctuation⟩)
  | word =>
    rw [String.toList_ofList]
    exact .inr (.inr plain_of_mem_word)

/-- What is left of a lexeme is a string literal, a single character of punctuation, or a text
without white space and punctuation. -/
theorem Reads.text_cases {text : List Char} {l : Location} (h : s.Reads text l) :
    (∃ body, text = '"' :: body) ∨ (∃ c, text = [c] ∧ isPunctuation c = true) ∨
      ∀ c ∈ text, isSpace c = false ∧ isPunctuation c = false := by
  cases h with
  | @intro c after lexeme text marks hc hnext htext =>
    obtain ⟨gap, first, rest, -, hlexeme⟩ := exists_lexemeAt hnext
    have hcases := text_of_lexemeAt hlexeme
    rw [htext] at hcases
    cases marks with
    | zero => exact hcases
    | succ marks =>
      -- a sign is neither a quote nor punctuation
      rw [List.replicate_succ, List.cons_append] at hcases
      rcases hcases with ⟨body, hbody⟩ | ⟨c, hc, hpunctuation⟩ | hall
      · cases (List.cons.inj hbody).1
      · obtain ⟨rfl, -⟩ := List.cons.inj hc
        cases hpunctuation
      · refine .inr (.inr fun c hc => hall c ?_)
        exact List.mem_cons_of_mem _ (List.mem_append_right _ hc)

/-! ### Reading -/

/-- The location of a symbol is where a token begins. -/
def AtToken (s : Source) (l : Option Location) : Prop := ∃ t, l = some t ∧ s.Token t

/-- A symbol as reading makes it: it is genuine, stands at a token, and its value has no sign. -/
structure IsRead (s : Source) (x : Symbol) : Prop where
  genuine : x.Genuine s.AtToken
  unsigned : ∀ n, x.value = some n → 0 ≤ n

/-- The failures of reading: a report at a token, or a limit of a single word. Signs are too many
only for a reader with bounded room. -/
inductive Misread (s : Source) : Failure → Prop where
  | reported {problem : Problem} {l : Location} (hl : s.Token l) : s.Misread (s.report problem l)
  | tooManyDigits {count : Nat} (h : Numeral.digitLimit < count) :
      s.Misread (.numeral (.tooManyDigits count))
  | tooManyMarks {limit : Nat} (h : s.markLimit = some limit) : s.Misread .tooManyMarks

/-- A symbol other than an integer and a marker. -/
theorem isRead_of_kind {kind : Kind} {text : String} {l : Location} (hl : s.Token l)
    (hkind : kind ≠ .integer ∧ kind ≠ .accumulator ∧ kind ≠ .stack) :
    s.IsRead ⟨kind, text, none, some l⟩ where
  genuine :=
    { place := ⟨l, rfl, hl⟩
      number := fun h => absurd (beq_iff_eq.1 h) hkind.1
      marker := fun h => absurd h (not_or.2 hkind.2) }
  unsigned := nofun

/-- Without a sign in front, a text has a value that is not negative, or none, or it has too many
digits. -/
theorem integer?_ends {text : List Char} (hsign : text.head? ≠ some '-') :
    Ends (fun o => ∀ n ∈ o, 0 ≤ n ∧ ∃ l, Numeral.Literal.ofChars? text = some l) s.Misread
      ((Numeral.integer? text).mapError .numeral) := by
  -- a literal without a sign has a value that is not negative, or too many digits
  have hread : ∀ l : Numeral.Literal, Numeral.Literal.ofChars? text = some l →
      Ends (fun o => ∀ n ∈ o, 0 ≤ n ∧ ∃ l, Numeral.Literal.ofChars? text = some l) s.Misread
        ((l.read.map fun n => some (n : Int)).mapError .numeral) := by
    intro l hl
    unfold Numeral.Literal.read
    split
    · next hlong => exact Misread.tooManyDigits hlong.2
    · rintro n ⟨⟩
      exact ⟨Int.natCast_nonneg _, l, hl⟩
  unfold Numeral.integer?
  split
  · exact absurd rfl hsign
  · split
    · next l hl => exact hread l hl
    · exact nofun

/-- A word that is nothing else is a number or a name, or it is reported. -/
theorem classifyOperand_ends {text : List Char} {l : Location} (hl : s.Token l)
    (hsign : text.head? ≠ some '-') : Ends s.IsRead s.Misread (s.classifyOperand text l) := by
  refine (integer?_ends hsign).bind fun o _ ho => ?_
  cases o with
  | some n =>
    obtain ⟨hn, literal, hliteral⟩ := ho n rfl
    refine ⟨⟨⟨l, rfl, hl⟩, fun _ => ⟨n, rfl, fun _ => ⟨literal, ?_⟩⟩, ?_⟩, ?_⟩
    · -- the symbol has the text of the literal
      rw [String.toList_ofList]
      exact hliteral
    · rintro (h | h) <;> cases h
    · rintro m ⟨⟩
      exact hn
  | none =>
    dsimp only
    split
    · exact Misread.reported hl
    · split
      · exact isRead_of_kind hl (by decide)
      · exact Misread.reported hl

/-- **A lexeme without a sign** is a symbol, or a failure reported where it begins. -/
theorem classifyPlain_ends {text : List Char} {l : Location} (h : s.Reads text l)
    (hne : text ≠ []) : Ends s.IsRead s.Misread (s.classifyPlain text l) := by
  have hl : s.Token l := .lexeme h hne
  -- by the cases of classification; only an operand and a marker have more to show than their place
  unfold classifyPlain
  dsimp only
  split
  · exact isRead_of_kind hl (by decide)
  · next hquote =>
    split
    · exact isRead_of_kind hl (by decide)
    · next hpunctuation =>
      split
      · exact isRead_of_kind hl (by decide)
      · split
        · exact isRead_of_kind hl (by decide)
        · split
          · next mode hmode =>
            refine ⟨⟨⟨l, rfl, hl⟩, ?_, fun _ => ⟨mode, hmode⟩⟩, nofun⟩
            intro hinteger
            have := beq_iff_eq.1 hinteger
            split at this <;> cases this
          · split
            · exact Misread.reported hl
            · split
              · exact Misread.reported hl
              · -- a sign would be punctuation, and stand alone
                refine classifyOperand_ends hl fun hsign => ?_
                obtain ⟨rest, rfl⟩ := List.head?_eq_some_iff.1 hsign
                rcases h.text_cases with ⟨body, hbody⟩ | ⟨c, hc, hc'⟩ | hall
                · cases hbody
                · cases hc
                  exact hpunctuation ⟨rfl, rfl⟩
                · exact absurd (hall '-' List.mem_cons_self).2 (by decide)

/-- Behind a sign the rest of the lexeme is read. -/
theorem Reads.next {rest : List Char} {l : Location} (h : s.Reads ('!' :: rest) l) :
    s.Reads rest { l with column := l.column + 1 } := by
  cases h with
  | @intro c after lexeme _ marks hc hnext htext =>
    -- one more sign has been passed
    have htext : lexeme.text.toList = List.replicate (marks + 1) '!' ++ rest := by
      rw [htext, List.replicate_succ', List.append_assoc]
      rfl
    have hreads := Reads.intro hc hnext htext
    rw [Nat.cast_succ, ← add_assoc] at hreads
    exact hreads

/-- **The symbols of a lexeme** are genuine, and its failure is reported where it begins. -/
theorem classifyText_ends {marks : Option Nat} (hmarks : marks ≠ none → ∃ n, s.markLimit = some n)
    {text : List Char} {l : Location} (h : s.Reads text l) :
    (∀ x ∈ (s.classifyText marks text l).symbols, s.IsRead x) ∧
      ∀ f ∈ (s.classifyText marks text l).failure, s.Misread f := by
  have hnone : ∀ f ∈ (none : Option Failure), s.Misread f := by
    intro f hf
    cases hf
  -- along the signs in front, each of which leaves less room
  induction text generalizing marks l with
  | nil => exact ⟨List.forall_mem_nil _, hnone⟩
  | cons c rest ih =>
    rw [classifyText]
    split
    · next hc =>
      subst hc
      split
      · next hnoRoom =>
        refine ⟨List.forall_mem_nil _, ?_⟩
        rintro _ ⟨⟩
        obtain ⟨limit, hlimit⟩ := hmarks (by simp [hnoRoom])
        exact .tooManyMarks hlimit
      · -- whether the room is bounded does not change from sign to sign
        have hless : marks.map (· - 1) ≠ none → ∃ n, s.markLimit = some n :=
          fun hbounded => hmarks (mt Option.map_eq_none_iff.2 hbounded)
        obtain ⟨hsymbols, hfailure⟩ := ih hless h.next
        have hsign : s.IsRead ⟨.immediate, "!", none, some l⟩ :=
          isRead_of_kind (.lexeme h (List.cons_ne_nil _ _)) (by decide)
        exact ⟨List.forall_mem_cons.2 ⟨hsign, hsymbols⟩, hfailure⟩
    · have hplain := classifyPlain_ends h (List.cons_ne_nil c rest)
      split
      · next x hx => exact ⟨List.forall_mem_singleton.2 (hplain.of_ok hx), hnone⟩
      · next f hf =>
        refine ⟨List.forall_mem_nil _, ?_⟩
        rintro _ ⟨⟩
        exact hplain.of_error hf

/-- A whole lexeme is what is left of it behind no signs. -/
theorem Reads.of_next {c after : Cursor} {l : Lexeme} (hc : s.Visits c)
    (hnext : s.next c = .lexeme l after) : s.Reads l.text.toList l.location := by
  have hreads := @Reads.intro s c after l l.text.toList 0 hc hnext rfl
  rwa [Nat.cast_zero, add_zero] at hreads

/-- The symbols of a lexeme that was read are genuine, or its failure is one of reading. -/
theorem classify_ends {c after : Cursor} {l : Lexeme} (hc : s.Visits c)
    (hnext : s.next c = .lexeme l after) :
    Ends (fun xs => ∀ x ∈ xs, s.IsRead x) s.Misread (s.classify l).outcome := by
  obtain ⟨hsymbols, hfailure⟩ :=
    classifyText_ends Option.ne_none_iff_exists'.1 (.of_next hc hnext)
  show Ends _ _ (s.classifyText s.markLimit l.text.toList l.location).outcome
  unfold Classified.outcome
  split
  · exact hsymbols
  · next f hf => exact hfailure f hf

/-- **A failure to read a lexeme** is about a string literal or a comment that is never closed, and
nothing of the text is left. -/
theorem failed_cases {c after : Cursor} {f : Failure} (h : s.next c = .failed f after) :
    after = c.past c.rest [] ∧
      ((∃ gap rest, Gap.scan c.rest = .reached gap ('"' :: rest) ∧ closeString rest = none ∧
          f = s.report .unterminatedString (s.locate (c.position.after gap))) ∨
        ∃ before, Gap.scan c.rest = .unclosed before ∧
          f = s.report .unterminatedComment (s.locate (c.position.after before))) := by
  unfold next at h
  split at h
  · cases h
  · next gap first rest hscan =>
    have hreads := s.readsAt_lexemeAt (c.past gap (first :: rest)) first rest
    rw [h] at hreads
    -- only a string literal that is never closed fails here
    cases hreads with
    | openString hopen =>
      refine ⟨?_, .inl ⟨gap, rest, hscan, hopen, rfl⟩⟩
      rw [Gap.append_of_scanFrom hscan, Cursor.past, Cursor.past, Cursor.past,
        Position.after_append]
  · next before hscan =>
    cases h
    exact ⟨rfl, .inr ⟨before, hscan, rfl⟩⟩
  · cases h

/-- What is never closed is reported where it was opened. -/
theorem misread_of_next {c after : Cursor} {f : Failure} (hc : s.Visits c)
    (h : s.next c = .failed f after) : s.Misread f := by
  obtain ⟨-, ⟨gap, rest, hscan, hopen, rfl⟩ | ⟨before, hscan, rfl⟩⟩ := failed_cases h
  · exact .reported (.openString hc hscan hopen)
  · exact .reported (.openComment hc hscan)

/-- Reading all that is left ends well if reading each lexeme does. -/
theorem collect_ends {α : Type} {good : α → Prop} {bad : Failure → Prop}
    {view : Lexeme → Except Failure (List α)} {c : Cursor} (hc : s.Visits c)
    (hfailed : ∀ c f after, s.Visits c → s.next c = .failed f after → bad f)
    (hview : ∀ c l after, s.Visits c → s.next c = .lexeme l after →
      Ends (fun xs => ∀ x ∈ xs, good x) bad (view l)) :
    Ends (fun xs => ∀ x ∈ xs, good x) bad (s.collect view c).1 := by
  fun_induction collect s view c with
  | case1 => exact List.forall_mem_nil _
  | case2 c f after hnext => exact hfailed c f after hc hnext
  | case3 c l after hnext f hf => exact (hview c l after hc hnext).of_error hf
  | case4 c l after hnext items hitems more last hmore ih =>
    have hlater := ih (.next hc hnext)
    rw [hmore] at hlater
    refine hlater.map fun later _ hlater => ?_
    exact List.forall_mem_append.2 ⟨(hview c l after hc hnext).of_ok hitems, hlater⟩

/-- **The symbols of a source** are genuine and stand at tokens. -/
theorem symbols_ends : Ends (fun xs => ∀ x ∈ xs, s.IsRead x) s.Misread s.symbols :=
  collect_ends .start (fun _ _ _ => misread_of_next) fun _ _ _ => classify_ends

/-- Normalizing fails as reading does. -/
theorem normalize_ends : Ends (fun _ => True) s.Misread s.normalize := by
  have hlexemes : Ends (fun ls => ∀ l ∈ ls, True) s.Misread s.lexemes := by
    refine collect_ends .start (fun _ _ _ => misread_of_next) fun _ l _ _ _ => ?_
    show ∀ _ ∈ [l], True
    exact fun _ _ => trivial
  exact hlexemes.bind fun _ _ _ => trivial

/-! ### Views of the lexemes -/

/-- Lexemes are read where reading stands between two of them. -/
theorem exists_visits {ls : List Lexeme} (h : s.lexemes = .ok ls) :
    ∀ l ∈ ls, ∃ c after, s.Visits c ∧ s.next c = .lexeme l after := by
  have hends : Ends (fun ls => ∀ l ∈ ls, ∃ c after, s.Visits c ∧ s.next c = .lexeme l after)
      s.Misread s.lexemes := by
    refine collect_ends .start (fun _ _ _ => misread_of_next) fun c l after hc hnext => ?_
    exact List.forall_mem_singleton.2 ⟨c, after, hc, hnext⟩
  exact hends.of_ok h

/-- The items of some lexemes, up to the first one that the view does not accept. -/
def viewAll {α : Type} (view : Lexeme → Except Failure (List α)) :
    List Lexeme → Except Failure (List α)
  | [] => .ok []
  | l :: ls =>
    match view l with
    | .error failure => .error failure
    | .ok items => (viewAll view ls).map (items ++ ·)

/-- All lexemes are accepted if the first and all others are. -/
theorem viewAll_cons_eq_ok {α : Type} {view : Lexeme → Except Failure (List α)} {l : Lexeme}
    {ls : List Lexeme} {xs : List α} (h : viewAll view (l :: ls) = .ok xs) :
    ∃ items more, view l = .ok items ∧ viewAll view ls = .ok more ∧ xs = items ++ more := by
  rw [viewAll] at h
  cases hview : view l with
  | error f =>
    rw [hview] at h
    cases h
  | ok items =>
    rw [hview] at h
    obtain ⟨more, hmore, rfl⟩ := Trace.except_map_eq_ok.1 h
    exact ⟨items, more, rfl, hmore, rfl⟩

/-- Reading all that is left is a view of the lexemes that are left, if these can be read. -/
theorem collect_eq_viewAll {α : Type} {view : Lexeme → Except Failure (List α)} (c : Cursor)
    {ls : List Lexeme} (h : (s.collect (fun l => .ok [l]) c).1 = .ok ls) :
    (s.collect view c).1 = viewAll view ls := by
  fun_induction collect s (fun l => .ok [l]) c generalizing ls with
  | case1 c after hnext =>
    cases h
    exact collect_of_ended hnext
  | case2 => cases h
  | case3 => cases h
  | case4 c l after hnext items hitems more last hmore ih =>
    cases hitems
    obtain ⟨later, hlater, rfl⟩ := Trace.except_map_eq_ok.1 h
    rw [hmore] at ih
    rw [collect_eq_of_lexeme hnext, ih hlater]
    rfl

end Source

end RomAsm
