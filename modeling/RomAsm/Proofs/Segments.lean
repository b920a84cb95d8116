import RomAsm.Proofs.LogLevel
import RomAsm.Proofs.Quotes
import RomAsm.Proofs.Tokens

/-!
# Nothing of a text is lost

A text is cut into segments: white space, comments of two kinds, and lexemes of three. A `Segment`
is well-formed by itself, and whether it stands where it may is a matter of the text around it
(`Segment.Fits`). Both are said without reading: a comment ends with the first closing mark, a quote
counts if an even number of backslashes stands before it.

A text has one cut only (`Cuts.unique`), and reading finds it:

* `Source.next_cuts`, `Source.collect_cuts` — reading one lexeme, and all of them, cuts the text up
  to its end or up to a string literal or a comment that is never closed (`Unclosed`);
* `Source.flatMap_text_classify` — the symbols of a lexeme have all of its text;
* `Source.lexemes_lossless` — what follows for a whole source.
-/

namespace RomAsm

/-! ### Segments -/

/-- A piece of a text. -/
inductive Segment where
  | blank (c : Char) (h : isSpace c = true)
  /-- A comment up to the end of a line. -/
  | lineComment (body : List Char) (h : '\n' ∉ body)
  /-- A comment that ends with the first closing mark. -/
  | blockComment (body : List Char) (h : ¬ ['*', '/'] <:+: body ++ ['*'])
  | punctuation (c : Char) (h : isPunctuation c = true)
  /-- A string literal that ends with its first quote that is not escaped. -/
  | string (body : List Char) (hescaped : Escaped [] body) (hcloses : Even (backslashes body))
  | word (text : List Char) (hne : text ≠ [])
      (h : ∀ c ∈ text, isSpace c = false ∧ isPunctuation c = false)

namespace Segment

/-- What a segment is. -/
inductive Kind where
  | blank
  | lineComment
  | blockComment
  | punctuation
  | string
  | word
  deriving DecidableEq

def kind : Segment → Kind
  | blank _ _ => .blank
  | lineComment _ _ => .lineComment
  | blockComment _ _ => .blockComment
  | punctuation _ _ => .punctuation
  | string _ _ _ => .string
  | word _ _ _ => .word

/-- Whether a segment belongs to a gap. -/
def Kind.isGap : Kind → Bool
  | .blank | .lineComment | .blockComment => true
  | .punctuation | .string | .word => false

/-- Whether a segment is a comment. -/
def Kind.isComment : Kind → Bool
  | .lineComment | .blockComment => true
  | .blank | .punctuation | .string | .word => false

/-- The characters of a segment. -/
def text : Segment → List Char
  | blank c _ => [c]
  | lineComment body _ => '/' :: '/' :: body
  | blockComment body _ => '/' :: '*' :: (body ++ ['*', '/'])
  | punctuation c _ => [c]
  | string body _ _ => '"' :: (body ++ ['"'])
  | word text _ _ => text

/-- Whether a segment may stand between two texts. A comment up to the end of a line goes that far,
a slash is no punctuation where it begins a comment, and a quote opens a string literal exactly
where it is not escaped. -/
def Fits (before rest : List Char) : Segment → Prop
  | blank _ _ | blockComment _ _ => True
  | lineComment _ _ => ∀ c tail, rest = c :: tail → c = '\n'
  | punctuation c _ => ¬ ['/', '/'] <+: c :: rest ∧ ¬ ['/', '*'] <+: c :: rest
  | string _ _ _ => Even (backslashes before)
  | word text _ _ => Escaped before text ∧ EndsWord (before ++ text) rest

theorem text_ne_nil (g : Segment) : g.text ≠ [] := by
  cases g with
  | word text hne h => exact hne
  | _ => exact List.cons_ne_nil _ _

end Segment

/-- The text of some segments. -/
def textOf (segments : List Segment) : List Char := segments.flatMap Segment.text

@[simp] theorem textOf_nil : textOf [] = [] := rfl

@[simp] theorem textOf_cons (g : Segment) (gs : List Segment) :
    textOf (g :: gs) = g.text ++ textOf gs := rfl

@[simp] theorem textOf_append (gs gs' : List Segment) :
    textOf (gs ++ gs') = textOf gs ++ textOf gs' := List.flatMap_append

/-- The segments are cut off one by one from a text that stands behind another one, and leave
`rest`. -/
inductive Cuts : List Char → List Char → List Segment → List Char → Prop where
  | nil {before text : List Char} : Cuts before text [] text
  | cons {before tail rest : List Char} {g : Segment} {gs : List Segment}
      (hfits : g.Fits before tail) (hmore : Cuts (before ++ g.text) tail gs rest) :
      Cuts before (g.text ++ tail) (g :: gs) rest

/-- A text opens a string literal or a comment that is never closed: no quote behind the first is
free of escape, or no closing mark follows the opening one. -/
inductive Unclosed (before : List Char) : List Char → Prop where
  | string {rest : List Char} (heven : Even (backslashes before)) (hopen : Escaped [] rest) :
      Unclosed before ('"' :: rest)
  | comment {rest : List Char} (hopen : ¬ ['*', '/'] <:+: rest) :
      Unclosed before ('/' :: '*' :: rest)

namespace Cuts

variable {before text rest : List Char} {gs : List Segment}

/-- The segments and what they leave are the text. -/
theorem text_eq (h : Cuts before text gs rest) : text = textOf gs ++ rest := by
  induction h with
  | nil => rfl
  | cons _ _ ih => rw [textOf_cons, List.append_assoc, ← ih]

/-- What is left can be cut further. -/
theorem append {gs' : List Segment} {rest' : List Char} (h : Cuts before text gs rest)
    (h' : Cuts (before ++ textOf gs) rest gs' rest') : Cuts before text (gs ++ gs') rest' := by
  induction h with
  | nil =>
    rw [textOf_nil, List.append_nil] at h'
    exact h'
  | cons hfits _ ih =>
    rw [textOf_cons, ← List.append_assoc] at h'
    exact .cons hfits (ih h')

theorem single {g : Segment} (h : g.Fits before rest) : Cuts before (g.text ++ rest) [g] rest :=
  .cons h .nil

/-- A segment of a cut fits between what stands before it and what stands behind it. -/
theorem fits {gs₁ gs₂ : List Segment} {g : Segment} (h : Cuts before text (gs₁ ++ g :: gs₂) rest) :
    g.Fits (before ++ textOf gs₁) (textOf gs₂ ++ rest) := by
  induction gs₁ generalizing before text with
  | nil =>
    cases h with
    | cons hfits hmore =>
      rw [textOf_nil, List.append_nil, ← hmore.text_eq]
      exact hfits
  | cons g₁ gs₁ ih =>
    cases h with
    | cons _ hmore =>
      rw [textOf_cons, ← List.append_assoc]
      exact ih hmore

/-- **Quotes.** In a segment that is no comment, a quote opens a string literal exactly if an even
number of backslashes stands before it. For a string literal this is said of its first quote. -/
theorem string_iff {gs₁ gs₂ : List Segment} {g : Segment} {u v : List Char}
    (h : Cuts before text (gs₁ ++ g :: gs₂) rest) (hquote : g.text = u ++ '"' :: v)
    (hcomment : g.kind.isComment = false) (hfirst : g.kind = .string → u = []) :
    g.kind = .string ↔ Even (backslashes (before ++ textOf gs₁ ++ u)) := by
  have hfits := h.fits
  have hmem : '"' ∈ g.text := by
    rw [hquote]
    exact List.mem_append_right u List.mem_cons_self
  cases g with
  | blank c hc | punctuation c hc =>
    -- a quote is neither white space nor punctuation
    obtain rfl := List.mem_singleton.1 hmem
    cases hc
  | lineComment | blockComment => cases hcomment
  | string body hescaped hcloses =>
    obtain rfl := hfirst rfl
    rw [List.append_nil]
    exact iff_of_true rfl hfits
  | word w hne hplain => exact iff_of_false nofun (hfits.1 u v hquote)

end Cuts

/-! ### One cut only -/

namespace Segment

/-- What a text that stands behind `before` begins with. -/
def kindAt (before : List Char) : List Char → Option Kind
  | [] => none
  | c :: rest =>
    if ['/', '/'] <+: c :: rest then some .lineComment
    else if ['/', '*'] <+: c :: rest then some .blockComment
    else if isSpace c then some .blank
    else if isPunctuation c then some .punctuation
    else if c = '"' ∧ Even (backslashes before) then some .string
    else some .word

/-- A segment that fits is told by the beginning of the text. -/
theorem Fits.kindAt_eq {g : Segment} {before rest : List Char} (h : g.Fits before rest) :
    kindAt before (g.text ++ rest) = some g.kind := by
  cases g with
  -- a blank is no slash, so it begins no comment
  | blank c hc =>
    have hslash : '/' ≠ c := by
      rintro rfl
      cases hc
    simp [text, kindAt, kind, hslash, hc]
  | lineComment body hbody => simp [text, kindAt, kind]
  | blockComment body hbody => simp [text, kindAt, kind]
  | punctuation c hc =>
    obtain ⟨hline, hblock⟩ := h
    show kindAt before (c :: rest) = some .punctuation
    rw [kindAt, if_neg hline, if_neg hblock, isSpace_of_isPunctuation hc,
      if_neg Bool.false_ne_true, if_pos hc]
  | string body hescaped hcloses =>
    have heven : Even (backslashes before) := h
    have hspace : isSpace '"' = false := rfl
    have hpunctuation : isPunctuation '"' = false := rfl
    simp [text, kindAt, kind, hspace, hpunctuation, heven]
  | word w hne hplain =>
    obtain ⟨c, w, rfl⟩ := List.exists_cons_of_ne_nil hne
    obtain ⟨hspace, hpunctuation⟩ := hplain c List.mem_cons_self
    have hslash : '/' ≠ c := by
      rintro rfl
      cases hpunctuation
    -- a quote at the beginning of a word is escaped
    have hquote : ¬ (c = '"' ∧ Even (backslashes before)) := by
      rintro ⟨rfl, heven⟩
      have hfirst := h.1 [] w rfl
      rw [List.append_nil] at hfirst
      exact hfirst heven
    simp [text, kindAt, kind, hslash, hspace, hpunctuation, hquote]

/-- Two beginnings of one text are equally long if neither goes on where the other stops. -/
theorem length_le_of_stops {a a' r r' : List Char} (h : a ++ r = a' ++ r')
    (hstops : ∀ c x, a' = a ++ c :: x → r = c :: (x ++ r') → False) : a'.length ≤ a.length := by
  rcases List.append_eq_append_iff.1 h with ⟨x, rfl, rfl⟩ | ⟨x, rfl, rfl⟩
  · cases x with
    | nil => rw [List.append_nil]
    | cons c x => exact (hstops c x rfl rfl).elim
  · rw [List.length_append]
    exact Nat.le_add_right _ _

/-- A segment does not go on where another one that fits has stopped. -/
theorem length_text_le {g g' : Segment} {before rest rest' : List Char} (h : g.Fits before rest)
    (h' : g'.Fits before rest') (hkind : g.kind = g'.kind)
    (heq : g.text ++ rest = g'.text ++ rest') : g'.text.length ≤ g.text.length := by
  cases g <;> cases g' <;> try cases hkind
  case blank | punctuation => exact Nat.le_refl 1
  case lineComment body hbody body' hbody' =>
    refine length_le_of_stops heq fun c x hx hrest => ?_
    -- a comment stops before a line feed, which no comment has
    obtain rfl : c = '\n' := h c _ hrest
    have hx : body' = body ++ '\n' :: x := (List.cons.inj (List.cons.inj hx).2).2
    exact hbody' (by simp [hx])
  case blockComment body hbody body' hbody' =>
    refine length_le_of_stops heq fun c x hx _ => hbody' ?_
    -- the closing mark of the shorter comment would stand in the longer one
    have hx : body' ++ ['*', '/'] = body ++ ['*', '/'] ++ c :: x :=
      (List.cons.inj (List.cons.inj hx).2).2
    have hlast : body' ++ ['*'] = (body ++ ['*', '/'] ++ c :: x).dropLast := by
      rw [← hx, List.dropLast_append_of_ne_nil (by simp)]
      rfl
    rw [hlast, List.append_assoc, List.dropLast_append_of_ne_nil (by simp)]
    exact ⟨body, (c :: x).dropLast, by simp⟩
  case string body hescaped heven body' hescaped' heven' =>
    refine length_le_of_stops heq fun c x hx _ => ?_
    -- the closing quote of the shorter literal would be escaped in the longer one
    have hx : body' ++ ['"'] = body ++ '"' :: (c :: x) := by
      simpa [text] using hx
    have hlast : body' = body ++ '"' :: (c :: x).dropLast := by
      have hdrop := congrArg List.dropLast hx
      rw [List.dropLast_concat, List.dropLast_append_of_ne_nil (by simp)] at hdrop
      exact hdrop
    exact hescaped' body _ hlast heven
  case word w hne hplain w' hne' hplain' =>
    refine length_le_of_stops heq fun c x hx hrest => ?_
    -- what ends the shorter word is in the longer one, where only an escaped quote may be
    have hc : c ∈ w' := by
      rw [show w' = w ++ c :: x from hx]
      simp
    obtain ⟨hspace, hpunctuation⟩ := hplain' c hc
    rcases h.2 c _ hrest with hspace' | hpunctuation' | ⟨rfl, heven⟩
    · exact Bool.false_ne_true (hspace.symm.trans hspace')
    · exact Bool.false_ne_true (hpunctuation.symm.trans hpunctuation')
    · exact h'.1 w x hx heven

/-- **At most one segment fits** at the beginning of a text. -/
theorem Fits.unique {g g' : Segment} {before rest rest' : List Char} (h : g.Fits before rest)
    (h' : g'.Fits before rest') (heq : g.text ++ rest = g'.text ++ rest') : g = g' := by
  have hkind : g.kind = g'.kind := by
    have hkinds := h.kindAt_eq.symm.trans ((congrArg _ heq).trans h'.kindAt_eq)
    exact Option.some.inj hkinds
  have hlength := Nat.le_antisymm (length_text_le h' h hkind.symm heq.symm)
    (length_text_le h h' hkind heq)
  -- of one kind and one length, the two are the same characters
  have htext : g.text = g'.text := (List.append_inj heq hlength).1
  cases g <;> cases g' <;> cases hkind <;> simp_all [text]

end Segment

/-- What is left of a text after its last segment: nothing, or what is never closed. -/
def AtEnd (before rest : List Char) : Prop := rest = [] ∨ Unclosed before rest

/-- No segment fits where a text is at its end. -/
theorem AtEnd.not_fits {before rest : List Char} {g : Segment}
    (h : AtEnd before (g.text ++ rest)) : ¬ g.Fits before rest := by
  intro hfits
  have hkind := hfits.kindAt_eq
  generalize htext : g.text ++ rest = text at h hkind
  rcases h with rfl | hopen
  · exact g.text_ne_nil (List.append_eq_nil_iff.1 htext).1
  · cases hopen with
    | @string tail heven hopen =>
      have hstring : Segment.kindAt before ('"' :: tail) = some .string := by
        simp [Segment.kindAt, heven, isSpace, isPunctuation, punctuation]
      cases g with
      | string body hescaped hcloses =>
        -- the closing quote of the literal would be one of the quotes that follow
        refine hopen body rest ?_ hcloses
        simpa [Segment.text] using htext.symm
      | _ => cases hstring.symm.trans hkind
    | @comment tail hopen =>
      have hcomment : Segment.kindAt before ('/' :: '*' :: tail) = some .blockComment := by
        simp [Segment.kindAt]
      cases g with
      | blockComment body hbody =>
        have htail : tail = body ++ ['*', '/'] ++ rest := by
          simpa [Segment.text] using htext.symm
        exact hopen ⟨body, rest, htail.symm⟩
      | _ => cases hcomment.symm.trans hkind

/-- **A text has one cut only.** -/
theorem Cuts.unique {before text rest rest' : List Char} {gs gs' : List Segment}
    (h : Cuts before text gs rest) (hrest : AtEnd (before ++ textOf gs) rest)
    (h' : Cuts before text gs' rest') (hrest' : AtEnd (before ++ textOf gs') rest') :
    gs = gs' ∧ rest = rest' := by
  -- along the first cut: at most one segment fits at each place, and none at the end of the text
  induction h generalizing gs' with
  | nil =>
    rw [textOf_nil, List.append_nil] at hrest
    cases h' with
    | nil => exact ⟨rfl, rfl⟩
    | cons hfits _ => exact absurd hfits hrest.not_fits
  | @cons before tail rest g gs hfits hmore ih =>
    generalize htext : g.text ++ tail = text at h'
    cases h' with
    | nil =>
      rw [textOf_nil, List.append_nil, ← htext] at hrest'
      exact absurd hfits hrest'.not_fits
    | @cons _ tail' _ g' gs' hfits' hmore' =>
      obtain rfl := hfits.unique hfits' htext
      obtain rfl := List.append_cancel_left htext
      rw [textOf_cons, ← List.append_assoc] at hrest hrest'
      obtain ⟨rfl, rfl⟩ := ih hrest hmore' hrest'
      exact ⟨rfl, rfl⟩

/-! ### Where segments end -/

/-- Behind a segment the count of backslashes is as reading needs it. -/
theorem Segment.Fits.aligned {g : Segment} {before rest : List Char} (h : g.Fits before rest) :
    Aligned (before ++ g.text) rest := by
  -- most segments end with a character of their own
  have hlast : ∀ (front : List Char) (c : Char), c ≠ '\\' → g.text = front ++ [c] →
      Aligned (before ++ g.text) rest := by
    intro front c hc htext
    rw [htext, ← List.append_assoc]
    exact aligned_of_even (backslashes_concat hc _ ▸ Even.zero) rest
  cases g with
  | blank c hc => exact hlast [] c (by rintro rfl; cases hc) rfl
  | lineComment body hbody =>
    intro c tail hrest hc
    obtain rfl := h c tail hrest
    rcases hc with hc | hc <;> cases hc
  | blockComment body hbody =>
    exact hlast ('/' :: '*' :: (body ++ ['*'])) '/' (by decide) (by simp [Segment.text])
  | punctuation c hc => exact hlast [] c (by rintro rfl; cases hc) rfl
  | string body hescaped hcloses =>
    exact hlast ('"' :: body) '"' (by decide) (by simp [Segment.text])
  | word w hne hplain =>
    intro c tail hrest hc
    rcases h.2 c tail hrest with hspace | hpunctuation | ⟨-, heven⟩
    · rcases hc with rfl | rfl <;> cases hspace
    · rcases hc with rfl | rfl <;> cases hpunctuation
    · exact heven

/-- So is the count behind several segments. -/
theorem Cuts.aligned {before text rest : List Char} {gs : List Segment}
    (h : Cuts before text gs rest) (haligned : Aligned before text) :
    Aligned (before ++ textOf gs) rest := by
  induction h with
  | nil => rwa [textOf_nil, List.append_nil]
  | cons hfits _ ih =>
    rw [textOf_cons, ← List.append_assoc]
    exact ih hfits.aligned

/-! ### Gaps -/

/-- A text that begins with two given characters. -/
theorem exists_of_pair_prefix {a b c : Char} {rest : List Char} (h : [a, b] <+: c :: rest) :
    ∃ tail, c = a ∧ rest = b :: tail := by
  obtain ⟨tail, htail⟩ := h
  obtain ⟨hc, hrest⟩ := List.cons.inj htail
  exact ⟨tail, hc.symm, hrest.symm⟩

namespace Gap

/-- Characters are put in front of a gap in two steps or in one. -/
theorem End.behind_behind (e : End) (a b : List Char) :
    (e.behind a).behind b = e.behind (b ++ a) := by
  cases e <;> simp [End.behind]

theorem End.behind_nil (e : End) : e.behind [] = e := by
  cases e <;> rfl

/-- The mark of a comment that is closed comes in front of its characters. -/
theorem End.opened_behind {e : End} (h : e ≠ .inside) (a : List Char) :
    (e.behind a).opened = e.behind ('/' :: '*' :: a) := by
  cases e with
  | inside => exact absurd rfl h
  | _ => rfl

/-- A comment up to the end of the line is all that comes before the next line feed. -/
theorem scanFrom_line (text : List Char) :
    scanFrom .line text =
      (scan (text.dropWhile (· ≠ '\n'))).behind (text.takeWhile (· ≠ '\n')) := by
  induction text with
  | nil => rfl
  | cons c rest ih =>
    -- a line feed ends the comment, and is not part of it
    by_cases hc : c = '\n'
    · subst hc
      simp only [ne_eq, not_true_eq_false, decide_false, Bool.false_eq_true, not_false_eq_true,
        List.dropWhile_cons_of_neg, List.takeWhile_cons_of_neg, End.behind_nil]
      rfl
    · rw [scanFrom, if_neg hc, ih, List.dropWhile_cons_of_pos (by simpa using hc),
        List.takeWhile_cons_of_pos (by simpa using hc), End.behind_behind]
      rfl

/-- A comment goes up to its first closing mark, if there is one. -/
theorem scanFrom_block (text : List Char) :
    (¬ ['*', '/'] <:+: text ∧ scanFrom .block text = .inside) ∨
      ∃ body rest, text = body ++ '*' :: '/' :: rest ∧ ¬ ['*', '/'] <:+: body ++ ['*'] ∧
        scanFrom .block text = (scan rest).behind (body ++ ['*', '/']) := by
  induction text with
  | nil => exact .inl ⟨by simp, rfl⟩
  | cons c rest ih =>
    by_cases hmark : ['*', '/'] <+: c :: rest
    · obtain ⟨tail, rfl, rfl⟩ := exists_of_pair_prefix hmark
      exact .inr ⟨[], tail, rfl, by decide, rfl⟩
    · have hscan : scanFrom .block (c :: rest) = (scanFrom .block rest).behind [c] := by
        rw [scanFrom]
        rintro tail rfl rfl
        exact hmark ⟨tail, rfl⟩
      -- no mark begins here, so the one that is found later, if any, is the first
      rcases ih with ⟨hnone, hinside⟩ | ⟨body, tail, rfl, hbody, hclosed⟩
      · refine .inl ⟨?_, by rw [hscan, hinside]; rfl⟩
        rw [List.infix_cons_iff]
        exact not_or.2 ⟨hmark, hnone⟩
      · refine .inr ⟨c :: body, tail, rfl, ?_, by rw [hscan, hclosed, End.behind_behind]; rfl⟩
        rw [List.cons_append, List.infix_cons_iff]
        refine not_or.2 ⟨fun hearly => hmark (hearly.trans ?_), hbody⟩
        exact ⟨'/' :: tail, by simp⟩

end Gap

/-- A text begins with a lexeme, if with anything. -/
def StartsLexeme (text : List Char) : Prop :=
  ∀ c rest, text = c :: rest →
    isSpace c = false ∧ ¬ ['/', '/'] <+: c :: rest ∧ ¬ ['/', '*'] <+: c :: rest

/-- The gap at the beginning of a text is cut into segments, up to a lexeme, up to the end, or up to
a comment that is never closed. -/
def FindsGap (before text : List Char) : Prop :=
  ∃ gs rest, Cuts before text gs rest ∧ (∀ g ∈ gs, g.kind.isGap = true) ∧
    (Gap.scan text = .reached (textOf gs) rest ∧ StartsLexeme rest ∨
      Gap.scan text = .unclosed (textOf gs) ∧ Unclosed (before ++ textOf gs) rest)

/-- One more segment in front of a gap. -/
theorem FindsGap.cons {before tail : List Char} {g : Segment} (hgap : g.kind.isGap = true)
    (hfits : g.Fits before tail) (hscan : Gap.scan (g.text ++ tail) = (Gap.scan tail).behind g.text)
    (h : FindsGap (before ++ g.text) tail) : FindsGap before (g.text ++ tail) := by
  obtain ⟨gs, rest, hcuts, hgaps, hfound⟩ := h
  refine ⟨g :: gs, rest, .cons hfits hcuts, List.forall_mem_cons.2 ⟨hgap, hgaps⟩, ?_⟩
  rw [textOf_cons, ← List.append_assoc]
  rcases hfound with ⟨hreached, hstarts⟩ | ⟨hunclosed, hopen⟩
  · exact .inl ⟨by rw [hscan, hreached]; rfl, hstarts⟩
  · exact .inr ⟨by rw [hscan, hunclosed]; rfl, hopen⟩

/-- A gap does not end inside of a comment: that would be one that is never closed. -/
theorem FindsGap.scan_ne_inside {before text : List Char} (h : FindsGap before text) :
    Gap.scan text ≠ .inside := by
  obtain ⟨gs, rest, -, -, ⟨hscan, -⟩ | ⟨hscan, -⟩⟩ := h <;> rw [hscan] <;> nofun

/-- A comment up to the end of the line, and the gap that goes on behind it. -/
theorem FindsGap.lineComment {before tail : List Char}
    (h : ∀ before, FindsGap before (tail.dropWhile (· ≠ '\n'))) :
    FindsGap before ('/' :: '/' :: tail) := by
  have hbody : '\n' ∉ tail.takeWhile (· ≠ '\n') := by
    intro hmem
    simpa using List.mem_takeWhile_imp hmem
  have htext : '/' :: '/' :: tail =
      (Segment.lineComment _ hbody).text ++ tail.dropWhile (· ≠ '\n') := by
    simp only [Segment.text, List.cons_append, List.takeWhile_append_dropWhile]
  have hscan : Gap.scan ('/' :: '/' :: tail) = _ :=
    congrArg (Gap.End.behind ['/', '/']) (Gap.scanFrom_line tail)
  rw [Gap.End.behind_behind] at hscan
  rw [htext] at hscan ⊢
  refine .cons rfl ?_ hscan (h _)
  -- what stops the comment is a line feed
  intro c rest hrest
  have hhead := List.head?_dropWhile_not (p := fun d => decide (d ≠ '\n')) tail
  rw [hrest] at hhead
  simpa using hhead

/-- A comment up to its closing mark, and the gap that goes on behind it. -/
theorem FindsGap.blockComment {before tail : List Char}
    (h : ∀ before rest, rest.length ≤ tail.length → FindsGap before rest) :
    FindsGap before ('/' :: '*' :: tail) := by
  have hopened : Gap.scan ('/' :: '*' :: tail) = (Gap.scanFrom .block tail).opened := rfl
  rcases Gap.scanFrom_block tail with ⟨hopen, hinside⟩ | ⟨body, rest, rfl, hbody, hclosed⟩
  · -- the comment is never closed
    rw [hinside] at hopened
    exact ⟨[], _, .nil, nofun, .inr ⟨hopened, .comment hopen⟩⟩
  · have hrest (before : List Char) : FindsGap before rest := by
      refine h before rest ?_
      simp only [List.length_append, List.length_cons]
      omega
    have htext : '/' :: '*' :: (body ++ '*' :: '/' :: rest) =
        (Segment.blockComment body hbody).text ++ rest := by
      simp [Segment.text]
    rw [hclosed, Gap.End.opened_behind (hrest before).scan_ne_inside] at hopened
    rw [htext] at hopened ⊢
    exact .cons rfl trivial hopened (hrest _)

/-- **Every gap is found.** -/
theorem findsGap (before text : List Char) : FindsGap before text := by
  -- a comment is skipped as a whole, so the induction is on the length of the text
  induction hn : text.length using Nat.strongRecOn generalizing before text with
  | ind n ih =>
    cases text with
    | nil => exact ⟨[], [], .nil, nofun, .inl ⟨rfl, nofun⟩⟩
    | cons c rest =>
      by_cases hline : ['/', '/'] <+: c :: rest
      · obtain ⟨tail, rfl, rfl⟩ := exists_of_pair_prefix hline
        refine .lineComment fun before => ih _ ?_ before _ rfl
        have hle := (List.dropWhile_suffix (fun d => decide (d ≠ '\n')) (l := tail)).length_le
        simp only [List.length_cons] at hn
        omega
      · by_cases hblock : ['/', '*'] <+: c :: rest
        · obtain ⟨tail, rfl, rfl⟩ := exists_of_pair_prefix hblock
          refine .blockComment fun before rest hle => ih _ ?_ before rest rfl
          simp only [List.length_cons] at hn
          omega
        · have hscan : Gap.scan (c :: rest) =
              if isSpace c then (Gap.scan rest).behind [c] else .reached [] (c :: rest) := by
            rw [Gap.scan, Gap.scanFrom]
            · rfl
            · rintro tail rfl rfl
              exact hline ⟨tail, rfl⟩
            · rintro tail rfl rfl
              exact hblock ⟨tail, rfl⟩
          cases hspace : isSpace c with
          | true =>
            rw [hspace, if_pos rfl] at hscan
            exact FindsGap.cons (g := .blank c hspace) rfl trivial hscan
              (ih rest.length (by simp at hn; omega) _ _ rfl)
          | false =>
            -- neither white space nor a comment: the gap is over
            rw [hspace, if_neg Bool.false_ne_true] at hscan
            refine ⟨[], c :: rest, .nil, nofun, .inl ⟨hscan, ?_⟩⟩
            intro d tail hd
            obtain ⟨rfl, rfl⟩ := List.cons.inj hd
            exact ⟨hspace, hline, hblock⟩

/-! ### Lexemes -/

/-- The texts of the segments that are lexemes. -/
def lexemeTexts (segments : List Segment) : List (List Char) :=
  (segments.filter fun g => !g.kind.isGap).map Segment.text

theorem lexemeTexts_append (gs gs' : List Segment) :
    lexemeTexts (gs ++ gs') = lexemeTexts gs ++ lexemeTexts gs' := by
  simp only [lexemeTexts, List.filter_append, List.map_append]

/-- A gap has no lexemes. -/
theorem lexemeTexts_of_isGap {gs : List Segment} (h : ∀ g ∈ gs, g.kind.isGap = true) :
    lexemeTexts gs = [] := by
  have hfilter : (gs.filter fun g => !g.kind.isGap) = [] := by
    rw [List.filter_eq_nil_iff]
    intro g hg
    simp [h g hg]
  rw [lexemeTexts, hfilter, List.map_nil]

namespace Source

variable {s : Source}

/-- Reading a lexeme cuts off one segment, or comes upon a string literal that is never closed. -/
theorem lexemeAt_cuts {c : Cursor} {before : List Char} {first : Char} {rest : List Char}
    (haligned : Aligned before (first :: rest)) (hstarts : StartsLexeme (first :: rest)) :
    (∃ l after, ∃ g : Segment, s.lexemeAt c first rest = .lexeme l after ∧
        g.kind.isGap = false ∧ g.text = l.text.toList ∧ g.Fits before after.rest) ∨
      (∃ f after, s.lexemeAt c first rest = .failed f after) ∧ Unclosed before (first :: rest) := by
  obtain ⟨hspace, hline, hblock⟩ := hstarts first rest rfl
  have hreads := s.readsAt_lexemeAt c first rest
  generalize s.lexemeAt c first rest = step at hreads
  -- a quote that reading comes upon between two segments is not escaped
  have heven : first = '"' → Even (backslashes before) :=
    fun hquote => haligned first rest rfl (.inl hquote)
  cases hreads with
  | @string rest body' tail hclose =>
    rcases closeString_cases [] Even.zero rest with ⟨hnone, -⟩ |
      ⟨body, tail', hsome, -, hescaped, hcloses⟩
    · cases hclose.symm.trans hnone
    · cases hclose.symm.trans hsome
      refine .inl ⟨_, _, .string body hescaped hcloses, rfl, rfl, ?_, heven rfl⟩
      rw [String.toList_ofList]
      rfl
  -- no quote closes the literal, so all of them are escaped
  | openString hopen =>
    rcases closeString_cases [] Even.zero rest with ⟨-, hescaped⟩ | ⟨body, tail, hsome, -⟩
    · exact .inr ⟨⟨_, _, rfl⟩, .string (heven rfl) hescaped⟩
    · cases hopen.symm.trans hsome
  | punctuation hpunctuation =>
    refine .inl ⟨_, _, .punctuation first hpunctuation, rfl, rfl, ?_, hline, hblock⟩
    rw [String.toList_singleton]
    rfl
  | word hquote hpunctuation =>
    -- a word has at least its first character
    have hends : endsWord first = false := by simp [endsWord, hspace, hpunctuation, hquote]
    have hne : (word (first :: rest)).1 ≠ [] := by
      obtain ⟨w, hw⟩ := exists_word rest hends
      rw [hw]
      exact List.cons_ne_nil first w
    refine .inl ⟨_, _, .word _ hne plain_of_mem_word, rfl, rfl, ?_, ?_⟩
    · rw [String.toList_ofList]
      rfl
    · exact ⟨word_escaped haligned, word_ends haligned⟩

/-- **Reading one lexeme** cuts off a gap and the lexeme. At the end of the text, or at what is
never closed, it cuts off a gap only. -/
theorem next_cuts (c : Cursor) {before : List Char} (haligned : Aligned before c.rest) :
    ∃ gs rest, Cuts before c.rest gs rest ∧
      ((∃ l after, s.next c = .lexeme l after ∧ after.rest = rest ∧
          lexemeTexts gs = [l.text.toList]) ∨
        lexemeTexts gs = [] ∧ ((∃ after, s.next c = .ended after) ∧ rest = [] ∨
          (∃ f after, s.next c = .failed f after) ∧ Unclosed (before ++ textOf gs) rest)) := by
  obtain ⟨gs, rest, hcuts, hgaps, ⟨hscan, hstarts⟩ | ⟨hscan, hopen⟩⟩ := findsGap before c.rest
  · have hnone := lexemeTexts_of_isGap hgaps
    unfold next
    rw [hscan]
    -- behind the gap there is nothing, a lexeme, or a string literal that is never closed
    cases rest with
    | nil => exact ⟨gs, [], hcuts, .inr ⟨hnone, .inl ⟨⟨_, rfl⟩, rfl⟩⟩⟩
    | cons first rest =>
      rcases lexemeAt_cuts (s := s) (c := c.past (textOf gs) (first :: rest))
        (hcuts.aligned haligned) hstarts with
        ⟨l, after, g, hlexeme, hgap, htext, hfits⟩ | ⟨hfailed, hopen⟩
      · have hrest : first :: rest = g.text ++ after.rest := by
          rw [htext]
          exact (lexemeAt_splits hlexeme).1
        rw [hrest] at hcuts
        refine ⟨gs ++ [g], after.rest, hcuts.append (.single hfits), .inl ?_⟩
        refine ⟨l, after, hlexeme, rfl, ?_⟩
        rw [lexemeTexts_append, hnone, List.nil_append, ← htext]
        simp [lexemeTexts, hgap]
      · exact ⟨gs, _, hcuts, .inr ⟨hnone, .inr ⟨hfailed, hopen⟩⟩⟩
  · -- the gap ends with a comment that is never closed
    refine ⟨gs, rest, hcuts, .inr ⟨lexemeTexts_of_isGap hgaps, .inr ⟨?_, hopen⟩⟩⟩
    unfold next
    rw [hscan]
    exact ⟨_, _, rfl⟩

/-- **Reading all lexemes** cuts the whole text, or comes upon what is never closed. -/
theorem collect_cuts (c : Cursor) {before : List Char} (haligned : Aligned before c.rest) :
    ∃ gs rest, Cuts before c.rest gs rest ∧
      ((∃ ls, (s.collect (fun l => .ok [l]) c).1 = .ok ls ∧ rest = [] ∧
          lexemeTexts gs = ls.map (·.text.toList)) ∨
        (∃ f, (s.collect (fun l => .ok [l]) c).1 = .error f) ∧
          Unclosed (before ++ textOf gs) rest) := by
  fun_induction collect s (fun l => .ok [l]) c generalizing before with
  -- each case is what reading the next lexeme has come to; the others are excluded
  | case1 c after hnext =>
    obtain ⟨gs, rest, hcuts, hstep⟩ := next_cuts (s := s) c haligned
    rw [hnext] at hstep
    obtain ⟨_, _, h, -⟩ | ⟨hnone, ⟨-, rfl⟩ | ⟨⟨_, _, h⟩, -⟩⟩ := hstep
    · cases h
    · exact ⟨gs, [], hcuts, .inl ⟨[], rfl, rfl, hnone⟩⟩
    · cases h
  | case2 c failure after hnext =>
    obtain ⟨gs, rest, hcuts, hstep⟩ := next_cuts (s := s) c haligned
    rw [hnext] at hstep
    obtain ⟨_, _, h, -⟩ | ⟨-, ⟨⟨_, h⟩, -⟩ | ⟨-, hopen⟩⟩ := hstep
    · cases h
    · cases h
    · exact ⟨gs, rest, hcuts, .inr ⟨⟨failure, rfl⟩, hopen⟩⟩
  | case3 c l after hnext failure hview => cases hview
  | case4 c l after hnext items hview more last hmore ih =>
    cases hview
    obtain ⟨gs, rest, hcuts, hstep⟩ := next_cuts (s := s) c haligned
    rw [hnext] at hstep
    obtain ⟨_, _, h, rfl, htext⟩ | ⟨-, ⟨⟨_, h⟩, -⟩ | ⟨⟨_, _, h⟩, -⟩⟩ := hstep
    · cases h
      -- the segments of the later lexemes come behind those of this one
      obtain ⟨gs', rest', hcuts', hlater⟩ := ih (hcuts.aligned haligned)
      refine ⟨gs ++ gs', rest', hcuts.append hcuts', ?_⟩
      rw [hmore] at hlater
      obtain ⟨ls, rfl, rfl, htexts⟩ | ⟨⟨f, rfl⟩, hopen⟩ := hlater
      · refine .inl ⟨l :: ls, rfl, rfl, ?_⟩
        rw [lexemeTexts_append, htext, htexts]
        rfl
      · rw [textOf_append, ← List.append_assoc]
        exact .inr ⟨⟨f, rfl⟩, hopen⟩
    · cases h
    · cases h

/-! ### Symbols -/

/-- The symbols of a lexeme have all of its text. -/
theorem flatMap_text_classify {c after : Cursor} {l : Lexeme} {xs : List Symbol}
    (hnext : s.next c = .lexeme l after) (h : (s.classify l).outcome = .ok xs) :
    xs.flatMap (·.text.toList) = l.text.toList := by
  obtain ⟨gap, -, hlocation, -⟩ := next_splits hnext
  -- the symbols lie side by side up to a failure, and there was none
  obtain ⟨taken, rest, htext, hside, hend⟩ :=
    s.classifyText_sideBySide s.markLimit l.text.toList (c.position.after gap)
  rw [← hlocation] at hside hend
  obtain ⟨hnone, rfl⟩ := Classified.eq_of_outcome h
  rw [htext, hend hnone, List.append_nil]
  exact hside.flatMap_text

/-- **The symbols of a source** have all the text of its lexemes. -/
theorem flatMap_text_symbols {xs : List Symbol} (h : s.symbols = .ok xs) :
    ∃ ls, s.lexemes = .ok ls ∧ xs.flatMap (·.text.toList) = ls.flatMap (·.text.toList) := by
  cases hlexemes : s.lexemes with
  | error f =>
    obtain ⟨g, hg⟩ := exists_failure_of_lexemes hlexemes
    cases h.symm.trans hg
  | ok ls =>
    refine ⟨ls, rfl, ?_⟩
    have hvisits := exists_visits hlexemes
    have hview : viewAll (fun l => (s.classify l).outcome) ls = .ok xs :=
      (collect_eq_viewAll s.start hlexemes).symm.trans h
    clear hlexemes h
    -- along the lexemes, each of which has been read somewhere
    induction ls generalizing xs with
    | nil =>
      cases hview
      rfl
    | cons l ls ih =>
      obtain ⟨⟨c, after, -, hnext⟩, hlater⟩ := List.forall_mem_cons.1 hvisits
      obtain ⟨items, more, hitems, hmore, rfl⟩ := viewAll_cons_eq_ok hview
      rw [List.flatMap_append, List.flatMap_cons, flatMap_text_classify hnext hitems,
        ih hlater hmore]

/-- **Nothing of a text is lost.** If all lexemes of a source are read, they and the gaps between
them are the text, and there is no other way to cut it. A quote outside of comments and string
literals opens a string literal exactly if an even number of backslashes stands before it. Reading
fails exactly if a string literal or a comment is opened and never closed. The symbols have all the
text that the lexemes have. -/
theorem lexemes_lossless (s : Source) :
    (∀ ls, s.lexemes = .ok ls →
      ∃ gs, Cuts [] s.text gs [] ∧ s.text = textOf gs ∧
        lexemeTexts gs = ls.map (·.text.toList) ∧ ∀ gs', Cuts [] s.text gs' [] → gs' = gs) ∧
    (∀ gs₁ g gs₂ rest, Cuts [] s.text (gs₁ ++ g :: gs₂) rest →
      ∀ u v, g.text = u ++ '"' :: v → g.kind.isComment = false → (g.kind = .string → u = []) →
        (g.kind = .string ↔ Even (backslashes (textOf gs₁ ++ u)))) ∧
    ((∃ f, s.lexemes = .error f) ↔
      ∃ gs rest, Cuts [] s.text gs rest ∧ Unclosed (textOf gs) rest) ∧
    ∀ xs, s.symbols = .ok xs →
      ∃ ls, s.lexemes = .ok ls ∧ xs.flatMap (·.text.toList) = ls.flatMap (·.text.toList) := by
  have heven : Even (backslashes []) := Even.zero
  obtain ⟨gs, rest, hcuts, hread⟩ := s.collect_cuts s.start (aligned_of_even heven s.text)
  refine ⟨?_, ?_, ?_, fun xs => flatMap_text_symbols⟩
  · -- reading has found a cut to the end, and there is one only
    intro ls hls
    obtain ⟨ls', hls', rfl, htexts⟩ | ⟨⟨f, hf⟩, -⟩ := hread
    · cases hls.symm.trans hls'
      have htext := hcuts.text_eq
      rw [List.append_nil] at htext
      refine ⟨gs, hcuts, htext, htexts, fun gs' hcuts' => ?_⟩
      exact (hcuts'.unique (.inl rfl) hcuts (.inl rfl)).1
    · cases hls.symm.trans hf
  · intro gs₁ g gs₂ rest hcuts u v hquote hcomment hfirst
    exact hcuts.string_iff hquote hcomment hfirst
  · constructor
    · rintro ⟨f, hf⟩
      obtain ⟨ls, hls, -⟩ | ⟨-, hopen⟩ := hread
      · cases hf.symm.trans hls
      · exact ⟨gs, rest, hcuts, hopen⟩
    · rintro ⟨gs', rest', hcuts', hopen'⟩
      obtain ⟨-, -, rfl, -⟩ | ⟨hfails, -⟩ := hread
      · -- a text that is cut to its end has nothing left that could be open
        obtain ⟨-, rfl⟩ := hcuts'.unique (.inr hopen') hcuts (.inl rfl)
        cases hopen'
      · exact hfails

end Source

end RomAsm
