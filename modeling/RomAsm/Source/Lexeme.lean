import RomAsm.Failure

/-!
# Lexemes

The text of a program is cut into lexemes: string literals, single characters of punctuation, and
words. Between them lie gaps of white space and comments. A comment runs from `//` up to the end of
the line, or from `/*` to the next `*/`.

A `Cursor` says where reading stands: what is left of the text, and at which line and column.
`Source.next` reads one lexeme. It can fail only on a string literal or a comment that is never
closed, and then nothing is left of the text.

* `Gap.scan` splits off a gap, `closeString` a string literal, `word` a word;
* `Source.collect` reads all that is left, and `Source.length_next_lt` is why it ends.
-/

namespace RomAsm

/-- A text to be read, the name of its file, and the number of its first line. -/
structure Source where
  text : List Char
  file : String
  firstLine : Int := 1
  /-- The most signs `!` in front of one word that its reader has room for, if that is bounded. The
  room is none of the text's doing, so nothing is known about it. -/
  markLimit : Option Nat := none
  deriving DecidableEq, Repr

/-- A piece of the text, and where it begins. -/
structure Lexeme where
  text : String
  location : Location
  deriving DecidableEq, Repr

/-- Where reading stands. -/
structure Cursor where
  rest : List Char
  position : Position
  deriving DecidableEq, Repr

/-- The cursor behind `taken`, which leaves `rest`. -/
def Cursor.past (c : Cursor) (taken rest : List Char) : Cursor := ⟨rest, c.position.after taken⟩

/-! ### Classes of characters -/

/-- White space between lexemes. -/
def isSpace (c : Char) : Bool := c = ' ' || ('\t' ≤ c && c ≤ '\r')

/-- Characters that are lexemes by themselves. -/
def punctuation : List Char := [':', '=', '+', '-', '*', '/', '%', '(', ')']

/-- Whether a character is a lexeme by itself. -/
def isPunctuation (c : Char) : Bool := punctuation.contains c

/-- Whether a character ends a word. -/
def endsWord (c : Char) : Bool := isSpace c || isPunctuation c || c = '"'

/-! ### Gaps -/

namespace Gap

/-- What a part of a gap is. -/
inductive Part where
  /-- White space, between comments. -/
  | blank
  /-- A comment up to the end of the line. -/
  | line
  /-- A comment up to its closing mark. -/
  | block

/-- What is found behind a gap. -/
inductive End where
  /-- The gap, and the text behind it, which is empty or begins a lexeme. -/
  | reached (gap rest : List Char)
  /-- The part of the gap before a comment that is never closed. -/
  | unclosed (before : List Char)
  /-- The end of the text, inside a comment that is not yet closed. -/
  | inside

/-- The same end, behind some more of the gap. -/
def End.behind (taken : List Char) : End → End
  | reached gap rest => reached (taken ++ gap) rest
  | unclosed before => unclosed (taken ++ before)
  | inside => inside

/-- The same end, seen from the opening mark of a comment. -/
def End.opened : End → End
  | inside => unclosed []
  | other => other.behind ['/', '*']

/-- Splits off a gap, from within one of its parts. -/
def scanFrom : Part → List Char → End
  | .blank, '/' :: '/' :: rest => (scanFrom .line rest).behind ['/', '/']
  | .blank, '/' :: '*' :: rest => (scanFrom .block rest).opened
  | .blank, c :: rest =>
    if isSpace c then (scanFrom .blank rest).behind [c] else .reached [] (c :: rest)
  | .line, c :: rest =>
    (scanFrom (if c = '\n' then .blank else .line) rest).behind [c]
  | .block, '*' :: '/' :: rest => (scanFrom .blank rest).behind ['*', '/']
  | .block, c :: rest => (scanFrom .block rest).behind [c]
  | .block, [] => .inside
  | _, [] => .reached [] []

/-- Splits off the gap at the beginning of a text. -/
def scan (text : List Char) : End := scanFrom .blank text

end Gap

/-! ### Strings and words -/

/-- Splits a text behind the quote that closes a string literal; a backslash takes the next
character with it. -/
def closeString : List Char → Option (List Char × List Char)
  | [] => none
  | '"' :: rest => some (['"'], rest)
  | '\\' :: c :: rest => (closeString rest).map fun (body, rest) => ('\\' :: c :: body, rest)
  | c :: rest => (closeString rest).map fun (body, rest) => (c :: body, rest)

/-- Splits a text behind its first word. A quote or a backslash behind a backslash stays in the
word. -/
def word : List Char → List Char × List Char
  | [] => ([], [])
  | '\\' :: '"' :: rest => let (w, rest) := word rest; ('\\' :: '"' :: w, rest)
  | '\\' :: '\\' :: rest => let (w, rest) := word rest; ('\\' :: '\\' :: w, rest)
  | c :: rest =>
    if endsWord c then ([], c :: rest)
    else let (w, rest) := word rest; (c :: w, rest)

/-! ### Reading one lexeme -/

namespace Source

/-- The cursor at the beginning of the text. -/
def start (s : Source) : Cursor := ⟨s.text, ⟨s.firstLine, 1⟩⟩

/-- The location of a position. -/
def locate (s : Source) (p : Position) : Location := ⟨s.file, p.line, p.column⟩

/-- A line of the text by its number. -/
def line? (s : Source) (line : Int) : Option String :=
  if line < s.firstLine then none
  else (Text.lines s.text)[(line - s.firstLine).toNat]?.map String.ofList

/-- The failure that reports a problem at a location of the text, together with its line. -/
def report (s : Source) (problem : Problem) (l : Location) : Failure :=
  .ofDiagnostic ⟨problem, some l, s.line? l.line⟩

/-- What reading one lexeme comes to. -/
inductive Step where
  | lexeme (l : Lexeme) (after : Cursor)
  | ended (after : Cursor)
  | failed (failure : Failure) (after : Cursor)

/-- Reads the lexeme at which the cursor stands, whose first character is given. -/
def lexemeAt (s : Source) (c : Cursor) (first : Char) (rest : List Char) : Step :=
  let location := s.locate c.position
  if first = '"' then
    match closeString rest with
    | some (body, rest) =>
      .lexeme ⟨String.ofList (first :: body), location⟩ (c.past (first :: body) rest)
    | none => .failed (s.report .unterminatedString location) (c.past (first :: rest) [])
  else if isPunctuation first then
    .lexeme ⟨String.singleton first, location⟩ (c.past [first] rest)
  else
    let (w, rest) := word (first :: rest)
    .lexeme ⟨String.ofList w, location⟩ (c.past w rest)

/-- Skips the gap at which the cursor stands and reads the lexeme behind it. -/
def next (s : Source) (c : Cursor) : Step :=
  match Gap.scan c.rest with
  | .reached gap [] => .ended (c.past gap [])
  | .reached gap (first :: rest) => s.lexemeAt (c.past gap (first :: rest)) first rest
  | .unclosed before =>
    .failed (s.report .unterminatedComment (s.locate (c.position.after before))) (c.past c.rest [])
  | .inside => .ended (c.past c.rest [])

end Source

/-! ### Lengths -/

/-- A string literal takes at least its closing quote. -/
theorem length_closeString {text body rest : List Char} (h : closeString text = some (body, rest)) :
    rest.length < text.length := by
  fun_induction closeString text generalizing body rest with
  | case1 => simp at h
  | case2 r => simp_all
  -- a backslash takes two characters, anything else one
  | case3 c r ih | case4 c r _ _ ih =>
    obtain ⟨⟨b, r'⟩, hb, e⟩ := Option.map_eq_some_iff.1 h
    have := ih hb
    simp_all
    omega

/-- A word takes its characters from the text. -/
theorem length_word_le (text : List Char) : (word text).2.length ≤ text.length := by
  fun_induction word text <;> simp_all <;> omega

/-- A word that begins with a character of its own takes at least that character. -/
theorem length_word_lt {first : Char} (rest : List Char) (h : endsWord first = false) :
    (word (first :: rest)).2.length < (first :: rest).length := by
  unfold word
  split
  · next e => cases e
  · -- a quote behind a backslash
    next r e =>
    cases e
    have hle : (word r).2.length ≤ r.length := length_word_le r
    change (word r).2.length < r.length + 1 + 1
    omega
  · -- a backslash behind a backslash
    next r e =>
    cases e
    have hle : (word r).2.length ≤ r.length := length_word_le r
    change (word r).2.length < r.length + 1 + 1
    omega
  · next c r _ _ e =>
    cases e
    have hle : (word rest).2.length ≤ rest.length := length_word_le rest
    rw [h]
    change (word rest).2.length < rest.length + 1
    omega

namespace Gap

/-- Where more of the gap is put in front, the end of it is the same. -/
theorem End.eq_reached_of_behind {taken gap rest : List Char} {e : End}
    (h : e.behind taken = .reached gap rest) : ∃ gap, e = .reached gap rest := by
  cases e <;> simp_all [End.behind]

/-- Nor does the mark of a comment change it, if the comment is closed. -/
theorem End.eq_reached_of_opened {gap rest : List Char} {e : End}
    (h : e.opened = .reached gap rest) : ∃ gap, e = .reached gap rest := by
  cases e <;> simp_all [End.opened, End.behind]

/-- The text behind a gap is no longer than the text. -/
theorem length_scanFrom_le {part : Part} {text gap rest : List Char}
    (h : scanFrom part text = .reached gap rest) : rest.length ≤ text.length := by
  fun_induction scanFrom part text generalizing gap rest with
  -- these take one character or two and go on; the other cases open a comment or stop
  | case1 r ih | case6 r ih | case5 c r ih | case3 c r _ _ _ ih | case7 c r _ ih =>
    obtain ⟨g, hg⟩ := End.eq_reached_of_behind h
    have := ih hg
    simp only [List.length_cons]
    omega
  | case2 r ih =>
    obtain ⟨g, hg⟩ := End.eq_reached_of_opened h
    have := ih hg
    simp only [List.length_cons]
    omega
  | case4 => simp_all
  | case8 => simp at h
  | case9 => simp_all

/-- What follows a gap does not begin with white space. -/
theorem isSpace_scanFrom {part : Part} {text gap rest : List Char} {first : Char}
    (h : scanFrom part text = .reached gap (first :: rest)) : isSpace first = false := by
  fun_induction scanFrom part text generalizing gap rest with
  | case1 r ih | case6 r ih | case5 c r ih | case3 c r _ _ _ ih | case7 c r _ ih =>
    obtain ⟨g, hg⟩ := End.eq_reached_of_behind h
    exact ih hg
  | case2 r ih =>
    obtain ⟨g, hg⟩ := End.eq_reached_of_opened h
    exact ih hg
  -- only here the gap ends, at a character that is no space
  | case4 => simp_all
  | case8 => simp at h
  | case9 => simp at h

end Gap

namespace Source

/-- A lexeme takes at least its first character. -/
theorem length_lexemeAt_lt {s : Source} {c after : Cursor} {l : Lexeme} {first : Char}
    {rest : List Char} (hfirst : isSpace first = false)
    (h : s.lexemeAt c first rest = .lexeme l after) :
    after.rest.length < (first :: rest).length := by
  unfold lexemeAt at h
  simp only at h
  split at h
  · -- a string literal
    split at h
    · next body tail hclose =>
      cases h
      have := length_closeString hclose
      simp only [Cursor.past, List.length_cons]
      omega
    · cases h
  · split at h
    · -- punctuation
      cases h
      simp [Cursor.past]
    · -- a word
      next hquote hpunct =>
      cases h
      -- the first character does not end a word, so the word has it
      exact length_word_lt rest (by simp [endsWord, hfirst, hquote, hpunct])

/-- Every lexeme that is read leaves less of the text. -/
theorem length_next_lt {s : Source} {c after : Cursor} {l : Lexeme}
    (h : s.next c = .lexeme l after) : after.rest.length < c.rest.length := by
  unfold next at h
  split at h
  · cases h
  · next gap first rest hscan =>
    have := length_lexemeAt_lt (Gap.isSpace_scanFrom hscan) h
    have := Gap.length_scanFrom_le hscan
    omega
  · cases h
  · cases h

/-! ### Reading all that is left -/

/-- Reads all lexemes that are left and turns each into items; the first failure ends it. The last
cursor shows where reading stopped. -/
def collect {α : Type} (s : Source) (view : Lexeme → Except Failure (List α)) (c : Cursor) :
    Except Failure (List α) × Cursor :=
  match _step : s.next c with
  | .ended after => (.ok [], after)
  | .failed failure after => (.error failure, after)
  | .lexeme l after =>
    match view l with
    | .error failure => (.error failure, after)
    | .ok items =>
      let (more, last) := s.collect view after
      (more.map (items ++ ·), last)
termination_by c.rest.length
decreasing_by exact length_next_lt _step

/-- All lexemes of the text. -/
def lexemes (s : Source) : Except Failure (List Lexeme) := (s.collect (fun l => .ok [l]) s.start).1

/-- The lexemes with single spaces between them. -/
def normalize (s : Source) : Except Failure String := do
  return Text.spaced ((← s.lexemes).map (·.text))

end Source

end RomAsm
