import RomAsm.Proofs.Lexing
import RomAsm.Proofs.Verdicts

/-!
# Where the symbols of a source stand

The symbols that are read from a text stand in it one behind the other, each with at least one
character of its own (`Stands`). So no two symbols of a source stand at the same location, and none
stands beyond the end of the text.

* `Source.readsAt_lexemeAt`, `Source.exists_lexemeAt` — what reading one lexeme comes to;
* `Source.next_splits` — reading one lexeme cuts the text into a gap, the lexeme and the rest;
* `Source.classifyText_sideBySide` — the symbols of a lexeme make up its text;
* `Source.classifyText_stands`, `Source.symbols_stand` — the symbols of one lexeme, and of a source;
* `Stands.nodup`, `Stands.isWritable` — what follows for their locations.
-/

namespace RomAsm

/-! ### The order of positions -/

namespace Position

/-- One position comes before another. -/
def Before (p q : Position) : Prop := p.line < q.line ∨ p.line = q.line ∧ p.column < q.column

theorem Before.trans {p q r : Position} (hpq : p.Before q) (hqr : q.Before r) : p.Before r := by
  unfold Before at *
  omega

theorem Before.ne {p q : Position} (h : p.Before q) : p ≠ q := by
  rintro rfl
  unfold Before at h
  omega

/-- A character leads on, be it to the next line or to the next column. -/
theorem before_next (p : Position) (c : Char) : p.Before (p.next c) := by
  unfold next
  split
  · exact .inl (Int.lt_succ p.line)
  · exact .inr ⟨rfl, Int.lt_succ p.column⟩

theorem after_append (p : Position) (u v : List Char) : p.after (u ++ v) = (p.after u).after v :=
  List.foldl_append

/-- A text that is not empty leads on as well. -/
theorem before_after {p : Position} {u : List Char} (h : u ≠ []) : p.Before (p.after u) := by
  induction u generalizing p with
  | nil => exact absurd rfl h
  | cons c u ih =>
    cases u with
    | nil => exact before_next p c
    | cons d u => exact (before_next p c).trans (ih (List.cons_ne_nil d u))

end Position

/-! ### Symbols in a text -/

/-- The symbols stand in the text, which begins at the given position, one behind the other. -/
inductive Stands (s : Source) : Position → List Char → List Symbol → Prop where
  | nil {p : Position} {text : List Char} : Stands s p text []
  | cons {p : Position} {gap word rest : List Char} {x : Symbol} {xs : List Symbol}
      (hword : word ≠ []) (hx : x.location = some (s.locate (p.after gap)))
      (hxs : Stands s (p.after (gap ++ word)) rest xs) : Stands s p (gap ++ word ++ rest) (x :: xs)

namespace Stands

variable {s : Source} {p : Position} {text : List Char} {xs : List Symbol}

/-- Symbols stand in a text also if there is more of it in front of them. -/
theorem shift {u : List Char} (h : Stands s (p.after u) text xs) : Stands s p (u ++ text) xs := by
  cases h with
  | nil => exact .nil
  -- the text in front belongs to the first gap
  | @cons _ gap word rest x xs hword hx hxs =>
    rw [← Position.after_append] at hx hxs
    rw [← List.append_assoc, ← List.append_assoc]
    exact .cons hword hx (by rwa [List.append_assoc])

/-- Symbols of two texts stand in both together. -/
theorem append {more : List Char} {ys : List Symbol} (h : Stands s p text xs)
    (hys : Stands s (p.after text) more ys) : Stands s p (text ++ more) (xs ++ ys) := by
  induction h with
  -- without symbols all of the first text is gap
  | nil => exact hys.shift
  | cons hword hx hxs ih =>
    rw [Position.after_append] at hys
    rw [List.append_assoc _ _ more]
    exact .cons hword hx (ih hys)

/-- The symbols stand behind the beginning of the text and before its end. -/
theorem exists_place (h : Stands s p text xs) {x : Symbol} (hx : x ∈ xs) :
    ∃ u, u.length < text.length ∧ x.location = some (s.locate (p.after u)) := by
  induction h with
  | nil => cases hx
  | @cons p gap word rest y ys hword hy hys ih =>
    have hpos := List.length_pos_iff.2 hword
    rcases List.mem_cons.1 hx with rfl | hx
    · -- the first symbol stands behind its gap
      refine ⟨gap, ?_, hy⟩
      simp only [List.length_append]
      omega
    · obtain ⟨u, hu, hx⟩ := ih hx
      rw [← Position.after_append] at hx
      refine ⟨gap ++ word ++ u, ?_, hx⟩
      simp only [List.length_append] at hu ⊢
      omega

/-- No two symbols stand at the same place. -/
theorem nodup (h : Stands s p text xs) : (xs.map (·.location)).Nodup := by
  induction h with
  | nil => exact List.nodup_nil
  | @cons p gap word rest x xs hword hx hxs ih =>
    refine List.nodup_cons.2 ⟨?_, ih⟩
    intro hmem
    obtain ⟨y, hy, hlocation : y.location = x.location⟩ := List.mem_map.1 hmem
    -- a later symbol stands behind this one, by at least the characters of its word
    obtain ⟨u, -, hu⟩ := hxs.exists_place hy
    have hbefore : (p.after gap).Before ((p.after (gap ++ word)).after u) := by
      rw [Position.after_append, ← Position.after_append]
      exact Position.before_after (by simp [hword])
    rw [hx, hu] at hlocation
    injection hlocation with hlocate
    injection hlocate with _ hline hcolumn
    exact hbefore.ne ((Position.mk.injEq ..).mpr ⟨hline.symm, hcolumn.symm⟩)

/-- The locations of symbols can be written if the length of the text can. -/
theorem isWritable {n : Nat} (h : Stands s p text xs) (hp : p.IsBelow n)
    (hn : Numeral.isWritable (n + text.length : Nat) = true) {x : Symbol} (hx : x ∈ xs) :
    ∃ l : Location, l.isWritable = true ∧ x.location = some l := by
  obtain ⟨u, hu, hlocation⟩ := h.exists_place hx
  exact ⟨_, ((hp.after u).mono (by omega)).isWritable hn s, hlocation⟩

end Stands

/-! ### Cutting up the text -/

/-- A string literal and what is left of the text make it up. -/
theorem append_of_closeString {text body rest : List Char}
    (h : closeString text = some (body, rest)) : text = body ++ rest := by
  fun_induction closeString text generalizing body rest with
  | case1 => cases h
  -- the closing quote
  | case2 r =>
    cases h
    rfl
  -- a backslash takes the next character with it
  | case3 c r ih | case4 c r _ _ ih =>
    obtain ⟨⟨b, r'⟩, hb, heq⟩ := Option.map_eq_some_iff.1 h
    cases heq
    rw [ih hb]
    rfl

/-- White space and punctuation end a word. -/
theorem plain_of_mem_word {text : List Char} :
    ∀ c ∈ (word text).1, isSpace c = false ∧ isPunctuation c = false := by
  fun_induction word text with
  | case1 => exact List.forall_mem_nil _
  -- an escaped quote, or an escaped backslash
  | case2 rest w tail hword ih | case3 rest w tail hword ih =>
    rw [hword] at ih
    exact List.forall_mem_cons.2 ⟨by decide, List.forall_mem_cons.2 ⟨by decide, ih⟩⟩
  | case4 => exact List.forall_mem_nil _
  | case5 c rest _ _ hends w tail hword ih =>
    rw [hword] at ih
    simp only [endsWord, Bool.or_eq_true, not_or, Bool.not_eq_true] at hends
    exact List.forall_mem_cons.2 ⟨hends.1, ih⟩

namespace Gap

/-- What has been taken stands in front of the rest of the gap. -/
theorem End.append_of_behind {taken gap rest : List Char} {e : End}
    (h : e.behind taken = .reached gap rest) :
    ∃ more, e = .reached more rest ∧ gap = taken ++ more := by
  cases e with
  | reached more r =>
    cases h
    exact ⟨more, rfl, rfl⟩
  | unclosed _ => cases h
  | inside => cases h

/-- And so does the beginning of a comment. -/
theorem End.append_of_opened {gap rest : List Char} {e : End} (h : e.opened = .reached gap rest) :
    ∃ more, e = .reached more rest ∧ gap = ['/', '*'] ++ more := by
  cases e with
  | reached more r => exact append_of_behind h
  | unclosed _ => cases h
  | inside => cases h

/-- A gap and what is behind it are the whole text. -/
theorem append_of_scanFrom {part : Part} {text gap rest : List Char}
    (h : scanFrom part text = .reached gap rest) : text = gap ++ rest := by
  fun_induction scanFrom part text generalizing gap rest with
  -- these take one character or two and go on; the other cases open a comment or stop
  | case1 r ih | case6 r ih | case5 c r ih | case3 c r _ _ _ ih | case7 c r _ ih =>
    obtain ⟨more, hmore, rfl⟩ := End.append_of_behind h
    rw [ih hmore]
    rfl
  | case2 r ih =>
    obtain ⟨more, hmore, rfl⟩ := End.append_of_opened h
    rw [ih hmore]
    rfl
  | case4 => cases h; rfl
  | case8 => cases h
  | case9 => cases h; rfl

end Gap

namespace Source

variable {s : Source}

/-- **What reading at a first character comes to**: a string literal, one that is never closed, a
character of punctuation, or a word. -/
inductive ReadsAt (s : Source) (c : Cursor) : Char → List Char → Step → Prop where
  | string {rest body tail : List Char} (h : closeString rest = some (body, tail)) :
      s.ReadsAt c '"' rest
        (.lexeme ⟨String.ofList ('"' :: body), s.locate c.position⟩ (c.past ('"' :: body) tail))
  | openString {rest : List Char} (h : closeString rest = none) :
      s.ReadsAt c '"' rest
        (.failed (s.report .unterminatedString (s.locate c.position)) (c.past ('"' :: rest) []))
  | punctuation {first : Char} {rest : List Char} (h : isPunctuation first = true) :
      s.ReadsAt c first rest
        (.lexeme ⟨String.singleton first, s.locate c.position⟩ (c.past [first] rest))
  | word {first : Char} {rest : List Char} (hquote : first ≠ '"')
      (h : isPunctuation first = false) :
      s.ReadsAt c first rest (.lexeme
        ⟨String.ofList (RomAsm.word (first :: rest)).1, s.locate c.position⟩
        (c.past (RomAsm.word (first :: rest)).1 (RomAsm.word (first :: rest)).2))

/-- These are all the ways there are. -/
theorem readsAt_lexemeAt (s : Source) (c : Cursor) (first : Char) (rest : List Char) :
    s.ReadsAt c first rest (s.lexemeAt c first rest) := by
  unfold lexemeAt
  dsimp only
  split
  · next hquote =>
    subst hquote
    split
    · next body tail hclose => exact .string hclose
    · next hopen => exact .openString hopen
  · next hquote =>
    split
    · next hpunctuation => exact .punctuation hpunctuation
    · next hpunctuation => exact .word hquote (Bool.eq_false_iff.2 hpunctuation)

/-- A lexeme takes its text, and stands where reading began. -/
theorem lexemeAt_splits {c after : Cursor} {l : Lexeme} {first : Char} {rest : List Char}
    (h : s.lexemeAt c first rest = .lexeme l after) :
    first :: rest = l.text.toList ++ after.rest ∧ l.location = s.locate c.position ∧
      after.position = c.position.after l.text.toList := by
  have hreads := s.readsAt_lexemeAt c first rest
  rw [h] at hreads
  cases hreads with
  | string hclose =>
    rw [String.toList_ofList, append_of_closeString hclose]
    exact ⟨rfl, rfl, rfl⟩
  | punctuation =>
    rw [String.toList_singleton]
    exact ⟨rfl, rfl, rfl⟩
  | word =>
    rw [String.toList_ofList]
    exact ⟨(append_word (first :: rest)).symm, rfl, rfl⟩

/-- A lexeme that is read stands behind a gap. -/
theorem exists_lexemeAt {c after : Cursor} {l : Lexeme} (h : s.next c = .lexeme l after) :
    ∃ gap first rest, Gap.scan c.rest = .reached gap (first :: rest) ∧
      s.lexemeAt (c.past gap (first :: rest)) first rest = .lexeme l after := by
  unfold next at h
  split at h
  · cases h
  · next gap first rest hscan => exact ⟨gap, first, rest, hscan, h⟩
  · cases h
  · cases h

/-- Reading a lexeme cuts the text into a gap, the lexeme and what is left. -/
theorem next_splits {c after : Cursor} {l : Lexeme} (h : s.next c = .lexeme l after) :
    ∃ gap, c.rest = gap ++ l.text.toList ++ after.rest ∧
      l.location = s.locate (c.position.after gap) ∧
      after.position = c.position.after (gap ++ l.text.toList) := by
  obtain ⟨gap, first, rest, hscan, hlexeme⟩ := exists_lexemeAt h
  obtain ⟨htext, hlocation, hposition⟩ := lexemeAt_splits hlexeme
  refine ⟨gap, ?_, hlocation, hposition.trans (Position.after_append ..).symm⟩
  rw [Gap.append_of_scanFrom hscan, htext, List.append_assoc]

end Source

/-! ### The symbols of a source -/

/-- Symbols are handed over only if there is no failure. -/
theorem Classified.eq_of_outcome {k : Classified} {xs : List Symbol} (h : k.outcome = .ok xs) :
    k.failure = none ∧ k.symbols = xs := by
  unfold outcome at h
  split at h
  · next hnone => exact ⟨hnone, Except.ok.inj h⟩
  · cases h

namespace Source

variable {s : Source}

/-- The symbols make up a text that begins at the given position, one right behind the other. -/
inductive SideBySide (s : Source) : Position → List Char → List Symbol → Prop where
  | nil {p : Position} : SideBySide s p [] []
  | cons {p : Position} {word text : List Char} {x : Symbol} {xs : List Symbol}
      (hword : word ≠ []) (htext : x.text.toList = word) (hx : x.location = some (s.locate p))
      (hxs : SideBySide s (p.after word) text xs) : SideBySide s p (word ++ text) (x :: xs)

namespace SideBySide

variable {p : Position} {text : List Char} {xs : List Symbol}

/-- Put together, the symbols spell the text. -/
theorem flatMap_text (h : SideBySide s p text xs) : xs.flatMap (·.text.toList) = text := by
  induction h with
  | nil => rfl
  | cons _ htext _ _ ih => rw [List.flatMap_cons, ih, htext]

/-- Each symbol stands where its text does. -/
theorem exists_place (h : SideBySide s p text xs) {x : Symbol} (hx : x ∈ xs) :
    ∃ u v, text = u ++ x.text.toList ++ v ∧ x.location = some (s.locate (p.after u)) := by
  induction h with
  | nil => cases hx
  | @cons p word text y ys _ htext hy _ ih =>
    rcases List.mem_cons.1 hx with rfl | hx
    · exact ⟨[], text, by rw [htext, List.nil_append], hy⟩
    · obtain ⟨u, v, rfl, hlocation⟩ := ih hx
      refine ⟨word ++ u, v, by simp only [List.append_assoc], ?_⟩
      rw [Position.after_append]
      exact hlocation

/-- Symbols side by side stand in the text, with no gaps between them. -/
theorem stands (h : SideBySide s p text xs) (rest : List Char) : Stands s p (text ++ rest) xs := by
  induction h with
  | nil => exact .nil
  | @cons p word text x xs hword _ hx _ ih =>
    rw [List.append_assoc]
    exact @Stands.cons s p [] word _ x xs hword hx ih

end SideBySide

/-- **The symbols of a lexeme** make up its text, or a part of it if the rest is no symbol. -/
theorem classifyText_sideBySide (marks : Option Nat) (text : List Char) (p : Position) :
    ∃ taken rest, text = taken ++ rest ∧
      SideBySide s p taken (s.classifyText marks text (s.locate p)).symbols ∧
      ((s.classifyText marks text (s.locate p)).failure = none → rest = []) := by
  induction text generalizing marks p with
  | nil => exact ⟨[], [], rfl, .nil, fun _ => rfl⟩
  | cons c rest ih =>
    rw [classifyText]
    split
    · next hc =>
      subst hc
      split
      · -- too many signs
        exact ⟨[], '!' :: rest, rfl, .nil, nofun⟩
      · -- a sign stands right before what the rest of the lexeme gives
        obtain ⟨taken, left, rfl, hside, hend⟩ := ih (marks.map (· - 1)) (p.after ['!'])
        refine ⟨'!' :: taken, left, rfl, ?_, hend⟩
        exact @SideBySide.cons s p ['!'] taken _ _ nofun (by simp) rfl hside
    · -- what is no sign is one symbol, or none
      have hplain := s.classifyPlain_cases (c :: rest) (s.locate p)
      rcases hplain with ⟨kind, value, hok⟩ | ⟨problem, -, herror⟩ | ⟨f, herror⟩
      · rw [hok]
        refine ⟨c :: rest ++ [], [], by simp only [List.append_nil], ?_, fun _ => rfl⟩
        exact .cons (List.cons_ne_nil c rest) (String.toList_ofList ..) rfl .nil
      · rw [herror]
        exact ⟨[], c :: rest, rfl, .nil, nofun⟩
      · rw [herror]
        exact ⟨[], c :: rest, rfl, .nil, nofun⟩

/-- The symbols of a lexeme stand in its text. -/
theorem classifyText_stands (marks : Option Nat) (text : List Char) (p : Position) :
    Stands s p text (s.classifyText marks text (s.locate p)).symbols := by
  obtain ⟨taken, rest, htext, hside, -⟩ := s.classifyText_sideBySide marks text p
  have hstands := hside.stands rest
  rwa [← htext] at hstands

/-- **The symbols of a source** stand in its text. -/
theorem collect_stands (c : Cursor) {xs : List Symbol}
    (h : (s.collect (fun l => (s.classify l).outcome) c).1 = .ok xs) :
    Stands s c.position c.rest xs := by
  fun_induction collect s (fun l => (s.classify l).outcome) c generalizing xs with
  | case1 c after hnext =>
    cases h
    exact .nil
  | case2 => cases h
  | case3 => cases h
  | case4 c l after hnext items hview more last hmore ih =>
    obtain ⟨ys, hys, rfl⟩ := Trace.except_map_eq_ok.1 h
    obtain ⟨gap, hrest, hlocation, hposition⟩ := next_splits hnext
    obtain ⟨-, rfl⟩ := Classified.eq_of_outcome hview
    -- the symbols of this lexeme stand behind the gap, those of the later ones behind the lexeme
    have hstands := s.classifyText_stands s.markLimit l.text.toList (c.position.after gap)
    rw [← hlocation] at hstands
    rw [hrest]
    refine Stands.append hstands.shift ?_
    rw [← hposition]
    exact ih (by rw [hmore]; exact hys)

theorem symbols_stand {xs : List Symbol} (h : s.symbols = .ok xs) :
    Stands s ⟨s.firstLine, 1⟩ s.text xs :=
  collect_stands s.start h

end Source

end RomAsm
