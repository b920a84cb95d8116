import Mathlib.Data.List.DropRight
import RomAsm.Source.Lexeme

/-!
# Lines, columns and carets

The position behind a text is kept up to date character by character, and the lines of a source are
cut independently of that. Both come to the same count: the line is the number of line feeds so far,
the column is the number of characters since the last of them (`Position.after_eq`), and cutting the
whole text into lines puts exactly these characters in front of what follows
(`Text.getElem?_lines`).

So the location of a piece of the text leads back to it (`Source.shows_of_splits`). The text of a
diagnostic at that location is cut into lines once more (`Diagnostic.lines_text`): one of them is
the line of the source, and in the next one a caret stands below the first character of the piece
(`Source.pointsAt_of_splits`).
-/

namespace RomAsm

/-- **A position is a count** of line feeds and of the characters since the last of them. -/
theorem Position.after_eq (line : Int) (text : List Char) :
    (Position.mk line 1).after text =
      ⟨line + text.count '\n', 1 + (text.rtakeWhile (· ≠ '\n')).length⟩ := by
  -- from the last character back: a line feed begins the count of characters anew
  induction text using List.reverseRecOn with
  | nil => simp [after]
  | append_singleton text c ih =>
    have hnext : (Position.mk line 1).after (text ++ [c]) =
        ((Position.mk line 1).after text).next c := List.foldl_append
    rw [hnext, ih, Position.next]
    by_cases hc : c = '\n'
    · rw [if_pos hc, hc, List.rtakeWhile_concat_neg _ _ _ (by simp)]
      simp [Int.add_assoc]
    · rw [if_neg hc, List.rtakeWhile_concat_pos _ _ _ (by simpa using hc)]
      simp [hc, Int.add_assoc]

namespace Text

/-- **The lines of a text** are what its line feeds split it into. -/
theorem lines_eq_splitOn (text : List Char) : lines text = text.splitOn '\n' := by
  induction text with
  | nil => rfl
  | cons c text ih =>
    rw [List.splitOn_cons_eq_if_modifyHead, lines, ih]
    by_cases hc : c = '\n'
    · rw [if_pos hc, if_pos (beq_iff_eq.2 hc)]
    · rw [if_neg hc, if_neg (by simpa using hc)]
      -- there is a line to put the character in front of, even if it is empty
      obtain ⟨line, more, hlines⟩ := List.exists_cons_of_ne_nil (List.splitOn_ne_nil '\n' text)
      rw [hlines]
      rfl

/-- A line feed begins a new line, any other character belongs to the first one. -/
theorem lines_cons (c : Char) (text : List Char) :
    lines (c :: text) =
      if c = '\n' then [] :: lines text else (lines text).modifyHead (c :: ·) := by
  simp only [lines_eq_splitOn, List.splitOn_cons_eq_if_modifyHead, beq_iff_eq]

/-- A line feed separates the lines before it from the lines behind it. -/
theorem lines_append (text rest : List Char) :
    lines (text ++ '\n' :: rest) = lines text ++ lines rest := by
  rw [lines_eq_splitOn, lines_eq_splitOn, lines_eq_splitOn, List.splitOn_append_cons_self]

/-- There is one line more than there are line feeds. -/
theorem length_lines (text : List Char) : (lines text).length = text.count '\n' + 1 := by
  induction text with
  | nil => rfl
  | cons c text ih =>
    rw [lines_cons]
    split
    · next hc => rw [hc, List.length_cons, ih, List.count_cons_self]
    · next hc => rw [List.length_modifyHead, ih, List.count_cons_of_ne hc]

/-- A text without line feeds is one line. -/
theorem lines_of_not_mem {text : List Char} (h : '\n' ∉ text) : lines text = [text] := by
  rw [lines_eq_splitOn, List.splitOn_eq_singleton h]

/-- Texts that are put one below the other keep their lines. -/
theorem lines_joinChars {texts : List (List Char)} (h : texts ≠ []) :
    lines (joinChars ['\n'] texts) = texts.flatMap lines := by
  induction texts with
  | nil => exact absurd rfl h
  | cons text rest ih =>
    -- a line feed stands between two texts, and none behind the last
    cases rest with
    | nil => simp [joinChars]
    | cons next rest =>
      have hjoin : joinChars ['\n'] (text :: next :: rest) =
          text ++ '\n' :: joinChars ['\n'] (next :: rest) := by
        simp [joinChars]
      rw [hjoin, lines_append, ih (List.cons_ne_nil next rest), ← List.flatMap_cons]

/-- The first line goes up to the first line feed. -/
theorem getElem?_zero_lines (text : List Char) :
    (lines text)[0]? = some (text.takeWhile (· ≠ '\n')) := by
  induction text with
  | nil => rfl
  | cons c text ih =>
    rw [lines_cons]
    split
    · next hc =>
      rw [hc, List.takeWhile_cons_of_neg (by simp)]
      rfl
    · next hc =>
      rw [List.getElem?_modifyHead_zero, ih, List.takeWhile_cons_of_pos (by simpa using hc)]
      rfl

/-- **A line around a place of the text**: what stands before the place since the last line feed,
and what stands behind it up to the next. -/
theorem getElem?_lines (before rest : List Char) :
    (lines (before ++ rest))[before.count '\n']? =
      some (before.rtakeWhile (· ≠ '\n') ++ rest.takeWhile (· ≠ '\n')) := by
  -- from the last character back, since the line begins behind the last line feed
  induction before using List.reverseRecOn generalizing rest with
  | nil => exact getElem?_zero_lines rest
  | append_singleton before c ih =>
    rw [List.append_assoc, List.singleton_append]
    by_cases hc : c = '\n'
    · -- the place is at the beginning of a line
      have hlength : before.count '\n' + 1 = (lines before).length := (length_lines before).symm
      rw [hc, lines_append, List.count_append, List.count_singleton_self, hlength,
        List.getElem?_append_right (Nat.le_refl _), Nat.sub_self, getElem?_zero_lines,
        List.rtakeWhile_concat_neg _ _ _ (by simp), List.nil_append]
    · have hcount : (before ++ [c]).count '\n' = before.count '\n' := by simp [hc]
      rw [hcount, ih, List.rtakeWhile_concat_pos _ _ _ (by simpa using hc),
        List.takeWhile_cons_of_pos (by simpa using hc), List.append_assoc]
      rfl

end Text

/-! ### Locations -/

/-- The source has the line of a location, and from the column on the line begins with the text, up
to the end of its first line. -/
def Source.Shows (s : Source) (l : Location) (text : List Char) : Prop :=
  1 ≤ l.column ∧ ∃ line, s.line? l.line = some line ∧
    text.takeWhile (· ≠ '\n') <+: line.toList.drop (l.column - 1).toNat

/-- **What is printed points at a text.** The printed lines of a diagnostic at a location begin with
a headline. Then comes the line of the source, behind four spaces, and below it a line with a caret.
The character above the caret is the first one of the text, and the text goes on from there to its
first line feed. -/
def Source.PointsAt (s : Source) (d : Diagnostic) (l : Location) (text : List Char) : Prop :=
  d.location = some l ∧ ∃ line first rest below, s.line? l.line = some line ∧ text = first :: rest ∧
    d.text.toList.splitOn '\n' =
      (l.text ++ ": error: " ++ d.problem.message).toList.splitOn '\n' ++
        ("    " ++ line).toList :: (List.replicate (l.column.toNat + 3) ' ' ++ ['^']) :: below ∧
    ("    " ++ line).toList[l.column.toNat + 3]? = some first ∧
    text.takeWhile (· ≠ '\n') <+: ("    " ++ line).toList.drop (l.column.toNat + 3)

/-- The lines of a diagnostic with a line of the source and a column: its headline, that line, the
caret, and maybe a hint. -/
theorem Diagnostic.lines_text (p : Problem) {l : Location} (hl : 0 < l.column) {line : String}
    (hline : '\n' ∉ line.toList) :
    ∃ below, (Diagnostic.text ⟨p, some l, some line⟩).toList.splitOn '\n' =
      (l.text ++ ": error: " ++ p.message).toList.splitOn '\n' ++
        ("    " ++ line).toList :: (List.replicate (l.column.toNat + 3) ' ' ++ ['^']) :: below := by
  have hexcerpt : Diagnostic.excerpt ⟨p, some l, some line⟩ =
      ["    " ++ line, Diagnostic.caret l.column.toNat] := by
    rw [excerpt]
    dsimp only
    rw [if_pos hl]
  -- neither the indent nor the line has a line feed
  have hshown : Text.lines ("    " ++ line).toList = [("    " ++ line).toList] := by
    refine Text.lines_of_not_mem ?_
    rw [String.toList_append, List.mem_append, not_or]
    exact ⟨by decide, hline⟩
  have hcaret : Text.lines (Diagnostic.caret l.column.toNat).toList =
      [List.replicate (l.column.toNat + 3) ' ' ++ ['^']] := by
    rw [caret, caretIndent, String.toList_ofList, Nat.add_comm 3]
    refine Text.lines_of_not_mem ?_
    simp
  -- the headline may have line feeds of its own, but these two lines have none
  refine ⟨((Diagnostic.advice ⟨p, some l, some line⟩).map String.toList).flatMap Text.lines, ?_⟩
  rw [← Text.lines_eq_splitOn, ← Text.lines_eq_splitOn, text, Text.join, String.toList_ofList,
    hexcerpt, headline]
  rw [show "\n".toList = ['\n'] from rfl, Text.lines_joinChars (by simp)]
  simp only [List.cons_append, List.nil_append, List.map_cons, List.flatMap_cons, hshown, hcaret]

namespace Source

variable {s : Source} {before text rest : List Char}

/-- The line of a place of the text. -/
theorem line?_of_splits (h : s.text = before ++ rest) :
    s.line? (s.start.position.after before).line =
      some (String.ofList (before.rtakeWhile (· ≠ '\n') ++ rest.takeWhile (· ≠ '\n'))) := by
  have hline : (s.start.position.after before).line = s.firstLine + before.count '\n' :=
    congrArg Position.line (Position.after_eq s.firstLine before)
  have hindex : (s.firstLine + (before.count '\n' : Int) - s.firstLine).toNat =
      before.count '\n' := by
    omega
  rw [line?, hline, if_neg (by omega), h, hindex, Text.getElem?_lines]
  rfl

theorem column_of_splits (s : Source) (before : List Char) :
    (s.start.position.after before).column = 1 + (before.rtakeWhile (· ≠ '\n')).length :=
  congrArg Position.column (Position.after_eq s.firstLine before)

/-- The line goes on with the first line of what follows. -/
theorem takeWhile_prefix_append (text rest : List Char) :
    text.takeWhile (· ≠ '\n') <+: (text ++ rest).takeWhile (· ≠ '\n') := by
  rw [List.takeWhile_append]
  split
  · exact (List.takeWhile_prefix _).trans (List.prefix_append text _)
  · exact List.prefix_rfl

/-- **A location leads back to the text.** -/
theorem shows_of_splits (h : s.text = before ++ text ++ rest) :
    s.Shows (s.locate (s.start.position.after before)) text := by
  rw [List.append_assoc] at h
  have hcolumn := s.column_of_splits before
  refine ⟨?_, _, line?_of_splits h, ?_⟩
  · show 1 ≤ (s.start.position.after before).column
    omega
  · have hindex : ((s.start.position.after before).column - 1).toNat =
        (before.rtakeWhile (· ≠ '\n')).length := by
      omega
    show _ <+: List.drop ((s.start.position.after before).column - 1).toNat _
    rw [hindex, String.toList_ofList, List.drop_left]
    exact takeWhile_prefix_append text rest

/-- **A caret leads back to the text.** -/
theorem pointsAt_of_splits {first : Char} (hfirst : first ≠ '\n')
    (h : s.text = before ++ first :: text ++ rest) (p : Problem) {l : Location}
    (hl : l = s.locate (s.start.position.after before)) :
    s.PointsAt ⟨p, some l, s.line? l.line⟩ l (first :: text) := by
  rw [List.append_assoc] at h
  have hline : s.line? l.line = _ := (congrArg (s.line? ·.line) hl).trans (line?_of_splits h)
  have hcolumn : l.column = _ := (congrArg Location.column hl).trans (s.column_of_splits before)
  have hpos : 0 < l.column := by omega
  -- the line is shown with an indent, so the text begins behind that and what stands before it
  have hindent : l.column.toNat + 3 =
      ("    ".toList ++ before.rtakeWhile (· ≠ '\n')).length := by
    have hfour : "    ".toList.length = 4 := by simp
    rw [List.length_append, hfour]
    omega
  have hshown (line : List Char) : ("    " ++ String.ofList
      (before.rtakeWhile (· ≠ '\n') ++ line)).toList =
        "    ".toList ++ before.rtakeWhile (· ≠ '\n') ++ line := by
    rw [String.toList_append, List.append_assoc]
    exact congrArg ("    ".toList ++ ·) String.toList_ofList
  -- the line ends where the next line feed would be
  have hfeed : '\n' ∉ (String.ofList (before.rtakeWhile (· ≠ '\n') ++
      (first :: text ++ rest).takeWhile (· ≠ '\n'))).toList := by
    rw [String.toList_ofList, List.mem_append, not_or]
    exact ⟨fun h => by simpa using List.mem_rtakeWhile_imp h,
      fun h => by simpa using List.mem_takeWhile_imp h⟩
  obtain ⟨below, hlines⟩ := Diagnostic.lines_text p hpos hfeed
  refine ⟨rfl, _, first, text, below, hline, rfl, ?_, ?_, ?_⟩
  · rw [hline]
    exact hlines
  · rw [hshown, hindent, List.getElem?_append_right (Nat.le_refl _), Nat.sub_self,
      List.cons_append, List.takeWhile_cons_of_pos (by simpa using hfirst)]
    rfl
  · rw [hshown, hindent, List.drop_left]
    exact takeWhile_prefix_append (first :: text) rest

end Source

end RomAsm
