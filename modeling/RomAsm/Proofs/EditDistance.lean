import Mathlib.Order.Bounds.Basic
import Mathlib.Tactic.Common
import RomAsm.Similarity

/-!
# The edit distance is a distance

`Edit` is a single insertion, deletion or substitution anywhere in a text, and `Edits n` a sequence
of `n` of them. The edit distance of two texts is the least `n` for which there is such a sequence.

Between the two stands `distance`, the plain recursion on the first characters of both texts. It
tries all three edits and takes the best, even where the characters are equal.

* `distance_le_of_edits`, `edits_distance` — no sequence is shorter than the distance, and one is
  not longer. A single edit moves the distance to any text by at most one (`distance_le_of_edit`).
* `distance_cons_self`, `distance_cons_ne` — where the first characters are equal nothing has to be
  tried. This is because neighbouring entries of the table differ by at most one
  (`distance_le_cons`).
* `nextRow_row`, `foldl_nextRow` — one row of the table, and by induction all of them. The rows are
  made from the beginnings of the texts, so the last entry is the distance of the texts turned
  round, and sequences of edits can be turned round too (`Edits.reverse`).
-/

namespace RomAsm.Similarity

/-! ### Edits -/

/-- One character is inserted, deleted or replaced. -/
inductive Edit : List Char → List Char → Prop where
  | insert (before after : List Char) (c : Char) : Edit (before ++ after) (before ++ c :: after)
  | delete (before after : List Char) (c : Char) : Edit (before ++ c :: after) (before ++ after)
  | substitute (before after : List Char) (c d : Char) :
    Edit (before ++ c :: after) (before ++ d :: after)

/-- So many edits turn one text into another. -/
inductive Edits : Nat → List Char → List Char → Prop where
  | none (a : List Char) : Edits 0 a a
  | more {n : Nat} {a b c : List Char} (h : Edit a b) (hrest : Edits n b c) : Edits (n + 1) a c

namespace Edit

variable {a b : List Char}

/-- An edit can be undone. -/
theorem symm (h : Edit a b) : Edit b a := by
  cases h with
  | insert before after c => exact .delete before after c
  | delete before after c => exact .insert before after c
  | substitute before after c d => exact .substitute before after d c

/-- An edit can be made behind any character. -/
theorem cons (c : Char) (h : Edit a b) : Edit (c :: a) (c :: b) := by
  cases h with
  | insert before after d => exact .insert (c :: before) after d
  | delete before after d => exact .delete (c :: before) after d
  | substitute before after d e => exact .substitute (c :: before) after d e

/-- An edit of a text is an edit of the text turned round. -/
theorem reverse (h : Edit a b) : Edit a.reverse b.reverse := by
  cases h with
  -- what stood before the place of the edit now stands behind it
  | insert before after c => simpa using Edit.insert after.reverse before.reverse c
  | delete before after c => simpa using Edit.delete after.reverse before.reverse c
  | substitute before after c d => simpa using Edit.substitute after.reverse before.reverse c d

end Edit

namespace Edits

variable {m n : Nat} {a b c : List Char}

theorem single (h : Edit a b) : Edits 1 a b := .more h (.none b)

/-- Two sequences of edits make a longer one. -/
theorem trans (h : Edits m a b) (hrest : Edits n b c) : Edits (m + n) a c := by
  induction h with
  | none a => rwa [Nat.zero_add]
  | @more m a b _ hedit _ ih =>
    rw [Nat.add_right_comm]
    exact .more hedit (ih hrest)

/-- A sequence of edits can be undone, the last one first. -/
theorem symm (h : Edits n a b) : Edits n b a := by
  induction h with
  | none a => exact .none a
  -- the undone first edit comes last
  | more hedit _ ih => exact ih.trans (single hedit.symm)

theorem cons (c : Char) (h : Edits n a b) : Edits n (c :: a) (c :: b) := by
  induction h with
  | none a => exact .none (c :: a)
  | more hedit _ ih => exact .more (hedit.cons c) ih

theorem reverse (h : Edits n a b) : Edits n a.reverse b.reverse := by
  induction h with
  | none a => exact .none a.reverse
  | more hedit _ ih => exact .more hedit.reverse ih

/-- A text is made from nothing by as many edits as it has characters. -/
theorem insertAll (b : List Char) : Edits b.length [] b := by
  induction b with
  | nil => exact .none []
  | cons d b ih => exact .more (.insert [] [] d) (ih.cons d)

/-- Of two sequences of edits one is as long as the shorter of them. -/
theorem shorter (hm : Edits m a b) (hn : Edits n a b) : Edits (min m n) a b := by
  rcases Nat.le_total m n with h | h
  · rwa [Nat.min_eq_left h]
  · rwa [Nat.min_eq_right h]

theorem eq_of_zero (h : Edits 0 a b) : a = b := by
  cases h
  rfl

end Edits

/-! ### The plain recursion -/

/-- The distance of two texts: from the first characters on, one of them is deleted, one is
inserted, or one stands against the other. -/
def distance : List Char → List Char → Nat
  | [], b => b.length
  | _ :: a, [] => a.length + 1
  | c :: a, d :: b =>
    -- an insertion keeps the first text whole, so the second one is what gets shorter
    min (distance a (d :: b) + 1)
      (min (distance (c :: a) b + 1) (distance a b + if c = d then 0 else 1))
termination_by a b => a.length + b.length

@[simp] theorem distance_nil_left (b : List Char) : distance [] b = b.length := by rw [distance]

@[simp] theorem distance_nil_right (a : List Char) : distance a [] = a.length := by
  cases a <;> simp [distance]

/-- The recursion, for two texts that are not empty. -/
theorem distance_cons_cons (c d : Char) (a b : List Char) :
    distance (c :: a) (d :: b) =
      min (distance a (d :: b) + 1)
        (min (distance (c :: a) b + 1) (distance a b + if c = d then 0 else 1)) := by
  rw [distance]

/-! ### Neighbours in the table -/

/-- A character more on the left can be deleted. -/
theorem distance_cons_left_le (c : Char) (a b : List Char) :
    distance (c :: a) b ≤ distance a b + 1 := by
  cases b with
  | nil => simp
  | cons d b =>
    rw [distance_cons_cons]
    omega

/-- A character more on the right can be inserted. -/
theorem distance_cons_right_le (a : List Char) (d : Char) (b : List Char) :
    distance a (d :: b) ≤ distance a b + 1 := by
  cases a with
  | nil => simp
  | cons c a =>
    rw [distance_cons_cons]
    omega

/-- A character more on both sides can be substituted. -/
theorem distance_cons_cons_le (c d : Char) (a b : List Char) :
    distance (c :: a) (d :: b) ≤ distance a b + 1 := by
  rw [distance_cons_cons]
  split <;> omega

/-- **Neighbouring entries differ by at most one**: one character less does not make the distance
larger by more than one. -/
theorem distance_le_cons (c : Char) (a b : List Char) : distance a b ≤ distance (c :: a) b + 1 := by
  induction b with
  | nil =>
    simp only [distance_nil_right, List.length_cons]
    omega
  | cons d b ih =>
    -- whichever of the three edits is best, `d` can also be inserted
    have hinsert : distance a (d :: b) ≤ distance a b + 1 := distance_cons_right_le a d b
    rw [distance_cons_cons]
    split <;> omega

/-- The distance to any text moves by at most one when the first character is replaced. -/
theorem distance_substitute_le (c d : Char) (a b : List Char) :
    distance (c :: a) b ≤ distance (d :: a) b + 1 := by
  induction b with
  | nil => simp
  | cons e b ih =>
    -- the best way for `d :: a` begins with one of three edits, and each is at hand for `c :: a`
    -- too
    have hdelete : distance (c :: a) (e :: b) ≤ distance a (e :: b) + 1 :=
      distance_cons_left_le c a (e :: b)
    have hinsert : distance (c :: a) (e :: b) ≤ distance (c :: a) b + 1 :=
      distance_cons_right_le (c :: a) e b
    have hboth : distance (c :: a) (e :: b) ≤ distance a b + 1 := distance_cons_cons_le c e a b
    rw [distance_cons_cons d e]
    split <;> omega

/-- What moves the distance to every text by at most one does so also behind a common character. -/
theorem distance_cons_mono {a a' : List Char} (h : ∀ b, distance a b ≤ distance a' b + 1) (c : Char)
    (b : List Char) : distance (c :: a) b ≤ distance (c :: a') b + 1 := by
  induction b with
  | nil => simpa using h []
  | cons d b ih =>
    -- the recursion asks for shorter texts on the right as well, so `h` is needed for every text
    have hdelete : distance a (d :: b) ≤ distance a' (d :: b) + 1 := h (d :: b)
    have hboth : distance a b ≤ distance a' b + 1 := h b
    rw [distance_cons_cons, distance_cons_cons]
    split <;> omega

/-- The same behind any common beginning. -/
theorem distance_append_mono {a a' : List Char} (h : ∀ b, distance a b ≤ distance a' b + 1)
    (before b : List Char) : distance (before ++ a) b ≤ distance (before ++ a') b + 1 := by
  -- by the characters in front, each of which is carried over
  induction before generalizing b with
  | nil => exact h b
  | cons c before ih => exact distance_cons_mono ih c b

/-- **One edit** moves the distance to any text by at most one. -/
theorem distance_le_of_edit {a a' : List Char} (h : Edit a a') (b : List Char) :
    distance a b ≤ distance a' b + 1 := by
  cases h with
  | insert before after c => exact distance_append_mono (distance_le_cons c after) before b
  | delete before after c => exact distance_append_mono (distance_cons_left_le c after) before b
  | substitute before after c d =>
    -- all three are the same statement about the place of the edit, carried over what stands before
    -- it
    exact distance_append_mono (distance_substitute_le c d after) before b

/-! ### The least number of edits -/

/-- A text has no distance to itself. -/
@[simp] theorem distance_self (a : List Char) : distance a a = 0 := by
  induction a with
  | nil => simp
  | cons c a ih =>
    rw [distance_cons_cons, ih, if_pos rfl]
    omega

/-- No sequence of edits is shorter than the distance. -/
theorem distance_le_of_edits {n : Nat} {a b : List Char} (h : Edits n a b) : distance a b ≤ n := by
  induction h with
  | none a => rw [distance_self]
  | @more n a b c hedit _ ih =>
    -- one edit moves the distance by one, and the rest is shorter by one
    calc distance a c ≤ distance b c + 1 := distance_le_of_edit hedit c
      _ ≤ n + 1 := Nat.succ_le_succ ih

/-- There is a sequence of edits that is as long as the distance. -/
theorem edits_distance (a b : List Char) : Edits (distance a b) a b := by
  fun_induction distance a b with
  | case1 b => exact .insertAll b
  | case2 c a => exact (Edits.insertAll (c :: a)).symm
  | case3 c a d b ihdelete ihinsert ihboth =>
    -- the three ways that the recursion compares, as sequences of edits
    have hdelete : Edits (distance a (d :: b) + 1) (c :: a) (d :: b) :=
      .more (.delete [] a c) ihdelete
    have hinsert : Edits (distance (c :: a) b + 1) (c :: a) (d :: b) :=
      .more (.insert [] (c :: a) d) (ihinsert.cons d)
    have hboth : Edits (distance a b + if c = d then 0 else 1) (c :: a) (d :: b) := by
      split
      · next heq =>
        subst heq
        exact ihboth.cons c
      · exact .more (.substitute [] a c d) (ihboth.cons d)
    exact hdelete.shorter (hinsert.shorter hboth)

/-- **The distance is the least number of edits.** So whatever sequences of edits allow holds of the
distance, and need not be proved by the recursion. -/
theorem isLeast_distance (a b : List Char) : IsLeast {n | Edits n a b} (distance a b) :=
  ⟨edits_distance a b, fun _ h => distance_le_of_edits h⟩

/-- The distance is symmetric, since edits can be undone. -/
theorem distance_comm (a b : List Char) : distance a b = distance b a :=
  le_antisymm (distance_le_of_edits (edits_distance b a).symm)
    (distance_le_of_edits (edits_distance a b).symm)

/-- The distance can be taken from the ends of the texts as well. -/
theorem distance_reverse (a b : List Char) : distance a.reverse b.reverse = distance a b := by
  -- turning round twice gives the texts back, so one direction is the other one applied to them
  apply le_antisymm
  · exact distance_le_of_edits (edits_distance a b).reverse
  · have h : Edits (distance a.reverse b.reverse) a.reverse.reverse b.reverse.reverse :=
      (edits_distance a.reverse b.reverse).reverse
    rw [List.reverse_reverse, List.reverse_reverse] at h
    exact distance_le_of_edits h

/-- Different texts have a distance. -/
theorem distance_eq_zero {a b : List Char} : distance a b = 0 ↔ a = b := by
  constructor
  · intro h
    have hedits := edits_distance a b
    rw [h] at hedits
    exact hedits.eq_of_zero
  · rintro rfl
    exact distance_self a

/-- A detour is no shorter, since sequences of edits can be put together. -/
theorem distance_triangle (a b c : List Char) : distance a c ≤ distance a b + distance b c :=
  distance_le_of_edits ((edits_distance a b).trans (edits_distance b c))

/-! ### Nothing to try -/

/-- Where the first characters are equal, they may stand against each other. -/
theorem distance_cons_self (c : Char) (a b : List Char) :
    distance (c :: a) (c :: b) = distance a b := by
  -- neither a deletion nor an insertion pays off, since it saves less than the one that it costs
  have hleft : distance a b ≤ distance a (c :: b) + 1 := by
    rw [distance_comm a b, distance_comm a (c :: b)]
    exact distance_le_cons c b a
  have hright : distance a b ≤ distance (c :: a) b + 1 := distance_le_cons c a b
  rw [distance_cons_cons, if_pos rfl]
  omega

/-- Where they differ, all three edits are tried. -/
theorem distance_cons_ne {c d : Char} (h : c ≠ d) (a b : List Char) :
    distance (c :: a) (d :: b) =
      1 + min (distance a b) (min (distance a (d :: b)) (distance (c :: a) b)) := by
  rw [distance_cons_cons, if_neg h]
  omega

/-! ### Rows -/

/-- The row of the table for a text: its distances to a text and to what comes of that when the
characters of `other` are put in front of it, one after the other. -/
def row (passed seen : List Char) : (other : List Char) → List Nat
  | [] => [distance passed seen]
  | d :: other => distance passed seen :: row passed (d :: seen) other

/-- What stands in a row behind its first entry. -/
def rowBehind (passed seen : List Char) : (other : List Char) → List Nat
  | [] => []
  | d :: other => row passed (d :: seen) other

/-- A row is its first entry and what stands behind it. -/
theorem row_eq (passed seen other : List Char) :
    row passed seen other = distance passed seen :: rowBehind passed seen other := by
  cases other <;> rfl

/-- The row of the empty text counts insertions only. -/
theorem row_nil (seen other : List Char) :
    row [] seen other = List.range' seen.length (other.length + 1) := by
  induction other generalizing seen with
  | nil => simp [row]
  | cons d other ih =>
    -- the next entry is one larger
    rw [row, ih, distance_nil_left]
    exact List.range'_succ.symm

/-- **One entry after the other.** Each entry of the next row comes from the three next to it. -/
theorem extendRow_row (c : Char) (passed seen other : List Char) :
    extendRow c (distance (c :: passed) seen) (row passed seen other) other =
      rowBehind (c :: passed) seen other := by
  induction other generalizing seen with
  | nil => rfl
  | cons d other ih =>
    -- the shortcut for equal characters gives what the plain recursion would
    have hhere : (if c = d then distance passed seen
        else 1 + min (distance passed seen)
          (min (distance passed (d :: seen)) (distance (c :: passed) seen))) =
        distance (c :: passed) (d :: seen) := by
      by_cases h : c = d
      · subst h
        rw [if_pos rfl, distance_cons_self]
      · rw [if_neg h, distance_cons_ne h]
    rw [row, row_eq, extendRow, hhere, ← row_eq, ih, rowBehind, row_eq]

/-- **One row after the other.** -/
theorem nextRow_row (other passed : List Char) (c : Char) :
    nextRow other (row passed [] other) c = row (c :: passed) [] other := by
  -- the first entry of a row counts deletions only
  have hfirst : distance passed [] + 1 = distance (c :: passed) [] := by simp
  rw [row_eq passed, nextRow, ← row_eq, hfirst, extendRow_row, ← row_eq]

/-- **All rows.** A text that has been passed stands turned round in front of the rest. -/
theorem foldl_nextRow (other long passed : List Char) :
    long.foldl (nextRow other) (row passed [] other) = row (long.reverse ++ passed) [] other := by
  induction long generalizing passed with
  | nil => rfl
  | cons c long ih =>
    -- the rows are made for ever longer beginnings, whose last characters come first in `passed`
    rw [List.foldl_cons, nextRow_row, ih, List.reverse_cons, List.append_assoc,
      List.singleton_append]

/-- The last entry of a row has the whole of the other text. -/
theorem getLast?_row (passed seen other : List Char) :
    (row passed seen other).getLast? = some (distance passed (other.reverse ++ seen)) := by
  induction other generalizing seen with
  | nil => rfl
  | cons d other ih =>
    -- a row has at least one more entry behind the first
    rw [row, row_eq, List.getLast?_cons_cons, ← row_eq, ih, List.reverse_cons, List.append_assoc,
      List.singleton_append]

/-- **The rows come to the distance.** -/
theorem rowDistance_eq (long short : List Char) : rowDistance long short = distance long short := by
  have hfirst : List.range (short.length + 1) = row [] [] short := by
    rw [row_nil, List.range_eq_range']
    rfl
  -- the last entry belongs to both texts turned round, which makes no difference
  rw [rowDistance, hfirst, foldl_nextRow, List.append_nil, getLast?_row, List.append_nil,
    Option.getD_some, distance_reverse]

/-- **The edit distance is the distance**: only a row as long as the shorter text is kept. -/
theorem editDistance_eq (a b : List Char) : editDistance a b = distance a b := by
  unfold editDistance
  split
  · -- the texts are swapped if the first one is shorter
    rw [rowDistance_eq, distance_comm]
  · exact rowDistance_eq a b

/-- **The edit distance** of two texts is the least number of insertions, deletions and
substitutions of one character that turn one into the other, and the value of the plain recursion.
It is symmetric, zero for equal texts only, and satisfies the triangle inequality. -/
theorem editDistance_isLeast (a b : List Char) :
    IsLeast {n | Edits n a b} (editDistance a b) ∧ editDistance a b = distance a b ∧
      editDistance a b = editDistance b a ∧ (editDistance a b = 0 ↔ a = b) ∧
      ∀ c, editDistance a c ≤ editDistance a b + editDistance b c := by
  simp only [editDistance_eq]
  exact ⟨isLeast_distance a b, trivial, distance_comm a b, distance_eq_zero, distance_triangle a b⟩

example : editDistance "kitten".toList "sitting".toList = 3 := by decide

end RomAsm.Similarity
