/-!
# Resemblance of words

How much two words have in common: the longest run of characters that both contain, and then, in the
same way, what the parts on its left and on its right have in common. Two words are close if three
fifths of their characters or more are common to both.
-/

namespace RomAsm.Text

/-- The length of the longest common beginning of two words. -/
def commonLength : List Char → List Char → Nat
  | a :: as, b :: bs => if a = b then commonLength as bs + 1 else 0
  | _, _ => 0

/-- A run of characters that two words share: where it begins in each, and its length. -/
structure SharedRun where
  left : Nat
  right : Nat
  length : Nat

/-- All pairs of places in two words, with the length of the run that both share from there. -/
def sharedRuns (a b : List Char) : List SharedRun :=
  (List.range a.length).flatMap fun i =>
    (List.range b.length).map fun j => ⟨i, j, commonLength (a.drop i) (b.drop j)⟩

/-- The longest run that two words share, the leftmost one if there are several. -/
def longestShared (a b : List Char) : SharedRun :=
  (sharedRuns a b).foldl (fun best run => if best.length < run.length then run else best) ⟨0, 0, 0⟩

/-- The number of characters that two words have in common. -/
def commonCount (a b : List Char) : Nat :=
  match longestShared a b with
  | ⟨i, j, n⟩ =>
    if _found : 0 < n ∧ i + n ≤ a.length then
      commonCount (a.take i) (b.take j) + n + commonCount (a.drop (i + n)) (b.drop (j + n))
    else 0
termination_by a.length
decreasing_by
  · simp only [List.length_take]
    omega
  · simp only [List.length_drop]
    omega

/-- The candidates that are close to a word, the three closest at most. -/
def closeMatches (word : String) (candidates : List String) : List String :=
  let scored := candidates.map fun c =>
    (commonCount c.toList word.toList, c.length + word.length, c)
  let close := scored.filter fun (common, total, _) => decide (3 * total ≤ 10 * common)
  let ranked := close.mergeSort fun (m, t, c) (m', t', c') =>
    decide (m' * t < m * t') || (m' * t == m * t' && decide (c' ≤ c))
  (ranked.take 3).map fun (_, _, c) => c

end RomAsm.Text
