import RomAsm.Text.Case

/-!
# Names that look alike

The edit distance of two texts is the least number of insertions, deletions and substitutions of one
character that turn one into the other. It is computed row by row: the row of a beginning of one
text holds its distance to every beginning of the other.

A name that nobody has defined may be a slip for one that somebody has: `similarNames` offers those
that are equal but for case, or nearly as long and at a distance of at most two.
-/

namespace RomAsm.Similarity

/-- Goes on with a row: `row` is what is left of the row above, and `left` the entry just made. -/
def extendRow (c : Char) (left : Nat) : (row : List Nat) → (other : List Char) → List Nat
  | diagonal :: above :: row, d :: other =>
    let here := if c = d then diagonal else 1 + min diagonal (min above left)
    here :: extendRow c here (above :: row) other
  | _, _ => []

/-- The row below a row, for one more character `c`. -/
def nextRow (other : List Char) (row : List Nat) (c : Char) : List Nat :=
  match row with
  | [] => []
  | first :: _ => (first + 1) :: extendRow c (first + 1) row other

/-- The distance that the last row ends with. -/
def rowDistance (long short : List Char) : Nat :=
  ((long.foldl (nextRow short) (List.range (short.length + 1))).getLast?).getD 0

/-- The edit distance of two texts; the rows are made along the shorter one. -/
def editDistance (a b : List Char) : Nat :=
  if a.length < b.length then rowDistance b a else rowDistance a b

/-- Whether two lengths differ by at most one. -/
def nearLength (m n : Nat) : Bool := decide (m ≤ n + 1) && decide (n ≤ m + 1)

/-- Whether a known name may have been meant by another. -/
def resembles (name known : String) : Bool :=
  let lowered := Text.lower name.toList
  let loweredKnown := Text.lower known.toList
  loweredKnown == lowered ||
    nearLength known.length name.length && decide (editDistance lowered loweredKnown ≤ 2)

/-- At most three known names that may have been meant by a name, in alphabetical order. -/
def similarNames (name : String) (known : List String) : List String :=
  ((known.mergeSort fun a b => decide (a ≤ b)).filter (resembles name)).take 3

end RomAsm.Similarity
