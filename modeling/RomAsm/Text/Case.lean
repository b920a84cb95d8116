import RomAsm.Text.CaseTable

/-!
# Letter case

Full upper and lower case of a text: a character may become several, and a capital sigma at the end
of a word has its own lower case.
-/

namespace RomAsm.Text

/-- The single character that a case table gives for `c`, if it has one. -/
def shifted? (runs : List (Nat × Nat × Nat × Int)) (c : Char) : Option Char :=
  let n := c.toNat
  (runs.find? fun (first, last, step, _) =>
      decide (first ≤ n) && decide (n ≤ last) && (n - first) % step == 0).map
    fun (_, _, _, shift) => Char.ofNat ((n : Int) + shift).toNat

/-- The other case of one character, from its table of runs and its table of spellings. -/
def recased (runs : List (Nat × Nat × Nat × Int)) (spellings : List (Nat × List Nat)) (c : Char) :
    List Char :=
  match spellings.lookup c.toNat with
  | some codes => codes.map Char.ofNat
  | none => [(shifted? runs c).getD c]

/-- The text in upper case. -/
def upper (text : List Char) : List Char := text.flatMap (recased upperRuns upperSpellings)

/-- Whether the nearest character that is not passed over is a letter with case. -/
def meetsCased (text : List Char) : Bool :=
  match text.dropWhile (inRanges caseIgnorableRanges) with
  | [] => false
  | c :: _ => inRanges casedRanges c

/-- Lower case of the rest of a text, where `before` holds what precedes it, nearest first. -/
def lowerAfter (before : List Char) : List Char → List Char
  | [] => []
  | c :: rest =>
    let here :=
      if c = 'Σ' then [if meetsCased before && !meetsCased rest then 'ς' else 'σ']
      else recased lowerRuns lowerSpellings c
    here ++ lowerAfter (c :: before) rest

/-- The text in lower case. -/
def lower (text : List Char) : List Char := lowerAfter [] text

end RomAsm.Text
