import RomAsm.Numeral.Basic

/-!
# Reading a numeral leniently

The digits of a data literal are read piece by piece under a lenient grammar: white space around the
numeral, one sign, the mark of the base, single underscores between digits, and decimal digits of
any script are all accepted.
-/

namespace RomAsm.Numeral

/-- White space and decimal digits of any script in their plain form; any other character outside
ASCII can be part of no numeral. -/
def plain (c : Char) : Char :=
  if c.toNat < 127 then c
  else if Text.isBlank c then ' '
  else match Text.decimalValue? c with
    | some d => Char.ofNat ('0'.toNat + d)
    | none => '?'

/-- White space around a plain numeral. -/
def isPlainBlank (c : Char) : Bool :=
  c = ' ' || ('\t' ≤ c && c ≤ '\r')

/-- The text without the plain white space around it. -/
def trimmed (text : List Char) : List Char :=
  ((text.dropWhile isPlainBlank).reverse.dropWhile isPlainBlank).reverse

/-- A sign, and what follows it. -/
def splitSign : List Char → Bool × List Char
  | '-' :: rest => (true, rest)
  | '+' :: rest => (false, rest)
  | text => (false, text)

/-- One underscore may follow the mark of a base. -/
def afterMark : List Char → List Char
  | '_' :: rest => rest
  | text => text

/-- The text without the mark of its base. -/
def dropMark (base : Nat) : List Char → List Char
  | '0' :: mark :: rest =>
    if base = 16 ∧ (mark = 'x' ∨ mark = 'X') ∨ base = 2 ∧ (mark = 'b' ∨ mark = 'B') then
      afterMark rest
    else '0' :: mark :: rest
  | text => text

/-- The values of digits that may have single underscores between them. -/
def groupedDigits? (base : Nat) : List Char → Option (List Nat)
  | [] => none
  | [c] => (digitOf? base c).map ([·])
  | c :: '_' :: rest => do return (← digitOf? base c) :: (← groupedDigits? base rest)
  | c :: rest => do return (← digitOf? base c) :: (← groupedDigits? base rest)

/-- The integer that a text spells in the base. -/
def read (base : Nat) (text : String) : Except Fault Int :=
  let (negative, rest) := splitSign (trimmed (text.toList.map plain))
  match groupedDigits? base (dropMark base rest) with
  | some digits =>
    let n : Int := value base digits
    .ok (if negative then -n else n)
  | none => .error (.notInteger base text)

end RomAsm.Numeral
