/-!
# Sizes that are too large

A program may ask for more zeros than there can be, and a caller for wider fields and longer lines
than can be made. How such a request fails depends on how far it goes: a number from `indexLimit` on
counts nothing, a run of bytes has a largest length, and an integer a largest number of digits. How
much memory there is for what is allowed is not said here: nothing fails for the lack of it.
-/

namespace RomAsm

/-- How a size is too large. -/
inductive Excess where
  /-- It is larger than any number that counts something. -/
  | count
  /-- It is larger than any run of bytes. -/
  | bytes
  /-- An integer would have too many digits. -/
  | digits
  deriving DecidableEq, Repr

namespace Excess

/-- The wording of an excess. -/
def message : Excess → String
  | count => "cannot fit 'int' into an index-sized integer"
  | bytes => "byte string is too large"
  | digits => "too many digits in integer"

/-- The numbers below this one can count something. -/
def indexLimit : Nat := 1 <<< 63

/-- The bytes that are kept beside the ones of a run of bytes. -/
def runOverhead : Nat := 33

/-- The largest number of digits of an integer, which has thirty bits a digit. -/
def digitCapacity : Nat := (1 <<< 61) - 7

/-- Why a run of so many characters cannot be made. -/
def ofCharacters? (n : Nat) : Option Excess :=
  if indexLimit ≤ n then some .count else none

/-- Why a run of so many bytes cannot be made. -/
def ofBytes? (n : Nat) : Option Excess :=
  if indexLimit ≤ n then some .count
  else if indexLimit ≤ n + runOverhead then some .bytes
  else none

/-- Why two to the power of `n` cannot be made. -/
def ofPower? (n : Nat) : Option Excess :=
  if digitCapacity < 1 + (n + 29) / 30 then some .digits else none

end Excess

end RomAsm
