import RomAsm.Numeral.Reading
import RomAsm.Text.Case

/-!
# Data literals

A data literal is laid down at the width at which it is written: a hexadecimal literal keeps all its
digits, a binary one is cut into groups of four bits from the right, and a decimal one takes the
hexadecimal digits of its value. The digits then pair up into bytes.

A decimal literal may be longer than any machine word, so its digits are divided by sixteen by hand,
one remainder a round. `valueAfter_divide` states that such a division loses nothing, and
`value_divide_lt` that it ends.
-/

namespace RomAsm.DataLiteral

open Numeral (Fault valueAfter value)

/-! ### Long division -/

/-- Divides a decimal numeral by sixteen from the left, given the remainder brought along: the
digits of the quotient and the last remainder. -/
def divide (carried : Nat) : List Nat → List Nat × Nat
  | [] => ([], carried)
  | digit :: rest =>
    let current := carried * 10 + digit
    let (quotient, remainder) := divide (current % 16) rest
    (current / 16 :: quotient, remainder)

/-- **Division loses nothing.** Sixteen times the quotient and the remainder give back the number,
whatever digits `start` stand before it. -/
theorem valueAfter_divide (carried start : Nat) (digits : List Nat) :
    16 * valueAfter 10 start (divide carried digits).1 + (divide carried digits).2 =
      valueAfter 10 (16 * start + carried) digits := by
  induction digits generalizing carried start with
  | nil => simp [divide, valueAfter]
  | cons digit rest ih =>
    have h := ih ((carried * 10 + digit) % 16) (start * 10 + (carried * 10 + digit) / 16)
    -- the remainder that is carried on, and the digit of the quotient, are what the digit gave
    have e : 16 * (start * 10 + (carried * 10 + digit) / 16) + (carried * 10 + digit) % 16 =
        (16 * start + carried) * 10 + digit := by omega
    rw [e] at h
    simpa [divide, valueAfter] using h

/-- More digits do not make a number smaller. -/
theorem le_valueAfter (start : Nat) (digits : List Nat) : start ≤ valueAfter 10 start digits := by
  induction digits generalizing start with
  | nil => simp [valueAfter]
  | cons digit rest ih =>
    have h := ih (start * 10 + digit)
    simp only [valueAfter, List.foldl_cons] at h ⊢
    omega

/-- Zeros in front of a numeral do not change its value. -/
theorem value_dropWhile_zero (digits : List Nat) :
    value 10 (digits.dropWhile (· == 0)) = value 10 digits := by
  induction digits with
  | nil => rfl
  | cons digit rest ih =>
    by_cases h : digit = 0
    · simpa [h, value, valueAfter] using ih
    · simp [h]

/-- A quotient is smaller than the number, once the zeros in front of it are gone. -/
theorem value_divide_lt {digits rest : List Nat} {digit : Nat}
    (h : digits.dropWhile (· == 0) = digit :: rest) :
    value 10 (divide 0 (digit :: rest)).1 < value 10 digits := by
  -- the first digit that is left is not zero, so neither is the number
  have hpos : 0 < digit := by
    have := List.head?_dropWhile_not (· == 0) digits
    rw [h] at this
    simp at this
    omega
  have hval : value 10 (digit :: rest) = value 10 digits := by
    rw [← h, value_dropWhile_zero]
  have hle : digit ≤ value 10 (digit :: rest) := by
    simpa [value, valueAfter] using le_valueAfter digit rest
  have hdiv := valueAfter_divide 0 0 (digit :: rest)
  simp only [value, Nat.mul_zero, Nat.add_zero] at *
  omega

/-- The hexadecimal digits of a decimal numeral, least significant first; none for zero. -/
def sixteenths (digits : List Nat) : List Nat :=
  match _nonzero : digits.dropWhile (· == 0) with
  | [] => []
  | digit :: rest =>
    (divide 0 (digit :: rest)).2 :: sixteenths (divide 0 (digit :: rest)).1
termination_by value 10 digits
decreasing_by exact value_divide_lt _nonzero

/-! ### Hexadecimal digits of a literal -/

/-- The value of one digit of a decimal literal; a digit in a special position has none. -/
def decimalDigit (c : Char) : Except Fault Nat :=
  match Text.decimalValue? c with
  | some d => .ok d
  | none => .error (.notInteger 10 (String.singleton c))

/-- The hexadecimal digits of a decimal literal. -/
def ofDecimal (text : List Char) : Except Fault (List Char) :=
  if text.isEmpty || !text.all Text.isDigit then .error (.notDecimal (String.ofList text))
  else do
    match sixteenths (← text.mapM decimalDigit) with
    | [] => return ['0']
    | digits => return digits.reverse.map Numeral.hexDigit

/-- The list in groups of four. -/
def groups : List Char → List (List Char)
  | a :: b :: c :: d :: rest => [a, b, c, d] :: groups rest
  | _ => []

/-- The digit of a group of four bits; a negative value counts back from sixteen. -/
def groupDigit (group : List Char) : Except Fault Char := do
  let n ← Numeral.read 2 (String.ofList group)
  return Numeral.hexDigit (n % 16).toNat

/-- The hexadecimal digits of a binary literal, which is filled up with zeros on the left. -/
def ofBinary (bits : List Char) : Except Fault (List Char) :=
  (groups (List.replicate ((4 - bits.length % 4) % 4) '0' ++ bits)).mapM groupDigit

/-- The hexadecimal digits of a data literal. -/
def digits : List Char → Except Fault (List Char)
  | '0' :: 'x' :: rest | '0' :: 'X' :: rest => .ok (Text.upper rest)
  | '0' :: 'b' :: rest | '0' :: 'B' :: rest => ofBinary rest
  | text => ofDecimal text

/-! ### Bytes -/

/-- The byte that two characters spell. -/
def byteOf (high low : Char) : Except Fault UInt8 := do
  let n ← Numeral.read 16 (String.ofList [high, low])
  if n < 0 then throw .outsideByte
  return UInt8.ofNat n.toNat

/-- The bytes that pairs of characters spell. -/
def pairs : List Char → Except Fault (List UInt8)
  | high :: low :: rest => do return (← byteOf high low) :: (← pairs rest)
  | _ => .ok []

/-- The bytes that a text of hexadecimal digits spells, first pair first. -/
def bytesOfHex (text : List Char) : Except Fault (List UInt8) :=
  if text.length % 2 = 1 then .error (.oddHexDigits (String.ofList text)) else pairs text

/-- The bytes of a data literal; an odd number of digits gets a zero in front. -/
def encode (text : String) : Except Fault (List UInt8) := do
  let ds ← digits text.toList
  bytesOfHex (if ds.length % 2 = 1 then '0' :: ds else ds)

/-- The number of bytes of a data literal. -/
def size (text : String) : Except Fault Nat := do
  let ds ← digits text.toList
  return (ds.length + 1) / 2

end RomAsm.DataLiteral
