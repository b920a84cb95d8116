import RomAsm.Text.Quoted

/-!
# Numerals

Digits, their values, and the two limits on decimal numerals: neither a numeral that is read nor one
that is written may have more than `digitLimit` digits. Every way in which a numeral can go wrong is
a `Fault`.
-/

namespace RomAsm.Numeral

/-- The ways in which reading or writing a numeral fails. -/
inductive Fault where
  /-- A decimal numeral with more digits than may be read. -/
  | tooManyDigits (count : Nat)
  /-- An integer with more decimal digits than may be written. -/
  | tooLarge
  /-- A text that is no numeral of the base. -/
  | notInteger (base : Nat) (text : String)
  /-- A text of hexadecimal digits that do not pair up into bytes. -/
  | oddHexDigits (text : String)
  /-- A text that should hold nothing but decimal digits. -/
  | notDecimal (text : String)
  /-- A pair of characters whose value is no byte. -/
  | outsideByte
  deriving DecidableEq, Repr

/-- The largest number of digits of a decimal numeral. -/
def digitLimit : Nat := 4300

/-- The wording of a fault. -/
def Fault.message : Fault → String
  | .tooManyDigits count =>
    "Exceeds the limit (4300 digits) for integer string conversion: value has " ++ toString count ++
      " digits; use sys.set_int_max_str_digits() to increase the limit"
  | .tooLarge =>
    "Exceeds the limit (4300 digits) for integer string conversion; use " ++
      "sys.set_int_max_str_digits() to increase the limit"
  | .notInteger base text =>
    "invalid literal for int() with base " ++ toString base ++ ": " ++ Text.quoted text
  | .oddHexDigits text => "odd number of hex digits: " ++ Text.quoted text
  | .notDecimal text => "not a decimal digit string: " ++ Text.quoted text
  | .outsideByte => "bytes must be in range(0, 256)"

/-! ### Values of digits -/

/-- The value of the digits that follow a number, most significant first. -/
def valueAfter (base start : Nat) (digits : List Nat) : Nat :=
  digits.foldl (fun value digit => value * base + digit) start

/-- The value of a list of digits, most significant first. -/
def value (base : Nat) (digits : List Nat) : Nat := valueAfter base 0 digits

/-- The value of an ASCII digit or letter as a digit: `0` to `9`, then `a` or `A` for ten and on. -/
def digitValue? (c : Char) : Option Nat :=
  if '0' ≤ c ∧ c ≤ '9' then some (c.toNat - '0'.toNat)
  else if 'a' ≤ c ∧ c ≤ 'z' then some (c.toNat - 'a'.toNat + 10)
  else if 'A' ≤ c ∧ c ≤ 'Z' then some (c.toNat - 'A'.toNat + 10)
  else none

/-- The value of a character as a digit of the base. -/
def digitOf? (base : Nat) (c : Char) : Option Nat :=
  (digitValue? c).filter (· < base)

/-! ### Writing -/

/-- The decimal numeral of an integer, of any length. -/
def decimal (n : Int) : String :=
  let digits := String.ofList (Nat.toDigits 10 n.natAbs)
  if n < 0 then "-" ++ digits else digits

/-- Whether an integer can be written in decimal. -/
def isWritable (n : Int) : Bool := decide ((Nat.toDigits 10 n.natAbs).length ≤ digitLimit)

/-- The decimal numeral of an integer, unless it has too many digits. -/
def written (n : Int) : Except Fault String :=
  if isWritable n then .ok (decimal n) else .error .tooLarge

/-- The upper-case hexadecimal digit of value `n`, for `n` below sixteen. -/
def hexDigit (n : Nat) : Char :=
  Char.ofNat (if n < 10 then '0'.toNat + n else 'A'.toNat + (n - 10))

/-- The last `width` hexadecimal digits of `n`, in upper case. -/
def hexDigits : (width : Nat) → (n : Nat) → List Char
  | 0, _ => []
  | width + 1, n => hexDigits width (n / 16) ++ [hexDigit (n % 16)]

/-- The hexadecimal numeral of `n` in upper case, with at least `width` digits. -/
def hexadecimal (width n : Nat) : String :=
  String.ofList (hexDigits (max width (Nat.toDigits 16 n).length) n)

end RomAsm.Numeral
