import RomAsm.Text.Printable

/-!
# Quoted text

The form in which a message quotes a text it cannot trust to print well. Single quotes surround it,
or double quotes where the text itself has a single quote and no double one. A backslash and the
surrounding quote are escaped, tab, line feed and carriage return have short escapes, and every
other character that does not print is given by its code point in two, four or eight hexadecimal
digits.
-/

namespace RomAsm.Text

/-- The lower-case hexadecimal digit of value `n`, for `n` below sixteen. -/
def lowerHexDigit (n : Nat) : Char :=
  Char.ofNat (if n < 10 then '0'.toNat + n else 'a'.toNat + (n - 10))

/-- The last `width` hexadecimal digits of `n`, in lower case. -/
def hexDigits : (width : Nat) → (n : Nat) → List Char
  | 0, _ => []
  | width + 1, n => hexDigits width (n / 16) ++ [lowerHexDigit (n % 16)]

/-- The quote that surrounds a text: double where the text has only single ones. -/
def quoteOf (text : List Char) : Char :=
  if '\'' ∈ text ∧ '"' ∉ text then '"' else '\''

/-- One character inside the given quotes. -/
def quoteChar (quote c : Char) : List Char :=
  if c = quote ∨ c = '\\' then ['\\', c]
  else if c = '\t' then ['\\', 't']
  else if c = '\n' then ['\\', 'n']
  else if c = '\r' then ['\\', 'r']
  else if isPrintable c then [c]
  else if c.toNat ≤ 0xff then '\\' :: 'x' :: hexDigits 2 c.toNat
  else if c.toNat ≤ 0xffff then '\\' :: 'u' :: hexDigits 4 c.toNat
  else '\\' :: 'U' :: hexDigits 8 c.toNat

/-- The quoted form of a text. -/
def quoted (text : String) : String :=
  let quote := quoteOf text.toList
  String.ofList (quote :: text.toList.flatMap (quoteChar quote) ++ [quote])

end RomAsm.Text
