import RomAsm.Numeral.Basic

/-!
# Integer literals

An integer literal of a program is a run of decimal digits, `0x` with hexadecimal digits or `0b`
with binary digits, and may carry a minus sign. `Literal.ofChars?` recognises the spelling and
`integer?` gives its value, which fails only on a decimal literal with too many digits.
-/

namespace RomAsm.Numeral

/-- The base a literal is written in. -/
inductive Radix where
  | binary
  | decimal
  | hexadecimal
  deriving DecidableEq, Repr

/-- The base as a number. -/
def Radix.base : Radix → Nat
  | .binary => 2
  | .decimal => 10
  | .hexadecimal => 16

/-- An unsigned literal: its base and the values of its digits, most significant first. -/
structure Literal where
  radix : Radix
  digits : List Nat
  deriving DecidableEq, Repr

/-- The values of a run of digits of the base; it must not be empty. -/
def digitRun? (base : Nat) (text : List Char) : Option (List Nat) :=
  if text.isEmpty then none else text.mapM (digitOf? base)

/-- The unsigned literal that a text spells. -/
def Literal.ofChars? : List Char → Option Literal
  | '0' :: 'x' :: rest | '0' :: 'X' :: rest => (digitRun? 16 rest).map (⟨.hexadecimal, ·⟩)
  | '0' :: 'b' :: rest | '0' :: 'B' :: rest => (digitRun? 2 rest).map (⟨.binary, ·⟩)
  | text => (digitRun? 10 text).map (⟨.decimal, ·⟩)

/-- The value of a literal. -/
def Literal.value (l : Literal) : Nat := Numeral.value l.radix.base l.digits

/-- The value of a literal, unless it is decimal and has too many digits. -/
def Literal.read (l : Literal) : Except Fault Nat :=
  if l.radix = .decimal ∧ digitLimit < l.digits.length then
    .error (.tooManyDigits l.digits.length)
  else .ok l.value

/-- The value of an optionally negated literal; `none` for a text that spells no literal. -/
def integer? : List Char → Except Fault (Option Int)
  | '-' :: text =>
    match Literal.ofChars? text with
    | some l => l.read.map fun n => some (-(n : Int))
    | none => .ok none
  | text =>
    match Literal.ofChars? text with
    | some l => l.read.map fun n => some (n : Int)
    | none => .ok none

end RomAsm.Numeral
