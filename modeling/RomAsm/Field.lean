import RomAsm.DataLiteral
import RomAsm.Failure

/-!
# Operand fields

An operand is encoded in a field of one byte (an immediate value) or of two bytes (an address, low
byte first). A value is reduced to the width of its field; it *fits* the field if it is a signed or
an unsigned number of that width. The bytes of a field are had from its hexadecimal digits.
-/

namespace RomAsm.Field

/-- The bits of an immediate field. -/
def immediateBits : Nat := 8

/-- The bits of an address field. -/
def addressBits : Nat := 16

/-- Whether a value is a signed or an unsigned number of the given width. -/
def fits (value : Int) (bits : Nat) : Bool :=
  decide (-((1 <<< (bits - 1) : Nat) : Int) ≤ value) && decide (value < (1 <<< bits : Nat))

/-- Whether a value is a signed or an unsigned number of a width that may be anything: a field has
at least one bit, and not more than an integer can have. -/
def fitsWidth (value bits : Int) : Except Failure Bool :=
  if bits < 1 then .error .negativeShift
  else match Excess.ofPower? (bits - 1).toNat with
    | some e => .error (.excess e)
    | none =>
      if value < -((1 <<< (bits - 1).toNat : Nat) : Int) then .ok false
      else match Excess.ofPower? bits.toNat with
        | some e => .error (.excess e)
        | none => .ok (fits value bits.toNat)

/-- The value reduced to a field of the given width. -/
def truncate (value : Int) (bits : Nat) : Nat := (value % (1 <<< bits : Nat)).toNat

/-- The two hexadecimal digits of an immediate field. -/
def immediateText (value : Int) : String :=
  String.ofList (Numeral.hexDigits 2 (truncate value immediateBits))

/-- The four hexadecimal digits of an address field, in the order in which its bytes are stored. -/
def addressText (value : Int) : String :=
  let n := truncate value addressBits
  String.ofList (Numeral.hexDigits 2 (n % 256) ++ Numeral.hexDigits 2 (n / 256))

/-- The bytes that the digits of a field spell. The digits of a field always spell some
(`bytesOfHex_immediateText`, `bytesOfHex_addressText`). -/
def bytesOfDigits (digits : String) : List UInt8 :=
  match DataLiteral.bytesOfHex digits.toList with
  | .ok bytes => bytes
  | .error _ => []

/-- The byte of an immediate field. -/
def immediate (value : Int) : List UInt8 := bytesOfDigits (immediateText value)

/-- The bytes of an address field, low byte first. -/
def address (value : Int) : List UInt8 := bytesOfDigits (addressText value)

end RomAsm.Field
