import RomAsm.Text.Quoted

/-!
# Reading bytes as UTF-8

A file is read strictly: the first sequence of bytes that encodes no character ends the reading, and
the fault says which bytes they are and what is wrong with them. `decode` gives the characters or
that first fault; `encode` writes characters back.
-/

namespace RomAsm.Text.Utf8

/-- What is wrong with a sequence of bytes. -/
inductive Reason where
  /-- No character begins with this byte. -/
  | invalidStart
  /-- A byte that should continue a character does not. -/
  | invalidContinuation
  /-- The bytes end inside a character. -/
  | unexpectedEnd
  deriving DecidableEq, Repr

/-- The first faulty sequence of bytes: where it begins, how many bytes it has, its first byte. -/
structure Fault where
  start : Nat
  length : Nat
  first : UInt8
  reason : Reason
  deriving DecidableEq, Repr

/-- The wording of a reason. -/
def Reason.message : Reason → String
  | .invalidStart => "invalid start byte"
  | .invalidContinuation => "invalid continuation byte"
  | .unexpectedEnd => "unexpected end of data"

/-- The wording of a fault: a single byte is shown, a longer sequence is given by its offsets. -/
def Fault.message (f : Fault) : String :=
  "'utf-8' codec can't decode " ++
    (if f.length = 1 then
      "byte 0x" ++ String.ofList (hexDigits 2 f.first.toNat) ++ " in position " ++ toString f.start
    else
      "bytes in position " ++ toString f.start ++ "-" ++ toString (f.start + f.length - 1)) ++
    ": " ++ f.reason.message

/-- What a first byte promises: how many bytes follow it, the bounds of the first of them, and the
bits it contributes. -/
def lead? (b : UInt8) : Option (Nat × UInt8 × UInt8 × Nat) :=
  if b < 0x80 then some (0, 0x80, 0xbf, b.toNat)
  else if b < 0xc2 then none
  else if b < 0xe0 then some (1, 0x80, 0xbf, b.toNat - 0xc0)
  else if b = 0xe0 then some (2, 0xa0, 0xbf, 0)
  else if b = 0xed then some (2, 0x80, 0x9f, 0xd)
  else if b < 0xf0 then some (2, 0x80, 0xbf, b.toNat - 0xe0)
  else if b = 0xf0 then some (3, 0x90, 0xbf, 0)
  else if b < 0xf4 then some (3, 0x80, 0xbf, b.toNat - 0xf0)
  else if b = 0xf4 then some (3, 0x80, 0x8f, 4)
  else none

/-- Where a decoder stands: between characters, or inside one with its first byte, the number of
bytes already taken and still owed, the bounds of the next byte, and the bits so far. -/
inductive State where
  | between
  | inside (first : UInt8) (taken owed : Nat) (low high : UInt8) (bits : Nat)

/-- Decoding from a given state, where `offset` bytes come before the ones still to be read. -/
def decodeFrom (offset : Nat) : State → List UInt8 → Except Fault (List Char)
  | .between, [] => .ok []
  | .inside first taken _ _ _ _, [] => .error ⟨offset - taken, taken, first, .unexpectedEnd⟩
  | .between, b :: rest =>
    match lead? b with
    | none => .error ⟨offset, 1, b, .invalidStart⟩
    | some (0, _, _, bits) => (decodeFrom (offset + 1) .between rest).map (Char.ofNat bits :: ·)
    | some (owed, low, high, bits) => decodeFrom (offset + 1) (.inside b 1 owed low high bits) rest
  | .inside first taken owed low high bits, b :: rest =>
    if low ≤ b ∧ b ≤ high then
      let bits := bits * 64 + (b.toNat - 0x80)
      if owed ≤ 1 then (decodeFrom (offset + 1) .between rest).map (Char.ofNat bits :: ·)
      else decodeFrom (offset + 1) (.inside first (taken + 1) (owed - 1) 0x80 0xbf bits) rest
    else .error ⟨offset - taken, taken, first, .invalidContinuation⟩

/-- The characters that the bytes encode, or the first fault. -/
def decode (bytes : List UInt8) : Except Fault (List Char) := decodeFrom 0 .between bytes

/-- The bytes that encode the characters of a text. -/
def encode (text : String) : List UInt8 := text.toUTF8.toList

end RomAsm.Text.Utf8
