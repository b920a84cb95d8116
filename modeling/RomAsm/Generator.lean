import RomAsm.Field
import RomAsm.Symbol
import RomAsm.Table

/-!
# The state of a generator

A generator goes through a program and keeps four things on its way: the code so far, a counter for
the address of the next byte, the names of the program, and the lines of the listing. It is used for
one program after the other, so whatever it keeps must be cleared in between (`reset`).

The counter is a number of its own and is not read off the code. `emit` is the only place where the
two move.

What is kept can be looked at in several ways: as code, as a dump of it, as a listing, and as a
table of the names.
-/

namespace RomAsm

/-- The two hexadecimal digits of a byte. -/
def byteText (b : UInt8) : String := Numeral.hexadecimal 2 b.toNat

/-- An instruction by its opcode and its size. -/
def Machine.Instruction.describe (i : Machine.Instruction) : String :=
  "InstructionInfo(opcode=0x" ++ byteText i.opcode ++ ", size=" ++ Numeral.decimal i.size ++ ")"

/-! ### Lines of a listing -/

namespace Listing

/-- The number of bytes that a line of the listing shows. -/
def shownBytes : Nat := 3

/-- Bytes as a line of the listing shows them: the first ones, and a sign if there are more. -/
def codeText (bytes : List UInt8) : String :=
  Text.spaced ((bytes.take shownBytes).map byteText) ++
    if shownBytes < bytes.length then " .." else ""

/-- The line of the source in which a statement begins; zero if it is not known. -/
def sourceLine (statement : List Symbol) : Int :=
  ((statement.head?.bind (·.location)).map (·.line)).getD 0

/-- The line of the listing for a statement at an address, with its bytes. -/
def line (address : Nat) (bytes : List UInt8) (statement : List Symbol) : String :=
  Numeral.hexadecimal 4 address ++ "  " ++ Text.padRight 12 (codeText bytes) ++ "  " ++
    Text.padLeft ' ' 4 (Numeral.decimal (sourceLine statement)) ++ "  " ++ spelled statement

/-- A rule across the listing. -/
def rule (c : Char) (width : Nat) : String := String.ofList (List.replicate width c)

end Listing

/-! ### The state -/

/-- What a generator keeps. -/
structure Generator where
  code : List UInt8
  address : Nat
  tags : Table Value
  lines : List String
  deriving DecidableEq, Repr

namespace Generator

/-- A generator that has not been used. -/
def unused : Generator := ⟨[], 0, [], []⟩

/-- Forgets the last program. -/
def reset (g : Generator) : Generator :=
  { g with code := [], address := 0, tags := [], lines := [] }

/-- Lays down bytes behind the code, and moves the counter by their number. -/
def emit (g : Generator) (bytes : List UInt8) : Generator :=
  { g with code := g.code ++ bytes, address := g.address + bytes.length }

/-- Adds the line for a statement that began at the given address, when the code had the given
length. -/
def addLine (g : Generator) (address length : Nat) (statement : List Symbol) : Generator :=
  { g with lines := g.lines ++ [Listing.line address (g.code.drop length) statement] }

/-! ### What can be looked at -/

/-- The value of a name as the tables show it: in sixteen bits. -/
def tagText : Value → Except Failure String
  | some n => .ok ("0x" ++ Numeral.hexadecimal 4 (Field.truncate n Field.addressBits))
  | none => .error (.noValue .width)

/-- A line for each name, in the order of the names. -/
def tagLines (g : Generator) (line : String → String → String) : Except Failure (List String) :=
  g.tags.sorted.mapM fun (name, value) => do return line name (← tagText value)

/-- The listing: the statements with their addresses and bytes, and the names with their values. -/
def listing (g : Generator) : Except Failure String := do
  let tagLines ← g.tagLines fun name value => Text.padRight 20 name ++ " = " ++ value
  return Text.join "\n"
    (["Chameleon Assembler Listing", Listing.rule '=' 60, "", "Addr  Code          Line  Source",
        Listing.rule '-' 60] ++ g.lines ++ ["", "Symbol Table", Listing.rule '-' 30] ++ tagLines)

/-- The code as pairs of hexadecimal digits, behind a line with its length. -/
def hexDump (g : Generator) : String :=
  "HEX DUMP: " ++ Numeral.decimal g.code.length ++ " bytes\n" ++ Text.spaced (g.code.map byteText)

/-- The names and their values, one a line. -/
def symbolFile (g : Generator) : Except Failure String := do
  let tagLines ← g.tagLines fun name value => name ++ " " ++ value ++ "\n"
  return "# Symbol table\n# Generated by chasm\n" ++ Text.join "" tagLines

end Generator

end RomAsm
