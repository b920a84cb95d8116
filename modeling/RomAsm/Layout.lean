import RomAsm.DataLiteral
import RomAsm.Log
import RomAsm.Operand
import RomAsm.Table

/-!
# Layout

One pass over the stream gives every label its address. The address counter begins at zero and moves
on by the size of each statement; `.org` sets it. Labels leave the stream, everything else stays.

A `Program` is a stream together with the names that have a value and the places where they were
defined. It is what one phase of the assembler hands to the next.
-/

namespace RomAsm

/-- A stream of symbols, the values of names, and where the names were defined, as far as that is
known. -/
structure Program where
  symbols : List Symbol
  tags : Table Value
  definitions : Table (Option Location)
  deriving DecidableEq, Repr

namespace Program

/-- Fails if a name is defined already. -/
def checkNew (tags : Table Value) (definitions : Table (Option Location)) (name : Symbol) :
    Except Failure Unit :=
  if tags.has name.text then
    .error (.report (.duplicateName name.text (definitions.get? name.text).join) name.location)
  else .ok ()

/-- The definitions with one more, if its place is known. -/
def recordPlace (definitions : Table (Option Location)) (name : Symbol) : Table (Option Location) :=
  match name.location with
  | some l => definitions.put name.text (some l)
  | none => definitions

end Program

namespace Layout

/-- The address behind a directive. -/
def addressAfter (address : Nat) (directive : Symbol) (following : List Symbol) :
    Except Failure Nat :=
  match directive.text with
  | ".reserve" => return address + (← Operand.reserve directive following)
  | ".org" => Operand.origin directive following
  | ".byte" => do
    let _ ← Operand.first directive following
    return address + 1
  | ".string" => return address + (← Operand.string directive following).length + 1
  | ".data" => do
    let operand ← Operand.data directive following
    return address + (← (DataLiteral.size operand.text).mapError .numeral)
  | name => throw (.report (.unknownDirective name) directive.location)

/-- The address behind the symbol at which a stream begins. -/
def step (address : Nat) (s : Symbol) (following : List Symbol) : Except Failure Nat :=
  match s.kind with
  | .mnemonic => return address + (← Operand.instruction s following).size
  | .directive => addressAfter address s following
  | _ => return address

/-- Whether a symbol and the one behind it define a label. -/
def isLabel (s : Symbol) (following : List Symbol) : Bool :=
  s.isIdentifier && following.head?.any fun t => t.isOp [":"]

/-- Ends the layout at the given address. -/
def finish (address : Nat) (tags : Table Value) (definitions : Table (Option Location)) :
    Logged Program := do
  let final ← numeral address
  Logged.debug
    ("Assigned " ++ Numeral.decimal tags.length ++ " label addresses, final address " ++ final)
  return ⟨[], tags, definitions⟩

/-- Lays out the rest of a stream, from the given address on. -/
def placeFrom (address : Nat) (tags : Table Value) (definitions : Table (Option Location)) :
    List Symbol → Logged Program
  | [] => finish address tags definitions
  | s :: following =>
    if isLabel s following then
      match following with
      | [] => finish address tags definitions
      | _ :: rest => do
        Program.checkNew tags definitions s
        let here ← numeral address
        Logged.debug ("Label '" ++ s.text ++ "' at address " ++ here)
        placeFrom address (tags.put s.text (some address)) (Program.recordPlace definitions s) rest
    else if s.isOp [":"] then throw (.report .strayColon s.location)
    else do
      let next ← step address s following
      let program ← placeFrom next tags definitions following
      return { program with symbols := s :: program.symbols }

/-- The stream without its labels, and the address of each label. -/
def place (symbols : List Symbol) : Logged Program := placeFrom 0 [] [] symbols

end Layout

end RomAsm
