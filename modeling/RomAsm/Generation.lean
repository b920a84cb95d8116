import RomAsm.Attempt
import RomAsm.Generator
import RomAsm.Layout

/-!
# Generation

A resolved program is encoded statement by statement. A statement lays down bytes and may log that a
value does not fit its field; in strict mode a value that does not fit ends the run. Both bytes and
records are events of one trace, so their order is kept.

A generator carries the events out on its state (`Generator.step`), one statement after the other
(`Generator.encode`). It begins each program with a state that it has cleared, whatever was in it
(`Generator.generate`). A diagnostic clears the state again; any other failure leaves it as far as
it had come.
-/

namespace RomAsm

namespace Generation

/-- What encoding a statement does. -/
inductive Event where
  | bytes (bytes : List UInt8)
  | record (record : Record)
  deriving DecidableEq, Repr

/-- The bytes of an event. -/
def Event.laidDown : Event → List UInt8
  | bytes bs => bs
  | record _ => []

/-- The record of an event. -/
def Event.record? : Event → Option Record
  | bytes _ => none
  | record r => some r

/-- A computation that lays down bytes and writes records. -/
abbrev Emission := Trace Event

/-- Lays down bytes. -/
def emit (bytes : List UInt8) : Emission Unit := Trace.write (.bytes bytes)

/-! ### Values that do not fit -/

/-- The beginning of a warning about something at a location. -/
def placeText : Option Location → Except Failure String
  | some l => do return (← l.written.mapError .numeral) ++ ": "
  | none => .ok ""

/-- The warning about a problem with an operand. -/
def warning (problem : Problem) (operand : Symbol) : Except Failure Record := do
  return ⟨.warning, (← placeText operand.location) ++ problem.message ++ "; truncated"⟩

/-- Reports an operand that does not fit: as a failure in strict mode, as a warning otherwise. -/
def report (strict : Bool) (problem : Problem) (operand : Symbol) : Emission Unit :=
  if strict then throw (.report problem operand.location)
  else do
    let record ← warning problem operand
    Trace.write (.record record)

/-- The number of an operand; one that does not fit its field is reported. -/
def inRange (strict : Bool) (operand : Symbol) (bits : Nat) : Emission Int :=
  match operand.value with
  | none => throw (.noValue .range)
  | some n =>
    if Field.fits n bits then return n
    else do
      let _ ← numeral n
      report strict (.valueTooWide n bits) operand
      return n

/-- Lays down so many zeros. -/
def emitZeros (count : Nat) : Emission Unit :=
  match Excess.ofBytes? count with
  | some e => throw (.excess e)
  | none => emit (List.replicate count 0)

/-! ### Statements -/

/-- The operand of a statement that must be a number. -/
def number (owner : Symbol) : Option Symbol → Except Failure Symbol
  | some s =>
    if s.isInteger then .ok s
    else .error (.report (.numberExpected owner.text (some s.text)) s.location)
  | none => .error (.report (.numberExpected owner.text none) owner.location)

/-- Whether the next symbol is a marker of the given mode. -/
def isMarked (mode : Machine.Mode) : List Symbol → Except Failure Bool
  | [] => .ok false
  | s :: _ => s.mode?.map (· == some mode)

/-- Encodes an instruction; the number of symbols behind its mnemonic that belong to it. -/
def instruction (strict : Bool) (mnemonic : Symbol) (following : List Symbol) : Emission Nat := do
  let mode ← Operand.mode mnemonic following
  let i ← Operand.instruction mnemonic following
  emit [i.opcode]
  match mode with
  | .direct =>
    let operand ← number mnemonic following.head?
    let n ← inRange strict operand Field.addressBits
    emit (Field.address n)
    return 1
  | .immediate =>
    let operand ← number mnemonic following[1]?
    let n ← inRange strict operand Field.immediateBits
    emit (Field.immediate n)
    return 2
  | .accumulator | .stack => return if ← isMarked mode following then 1 else 0
  | .inherent => return 0

/-- Encodes the characters of a string, one byte each. -/
def characters (strict : Bool) (operand : Symbol) : List Char → Emission Unit
  | [] => return ()
  | c :: rest => do
    if !Field.fits c.toNat Field.immediateBits then report strict (.characterTooWide c) operand
    emit (Field.immediate c.toNat)
    characters strict operand rest

/-- Encodes a directive at the given address. -/
def directive (strict : Bool) (address : Nat) (directive : Symbol) (following : List Symbol) :
    Emission Unit :=
  match directive.text with
  | ".reserve" => do
    let count ← Operand.reserve directive following
    emitZeros count
  | ".org" => do
    let target ← Operand.origin directive following
    if target < address then throw (.report (.originBehind target address) directive.location)
    emitZeros (target - address)
  | ".byte" => do
    let operand ← number directive following.head?
    let n ← inRange strict operand Field.immediateBits
    emit (Field.immediate n)
  | ".string" => do
    let text ← Operand.string directive following
    let operand ← Operand.first directive following
    characters strict operand text.toList
    emit [0]
  | ".data" => do
    let operand ← Operand.data directive following
    let bytes ← (DataLiteral.encode operand.text).mapError Failure.numeral
    emit bytes
  | name => throw (.report (.unencodableDirective name) directive.location)

/-- Encodes what a symbol begins; the number of symbols behind it that belong to it. -/
def encode (strict : Bool) (address : Nat) (s : Symbol) (following : List Symbol) : Emission Nat :=
  match s.kind with
  | .mnemonic => instruction strict s following
  | .directive => do
    directive strict address s following
    return 1
  | _ => throw (.report (.unexpected s.text) s.location)

/-- Encodes the statement that a symbol begins; the number of symbols behind it that belong to it.
The listing must be able to show the line in which the statement begins. -/
def statement (strict : Bool) (address : Nat) (s : Symbol) (following : List Symbol) :
    Emission Nat := do
  let taken ← encode strict address s following
  let _ ← numeral ((s.location.map (·.line)).getD 0)
  return taken

/-! ### Programs -/

/-- What an event does to the state of a generator. A record leaves it alone. -/
def Event.perform (g : Generator) : Event → Generator
  | bytes bs => g.emit bs
  | record _ => g

end Generation

namespace Generator

open Generation

/-- Encodes the statement that a symbol begins, at the address of the counter, and adds its line to
the listing; the number of symbols behind the first that belong to it. What was laid down before a
failure stays. -/
def step (g : Generator) (strict : Bool) (s : Symbol) (following : List Symbol) :
    Attempt Generator Nat :=
  let t := statement strict g.address s following
  let after := t.entries.foldl Event.perform g
  let records := t.entries.filterMap Event.record?
  match t.outcome with
  | .error failure => ⟨after, records, .error failure⟩
  | .ok taken =>
    ⟨after.addLine g.address g.code.length (s :: following.take taken), records, .ok taken⟩

/-- Encodes a stream, statement by statement. -/
def encode (g : Generator) (strict : Bool) : List Symbol → Attempt Generator Unit
  | [] => ⟨g, [], .ok ()⟩
  | s :: following =>
    let first := g.step strict s following
    match first.outcome with
    | .error failure => ⟨first.state, first.records, .error failure⟩
    | .ok taken =>
      let later := first.state.encode strict (following.drop taken)
      ⟨later.state, first.records ++ later.records, later.outcome⟩
termination_by symbols => symbols.length
decreasing_by
  simp only [List.length_drop, List.length_cons]
  omega

/-- The state in which a generator begins a program: nothing is left of the one before. -/
def start (g : Generator) (p : Program) : Generator := { g.reset with tags := p.tags }

/-- Encodes a program. A diagnostic clears the state; any other failure leaves it as it is then. -/
def generate (g : Generator) (strict : Bool) (p : Program) : Attempt Generator (List UInt8) :=
  let t := (g.start p).encode strict p.symbols
  match t.outcome with
  | .ok () =>
    let done : Record :=
      ⟨.debug, "Generated " ++ Numeral.decimal t.state.code.length ++ " bytes"⟩
    ⟨t.state, t.records ++ [done], .ok t.state.code⟩
  | .error failure =>
    ⟨if failure.isDiagnostic then t.state.reset else t.state, t.records, .error failure⟩

end Generator

end RomAsm
