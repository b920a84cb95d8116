import RomAsm.StringLiteral
import RomAsm.Symbol

/-!
# Operands

What belongs to a statement is decided by the symbols that follow its first one. All functions here
take the head of a statement and the symbols behind it, and look at no more than they need.

The operand of `.reserve`, `.org` and `.data` must be a literal. A literal with a minus sign reaches
this point as a group `( 0 - literal )`, whose zero was put in for the sign and stands at its
location; that is what tells it from a subtraction in the program.
-/

namespace RomAsm.Operand

/-! ### Presence -/

/-- Whether the symbols behind a statement's head cannot begin an operand: there is none, the next
statement begins, or a name is defined. -/
def absent : List Symbol → Bool
  | [] => true
  | s :: rest =>
    s.startsStatement || (s.isIdentifier && rest.head?.any fun t => t.isOp [":", "="])

/-! ### Instructions -/

/-- The addressing mode of a mnemonic. A marker selects its mode and anything else is an address; an
operation of the arithmetic unit without an operand works on the accumulator. -/
def mode (mnemonic : Symbol) (following : List Symbol) : Except Failure Machine.Mode :=
  if !Machine.takesOperand mnemonic.text then .ok .inherent
  else if absent following then
    if Machine.isAlu mnemonic.text then .ok .accumulator
    else .error (.report (.operandRequired mnemonic.text) mnemonic.location)
  else
    match following with
    | [] => .ok .direct
    | s :: _ => s.mode?.map (·.getD .direct)

/-- The instruction that a mnemonic and what follows it stand for. -/
def instruction (mnemonic : Symbol) (following : List Symbol) :
    Except Failure Machine.Instruction := do
  let mode ← mode mnemonic following
  match Machine.instruction? mnemonic.text mode with
  | some i => return i
  | none =>
    throw (.report
      (.unsupportedMode mnemonic.text mode.name ((Machine.modes mnemonic.text).map (·.name)))
      mnemonic.location)

/-! ### Directives -/

/-- The first symbol of the operand of a directive. -/
def first (directive : Symbol) (following : List Symbol) : Except Failure Symbol :=
  match following.head? with
  | some s => if absent following then missing else .ok s
  | none => missing
where
  /-- The report that there is no operand. -/
  missing : Except Failure Symbol :=
    .error (.report (.directiveOperandRequired directive.text) directive.location)

/-- The symbols up to the one at which the parentheses balance, or all if they never do. -/
def balanced (depth : Int) : List Symbol → List Symbol
  | [] => []
  | s :: rest =>
    let here := if s.isOpen then depth + 1 else if s.isClose then depth - 1 else depth
    if here = 0 then [s] else s :: balanced here rest

/-- The spelling of an operand: a group goes up to its closing parenthesis. -/
def spelling : List Symbol → String
  | [] => ""
  | s :: rest => if s.isOpen then spelled (balanced 0 (s :: rest)) else s.text

/-- The literal that a group stands for which was made from a literal with a minus sign. -/
def negated? : List Symbol → Except Failure (Option Symbol)
  | opening :: zero :: minus :: literal :: closing :: _ =>
    if opening.isOpen && zero.isInteger && zero.value == some 0 && minus.isOp ["-"] &&
        literal.isInteger && closing.isClose && zero.location.isSome &&
        zero.location == minus.location then
      match literal.value with
      | some n => .ok (some ⟨.integer, "-" ++ literal.text, some (-n), minus.location⟩)
      | none => .error (.noValue .negation)
    else .ok none
  | _ => .ok none

/-- The operand of a directive that must be a literal, given the negated literal and the spelling
that are found behind the directive. -/
def literalOr (directive : Symbol) (following : List Symbol)
    (negated : Except Failure (Option Symbol)) (spelling : String) : Except Failure Symbol := do
  let operand ← first directive following
  if operand.isInteger then return operand
  match ← negated with
  | some s => return s
  | none =>
    throw (.report (.notLiteral directive.text spelling) (operand.location.or directive.location))

/-- The operand of a directive that must be a literal. -/
def literal (directive : Symbol) (following : List Symbol) : Except Failure Symbol :=
  literalOr directive following (negated? following) (spelling following)

/-- The text of the operand of `.string`. -/
def string (directive : Symbol) (following : List Symbol) : Except Failure String := do
  let operand ← first directive following
  if operand.kind = .string then return StringLiteral.decode operand.text
  throw (.report (.notString directive.text operand.text) (operand.location.or directive.location))

/-- The number of an operand that must not be negative; `problem` is reported if it is. -/
def nonNegative (problem : String → Problem) (operand : Symbol) : Except Failure Nat :=
  match operand.value with
  | none => .error (.noValue .sign)
  | some n =>
    if n < 0 then .error (.report (problem operand.text) operand.location) else .ok n.toNat

/-- The literal of `.data`. -/
def data (directive : Symbol) (following : List Symbol) : Except Failure Symbol := do
  let operand ← literal directive following
  let _ ← nonNegative .negativeData operand
  return operand

/-- The number of bytes of `.reserve`. -/
def reserve (directive : Symbol) (following : List Symbol) : Except Failure Nat := do
  nonNegative .negativeReserve (← literal directive following)

/-- The address of `.org`. -/
def origin (directive : Symbol) (following : List Symbol) : Except Failure Nat := do
  nonNegative .negativeOrigin (← literal directive following)

end RomAsm.Operand
