import RomAsm.Failure

/-!
# Symbols

A program is a stream of symbols: words, numbers, strings and operators, each classified once and
for all when it is read. Every phase of the assembler turns such a stream into another.

Two symbols are `alike` if they differ at most in their location.
-/

namespace RomAsm

/-- What a symbol is. -/
inductive Kind where
  | mnemonic
  | directive
  | integer
  | string
  | identifier
  | operator
  /-- A marker for the accumulator. -/
  | accumulator
  /-- A marker for the stack. -/
  | stack
  /-- The sign in front of an immediate operand. -/
  | immediate
  deriving DecidableEq, Repr

/-- The name of a kind. -/
def Kind.name : Kind → String
  | .mnemonic => "MNEMONIC"
  | .directive => "DIRECTIVE"
  | .integer => "INTEGER"
  | .string => "STRING"
  | .identifier => "IDENTIFIER"
  | .operator => "OPERATOR"
  | .accumulator => "ACCUMULATOR"
  | .stack => "STACK"
  | .immediate => "IMMEDIATE"

/-- All kinds. -/
def Kind.all : List Kind :=
  [.mnemonic, .directive, .integer, .string, .identifier, .operator, .accumulator, .stack,
   .immediate]

/-- A classified piece of a program. An integer that was read carries its value. -/
structure Symbol where
  kind : Kind
  text : String
  value : Value := none
  location : Option Location := none
  deriving DecidableEq, Repr

namespace Symbol

/-- An operator symbol. -/
def ofOperator (text : String) (location : Option Location) : Symbol :=
  ⟨.operator, text, none, location⟩

/-- The integer symbol of a value, unless the value is too long to be written. -/
def ofValue (value : Value) (location : Option Location) : Except Failure Symbol := do
  return ⟨.integer, ← valueText value, value, location⟩

/-- Equality up to the location. -/
def alike (a b : Symbol) : Bool := a.kind == b.kind && a.text == b.text && a.value == b.value

/-- Whether a symbol is an integer. -/
def isInteger (s : Symbol) : Bool := s.kind == .integer

/-- Whether a symbol is an identifier. -/
def isIdentifier (s : Symbol) : Bool := s.kind == .identifier

/-- Whether a symbol is one of the given operators, or any operator if none is given. -/
def isOp (s : Symbol) (texts : List String) : Bool :=
  s.kind == .operator && (texts.isEmpty || texts.contains s.text)

/-- Whether a symbol opens a group. -/
def isOpen (s : Symbol) : Bool := s.isOp ["("]

/-- Whether a symbol closes a group. -/
def isClose (s : Symbol) : Bool := s.isOp [")"]

/-- Whether a symbol combines two numbers. -/
def isArithmetic (s : Symbol) : Bool := s.isOp ["+", "-", "*", "/", "%"]

/-- Whether a symbol begins an instruction or a directive. -/
def startsStatement (s : Symbol) : Bool := s.kind == .mnemonic || s.kind == .directive

/-- The addressing mode that a symbol selects when it follows a mnemonic. -/
def mode? (s : Symbol) : Except Failure (Option Machine.Mode) :=
  match s.kind with
  | .accumulator | .stack =>
    match Machine.markers.lookup s.text with
    | some mode => .ok (some mode)
    | none => .error (.unlistedMarker s.text)
  | .immediate => .ok (some .immediate)
  | _ => .ok none

/-- The symbol in words, for a reader who debugs a stream. -/
def describe (s : Symbol) : Except Failure String := do
  let shown ← if s.isInteger then valueText s.value else pure (Text.quoted s.text)
  return "Symbol(" ++ s.kind.name ++ ", " ++ shown ++ ")"

end Symbol

/-- The texts of a stream, with spaces between them. -/
def spelled (symbols : List Symbol) : String := Text.spaced (symbols.map (·.text))

end RomAsm
