/-!
# The instruction set

The processor has one-byte opcodes. The operand of an instruction selects its addressing mode, and
the mode fixes how many bytes follow the opcode: none, one for an immediate value, two for an
address. The high half of an opcode is the group of the instruction, the low half its variant; the
sixteen operations of the arithmetic unit come in four groups, one a mode.

`instructions` is the whole table. `instruction?` looks an instruction up in it, and `modes` lists
the modes of a mnemonic in the order of the table.
-/

namespace RomAsm.Machine

/-- How an instruction finds its operand. -/
inductive Mode where
  /-- There is no operand. -/
  | inherent
  /-- The operand is a two-byte address. -/
  | direct
  /-- The operand is the accumulator. -/
  | accumulator
  /-- The operand is a one-byte value. -/
  | immediate
  /-- The operand is on the stack. -/
  | stack
  deriving DecidableEq, Repr

/-- The name of a mode. -/
def Mode.name : Mode → String
  | .inherent => "inherent"
  | .direct => "direct"
  | .accumulator => "accumulator"
  | .immediate => "immediate"
  | .stack => "stack"

/-- All modes. -/
def Mode.all : List Mode := [.inherent, .direct, .accumulator, .immediate, .stack]

/-- The number of bytes that follow an opcode. -/
def Mode.operandSize : Mode → Nat
  | .immediate => 1
  | .direct => 2
  | .inherent | .accumulator | .stack => 0

/-- An instruction of the machine: its mnemonic in one of its modes, and its opcode. -/
structure Instruction where
  mnemonic : String
  mode : Mode
  opcode : UInt8
  deriving DecidableEq, Repr

/-- The bytes an instruction takes. -/
def Instruction.size (i : Instruction) : Nat := 1 + i.mode.operandSize

/-! ### The table -/

/-- The operations of the arithmetic unit, each with the low half of its opcodes. -/
def aluOperations : List (String × UInt8) :=
  [("ADD", 0x0), ("ADC", 0x1), ("SUB", 0x2), ("SBB", 0x3), ("ONC", 0x4), ("TWC", 0x5), ("AND", 0x6),
   ("OR", 0x7), ("XOR", 0x8), ("LSL", 0x9), ("LSR", 0xA), ("ASR", 0xB), ("ROL", 0xC), ("ROR", 0xD),
   ("RCL", 0xE), ("RCR", 0xF)]

/-- The modes of those operations, each with its group. -/
def aluGroups : List (Mode × UInt8) :=
  [(.direct, 0x10), (.accumulator, 0x20), (.immediate, 0x30), (.stack, 0x40)]

/-- The instructions of the arithmetic unit. -/
def aluInstructions : List Instruction :=
  aluOperations.flatMap fun (mnemonic, operation) =>
    aluGroups.map fun (mode, group) => ⟨mnemonic, mode, group + operation⟩

/-- Loads and stores. -/
def transferInstructions : List Instruction :=
  [⟨"LOD", .direct, 0x50⟩, ⟨"LOD", .immediate, 0x60⟩, ⟨"LOD", .stack, 0x90⟩,
   ⟨"STO", .direct, 0x70⟩, ⟨"STO", .stack, 0x80⟩]

/-- The instructions without an operand. -/
def inherentInstructions : List Instruction :=
  [⟨"NOP", .inherent, 0x00⟩, ⟨"PSH", .inherent, 0x80⟩, ⟨"POP", .inherent, 0x90⟩,
   ⟨"RSR", .inherent, 0xE0⟩, ⟨"HLT", .inherent, 0xFF⟩]

/-- Jumps and branches. A branch names the flag it tests: carry, zero, negative or overflow. -/
def jumpInstructions : List Instruction :=
  [⟨"JMP", .direct, 0xA0⟩, ⟨"BRC", .direct, 0xB1⟩, ⟨"BRZ", .direct, 0xB2⟩, ⟨"BRN", .direct, 0xB4⟩,
   ⟨"BRV", .direct, 0xB8⟩, ⟨"BNC", .direct, 0xC1⟩, ⟨"BNZ", .direct, 0xC2⟩, ⟨"BNN", .direct, 0xC4⟩,
   ⟨"BNV", .direct, 0xC8⟩, ⟨"JSR", .direct, 0xD0⟩]

/-- Every instruction of the machine. -/
def instructions : List Instruction :=
  aluInstructions ++ transferInstructions ++ inherentInstructions ++ jumpInstructions

/-! ### Looking instructions up -/

/-- The instruction of a mnemonic in a mode. -/
def instruction? (mnemonic : String) (mode : Mode) : Option Instruction :=
  instructions.find? fun i => i.mnemonic == mnemonic && i.mode == mode

/-- The modes of a mnemonic. -/
def modes (mnemonic : String) : List Mode :=
  (instructions.filter (·.mnemonic == mnemonic)).map (·.mode)

/-- Whether a text is a mnemonic. -/
def isMnemonic (text : String) : Bool := instructions.any (·.mnemonic == text)

/-- Whether a mnemonic names an operation of the arithmetic unit. -/
def isAlu (mnemonic : String) : Bool := aluOperations.any (·.1 == mnemonic)

/-- Whether a mnemonic may have an operand: all but the inherent instructions may. -/
def takesOperand (mnemonic : String) : Bool := !inherentInstructions.any (·.mnemonic == mnemonic)

/-! ### Words of a program that are no mnemonics -/

/-- The directives, in alphabetical order. -/
def directives : List String := [".byte", ".data", ".org", ".reserve", ".string"]

/-- The markers that stand for an operand, each with the mode it selects. -/
def markers : List (String × Mode) :=
  [("#reg_a", .accumulator), ("#a_reg", .accumulator), ("#stack", .stack)]

end RomAsm.Machine
