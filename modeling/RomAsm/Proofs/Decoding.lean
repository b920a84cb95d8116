import Mathlib
import RomAsm.Proofs.Agreement

/-!
# Machine code can be read back

The opcode of an instruction says how many bytes of operand follow it. So machine code can be cut
into instructions again from the left, without knowing the program: `disassemble` reads an opcode,
looks up the instruction, reads its operand and goes on.

`Command` is an instruction of the machine with its operand, and `Written` says which commands a
stream of symbols spells out; a stream spells out at most one list of them (`Written.unique`). Two
things are lost when commands are laid down as bytes, and `Command.stored` is what is left of a
command without them: `PSH` and `POP` have the opcodes of `STO #stack` and `LOD #stack`, and an
operand is reduced to the width of its field.

* `ofOpcode?_opcode` — no two instructions share an opcode, but for those two pairs;
* `disassemble_bytes` — one command is read back, and by induction a list of them
  (`disassemble_flatMap`);
* `written_of_encodeFrom` — a stream of instructions that is encoded spells out commands, whose
  bytes the code is;
* `disassemble_generate` — so the code of a program can be read back, and two programs have the same
  code exactly if they have the same commands, up to what is lost.
-/

namespace RomAsm

open Generation

/-! ### Instructions and their opcodes -/

namespace Machine

/-- The first instruction of the table that has an opcode. -/
def ofOpcode? (opcode : UInt8) : Option Instruction := instructions.find? (·.opcode == opcode)

/-- The instruction that stands for all instructions with the same opcode: pushing is storing to the
stack, and popping is loading from it. -/
def Instruction.plain (i : Instruction) : Instruction :=
  if i.mnemonic = "PSH" then ⟨"STO", .stack, i.opcode⟩
  else if i.mnemonic = "POP" then ⟨"LOD", .stack, i.opcode⟩
  else i

/-- **Opcodes are distinct**, but for the two pairs of instructions that do the same. -/
theorem ofOpcode?_opcode {i : Instruction} (hi : i ∈ instructions) :
    ofOpcode? i.opcode = some i.plain := by
  have hall : ∀ i ∈ instructions, ofOpcode? i.opcode = some i.plain := by decide +kernel
  exact hall i hi

theorem mem_of_ofOpcode? {opcode : UInt8} {i : Instruction} (h : ofOpcode? opcode = some i) :
    i ∈ instructions :=
  List.mem_of_find?_eq_some h

theorem Instruction.plain_mem {i : Instruction} (hi : i ∈ instructions) : i.plain ∈ instructions :=
  mem_of_ofOpcode? (ofOpcode?_opcode hi)

/-- The instruction that stands for others has their opcode. -/
theorem Instruction.opcode_plain (i : Instruction) : i.plain.opcode = i.opcode := by
  unfold plain
  split
  · rfl
  · split <;> rfl

/-- Instructions that share an opcode have fields of the same size. -/
theorem Instruction.operandSize_plain {i : Instruction} (hi : i ∈ instructions) :
    i.plain.mode.operandSize = i.mode.operandSize := by
  have hall : ∀ i ∈ instructions, i.plain.mode.operandSize = i.mode.operandSize := by
    decide +kernel
  exact hall i hi

/-- An instruction with a field shares its opcode with no other. -/
theorem Instruction.plain_of_operand {i : Instruction} (hi : i ∈ instructions)
    (hsize : 0 < i.mode.operandSize) : i.plain = i := by
  have hall : ∀ i ∈ instructions, 0 < i.mode.operandSize → i.plain = i := by decide +kernel
  exact hall i hi hsize

/-- Only the arithmetic unit works on the accumulator. -/
theorem isAlu_of_accumulator {i : Instruction} (hi : i ∈ instructions)
    (hmode : i.mode = .accumulator) : isAlu i.mnemonic = true := by
  have hall : ∀ i ∈ instructions, i.mode = .accumulator → isAlu i.mnemonic = true := by
    decide +kernel
  exact hall i hi hmode

/-- And all its operations have an operand. -/
theorem isAlu_of_inherent {i : Instruction} (hi : i ∈ instructions) (hmode : i.mode = .inherent) :
    isAlu i.mnemonic = false := by
  have hall : ∀ i ∈ instructions, i.mode = .inherent → isAlu i.mnemonic = false := by
    decide +kernel
  exact hall i hi hmode

end Machine

/-- A number reduced to the width of a field is stored as the number itself. -/
theorem Field.truncate_emod (n : Int) (bits : Nat) :
    Field.truncate (n % 2 ^ bits) bits = Field.truncate n bits := by
  have hpower : ((1 <<< bits : Nat) : Int) = 2 ^ bits := by
    rw [Nat.one_shiftLeft, Nat.cast_pow, Nat.cast_ofNat]
  rw [Field.truncate, Field.truncate, hpower, Int.emod_emod_of_dvd n (dvd_refl _)]

/-! ### Commands -/

/-- An instruction of the machine, with a number as its operand if its mode has a field for one. -/
@[ext] structure Command where
  instruction : Machine.Instruction
  operand : Option Int
  listed : instruction ∈ Machine.instructions
  operand_isSome : operand.isSome = decide (0 < instruction.mode.operandSize)
  deriving DecidableEq

/-- The number that some bytes stand for, low byte first. -/
def littleEndian : List UInt8 → Nat
  | [] => 0
  | b :: rest => b.toNat + 256 * littleEndian rest

namespace Command

/-- A command without an operand. -/
def bare (i : Machine.Instruction) (hi : i ∈ Machine.instructions)
    (hsize : i.mode.operandSize = 0) : Command :=
  ⟨i, none, hi, by rw [hsize]; rfl⟩

/-- A command with an operand. -/
def applied (i : Machine.Instruction) (hi : i ∈ Machine.instructions)
    (hsize : 0 < i.mode.operandSize) (n : Int) : Command :=
  ⟨i, some n, hi, (decide_eq_true hsize).symm⟩

/-- The command of an instruction whose field holds the given bytes. -/
def ofField (i : Machine.Instruction) (hi : i ∈ Machine.instructions) (field : List UInt8) :
    Command :=
  if h : 0 < i.mode.operandSize then applied i hi h (littleEndian field)
  else bare i hi (Nat.eq_zero_of_not_pos h)

/-- The field of a command: a byte for an immediate operand, two bytes for an address. -/
def field (c : Command) : List UInt8 :=
  match c.instruction.mode, c.operand with
  | .immediate, some n => Field.immediate n
  | .direct, some n => Field.address n
  | _, _ => []

/-- The bytes of a command. -/
def bytes (c : Command) : List UInt8 := c.instruction.opcode :: c.field

/-- What is left of a command once it is stored: the instruction up to its opcode, and the operand
up to the width of its field. -/
def stored (c : Command) : Command where
  instruction := c.instruction.plain
  operand := c.operand.map (· % 256 ^ c.instruction.mode.operandSize)
  listed := Machine.Instruction.plain_mem c.listed
  operand_isSome := by
    rw [Option.isSome_map, c.operand_isSome, Machine.Instruction.operandSize_plain c.listed]

/-- A command has an operand in two of the modes. -/
theorem cases_operand (c : Command) :
    (c.instruction.mode.operandSize = 0 ∧ c.operand = none ∧ c.field = []) ∨
    (c.instruction.mode = .immediate ∧ ∃ n, c.operand = some n ∧ c.field = Field.immediate n) ∨
    (c.instruction.mode = .direct ∧ ∃ n, c.operand = some n ∧ c.field = Field.address n) := by
  have hsome := c.operand_isSome
  unfold field
  cases hmode : c.instruction.mode with
  | immediate =>
    rw [hmode] at hsome
    obtain ⟨n, hn⟩ := Option.isSome_iff_exists.1 hsome
    exact .inr (.inl ⟨rfl, n, hn, by rw [hn]⟩)
  | direct =>
    rw [hmode] at hsome
    obtain ⟨n, hn⟩ := Option.isSome_iff_exists.1 hsome
    exact .inr (.inr ⟨rfl, n, hn, by rw [hn]⟩)
  -- these modes have no field, so there is nothing to store
  | inherent | accumulator | stack =>
    rw [hmode] at hsome
    have hnone : c.operand = none := Option.not_isSome_iff_eq_none.1 (ne_true_of_eq_false hsome)
    exact .inl ⟨rfl, hnone, rfl⟩

/-- A field has the size that the mode of its instruction asks for. -/
theorem length_field (c : Command) : c.field.length = c.instruction.mode.operandSize := by
  rcases c.cases_operand with ⟨hsize, -, hfield⟩ | ⟨hmode, n, -, hfield⟩ | ⟨hmode, n, -, hfield⟩
  · rw [hfield, hsize]
    rfl
  · rw [hfield, hmode, Field.immediate_eq]
    rfl
  · rw [hfield, hmode, Field.address_eq]
    rfl

/-- A field is reduced to its width before it is stored. -/
theorem littleEndian_field {c : Command} {n : Int} (hn : c.operand = some n) :
    (littleEndian c.field : Int) = n % 256 ^ c.instruction.mode.operandSize := by
  rcases c.cases_operand with ⟨-, hnone, -⟩ | ⟨hmode, m, hm, hfield⟩ | ⟨hmode, m, hm, hfield⟩
  · cases hnone.symm.trans hn
  · obtain rfl := Option.some.inj (hm.symm.trans hn)
    rw [hfield, hmode, Field.immediate_eq_truncate]
    -- one byte, with nothing above it
    show (((UInt8.ofNat (m % 2 ^ 8).toNat).toNat + 256 * 0 : Nat) : Int) = m % 256 ^ 1
    rw [UInt8.toNat_ofNat']
    omega
  · obtain rfl := Option.some.inj (hm.symm.trans hn)
    rw [hfield, hmode, Field.address_eq_truncate]
    -- two bytes, the low one first
    show (((UInt8.ofNat ((m % 2 ^ 16).toNat % 256)).toNat +
      256 * ((UInt8.ofNat ((m % 2 ^ 16).toNat / 256)).toNat + 256 * 0) : Nat) : Int) = m % 256 ^ 2
    rw [UInt8.toNat_ofNat', UInt8.toNat_ofNat']
    omega

/-- What is stored of a command is what its field is read back as. -/
theorem ofField_field (c : Command) :
    ofField c.instruction.plain (Machine.Instruction.plain_mem c.listed) c.field = c.stored := by
  have hsize := Machine.Instruction.operandSize_plain c.listed
  -- the instruction that is read has a field exactly if the one that was stored has
  unfold ofField
  split
  · next hpos =>
    have hsome : c.operand.isSome = true := by
      rw [c.operand_isSome, decide_eq_true_eq, ← hsize]
      exact hpos
    obtain ⟨n, hn⟩ := Option.isSome_iff_exists.1 hsome
    refine Command.ext ?_ ?_
    · rfl
    show some (littleEndian c.field : Int) = c.operand.map _
    rw [littleEndian_field hn, hn]
    rfl
  · next hpos =>
    have hnone : c.operand.isSome = false := by
      rw [c.operand_isSome, decide_eq_false_iff_not, ← hsize]
      exact hpos
    refine Command.ext ?_ ?_
    · rfl
    show none = c.operand.map _
    rw [Option.not_isSome_iff_eq_none.1 (ne_true_of_eq_false hnone)]
    rfl

@[simp] theorem bytes_bare {i : Machine.Instruction} {hi : i ∈ Machine.instructions}
    {hsize : i.mode.operandSize = 0} : (bare i hi hsize).bytes = [i.opcode] := by
  rw [bytes, List.length_eq_zero_iff.1 ((bare i hi hsize).length_field.trans hsize)]
  rfl

/-- What is stored of a command has the same bytes. -/
theorem bytes_stored (c : Command) : c.stored.bytes = c.bytes := by
  have hopcode : c.stored.instruction.opcode = c.instruction.opcode :=
    Machine.Instruction.opcode_plain c.instruction
  have hfield : c.stored.field = c.field := by
    rcases c.cases_operand with ⟨hsize, -, hfield⟩ | ⟨hmode, n, hn, hfield⟩ | ⟨hmode, n, hn, hfield⟩
    · -- a field of size zero has no bytes in either
      have hlength := c.stored.length_field
      have hplain : c.stored.instruction.mode.operandSize = 0 :=
        (Machine.Instruction.operandSize_plain c.listed).trans hsize
      rw [hfield, List.length_eq_zero_iff.1 (hlength.trans hplain)]
    · -- an immediate operand is reduced to a byte a second time, which changes nothing
      have hplain := Machine.Instruction.plain_of_operand c.listed (by rw [hmode]; decide)
      have hstored : c.stored.field = Field.immediate (n % 256 ^ 1) := by
        unfold field stored
        simp only [hplain, hmode, hn, Option.map_some]
        rfl
      have hn := Field.truncate_emod n Field.immediateBits
      rw [hstored, hfield, Field.immediate_eq_truncate, Field.immediate_eq_truncate, ← hn]
      rfl
    · have hplain := Machine.Instruction.plain_of_operand c.listed (by rw [hmode]; decide)
      have hstored : c.stored.field = Field.address (n % 256 ^ 2) := by
        unfold field stored
        simp only [hplain, hmode, hn, Option.map_some]
        rfl
      have hn := Field.truncate_emod n Field.addressBits
      rw [hstored, hfield, Field.address_eq_truncate, Field.address_eq_truncate, ← hn]
      rfl
  rw [bytes, bytes, hopcode, hfield]

end Command

/-! ### Reading code -/

/-- **The disassembler**: reads an opcode, looks up the size of its operand, reads the operand and
goes on behind it. Code that ends inside a command, or has an unknown opcode, is not read. -/
def disassemble : List UInt8 → Option (List Command)
  | [] => some []
  | opcode :: rest =>
    match h : Machine.ofOpcode? opcode with
    | none => none
    | some i =>
      let size := i.mode.operandSize
      if rest.length < size then none
      else
        (disassemble (rest.drop size)).map
          (Command.ofField i (Machine.mem_of_ofOpcode? h) (rest.take size) :: ·)
termination_by code => code.length
decreasing_by
  simp only [List.length_drop, List.length_cons]
  omega

/-- The disassembler reads one command off the code, whatever follows it. -/
theorem disassemble_bytes (c : Command) (rest : List UInt8) :
    disassemble (c.bytes ++ rest) = (disassemble rest).map (c.stored :: ·) := by
  have hopcode := Machine.ofOpcode?_opcode c.listed
  -- the opcode tells the size of the field, also if it is shared
  have hsize : c.instruction.plain.mode.operandSize = c.field.length := by
    rw [Machine.Instruction.operandSize_plain c.listed, c.length_field]
  rw [Command.bytes, List.cons_append, disassemble]
  split
  · next hnone => cases hopcode.symm.trans hnone
  · next i hi =>
    obtain rfl := Option.some.inj (hopcode.symm.trans hi)
    -- exactly the field is cut off
    have henough : ¬ (c.field ++ rest).length < c.instruction.plain.mode.operandSize := by
      rw [hsize, List.length_append]
      omega
    dsimp only
    rw [if_neg henough, hsize, List.take_left, List.drop_left, c.ofField_field]

/-- **Code is read back** as the commands that it was made of, one by one. -/
theorem disassemble_flatMap (cs : List Command) :
    disassemble (cs.flatMap Command.bytes) = some (cs.map Command.stored) := by
  induction cs with
  | nil =>
    rw [List.flatMap_nil, disassemble]
    rfl
  | cons c cs ih =>
    rw [List.flatMap_cons, disassemble_bytes, ih]
    rfl

/-- Commands have the same code exactly if the same is stored of them. -/
theorem flatMap_bytes_eq_iff {cs ds : List Command} :
    cs.flatMap Command.bytes = ds.flatMap Command.bytes ↔
      cs.map Command.stored = ds.map Command.stored := by
  constructor
  · -- one code is read back in one way
    intro h
    have hread := congrArg disassemble h
    rw [disassemble_flatMap, disassemble_flatMap] at hread
    exact Option.some.inj hread
  · intro h
    -- what is stored of commands has their bytes
    have hbytes : ∀ cs : List Command,
        (cs.map Command.stored).flatMap Command.bytes = cs.flatMap Command.bytes := by
      intro cs
      simp only [List.flatMap_map, Command.bytes_stored]
    rw [← hbytes cs, h, hbytes ds]

/-! ### The commands of a stream -/

/-- The command that a mnemonic spells out together with the symbols behind it. -/
inductive Spells (m : Symbol) : List Symbol → Command → Prop
  /-- A mnemonic alone means the accumulator if it is an operation of the arithmetic unit. -/
  | alone {c : Command}
      (hc : Machine.instruction? m.text
        (if Machine.isAlu m.text then .accumulator else .inherent) = some c.instruction) :
      Spells m [] c
  /-- A marker names the place of the operand. -/
  | marked {marker : Symbol} {mode : Machine.Mode} {c : Command}
      (hmarker : marker.mode? = .ok (some mode)) (hsize : mode.operandSize = 0)
      (hc : Machine.instruction? m.text mode = some c.instruction) : Spells m [marker] c
  /-- An immediate operand is a number behind its sign. -/
  | immediate {sign n : Symbol} {c : Command}
      (hsign : sign.mode? = .ok (some .immediate)) (hn : n.isInteger = true)
      (hvalue : n.value = c.operand)
      (hc : Machine.instruction? m.text .immediate = some c.instruction) : Spells m [sign, n] c
  /-- An address is a number on its own. -/
  | direct {n : Symbol} {c : Command}
      (hn : n.isInteger = true) (hvalue : n.value = c.operand)
      (hc : Machine.instruction? m.text .direct = some c.instruction) : Spells m [n] c

/-- The commands that a stream of symbols spells out, each from its mnemonic on. -/
inductive Written : List Symbol → List Command → Prop
  | nil : Written [] []
  | cons {m : Symbol} {arguments rest : List Symbol} {c : Command} {cs : List Command}
      (hm : m.kind = .mnemonic) (hc : Spells m arguments c) (hrest : Written rest cs) :
      Written (m :: (arguments ++ rest)) (c :: cs)

theorem mode?_of_isInteger {s : Symbol} (h : s.isInteger = true) : s.mode? = .ok none := by
  rw [Symbol.mode?, beq_iff_eq.1 h]

/-- A command without a field has no operand. -/
theorem Command.operand_eq_none {c : Command} {mnemonic : String} {mode : Machine.Mode}
    (hc : Machine.instruction? mnemonic mode = some c.instruction) (hsize : mode.operandSize = 0) :
    c.operand = none := by
  obtain ⟨-, -, hmode⟩ := Machine.of_instruction? hc
  rcases c.cases_operand with ⟨-, hnone, -⟩ | ⟨hfield, -⟩ | ⟨hfield, -⟩
  · exact hnone
  · cases hmode.symm.trans hfield
    cases hsize
  · cases hmode.symm.trans hfield
    cases hsize

namespace Spells

variable {m : Symbol} {arguments : List Symbol} {c d : Command}

/-- No statement begins inside a command. -/
theorem startsStatement (h : Spells m arguments c) :
    ∀ s ∈ arguments, s.startsStatement = false := by
  cases h with
  | alone => simp
  | marked hmarker => simpa using startsStatement_of_mode? hmarker
  | immediate hsign hn =>
    simp [startsStatement_of_mode? hsign, startsStatement_of_isInteger hn]
  | direct hn => simpa using startsStatement_of_isInteger hn

/-- Symbols spell out at most one command. -/
theorem unique (hc : Spells m arguments c) (hd : Spells m arguments d) : c = d := by
  cases hc with
  | alone hc =>
    obtain ⟨hd⟩ := hd
    have hsize : Machine.Mode.operandSize
        (if Machine.isAlu m.text then .accumulator else .inherent) = 0 := by
      split <;> rfl
    exact Command.ext (Option.some.inj (hc.symm.trans hd))
      ((Command.operand_eq_none hc hsize).trans (Command.operand_eq_none hd hsize).symm)
  | marked hmarker hsize hc =>
    cases hd with
    | marked hmarker' _ hd =>
      obtain rfl := Option.some.inj (Except.ok.inj (hmarker.symm.trans hmarker'))
      exact Command.ext (Option.some.inj (hc.symm.trans hd))
        ((Command.operand_eq_none hc hsize).trans (Command.operand_eq_none hd hsize).symm)
    | direct hn =>
      -- a number is not a marker
      cases (mode?_of_isInteger hn).symm.trans hmarker
  | immediate _ _ hvalue hc =>
    obtain ⟨⟩ | ⟨⟩ | ⟨-, -, hvalue', hd⟩ := hd
    exact Command.ext (Option.some.inj (hc.symm.trans hd)) (hvalue.symm.trans hvalue')
  | direct hn hvalue hc =>
    cases hd with
    | marked hmarker => cases (mode?_of_isInteger hn).symm.trans hmarker
    | direct _ hvalue' hd =>
      exact Command.ext (Option.some.inj (hc.symm.trans hd)) (hvalue.symm.trans hvalue')

end Spells

namespace Written

/-- What comes behind a command is empty or begins a statement. -/
theorem head_startsStatement {symbols : List Symbol} {cs : List Command} (h : Written symbols cs) :
    ∀ s ∈ symbols.head?, s.startsStatement = true := by
  cases h with
  | nil => simp
  | cons hm => simp [Symbol.startsStatement, hm]

/-- So it is known where a command ends. -/
theorem span_eq {m : Symbol} {arguments rest : List Symbol} {c : Command} {cs : List Command}
    (hc : Spells m arguments c) (hrest : Written rest cs) :
    (arguments ++ rest).span (!·.startsStatement) = (arguments, rest) := by
  have harguments : ∀ s ∈ arguments, (!s.startsStatement) = true := by
    simpa using hc.startsStatement
  -- behind the arguments comes another mnemonic, or nothing
  have hstop : rest.takeWhile (!·.startsStatement) = [] ∧
      rest.dropWhile (!·.startsStatement) = rest := by
    cases rest with
    | nil => exact ⟨rfl, rfl⟩
    | cons s rest => simp [hrest.head_startsStatement s rfl]
  rw [List.span_eq_takeWhile_dropWhile, List.takeWhile_append_of_pos harguments,
    List.dropWhile_append_of_pos harguments, hstop.1, hstop.2, List.append_nil]

/-- **A stream spells out at most one list of commands.** -/
theorem unique {symbols : List Symbol} {cs ds : List Command} (hc : Written symbols cs)
    (hd : Written symbols ds) : cs = ds := by
  induction hc generalizing ds with
  | nil =>
    cases hd
    rfl
  | @cons m arguments rest c cs hm hc hrest ih =>
    generalize hsymbols : m :: (arguments ++ rest) = symbols at hd
    cases hd with
    | nil => cases hsymbols
    | @cons m' arguments' rest' d ds hm' hd hrest' =>
      obtain ⟨rfl, hbehind⟩ := List.cons.inj hsymbols
      -- both commands end where the next statement begins
      have hspan := (span_eq hc hrest).symm.trans ((congrArg _ hbehind).trans (span_eq hd hrest'))
      obtain ⟨rfl, rfl⟩ := Prod.mk.inj hspan
      rw [hc.unique hd, ih hrest']

end Written

/-! ### The commands that are encoded -/

namespace Operand

variable {m : Symbol} {following : List Symbol} {mode : Machine.Mode}

/-- The instruction that is chosen is the one of the table for this mode. -/
theorem instruction?_of_mode {i : Machine.Instruction} (hmode : Operand.mode m following = .ok mode)
    (hi : Operand.instruction m following = .ok i) : Machine.instruction? m.text mode = some i := by
  obtain ⟨mode', hmode', hi⟩ := Trace.except_bind_eq_ok.1 hi
  obtain rfl := Except.ok.inj (hmode.symm.trans hmode')
  split at hi
  · next j hj =>
    obtain rfl := Except.ok.inj hi
    exact hj
  · cases hi

end Operand

/-- An instruction that is encoded takes the symbols of a command, and its bytes are those of the
command. -/
theorem spells_of_lays {strict : Bool} {m : Symbol} {following : List Symbol} {bytes : List UInt8}
    {taken : Nat} (h : Lays (instruction strict m following) bytes taken) :
    ∃ c, Spells m (following.take taken) c ∧ bytes = c.bytes := by
  obtain ⟨mode, i, field, hmode, hi, rfl, htaken⟩ := instruction_lays h
  have hlisted := Operand.instruction?_of_mode hmode hi
  obtain ⟨hmem, hmnemonic, himode⟩ := Machine.of_instruction? hlisted
  -- the mode tells how many symbols were taken, and which
  cases mode with
  | direct =>
    obtain ⟨rfl, operand, n, hoperand, hvalue, rfl⟩ := htaken
    obtain ⟨hhead, hinteger⟩ := isInteger_of_number hoperand
    obtain ⟨rest, rfl⟩ := List.head?_eq_some_iff.1 hhead
    refine ⟨.applied i hmem (by rw [himode]; decide) n, .direct hinteger hvalue hlisted, ?_⟩
    simp only [Command.bytes, Command.field, Command.applied, himode]
  | immediate =>
    obtain ⟨rfl, operand, n, hoperand, hvalue, rfl⟩ := htaken
    obtain ⟨hsecond, hinteger⟩ := isInteger_of_number hoperand
    obtain ⟨sign, behind, rfl, hsign⟩ := Operand.marker_of_mode hmode (.inr rfl)
    obtain ⟨rest, rfl⟩ := List.head?_eq_some_iff.1 (List.head?_eq_getElem?.trans hsecond)
    refine ⟨.applied i hmem (by rw [himode]; decide) n,
      .immediate hsign hinteger hvalue hlisted, ?_⟩
    simp only [Command.bytes, Command.field, Command.applied, himode]
  | accumulator =>
    obtain ⟨rfl, marked, hmarked, rfl⟩ := htaken
    have hsize : i.mode.operandSize = 0 := by rw [himode]; rfl
    refine ⟨.bare i hmem hsize, ?_, Command.bytes_bare.symm⟩
    cases marked with
    | true =>
      obtain ⟨marker, rest, rfl, hmarker⟩ := isMarked_eq_true.1 hmarked
      exact .marked hmarker rfl hlisted
    | false =>
      -- nothing behind the mnemonic: only the arithmetic unit has a mode for that
      have halu : Machine.isAlu m.text = true :=
        hmnemonic ▸ Machine.isAlu_of_accumulator hmem himode
      exact .alone (by rw [if_pos halu]; exact hlisted)
  | stack =>
    obtain ⟨rfl, marked, hmarked, rfl⟩ := htaken
    have hsize : i.mode.operandSize = 0 := by rw [himode]; rfl
    refine ⟨.bare i hmem hsize, ?_, Command.bytes_bare.symm⟩
    -- there is no stack operand without its marker
    have hmarker := Operand.marker_of_mode hmode (.inl rfl)
    obtain rfl := Except.ok.inj (hmarked.symm.trans (isMarked_eq_true.2 hmarker))
    obtain ⟨marker, rest, rfl, hmarker⟩ := hmarker
    exact .marked hmarker rfl hlisted
  | inherent =>
    obtain ⟨rfl, rfl⟩ := htaken
    have hsize : i.mode.operandSize = 0 := by rw [himode]; rfl
    have halu : Machine.isAlu m.text = false := hmnemonic ▸ Machine.isAlu_of_inherent hmem himode
    refine ⟨.bare i hmem hsize, .alone ?_, Command.bytes_bare.symm⟩
    rw [halu]
    exact hlisted

/-- **A stream of instructions that is encoded spells out commands**, and their bytes are those of
the statements. -/
theorem Encoding.exists_written {strict : Bool} {address : Nat} {symbols : List Symbol}
    {statements : List Statement} (h : Encoding strict address symbols statements)
    (hinstructions : ∀ s ∈ symbols, s.kind ≠ .directive) :
    ∃ cs, Written symbols cs ∧ statements.flatMap (·.bytes) = cs.flatMap Command.bytes := by
  -- along the statements: each is an instruction, and takes the symbols of a command
  induction h with
  | nil address => exact ⟨[], .nil, rfl⟩
  | @cons address taken m following bytes later hstatement _ ih =>
    obtain ⟨cs, hcs, hbytes⟩ := ih fun s hs =>
      hinstructions s (List.mem_cons_of_mem m (List.mem_of_mem_drop hs))
    obtain ⟨⟨hm, hinstruction⟩ | ⟨hdirective, -⟩, -⟩ :=
      encode_lays (lays_encode_of_statement hstatement)
    · obtain ⟨c, hc, rfl⟩ := spells_of_lays hinstruction
      have hwritten := Written.cons hm hc hcs
      rw [List.take_append_drop] at hwritten
      refine ⟨c :: cs, hwritten, ?_⟩
      rw [List.flatMap_cons, List.flatMap_cons, hbytes]
    · exact absurd hdirective (hinstructions m List.mem_cons_self)

/-- The code of a program of instructions is that of the commands that it spells out. -/
theorem exists_written_of_generate {g : Generator} {strict : Bool} {p : Program}
    {code : List UInt8} (hp : ∀ s ∈ p.symbols, s.kind ≠ .directive)
    (h : (g.generate strict p).outcome = .ok code) :
    ∃ cs, (∀ ds, Written p.symbols ds ↔ ds = cs) ∧ code = cs.flatMap Command.bytes := by
  obtain ⟨statements, hencoding, rfl, -⟩ := encoding_of_generate h
  obtain ⟨cs, hcs, hbytes⟩ := hencoding.exists_written hp
  refine ⟨cs, fun ds => ⟨fun hds => hds.unique hcs, ?_⟩, hbytes⟩
  rintro rfl
  exact hcs

/-- **Machine code is uniquely decodable.** A program of instructions that is encoded spells out one
list of commands. The disassembler reads the code to its end and finds these commands in order, with
their instructions up to the two shared opcodes and their operands up to the width of a field. So
another such program has the same code exactly if its commands are the same up to that. -/
theorem disassemble_generate {g : Generator} {strict : Bool} {p : Program} {code : List UInt8}
    (hp : ∀ s ∈ p.symbols, s.kind ≠ .directive) (h : (g.generate strict p).outcome = .ok code) :
    ∃ cs, (∀ ds, Written p.symbols ds ↔ ds = cs) ∧
      disassemble code = some (cs.map Command.stored) ∧
      ∀ {g' : Generator} {strict' : Bool} {q : Program} {code' : List UInt8},
        (∀ s ∈ q.symbols, s.kind ≠ .directive) → (g'.generate strict' q).outcome = .ok code' →
        ∃ ds, (∀ es, Written q.symbols es ↔ es = ds) ∧
          (code = code' ↔ cs.map Command.stored = ds.map Command.stored) := by
  obtain ⟨cs, hcs, rfl⟩ := exists_written_of_generate hp h
  refine ⟨cs, hcs, disassemble_flatMap cs, ?_⟩
  intro g' strict' q code' hq h'
  obtain ⟨ds, hds, rfl⟩ := exists_written_of_generate hq h'
  exact ⟨ds, hds, flatMap_bytes_eq_iff⟩

/-- A program that pushes and pops, with negative operands. -/
def pushing : Program where
  symbols :=
    [⟨.mnemonic, "PSH", none, inFirstLine 1⟩, ⟨.mnemonic, "POP", none, inFirstLine 5⟩,
      ⟨.mnemonic, "ADD", none, inFirstLine 9⟩, ⟨.immediate, "!", none, inFirstLine 13⟩,
      ⟨.integer, "-1", some (-1), inFirstLine 14⟩, ⟨.mnemonic, "JMP", none, inFirstLine 17⟩,
      ⟨.integer, "-2", some (-2), inFirstLine 21⟩]
  tags := []
  definitions := []

/-- A program that stores to the stack and loads from it, with operands without a sign. -/
def storing : Program where
  symbols :=
    [⟨.mnemonic, "STO", none, inFirstLine 1⟩, ⟨.stack, "#stack", none, inFirstLine 5⟩,
      ⟨.mnemonic, "LOD", none, inFirstLine 12⟩, ⟨.stack, "#stack", none, inFirstLine 16⟩,
      ⟨.mnemonic, "ADD", none, inFirstLine 23⟩, ⟨.immediate, "!", none, inFirstLine 27⟩,
      ⟨.integer, "255", some 255, inFirstLine 28⟩, ⟨.mnemonic, "JMP", none, inFirstLine 32⟩,
      ⟨.integer, "65534", some 65534, inFirstLine 36⟩]
  tags := []
  definitions := []

/-- The two programs have the same code, so what is stored of their commands is the same. -/
theorem pushing_stored_as_storing :
    (∀ s ∈ pushing.symbols, s.kind ≠ .directive) ∧ (∀ s ∈ storing.symbols, s.kind ≠ .directive) ∧
    (Generator.unused.generate false pushing).outcome =
      .ok [0x80, 0x90, 0x30, 0xff, 0xa0, 0xfe, 0xff] ∧
    (usedGenerator.generate true storing).outcome =
      .ok [0x80, 0x90, 0x30, 0xff, 0xa0, 0xfe, 0xff] ∧
    ∃ cs ds, Written pushing.symbols cs ∧ Written storing.symbols ds ∧
      disassemble [0x80, 0x90, 0x30, 0xff, 0xa0, 0xfe, 0xff] = some (cs.map Command.stored) ∧
      cs.map Command.stored = ds.map Command.stored := by
  have hpushing : (Generator.unused.generate false pushing).outcome =
      .ok [0x80, 0x90, 0x30, 0xff, 0xa0, 0xfe, 0xff] := by cbv
  have hstoring : (usedGenerator.generate true storing).outcome =
      .ok [0x80, 0x90, 0x30, 0xff, 0xa0, 0xfe, 0xff] := by cbv
  have hp : ∀ s ∈ pushing.symbols, s.kind ≠ .directive := by decide
  have hq : ∀ s ∈ storing.symbols, s.kind ≠ .directive := by decide
  obtain ⟨cs, hcs, hread, hiff⟩ := disassemble_generate hp hpushing
  obtain ⟨ds, hds, hsame⟩ := hiff hq hstoring
  exact ⟨hp, hq, hpushing, hstoring, cs, ds, (hcs cs).2 rfl, (hds ds).2 rfl, hread, hsame.1 rfl⟩

end RomAsm
