import RomAsm.Proofs.DataWidth
import RomAsm.Proofs.Determined

/-!
# Programs as lists of elements

A well-formed program is a list of elements: labels, constants, instructions and directives. The
type `Element` has no others, and it leaves no room for an instruction that the machine does not
have, for a marker that is none or for a number that is not spelled as one. What a program should be
assembled to is said on such lists, without any reference to streams of symbols:

* `Element.size` — the bytes that an element takes, which only `.org` makes depend on its address;
* `labelsFrom` — the address of each label, which is the size of what stands before it;
* `Element.bytes` and `bytesFrom` — the bytes themselves, given the values of the operands.

An element has a type `π` for the places of its tokens and a type `ε` for its operands. A program as
it is given has no places and expressions as operands; once it is read the tokens have locations,
and later the operands are trees with all grouping spelled out. `Element.parts` are the symbols of
an element with its operand between them, and `Element.symbols` is what becomes of them when the
operand is written in some way. So all streams that a program goes through come from one definition.
-/

namespace RomAsm

/-! ### Tokens -/

/-- A number that is written as an unsigned literal. -/
structure Unsigned where
  text : String
  literal : Numeral.Literal
  spelled : Numeral.Literal.ofChars? text.toList = some literal
  readable : literal.read = .ok literal.value

/-- The value of a number. -/
def Unsigned.value (u : Unsigned) : Nat := u.literal.value

/-- The symbol of a number. -/
def Unsigned.symbol (u : Unsigned) (place : Option Location) : Symbol :=
  ⟨.integer, u.text, some (u.value : Int), place⟩

/-- A letter of a string literal. -/
inductive Letter where
  | plain (c : Char) (h : c ≠ '"' ∧ c ≠ '\\')
  | escape (c : Char)

/-- A letter as it is written. -/
def Letter.written : Letter → List Char
  | plain c _ => [c]
  | escape c => ['\\', c]

/-- The character that a letter stands for. -/
def Letter.char : Letter → Char
  | plain c _ => c
  | escape c => StringLiteral.escaped c

/-- A string literal behind its opening quote. -/
def stringBody (letters : List Letter) : List Char := letters.flatMap Letter.written ++ ['"']

/-- The symbol of a string literal. -/
def stringSymbol (letters : List Letter) (place : Option Location) : Symbol :=
  ⟨.string, String.ofList ('"' :: stringBody letters), none, place⟩

/-! ### Elements -/

/-- What an instruction is applied to. -/
inductive Argument (π ε : Type) where
  /-- Nothing is written; an operation of the arithmetic unit then works on the accumulator. -/
  | absent
  | marker (text : String) (mode : Machine.Mode) (h : Machine.markers.lookup text = some mode)
    (place : π)
  | immediate (mark : π) (operand : ε)
  | direct (operand : ε)

/-- The addressing mode that an argument selects. -/
def Argument.mode {π ε : Type} (mnemonic : String) : Argument π ε → Machine.Mode
  | absent => if Machine.isAlu mnemonic then .accumulator else .inherent
  | marker _ mode _ _ => mode
  | immediate _ _ => .immediate
  | direct _ => .direct

/-- An element of a program. -/
inductive Element (π ε : Type) where
  | label (name : String) (place colon : π)
  | constant (name : String) (place equals : π) (value : ε)
  | instruction (i : Machine.Instruction) (argument : Argument π ε)
    (h : Machine.instruction? i.mnemonic (argument.mode i.mnemonic) = some i) (place : π)
  | byte (place : π) (operand : ε)
  | reserve (place : π) (count : Unsigned) (behind : π)
  | origin (place : π) (target : Unsigned) (behind : π)
  | string (place : π) (letters : List Letter) (behind : π)
  | data (place : π) (literal : Unsigned) (behind : π)

section Elements

variable {π π' ε ε' : Type}

/-- An argument with other places and another operand. -/
def Argument.map (f : π → π') (g : ε → ε') : Argument π ε → Argument π' ε'
  | absent => absent
  | marker text mode h place => marker text mode h (f place)
  | immediate mark e => immediate (f mark) (g e)
  | direct e => direct (g e)

/-- The mode of an argument is told by its form, not by its operand. -/
@[simp] theorem Argument.mode_map (f : π → π') (g : ε → ε') (a : Argument π ε) (mnemonic : String) :
    (a.map f g).mode mnemonic = a.mode mnemonic := by
  cases a <;> rfl

/-- The operand of an argument. -/
def Argument.operand? : Argument π ε → Option ε
  | absent | marker _ _ _ _ => none
  | immediate _ e | direct e => some e

namespace Element

/-- An element with other places and another operand. -/
def map (f : π → π') (g : ε → ε') : Element π ε → Element π' ε'
  | label name place colon => label name (f place) (f colon)
  | constant name place equals e => constant name (f place) (f equals) (g e)
  | instruction i a h place =>
    instruction i (a.map f g) (by rw [Argument.mode_map]; exact h) (f place)
  | byte place e => byte (f place) (g e)
  | reserve place n behind => reserve (f place) n (f behind)
  | origin place n behind => origin (f place) n (f behind)
  | string place letters behind => string (f place) letters (f behind)
  | data place n behind => data (f place) n (f behind)

/-- The expression of an element: the value of a constant or an operand. -/
def operand? : Element π ε → Option ε
  | constant _ _ _ e => some e
  | instruction _ a _ _ => a.operand?
  | byte _ e => some e
  | _ => none

/-- Whether an element lays down bytes. -/
def isStatement : Element π ε → Bool
  | label _ _ _ | constant _ _ _ _ => false
  | _ => true

/-- Whether an element is a label. -/
def isLabel : Element π ε → Bool
  | label _ _ _ => true
  | _ => false

/-! ### What an element stands for -/

/-- The bytes that an element takes at an address. -/
def size (address : Nat) : Element π ε → Nat
  | label _ _ _ | constant _ _ _ _ => 0
  | instruction i _ _ _ => i.size
  | byte _ _ => 1
  | reserve _ count _ => count.value
  | origin _ target _ => target.value - address
  | string _ letters _ => letters.length + 1
  | data _ n _ => n.literal.width

end Element

/-- The bytes of an operand: an immediate one is reduced to a byte, and an address to two, of which
the low one comes first. -/
def Argument.bytes (value : ε → Option Int) : Argument π ε → Option (List UInt8)
  | absent | marker _ _ _ _ => some []
  | immediate _ e => (value e).map fun n => [UInt8.ofInt n]
  | direct e => (value e).map fun n => [UInt8.ofInt n, UInt8.ofInt (n / 256)]

/-- The bytes of an element at an address, if its operand has a value. -/
def Element.bytes (value : ε → Option Int) (address : Nat) : Element π ε → Option (List UInt8)
  | label _ _ _ | constant _ _ _ _ => some []
  | instruction i a _ _ => (a.bytes value).map (i.opcode :: ·)
  | byte _ e => (value e).map fun n => [UInt8.ofInt n]
  | reserve _ count _ => some (List.replicate count.value 0)
  | origin _ target _ => some (List.replicate (target.value - address) 0)
  | string _ letters _ => some (letters.map (fun l => UInt8.ofNat l.char.toNat) ++ [0])
  | data _ n _ => some n.literal.bytes

/-- The address behind some elements, the first of which stands at the given one. -/
def extent (address : Nat) : List (Element π ε) → Nat
  | [] => address
  | x :: rest => extent (address + x.size address) rest

/-- The name that an element gives to its address. -/
def Element.labelAt (address : Nat) : Element π ε → Table Int
  | label name _ _ => [(name, (address : Int))]
  | _ => []

/-- The labels among some elements, with their addresses. -/
def labelsFrom (address : Nat) : List (Element π ε) → Table Int
  | [] => []
  | x :: rest => x.labelAt address ++ labelsFrom (address + x.size address) rest

/-- The bytes of some elements, one after the other. -/
def bytesFrom (value : ε → Option Int) (address : Nat) : List (Element π ε) → Option (List UInt8)
  | [] => some []
  | x :: rest => do
    let bytes ← x.bytes value address
    let more ← bytesFrom value (address + x.size address) rest
    return bytes ++ more

/-! ### Sizes and bytes -/

/-- An argument has as many bytes as the operands of its mode take. -/
theorem Argument.length_bytes {value : ε → Option Int} {a : Argument π ε} {bytes : List UInt8}
    (h : a.bytes value = some bytes) (mnemonic : String) :
    bytes.length = (a.mode mnemonic).operandSize := by
  cases a with
  | absent =>
    cases h
    rw [mode]
    -- without an operand the mode is that of the mnemonic alone
    split <;> rfl
  | marker text mode hmode place =>
    cases h
    -- a marker selects a mode without an operand
    have hall : ∀ m ∈ Machine.markers, m.2.operandSize = 0 := by decide
    obtain ⟨before, after, hsplit, -⟩ := List.lookup_eq_some_iff.1 hmode
    refine (hall (text, mode) ?_).symm
    rw [hsplit]
    exact List.mem_append_right _ List.mem_cons_self
  | immediate mark e =>
    obtain ⟨n, -, rfl⟩ := Option.map_eq_some_iff.1 h
    rfl
  | direct e =>
    obtain ⟨n, -, rfl⟩ := Option.map_eq_some_iff.1 h
    rfl

/-- An instruction that was found has the mnemonic and the mode that were looked for. -/
theorem Machine.of_instruction? {mnemonic : String} {mode : Mode} {i : Instruction}
    (h : instruction? mnemonic mode = some i) :
    i ∈ instructions ∧ i.mnemonic = mnemonic ∧ i.mode = mode := by
  have hfound := List.find?_some h
  rw [Bool.and_eq_true, beq_iff_eq, beq_iff_eq] at hfound
  exact ⟨List.mem_of_find?_eq_some h, hfound⟩

/-- An element takes as many bytes as it lays down. -/
theorem Element.length_bytes {value : ε → Option Int} {address : Nat} {x : Element π ε}
    {bytes : List UInt8} (h : x.bytes value address = some bytes) :
    bytes.length = x.size address := by
  cases x with
  | label _ _ _ | constant _ _ _ _ =>
    cases h
    rfl
  -- one byte for the operation, and then the operand
  | instruction i a hi place =>
    obtain ⟨operand, hoperand, rfl⟩ := Option.map_eq_some_iff.1 h
    rw [List.length_cons, a.length_bytes hoperand i.mnemonic, size, Machine.Instruction.size,
      (Machine.of_instruction? hi).2.2, Nat.add_comm]
  | byte place e =>
    obtain ⟨n, -, rfl⟩ := Option.map_eq_some_iff.1 h
    rfl
  | reserve place count behind =>
    cases h
    exact List.length_replicate
  | origin place target behind =>
    cases h
    -- the gap up to the target is filled with zeros
    exact List.length_replicate
  | string place letters behind =>
    cases h
    rw [List.length_append, List.length_map]
    rfl
  | data place n behind =>
    cases h
    exact Numeral.length_bigEndian _ _

/-- The address behind two parts of a program: the second part begins where the first one ends. -/
theorem extent_append (address : Nat) (xs ys : List (Element π ε)) :
    extent address (xs ++ ys) = extent (extent address xs) ys := by
  induction xs generalizing address with
  | nil => rfl
  | cons x xs ih => exact ih _

/-- **A label stands behind what is before it.** -/
theorem mem_labelsFrom {address : Nat} {xs : List (Element π ε)} {name : String} {n : Int} :
    (name, n) ∈ labelsFrom address xs ↔ ∃ before place colon after,
      xs = before ++ .label name place colon :: after ∧ n = (extent address before : Nat) := by
  induction xs generalizing address with
  | nil =>
    constructor
    · exact nofun
    · rintro ⟨before, place, colon, after, h, -⟩
      exact absurd h.symm (List.append_ne_nil_of_right_ne_nil _ nofun)
  | cons x xs ih =>
    -- the element may be the label itself, or stand before it and shift its address
    rw [labelsFrom, List.mem_append, ih]
    constructor
    · rintro (h | ⟨before, place, colon, after, rfl, rfl⟩)
      · cases x with
        | label name' place colon =>
          obtain ⟨rfl, rfl⟩ := Prod.mk.inj (List.mem_singleton.1 h)
          exact ⟨[], place, colon, xs, rfl, rfl⟩
        | _ => cases h
      · exact ⟨x :: before, place, colon, after, rfl, rfl⟩
    · rintro ⟨before, place, colon, after, h, rfl⟩
      -- the label is the first element, or it comes later
      cases before with
      | nil =>
        obtain ⟨rfl, rfl⟩ := List.cons.inj h
        exact .inl (List.mem_singleton.2 rfl)
      | cons y before =>
        obtain ⟨rfl, rfl⟩ := List.cons.inj h
        exact .inr ⟨before, place, colon, after, rfl, rfl⟩

/-! ### What holds throughout a program -/

/-- Every element has a property at its address. -/
def Throughout (p : Nat → Element π ε → Prop) (address : Nat) : List (Element π ε) → Prop
  | [] => True
  | x :: rest => p address x ∧ Throughout p (address + x.size address) rest

/-- An element does not take the address back: only `.org` might. -/
def Element.Forward (address : Nat) : Element π ε → Prop
  | origin _ target _ => address ≤ target.value
  | _ => True

/-- The zeros that an element asks for are no more than a run of bytes can have. -/
def Element.Feasible (address : Nat) : Element π ε → Prop
  | reserve _ count _ => count.value + 33 < 2 ^ 63
  | origin _ target _ => target.value - address + 33 < 2 ^ 63
  | _ => True

theorem Element.size_of_not_isStatement {x : Element π ε} (h : x.isStatement = false)
    (address : Nat) : x.size address = 0 := by
  cases x <;> first | rfl | cases h

theorem Element.bytes_of_not_isStatement {x : Element π ε} (h : x.isStatement = false)
    (value : ε → Option Int) (address : Nat) : x.bytes value address = some [] := by
  cases x <;> first | rfl | cases h

/-- What takes no bytes can be left out. -/
theorem throughout_filter_isStatement {p : Nat → Element π ε → Prop}
    (hp : ∀ x address, x.isStatement = false → p address x) {address : Nat}
    {xs : List (Element π ε)} :
    Throughout p address (xs.filter Element.isStatement) ↔ Throughout p address xs := by
  induction xs generalizing address with
  | nil => rfl
  | cons x xs ih =>
    cases hx : x.isStatement with
    | true => rw [List.filter_cons_of_pos hx, Throughout, Throughout, ih]
    | false =>
      -- the address stays where it is, so the rest is looked at from the same place
      rw [List.filter_cons_of_neg (by simp [hx]), Throughout, x.size_of_not_isStatement hx,
        Nat.add_zero, ih]
      exact (and_iff_right (hp x address hx)).symm

theorem Element.forward_of_not_isStatement (x : Element π ε) (address : Nat)
    (h : x.isStatement = false) : x.Forward address := by
  cases x <;> trivial

theorem Element.feasible_of_not_isStatement (x : Element π ε) (address : Nat)
    (h : x.isStatement = false) : x.Feasible address := by
  cases x <;> trivial

/-- **The bytes of a program are those of its statements**: labels and constants can be left out,
since all that follows keeps its address. -/
theorem bytesFrom_filter_isStatement (value : ε → Option Int) (address : Nat)
    (xs : List (Element π ε)) :
    bytesFrom value address (xs.filter Element.isStatement) = bytesFrom value address xs := by
  induction xs generalizing address with
  | nil => rfl
  | cons x xs ih =>
    cases hx : x.isStatement with
    | true => rw [List.filter_cons_of_pos hx, bytesFrom, bytesFrom, ih]
    -- a label or a constant lays down nothing and does not move the address
    | false =>
      rw [List.filter_cons_of_neg (by simp [hx]), bytesFrom, x.bytes_of_not_isStatement hx,
        x.size_of_not_isStatement hx, Nat.add_zero, ih]
      cases bytesFrom value address xs <;> rfl

/-- The bytes of some elements depend on the values of their operands only. -/
theorem bytesFrom_congr {value value' : ε → Option Int} {xs : List (Element π ε)}
    (h : ∀ x ∈ xs, ∀ e ∈ x.operand?, value e = value' e) (address : Nat) :
    bytesFrom value address xs = bytesFrom value' address xs := by
  induction xs generalizing address with
  | nil => rfl
  | cons x xs ih =>
    obtain ⟨hx, hxs⟩ := List.forall_mem_cons.1 h
    have hbytes : x.bytes value address = x.bytes value' address := by
      -- only three kinds of elements have an operand
      cases x with
      | instruction i a hi place =>
        cases a with
        | immediate mark e =>
          rw [Element.bytes, Element.bytes, Argument.bytes, Argument.bytes, hx e rfl]
        | direct e =>
          rw [Element.bytes, Element.bytes, Argument.bytes, Argument.bytes, hx e rfl]
        | _ => rfl
      | byte place e => rw [Element.bytes, Element.bytes, hx e rfl]
      | _ => rfl
    rw [bytesFrom, bytesFrom, hbytes, ih hxs]

/-! ### Elements without their places -/

/-- The size of an element is told before its operand has a value. -/
@[simp] theorem Element.size_map (f : π → π') (g : ε → ε') (x : Element π ε) (address : Nat) :
    (x.map f g).size address = x.size address := by
  cases x <;> rfl

/-- The operand of a changed element is the changed operand. -/
theorem Element.operand?_map (f : π → π') (g : ε → ε') (x : Element π ε) :
    (x.map f g).operand? = x.operand?.map g := by
  cases x with
  | instruction i a h place => cases a <;> rfl
  | _ => rfl

@[simp] theorem Element.labelAt_map (f : π → π') (g : ε → ε') (x : Element π ε) (address : Nat) :
    (x.map f g).labelAt address = x.labelAt address := by
  cases x <;> rfl

/-- Changing the operand of an element is changing how operands are valued. -/
@[simp] theorem Element.bytes_map (f : π → π') (g : ε → ε') (value : ε' → Option Int)
    (x : Element π ε) (address : Nat) :
    (x.map f g).bytes value address = x.bytes (fun e => value (g e)) address := by
  cases x with
  | instruction i a h place => cases a <;> rfl
  | _ => rfl

/-- Changing operands leaves the address behind a program as it is. -/
theorem extent_map (f : π → π') (g : ε → ε') (address : Nat) (xs : List (Element π ε)) :
    extent address (xs.map (Element.map f g)) = extent address xs := by
  induction xs generalizing address with
  | nil => rfl
  | cons x xs ih => rw [List.map_cons, extent, extent, Element.size_map, ih]

/-- The labels of a program do not depend on places and operands. -/
theorem labelsFrom_map (f : π → π') (g : ε → ε') (address : Nat) (xs : List (Element π ε)) :
    labelsFrom address (xs.map (Element.map f g)) = labelsFrom address xs := by
  induction xs generalizing address with
  | nil => rfl
  | cons x xs ih =>
    rw [List.map_cons, labelsFrom, labelsFrom, Element.size_map, Element.labelAt_map, ih]

/-- Targets of `.org` are literals, which a change leaves alone. -/
theorem Element.forward_map (f : π → π') (g : ε → ε') (x : Element π ε) (address : Nat) :
    (x.map f g).Forward address ↔ x.Forward address := by
  cases x <;> rfl

theorem Element.feasible_map (f : π → π') (g : ε → ε') (x : Element π ε) (address : Nat) :
    (x.map f g).Feasible address ↔ x.Feasible address := by
  cases x <;> rfl

/-- What holds throughout a program holds throughout the changed one, if it is carried over at each
address. The addresses are the same, since the sizes are. -/
theorem throughout_map {p : Nat → Element π ε → Prop} {q : Nat → Element π' ε' → Prop}
    {f : π → π'} {g : ε → ε'} (hpq : ∀ x address, q address (x.map f g) ↔ p address x)
    {address : Nat} {xs : List (Element π ε)} :
    Throughout q address (xs.map (Element.map f g)) ↔ Throughout p address xs := by
  induction xs generalizing address with
  | nil => rfl
  | cons x xs ih => rw [List.map_cons, Throughout, Throughout, Element.size_map, hpq, ih]

/-- The bytes of a changed program, under a valuation of the changed operands. -/
theorem bytesFrom_map (f : π → π') (g : ε → ε') (value : ε' → Option Int) (address : Nat)
    (xs : List (Element π ε)) :
    bytesFrom value address (xs.map (Element.map f g)) =
      bytesFrom (fun e => value (g e)) address xs := by
  induction xs generalizing address with
  | nil => rfl
  | cons x xs ih =>
    rw [List.map_cons, bytesFrom, bytesFrom, Element.size_map, Element.bytes_map, ih]

end Elements

/-! ### The symbols of an element -/

variable {ε : Type}

/-- The symbols of an argument, with its operand in its place. -/
def Argument.parts : Argument (Option Location) ε → List (Symbol ⊕ ε)
  | absent => []
  | marker text mode _ place =>
    [.inl ⟨if mode = .stack then .stack else .accumulator, text, none, place⟩]
  | immediate mark e => [.inl ⟨.immediate, "!", none, mark⟩, .inr e]
  | direct e => [.inr e]

namespace Element

/-- The symbols of an element, with its operand in its place. -/
def parts : Element (Option Location) ε → List (Symbol ⊕ ε)
  | label name place colon =>
    [.inl ⟨.identifier, name, none, place⟩, .inl (.ofOperator ":" colon)]
  | constant name place equals e =>
    [.inl ⟨.identifier, name, none, place⟩, .inl (.ofOperator "=" equals), .inr e]
  | instruction i a _ place => .inl ⟨.mnemonic, i.mnemonic, none, place⟩ :: a.parts
  | byte place e => [.inl ⟨.directive, ".byte", none, place⟩, .inr e]
  | reserve place n behind =>
    [.inl ⟨.directive, ".reserve", none, place⟩, .inl (n.symbol behind)]
  | origin place n behind => [.inl ⟨.directive, ".org", none, place⟩, .inl (n.symbol behind)]
  | string place letters behind =>
    [.inl ⟨.directive, ".string", none, place⟩, .inl (stringSymbol letters behind)]
  | data place n behind => [.inl ⟨.directive, ".data", none, place⟩, .inl (n.symbol behind)]

end Element

/-- Symbols and operands between them, when the operands are written in the given way. -/
def spread (write : ε → List Symbol) (parts : List (Symbol ⊕ ε)) : List Symbol :=
  parts.flatMap (Sum.elim (fun s => [s]) write)

@[simp] theorem spread_nil (write : ε → List Symbol) : spread write [] = [] := rfl

@[simp] theorem spread_inl (write : ε → List Symbol) (s : Symbol) (parts : List (Symbol ⊕ ε)) :
    spread write (.inl s :: parts) = s :: spread write parts := rfl

@[simp] theorem spread_inr (write : ε → List Symbol) (e : ε) (parts : List (Symbol ⊕ ε)) :
    spread write (.inr e :: parts) = write e ++ spread write parts := rfl

/-- The symbols of an element whose operand is written in the given way. -/
def Element.symbols (write : ε → List Symbol) (x : Element (Option Location) ε) : List Symbol :=
  spread write x.parts

end RomAsm
