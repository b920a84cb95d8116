import RomAsm.Operand

/-!
# Statements by index

A statement of a stream can be given by the index of its first symbol. A negative index counts from
the end of the stream. Behind such a site the single symbols go on at the beginning of the stream; a
run of symbols is cut out between two indices, each of which counts from the end if it is negative,
and so does not go round.

For an index that is not negative, all of this comes to the symbols behind the first one
(`cut_ofNat`, `behind_ofNat`).
-/

namespace RomAsm

/-- The items of a list from one index up to another; a negative index counts from the end. -/
def cut {α : Type} (items : List α) (start stop : Int) : List α :=
  (items.take (place stop)).drop (place start)
where
  /-- The number of items before an index. -/
  place (i : Int) : Nat := (if i < 0 then items.length + i else i).toNat

/-- Between indices that are not negative, the items are the ones that stand there. -/
theorem cut_ofNat {α : Type} (items : List α) (start stop : Nat) :
    cut items start stop = (items.take stop).drop start := by
  -- such an index is the number of items before it
  have place (i : Nat) : cut.place items i = i := by
    unfold cut.place
    rw [if_neg (by omega)]
    exact Int.toNat_natCast i
  unfold cut
  rw [place, place]

/-- The first symbol of a statement, and what is found behind it. -/
structure Site where
  head : Symbol
  /-- The symbols behind the first one. -/
  following : List Symbol
  /-- The literal with a minus sign that the operand may be. -/
  negated : Except Failure (Option Symbol)
  /-- The spelling of the operand. -/
  spelling : String

namespace Site

/-- The symbols behind an index. -/
def behind (symbols : List Symbol) (index : Int) : List Symbol :=
  if index < 0 then symbols.drop (symbols.length + index + 1).toNat ++ symbols
  else symbols.drop (index + 1).toNat

/-- Behind an index that is not negative stand the later symbols. -/
theorem behind_ofNat (symbols : List Symbol) (index : Nat) :
    behind symbols index = symbols.drop (index + 1) := by
  unfold behind
  rw [if_neg (by omega)]
  rfl

/-- The spelling of the operand behind an index. -/
def spellingBehind (symbols : List Symbol) (index : Int) : String :=
  match behind symbols index with
  | [] => ""
  | s :: rest =>
    if s.isOpen then
      let run := (Operand.balanced 0 (s :: rest)).length
      spelled (cut symbols (index + 1) (index + 1 + run))
    else s.text

/-- The symbol at an index. -/
def symbolAt (symbols : List Symbol) (index : Int) : Except Failure Symbol :=
  if index < -Excess.indexLimit ∨ Excess.indexLimit ≤ index then .error .noIndex
  else if index < -symbols.length then .error .noSymbol
  else match (cut symbols index symbols.length).head? with
    | some s => .ok s
    | none => .error .noSymbol

/-- The statement that begins at an index. -/
def ofIndex (symbols : List Symbol) (index : Int) : Except Failure Site := do
  return {
    head := ← symbolAt symbols index
    following := behind symbols index
    negated := Operand.negated? (cut symbols (index + 1) (index + 6))
    spelling := spellingBehind symbols index }

/-- The addressing mode of the mnemonic. -/
def mode (s : Site) : Except Failure Machine.Mode := Operand.mode s.head s.following

/-- The instruction that the mnemonic and its operand stand for. -/
def instruction (s : Site) : Except Failure Machine.Instruction :=
  Operand.instruction s.head s.following

/-- The first symbol of the directive's operand. -/
def first (s : Site) : Except Failure Symbol := Operand.first s.head s.following

/-- The directive's operand, which must be a literal. -/
def literal (s : Site) : Except Failure Symbol :=
  Operand.literalOr s.head s.following s.negated s.spelling

/-- The text of the operand of `.string`. -/
def string (s : Site) : Except Failure String := Operand.string s.head s.following

/-- The literal of `.data`. -/
def data (s : Site) : Except Failure Symbol := do
  let operand ← s.literal
  let _ ← Operand.nonNegative .negativeData operand
  return operand

/-- The number of bytes of `.reserve`. -/
def reserve (s : Site) : Except Failure Nat := do
  Operand.nonNegative .negativeReserve (← s.literal)

/-- The address of `.org`. -/
def origin (s : Site) : Except Failure Nat := do
  Operand.nonNegative .negativeOrigin (← s.literal)

end Site

end RomAsm
