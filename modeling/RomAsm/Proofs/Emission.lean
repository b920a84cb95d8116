import RomAsm.Proofs.Placement
import RomAsm.Proofs.Generating

/-!
# Laying down bytes

The second pass encodes the statements of a resolved program. `Lays` says of a computation that it
ends with a result and which bytes it has laid down on its way; a sequence lays down what its parts
lay down, one after the other (`lays_bind`). So each function of the pass has one lemma, about its
own bytes, and none of them has to look at the events of a trace or at warnings, which lay down
nothing.

`Element.lays` is the lemma about a statement, and `encode_elements`, by induction, the one about a
program: where all operands are numbers, the bytes are those that the elements stand for.
-/

namespace RomAsm

/-! ### Fields -/

namespace Field

open DataLiteral (bytesOfHex)
open Numeral (hexDigit)

/-- A number that is reduced to some bits has no more of them. -/
theorem truncate_lt (n : Int) (bits : Nat) : truncate n bits < 1 <<< bits := by
  have hpos : (0 : Int) < (1 <<< bits : Nat) := by
    rw [Nat.one_shiftLeft]
    exact_mod_cast Nat.two_pow_pos bits
  -- the remainder lies between zero and the power of two
  have hlt := Int.emod_lt_of_pos n hpos
  have hnonneg := Int.emod_nonneg n hpos.ne'
  rw [truncate]
  omega

/-- The digits of an immediate field, the high one first. -/
theorem toList_immediateText (n : Int) : (immediateText n).toList =
    [truncate n immediateBits / 16 % 16, truncate n immediateBits % 16].map hexDigit := by
  rw [immediateText, String.toList_ofList]
  rfl

/-- The digits of an address field. If the number is `a b c d` in hexadecimal, they are
`c d a b`. -/
theorem toList_addressText (n : Int) : (addressText n).toList =
    [truncate n addressBits / 16 % 16, truncate n addressBits % 16,
      truncate n addressBits / 4096 % 16, truncate n addressBits / 256 % 16].map hexDigit := by
  rw [addressText, String.toList_ofList]
  generalize truncate n addressBits = k
  have hlow : k % 256 / 16 % 16 = k / 16 % 16 := by omega
  have hlast : k % 256 % 16 = k % 16 := by omega
  have hfirst : k / 256 / 16 = k / 4096 := Nat.div_div_eq_div_mul k 256 16
  simp only [Numeral.hexDigits, List.nil_append, List.cons_append, List.map_cons, List.map_nil,
    hlow, hlast, hfirst]

/-- Two digits in front of others make one byte in front of theirs. -/
theorem pairs_cons_hexDigit {high low : Nat} (hhigh : high < 16) (hlow : low < 16)
    {rest : List Char} {bytes : List UInt8} (h : DataLiteral.pairs rest = .ok bytes) :
    DataLiteral.pairs (hexDigit high :: hexDigit low :: rest) =
      .ok (UInt8.ofNat (16 * high + low) :: bytes) := by
  rw [DataLiteral.pairs, DataLiteral.byteOf_hexDigit hhigh hlow, h]
  rfl

/-- **The digits of an immediate field** spell the value modulo its width. -/
theorem bytesOfHex_immediateText (n : Int) :
    bytesOfHex (immediateText n).toList = .ok [UInt8.ofNat (truncate n immediateBits)] := by
  have hlt : truncate n immediateBits < 256 := truncate_lt n immediateBits
  rw [toList_immediateText, bytesOfHex, if_neg (by simp)]
  generalize truncate n immediateBits = k at hlt ⊢
  have hbyte : 16 * (k / 16 % 16) + k % 16 = k := by omega
  refine (pairs_cons_hexDigit (by omega) (by omega) rfl).trans ?_
  rw [hbyte]

/-- **The digits of an address field** spell the value modulo its width, low byte first. -/
theorem bytesOfHex_addressText (n : Int) :
    bytesOfHex (addressText n).toList = .ok
      [UInt8.ofNat (truncate n addressBits % 256), UInt8.ofNat (truncate n addressBits / 256)] := by
  have hlt : truncate n addressBits < 65536 := truncate_lt n addressBits
  rw [toList_addressText, bytesOfHex, if_neg (by simp)]
  -- all that matters of the number is that it is below `2 ^ 16`
  generalize truncate n addressBits = k at hlt ⊢
  have hlow : 16 * (k / 16 % 16) + k % 16 = k % 256 := by omega
  have hhigh : 16 * (k / 4096 % 16) + k / 256 % 16 = k / 256 := by omega
  refine (pairs_cons_hexDigit (by omega) (by omega)
    (pairs_cons_hexDigit (by omega) (by omega) rfl)).trans ?_
  rw [hlow, hhigh]

theorem immediate_eq_truncate (n : Int) :
    immediate n = [UInt8.ofNat (truncate n immediateBits)] := by
  rw [immediate, bytesOfDigits, bytesOfHex_immediateText]

theorem address_eq_truncate (n : Int) : address n =
    [UInt8.ofNat (truncate n addressBits % 256), UInt8.ofNat (truncate n addressBits / 256)] := by
  rw [address, bytesOfDigits, bytesOfHex_addressText]

/-- The byte of an immediate field is the value modulo `2 ^ 8`. -/
theorem immediate_eq (n : Int) : immediate n = [UInt8.ofInt n] := immediate_eq_truncate n

/-- For a number without a sign it is the lowest byte. -/
theorem immediate_natCast (n : Nat) : immediate n = [UInt8.ofNat n] := by
  have hbyte : ((n : Int) % 2 ^ 8).toNat = n % 256 := by omega
  rw [immediate_eq_truncate]
  change [UInt8.ofNat ((n : Int) % 2 ^ 8).toNat] = _
  rw [hbyte, UInt8.ofNat_mod_size]

/-- The bytes of an address field are the two lowest of the value, low byte first. -/
theorem address_eq (n : Int) : address n = [UInt8.ofInt n, UInt8.ofInt (n / 256)] := by
  have hlow : (n % 2 ^ 16).toNat % 256 = (n % 256).toNat := by omega
  have hhigh : (n % 2 ^ 16).toNat / 256 = (n / 256 % 256).toNat := by omega
  rw [address_eq_truncate]
  change [UInt8.ofNat ((n % 2 ^ 16).toNat % 256), UInt8.ofNat ((n % 2 ^ 16).toNat / 256)] = _
  rw [hlow, hhigh]
  rfl

end Field

/-- A run of bytes has a largest length, and only that stands in the way of zeros. -/
theorem Excess.ofBytes?_eq_none_iff {n : Nat} : ofBytes? n = none ↔ n + 33 < 2 ^ 63 := by
  have hindex : indexLimit = 2 ^ 63 := rfl
  have hoverhead : runOverhead = 33 := rfl
  unfold ofBytes?
  rw [hindex, hoverhead]
  split
  · exact iff_of_false nofun (by omega)
  · split
    · exact iff_of_false nofun (by omega)
    · exact iff_of_true rfl (by omega)

/-- Whether a symbol stands at a place that can be written in a message. -/
def Symbol.IsLocated (s : Symbol) : Prop :=
  ∃ l : Location, l.isWritable = true ∧ s.location = some l

namespace Generation

/-! ### Computations that lay down bytes -/

/-- A computation ends with a result, and lays down the given bytes on its way. -/
structure Lays {α : Type} (t : Emission α) (bytes : List UInt8) (a : α) : Prop where
  outcome : t.outcome = .ok a
  laid : t.entries.flatMap Event.laidDown = bytes

section Lays

variable {α β : Type} {bytes : List UInt8}

theorem lays_pure {a b : α} : Lays (pure a) bytes b ↔ a = b ∧ bytes = [] :=
  ⟨fun h => ⟨Except.ok.inj h.outcome, h.laid.symm⟩,
    fun ⟨ha, hbytes⟩ => ⟨congrArg _ ha, hbytes.symm⟩⟩

theorem lays_liftM {x : Except Failure α} {a : α} :
    Lays (liftM x : Emission α) bytes a ↔ x = .ok a ∧ bytes = [] :=
  ⟨fun h => ⟨h.outcome, h.laid.symm⟩, fun ⟨hx, hbytes⟩ => ⟨hx, hbytes.symm⟩⟩

theorem lays_emit {bytes' : List UInt8} : Lays (emit bytes') bytes () ↔ bytes' = bytes := by
  have hlaid : (emit bytes').entries.flatMap Event.laidDown = bytes' := List.append_nil bytes'
  exact ⟨fun h => hlaid.symm.trans h.laid, fun h => ⟨rfl, hlaid.trans h⟩⟩

theorem lays_record {r : Record} : Lays (Trace.write (.record r)) bytes () ↔ bytes = [] :=
  ⟨fun h => h.laid.symm, fun h => ⟨rfl, h.symm⟩⟩

theorem not_lays_throw {failure : Failure} {a : α} :
    ¬ Lays (throw failure : Emission α) bytes a := by
  rintro ⟨h, -⟩
  cases h

/-- **A sequence** lays down what its parts lay down. -/
theorem lays_bind {t : Emission α} {f : α → Emission β} {b : β} :
    Lays (t >>= f) bytes b ↔ ∃ a first second, Lays t first a ∧ Lays (f a) second b ∧
      bytes = first ++ second := by
  constructor
  · rintro ⟨houtcome, hlaid⟩
    obtain ⟨a, ha, hb⟩ := Trace.outcome_bind_eq_ok.1 houtcome
    rw [Trace.entries_bind, ha, List.flatMap_append] at hlaid
    exact ⟨a, _, _, ⟨ha, rfl⟩, ⟨hb, rfl⟩, hlaid.symm⟩
  · rintro ⟨a, first, second, ⟨ha, hfirst⟩, ⟨hb, hsecond⟩, rfl⟩
    refine ⟨Trace.outcome_bind_eq_ok.2 ⟨a, ha, hb⟩, ?_⟩
    rw [Trace.entries_bind, ha, List.flatMap_append, hfirst]
    exact congrArg _ hsecond

/-- Looking something up lays down nothing. -/
theorem lays_liftM_bind {x : Except Failure α} {f : α → Emission β} {b : β} :
    Lays (liftM x >>= f) bytes b ↔ ∃ a, x = .ok a ∧ Lays (f a) bytes b := by
  rw [lays_bind]
  constructor
  · rintro ⟨a, first, second, hfirst, hsecond, rfl⟩
    obtain ⟨hx, rfl⟩ := lays_liftM.1 hfirst
    exact ⟨a, hx, hsecond⟩
  · rintro ⟨a, hx, hf⟩
    exact ⟨a, [], bytes, lays_liftM.2 ⟨hx, rfl⟩, hf, rfl⟩

theorem Lays.andThen {t : Emission α} {f : α → Emission β} {a : α} {b : β}
    {first second : List UInt8} (ht : Lays t first a) (hf : Lays (f a) second b) :
    Lays (t >>= f) (first ++ second) b :=
  lays_bind.2 ⟨a, first, second, ht, hf, rfl⟩

/-- A second part that lays down nothing does not change the bytes. -/
theorem Lays.ending {t : Emission α} {f : α → Emission β} {a : α} {b : β} (ht : Lays t bytes a)
    (hf : Lays (f a) [] b) : Lays (t >>= f) bytes b := by
  rw [← List.append_nil bytes]
  exact ht.andThen hf

/-- A first part that only looks something up lays down nothing. -/
theorem Lays.lift {x : Except Failure α} {f : α → Emission β} {a : α} {b : β} (hx : x = .ok a)
    (hf : Lays (f a) bytes b) : Lays (liftM x >>= f) bytes b :=
  (lays_liftM.2 ⟨hx, rfl⟩).andThen hf

end Lays

/-! ### Values and zeros -/

/-- A place can be written in a message. -/
theorem placeText_eq {s : Symbol} (h : s.IsLocated) : ∃ text, placeText s.location = .ok text := by
  obtain ⟨l, hl, hlocation⟩ := h
  refine ⟨l.text ++ ": ", ?_⟩
  rw [hlocation, placeText, Location.written, if_pos hl]
  rfl

/-- A warning lays down nothing. -/
theorem lays_report (problem : Problem) {operand : Symbol} (h : operand.IsLocated) :
    Lays (report false problem operand) [] () := by
  obtain ⟨text, htext⟩ := placeText_eq h
  have hwarning : warning problem operand =
      .ok ⟨.warning, text ++ problem.message ++ "; truncated"⟩ := by
    rw [warning, htext]
    rfl
  exact .lift hwarning (lays_record.2 rfl)

/-- A value is checked for its range, which may bring a warning but no bytes. -/
theorem lays_inRange {operand : Symbol} {n : Int} (hvalue : operand.value = some n)
    (hn : Numeral.isWritable n = true) (h : operand.IsLocated) (bits : Nat) :
    Lays (inRange false operand bits) [] n := by
  unfold inRange
  rw [hvalue]
  dsimp only
  -- the value fits, or a warning with the value in it is logged
  split
  · exact lays_pure.2 ⟨rfl, rfl⟩
  · exact .lift (numeral_eq_ok hn) ((lays_report _ h).andThen (lays_pure.2 ⟨rfl, rfl⟩))

/-- Zeros are laid down if there are no more of them than a run of bytes can have. -/
theorem lays_emitZeros {count : Nat} (h : count + 33 < 2 ^ 63) :
    Lays (emitZeros count) (List.replicate count 0) () := by
  unfold emitZeros
  rw [Excess.ofBytes?_eq_none_iff.2 h]
  exact lays_emit.2 rfl

/-- Each character of a string is reduced to a byte. -/
theorem lays_characters {operand : Symbol} (h : operand.IsLocated) (text : List Char) :
    Lays (characters false operand text) (text.map fun c => UInt8.ofNat c.toNat) () := by
  induction text with
  | nil => exact lays_pure.2 ⟨rfl, rfl⟩
  | cons c text ih =>
    -- a character that does not fit is reported first, and then reduced all the same
    have hbyte : Lays (do emit (Field.immediate c.toNat); characters false operand text)
        ((c :: text).map fun c => UInt8.ofNat c.toNat) () := by
      rw [Field.immediate_natCast]
      exact (lays_emit.2 rfl).andThen ih
    unfold characters
    split
    · exact (lays_report _ h).andThen hbyte
    · exact hbyte

end Generation

open Generation

/-! ### One statement -/

/-- An operand is a number that can be written. -/
def Tree.IsSettled (t : Tree) : Prop := ∃ n, t.value? = some n ∧ Numeral.isWritable n = true

/-- What begins an element is no marker. -/
theorem isMarked_of_absent {rest : List Symbol} (h : Operand.absent rest = true)
    (mode : Machine.Mode) : isMarked mode rest = .ok false := by
  cases rest with
  | nil => rfl
  | cons s rest =>
    -- an element begins with a mnemonic, a directive or a name
    have hkind : s.kind = .mnemonic ∨ s.kind = .directive ∨ s.kind = .identifier := by
      simp only [Operand.absent, Symbol.startsStatement, Symbol.isIdentifier, Bool.or_eq_true,
        Bool.and_eq_true, beq_iff_eq] at h
      rcases h with (h | h) | h
      · exact .inl h
      · exact .inr (.inl h)
      · exact .inr (.inr h.1)
    have hmode : s.mode? = .ok none := by
      rcases hkind with h | h | h <;> rw [Symbol.mode?, h]
    rw [isMarked, hmode]
    rfl

/-- An instruction lays down its opcode and the bytes of its operand. -/
theorem Argument.lays {i : Machine.Instruction} {a : Argument (Option Location) Tree}
    (h : Machine.instruction? i.mnemonic (a.mode i.mnemonic) = some i) (place : Option Location)
    (hoperand : ∀ t ∈ a.operand?, t.IsSettled)
    (hlocated : ∀ s ∈ spread Tree.symbols a.parts, s.IsLocated) {rest : List Symbol}
    (hrest : Operand.absent rest = true) :
    ∃ bytes, a.bytes Tree.value? = some bytes ∧
      Lays (instruction false ⟨.mnemonic, i.mnemonic, none, place⟩
        (spread Tree.symbols a.parts ++ rest)) (i.opcode :: bytes)
        (spread Tree.symbols a.parts).length := by
  have hmode := a.mode_eq h place hrest
  have hinstruction := a.instruction_eq h place hrest
  have hopcode : Lays (emit [i.opcode]) [i.opcode] () := lays_emit.2 rfl
  cases a with
  | absent =>
    refine ⟨[], rfl, .lift hmode (.lift hinstruction (hopcode.andThen ?_))⟩
    -- the accumulator may be named, and what follows does not name it
    by_cases halu : Machine.isAlu i.mnemonic = true
    · have hselected : mode (π := Option Location) (ε := Tree) i.mnemonic .absent = .accumulator :=
        if_pos halu
      rw [hselected]
      exact .lift (isMarked_of_absent hrest _) (lays_pure.2 ⟨rfl, rfl⟩)
    · have hselected : mode (π := Option Location) (ε := Tree) i.mnemonic .absent = .inherent :=
        if_neg halu
      rw [hselected]
      exact lays_pure.2 ⟨rfl, rfl⟩
  | marker text mode hmarker mark =>
    -- the marker is taken from the stream, but lays down nothing
    have hmarked : isMarked mode (spread Tree.symbols (parts (.marker text mode hmarker mark)) ++
        rest) = .ok true := by
      change Except.map _ (Symbol.mode? _) = _
      rw [Symbol.mode?_marker hmarker mark]
      exact congrArg Except.ok (beq_self_eq_true (some mode))
    have hmodes : mode = .accumulator ∨ mode = .stack := by
      have hall : ∀ m ∈ Machine.markers, m.2 = .accumulator ∨ m.2 = .stack := by decide
      exact hall (text, mode) (Table.mem_of_get? hmarker)
    refine ⟨[], rfl, .lift hmode (.lift hinstruction (hopcode.andThen ?_))⟩
    rcases hmodes with rfl | rfl
    · exact .lift hmarked (lays_pure.2 ⟨rfl, rfl⟩)
    · exact .lift hmarked (lays_pure.2 ⟨rfl, rfl⟩)
  | immediate mark t =>
    -- the operand is settled, so its tree is a literal
    obtain ⟨n, hvalue, hn⟩ := hoperand t rfl
    obtain ⟨text, start, rfl⟩ := Tree.eq_literal_of_value? hvalue
    refine ⟨[UInt8.ofInt n], by rw [bytes, hvalue]; rfl,
      .lift hmode (.lift hinstruction (hopcode.andThen ?_))⟩
    have hlocated := hlocated ⟨.integer, text, some n, start⟩
      (List.mem_cons_of_mem _ List.mem_cons_self)
    refine .lift rfl ((lays_inRange rfl hn hlocated _).andThen ?_)
    exact (lays_emit.2 (Field.immediate_eq n)).andThen (lays_pure.2 ⟨rfl, rfl⟩)
  | direct t =>
    obtain ⟨n, hvalue, hn⟩ := hoperand t rfl
    obtain ⟨text, start, rfl⟩ := Tree.eq_literal_of_value? hvalue
    refine ⟨[UInt8.ofInt n, UInt8.ofInt (n / 256)], by rw [bytes, hvalue]; rfl,
      .lift hmode (.lift hinstruction (hopcode.andThen ?_))⟩
    have hlocated := hlocated ⟨.integer, text, some n, start⟩ List.mem_cons_self
    refine .lift rfl ((lays_inRange rfl hn hlocated _).andThen ?_)
    exact (lays_emit.2 (Field.address_eq n)).andThen (lays_pure.2 ⟨rfl, rfl⟩)

/-- A statement adds a line to the listing of what is encoded. -/
theorem lays_statement {address taken : Nat} {s : Symbol} {following : List Symbol}
    {bytes : List UInt8} (hs : s.IsLocated)
    (h : Lays (encode false address s following) bytes taken) :
    Lays (statement false address s following) bytes taken := by
  obtain ⟨l, hl, hlocation⟩ := hs
  have hline : numeral ((s.location.map (·.line)).getD 0) = .ok (Numeral.decimal l.line) := by
    rw [hlocation]
    exact numeral_eq_ok (Bool.and_eq_true_iff.1 hl).1
  exact h.ending (.lift hline (lays_pure.2 ⟨rfl, rfl⟩))

/-- A directive takes the symbol behind it. -/
theorem lays_directive {address : Nat} {s : Symbol} {following : List Symbol} {bytes : List UInt8}
    (hkind : s.kind = .directive) (h : Lays (directive false address s following) bytes ()) :
    Lays (encode false address s following) bytes 1 := by
  unfold encode
  rw [hkind]
  exact h.ending (lays_pure.2 ⟨rfl, rfl⟩)

/-- **One statement** lays down the bytes that it stands for, and takes just its own symbols. -/
theorem Element.lays {x : Element (Option Location) Tree} (hx : x.isStatement = true)
    {address : Nat} (hforward : x.Forward address) (hfeasible : x.Feasible address)
    (hoperand : ∀ t ∈ x.operand?, t.IsSettled)
    (hlocated : ∀ s ∈ x.symbols Tree.symbols, s.IsLocated) {rest : List Symbol}
    (hrest : Operand.absent rest = true) :
    ∃ head tail bytes, x.symbols Tree.symbols = head :: tail ∧
      x.bytes Tree.value? address = some bytes ∧
      Lays (statement false address head (tail ++ rest)) bytes tail.length := by
  cases x with
  | label name place colon => cases hx
  | constant name place equals t => cases hx
  | instruction i a h place =>
    obtain ⟨hhead, htail⟩ := List.forall_mem_cons.1 hlocated
    obtain ⟨bytes, hbytes, hlays⟩ := a.lays h place hoperand htail hrest
    refine ⟨_, _, i.opcode :: bytes, rfl, ?_, lays_statement hhead hlays⟩
    rw [Element.bytes, hbytes]
    rfl
  | byte place t =>
    obtain ⟨n, hvalue, hn⟩ := hoperand t rfl
    obtain ⟨text, start, rfl⟩ := Tree.eq_literal_of_value? hvalue
    obtain ⟨hhead, htail⟩ := List.forall_mem_cons.1 hlocated
    refine ⟨_, _, [UInt8.ofInt n], rfl, rfl, lays_statement hhead (lays_directive rfl ?_)⟩
    refine .lift rfl ((lays_inRange rfl hn (htail _ List.mem_cons_self) _).andThen ?_)
    exact lays_emit.2 (Field.immediate_eq n)
  -- the count is a literal, which was read before and is read again here
  | reserve place n behind =>
    obtain ⟨hhead, -⟩ := List.forall_mem_cons.1 hlocated
    refine ⟨_, _, List.replicate n.value 0, rfl, rfl, lays_statement hhead (lays_directive rfl ?_)⟩
    exact .lift (Operand.reserve_symbol _ n behind rest) (lays_emitZeros hfeasible)
  | origin place n behind =>
    obtain ⟨hhead, -⟩ := List.forall_mem_cons.1 hlocated
    refine ⟨_, _, List.replicate (n.value - address) 0, rfl, rfl,
      lays_statement hhead (lays_directive rfl ?_)⟩
    refine .lift (Operand.origin_symbol _ n behind rest) ?_
    -- the target lies ahead, so the zeros up to there are laid down
    rw [if_neg (Nat.not_lt.2 hforward)]
    exact lays_emitZeros hfeasible
  | string place letters behind =>
    obtain ⟨hhead, htail⟩ := List.forall_mem_cons.1 hlocated
    refine ⟨_, _, letters.map (fun l => UInt8.ofNat l.char.toNat) ++ [0], rfl, rfl,
      lays_statement hhead (lays_directive rfl ?_)⟩
    refine .lift (Operand.string_symbol _ letters behind rest)
      (.lift (a := stringSymbol letters behind) rfl ?_)
    -- the characters are those that the letters stand for
    have hcharacters := lays_characters (htail _ List.mem_cons_self) (letters.map Letter.char)
    rw [String.toList_ofList]
    rw [List.map_map] at hcharacters
    exact hcharacters.andThen (lays_emit.2 rfl)
  | data place n behind =>
    obtain ⟨hhead, -⟩ := List.forall_mem_cons.1 hlocated
    refine ⟨_, _, n.literal.bytes, rfl, rfl, lays_statement hhead (lays_directive rfl ?_)⟩
    have hencode : (DataLiteral.encode (n.symbol behind).text).mapError Failure.numeral =
        .ok n.literal.bytes := by
      have hliteral : DataLiteral.encode n.text = .ok n.literal.bytes :=
        DataLiteral.encode_literal n.spelled
      exact congrArg (Except.mapError Failure.numeral) hliteral
    exact .lift (Operand.data_symbol _ n behind rest) (.lift hencode (lays_emit.2 rfl))

/-! ### A whole program -/

/-- **One step of the pass**: a statement that is laid down is followed by the encoding of the
rest. -/
theorem Generation.encodeFrom_cons {strict : Bool} {address taken : Nat} {s : Symbol}
    {following : List Symbol} {bytes : List UInt8}
    (h : Lays (statement strict address s following) bytes taken) :
    encodeFrom strict address (s :: following) =
      let later := encodeFrom strict (address + bytes.length) (following.drop taken)
      ⟨⟨address, bytes, s :: following.take taken⟩ :: later.statements, later.fragment,
        (statement strict address s following).entries.filterMap Event.record? ++ later.records,
        later.outcome⟩ := by
  rw [encodeFrom, h.outcome, h.laid]

/-- **Encoding.** Where all operands are numbers, the statements of a program lay down the bytes
that they stand for. -/
theorem encode_elements {xs : List (Element (Option Location) Tree)} {address : Nat}
    (hstatement : ∀ x ∈ xs, x.isStatement = true)
    (hforward : Throughout Element.Forward address xs)
    (hfeasible : Throughout Element.Feasible address xs)
    (hoperand : ∀ x ∈ xs, ∀ t ∈ x.operand?, t.IsSettled)
    (hlocated : ∀ s ∈ xs.flatMap (Element.symbols Tree.symbols), s.IsLocated) :
    ∃ statements records,
      encodeFrom false address (xs.flatMap (Element.symbols Tree.symbols)) =
        ⟨statements, [], records, .ok ()⟩ ∧
      bytesFrom Tree.value? address xs = some (statements.flatMap (·.bytes)) := by
  induction xs generalizing address with
  | nil =>
    refine ⟨[], [], ?_, rfl⟩
    rw [List.flatMap_nil, encodeFrom]
  | cons x xs ih =>
    -- what follows an element begins another, so it is no operand
    have hrest := absent_elements Tree.symbols xs
    rw [List.flatMap_cons] at hlocated ⊢
    obtain ⟨head, tail, bytes, hsymbols, hbytes, hlays⟩ := x.lays
      (hstatement x List.mem_cons_self) hforward.1 hfeasible.1 (hoperand x List.mem_cons_self)
      (fun s hs => hlocated s (List.mem_append_left _ hs)) hrest
    obtain ⟨statements, records, hlater, hmore⟩ := ih
      (fun y hy => hstatement y (List.mem_cons_of_mem _ hy)) hforward.2 hfeasible.2
      (fun y hy => hoperand y (List.mem_cons_of_mem _ hy))
      (fun s hs => hlocated s (List.mem_append_right _ hs))
    -- the next statement stands behind the bytes of this one, which are as many as its size
    rw [← x.length_bytes hbytes] at hlater hmore
    rw [hsymbols, List.cons_append, encodeFrom_cons hlays, List.drop_left, hlater]
    refine ⟨_, _, rfl, ?_⟩
    rw [bytesFrom, hbytes, ← x.length_bytes hbytes, hmore]
    rfl

/-! ### Zeros that cannot be made -/

/-- A directive that fails is a statement that fails. -/
theorem Generation.outcome_statement_of_error {address : Nat} {s : Symbol}
    {following : List Symbol} {failure : Failure} (hkind : s.kind = .directive)
    (h : (directive false address s following).outcome = .error failure) :
    (statement false address s following).outcome = .error failure := by
  have hencode : (encode false address s following).outcome = .error failure := by
    unfold encode
    rw [hkind]
    dsimp only
    rw [Trace.outcome_bind, h]
    rfl
  rw [statement, Trace.outcome_bind, hencode]
  rfl

/-- An element that asks for too many zeros ends the run. -/
theorem Element.excess_of_not_feasible {x : Element (Option Location) Tree} {address : Nat}
    (hforward : x.Forward address) (h : ¬ x.Feasible address) (rest : List Symbol) :
    ∃ head tail e, x.symbols Tree.symbols = head :: tail ∧
      (statement false address head (tail ++ rest)).outcome = .error (.excess e) := by
  -- what cannot be made is found out before any of it is laid down
  have hzeros {count : Nat} (h : ¬ count + 33 < 2 ^ 63) :
      ∃ e, (emitZeros count).outcome = .error (.excess e) := by
    obtain ⟨e, he⟩ := Option.ne_none_iff_exists.1 (mt Excess.ofBytes?_eq_none_iff.1 h)
    refine ⟨e, ?_⟩
    unfold emitZeros
    rw [← he]
    rfl
  cases x with
  | reserve place n behind =>
    obtain ⟨e, he⟩ := hzeros h
    refine ⟨_, _, e, rfl, outcome_statement_of_error rfl ?_⟩
    change (liftM (Operand.reserve _ (n.symbol behind :: rest)) >>= emitZeros).outcome = _
    rw [Operand.reserve_symbol]
    exact he
  | origin place n behind =>
    obtain ⟨e, he⟩ := hzeros h
    refine ⟨_, _, e, rfl, outcome_statement_of_error rfl ?_⟩
    change Trace.outcome (ω := Event) (liftM (Operand.origin _ (n.symbol behind :: rest)) >>= _) = _
    rw [Operand.origin_symbol, Trace.outcome_bind, Trace.outcome_liftM, Trace.except_ok_bind,
      if_neg (Nat.not_lt.2 hforward)]
    exact he
  | _ => exact absurd trivial h

/-- **Only zeros can be too many.** If an element of a program asks for more of them than can be
made, the program is not encoded. -/
theorem encode_infeasible {xs : List (Element (Option Location) Tree)} {address : Nat}
    (hstatement : ∀ x ∈ xs, x.isStatement = true)
    (hforward : Throughout Element.Forward address xs)
    (hfeasible : ¬ Throughout Element.Feasible address xs)
    (hoperand : ∀ x ∈ xs, ∀ t ∈ x.operand?, t.IsSettled)
    (hlocated : ∀ s ∈ xs.flatMap (Element.symbols Tree.symbols), s.IsLocated) :
    ∃ e, (encodeFrom false address (xs.flatMap (Element.symbols Tree.symbols))).outcome =
      .error (.excess e) := by
  induction xs generalizing address with
  | nil => exact absurd trivial hfeasible
  | cons x xs ih =>
    have hrest := absent_elements Tree.symbols xs
    rw [List.flatMap_cons] at hlocated ⊢
    by_cases hx : x.Feasible address
    · -- this element is encoded, and the excess comes later
      obtain ⟨head, tail, bytes, hsymbols, hbytes, hlays⟩ := x.lays
        (hstatement x List.mem_cons_self) hforward.1 hx (hoperand x List.mem_cons_self)
        (fun s hs => hlocated s (List.mem_append_left _ hs)) hrest
      obtain ⟨e, he⟩ := ih (fun y hy => hstatement y (List.mem_cons_of_mem _ hy)) hforward.2
        (fun hlater => hfeasible ⟨hx, hlater⟩)
        (fun y hy => hoperand y (List.mem_cons_of_mem _ hy))
        (fun s hs => hlocated s (List.mem_append_right _ hs))
      refine ⟨e, ?_⟩
      rw [← x.length_bytes hbytes] at he
      rw [hsymbols, List.cons_append, encodeFrom_cons hlays, List.drop_left]
      exact he
    · -- it is this element that asks for too much
      obtain ⟨head, tail, e, hsymbols, houtcome⟩ := x.excess_of_not_feasible hforward.1 hx
        (xs.flatMap (Element.symbols Tree.symbols))
      refine ⟨e, ?_⟩
      rw [hsymbols, List.cons_append, encodeFrom, houtcome]

end RomAsm
