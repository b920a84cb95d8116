import Mathlib
import RomAsm.Proofs.Decoding
import RomAsm.Proofs.Tiling

/-!
# A label between two statements

The two passes find out in different ways how long a statement is. The first computes a size: from
the table of instructions, the length of a text, the digits of a literal or the target of `.org`.
The second lays down bytes. On the stream that the second pass encodes they agree
(`step_of_encode`).

With a label in that stream the first pass does not see the same symbols behind a head any more: a
name may stand there instead of the next statement. But a head is read with the one symbol behind
it, if that can be an operand at all, and what follows makes no difference (`SameOperand.step_eq`).
So the counter passes over the statements of any run with their bytes (`Encoding.placeFrom_eq`), and
a label at any of its boundaries has the number of bytes before it as its address
(`place_label_at_boundary`).
-/

namespace RomAsm

open Layout Generation

/-! ### What a head is read with -/

/-- Two streams behind a head that both begin no operand, or that begin with the same symbol, which
is neither a name nor an operator. -/
inductive SameOperand : List Symbol → List Symbol → Prop where
  | absent {a b : List Symbol} (ha : Operand.absent a = true) (hb : Operand.absent b = true) :
      SameOperand a b
  | present {t : Symbol} (ht : t.isInert = true) (a b : List Symbol) : SameOperand (t :: a) (t :: b)

namespace Operand

/-- A symbol that is neither a name nor an operator is an operand unless it begins a statement. -/
theorem absent_of_isInert {t : Symbol} (ht : t.isInert = true) (rest : List Symbol) :
    absent (t :: rest) = t.startsStatement :=
  absent_of_not_isIdentifier (Symbol.isIdentifier_of_isInert ht) rest

/-- Where there is no operand, the directive reports that it is missing. -/
theorem first_of_absent {following : List Symbol} (h : absent following = true)
    (directive : Symbol) : first directive following = first.missing directive := by
  rw [first, h]
  cases following.head? <;> rfl

/-- A single symbol is no group. -/
theorem negated?_of_isInert {t : Symbol} (ht : t.isInert = true) (rest : List Symbol) :
    negated? (t :: rest) = .ok none := by
  have hopen : t.isOpen = false := Symbol.isOp_of_isInert ht _
  -- a group begins with a parenthesis
  unfold negated?
  split
  · next heq =>
    obtain ⟨rfl, -⟩ := List.cons.inj heq
    simp [hopen]
  · rfl

theorem spelling_of_isInert {t : Symbol} (ht : t.isInert = true) (rest : List Symbol) :
    spelling (t :: rest) = t.text := by
  rw [spelling, Symbol.isOpen, Symbol.isOp_of_isInert ht, if_neg Bool.false_ne_true]

end Operand

namespace SameOperand

variable {a b : List Symbol} (h : SameOperand a b)

include h

theorem mode_eq (mnemonic : Symbol) : Operand.mode mnemonic a = Operand.mode mnemonic b := by
  cases h with
  | absent ha hb => simp only [Operand.mode, ha, hb, if_true]
  | present ht a b => simp only [Operand.mode, Operand.absent_of_isInert ht]

theorem first_eq (directive : Symbol) : Operand.first directive a = Operand.first directive b := by
  cases h with
  | absent ha hb => rw [Operand.first_of_absent ha, Operand.first_of_absent hb]
  | present ht a b => simp only [Operand.first, List.head?_cons, Operand.absent_of_isInert ht]

/-- The literal that a directive reads is the same. -/
theorem literal_eq (directive : Symbol) :
    Operand.literal directive a = Operand.literal directive b := by
  have hfirst := h.first_eq directive
  rw [Operand.literal, Operand.literalOr, Operand.literal, Operand.literalOr, hfirst]
  cases h with
  | absent ha hb =>
    -- without an operand there is nothing else to look at
    rw [Operand.first_of_absent hb]
    rfl
  | present ht a b =>
    rw [Operand.negated?_of_isInert ht, Operand.negated?_of_isInert ht,
      Operand.spelling_of_isInert ht, Operand.spelling_of_isInert ht]

/-- **The first pass counts the same** for a head with the same operand. -/
theorem step_eq (address : Nat) (s : Symbol) : step address s a = step address s b := by
  -- all that the first pass looks at is the mode and the operand
  have hinstruction : Operand.instruction s a = Operand.instruction s b := by
    rw [Operand.instruction, Operand.instruction, h.mode_eq]
  have hdirective : addressAfter address s a = addressAfter address s b := by
    simp only [addressAfter, Operand.reserve, Operand.origin, Operand.string, Operand.data,
      h.first_eq, h.literal_eq]
  rw [step, step, hinstruction, hdirective]

end SameOperand

/-! ### One statement -/

section Statement

variable {strict : Bool} {address taken : Nat} {s : Symbol} {following : List Symbol}
  {bytes : List UInt8}

/-- **The passes agree on one statement** of the stream that is encoded. -/
theorem step_of_encode (h : Lays (encode strict address s following) bytes taken) :
    step address s following = .ok (address + bytes.length) := by
  rcases (encode_lays h).1 with ⟨hkind, hlays⟩ | ⟨hkind, -, hlays⟩
  · -- both passes look up the same entry of the table
    obtain ⟨-, i, -, -, hi, -⟩ := instruction_lays hlays
    rw [step, hkind, length_of_instruction hlays hi]
    dsimp only
    rw [hi]
    rfl
  · rw [step, hkind]
    exact addressAfter_of_lays hlays

theorem isInert_of_mode? {t : Symbol} {mode : Machine.Mode} (h : t.mode? = .ok (some mode)) :
    t.isInert = true := by
  unfold Symbol.mode? at h
  cases hkind : t.kind <;> simp_all [Symbol.isInert]

/-- No argument of an instruction is a name or an operator. -/
theorem Spells.isInert {m : Symbol} {arguments : List Symbol} {c : Command}
    (h : Spells m arguments c) : ∀ t ∈ arguments, t.isInert = true := by
  cases h with
  | alone => simp
  | marked hmarker => simpa using isInert_of_mode? hmarker
  | immediate hsign hn => simp [isInert_of_mode? hsign, Symbol.isInert_of_isInteger hn]
  | direct hn => simpa using Symbol.isInert_of_isInteger hn

/-- What a statement takes are neither names nor operators, if the next statement or nothing comes
behind it. -/
theorem isInert_of_encode (h : Lays (encode strict address s following) bytes taken)
    (hbehind : Operand.absent (following.drop taken) = true) :
    ∀ t ∈ following.take taken, t.isInert = true := by
  rcases (encode_lays h).1 with ⟨-, hlays⟩ | ⟨-, rfl, hlays⟩
  · obtain ⟨c, hc, -⟩ := spells_of_lays hlays
    exact hc.isInert
  · obtain ⟨t, more, rfl, -, ht | hmore⟩ := operand_of_directive hlays
    · simpa using ht
    · -- of a group only the parenthesis would be taken, and no statement begins with a number
      obtain ⟨n, hn, hinteger⟩ := (Option.any_eq_true _ _).1 hmore
      obtain ⟨rest, rfl⟩ := List.head?_eq_some_iff.1 hn
      rw [List.drop_succ_cons, List.drop_zero, Operand.absent_of_isInteger hinteger] at hbehind
      cases hbehind

/-- Such symbols are passed over by layout, unless a statement begins with them. -/
theorem passive_of_isInert {symbols : List Symbol}
    (h : ∀ t ∈ symbols, t.isInert = true ∧ t.startsStatement = false) (rest : List Symbol) :
    Passive symbols rest := by
  induction symbols with
  | nil => trivial
  | cons t symbols ih =>
    obtain ⟨⟨hinert, hstarts⟩, hsymbols⟩ := List.forall_mem_cons.1 h
    -- a label would be a name
    exact ⟨⟨hstarts, Symbol.isOp_of_isInert hinert _,
      isLabel_eq_false (Symbol.isIdentifier_of_isInert hinert) _⟩, ih hsymbols⟩

/-- **One statement in another stream.** Whatever comes behind it, as long as that begins no
operand, the first pass passes over its symbols and moves on by its bytes. -/
theorem placeFrom_of_encode (h : Lays (encode strict address s following) bytes taken)
    (hbehind : Operand.absent (following.drop taken) = true) {rest : List Symbol}
    (hrest : Operand.absent rest = true) (tags : Table Value)
    (definitions : Table (Option Location)) :
    (placeFrom address tags definitions (s :: (following.take taken ++ rest))).outcome =
      (placeFrom (address + bytes.length) tags definitions rest).outcome.map
        (Program.behind (s :: following.take taken)) := by
  have hinert := isInert_of_encode h hbehind
  have hsame : SameOperand (following.take taken ++ rest) following := by
    -- the two streams part behind what the statement takes
    conv_rhs => rw [← List.take_append_drop taken following]
    generalize following.take taken = operands at hinert ⊢
    cases operands with
    | nil => exact .absent hrest hbehind
    | cons t operands => exact .present (hinert t List.mem_cons_self) _ _
  have hstep := (hsame.step_eq address s).trans (step_of_encode h)
  obtain ⟨hcolon, hlabel⟩ := isOp_colon_of_startsStatement (startsStatement_of_encode h)
    (following.take taken ++ rest)
  have hpassive : Passive (following.take taken) rest :=
    passive_of_isInert (fun t ht => ⟨hinert t ht, (encode_lays h).2 t ht⟩) rest
  rw [placeFrom_cons hlabel hcolon hstep, placeFrom_passive hpassive,
    Program.map_behind_map_behind, List.singleton_append]

end Statement

/-! ### A run -/

theorem Operand.absent_nil : absent [] = true := rfl

theorem Operand.absent_of_startsStatement {s : Symbol} (h : s.startsStatement = true)
    (rest : List Symbol) : absent (s :: rest) = true := by
  rw [absent, h, Bool.true_or]

namespace Encoding

variable {strict : Bool} {address : Nat} {symbols : List Symbol}

/-- A stream that is encoded begins with a statement, so with no operand. -/
theorem absent {statements : List Statement} (h : Encoding strict address symbols statements) :
    Operand.absent symbols = true := by
  cases h with
  | nil => rfl
  | cons hstatement =>
    exact Operand.absent_of_startsStatement
      (startsStatement_of_encode (lays_encode_of_statement hstatement)) _

/-- Statements in front of something that begins no operand do not begin one either. -/
theorem absent_append {earlier later : List Statement}
    (h : Encoding strict address symbols (earlier ++ later)) {rest : List Symbol}
    (hrest : Operand.absent rest = true) :
    Operand.absent (earlier.flatMap (·.symbols) ++ rest) = true := by
  cases earlier with
  | nil => exact hrest
  | cons s earlier =>
    obtain ⟨head, operands, hsymbols, hhead, -⟩ := h.isSlice s List.mem_cons_self
    rw [List.flatMap_cons, hsymbols]
    exact Operand.absent_of_startsStatement hhead _

/-- **A run in another stream.** The first pass goes over the statements of a run with their bytes,
whatever comes behind them. -/
theorem placeFrom_eq {earlier later : List Statement}
    (h : Encoding strict address symbols (earlier ++ later)) {rest : List Symbol}
    (hrest : Operand.absent rest = true) (tags : Table Value)
    (definitions : Table (Option Location)) :
    (placeFrom address tags definitions (earlier.flatMap (·.symbols) ++ rest)).outcome =
      (placeFrom (address + (earlier.flatMap (·.bytes)).length) tags definitions rest).outcome.map
        (Program.behind (earlier.flatMap (·.symbols))) := by
  induction earlier generalizing address symbols with
  | nil => exact (Program.map_behind_nil _).symm
  | cons s earlier ih =>
    cases h with
    | @cons _ taken s following bytes _ hstatement hlater =>
      -- behind the first statement come the other ones and then `rest`: no operand either way
      have hone := placeFrom_of_encode (lays_encode_of_statement hstatement) hlater.absent
        (hlater.absent_append hrest) tags definitions
      rw [ih hlater, Nat.add_assoc, ← List.length_append, Program.map_behind_map_behind] at hone
      rw [List.flatMap_cons, List.append_assoc]
      exact hone

end Encoding

/-! ### A label at a boundary -/

/-- Where a statement begins in the stream, or at its end, there is a boundary between statements.
-/
theorem exists_boundary {statements : List Statement}
    (hslices : ∀ s ∈ statements, IsSlice s.symbols) {before after : List Symbol}
    (hsplit : statements.flatMap (·.symbols) = before ++ after)
    (hboundary : after.head?.all Symbol.startsStatement = true) :
    ∃ earlier later, statements = earlier ++ later ∧ earlier.flatMap (·.symbols) = before ∧
      later.flatMap (·.symbols) = after := by
  induction statements generalizing before with
  | nil =>
    obtain ⟨rfl, rfl⟩ := List.append_eq_nil_iff.1 hsplit.symm
    exact ⟨[], [], rfl, rfl, rfl⟩
  | cons s statements ih =>
    obtain ⟨hslice, hslices⟩ := List.forall_mem_cons.1 hslices
    rw [List.flatMap_cons] at hsplit
    rcases List.append_eq_append_iff.1 hsplit with ⟨between, rfl, hbetween⟩ | ⟨inside, hs, hafter⟩
    · -- the whole first statement comes before
      obtain ⟨earlier, later, rfl, rfl, rfl⟩ := ih hslices hbetween
      exact ⟨s :: earlier, later, rfl, rfl, rfl⟩
    · cases before with
      | nil => exact ⟨[], s :: statements, rfl, rfl, by rw [List.flatMap_cons, hs, hafter]; rfl⟩
      | cons head before =>
        cases inside with
        | nil => exact ⟨[s], statements, rfl, by simp [hs], hafter.symm⟩
        | cons t inside =>
          -- a statement has no second head
          obtain ⟨head', operands, hsymbols, -, hoperands⟩ := hslice
          rw [hs, List.cons_append] at hsymbols
          obtain ⟨-, rfl⟩ := List.cons.inj hsymbols
          have ht := hoperands t (List.mem_append_right _ List.mem_cons_self)
          rw [hafter] at hboundary
          simp [ht] at hboundary

/-- A number with too many digits cannot be written. -/
theorem numeral_eq_error {n : Int} (h : Numeral.isWritable n = false) :
    numeral n = .error (.numeral .tooLarge) := by
  rw [numeral, Numeral.written, h, if_neg Bool.false_ne_true]
  rfl

/-- At the end of the stream the address is logged, which takes writing it. -/
theorem outcome_placeFrom_nil (address : Nat) (tags : Table Value)
    (definitions : Table (Option Location)) :
    (placeFrom address tags definitions []).outcome =
      numeral address >>= fun _ => .ok ⟨[], tags, definitions⟩ := by
  rw [placeFrom, finish, Trace.outcome_bind, Trace.outcome_liftM]
  cases numeral address <;> rfl

/-- The lengths that a run of bytes can have can be written. -/
theorem isWritable_of_lt_indexLimit {n : Nat} (h : n < Excess.indexLimit) :
    Numeral.isWritable n = true := by
  have hlimit : Numeral.isWritable Excess.indexLimit = true := by decide
  exact Numeral.isWritable_of_le hlimit h.le

/-- Of two numbers that are written one after the other, the larger one decides. -/
theorem numeral_bind_numeral {α : Type} {m n : Nat} (h : m ≤ n) (a : α) :
    (numeral m >>= fun _ => numeral n >>= fun _ => Except.ok a) =
      if Numeral.isWritable n then .ok a else .error (.numeral .tooLarge) := by
  cases hn : Numeral.isWritable n with
  -- if the larger number can be written then both can
  | true =>
    have hm : Numeral.isWritable m = true := Numeral.isWritable_of_le hn h
    rw [numeral_eq_ok hm, numeral_eq_ok hn]
    rfl
  -- else one of the two fails, and it does not show which
  | false =>
    rw [numeral_eq_error hn]
    cases hm : Numeral.isWritable m with
    | true =>
      rw [numeral_eq_ok hm]
      rfl
    | false =>
      rw [numeral_eq_error hm]
      rfl

/-- A label between the statements of a run. The first pass goes up to it, gives it the address that
it has reached, and goes on to the end. -/
theorem Encoding.outcome_place_label {strict : Bool} {symbols : List Symbol}
    {earlier later : List Statement} (h : Encoding strict 0 symbols (earlier ++ later))
    {name colon : Symbol} (hname : name.isIdentifier = true) (hcolon : colon.isOp [":"] = true) :
    (place (earlier.flatMap (·.symbols) ++
        name :: colon :: later.flatMap (·.symbols))).outcome =
      numeral (earlier.flatMap (·.bytes)).length >>= fun _ =>
        numeral ((earlier ++ later).flatMap (·.bytes)).length >>= fun _ =>
          .ok ⟨symbols, [(name.text, some (earlier.flatMap (·.bytes)).length)],
            Program.recordPlace [] name⟩ := by
  have hlabel : isLabel name (colon :: later.flatMap (·.symbols)) = true := by
    rw [isLabel, hname]
    exact hcolon
  have habsent : Operand.absent (name :: colon :: later.flatMap (·.symbols)) = true := by
    have hnext : colon.isOp [":", "="] = true := by
      rw [Symbol.isOp_pair, hcolon, Bool.true_or]
    simp [Operand.absent, hname, hnext]
  -- behind the label, the rest of the statements are a run of their own
  have hlater := h.split
  rw [← List.append_nil later] at hlater
  have hend (tags : Table Value) (definitions : Table (Option Location)) :=
    hlater.placeFrom_eq Operand.absent_nil tags definitions
  simp only [List.append_nil, Nat.zero_add, ← List.length_append, ← List.flatMap_append] at hend
  -- up to the label, the label itself, and from there to the end
  rw [place, h.placeFrom_eq habsent, placeFrom_label hlabel rfl, Nat.zero_add, hend,
    outcome_placeFrom_nil]
  simp only [Trace.except_map_bind]
  simp only [Except.map, Program.behind, List.append_nil, ← List.flatMap_append, h.flatMap_symbols]
  rfl

/-- The state of the generator between the earlier and the later statements of a run. -/
theorem Encoding.mem_stopsOf {strict : Bool} {p : Program} {earlier later : List Statement}
    (h : Encoding strict 0 p.symbols (earlier ++ later)) (g : Generator) :
    ∃ stop, (stop, later.flatMap (·.symbols)) ∈ g.stopsOf strict p ∧
      stop.code = earlier.flatMap (·.bytes) ∧ stop.address = stop.code.length := by
  have hstops : g.stopsOf strict p = _ := Encoding.stops_eq (g := g.start p) h
  have hcode : ((g.start p).extended earlier []).code = earlier.flatMap (·.bytes) :=
    List.append_nil _
  refine ⟨(g.start p).extended earlier [], ?_, hcode, ?_⟩
  · rw [hstops]
    -- the stop behind the earlier statements
    refine List.mem_map.2 ⟨earlier.length, List.mem_range.2 ?_, ?_⟩
    · rw [List.length_append]
      omega
    · rw [List.take_left, List.drop_left]
  · rw [hcode]
    simp only [Generator.extended, Generator.emit, List.append_nil]
    exact Nat.zero_add _

/-- **A label at any boundary of a program that is encoded** leaves the stream as it was. Its
address is where the counter of the generator stands when the rest of the stream is to be encoded,
and that is the number of bytes laid down for the statements before it. That number and the length
of the code are written to the log, which fails only if they have too many digits; no run of bytes
is that long. -/
theorem place_label_at_boundary {g : Generator} {strict : Bool} {p : Program} {code : List UInt8}
    {before after : List Symbol} {name colon : Symbol}
    (hgenerate : (g.generate strict p).outcome = .ok code) (hsplit : p.symbols = before ++ after)
    (hboundary : after.head?.all Symbol.startsStatement = true)
    (hname : name.isIdentifier = true) (hcolon : colon.isOp [":"] = true) :
    ∃ stop later, (stop, after) ∈ g.stopsOf strict p ∧ code = stop.code ++ later ∧
      stop.address = stop.code.length ∧
      (place (before ++ name :: colon :: after)).outcome =
        (if Numeral.isWritable code.length then
          .ok ⟨p.symbols, [(name.text, some stop.address)], Program.recordPlace [] name⟩
        else .error (.numeral .tooLarge)) ∧
      (code.length < Excess.indexLimit → Numeral.isWritable code.length = true) := by
  obtain ⟨statements, hencoding, rfl, -⟩ := encoding_of_generate hgenerate
  obtain ⟨earlier, later, rfl, rfl, rfl⟩ :=
    exists_boundary hencoding.isSlice (hencoding.flatMap_symbols.trans hsplit) hboundary
  obtain ⟨stop, hmem, hcode, haddress⟩ := hencoding.mem_stopsOf g
  refine ⟨stop, later.flatMap (·.bytes), hmem, ?_, haddress, ?_, isWritable_of_lt_indexLimit⟩
  · rw [hcode, List.flatMap_append]
  · rw [hencoding.outcome_place_label hname hcolon, haddress, hcode]
    refine numeral_bind_numeral ?_ _
    rw [List.flatMap_append, List.length_append]
    exact Nat.le_add_right _ _

/-- A label behind an instruction without an operand, which it might be taken for. -/
theorem greeting_label :
    (usedGenerator.generate false greeting).outcome =
        .ok [0x68, 0x65, 0x79, 0x00, 0x20, 0xff] ∧
      ∃ stop later, (stop, greeting.symbols.drop 3) ∈ usedGenerator.stopsOf false greeting ∧
        [0x68, 0x65, 0x79, 0x00, 0x20, 0xff] = stop.code ++ later ∧ stop.address = 5 ∧
        (place (greeting.symbols.take 3 ++ ⟨.identifier, "z", none, none⟩ :: .ofOperator ":" none ::
          greeting.symbols.drop 3)).outcome = .ok ⟨greeting.symbols, [("z", some 5)], []⟩ := by
  have hname : Symbol.isIdentifier ⟨.identifier, "z", none, none⟩ = true := rfl
  have hcolon : (Symbol.ofOperator ":" none).isOp [":"] = true := rfl
  obtain ⟨stop, later, hmem, hcode, -, hplace, hwritable⟩ :=
    place_label_at_boundary generate_greeting (List.take_append_drop 3 greeting.symbols).symm rfl
      hname hcolon
  rw [if_pos (hwritable (by decide))] at hplace
  -- the address can be read off the result of layout
  have hplaced : (place (greeting.symbols.take 3 ++ ⟨.identifier, "z", none, none⟩ ::
      .ofOperator ":" none :: greeting.symbols.drop 3)).outcome =
        .ok ⟨greeting.symbols, [("z", some 5)], []⟩ := by cbv
  have haddress := congrArg Program.tags (Except.ok.inj (hplace.symm.trans hplaced))
  simp only [List.cons.injEq, Prod.mk.injEq, Option.some.injEq, true_and, and_true] at haddress
  exact ⟨generate_greeting, stop, later, hmem, hcode, by exact_mod_cast haddress, hplaced⟩

end RomAsm
