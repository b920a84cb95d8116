import RomAsm.Proofs.Emission
import RomAsm.Proofs.Following

/-!
# The size of a statement in both passes

The first pass needs the size of a statement before its operands are known, the second lays down its
bytes. Here one statement is compared: what the first pass makes of it in the grouped stream, and
what the second makes of it in the resolved one.

* `addressAfter_of_lays` — in the stream that is encoded, the first pass would count the bytes of a
  directive;
* `directive_size` — for a directive the two always agree;
* `instruction_size_iff` — for an instruction they agree exactly if it is not `displaced`: the first
  pass took the name behind the mnemonic for an operand and resolution took that name away, or it
  took the name for the beginning of something else and there was an operand behind that.
-/

namespace RomAsm

open Layout Resolution Generation

/-! ### Instructions -/

/-- Whether the two passes give an instruction different sizes: `before` stands behind its mnemonic
in the grouped stream, `after` in the resolved one. -/
def displaced (mnemonic : Symbol) (before after : List Symbol) : Bool :=
  mnemonic.kind == .mnemonic && Machine.takesOperand mnemonic.text &&
    before.head?.any Symbol.isIdentifier &&
    if Operand.absent before then after.head?.any fun s => s.isInteger || s.kind == .immediate
    else !after.head?.any Symbol.isInteger

namespace Operand

/-- The size of an instruction is the size of its mode. -/
theorem exists_mode_of_instruction {mnemonic : Symbol} {following : List Symbol}
    {i : Machine.Instruction} (h : instruction mnemonic following = .ok i) :
    ∃ m, mode mnemonic following = .ok m ∧ i.size = 1 + m.operandSize := by
  obtain ⟨m, hm, h⟩ := Trace.except_bind_eq_ok.1 h
  refine ⟨m, hm, ?_⟩
  split at h
  · next j hj =>
    obtain rfl := Except.ok.inj h
    obtain ⟨-, -, rfl⟩ := Machine.of_instruction? hj
    rfl
  · cases h

variable {mnemonic : Symbol} {following : List Symbol} {i : Machine.Instruction}

/-- An instruction that takes no operand has one byte. -/
theorem size_inherent (htakes : Machine.takesOperand mnemonic.text = false)
    (h : instruction mnemonic following = .ok i) : i.size = 1 := by
  obtain ⟨m, hm, hsize⟩ := exists_mode_of_instruction h
  unfold mode at hm
  rw [htakes] at hm
  obtain rfl := Except.ok.inj hm
  exact hsize

/-- So has one whose operand is absent. -/
theorem size_absent (htakes : Machine.takesOperand mnemonic.text = true)
    (habsent : absent following = true) (h : instruction mnemonic following = .ok i) :
    i.size = 1 := by
  obtain ⟨m, hm, hsize⟩ := exists_mode_of_instruction h
  unfold mode at hm
  rw [htakes, habsent] at hm
  -- only an operation of the arithmetic unit can do without its operand
  by_cases halu : Machine.isAlu mnemonic.text = true
  · rw [halu] at hm
    obtain rfl := Except.ok.inj hm
    exact hsize
  · rw [Bool.eq_false_iff.2 halu] at hm
    cases hm

/-- The number of bytes of an instruction whose operand begins with a symbol of the given kind. -/
def sizeBehind : Kind → Nat
  | .immediate => 2
  | .accumulator | .stack => 1
  | _ => 3

theorem operandSize_of_marker {text : String} {m : Machine.Mode}
    (h : Machine.markers.lookup text = some m) : m.operandSize = 0 := by
  have hall : ∀ entry ∈ Machine.markers, entry.2.operandSize = 0 := by decide
  exact hall (text, m) (Table.mem_of_get? h)

/-- The mode that the first symbol selects has the size of its kind. -/
theorem size_selected {s : Symbol} {selected : Option Machine.Mode} (h : s.mode? = .ok selected) :
    1 + (selected.getD .direct).operandSize = sizeBehind s.kind := by
  unfold Symbol.mode? at h
  cases hkind : s.kind with
  -- the two kinds of marker have to be in the table
  | accumulator | stack =>
    rw [hkind] at h
    dsimp only at h
    split at h
    · next m hm =>
      obtain rfl := Except.ok.inj h
      rw [Option.getD_some, operandSize_of_marker hm]
      rfl
    · cases h
  | _ =>
    rw [hkind] at h
    obtain rfl := Except.ok.inj h
    rfl

/-- An instruction with an operand has the size that goes with the first symbol of it. -/
theorem size_present {s : Symbol} {rest : List Symbol}
    (htakes : Machine.takesOperand mnemonic.text = true) (habsent : absent (s :: rest) = false)
    (h : instruction mnemonic (s :: rest) = .ok i) : i.size = sizeBehind s.kind := by
  obtain ⟨m, hm, hsize⟩ := exists_mode_of_instruction h
  rw [mode, htakes, habsent] at hm
  obtain ⟨selected, hselected, rfl⟩ := Trace.except_map_eq_ok.1 hm
  rw [hsize, size_selected hselected]

end Operand

/-- Where no name stands, an operand is absent if a statement begins. -/
theorem Operand.absent_of_not_isIdentifier {s : Symbol} (h : s.isIdentifier = false)
    (rest : List Symbol) : absent (s :: rest) = s.startsStatement := by
  rw [absent, h, Bool.false_and, Bool.or_false]

/-- The size of an instruction in a stream without names and operators. -/
theorem size_resolved {m : Symbol} (htakes : Machine.takesOperand m.text = true)
    {after : List Symbol} {j : Machine.Instruction} (hj : Operand.instruction m after = .ok j)
    (hinert : ∀ s ∈ after, s.isInert = true) (hstring : ∀ s ∈ after.head?, s.kind ≠ .string) :
    j.size = if after.head?.any Symbol.isInteger then 3
      else if after.head?.any (·.kind == .immediate) then 2 else 1 := by
  cases after with
  | nil => exact Operand.size_absent htakes rfl hj
  | cons t rest =>
    have ht := hinert t List.mem_cons_self
    have hstring := hstring t rfl
    simp only [Symbol.isInert, Bool.and_eq_true, bne_iff_ne] at ht
    have habsent : Operand.absent (t :: rest) = t.startsStatement :=
      Operand.absent_of_not_isIdentifier (by simp [Symbol.isIdentifier, ht.1]) rest
    -- by the kind of the first symbol: names and operators are gone, and a string is excluded
    obtain ⟨kind, text, value, location⟩ := t
    cases kind with
    | mnemonic | directive => exact Operand.size_absent htakes habsent hj
    | integer | accumulator | stack | immediate => exact Operand.size_present htakes habsent hj
    | string => exact absurd rfl hstring
    | identifier => exact absurd rfl ht.1
    | operator => exact absurd rfl ht.2

/-- Behind the mnemonic stands a name. The first pass has to guess what becomes of it. -/
theorem instruction_size_of_name {m s : Symbol} {rest after : List Symbol}
    {i j : Machine.Instruction} (hkind : m.kind = .mnemonic)
    (htakes : Machine.takesOperand m.text = true) (hname : s.isIdentifier = true)
    (hi : Operand.instruction m (s :: rest) = .ok i) (hj : Operand.instruction m after = .ok j)
    (hinert : ∀ t ∈ after, t.isInert = true) (hstring : ∀ t ∈ after.head?, t.kind ≠ .string) :
    i.size = j.size ↔ displaced m (s :: rest) after = false := by
  have hresolved := size_resolved htakes hj hinert hstring
  cases habsent : Operand.absent (s :: rest) with
  | true =>
    -- the name begins a label or a definition: one byte, unless an operand turns up behind that
    rw [Operand.size_absent htakes habsent hi, hresolved]
    simp only [displaced, hkind, htakes, List.head?_cons, Option.any_some, hname, habsent]
    cases after.head? with
    | none => simp
    | some t => cases ht : t.isInteger <;> cases ht' : t.kind == .immediate <;> simp [ht, ht']
  | false =>
    -- the name is taken for an address: three bytes, if a number has come in its place
    have hoperand : i.size = 3 := by
      rw [Operand.size_present htakes habsent hi, beq_iff_eq.1 hname]
      rfl
    rw [hoperand, hresolved]
    simp only [displaced, hkind, htakes, List.head?_cons, Option.any_some, hname, habsent]
    cases after.head?.any Symbol.isInteger with
    | true => simp
    | false => cases after.head?.any (·.kind == .immediate) <;> simp

/-- Behind the mnemonic stands something else. Resolution does not change what kind of operand that
is. -/
theorem instruction_size_of_not_name {m s : Symbol} {rest after : List Symbol}
    {i j : Machine.Instruction} (htakes : Machine.takesOperand m.text = true)
    (hname : s.isIdentifier = false) (hi : Operand.instruction m (s :: rest) = .ok i)
    (hj : Operand.instruction m after = .ok j) (hsteps : Steps (withoutLabels (s :: rest)) after)
    (hinert : ∀ t ∈ after, t.isInert = true) : i.size = j.size := by
  rw [withoutLabels_cons_of_not_isIdentifier hname] at hsteps
  have habsent := Operand.absent_of_not_isIdentifier hname rest
  by_cases hfixed : s.isFixed = true
  · -- the same symbol stands behind the mnemonic in both streams
    obtain ⟨rest', rfl⟩ := steps_fixed hfixed hsteps
    have habsent' := Operand.absent_of_not_isIdentifier hname rest'
    cases hstarts : s.startsStatement with
    | true =>
      rw [Operand.size_absent htakes (habsent.trans hstarts) hi,
        Operand.size_absent htakes (habsent'.trans hstarts) hj]
    | false =>
      rw [Operand.size_present htakes (habsent.trans hstarts) hi,
        Operand.size_present htakes (habsent'.trans hstarts) hj]
  · -- an expression begins there, and a number is what is left of it
    have hs : s.kind = .integer ∨ s.kind = .operator := by
      simp only [Symbol.isFixed, Symbol.isInert, Symbol.isInteger, Symbol.isIdentifier,
        beq_eq_false_iff_ne] at hfixed hname
      by_contra hs
      simp [hname, not_or.1 hs] at hfixed
    obtain ⟨t, rest', rfl, ht⟩ := steps_operand hs hsteps
    have hpresent : s.startsStatement = false := by
      rcases hs with hs | hs <;> simp [Symbol.startsStatement, hs]
    have hinteger : t.kind = .integer := by
      have hkind := hinert t List.mem_cons_self
      refine ht.resolve_right fun ht => ?_
      rw [Symbol.isInert, ht] at hkind
      cases hkind
    have hpresent' := Operand.absent_of_isInteger (beq_iff_eq.2 hinteger) rest'
    rw [Operand.size_present htakes (habsent.trans hpresent) hi,
      Operand.size_present htakes hpresent' hj, hinteger]
    rcases hs with hs | hs
    · rw [hs]
    · rw [hs]
      rfl

/-- **The passes agree on an instruction** exactly if it is not displaced. -/
theorem instruction_size_iff {m : Symbol} (hkind : m.kind = .mnemonic)
    {before after : List Symbol} {i j : Machine.Instruction}
    (hi : Operand.instruction m before = .ok i) (hj : Operand.instruction m after = .ok j)
    (hsteps : Steps (withoutLabels before) after) (hinert : ∀ s ∈ after, s.isInert = true)
    (hstring : Machine.takesOperand m.text = true → ∀ s ∈ after.head?, s.kind ≠ .string) :
    i.size = j.size ↔ displaced m before after = false := by
  cases htakes : Machine.takesOperand m.text with
  | false =>
    rw [Operand.size_inherent htakes hi, Operand.size_inherent htakes hj]
    simp [displaced, htakes]
  | true =>
    -- by what stands behind the mnemonic in the grouped stream: nothing, a name, or something else
    cases before with
    | nil =>
      obtain rfl := steps_nil hsteps
      rw [Operand.size_absent htakes rfl hi, Operand.size_absent htakes rfl hj]
      simp [displaced]
    | cons s rest =>
      cases hname : s.isIdentifier with
      | true => exact instruction_size_of_name hkind htakes hname hi hj hinert (hstring htakes)
      | false =>
        have hdisplaced : displaced m (s :: rest) after = false := by simp [displaced, hname]
        exact iff_of_true (instruction_size_of_not_name htakes hname hi hj hsteps hinert) hdisplaced

/-! ### Directives -/

namespace Generation

variable {strict : Bool} {bytes : List UInt8}

/-- A report, if it does not end the run, lays down nothing. -/
theorem Lays.of_report {problem : Problem} {operand : Symbol}
    (h : Lays (report strict problem operand) bytes ()) : bytes = [] := by
  unfold report at h
  split at h
  · exact absurd h not_lays_throw
  · obtain ⟨record, -, hwrite⟩ := lays_liftM_bind.1 h
    exact lays_record.1 hwrite

/-- A value that is accepted is the one of the operand, and accepting it lays down nothing. -/
theorem Lays.of_inRange {operand : Symbol} {bits : Nat} {n : Int}
    (h : Lays (inRange strict operand bits) bytes n) : operand.value = some n ∧ bytes = [] := by
  unfold inRange at h
  split at h
  · exact absurd h not_lays_throw
  · next v hv =>
    rw [hv, Option.some.injEq]
    -- a value out of range is used all the same, once it has been reported
    split at h
    · exact lays_pure.1 h
    · obtain ⟨text, -, hrest⟩ := lays_liftM_bind.1 h
      obtain ⟨_, first, second, hreport, hpure, rfl⟩ := lays_bind.1 hrest
      obtain ⟨hn, rfl⟩ := lays_pure.1 hpure
      rw [hreport.of_report]
      exact ⟨hn, rfl⟩

/-- As many zeros are laid down as are asked for. -/
theorem Lays.of_emitZeros {count : Nat} (h : Lays (emitZeros count) bytes ()) :
    bytes.length = count := by
  unfold emitZeros at h
  split at h
  · exact absurd h not_lays_throw
  · rw [← lays_emit.1 h, List.length_replicate]

/-- Every character takes one byte. -/
theorem Lays.of_characters {operand : Symbol} {text : List Char}
    (h : Lays (characters strict operand text) bytes ()) : bytes.length = text.length := by
  induction text generalizing bytes with
  | nil =>
    rw [(lays_pure.1 h).2]
    rfl
  | cons c text ih =>
    -- a character that is too wide is reported first; the byte is laid down either way
    have hbyte {bytes : List UInt8}
        (h : Lays (do emit (Field.immediate c.toNat); characters strict operand text) bytes ()) :
        bytes.length = (c :: text).length := by
      obtain ⟨_, first, second, hfirst, hsecond, rfl⟩ := lays_bind.1 h
      rw [← lays_emit.1 hfirst, Field.immediate_natCast, List.length_append, ih hsecond,
        List.length_cons, Nat.add_comm]
      rfl
    unfold characters at h
    split at h
    · obtain ⟨_, first, second, hreport, hsecond, rfl⟩ := lays_bind.1 h
      rw [hreport.of_report, List.nil_append]
      exact hbyte hsecond
    · exact hbyte h

end Generation

/-- A count is a value without a sign. -/
theorem Operand.nonNegative_eq_ok {problem : String → Problem} {operand : Symbol} {n : Nat} :
    nonNegative problem operand = .ok n ↔
      ∃ v : Int, operand.value = some v ∧ 0 ≤ v ∧ v.toNat = n := by
  unfold nonNegative
  cases operand.value with
  | none => simp
  | some v =>
    by_cases hv : v < 0
    · simp [hv]
    · simp [hv]
      omega

theorem mapError_eq_ok {ε ε' α : Type} {x : Except ε α} {f : ε → ε'} {a : α} :
    x.mapError f = .ok a ↔ x = .ok a := by
  cases x <;> simp [Except.mapError]

/-- What is accepted as a number is one. -/
theorem isInteger_of_number {owner operand : Symbol} {s : Option Symbol}
    (h : number owner s = .ok operand) : s = some operand ∧ operand.isInteger = true := by
  match s with
  | none => cases h
  | some s =>
    change (if s.isInteger then _ else _) = _ at h
    split at h
    · next hs =>
      obtain rfl := Except.ok.inj h
      exact ⟨rfl, hs⟩
    · cases h

/-- The address behind a directive that is encoded is the one behind its bytes. -/
theorem addressAfter_of_lays {strict : Bool} {address : Nat} {s : Symbol} {following : List Symbol}
    {bytes : List UInt8} (h : Lays (directive strict address s following) bytes ()) :
    addressAfter address s following = .ok (address + bytes.length) := by
  unfold directive at h
  split at h
  · next htext => -- .reserve
    obtain ⟨count, hcount, hzeros⟩ := lays_liftM_bind.1 h
    rw [addressAfter, htext, hzeros.of_emitZeros]
    change (do return address + (← Operand.reserve s following)) = _
    rw [hcount]
    rfl
  · next htext => -- .org
    obtain ⟨target, htarget, hrest⟩ := lays_liftM_bind.1 h
    rw [addressAfter, htext]
    change Operand.origin s following = _
    dsimp only at hrest
    split at hrest
    · obtain ⟨_, first, second, hthrow, -⟩ := lays_bind.1 hrest
      exact absurd hthrow not_lays_throw
    · next hle =>
      -- the zeros go up to the target
      rw [htarget, hrest.of_emitZeros, Nat.add_sub_of_le (Nat.not_lt.1 hle)]
  · next htext => -- .byte
    obtain ⟨operand, hoperand, hrest⟩ := lays_liftM_bind.1 h
    obtain ⟨n, first, second, hn, hbyte, rfl⟩ := lays_bind.1 hrest
    obtain ⟨hhead, hinteger⟩ := isInteger_of_number hoperand
    obtain ⟨more, rfl⟩ := List.head?_eq_some_iff.1 hhead
    have hfirst : Operand.first s (operand :: more) = .ok operand :=
      Operand.first_eq_ok.2 ⟨Operand.absent_of_isInteger hinteger more, rfl⟩
    rw [addressAfter, htext, hn.of_inRange.2, ← lays_emit.1 hbyte, Field.immediate_eq]
    change (do let _ ← Operand.first s (operand :: more); return address + 1) = _
    rw [hfirst]
    rfl
  · next htext => -- .string
    obtain ⟨text, hstring, hrest⟩ := lays_liftM_bind.1 h
    obtain ⟨operand, -, hrest⟩ := lays_liftM_bind.1 hrest
    obtain ⟨_, first, second, hcharacters, hend, rfl⟩ := lays_bind.1 hrest
    rw [addressAfter, htext, List.length_append, hcharacters.of_characters, ← lays_emit.1 hend]
    change (do return address + (← Operand.string s following).length + 1) = _
    rw [hstring]
    rfl
  · next htext => -- .data
    obtain ⟨operand, hoperand, hrest⟩ := lays_liftM_bind.1 h
    obtain ⟨data, hdata, hemit⟩ := lays_liftM_bind.1 hrest
    obtain rfl := lays_emit.1 hemit
    rw [addressAfter, htext]
    change (do
      let operand ← Operand.data s following
      return address + (← (DataLiteral.size operand.text).mapError .numeral)) = _
    rw [hoperand, Trace.except_ok_bind, DataLiteral.size_of_encode (mapError_eq_ok.1 hdata)]
    rfl
  · exact absurd h not_lays_throw

section Directive

variable {symbols : List Symbol} {d : Symbol} {before after : List Symbol}
  (hkind : d.kind = .directive) (hsuffix : d :: before <:+ Grouping.grouped symbols)
  (hsteps : Steps (withoutLabels before) after) (hinert : ∀ s ∈ after, s.isInert = true)

include hkind hsuffix hsteps hinert

/-- The literal of a directive, in both streams. -/
theorem literal_of_directive {operand : Symbol} (h : Operand.literal d before = .ok operand) :
    ∃ n, Operand.literal d after = .ok n ∧ n.value = operand.value ∧
      (n = operand ∨ ∃ text, operand.text = "-" ++ text) := by
  have hhead : d.startsStatement = true := by simp [Symbol.startsStatement, hkind]
  obtain ⟨n, rest, rfl, hn, hvalue, htext⟩ := literal_followed hhead hsuffix hsteps hinert h
  exact ⟨n, Operand.literal_of_isInteger hn d rest, hvalue, htext⟩

/-- A number of bytes, or an address, is read alike in both streams. -/
theorem count_of_directive {problem : String → Problem} {c c' : Nat}
    (hc : (Operand.literal d before >>= Operand.nonNegative problem) = .ok c)
    (hc' : (Operand.literal d after >>= Operand.nonNegative problem) = .ok c') : c = c' := by
  obtain ⟨operand, hoperand, hc⟩ := Trace.except_bind_eq_ok.1 hc
  obtain ⟨n, hn, hvalue, -⟩ := literal_of_directive hkind hsuffix hsteps hinert hoperand
  rw [hn, Trace.except_ok_bind] at hc'
  -- both counts come from the value, which is the same
  obtain ⟨v, hv, -, rfl⟩ := Operand.nonNegative_eq_ok.1 hc
  obtain ⟨v', hv', -, rfl⟩ := Operand.nonNegative_eq_ok.1 hc'
  obtain rfl := Option.some.inj (hv.symm.trans (hvalue.symm.trans hv'))
  rfl

omit hkind in
/-- The text of a string is the same in both streams. -/
theorem string_of_directive {text text' : String} (h : Operand.string d before = .ok text)
    (h' : Operand.string d after = .ok text') : text = text' := by
  obtain ⟨s, hs, htext⟩ := Trace.except_bind_eq_ok.1 h
  obtain ⟨rest, rfl⟩ := List.head?_eq_some_iff.1 (Operand.first_eq_ok.1 hs).2
  split at htext
  · next hstring =>
    -- a string is fixed, so the resolved stream begins with it as well
    have hname : s.isIdentifier = false := by simp [Symbol.isIdentifier, hstring]
    have hfixed : s.isFixed = true := by
      simp [Symbol.isFixed, Symbol.isInert, Symbol.isInteger, hstring]
    rw [withoutLabels_cons_of_not_isIdentifier hname] at hsteps
    obtain ⟨rest', rfl⟩ := steps_fixed hfixed hsteps
    obtain ⟨t, ht, htext'⟩ := Trace.except_bind_eq_ok.1 h'
    obtain rfl : s = t := Option.some.inj (Operand.first_eq_ok.1 ht).2
    rw [if_pos hstring] at htext'
    exact Except.ok.inj (htext.symm.trans htext')
  · cases htext

/-- The size of a data literal is the same in both streams. -/
theorem data_of_directive {operand operand' : Symbol} {size size' : Nat}
    (h : Operand.data d before = .ok operand) (hsize : DataLiteral.size operand.text = .ok size)
    (h' : Operand.data d after = .ok operand')
    (hsize' : DataLiteral.size operand'.text = .ok size') : size = size' := by
  obtain ⟨_, hliteral, h⟩ := Trace.except_bind_eq_ok.1 h
  obtain ⟨_, -, h⟩ := Trace.except_bind_eq_ok.1 h
  obtain rfl := Except.ok.inj h
  obtain ⟨_, hliteral', h'⟩ := Trace.except_bind_eq_ok.1 h'
  obtain ⟨_, -, h'⟩ := Trace.except_bind_eq_ok.1 h'
  obtain rfl := Except.ok.inj h'
  obtain ⟨n, hn, -, rfl | ⟨text, htext⟩⟩ :=
    literal_of_directive hkind hsuffix hsteps hinert hliteral
  · obtain rfl := Except.ok.inj (hn.symm.trans hliteral')
    exact Except.ok.inj (hsize.symm.trans hsize')
  · -- a literal with a sign has no size
    rw [htext, DataLiteral.size_negated] at hsize
    cases hsize

/-- **The passes agree on a directive**, whatever stands behind it. -/
theorem directive_size {strict : Bool} {address next : Nat} {bytes : List UInt8}
    (hlayout : addressAfter address d before = .ok next)
    (hlays : Lays (directive strict address d after) bytes ()) : next = address + bytes.length := by
  -- in the resolved stream the first pass would count the bytes, so its counts are compared
  have hresolved := addressAfter_of_lays hlays
  generalize address + bytes.length = next' at hresolved ⊢
  unfold addressAfter at hlayout
  split at hlayout
  · next htext => -- .reserve
    rw [addressAfter, htext] at hresolved
    obtain ⟨c, hc, hnext⟩ := Trace.except_bind_eq_ok.1 hlayout
    obtain ⟨c', hc', hnext'⟩ := Trace.except_bind_eq_ok.1 hresolved
    obtain rfl := count_of_directive hkind hsuffix hsteps hinert hc hc'
    exact Except.ok.inj (hnext.symm.trans hnext')
  · next htext => -- .org
    rw [addressAfter, htext] at hresolved
    exact count_of_directive hkind hsuffix hsteps hinert hlayout hresolved
  · next htext => -- .byte
    rw [addressAfter, htext] at hresolved
    obtain ⟨_, -, hnext⟩ := Trace.except_bind_eq_ok.1 hlayout
    obtain ⟨_, -, hnext'⟩ := Trace.except_bind_eq_ok.1 hresolved
    exact Except.ok.inj (hnext.symm.trans hnext')
  · next htext => -- .string
    rw [addressAfter, htext] at hresolved
    obtain ⟨text, ht, hnext⟩ := Trace.except_bind_eq_ok.1 hlayout
    obtain ⟨text', ht', hnext'⟩ := Trace.except_bind_eq_ok.1 hresolved
    obtain rfl := string_of_directive hsuffix hsteps hinert ht ht'
    exact Except.ok.inj (hnext.symm.trans hnext')
  · next htext => -- .data
    rw [addressAfter, htext] at hresolved
    obtain ⟨operand, hoperand, hsize⟩ := Trace.except_bind_eq_ok.1 hlayout
    obtain ⟨size, hsize, hnext⟩ := Trace.except_bind_eq_ok.1 hsize
    obtain ⟨operand', hoperand', hsize'⟩ := Trace.except_bind_eq_ok.1 hresolved
    obtain ⟨size', hsize', hnext'⟩ := Trace.except_bind_eq_ok.1 hsize'
    obtain rfl := data_of_directive hkind hsuffix hsteps hinert hoperand (mapError_eq_ok.1 hsize)
      hoperand' (mapError_eq_ok.1 hsize')
    exact Except.ok.inj (hnext.symm.trans hnext')
  · cases hlayout

end Directive

end RomAsm
