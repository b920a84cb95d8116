import Mathlib
import RomAsm.Assembler
import RomAsm.Proofs.Sizes

/-!
# Do the two passes agree on addresses?

The first pass counts addresses in the grouped stream, the second lays down bytes for the resolved
one. Both go from head to head, and the heads are the same. So whether they agree is decided head by
head: by `directive_size` and `instruction_size_iff`, exactly the displaced instructions drive them
apart.

* `encode_lays` — what the second pass takes for one statement has one head, its first symbol;
* `Encoding` — a run of the second pass that succeeds, one statement after the other. What each
  statement hands on to the next holds of a run, by induction on this relation;
* `step_agrees_iff` — one head in both passes;
* `counters_eq_offsets_iff` — a whole run, by induction on the stream;
* `addresses_agree_iff` — a source that is assembled, with its labels.

They do come apart for some programs: in `ADD x = 1 5 end :` the operand of `ADD` is hidden behind a
definition, so the first pass counts one byte for an instruction that takes three, and the label
behind it is two bytes short (`hiddenOperand_disagrees`).
-/

namespace RomAsm

open Layout Resolution Generation

/-! ### One statement of the second pass -/

theorem startsStatement_of_mode? {s : Symbol} {mode : Machine.Mode}
    (h : s.mode? = .ok (some mode)) : s.startsStatement = false := by
  unfold Symbol.mode? at h
  cases hkind : s.kind <;> simp_all [Symbol.startsStatement]

/-- A number is no head. -/
theorem startsStatement_of_number {owner operand : Symbol} {following : List Symbol}
    (h : number owner following.head? = .ok operand) :
    ∀ t ∈ following.take 1, t.startsStatement = false := by
  obtain ⟨hhead, hinteger⟩ := isInteger_of_number h
  obtain ⟨rest, rfl⟩ := List.head?_eq_some_iff.1 hhead
  simpa using startsStatement_of_isInteger hinteger

namespace Operand

variable {m : Symbol} {following : List Symbol} {mode : Machine.Mode}

/-- The modes that have to be asked for are those of the marker behind the mnemonic. -/
theorem marker_of_mode (h : Operand.mode m following = .ok mode)
    (hmode : mode = .stack ∨ mode = .immediate) :
    ∃ marker rest, following = marker :: rest ∧ marker.mode? = .ok (some mode) := by
  unfold Operand.mode at h
  -- all ways to a mode that need no marker end in another one
  split at h
  · obtain rfl := Except.ok.inj h
    rcases hmode with hmode | hmode <;> cases hmode
  · split at h
    · split at h
      · obtain rfl := Except.ok.inj h
        rcases hmode with hmode | hmode <;> cases hmode
      · cases h
    · cases following with
      | nil =>
        obtain rfl := Except.ok.inj h
        rcases hmode with hmode | hmode <;> cases hmode
      | cons s rest =>
        obtain ⟨selected, hselected, rfl⟩ := Trace.except_map_eq_ok.1 h
        cases selected with
        | none => rcases hmode with hmode | hmode <;> cases hmode
        | some mode => exact ⟨s, rest, rfl, hselected⟩

end Operand

/-- A mode is marked by the symbol behind the mnemonic. -/
theorem isMarked_eq_true {mode : Machine.Mode} {following : List Symbol} :
    isMarked mode following = .ok true ↔
      ∃ marker rest, following = marker :: rest ∧ marker.mode? = .ok (some mode) := by
  cases following with
  | nil => simp [isMarked]
  | cons s rest =>
    show s.mode?.map (· == some mode) = .ok true ↔ _
    rw [Trace.except_map_eq_ok]
    simp

section Instruction

variable {strict : Bool} {m : Symbol} {following : List Symbol} {bytes : List UInt8} {taken : Nat}

/-- The bytes of an instruction that is encoded, and what it takes from behind its mnemonic. -/
theorem instruction_lays (h : Lays (instruction strict m following) bytes taken) :
    ∃ mode i field, Operand.mode m following = .ok mode ∧ Operand.instruction m following = .ok i ∧
      bytes = i.opcode :: field ∧
      match mode with
      | .direct => taken = 1 ∧ ∃ operand n, number m following.head? = .ok operand ∧
        operand.value = some n ∧ field = Field.address n
      | .immediate => taken = 2 ∧ ∃ operand n, number m following[1]? = .ok operand ∧
        operand.value = some n ∧ field = Field.immediate n
      | .accumulator | .stack => field = [] ∧ ∃ marked, isMarked mode following = .ok marked ∧
        taken = if marked then 1 else 0
      | .inherent => field = [] ∧ taken = 0 := by
  obtain ⟨mode, hmode, h⟩ := lays_liftM_bind.1 h
  obtain ⟨i, hi, h⟩ := lays_liftM_bind.1 h
  obtain ⟨_, first, field, hopcode, hoperand, rfl⟩ := lays_bind.1 h
  obtain rfl := lays_emit.1 hopcode
  refine ⟨mode, i, field, hmode, hi, rfl, ?_⟩
  -- behind the opcode each mode lays down a field of its own, or nothing
  cases mode with
  | direct =>
    obtain ⟨operand, hnumber, hrest⟩ := lays_liftM_bind.1 hoperand
    obtain ⟨n, checked, field, hn, hfield, rfl⟩ := lays_bind.1 hrest
    obtain ⟨_, word, last, hword, hlast, rfl⟩ := lays_bind.1 hfield
    obtain ⟨rfl, rfl⟩ := lays_pure.1 hlast
    obtain ⟨hvalue, rfl⟩ := hn.of_inRange
    obtain rfl := lays_emit.1 hword
    exact ⟨rfl, operand, n, hnumber, hvalue, by rw [List.nil_append, List.append_nil]⟩
  | immediate =>
    obtain ⟨operand, hnumber, hrest⟩ := lays_liftM_bind.1 hoperand
    obtain ⟨n, checked, field, hn, hfield, rfl⟩ := lays_bind.1 hrest
    obtain ⟨_, byte, last, hbyte, hlast, rfl⟩ := lays_bind.1 hfield
    obtain ⟨rfl, rfl⟩ := lays_pure.1 hlast
    obtain ⟨hvalue, rfl⟩ := hn.of_inRange
    obtain rfl := lays_emit.1 hbyte
    exact ⟨rfl, operand, n, hnumber, hvalue, by rw [List.nil_append, List.append_nil]⟩
  | accumulator | stack =>
    obtain ⟨marked, hmarked, hrest⟩ := lays_liftM_bind.1 hoperand
    obtain ⟨rfl, rfl⟩ := lays_pure.1 hrest
    exact ⟨rfl, marked, hmarked, rfl⟩
  | inherent =>
    obtain ⟨rfl, rfl⟩ := lays_pure.1 hoperand
    exact ⟨rfl, rfl⟩

/-- An instruction that is encoded takes as many bytes as it should. -/
theorem length_of_instruction {i : Machine.Instruction}
    (h : Lays (instruction strict m following) bytes taken)
    (hi : Operand.instruction m following = .ok i) : bytes.length = i.size := by
  obtain ⟨mode, j, field, hmode, hj, rfl, hfield⟩ := instruction_lays h
  obtain rfl := Except.ok.inj (hj.symm.trans hi)
  -- the size of an instruction is that of its mode, and so is the length of its field
  obtain ⟨mode', hmode', hsize⟩ := Operand.exists_mode_of_instruction hi
  obtain rfl := Except.ok.inj (hmode.symm.trans hmode')
  have hlength : field.length = mode.operandSize := by
    cases mode with
    | direct =>
      obtain ⟨-, operand, n, -, -, rfl⟩ := hfield
      rw [Field.address_eq]
      rfl
    | immediate =>
      obtain ⟨-, operand, n, -, -, rfl⟩ := hfield
      rw [Field.immediate_eq]
      rfl
    | accumulator | stack | inherent =>
      obtain ⟨rfl, -⟩ := hfield
      rfl
  rw [List.length_cons, hlength, hsize, Nat.add_comm]

/-- What an instruction takes from the stream has no heads. -/
theorem startsStatement_of_instruction (h : Lays (instruction strict m following) bytes taken) :
    ∀ t ∈ following.take taken, t.startsStatement = false := by
  obtain ⟨mode, i, field, hmode, -, -, htaken⟩ := instruction_lays h
  cases mode with
  | direct =>
    obtain ⟨rfl, operand, -, hoperand, -⟩ := htaken
    exact startsStatement_of_number hoperand
  | immediate =>
    obtain ⟨rfl, operand, -, hoperand, -⟩ := htaken
    obtain ⟨hsecond, hinteger⟩ := isInteger_of_number hoperand
    -- two symbols are taken: the mark of an immediate operand, and the number behind it
    obtain ⟨sign, behind, rfl, hsign⟩ := Operand.marker_of_mode hmode (.inr rfl)
    obtain ⟨rest, rfl⟩ := List.head?_eq_some_iff.1 (List.head?_eq_getElem?.trans hsecond)
    simp [startsStatement_of_mode? hsign, startsStatement_of_isInteger hinteger]
  | accumulator | stack =>
    obtain ⟨-, marked, hmarked, rfl⟩ := htaken
    cases marked with
    | true =>
      -- only the marker of the mode is taken, which is no head
      obtain ⟨marker, rest, rfl, hmarker⟩ := isMarked_eq_true.1 hmarked
      simpa using startsStatement_of_mode? hmarker
    | false => simp
  | inherent =>
    obtain ⟨-, rfl⟩ := htaken
    simp

/-- Behind the mnemonic of an instruction that is encoded there is no string. -/
theorem kind_ne_string_of_instruction (h : Lays (instruction strict m following) bytes taken)
    (htakes : Machine.takesOperand m.text = true) : ∀ s ∈ following.head?, s.kind ≠ .string := by
  intro s hs hstring
  obtain ⟨rest, rfl⟩ := List.head?_eq_some_iff.1 hs
  obtain ⟨mode, i, field, hmode, -, -, htaken⟩ := instruction_lays h
  have habsent : Operand.absent (s :: rest) = false := by
    simp [Operand.absent, Symbol.startsStatement, Symbol.isIdentifier, hstring]
  -- a string selects no mode, so the mode is the direct one, which wants a number
  have hdirect : Operand.mode m (s :: rest) = .ok .direct := by
    rw [Operand.mode, htakes, habsent]
    simp [Symbol.mode?, hstring, Except.map]
  obtain rfl := Except.ok.inj (hmode.symm.trans hdirect)
  obtain ⟨-, n, -, hn, -⟩ := htaken
  obtain ⟨hhead, hinteger⟩ := isInteger_of_number hn
  obtain rfl : s = n := Option.some.inj hhead
  simp [Symbol.isInteger, hstring] at hinteger

end Instruction

section Statement

variable {strict : Bool} {address taken : Nat} {s : Symbol} {following : List Symbol}
  {bytes : List UInt8}

/-- A directive that is encoded has an operand, which is no head. It is a single symbol or a group
that goes on with a number. -/
theorem operand_of_directive (h : Lays (directive strict address s following) bytes ()) :
    ∃ t more, following = t :: more ∧ t.startsStatement = false ∧
      (t.isInert = true ∨ more.head?.any Symbol.isInteger = true) := by
  have hnumber {t : Symbol} (ht : t.isInteger = true) (more : List Symbol) :
      ∃ t' more', t :: more = t' :: more' ∧ t'.startsStatement = false ∧
        (t'.isInert = true ∨ more'.head?.any Symbol.isInteger = true) :=
    ⟨t, more, rfl, startsStatement_of_isInteger ht, .inl (Symbol.isInert_of_isInteger ht)⟩
  -- three of the directives read a literal
  have hliteral {α : Type} {f : Symbol → Except Failure α} {a : α}
      (h : (Operand.literal s following >>= f) = .ok a) :
      ∃ t more, following = t :: more ∧ t.startsStatement = false ∧
        (t.isInert = true ∨ more.head?.any Symbol.isInteger = true) := by
    obtain ⟨operand, hoperand, -⟩ := Trace.except_bind_eq_ok.1 h
    rcases Operand.literal_cases hoperand with ⟨hinteger, more, rfl⟩ |
      ⟨opening, zero, minus, l, closing, more, n, rfl, hopening, hzero, -⟩
    · exact hnumber hinteger more
    · exact ⟨opening, _, rfl, startsStatement_of_isOp hopening, .inr hzero⟩
  unfold directive at h
  -- one case for each directive
  split at h
  · obtain ⟨c, hc, -⟩ := lays_liftM_bind.1 h
    exact hliteral hc
  · obtain ⟨c, hc, -⟩ := lays_liftM_bind.1 h
    exact hliteral hc
  · obtain ⟨operand, hoperand, -⟩ := lays_liftM_bind.1 h
    obtain ⟨hhead, hinteger⟩ := isInteger_of_number hoperand
    obtain ⟨more, rfl⟩ := List.head?_eq_some_iff.1 hhead
    exact hnumber hinteger more
  · obtain ⟨text, htext, -⟩ := lays_liftM_bind.1 h
    obtain ⟨operand, hoperand, hstring⟩ := Trace.except_bind_eq_ok.1 htext
    obtain ⟨more, rfl⟩ := List.head?_eq_some_iff.1 (Operand.first_eq_ok.1 hoperand).2
    split at hstring
    · next hkind =>
      exact ⟨operand, more, rfl, by simp [Symbol.startsStatement, hkind],
        .inl (by simp [Symbol.isInert, hkind])⟩
    · cases hstring
  · obtain ⟨operand, hoperand, -⟩ := lays_liftM_bind.1 h
    exact hliteral hoperand
  · exact absurd h not_lays_throw

/-- **One statement.** It is an instruction or a directive, and of what it takes only its first
symbol is a head. -/
theorem encode_lays (h : Lays (encode strict address s following) bytes taken) :
    (s.kind = .mnemonic ∧ Lays (instruction strict s following) bytes taken ∨
      s.kind = .directive ∧ taken = 1 ∧ Lays (directive strict address s following) bytes ()) ∧
    ∀ t ∈ following.take taken, t.startsStatement = false := by
  unfold encode at h
  split at h
  · next hkind => exact ⟨.inl ⟨hkind, h⟩, startsStatement_of_instruction h⟩
  · next hkind =>
    obtain ⟨_, first, second, hfirst, hsecond, rfl⟩ := lays_bind.1 h
    obtain ⟨rfl, rfl⟩ := lays_pure.1 hsecond
    rw [List.append_nil]
    obtain ⟨t, more, rfl, ht, -⟩ := operand_of_directive hfirst
    exact ⟨.inr ⟨hkind, rfl, hfirst⟩, by simpa using ht⟩
  · exact absurd h not_lays_throw

/-- A statement lays down what is encoded for it; a line of the listing is all that comes on top. -/
theorem lays_encode_of_statement (h : Lays (statement strict address s following) bytes taken) :
    Lays (encode strict address s following) bytes taken := by
  obtain ⟨taken', first, second, hfirst, hrest, rfl⟩ := lays_bind.1 h
  obtain ⟨line, -, hsecond⟩ := lays_liftM_bind.1 hrest
  obtain ⟨rfl, rfl⟩ := lays_pure.1 hsecond
  rwa [List.append_nil]

/-- A run of the second pass that succeeds encodes the first statement and goes on behind it. -/
theorem encodeFrom_cases (h : (encodeFrom strict address (s :: following)).outcome = .ok ()) :
    ∃ bytes taken, Lays (statement strict address s following) bytes taken ∧
      (encodeFrom strict (address + bytes.length) (following.drop taken)).outcome = .ok () := by
  cases hstatement : (statement strict address s following).outcome with
  -- a run ends with the first statement that fails
  | error failure =>
    rw [encodeFrom, hstatement] at h
    cases h
  | ok taken =>
    have hlays : Lays (statement strict address s following) _ taken := ⟨hstatement, rfl⟩
    rw [encodeFrom_cons hlays] at h
    exact ⟨_, taken, hlays, h⟩

/-- A statement that is encoded begins with a head. -/
theorem startsStatement_of_encode (h : Lays (encode strict address s following) bytes taken) :
    s.startsStatement = true := by
  rcases (encode_lays h).1 with ⟨hkind, -⟩ | ⟨hkind, -⟩ <;> simp [Symbol.startsStatement, hkind]

/-- The heads of a stream whose first statement is encoded. -/
theorem headsOf_of_encode (h : Lays (encode strict address s following) bytes taken) :
    headsOf (s :: following) = (s, following) :: headsOf (following.drop taken) := by
  -- what the statement takes has no heads, so the next head comes behind it
  have hrest := headsOf_append (encode_lays h).2 (following.drop taken)
  rw [List.take_append_drop] at hrest
  rw [headsOf_cons_head (startsStatement_of_encode h), hrest]

end Statement

/-! ### One head in both passes -/

/-- One head in the grouped stream, and in the resolved one. -/
abbrev Traced (h k : Symbol × List Symbol) : Prop := h.1 = k.1 ∧ Steps (withoutLabels h.2) k.2

/-- **One head.** Both passes move on by the same number of bytes exactly if no instruction is
displaced there. -/
theorem step_agrees_iff {symbols : List Symbol} {s : Symbol} {before after : List Symbol}
    (hsuffix : s :: before <:+ Grouping.grouped symbols)
    (hsteps : Steps (withoutLabels before) after) (hinert : ∀ t ∈ after, t.isInert = true)
    {strict : Bool} {address next taken : Nat} {bytes : List UInt8}
    (hnext : step address s before = .ok next)
    (hlays : Lays (encode strict address s after) bytes taken) :
    next = address + bytes.length ↔ displaced s before after = false := by
  rcases (encode_lays hlays).1 with ⟨hkind, hlays⟩ | ⟨hkind, -, hlays⟩
  · -- both passes move on by the size of an instruction, each of the one that it has chosen
    rw [step, hkind] at hnext
    obtain ⟨i, hi, hnext⟩ := Trace.except_bind_eq_ok.1 hnext
    obtain ⟨-, j, -, -, hj, -⟩ := instruction_lays hlays
    obtain rfl := Except.ok.inj hnext
    rw [length_of_instruction hlays hj, Nat.add_left_cancel_iff]
    exact instruction_size_iff hkind hi hj hsteps hinert (kind_ne_string_of_instruction hlays)
  · -- a directive has the same size in both passes, and is never displaced
    rw [step, hkind] at hnext
    have hdisplaced : displaced s before after = false := by simp [displaced, hkind]
    exact iff_of_true (directive_size hkind hsuffix hsteps hinert hnext hlays) hdisplaced

/-! ### A whole run -/

/-- A stream is encoded as the given statements, from an address on. -/
inductive Encoding (strict : Bool) : Nat → List Symbol → List Statement → Prop where
  | nil (address : Nat) : Encoding strict address [] []
  | cons {address taken : Nat} {s : Symbol} {following : List Symbol} {bytes : List UInt8}
      {later : List Statement}
      (hstatement : Lays (statement strict address s following) bytes taken)
      (hlater : Encoding strict (address + bytes.length) (following.drop taken) later) :
      Encoding strict address (s :: following)
        (⟨address, bytes, s :: following.take taken⟩ :: later)

/-- A run that succeeds is an encoding. -/
theorem encoding_of_outcome {strict : Bool} {address : Nat} {symbols : List Symbol}
    (h : (encodeFrom strict address symbols).outcome = .ok ()) :
    Encoding strict address symbols (encodeFrom strict address symbols).statements := by
  -- on the length, as a statement takes several symbols
  induction hn : symbols.length using Nat.strongRecOn generalizing address symbols with
  | ind n ih =>
    match symbols with
    | [] =>
      rw [encodeFrom]
      exact .nil address
    | s :: following =>
      obtain ⟨bytes, taken, hstatement, hlater⟩ := encodeFrom_cases h
      rw [encodeFrom_cons hstatement]
      refine .cons hstatement (ih (following.drop taken).length ?_ hlater rfl)
      simp only [List.length_drop, ← hn, List.length_cons]
      omega

namespace Encoding

variable {strict : Bool} {address : Nat} {symbols : List Symbol} {statements : List Statement}

/-- Nothing is left over behind the statements. -/
theorem fragment_eq (h : Encoding strict address symbols statements) :
    (encodeFrom strict address symbols).fragment = [] := by
  induction h with
  | nil address => rw [encodeFrom]
  | cons hstatement _ ih => rw [encodeFrom_cons hstatement, ← ih]

end Encoding

/-- The number of bytes in front of each statement, and of all bytes, from an offset on. -/
def offsetsFrom (offset : Nat) : List Statement → List Nat
  | [] => [offset]
  | s :: rest => offset :: offsetsFrom (offset + s.bytes.length) rest

/-- The offset at a boundary is the number of bytes before it. -/
theorem offsetsFrom_eq (offset : Nat) (statements : List Statement) :
    offsetsFrom offset statements = (List.range (statements.length + 1)).map fun i =>
      offset + ((statements.take i).flatMap (·.bytes)).length := by
  induction statements generalizing offset with
  | nil => rfl
  -- one statement more at the beginning shifts all boundaries by its bytes
  | cons s rest ih =>
    rw [offsetsFrom, ih, List.length_cons, List.range_succ_eq_map (n := rest.length + 1),
      List.map_cons, List.map_map]
    simp only [Function.comp_def, List.take_succ_cons, List.flatMap_cons, List.length_append,
      List.take_zero, List.flatMap_nil, List.length_nil, Nat.add_zero, Nat.add_assoc]

/-- The first offset is where the run begins. -/
theorem offsetsFrom_zero (offset : Nat) (statements : List Statement) :
    (offsetsFrom offset statements)[0]? = some offset := by
  cases statements <;> rfl

/-- The last one has all bytes before it. -/
theorem offsetsFrom_getLast? (offset : Nat) (statements : List Statement) :
    (offsetsFrom offset statements).getLast? =
      some (offset + (statements.flatMap (·.bytes)).length) := by
  induction statements generalizing offset with
  | nil => rfl
  | cons s rest ih =>
    have hne : offsetsFrom (offset + s.bytes.length) rest ≠ [] := by
      cases rest <;> simp [offsetsFrom]
    rw [offsetsFrom, List.getLast?_cons_of_ne_nil hne, ih, List.flatMap_cons, List.length_append,
      Nat.add_assoc]

/-- **A run.** The address counter of the first pass has the same values as the offset of the second
exactly if no instruction is displaced. -/
theorem counters_eq_offsets_iff {symbols resolved : List Symbol} {strict : Bool} {address : Nat}
    {statements : List Statement} (hinert : ∀ s ∈ resolved, s.isInert = true)
    (hencoding : Encoding strict address resolved statements)
    {heads : List (Symbol × List Symbol)}
    (hsuffix : ∀ h ∈ heads, h.1 :: h.2 <:+ Grouping.grouped symbols)
    (hheads : List.Forall₂ Traced heads (headsOf resolved)) {counted : List Nat}
    (hcounted : counters address heads = .ok counted) :
    counted = offsetsFrom address statements ↔
      ∀ x ∈ heads.zip (headsOf resolved), displaced x.1.1 x.1.2 x.2.2 = false := by
  induction hencoding generalizing heads counted with
  | nil address =>
    cases hheads
    obtain rfl := Except.ok.inj hcounted
    simp [offsetsFrom]
  | @cons address taken s following bytes later hstatement _ ih =>
    have hlays := lays_encode_of_statement hstatement
    rw [headsOf_of_encode hlays] at hheads ⊢
    cases hheads with
    | @cons head _ heads _ htraced hmore =>
      obtain ⟨t, before⟩ := head
      obtain ⟨rfl, hsteps⟩ := htraced
      obtain ⟨next, more, hnext, hcounters, rfl⟩ := counters_cons.1 hcounted
      have hone := step_agrees_iff (hsuffix _ List.mem_cons_self) hsteps
        (fun u hu => hinert u (List.mem_cons_of_mem _ hu)) hnext hlays
      rw [offsetsFrom, List.cons.injEq, List.zip_cons_cons, List.forall_mem_cons, ← hone]
      -- the induction applies only as long as the two counts are the same
      have hrest (h : next = address + bytes.length) := ih
        (fun u hu => hinert u (List.mem_cons_of_mem _ (List.mem_of_mem_drop hu)))
        (fun k hk => hsuffix k (List.mem_cons_of_mem _ hk)) hmore (h ▸ hcounters)
      constructor
      · rintro ⟨-, hmore⟩
        -- the counter that comes next shows whether the two are still in step
        have hstep : next = address + bytes.length := by
          have hzero := counters_zero hcounters
          rw [hmore, offsetsFrom_zero] at hzero
          exact (Option.some.inj hzero).symm
        exact ⟨hstep, (hrest hstep).1 hmore⟩
      · rintro ⟨hstep, hmore⟩
        exact ⟨rfl, (hrest hstep).2 hmore⟩

/-! ### The stops of a run -/

namespace Encoding

variable {strict : Bool} {g : Generator} {symbols : List Symbol} {statements : List Statement}

/-- Nothing of the stream is left out, taken twice or moved. -/
theorem flatMap_symbols {address : Nat} (h : Encoding strict address symbols statements) :
    statements.flatMap (·.symbols) = symbols := by
  induction h with
  | nil address => rfl
  | cons _ _ ih => rw [List.flatMap_cons, ih, List.cons_append, List.take_append_drop]

/-- One step of the generator, and the stops from there on. -/
theorem stops_cons {s : Symbol} {following : List Symbol} {bytes : List UInt8} {taken : Nat}
    (h : Lays (statement strict g.address s following) bytes taken) :
    g.stops strict (s :: following) = (g, s :: following) ::
      (g.extended [⟨g.address, bytes, s :: following.take taken⟩] []).stops strict
        (following.drop taken) := by
  rw [Generator.stops, Generator.step_of_ok h.1]
  simp only [h.2]

/-- **Each stop of a run.** The state is extended by the statements so far, and what is left of the
stream is what the other statements take. -/
theorem stops_eq (h : Encoding strict g.address symbols statements) :
    g.stops strict symbols = (List.range (statements.length + 1)).map fun i =>
      (g.extended (statements.take i) [], (statements.drop i).flatMap (·.symbols)) := by
  -- along the run, for any state that stands at the address
  generalize haddress : g.address = address at h
  induction h generalizing g with
  | nil address =>
    rw [Generator.stops]
    exact congrArg (fun state => [(state, [])]) g.extended_nil.symm
  | @cons address taken s following bytes later hstatement hlater ih =>
    subst haddress
    have hsymbols := (Encoding.cons hstatement hlater).flatMap_symbols
    rw [stops_cons hstatement, ih, List.length_cons,
      List.range_succ_eq_map (n := later.length + 1), List.map_cons, List.map_map, List.take_zero,
      List.drop_zero, g.extended_nil, hsymbols]
    · -- from the first statement on, one statement more has been made at each stop
      simp only [Function.comp_def, List.take_succ_cons, List.drop_succ_cons,
        Generator.extended_cons]
    · simp [Generator.extended, Generator.emit]

/-- The code has become longer by the bytes of the statements, one after the other. -/
theorem map_stops_length (h : Encoding strict g.address symbols statements) :
    (g.stops strict symbols).map (·.1.code.length) = offsetsFrom g.code.length statements := by
  rw [h.stops_eq, List.map_map, offsetsFrom_eq]
  simp only [Function.comp_def, Generator.extended, Generator.emit, List.append_nil,
    List.length_append]

/-- What is left of the stream begins with the next head, and in the end with nothing. -/
theorem map_stops_head? (h : Encoding strict g.address symbols statements) :
    (g.stops strict symbols).map (·.2.head?) =
      (headsOf symbols).map (fun k => some k.1) ++ [none] := by
  -- along the run again
  generalize haddress : g.address = address at h
  induction h generalizing g with
  | nil address =>
    rw [Generator.stops]
    rfl
  | cons hstatement _ ih =>
    subst haddress
    rw [stops_cons hstatement, headsOf_of_encode (lays_encode_of_statement hstatement),
      List.map_cons, List.map_cons, List.cons_append, ih]
    · rfl
    · simp [Generator.extended, Generator.emit]

end Encoding

/-- **A run of the generator that succeeds** is an encoding of the stream, and the code is that of
the statements. -/
theorem encoding_of_generate {g : Generator} {strict : Bool} {q : Program} {code : List UInt8}
    (h : (g.generate strict q).outcome = .ok code) :
    ∃ statements, Encoding strict 0 q.symbols statements ∧ code = statements.flatMap (·.bytes) ∧
      (g.generate strict q).state =
        ⟨code, code.length, q.tags, statements.map Statement.line⟩ := by
  obtain ⟨hencode, rfl⟩ := Generator.outcome_generate_ok.1 h
  have hencoding := encoding_of_outcome hencode
  have hcode : (reached strict q).code =
      (encodeFrom strict 0 q.symbols).statements.flatMap (·.bytes) := by
    rw [reached, Encoded.bytes, hencoding.fragment_eq, List.append_nil]
  refine ⟨_, hencoding, hcode, ?_⟩
  rw [Generator.generate_of_ok hencode]
  rfl

/-- The stops of a program are those of its stream, from a cleared state on. -/
theorem Encoding.offsets_eq {strict : Bool} {q : Program} {statements : List Statement}
    (h : Encoding strict 0 q.symbols statements) (g : Generator) :
    g.offsets strict q = offsetsFrom 0 statements :=
  map_stops_length (g := g.start q) h

/-! ### A source that is assembled -/

/-- What a source goes through until its labels are placed. -/
theorem exists_of_placed {source : Source} {p : Program}
    (h : (Assembler.placed source).outcome = .ok p) :
    ∃ symbols, source.symbols = .ok symbols ∧
      (place (Grouping.grouped symbols)).outcome = .ok p := by
  obtain ⟨symbols, hsymbols, h⟩ := Trace.outcome_bind_eq_ok.1 h
  obtain ⟨grouped, hgrouped, h⟩ := Trace.outcome_bind_eq_ok.1 h
  obtain ⟨_, hread, htokenize⟩ := Trace.outcome_bind_eq_ok.1 hsymbols
  obtain ⟨_, -, htokenize⟩ := Trace.outcome_bind_eq_ok.1 htokenize
  obtain ⟨_, -, hgroup⟩ := Trace.outcome_bind_eq_ok.1 hgrouped
  -- neither grouping nor logging can fail
  obtain rfl := Except.ok.inj htokenize
  obtain rfl := Except.ok.inj hgroup
  exact ⟨_, hread, h⟩

/-- Once the symbols of a source are known, its labels can be placed. -/
theorem placed_of_symbols {source : Source} {symbols : List Symbol}
    (h : source.symbols = .ok symbols) :
    (Assembler.placed source).outcome = (place (Grouping.grouped symbols)).outcome := by
  have htokenize : source.tokenize.outcome = .ok symbols := by
    rw [Source.tokenize, Trace.outcome_bind, Trace.outcome_liftM, h]
    rfl
  rw [Assembler.placed, Trace.outcome_bind, htokenize]
  rfl

/-- Each head of the grouped stream is still there in the resolved one. -/
theorem traced_of_resolve {symbols : List Symbol} {p q : Program}
    (hplace : (place symbols).outcome = .ok p) (hresolve : (resolve p).outcome = .ok q) :
    List.Forall₂ Traced (headsOf symbols) (headsOf q.symbols) := by
  obtain ⟨hsymbols, -⟩ := placeFrom_counters hplace
  have hheads := headsOf_steps (resolve_steps hresolve).1
  rw [hsymbols, headsOf_withoutLabels, List.forall₂_map_left_iff] at hheads
  exact hheads

/-- The heads are the same symbols in both streams. -/
theorem map_fst_of_traced {heads heads' : List (Symbol × List Symbol)}
    (h : List.Forall₂ Traced heads heads') :
    heads.map (fun k => some k.1) = heads'.map (fun k => some k.1) := by
  induction h with
  | nil => rfl
  | cons h _ ih => rw [List.map_cons, List.map_cons, ih, h.1]

/-- **The passes agree exactly on the programs without displaced instructions.** For a source that
is assembled, the first pass has counted an address at each head and at the end, and the second has
reached the same heads with some number of bytes laid down, the last of which is the length of the
code. These numbers are the same, one by one, exactly if no instruction is displaced; and then every
label stands for the offset of the byte that comes next. -/
theorem addresses_agree_iff {source : Source} {g : Generator} {strict : Bool} {p q : Program}
    {code : List UInt8} (hplaced : (Assembler.placed source).outcome = .ok p)
    (hresolved : (resolve p).outcome = .ok q)
    (hgenerated : (g.generate strict q).outcome = .ok code) :
    ∃ symbols counted, source.symbols = .ok symbols ∧
      counters 0 (headsOf (Grouping.grouped symbols)) = .ok counted ∧
      (g.stopsOf strict q).map (·.2.head?) =
        (headsOf (Grouping.grouped symbols)).map (fun h => some h.1) ++ [none] ∧
      (g.offsets strict q).getLast? = some code.length ∧
      (counted = g.offsets strict q ↔
        ∀ x ∈ (headsOf (Grouping.grouped symbols)).zip (headsOf q.symbols),
          displaced x.1.1 x.1.2 x.2.2 = false) ∧
      (counted = g.offsets strict q →
        ∀ before x rest, Grouping.grouped symbols = before ++ x :: rest → isLabel x rest = true →
          ∃ n, (g.offsets strict q)[(headsOf before).length]? = some n ∧
            q.tags.get? x.text = some (some (n : Int))) := by
  obtain ⟨symbols, hsymbols, hplace⟩ := exists_of_placed hplaced
  obtain ⟨-, counted, hcounted⟩ := placeFrom_counters hplace
  obtain ⟨statements, hencoding, rfl, -⟩ := encoding_of_generate hgenerated
  have htraced := traced_of_resolve hplace hresolved
  have hstops : (g.stopsOf strict q).map (·.2.head?) = _ :=
    Encoding.map_stops_head? (g := g.start q) hencoding
  rw [hencoding.offsets_eq g]
  refine ⟨symbols, counted, hsymbols, hcounted, ?_, ?_, ?_, ?_⟩
  · rw [hstops, map_fst_of_traced htraced]
  · rw [offsetsFrom_getLast?, Nat.zero_add]
  · exact counters_eq_offsets_iff (resolve_steps hresolved).2 hencoding
      (fun h hh => (suffix_of_mem_headsOf hh).2) htraced hcounted
  · -- the first pass gives a label the address that it counts at the next head
    intro hagree before x rest hsplit hlabel
    rw [← hagree]
    rw [hsplit] at hplace hcounted
    obtain ⟨n, hn, htag⟩ := placeFrom_label_get? hplace hlabel hcounted
    exact ⟨n, hn, resolve_get? hresolved htag⟩

/-! ### A program on which they agree, and one on which they do not -/

/-- A column of the first line. -/
def inFirstLine (column : Int) : Option Location := some ⟨"p.asm", 1, column⟩

/-- A jump to a label further on, and an operand that is known only at the end. -/
def jumpAhead : Source where
  text := "JMP z ADD !2*n z: HLT n=3".toList
  file := "p.asm"

/-- The symbols of the program. -/
def jumpAheadSymbols : List Symbol :=
  [⟨.mnemonic, "JMP", none, inFirstLine 1⟩, ⟨.identifier, "z", none, inFirstLine 5⟩,
    ⟨.mnemonic, "ADD", none, inFirstLine 7⟩, ⟨.immediate, "!", none, inFirstLine 11⟩,
    ⟨.integer, "2", some 2, inFirstLine 12⟩, .ofOperator "*" (inFirstLine 13),
    ⟨.identifier, "n", none, inFirstLine 14⟩, ⟨.identifier, "z", none, inFirstLine 16⟩,
    .ofOperator ":" (inFirstLine 17), ⟨.mnemonic, "HLT", none, inFirstLine 19⟩,
    ⟨.identifier, "n", none, inFirstLine 23⟩, .ofOperator "=" (inFirstLine 24),
    ⟨.integer, "3", some 3, inFirstLine 25⟩]

/-- The program with its label placed. -/
def jumpAheadPlaced : Program where
  symbols :=
    [⟨.mnemonic, "JMP", none, inFirstLine 1⟩, ⟨.identifier, "z", none, inFirstLine 5⟩,
      ⟨.mnemonic, "ADD", none, inFirstLine 7⟩, ⟨.immediate, "!", none, inFirstLine 11⟩,
      .ofOperator "(" (inFirstLine 13), ⟨.integer, "2", some 2, inFirstLine 12⟩,
      .ofOperator "*" (inFirstLine 13), ⟨.identifier, "n", none, inFirstLine 14⟩,
      .ofOperator ")" (inFirstLine 13), ⟨.mnemonic, "HLT", none, inFirstLine 19⟩,
      ⟨.identifier, "n", none, inFirstLine 23⟩, .ofOperator "=" (inFirstLine 24),
      ⟨.integer, "3", some 3, inFirstLine 25⟩]
  tags := [("z", some 5)]
  definitions := [("z", inFirstLine 16)]

/-- The program with all its operands known. -/
def jumpAheadResolved : Program where
  symbols :=
    [⟨.mnemonic, "JMP", none, inFirstLine 1⟩, ⟨.integer, "5", some 5, inFirstLine 5⟩,
      ⟨.mnemonic, "ADD", none, inFirstLine 7⟩, ⟨.immediate, "!", none, inFirstLine 11⟩,
      ⟨.integer, "6", some 6, inFirstLine 12⟩, ⟨.mnemonic, "HLT", none, inFirstLine 19⟩]
  tags := [("z", some 5), ("n", some 3)]
  definitions := [("z", inFirstLine 16), ("n", inFirstLine 23)]

theorem symbols_jumpAhead : jumpAhead.symbols = .ok jumpAheadSymbols := by cbv

/-- The label stands behind five bytes, three for the jump and two for the sum. -/
theorem placed_jumpAhead : (Assembler.placed jumpAhead).outcome = .ok jumpAheadPlaced := by
  rw [placed_of_symbols symbols_jumpAhead]
  cbv

/-- One round finds all values, and a second one finds that nothing is left to do. -/
theorem resolve_jumpAhead : (resolve jumpAheadPlaced).outcome = .ok jumpAheadResolved := by
  have hfirst : (round jumpAheadPlaced).outcome = .ok ⟨jumpAheadResolved, true, []⟩ := by cbv
  have hlast : (round jumpAheadResolved).outcome = .ok ⟨jumpAheadResolved, false, []⟩ := by cbv
  exact resolve_of_progress hfirst rfl hlast rfl rfl (by cbv)

/-- A generator that has been used for something else. -/
def usedGenerator : Generator where
  code := [0x20, 0xff]
  address := 2
  tags := [("z", some 9)]
  lines := ["0000  20 ff           1  ADD"]

/-- Both passes count the addresses of the three instructions alike. -/
theorem jumpAhead_agrees : (Assembler.placed jumpAhead).outcome = .ok jumpAheadPlaced ∧
    (resolve jumpAheadPlaced).outcome = .ok jumpAheadResolved ∧
    (usedGenerator.generate true jumpAheadResolved).outcome =
      .ok [0xa0, 0x05, 0x00, 0x30, 0x06, 0xff] ∧
    ∃ symbols counted, jumpAhead.symbols = .ok symbols ∧
      counters 0 (headsOf (Grouping.grouped symbols)) = .ok counted ∧
      counted = usedGenerator.offsets true jumpAheadResolved := by
  have hgenerate : (usedGenerator.generate true jumpAheadResolved).outcome =
      .ok [0xa0, 0x05, 0x00, 0x30, 0x06, 0xff] := by cbv
  obtain ⟨symbols, counted, hsymbols, hcounted, -, -, hiff, -⟩ :=
    addresses_agree_iff placed_jumpAhead resolve_jumpAhead hgenerate
  obtain rfl := Except.ok.inj (symbols_jumpAhead.symm.trans hsymbols)
  refine ⟨placed_jumpAhead, resolve_jumpAhead, hgenerate, _, counted, hsymbols, hcounted,
    hiff.2 ?_⟩
  -- no instruction is displaced, as a look at each pair of heads shows
  have hnone : ((headsOf (Grouping.grouped jumpAheadSymbols)).zip
      (headsOf jumpAheadResolved.symbols)).all
        (fun x => !displaced x.1.1 x.1.2 x.2.2) = true := by cbv
  simpa using hnone

/-- An operand that is hidden behind a definition. -/
def hiddenOperand : Source where
  text := "ADD x = 1 5 end :".toList
  file := "p.asm"

/-- The symbols of the program. -/
def hiddenOperandSymbols : List Symbol :=
  [⟨.mnemonic, "ADD", none, inFirstLine 1⟩, ⟨.identifier, "x", none, inFirstLine 5⟩,
    .ofOperator "=" (inFirstLine 7), ⟨.integer, "1", some 1, inFirstLine 9⟩,
    ⟨.integer, "5", some 5, inFirstLine 11⟩, ⟨.identifier, "end", none, inFirstLine 13⟩,
    .ofOperator ":" (inFirstLine 17)]

/-- The program with its label placed. -/
def hiddenOperandPlaced : Program where
  symbols :=
    [⟨.mnemonic, "ADD", none, inFirstLine 1⟩, ⟨.identifier, "x", none, inFirstLine 5⟩,
      .ofOperator "=" (inFirstLine 7), ⟨.integer, "1", some 1, inFirstLine 9⟩,
      ⟨.integer, "5", some 5, inFirstLine 11⟩]
  tags := [("end", some 1)]
  definitions := [("end", inFirstLine 13)]

/-- The program with all its operands known. -/
def hiddenOperandResolved : Program where
  symbols := [⟨.mnemonic, "ADD", none, inFirstLine 1⟩, ⟨.integer, "5", some 5, inFirstLine 11⟩]
  tags := [("end", some 1), ("x", some 1)]
  definitions := [("end", inFirstLine 13), ("x", inFirstLine 5)]

/-- With the definition gone, the number behind it becomes the operand. -/
theorem resolve_hiddenOperand :
    (resolve hiddenOperandPlaced).outcome = .ok hiddenOperandResolved := by
  have hfirst : (round hiddenOperandPlaced).outcome = .ok ⟨hiddenOperandResolved, true, []⟩ := by
    cbv
  have hlast : (round hiddenOperandResolved).outcome = .ok ⟨hiddenOperandResolved, false, []⟩ := by
    cbv
  exact resolve_of_progress hfirst rfl hlast rfl rfl (by cbv)

/-- **The passes do not always agree.** The label behind three bytes of code has the address one. -/
theorem hiddenOperand_disagrees :
    (Assembler.placed hiddenOperand).outcome = .ok hiddenOperandPlaced ∧
    (resolve hiddenOperandPlaced).outcome = .ok hiddenOperandResolved ∧
    (Generator.unused.generate false hiddenOperandResolved).outcome = .ok [0x10, 0x05, 0x00] ∧
    Generator.unused.offsets false hiddenOperandResolved = [0, 3] ∧
    hiddenOperandResolved.tags.get? "end" = some (some 1) ∧
    hiddenOperand.symbols = .ok hiddenOperandSymbols ∧
    counters 0 (headsOf (Grouping.grouped hiddenOperandSymbols)) = .ok [0, 1] := by
  have hsymbols : hiddenOperand.symbols = .ok hiddenOperandSymbols := by cbv
  refine ⟨?_, resolve_hiddenOperand, by cbv, by cbv, rfl, hsymbols, by cbv⟩
  rw [placed_of_symbols hsymbols]
  cbv

end RomAsm
