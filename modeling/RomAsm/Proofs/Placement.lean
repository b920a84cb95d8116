import RomAsm.Proofs.Located
import RomAsm.Proofs.Rounds

/-!
# Laying out a program

The first pass walks over the stream of a program, with all grouping spelled out, and moves its
counter on at the first symbol of each statement. That it moves on by the size of the statement
depends on what follows that symbol, and here the stream has no separators: an operation of the
arithmetic unit without an operand must be told from one with an operand by the symbols of the next
element. They never look like an operand (`absent_elements`), and an operand never looks like the
beginning of an element (`Tree.absent_append`); so the mode is the right one (`Argument.mode_eq`).

`Element.placeFrom_symbols` says what an element does to the counter and to the stream, and
`placeFrom_label_numbered` what a label does. `place_elements`, by induction, is about all of them:
the labels leave the stream, each with the size of what stands before it as its address, and
everything else stays.
-/

namespace RomAsm

open Layout

/-! ### Passing over symbols -/

section Walk

variable {address next : Nat} {tags : Table Value} {definitions : Table (Option Location)}
  {program : Program}

/-- A program with some more symbols in front of its stream. -/
def Program.behind (symbols : List Symbol) (p : Program) : Program :=
  { p with symbols := symbols ++ p.symbols }

theorem Program.map_behind_nil (outcome : Except Failure Program) :
    outcome.map (behind []) = outcome := by
  cases outcome <;> rfl

/-- Symbols that are put in front one after the other. -/
theorem Program.map_behind_map_behind (outcome : Except Failure Program) (a b : List Symbol) :
    (outcome.map (behind b)).map (behind a) = outcome.map (behind (a ++ b)) := by
  cases outcome with
  -- a failure has no stream
  | error failure => rfl
  | ok p => simp only [Except.map, behind, List.append_assoc]

/-- A symbol that is neither a label nor a colon stays, and the counter goes where its step says. -/
theorem placeFrom_cons {s : Symbol} {following : List Symbol}
    (hlabel : isLabel s following = false) (hcolon : s.isOp [":"] = false)
    (hstep : step address s following = .ok next) :
    (placeFrom address tags definitions (s :: following)).outcome =
      (placeFrom next tags definitions following).outcome.map (Program.behind [s]) := by
  rw [placeFrom.eq_def address tags definitions (s :: following)]
  dsimp only
  rw [hlabel, if_neg Bool.false_ne_true, hcolon, if_neg Bool.false_ne_true, Trace.outcome_bind,
    Trace.outcome_liftM, hstep, Trace.except_ok_bind, Trace.outcome_bind]
  cases (placeFrom next tags definitions following).outcome <;> rfl

/-- No symbol of the first list begins a statement or a label when the second list follows. -/
abbrev Passive : List Symbol → List Symbol → Prop :=
  Along fun s following => s.startsStatement = false ∧ s.isOp [":"] = false ∧
    isLabel s following = false

/-- Only the head of a statement moves the counter. -/
theorem step_of_not_startsStatement {s : Symbol} (h : s.startsStatement = false) (address : Nat)
    (following : List Symbol) : step address s following = .ok address := by
  simp only [Symbol.startsStatement, Bool.or_eq_false_iff, beq_eq_false_iff_ne] at h
  unfold step
  split
  · next hkind => exact absurd hkind h.1
  · next hkind => exact absurd hkind h.2
  · rfl

/-- Symbols that begin nothing stay in the stream and do not move the counter. -/
theorem placeFrom_passive {symbols rest : List Symbol} (hpassive : Passive symbols rest) :
    (placeFrom address tags definitions (symbols ++ rest)).outcome =
      (placeFrom address tags definitions rest).outcome.map (Program.behind symbols) := by
  induction symbols with
  | nil => rw [List.nil_append, Program.map_behind_nil]
  | cons s symbols ih =>
    -- by the symbols, each of which leaves the counter where it is
    obtain ⟨⟨hstatement, hcolon, hlabel⟩, hpassive⟩ := hpassive
    rw [List.cons_append, placeFrom_cons hlabel hcolon (step_of_not_startsStatement hstatement _ _),
      ih hpassive, Program.map_behind_map_behind, List.singleton_append]

/-- A label leaves the stream and is given the address. -/
theorem placeFrom_label {s colon : Symbol} {rest : List Symbol}
    (hlabel : isLabel s (colon :: rest) = true) (hnew : tags.has s.text = false) :
    (placeFrom address tags definitions (s :: colon :: rest)).outcome =
      numeral address >>= fun _ => (placeFrom address (tags.put s.text (some address))
        (Program.recordPlace definitions s) rest).outcome := by
  have hcheck : Program.checkNew tags definitions s = .ok () := by
    rw [Program.checkNew, hnew, if_neg Bool.false_ne_true]
  rw [placeFrom, if_pos hlabel, Trace.outcome_bind, Trace.outcome_liftM, hcheck,
    Trace.except_ok_bind, Trace.outcome_bind, Trace.outcome_liftM]
  cases numeral address <;> rfl

end Walk

/-- A tree begins neither a statement nor a label. -/
theorem Tree.passive (t : Tree) {rest : List Symbol} (h : Fresh rest) : Passive t.symbols rest := by
  refine t.along (fun _ _ _ _ => ⟨rfl, rfl, rfl⟩) (fun text place rest htext => ⟨rfl, ?_, rfl⟩)
    (fun x place rest h => ⟨rfl, rfl, ?_⟩) (h.any_isOp ":" ["="] (by decide))
  · have hne : text ≠ ":" := by
      rintro rfl
      exact absurd htext (by decide)
    simp [Symbol.isOp, Symbol.ofOperator, hne]
  · -- a name in the tree would need a colon behind it
    change (rest.head?.any fun s => s.isOp [":"]) = false
    cases rest with
    | nil => rfl
    | cons s rest =>
      simp only [List.head?_cons, Option.any_some, Symbol.isOp] at h ⊢
      by_cases hs : s.text = ":" <;> simp_all

/-! ### Operands and elements are told apart -/

/-- What does not look like an operand does not begin with an operator, so nothing before it can be
taken for a label, a definition or the left side of an operation. -/
theorem fresh_of_absent {rest : List Symbol} (h : Operand.absent rest = true) : Fresh rest := by
  intro s more heq hkind
  subst heq
  simp [Operand.absent, Symbol.startsStatement, Symbol.isIdentifier, hkind] at h

/-- An operand does not look like the beginning of an element. -/
theorem Tree.absent_append (t : Tree) {rest : List Symbol} (h : Fresh rest) :
    Operand.absent (t.symbols ++ rest) = false := by
  cases t with
  | literal text n place => rfl
  | name x place =>
    -- only a colon or an equals sign would make a label or a definition of the name
    have hnext := h.any_isOp ":" ["="] (by decide)
    change (false || (true && rest.head?.any fun s => s.isOp [":", "="])) = false
    rw [hnext]
    rfl
  | group opening t closing => rfl
  | node opening l o place r closing => rfl

/-- A tree has a first symbol, which selects no mode of its own. -/
theorem Tree.exists_head (t : Tree) (rest : List Symbol) :
    ∃ s more, t.symbols ++ rest = s :: more ∧ s.mode? = .ok none := by
  cases t <;> exact ⟨_, _, rfl, rfl⟩

/-- The beginning of an element does not look like an operand. -/
theorem absent_elements {ε : Type} (write : ε → List Symbol)
    (xs : List (Element (Option Location) ε)) :
    Operand.absent (xs.flatMap (Element.symbols write)) = true := by
  cases xs with
  | nil => rfl
  | cons x xs => cases x <;> rfl

/-- Just the instructions without an operand have a mode of their own. -/
theorem Machine.takesOperand_eq_false_iff {i : Instruction} (h : i ∈ instructions) :
    takesOperand i.mnemonic = false ↔ i.mode = .inherent := by
  have hall : ∀ i ∈ instructions, takesOperand i.mnemonic = false ↔ i.mode = .inherent := by decide
  exact hall i h

/-- Where there is an operand, its first symbol selects the mode, and without a marker the operand
is an address. -/
theorem Operand.mode_of_head {mnemonic s : Symbol} {more : List Symbol}
    {selected : Option Machine.Mode} (htakes : Machine.takesOperand mnemonic.text = true)
    (habsent : absent (s :: more) = false) (hs : s.mode? = .ok selected) :
    mode mnemonic (s :: more) = .ok (selected.getD .direct) := by
  unfold mode
  rw [htakes, habsent]
  change s.mode?.map (·.getD .direct) = _
  rw [hs]
  rfl

/-- A marker that is listed selects its mode. -/
theorem Symbol.mode?_marker {text : String} {mode : Machine.Mode}
    (h : Machine.markers.lookup text = some mode) (place : Option Location) :
    mode? ⟨if mode = .stack then .stack else .accumulator, text, none, place⟩ =
      .ok (some mode) := by
  by_cases hstack : mode = .stack
  · rw [if_pos hstack, mode?, h]
  · rw [if_neg hstack, mode?, h]

/-- **The mode is the one that the argument selects**, whatever element follows. -/
theorem Argument.mode_eq {i : Machine.Instruction} {a : Argument (Option Location) Tree}
    (h : Machine.instruction? i.mnemonic (a.mode i.mnemonic) = some i) (place : Option Location)
    {rest : List Symbol} (hrest : Operand.absent rest = true) :
    Operand.mode ⟨.mnemonic, i.mnemonic, none, place⟩ (spread Tree.symbols a.parts ++ rest) =
      .ok (a.mode i.mnemonic) := by
  obtain ⟨hmem, -, hmode⟩ := Machine.of_instruction? h
  -- a mnemonic that takes no operand has the inherent mode only
  have htakes (hother : a.mode i.mnemonic ≠ .inherent) :
      Machine.takesOperand i.mnemonic = true := by
    by_contra hnot
    rw [Bool.not_eq_true, Machine.takesOperand_eq_false_iff hmem, hmode] at hnot
    exact hother hnot
  cases a with
  | absent =>
    -- without an argument the arithmetic unit works on the accumulator
    by_cases halu : Machine.isAlu i.mnemonic = true
    · have hselected : mode (π := Option Location) (ε := Tree) i.mnemonic .absent = .accumulator :=
        if_pos halu
      rw [hselected] at htakes ⊢
      change Operand.mode _ rest = _
      unfold Operand.mode
      rw [htakes nofun, hrest, if_pos halu]
      rfl
    · have hselected : mode (π := Option Location) (ε := Tree) i.mnemonic .absent = .inherent :=
        if_neg halu
      rw [hselected] at hmode ⊢
      unfold Operand.mode
      rw [(Machine.takesOperand_eq_false_iff hmem).2 hmode]
      rfl
  | marker text mode hmarker mark =>
    have hother : mode ≠ .inherent := by
      have hall : ∀ m ∈ Machine.markers, m.2 ≠ .inherent := by decide
      exact hall (text, mode) (Table.mem_of_get? hmarker)
    have habsent : Operand.absent
        (⟨if mode = .stack then .stack else .accumulator, text, none, mark⟩ :: rest) = false := by
      by_cases hstack : mode = .stack
      · rw [if_pos hstack]
        rfl
      · rw [if_neg hstack]
        rfl
    exact Operand.mode_of_head (htakes hother) habsent (Symbol.mode?_marker hmarker mark)
  -- the sign selects the mode by itself
  | immediate mark t =>
    have hsymbol : Symbol.mode? ⟨.immediate, "!", none, mark⟩ = .ok (some .immediate) := rfl
    exact Operand.mode_of_head (htakes nofun) rfl hsymbol
  | direct t =>
    obtain ⟨s, more, hcons, hs⟩ := t.exists_head rest
    -- the operand is told from the next element by its first two symbols
    have habsent := t.absent_append (fresh_of_absent hrest)
    rw [hcons] at habsent
    change Operand.mode _ (t.symbols ++ [] ++ rest) = _
    rw [List.append_nil, hcons]
    exact Operand.mode_of_head (htakes nofun) habsent hs

/-- So the instruction is the right one as well. -/
theorem Argument.instruction_eq {i : Machine.Instruction} {a : Argument (Option Location) Tree}
    (h : Machine.instruction? i.mnemonic (a.mode i.mnemonic) = some i) (place : Option Location)
    {rest : List Symbol} (hrest : Operand.absent rest = true) :
    Operand.instruction ⟨.mnemonic, i.mnemonic, none, place⟩ (spread Tree.symbols a.parts ++ rest) =
      .ok i := by
  rw [Operand.instruction, a.mode_eq h place hrest, Trace.except_ok_bind]
  dsimp only
  rw [h]
  rfl

/-! ### Operands of directives -/

namespace Operand

theorem literal_symbol (directive : Symbol) (n : Unsigned) (place : Option Location)
    (rest : List Symbol) :
    literal directive (n.symbol place :: rest) = .ok (n.symbol place) := rfl

/-- A literal has no sign, so the check lets it pass. -/
theorem nonNegative_symbol (problem : String → Problem) (n : Unsigned) (place : Option Location) :
    nonNegative problem (n.symbol place) = .ok n.value := by
  have hnot : ¬ (n.value : Int) < 0 := by omega
  have hvalue : (n.symbol place).value = some (n.value : Int) := rfl
  unfold nonNegative
  rw [hvalue]
  dsimp only
  rw [if_neg hnot, Int.toNat_natCast]

theorem reserve_symbol (directive : Symbol) (n : Unsigned) (place : Option Location)
    (rest : List Symbol) : reserve directive (n.symbol place :: rest) = .ok n.value := by
  rw [reserve, literal_symbol, Trace.except_ok_bind, nonNegative_symbol]

theorem origin_symbol (directive : Symbol) (n : Unsigned) (place : Option Location)
    (rest : List Symbol) : origin directive (n.symbol place :: rest) = .ok n.value := by
  rw [origin, literal_symbol, Trace.except_ok_bind, nonNegative_symbol]

theorem data_symbol (directive : Symbol) (n : Unsigned) (place : Option Location)
    (rest : List Symbol) : data directive (n.symbol place :: rest) = .ok (n.symbol place) := by
  rw [data, literal_symbol, Trace.except_ok_bind, nonNegative_symbol]
  rfl

/-- Escapes are resolved letter by letter, each to the character that it stands for. -/
theorem unescape_letters (letters : List Letter) :
    StringLiteral.unescape (letters.flatMap Letter.written) = letters.map Letter.char := by
  induction letters with
  | nil => rfl
  | cons l letters ih =>
    cases l with
    | plain c h =>
      change StringLiteral.unescape (c :: letters.flatMap Letter.written) =
        c :: letters.map Letter.char
      unfold StringLiteral.unescape
      -- a plain letter is no backslash, which excludes all other ways
      split
      · next e => cases e
      · next e => exact absurd (List.cons.inj e).1 h.2
      · next e => exact absurd (List.cons.inj e).1 h.2
      · next e =>
        cases e
        rw [ih]
    | escape c => exact congrArg (StringLiteral.escaped c :: ·) ih

/-- The text of a literal, once its quotes are taken off. -/
theorem decode_stringSymbol (letters : List Letter) (place : Option Location) :
    StringLiteral.decode (stringSymbol letters place).text =
      String.ofList (letters.map Letter.char) := by
  have hbody : (String.ofList ('"' :: stringBody letters)).toList.tail.dropLast =
      letters.flatMap Letter.written := by
    rw [String.toList_ofList, List.tail_cons, stringBody, List.dropLast_concat]
  change String.ofList (StringLiteral.unescape
    (String.ofList ('"' :: stringBody letters)).toList.tail.dropLast) = _
  rw [hbody, unescape_letters]

/-- The operand of `.string`. -/
theorem string_symbol (directive : Symbol) (letters : List Letter) (place : Option Location)
    (rest : List Symbol) : string directive (stringSymbol letters place :: rest) =
      .ok (String.ofList (letters.map Letter.char)) := by
  rw [← decode_stringSymbol letters place]
  rfl

end Operand

/-! ### One element -/

theorem passive_integer (n : Unsigned) (place : Option Location) (rest : List Symbol) :
    Passive [n.symbol place] rest :=
  ⟨⟨rfl, rfl, rfl⟩, trivial⟩

/-- Neither does an argument, whatever element follows. -/
theorem Argument.passive (a : Argument (Option Location) Tree) {rest : List Symbol}
    (h : Fresh rest) : Passive (spread Tree.symbols a.parts) rest := by
  cases a with
  | absent => exact trivial
  | marker text mode hmode place =>
    refine ⟨?_, trivial⟩
    by_cases hstack : mode = .stack
    · rw [if_pos hstack]
      exact ⟨rfl, rfl, rfl⟩
    · rw [if_neg hstack]
      exact ⟨rfl, rfl, rfl⟩
  | immediate mark t =>
    rw [parts, spread_inl, spread_inr, spread_nil, List.append_nil]
    exact ⟨⟨rfl, rfl, rfl⟩, t.passive h⟩
  | direct t =>
    rw [parts, spread_inr, spread_nil, List.append_nil]
    exact t.passive h

/-- **One statement.** The counter moves on by the size of a statement at its first symbol, and the
others do not move it. -/
theorem Element.step_eq {x : Element (Option Location) Tree} (hx : x.isStatement = true)
    {address : Nat} (hforward : x.Forward address) {rest : List Symbol}
    (hrest : Operand.absent rest = true) :
    ∃ head tail, x.symbols Tree.symbols = head :: tail ∧ head.startsStatement = true ∧
      step address head (tail ++ rest) = .ok (address + x.size address) ∧ Passive tail rest := by
  have hfresh := fresh_of_absent hrest
  -- by the kind of statement; each directive has its own rule for the size
  cases x with
  | label name place colon => cases hx
  | constant name place equals t => cases hx
  | instruction i a h place =>
    refine ⟨⟨.mnemonic, i.mnemonic, none, place⟩, spread Tree.symbols a.parts, rfl, rfl, ?_,
      a.passive hfresh⟩
    change (do return address + (← Operand.instruction _ _).size) = _
    rw [a.instruction_eq h place hrest]
    rfl
  | byte place t =>
    refine ⟨⟨.directive, ".byte", none, place⟩, t.symbols, ?_, rfl, ?_, t.passive hfresh⟩
    · change _ :: (t.symbols ++ []) = _
      rw [List.append_nil]
    · -- the size of a byte does not depend on the operand, but there must be one
      obtain ⟨s, more, hcons, -⟩ := t.exists_head rest
      have habsent := t.absent_append hfresh
      have hfirst :
          Operand.first ⟨.directive, ".byte", none, place⟩ (t.symbols ++ rest) = .ok s := by
        unfold Operand.first
        rw [habsent, hcons]
        rfl
      change (do let _ ← Operand.first _ _; return address + 1) = _
      rw [hfirst]
      rfl
  | reserve place n behind =>
    refine ⟨⟨.directive, ".reserve", none, place⟩, [n.symbol behind], rfl, rfl, ?_,
      passive_integer n behind rest⟩
    change (do return address + (← Operand.reserve _ (n.symbol behind :: rest))) = _
    rw [Operand.reserve_symbol]
    rfl
  | origin place n behind =>
    refine ⟨⟨.directive, ".org", none, place⟩, [n.symbol behind], rfl, rfl, ?_,
      passive_integer n behind rest⟩
    change Operand.origin _ (n.symbol behind :: rest) = _
    -- the address lies ahead, so the zeros up to there are the size
    have hsize : address + (n.value - address) = n.value := Nat.add_sub_of_le hforward
    rw [Operand.origin_symbol, size, hsize]
  | string place letters behind =>
    refine ⟨⟨.directive, ".string", none, place⟩, [stringSymbol letters behind], rfl, rfl, ?_,
      ⟨⟨rfl, rfl, rfl⟩, trivial⟩⟩
    change (do
      return address + (← Operand.string _ (stringSymbol letters behind :: rest)).length + 1) = _
    rw [Operand.string_symbol, Trace.except_ok_bind, String.length_ofList, List.length_map]
    rfl
  | data place n behind =>
    refine ⟨⟨.directive, ".data", none, place⟩, [n.symbol behind], rfl, rfl, ?_,
      passive_integer n behind rest⟩
    change (do
      let operand ← Operand.data _ (n.symbol behind :: rest)
      return address + (← (DataLiteral.size operand.text).mapError .numeral)) = _
    have hsize : DataLiteral.size (n.symbol behind).text = .ok n.literal.width :=
      DataLiteral.size_literal n.spelled
    rw [Operand.data_symbol, Trace.except_ok_bind, hsize]
    rfl

/-! ### A whole program -/

/-- What is left of a program when its labels have been taken out. -/
def unlabelled {ε : Type} (xs : List (Element (Option Location) ε)) :
    List (Element (Option Location) ε) :=
  xs.filter fun x => !x.isLabel

theorem isOp_colon_of_startsStatement {s : Symbol} (h : s.startsStatement = true)
    (following : List Symbol) : s.isOp [":"] = false ∧ isLabel s following = false := by
  simp only [Symbol.startsStatement, Bool.or_eq_true, beq_iff_eq] at h
  rcases h with h | h <;> simp [Symbol.isOp, isLabel, Symbol.isIdentifier, h]

section Counter

variable {address : Nat} {tags : Table Value} {definitions : Table (Option Location)}

/-- **An element that is no label** stays in the stream and moves the counter on by its size. -/
theorem Element.placeFrom_symbols {x : Element (Option Location) Tree} (hx : x.isLabel = false)
    (hforward : x.Forward address) {rest : List Symbol} (hrest : Operand.absent rest = true) :
    (placeFrom address tags definitions (x.symbols Tree.symbols ++ rest)).outcome =
      (placeFrom (address + x.size address) tags definitions rest).outcome.map
        (Program.behind (x.symbols Tree.symbols)) := by
  by_cases hstatement : x.isStatement = true
  · -- the first symbol of a statement moves the counter
    obtain ⟨head, tail, hsymbols, hhead, hstep, hpassive⟩ := x.step_eq hstatement hforward hrest
    obtain ⟨hcolon, hlabel⟩ := isOp_colon_of_startsStatement hhead (tail ++ rest)
    rw [hsymbols, List.cons_append, placeFrom_cons hlabel hcolon hstep, placeFrom_passive hpassive,
      Program.map_behind_map_behind, List.singleton_append]
  · cases x with
    | constant name place equals t =>
      -- a definition is passed over
      have hsymbols : Element.symbols Tree.symbols (.constant name place equals t) =
          ⟨.identifier, name, none, place⟩ :: .ofOperator "=" equals :: t.symbols := by
        change _ :: _ :: (t.symbols ++ []) = _
        rw [List.append_nil]
      rw [hsymbols]
      exact placeFrom_passive
        ⟨⟨rfl, rfl, rfl⟩, ⟨rfl, rfl, rfl⟩, t.passive (fresh_of_absent hrest)⟩
    | label name place colon => cases hx
    | _ => exact absurd rfl hstatement

/-- **A label** that is new goes to the end of the table. -/
theorem placeFrom_label_numbered {numbers : Table Int} {name : String}
    (hnew : numbers.get? name = none) (haddress : Numeral.isWritable address = true)
    (place colon : Option Location) (rest : List Symbol) :
    (placeFrom address (numbered numbers) definitions
        (⟨.identifier, name, none, place⟩ :: .ofOperator ":" colon :: rest)).outcome =
      (placeFrom address (numbered (numbers ++ [(name, (address : Int))]))
        (Program.recordPlace definitions ⟨.identifier, name, none, place⟩) rest).outcome := by
  have habsent : (numbered numbers).has name = false := by
    rw [Table.has, Table.get?_numbered, hnew]
    rfl
  rw [placeFrom_label rfl habsent, numeral_eq_ok haddress, Trace.except_ok_bind,
    Table.put_numbered hnew]

end Counter

/-- **Layout.** The labels of a program are given their addresses and leave the stream; everything
else stays in it. -/
theorem place_elements (xs : List (Element (Option Location) Tree)) (address : Nat)
    (numbers : Table Int) (definitions : Table (Option Location))
    (hforward : Throughout Element.Forward address xs)
    (hnew : (numbers.names ++ (labelsFrom address xs).names).Nodup)
    (hwritable : ∀ entry ∈ labelsFrom address xs, Numeral.isWritable entry.2 = true)
    (hfinal : Numeral.isWritable (extent address xs : Nat) = true) :
    ∃ definitions', (placeFrom address (numbered numbers) definitions
      (xs.flatMap (Element.symbols Tree.symbols))).outcome =
        .ok ⟨(unlabelled xs).flatMap (Element.symbols Tree.symbols),
          numbered (numbers ++ labelsFrom address xs), definitions'⟩ := by
  induction xs generalizing address numbers definitions with
  -- at the end the size is written, which it can be
  | nil =>
    refine ⟨definitions, ?_⟩
    rw [labelsFrom, List.append_nil]
    exact Trace.outcome_bind_eq_ok.2
      ⟨_, numeral_eq_ok hfinal, Trace.outcome_bind_eq_ok.2 ⟨(), rfl, rfl⟩⟩
  | cons x xs ih =>
    obtain ⟨hx, hforward⟩ := hforward
    rw [List.flatMap_cons]
    cases hlabel : x.isLabel with
    -- no label: the counter moves on, and the names to come are the same
    | false =>
      have hlabels : labelsFrom address (x :: xs) = labelsFrom (address + x.size address) xs := by
        cases x <;> first | rfl | cases hlabel
      have hkept : unlabelled (x :: xs) = x :: unlabelled xs :=
        List.filter_cons_of_pos (by simp [hlabel])
      rw [hlabels] at hnew hwritable ⊢
      obtain ⟨definitions', h⟩ := ih _ numbers definitions hforward hnew hwritable hfinal
      refine ⟨definitions', ?_⟩
      rw [x.placeFrom_symbols hlabel hx (absent_elements Tree.symbols xs), h, hkept]
      rfl
    | true =>
      obtain ⟨name, place, colon, rfl⟩ : ∃ name place colon, x = .label name place colon := by
        cases x <;> first | exact ⟨_, _, _, rfl⟩ | cases hlabel
      have hnone : numbers.get? name = none := by
        refine Table.get?_eq_none fun hmem => ?_
        exact (List.nodup_append.1 hnew).2.2 name hmem name List.mem_cons_self rfl
      -- the label goes over from the names to come to those in the table
      have hnew' : (Table.names (numbers ++ [(name, (address : Int))]) ++
          (labelsFrom address xs).names).Nodup := by
        rw [Table.names, List.map_append, List.append_assoc]
        exact hnew
      have hassoc : numbers ++ labelsFrom address (.label name place colon :: xs) =
          (numbers ++ [(name, (address : Int))]) ++ labelsFrom address xs := by
        rw [List.append_assoc]
        rfl
      obtain ⟨definitions', h⟩ := ih address (numbers ++ [(name, (address : Int))])
        (Program.recordPlace definitions ⟨.identifier, name, none, place⟩) hforward hnew'
        (fun entry hentry => hwritable entry (List.mem_cons_of_mem _ hentry)) hfinal
      refine ⟨definitions', ?_⟩
      rw [hassoc]
      exact (placeFrom_label_numbered hnone (hwritable _ List.mem_cons_self) place colon _).trans h

end RomAsm
