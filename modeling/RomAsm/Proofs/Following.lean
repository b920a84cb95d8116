import RomAsm.Proofs.Heads
import RomAsm.Proofs.Neighbours

/-!
# What stands behind a head

Both passes decide on a statement by the first symbols behind its head, but the first pass looks at
the grouped stream and the second at the resolved one. Here the first symbols are followed from the
one to the other:

* a symbol that is neither a name, a number nor an operator stays (`steps_fixed`);
* a number or an operator stays one of the two (`steps_operand`);
* a number that no operator follows stays itself (`steps_integer`), and so does the value of a
  number with a sign (`steps_signed`).

Only a name may give way to something of another kind, because the name may be the beginning of a
label or of a definition, which leave the stream.
-/

namespace RomAsm

open Layout Resolution

/-- Whether rewriting leaves a symbol alone wherever it stands. -/
def Symbol.isFixed (s : Symbol) : Bool := s.isInert && !s.isInteger

/-- The next symbol is no operator between numbers. -/
def Unjoined (symbols : List Symbol) : Prop := symbols.head?.any Symbol.isArithmetic = false

theorem unjoined_cons {s : Symbol} {rest : List Symbol} :
    Unjoined (s :: rest) ↔ s.isArithmetic = false := Iff.rfl

theorem Symbol.isOp_of_isInteger {s : Symbol} (h : s.isInteger = true) (texts : List String) :
    s.isOp texts = false := by
  simp [isOp, beq_iff_eq.1 h]

theorem Symbol.isInert_of_isInteger {s : Symbol} (h : s.isInteger = true) : s.isInert = true := by
  simp [isInert, beq_iff_eq.1 h]

/-! ### One step at the beginning of a stream -/

/-- **What a step does to a stream that begins with a given symbol.** It leaves the symbol alone, or
the symbol is a name, an opening parenthesis or a number and the step takes place right there. -/
theorem step_cons {s : Symbol} {a b : List Symbol} (h : Step (s :: a) b) :
    (∃ b', b = s :: b' ∧ Step a b') ∨
      (s.isIdentifier = true ∧ (Unjoined b ∨ ∃ v, v.isInteger = true ∧ b = v :: a)) ∨
      (s.isOpen = true ∧ ∃ n c rest, a = n :: c :: rest ∧ n.isInteger = true ∧
        c.isClose = true ∧ b = n :: rest) ∨
      (s.isInteger = true ∧ ∃ o r k rest, a = o :: r :: rest ∧ o.isArithmetic = true ∧
        k.isInteger = true ∧ b = k :: rest ∧
        ∃ n, apply o s.value r.value = .ok n ∧ k.value = some n) := by
  generalize hx : s :: a = x at h
  cases h with
  | there t h =>
    obtain ⟨rfl, rfl⟩ := List.cons.inj hx
    exact .inl ⟨_, rfl, h⟩
  | here h =>
    right
    cases h with
    | define hname hequals hvalue =>
      -- a definition leaves the stream, and no operator stands behind its value
      obtain ⟨rfl, rfl⟩ := List.cons.inj hx
      have hrest := (Bool.and_eq_true_iff.1 hvalue).2
      exact .inl ⟨hname, .inl (by simpa [Unjoined] using hrest)⟩
    | substitute hname hvalue =>
      obtain ⟨rfl, rfl⟩ := List.cons.inj hx
      exact .inl ⟨hname, .inr ⟨_, hvalue, rfl⟩⟩
    | ungroup hopening hvalue hclosing =>
      obtain ⟨rfl, rfl⟩ := List.cons.inj hx
      exact .inr (.inl ⟨hopening, _, _, _, rfl, hvalue, hclosing, rfl⟩)
    | evaluate hleft hoperator hright hvalue happly =>
      obtain ⟨rfl, rfl⟩ := List.cons.inj hx
      exact .inr (.inr ⟨hleft, _, _, _, _, rfl, hoperator, hvalue, rfl, happly⟩)

/-- There is no step from the empty stream. -/
theorem not_step_nil {b : List Symbol} : ¬ Step [] b := by
  intro h
  generalize hx : ([] : List Symbol) = x at h
  cases h with
  | there t h => cases hx
  | here h => cases h <;> cases hx

theorem steps_nil {b : List Symbol} (h : Steps [] b) : b = [] :=
  Steps.invariant (P := (· = [])) (fun _ _ hstep ha => absurd (ha ▸ hstep) not_step_nil) h rfl

/-! ### The first symbol after any number of steps -/

/-- What is fixed stays where it is. -/
theorem steps_fixed {s : Symbol} (hs : s.isFixed = true) {a b : List Symbol}
    (h : Steps (s :: a) b) : ∃ b', b = s :: b' := by
  refine Steps.invariant (P := fun b => ∃ b', b = s :: b') (fun x y hstep hx => ?_) h ⟨a, rfl⟩
  obtain ⟨x', rfl⟩ := hx
  simp only [Symbol.isFixed, Symbol.isInert, Symbol.isInteger, Bool.and_eq_true, bne_iff_ne,
    Bool.not_eq_true', beq_eq_false_iff_ne] at hs
  -- a step at the beginning would need a name, a parenthesis or a number there
  rcases step_cons hstep with ⟨y', rfl, -⟩ | ⟨hidentifier, -⟩ | ⟨hopen, -⟩ | ⟨hinteger, -⟩
  · exact ⟨y', rfl⟩
  · exact absurd (beq_iff_eq.1 hidentifier) hs.1.1
  · exact absurd (Symbol.kind_of_isOp hopen) hs.1.2
  · exact absurd (beq_iff_eq.1 hinteger) hs.2

/-- What begins with a number or an operator goes on doing so. -/
theorem steps_operand {s : Symbol} (hs : s.kind = .integer ∨ s.kind = .operator)
    {a b : List Symbol} (h : Steps (s :: a) b) :
    ∃ t b', b = t :: b' ∧ (t.kind = .integer ∨ t.kind = .operator) := by
  refine Steps.invariant
    (P := fun b => ∃ t b', b = t :: b' ∧ (t.kind = .integer ∨ t.kind = .operator))
    (fun x y hstep hx => ?_) h ⟨s, a, rfl, hs⟩
  obtain ⟨t, x', rfl, ht⟩ := hx
  -- whatever a step does at the beginning, it leaves a number
  rcases step_cons hstep with ⟨y', rfl, -⟩ | ⟨hidentifier, -⟩ | ⟨-, n, c, rest, -, hn, -, rfl⟩ |
    ⟨-, o, r, k, rest, -, -, hk, rfl, -⟩
  · exact ⟨t, y', rfl, ht⟩
  · rw [beq_iff_eq.1 hidentifier] at ht
    rcases ht with ht | ht <;> cases ht
  · exact ⟨n, rest, rfl, .inl (beq_iff_eq.1 hn)⟩
  · exact ⟨k, rest, rfl, .inl (beq_iff_eq.1 hk)⟩

theorem unjoined_of_isInteger {s : Symbol} (h : s.isInteger = true) (rest : List Symbol) :
    Unjoined (s :: rest) := Symbol.isOp_of_isInteger h _

/-- No step brings an operator to the beginning of a stream. -/
theorem unjoined_step {a b : List Symbol} (h : Step a b) (ha : Unjoined a) : Unjoined b := by
  match a with
  | [] => exact absurd h not_step_nil
  | s :: a =>
    -- a step at the beginning leaves a number there, or what stood behind a definition
    rcases step_cons h with ⟨b', rfl, -⟩ | ⟨-, hb | ⟨v, hv, rfl⟩⟩ | ⟨-, n, c, rest, -, hn, -, rfl⟩ |
      ⟨-, o, r, k, rest, -, -, hk, rfl, -⟩
    · exact ha
    · exact hb
    · exact unjoined_of_isInteger hv _
    · exact unjoined_of_isInteger hn _
    · exact unjoined_of_isInteger hk _

/-- A number in front of anything but an operator is left alone. -/
theorem step_integer {n : Symbol} (hn : n.isInteger = true) {a b : List Symbol}
    (ha : Unjoined a) (h : Step (n :: a) b) : ∃ b', b = n :: b' ∧ Step a b' := by
  rcases step_cons h with h | ⟨hidentifier, -⟩ | ⟨hopen, -⟩ | ⟨-, o, r, k, rest, rfl, ho, -⟩
  · exact h
  · exact absurd hidentifier (by simp [Symbol.isIdentifier_of_isInteger hn])
  · exact absurd hopen (by simp [Symbol.isOpen, Symbol.isOp_of_isInteger hn])
  · rw [unjoined_cons.1 ha] at ho
    cases ho

/-- **A number that no operator follows stays where it is.** -/
theorem steps_integer {n : Symbol} (hn : n.isInteger = true) {a b : List Symbol}
    (ha : Unjoined a) (h : Steps (n :: a) b) : ∃ b', b = n :: b' := by
  -- the invariant also says that no operator has come up behind the number
  have hkept : ∃ b', b = n :: b' ∧ Unjoined b' := by
    refine Steps.invariant (P := fun b => ∃ b', b = n :: b' ∧ Unjoined b') (fun x y hstep hx => ?_)
      h ⟨a, rfl, ha⟩
    obtain ⟨x', rfl, hx'⟩ := hx
    obtain ⟨y', rfl, hmore⟩ := step_integer hn hx' hstep
    exact ⟨y', rfl, unjoined_step hmore hx'⟩
  obtain ⟨b', rfl, -⟩ := hkept
  exact ⟨b', rfl⟩

/-! ### Numbers with a sign -/

/-- The ways in which a number with a sign may stand in a stream: as the difference that grouping
has made of it, as that difference evaluated, and as a plain number. -/
inductive Signed (n : Int) : List Symbol → Prop where
  | difference {opening zero minus literal closing : Symbol} (hopening : opening.isOpen = true)
      (hzero : zero.isInteger = true) (hminus : minus.isOp ["-"] = true)
      (hliteral : literal.isInteger = true) (hclosing : closing.isClose = true)
      (hn : ∃ a b, zero.value = some a ∧ literal.value = some b ∧ a - b = n) :
      Signed n [opening, zero, minus, literal, closing]
  | group {opening literal closing : Symbol} (hopening : opening.isOpen = true)
      (hliteral : literal.isInteger = true) (hclosing : closing.isClose = true)
      (hn : literal.value = some n) : Signed n [opening, literal, closing]
  | plain {literal : Symbol} (hliteral : literal.isInteger = true)
      (hn : literal.value = some n) : Signed n [literal]

theorem Symbol.isOp_ne {s : Symbol} {text text' : String} (h : s.isOp [text] = true)
    (hne : text ≠ text') : s.isOp [text'] = false := by
  have htext : s.text = text := by simpa [isOp] using (Bool.and_eq_true_iff.1 h).2
  simp [isOp, htext, hne]

/-- An operator that opens no group begins nothing that a step could change. -/
theorem step_operator {s : Symbol} (hkind : s.kind = .operator) (hopen : s.isOpen = false)
    {a b : List Symbol} (h : Step (s :: a) b) : ∃ b', b = s :: b' ∧ Step a b' := by
  -- an operator is neither a name nor a number
  rcases step_cons h with h | ⟨hidentifier, -⟩ | ⟨ho, -⟩ | ⟨hinteger, -⟩
  · exact h
  · rw [Symbol.isIdentifier, hkind] at hidentifier
    cases hidentifier
  · rw [hopen] at ho
    cases ho
  · rw [Symbol.isInteger, hkind] at hinteger
    cases hinteger

/-- A closing parenthesis is no operator between numbers. -/
theorem unjoined_of_isClose {c : Symbol} (hc : c.isClose = true) (rest : List Symbol) :
    Unjoined (c :: rest) := by
  have htext : c.text = ")" := by simpa [Symbol.isOp] using (Bool.and_eq_true_iff.1 hc).2
  simp [unjoined_cons, Symbol.isArithmetic, Symbol.isOp, htext]

/-- An opening parenthesis is left alone or opens a group around a number. -/
theorem step_open {o : Symbol} (ho : o.isOpen = true) {a b : List Symbol} (h : Step (o :: a) b) :
    (∃ b', b = o :: b' ∧ Step a b') ∨
      ∃ n c rest, a = n :: c :: rest ∧ n.isInteger = true ∧ c.isClose = true ∧ b = n :: rest := by
  have hkind := Symbol.kind_of_isOp ho
  rcases step_cons h with h | ⟨hidentifier, -⟩ | ⟨-, h⟩ | ⟨hinteger, -⟩
  · exact .inl h
  · rw [Symbol.isIdentifier, hkind] at hidentifier
    cases hidentifier
  · exact .inr h
  · rw [Symbol.isInteger, hkind] at hinteger
    cases hinteger

/-- One step leads from one way to write the number to another. -/
theorem Signed.step {n : Int} {x a b : List Symbol} (hx : Signed n x) (ha : Unjoined a)
    (h : Step (x ++ a) b) : ∃ y c, b = y ++ c ∧ Signed n y ∧ Unjoined c := by
  cases hx with
  | @plain literal hliteral hn =>
    obtain ⟨b', rfl, hb'⟩ := step_integer hliteral ha h
    exact ⟨[literal], b', rfl, .plain hliteral hn, unjoined_step hb' ha⟩
  | @group opening literal closing hopening hliteral hclosing hn =>
    rcases step_open hopening h with ⟨b₁, rfl, h₁⟩ | ⟨k, c, rest, heq, -, -, rfl⟩
    · -- within the parentheses there is nothing to do
      obtain ⟨b₂, rfl, h₂⟩ := step_integer hliteral (unjoined_of_isClose hclosing _) h₁
      obtain ⟨b₃, rfl, h₃⟩ := step_operator (Symbol.kind_of_isOp hclosing)
        (Grouping.isOpen_of_isClose hclosing) h₂
      exact ⟨[opening, literal, closing], b₃, rfl, .group hopening hliteral hclosing hn,
        unjoined_step h₃ ha⟩
    · -- the parentheses are taken away
      obtain ⟨rfl, hclose⟩ := List.cons.inj heq
      obtain ⟨-, rfl⟩ := List.cons.inj hclose
      exact ⟨[literal], a, rfl, .plain hliteral hn, ha⟩
  | @difference opening zero minus literal closing hopening hzero hminus hliteral hclosing hn =>
    rcases step_open hopening h with ⟨b₁, rfl, h₁⟩ | ⟨k, c, rest, heq, -, hc, -⟩
    · rcases step_cons h₁ with ⟨b₂, rfl, h₂⟩ | ⟨hidentifier, -⟩ | ⟨hopen, -⟩ |
        ⟨-, o, r, k, rest, heq, -, hk, rfl, m, hm, hvalue⟩
      · -- the minus sign and what follows it is left alone
        obtain ⟨b₃, rfl, h₃⟩ := step_operator (Symbol.kind_of_isOp hminus)
          (Symbol.isOp_ne hminus (by decide)) h₂
        obtain ⟨b₄, rfl, h₄⟩ := step_integer hliteral (unjoined_of_isClose hclosing _) h₃
        obtain ⟨b₅, rfl, h₅⟩ := step_operator (Symbol.kind_of_isOp hclosing)
          (Grouping.isOpen_of_isClose hclosing) h₄
        exact ⟨[opening, zero, minus, literal, closing], b₅, rfl,
          .difference hopening hzero hminus hliteral hclosing hn, unjoined_step h₅ ha⟩
      · exact absurd hidentifier (by simp [Symbol.isIdentifier_of_isInteger hzero])
      · exact absurd hopen (by simp [Symbol.isOpen, Symbol.isOp_of_isInteger hzero])
      · -- the difference is evaluated
        obtain ⟨rfl, hright⟩ := List.cons.inj heq
        obtain ⟨rfl, rfl⟩ := List.cons.inj hright
        obtain ⟨x, y, hx, hy, rfl⟩ := hn
        have htext : minus.text = "-" := by
          simpa [Symbol.isOp] using (Bool.and_eq_true_iff.1 hminus).2
        have hm : m = x - y := by
          rw [hx, hy, apply, evaluate, htext] at hm
          exact (Except.ok.inj hm).symm
        exact ⟨[opening, k, closing], a, rfl, .group hopening hk hclosing (hm ▸ hvalue), ha⟩
    · -- a group around a number would end where the minus sign stands
      obtain ⟨-, heq⟩ := List.cons.inj heq
      rw [← (List.cons.inj heq).1, Symbol.isClose, Symbol.isOp_ne hminus (by decide)] at hc
      cases hc

/-- **A number with a sign keeps its value**, as long as no operator follows it. -/
theorem steps_signed {n : Int} {x a b : List Symbol} (hx : Signed n x) (ha : Unjoined a)
    (h : Steps (x ++ a) b) : ∃ y c, b = y ++ c ∧ Signed n y := by
  -- the invariant also says that no operator has come up behind the number
  have hkept : ∃ y c, b = y ++ c ∧ Signed n y ∧ Unjoined c := by
    refine Steps.invariant (P := fun b => ∃ y c, b = y ++ c ∧ Signed n y ∧ Unjoined c)
      (fun b b' hstep hb => ?_) h ⟨x, a, rfl, hx, ha⟩
    obtain ⟨y, c, rfl, hy, hc⟩ := hb
    exact hy.step hc hstep
  obtain ⟨y, c, rfl, hy, -⟩ := hkept
  exact ⟨y, c, rfl, hy⟩

/-! ### Labels -/

theorem withoutLabels_cons_of_not_isIdentifier {s : Symbol} (h : s.isIdentifier = false)
    (rest : List Symbol) : withoutLabels (s :: rest) = s :: withoutLabels rest :=
  withoutLabels_cons (isLabel_eq_false h rest)

theorem isParenthesis_of_isIdentifier {s : Symbol} (h : s.isIdentifier = true) :
    s.isParenthesis = false := by
  simp [Symbol.isParenthesis, Symbol.isOpen, Symbol.isClose, Symbol.isOp, beq_iff_eq.1 h]

theorem isParenthesis_of_isInteger {s : Symbol} (h : s.isInteger = true) :
    s.isParenthesis = false := by
  simp [Symbol.isParenthesis, Symbol.isOpen, Symbol.isClose, Symbol.isOp, beq_iff_eq.1 h]

theorem isParenthesis_of_startsStatement {s : Symbol} (h : s.startsStatement = true) :
    s.isParenthesis = false := by
  have hkind : s.kind ≠ .operator := fun hkind => by simp [Symbol.startsStatement, hkind] at h
  simp [Symbol.isParenthesis, Symbol.isOpen, Symbol.isClose, Symbol.isOp, hkind]

/-- Behind a run that no operator may follow there is no operator. -/
theorem unjoined_of_not_infix {x rest stream : List Symbol}
    (h : ∀ o : Symbol, o.isArithmetic = true → ¬ x ++ [o] <:+: stream)
    (hsuffix : x ++ rest <:+ stream) : Unjoined rest := by
  match rest with
  | [] => rfl
  | o :: rest =>
    rw [unjoined_cons]
    by_contra ho
    -- an operator here would stand right behind the run
    rw [List.append_cons] at hsuffix
    exact h o (by simpa using ho)
      ((List.prefix_append (x ++ [o]) rest).isInfix.trans hsuffix.isInfix)

/-- Taking labels from the end of a grouped stream brings no operator to its beginning. -/
theorem unjoined_withoutLabels {symbols rest : List Symbol}
    (hsuffix : rest <:+ Grouping.grouped symbols) (h : Unjoined rest) :
    Unjoined (withoutLabels rest) := by
  fun_induction withoutLabels rest with
  | case1 => exact h
  | case2 s => exact h
  | case3 s t rest hlabel ih =>
    -- an operator behind the colon would have brought a parenthesis in front of the colon
    obtain ⟨hs, ht⟩ := of_isLabel hlabel
    have hcolon : t.isParenthesis = false :=
      Symbol.isParenthesis_of_isOp ht (by decide) (by decide) (by decide)
    have hrest : Unjoined rest := unjoined_of_not_infix (x := [s, t])
      (fun o ho => Grouping.guarded_grouped (isParenthesis_of_isIdentifier hs) hcolon ho symbols)
      hsuffix
    exact ih ((List.suffix_append [s, t] rest).trans hsuffix) hrest
  | case4 s t rest hlabel ih => exact h

/-! ### Operands that must be literals -/

/-- An operand is the next symbol, if that does not begin something else. -/
theorem Operand.first_eq_ok {directive operand : Symbol} {following : List Symbol} :
    first directive following = .ok operand ↔
      absent following = false ∧ following.head? = some operand := by
  unfold first
  cases following with
  | nil => simp [first.missing, absent]
  | cons s rest =>
    cases absent (s :: rest) <;> simp [first.missing]

theorem Operand.absent_of_isInteger {s : Symbol} (h : s.isInteger = true) (rest : List Symbol) :
    absent (s :: rest) = false := by
  rw [absent, startsStatement_of_isInteger h, Symbol.isIdentifier_of_isInteger h]
  rfl

/-- A number is accepted as a literal. -/
theorem Operand.literal_of_isInteger {n : Symbol} (hn : n.isInteger = true) (directive : Symbol)
    (rest : List Symbol) : literal directive (n :: rest) = .ok n := by
  have hfirst : first directive (n :: rest) = .ok n :=
    first_eq_ok.2 ⟨absent_of_isInteger hn rest, rfl⟩
  rw [literal, literalOr, hfirst, Trace.except_ok_bind, if_pos hn]
  rfl

/-- What a literal behind a directive looks like. -/
theorem Operand.literal_cases {directive operand : Symbol} {following : List Symbol}
    (h : literal directive following = .ok operand) :
    (operand.isInteger = true ∧ ∃ rest, following = operand :: rest) ∨
      ∃ opening zero minus l closing rest n,
        following = opening :: zero :: minus :: l :: closing :: rest ∧ opening.isOpen = true ∧
        zero.isInteger = true ∧ zero.value = some 0 ∧ minus.isOp ["-"] = true ∧
        l.isInteger = true ∧ l.value = some n ∧ closing.isClose = true ∧
        zero.location = minus.location ∧
        operand = ⟨.integer, "-" ++ l.text, some (-n), minus.location⟩ := by
  obtain ⟨s, hfirst, h⟩ := Trace.except_bind_eq_ok.1 h
  obtain ⟨-, hhead⟩ := first_eq_ok.1 hfirst
  obtain ⟨rest, rfl⟩ := List.head?_eq_some_iff.1 hhead
  -- a number by itself, or the five symbols that grouping makes of a negative one
  by_cases hs : s.isInteger = true
  · rw [if_pos hs] at h
    obtain rfl := Except.ok.inj h
    exact .inl ⟨hs, rest, rfl⟩
  · rw [if_neg hs] at h
    right
    obtain ⟨o, hnegated, h⟩ := Trace.except_bind_eq_ok.1 h
    cases o with
    | none => cases h
    | some t =>
      obtain rfl := Except.ok.inj h
      unfold negated? at hnegated
      split at hnegated
      · next opening zero minus l closing more heq =>
        split at hnegated
        · next hshape =>
          simp only [Bool.and_eq_true, beq_iff_eq] at hshape
          obtain ⟨⟨⟨⟨⟨⟨⟨hopening, hzero⟩, hvalue⟩, hminus⟩, hl⟩, hclosing⟩, -⟩, hplace⟩ := hshape
          split at hnegated
          · next n hn =>
            exact ⟨opening, zero, minus, l, closing, more, n, heq, hopening, hzero, hvalue, hminus,
              hl, hn, hclosing, hplace, (Option.some.inj (Except.ok.inj hnegated)).symm⟩
          · cases hnegated
        · cases hnegated
      · cases hnegated

section Literal

variable {symbols : List Symbol} {directive : Symbol} {rest later : List Symbol}
  (hdirective : directive.startsStatement = true)

include hdirective

/-- A number behind a directive stays where it is. -/
theorem integer_followed {operand : Symbol} (hoperand : operand.isInteger = true)
    (hsuffix : directive :: operand :: rest <:+ Grouping.grouped symbols)
    (hsteps : Steps (withoutLabels (operand :: rest)) later) :
    ∃ rest', later = operand :: rest' := by
  -- with an operator behind it, grouping would have put parentheses around the number
  have hunjoined : Unjoined rest := unjoined_of_not_infix (x := [directive, operand])
    (fun o ho => Grouping.guarded_grouped (isParenthesis_of_startsStatement hdirective)
      (isParenthesis_of_isInteger hoperand) ho symbols) hsuffix
  have hrest : rest <:+ Grouping.grouped symbols :=
    (List.suffix_append [directive, operand] rest).trans hsuffix
  rw [withoutLabels_cons_of_not_isIdentifier (Symbol.isIdentifier_of_isInteger hoperand)] at hsteps
  exact steps_integer hoperand (unjoined_withoutLabels hrest hunjoined) hsteps

/-- A number with a sign behind a directive keeps its value. -/
theorem difference_followed {opening zero minus l closing : Symbol} {n : Int}
    (hopening : opening.isOpen = true) (hzero : zero.isInteger = true)
    (hvalue : zero.value = some 0) (hminus : minus.isOp ["-"] = true) (hl : l.isInteger = true)
    (hn : l.value = some n) (hclosing : closing.isClose = true)
    (hsuffix : directive :: opening :: zero :: minus :: l :: closing :: rest <:+
      Grouping.grouped symbols)
    (hsteps : Steps (withoutLabels (opening :: zero :: minus :: l :: closing :: rest)) later) :
    ∃ y rest', later = y ++ rest' ∧ Signed (-n) y := by
  have hadditive : minus.isOp Grouping.additive = true := by
    simp only [Symbol.isOp, Bool.and_eq_true] at hminus ⊢
    exact ⟨hminus.1, by simpa [Grouping.additive] using .inr (by simpa using hminus.2)⟩
  -- behind a sign and its number, too, an operator would have brought parentheses
  have hunjoined : Unjoined rest :=
    unjoined_of_not_infix (x := [directive, opening, zero, minus, l, closing])
      (fun o ho => Grouping.preceded_grouped (isParenthesis_of_startsStatement hdirective) hopening
        (isParenthesis_of_isInteger hzero) hadditive (isParenthesis_of_isInteger hl) hclosing ho
        symbols) hsuffix
  have hrest : rest <:+ Grouping.grouped symbols :=
    (List.suffix_append [directive, opening, zero, minus, l, closing] rest).trans hsuffix
  have hsigned : Signed (-n) [opening, zero, minus, l, closing] :=
    .difference hopening hzero hminus hl hclosing ⟨0, n, hvalue, hn, Int.zero_sub n⟩
  have hnames (texts : List String) (s : Symbol) (hs : s.isOp texts = true) :
      s.isIdentifier = false := by
    rw [Symbol.isIdentifier, Symbol.kind_of_isOp hs]
    rfl
  -- none of the five symbols is a name, so no label begins among them
  rw [withoutLabels_cons_of_not_isIdentifier (hnames _ _ hopening),
    withoutLabels_cons_of_not_isIdentifier (Symbol.isIdentifier_of_isInteger hzero),
    withoutLabels_cons_of_not_isIdentifier (hnames _ _ hminus),
    withoutLabels_cons_of_not_isIdentifier (Symbol.isIdentifier_of_isInteger hl),
    withoutLabels_cons_of_not_isIdentifier (hnames _ _ hclosing)] at hsteps
  exact steps_signed hsigned (unjoined_withoutLabels hrest hunjoined) hsteps

/-- **A literal behind a directive is still there after resolution**, with the value that it had. It
is the same symbol, unless it had a sign. -/
theorem literal_followed {operand : Symbol} {following : List Symbol}
    (hsuffix : directive :: following <:+ Grouping.grouped symbols)
    (hsteps : Steps (withoutLabels following) later) (hinert : ∀ s ∈ later, s.isInert = true)
    (h : Operand.literal directive following = .ok operand) :
    ∃ n rest, later = n :: rest ∧ n.isInteger = true ∧ n.value = operand.value ∧
      (n = operand ∨ ∃ text, operand.text = "-" ++ text) := by
  rcases Operand.literal_cases h with ⟨hoperand, rest, rfl⟩ |
    ⟨opening, zero, minus, l, closing, rest, n, rfl, hopening, hzero, hvalue, hminus, hl, hn,
      hclosing, -, rfl⟩
  · obtain ⟨later, rfl⟩ := integer_followed hdirective hoperand hsuffix hsteps
    exact ⟨operand, later, rfl, hoperand, rfl, .inl rfl⟩
  · obtain ⟨y, later, rfl, hy⟩ := difference_followed hdirective hopening hzero hvalue hminus hl hn
      hclosing hsuffix hsteps
    -- of the ways to write the number only the plain one has no parentheses
    have hopen (s : Symbol) (hs : s ∈ y ++ later) : s.isOpen = false := by
      have hkind := hinert s hs
      by_contra ho
      have ho : s.isOp ["("] = true := by simpa [Symbol.isOpen] using ho
      rw [Symbol.isInert, Symbol.kind_of_isOp ho] at hkind
      cases hkind
    cases hy with
    | difference ho => simp [ho] at hopen
    | group ho => simp [ho] at hopen
    | plain hk hvalue => exact ⟨_, later, rfl, hk, hvalue, .inr ⟨l.text, rfl⟩⟩

end Literal

end RomAsm
