import RomAsm.Proofs.Bracketing
import RomAsm.Proofs.Diagnosis
import RomAsm.Proofs.Grammar
import RomAsm.Proofs.Insertions
import RomAsm.Proofs.Solution

/-!
# Operands that must be literals

The operands of `.reserve`, `.org` and `.data` must be literals, and a literal may have a minus
sign. By the time the operand is looked at, the sign has been given a zero and parentheses, so that
`-5` and `0 - 5` are the same five symbols; only their places tell them apart. Here an arbitrary
expression is followed through grouping to the place where its operand is read.

* `Expression.literal?` — which expressions are literals, and as which symbol they are to be read;
* `Expression.literal?_eq_of_difference` — the places tell a negated literal from a difference;
* `Directed.exists_literal`, `Directed.exists_difference` — literals are left together;
* `Directed.fenced_of_operator`, `Directed.fenced_of_operators` — operators fence off the directive;
* `Directed.accepts_literals` — the operand is read if and only if the expression is a literal.

What stands elsewhere in the source matters little, as long as it has no operators without operands:
`Directed.stray_operators_refuse`.
-/

namespace RomAsm

open Grouping

/-! ### Literals among the expressions -/

namespace Expression

/-- The literal that an expression consists of, if there is nothing else in it than possibly a minus
sign. With the sign, it stands where the sign does. -/
def literal? : Expression (Option Location) .sum → Option Symbol
  | ofProduct (ofAtom (literal text n place)) => some ⟨.integer, text, some n, place⟩
  | signed .minus place (ofAtom (literal text n _)) =>
    some ⟨.integer, "-" ++ text, some (-n), place⟩
  | _ => none

/-- Whether an expression is a minus sign and a literal. -/
def isNegated : Expression (Option Location) .sum → Bool
  | signed .minus _ (ofAtom (literal _ _ _)) => true
  | _ => false

/-- The two shapes of a literal. -/
theorem literal?_cases {e : Expression (Option Location) .sum} {x : Symbol}
    (h : e.literal? = some x) :
    (∃ text n place, e = ofProduct (ofAtom (literal text n place)) ∧
        x = ⟨.integer, text, some n, place⟩) ∨
      ∃ text n place place', e = signed .minus place (ofAtom (literal text n place')) ∧
        x = ⟨.integer, "-" ++ text, some (-n), place⟩ := by
  unfold literal? at h
  split at h
  · next text n place => exact .inl ⟨text, n, place, rfl, (Option.some.inj h).symm⟩
  · next place text n place' => exact .inr ⟨text, n, place, place', rfl, (Option.some.inj h).symm⟩
  · cases h

/-- A literal has the value of the expression and is spelled as it is. -/
theorem literal?_spec {e : Expression (Option Location) .sum} {x : Symbol}
    (h : e.literal? = some x) :
    x.isInteger = true ∧ (∀ ρ, e.eval ρ = x.value) ∧
      x.text.toList = e.symbols.flatMap (·.text.toList) := by
  rcases literal?_cases h with ⟨text, n, place, rfl, rfl⟩ | ⟨text, n, place, place', rfl, rfl⟩
  · exact ⟨rfl, fun _ => rfl, by simp [symbols]⟩
  · refine ⟨rfl, fun _ => ?_, ?_⟩
    · simp [eval, Operator.between, Operator.apply]
    · simp [symbols, Operator.symbol, Operator.text, Symbol.ofOperator]

end Expression

/-! ### Reading an expression with its zeros -/

/-- The symbols of an expression from some point on; `ended` tells whether an operand has just
ended. -/
structure Proceeds (ended : Bool) (symbols : List Symbol) : Prop where
  alternates : Alternates ended symbols
  balanced : loose symbols = (0, 0)
  tokens : ∀ s ∈ symbols, s.isOperand = true ∨ s.isParenthesis = true ∨ s.isArithmetic = true

namespace Proceeds

variable {symbols : List Symbol}

/-- An operator follows an operand, or the expression ends. -/
theorem operator (h : Proceeds true symbols) :
    symbols = [] ∨ ∃ o rest, symbols = o :: rest ∧ o.isArithmetic = true ∧ Proceeds false rest := by
  cases symbols with
  | nil => exact .inl rfl
  | cons o rest =>
    obtain ⟨hbegins, -⟩ := h.alternates
    obtain ⟨hoperand, hopen⟩ := Bool.or_eq_false_iff.1 hbegins
    have ho : o.isArithmetic = true := by
      rcases h.tokens o List.mem_cons_self with ho | ho | ho
      · rw [hoperand] at ho
        cases ho
      · -- a closing parenthesis would have no partner
        have hclose : o.isClose = true := by simpa [Symbol.isParenthesis, hopen] using ho
        have hbalanced := h.balanced
        rw [loose_close hclose] at hbalanced
        cases hbalanced
      · exact ho
    have hother := isParenthesis_of_isArithmetic ho
    refine .inr ⟨o, rest, rfl, ho, ?_⟩
    exact ⟨((alternates_operator ho hother).1 h.alternates).2,
      (loose_neutral hother rest).symm.trans h.balanced,
      fun s hs => h.tokens s (List.mem_cons_of_mem o hs)⟩

/-- An operand is a group, or begins with no parenthesis. -/
theorem operand (h : Proceeds false symbols) :
    ∃ s rest, symbols = s :: rest ∧ (s.isOpen = true ∨ s.isParenthesis = false) := by
  obtain ⟨s, rest, rfl, hbegins⟩ := h.alternates.exists_head
  refine ⟨s, rest, rfl, ?_⟩
  rcases Bool.or_eq_true_iff.1 hbegins with hs | hs
  · rcases Bool.or_eq_true_iff.1 hs with hs | hs
    · exact .inr (isParenthesis_of_isInteger hs)
    · exact .inr (isParenthesis_of_isIdentifier hs)
  · exact .inl hs

/-- Behind a number there is an operator, or the expression ends. -/
theorem behind_integer {s : Symbol} {rest : List Symbol} (h : Proceeds false (s :: rest))
    (hs : s.isInteger = true) :
    rest = [] ∨ ∃ o more, rest = o :: more ∧ o.isArithmetic = true ∧ Proceeds false more := by
  refine Proceeds.operator ⟨?_, ?_, fun t ht => h.tokens t (List.mem_cons_of_mem s ht)⟩
  · exact ((alternates_operand (Symbol.isOperand_of_isInteger hs)).1 h.alternates).2
  · exact (loose_neutral (isParenthesis_of_isInteger hs) rest).symm.trans h.balanced

theorem ne_nil (h : Proceeds false symbols) : symbols ≠ [] := by
  obtain ⟨s, rest, rfl, -⟩ := h.operand
  exact List.cons_ne_nil s rest

/-- No operator comes where an operand has to. -/
theorem beginsPlain (h : Proceeds false symbols) (behind : List Symbol) :
    BeginsPlain (symbols ++ behind) := by
  obtain ⟨s, rest, rfl, hbegins⟩ := h.alternates.exists_head
  intro t ht
  obtain rfl := Option.mem_some_iff.1 ht
  refine Bool.eq_false_iff.2 fun hs => ?_
  rw [(Symbol.beginsOperand_of_isOp hs (isParenthesis_of_isArithmetic hs)).1] at hbegins
  cases hbegins

end Proceeds

namespace Expression

/-- With its zeros, an expression has operands and operators by turns. -/
theorem alternates_zeroed {r : Rank} (e : Expression (Option Location) r) {rest : List Symbol}
    (h : Alternates true rest) : Alternates false (e.zeroed ++ rest) := by
  have hoperator (o : Operator) (place : Option Location) {rest : List Symbol}
      (h : Alternates false rest) : Alternates true (o.symbol place :: rest) :=
    (alternates_operator (o.isArithmetic_symbol place) (o.isParenthesis_symbol place)).2 ⟨rfl, h⟩
  -- along the expression, with what stands behind it
  induction e generalizing rest with
  | literal text n place => exact (alternates_operand rfl).2 ⟨rfl, h⟩
  | name x place => exact (alternates_operand rfl).2 ⟨rfl, h⟩
  | group opening e closing ih =>
    rw [zeroed, List.cons_append, List.append_assoc]
    exact (alternates_open rfl).2 ⟨rfl, ih ((alternates_close rfl).2 ⟨rfl, h⟩)⟩
  | ofAtom a ih => exact ih h
  | scaled p s place a ihp iha =>
    rw [zeroed, List.append_assoc]
    exact ihp (hoperator _ place (iha h))
  | ofProduct p ih => exact ih h
  | signed s place p ih => exact (alternates_operand rfl).2 ⟨rfl, hoperator _ place (ih h)⟩
  | summed e s place p ihe ihp =>
    rw [zeroed, List.append_assoc]
    exact ihe (hoperator _ place (ihp h))

/-- So the symbols of a whole expression proceed from its beginning. -/
theorem proceeds_zeroed {r : Rank} (e : Expression (Option Location) r) :
    Proceeds false e.zeroed where
  alternates := List.append_nil e.zeroed ▸ e.alternates_zeroed rfl
  balanced := loose_zeroed e
  tokens := by
    induction e <;> simp_all [zeroed, Symbol.isOperand, Symbol.isInteger, Symbol.isIdentifier,
      Grouping.zero, or_imp]

/-- A product that is written as one number is a literal. -/
theorem product_eq_literal {p : Expression (Option Location) .product} {x : Symbol}
    (h : p.zeroed = [x]) (hx : x.isInteger = true) :
    ∃ text n place, p = ofAtom (literal text n place) ∧ x = ⟨.integer, text, some n, place⟩ := by
  cases p with
  | ofAtom a =>
    cases a with
    | literal text n place => exact ⟨text, n, place, rfl, (List.singleton_inj.1 h).symm⟩
    | name y place =>
      obtain rfl := List.singleton_inj.1 h
      cases hx
    | group opening e closing => simp [zeroed] at h
  | scaled p s place a => simp [zeroed, p.proceeds_zeroed.ne_nil, List.append_eq_singleton_iff] at h

/-- A sum that is written as one number is a literal. -/
theorem sum_eq_literal {e : Expression (Option Location) .sum} {x : Symbol}
    (h : e.zeroed = [x]) (hx : x.isInteger = true) :
    ∃ text n place, e = ofProduct (ofAtom (literal text n place)) ∧
      x = ⟨.integer, text, some n, place⟩ := by
  cases e with
  | ofProduct p =>
    obtain ⟨text, n, place, rfl, rfl⟩ := product_eq_literal h hx
    exact ⟨text, n, place, rfl, rfl⟩
  | signed s place p => simp [zeroed] at h
  | summed e s place p =>
    simp [zeroed, e.proceeds_zeroed.ne_nil, List.append_eq_singleton_iff] at h

/-- Three symbols with one of them between two other parts. -/
theorem eq_of_parts {α : Type} {a b : List α} {x y z o : α} (ha : a ≠ []) (hb : b ≠ [])
    (h : a ++ o :: b = [x, y, z]) : a = [x] ∧ o = y ∧ b = [z] := by
  rcases a with _ | ⟨_, _ | ⟨_, _ | ⟨_, a⟩⟩⟩ <;> simp_all

/-- **A negated literal is told from a difference by its places.** If an expression is a number, a
minus sign and a number once it has its zeros, and the first number stands at the sign, then that is
not written. -/
theorem literal?_eq_of_difference {e : Expression (Option Location) .sum} {z m l : Symbol} {n : Int}
    (h : e.zeroed = [z, m, l]) (hz : z.isInteger = true) (hm : m.isOp ["-"] = true)
    (hl : l.isInteger = true) (hn : l.value = some n) (hplace : z.location = m.location)
    (hnodup : (e.symbols.map (·.location)).Nodup) :
    e.literal? = some ⟨.integer, "-" ++ l.text, some (-n), m.location⟩ := by
  cases e with
  -- a product has no sign of its own, and a group begins with a parenthesis
  | ofProduct p =>
    cases p with
    | ofAtom a =>
      cases a with
      | literal text k place => cases h
      | name x place => cases h
      | group opening e closing =>
        obtain ⟨rfl, -⟩ := List.cons.inj h
        cases hz
    | scaled p s place a =>
      obtain ⟨-, rfl, -⟩ := eq_of_parts p.proceeds_zeroed.ne_nil a.proceeds_zeroed.ne_nil h
      cases s <;> cases hm
  -- the zero that is not written: this is a negated literal
  | signed s place p =>
    simp only [zeroed, List.cons.injEq] at h
    obtain ⟨rfl, rfl, hp⟩ := h
    obtain ⟨text, k, place', rfl, rfl⟩ := product_eq_literal hp hl
    obtain rfl := Option.some.inj hn
    cases s with
    | minus => rfl
    | plus => cases hm
  | summed e s place p =>
    -- here the first number is written
    obtain ⟨he, rfl, -⟩ := eq_of_parts e.proceeds_zeroed.ne_nil p.proceeds_zeroed.ne_nil h
    obtain ⟨text, k, place', rfl, rfl⟩ := sum_eq_literal he hz
    simp only [symbols, List.cons_append, List.nil_append, List.map_cons, List.nodup_cons,
      List.mem_cons, not_or] at hnodup
    exact absurd hplace hnodup.1.1

end Expression

/-! ### What is read behind a directive -/

namespace Operand

variable {directive : Symbol} {following : List Symbol}

/-- A group that was made from a literal with a minus sign. -/
theorem literal_of_negated {place : Option Location} (hplace : place.isSome = true) (text : String)
    (n : Int) (place' : Option Location) (rest : List Symbol) :
    literal directive ([.ofOperator "(" place, zero place, (Operator.sign .minus).symbol place,
      ⟨.integer, text, some n, place'⟩, .ofOperator ")" place] ++ rest) =
      .ok ⟨.integer, "-" ++ text, some (-n), place⟩ := by
  -- the five symbols have the shape and stand at the place that are asked for
  have hnegated : negated? ([.ofOperator "(" place, zero place,
      (Operator.sign .minus).symbol place, ⟨.integer, text, some n, place'⟩,
      .ofOperator ")" place] ++ rest) = .ok (some ⟨.integer, "-" ++ text, some (-n), place⟩) := by
    simp only [List.cons_append, List.nil_append, negated?]
    rw [if_pos]
    · rfl
    · simp [zero, hplace, Operator.symbol, Operator.text, Symbol.ofOperator, Symbol.isOpen,
        Symbol.isClose, Symbol.isOp, Symbol.isInteger]
  rw [literal, hnegated]
  rfl

/-- The only failure to see a first symbol is that the operand is missing. -/
theorem first_eq_error {failure : Failure} (h : first directive following = .error failure) :
    failure = .report (.directiveOperandRequired directive.text) directive.location := by
  unfold first at h
  split at h
  · split at h
    · exact (Except.error.inj h).symm
    · cases h
  · exact (Except.error.inj h).symm

/-- Looking for a negated literal fails only at a number without a value. -/
theorem negated?_ne_error (hvalues : ∀ s ∈ following, s.isInteger = true → ∃ n, s.value = some n)
    (failure : Failure) : negated? following ≠ .error failure := by
  intro h
  unfold negated? at h
  split at h
  · next opening zero minus l closing rest =>
    split at h
    · next hshape =>
      simp only [Bool.and_eq_true] at hshape
      obtain ⟨n, hn⟩ := hvalues l (by simp) hshape.1.1.1.2
      rw [hn] at h
      cases h
    · cases h
  · cases h

/-- **What is no literal is reported as such**, if numbers have values. -/
theorem exists_report (hvalues : ∀ s ∈ following, s.isInteger = true → ∃ n, s.value = some n)
    (h : ∀ x, literal directive following ≠ .ok x) :
    ∃ problem place, literal directive following = .error (.report problem place) ∧
      problem.category = .directive ∧ problem.integers = [] := by
  unfold literal literalOr at h ⊢
  cases hfirst : first directive following with
  | error failure =>
    obtain rfl := first_eq_error hfirst
    exact ⟨.directiveOperandRequired directive.text, directive.location, rfl, rfl, rfl⟩
  | ok s =>
    rw [hfirst, Trace.except_ok_bind] at h
    rw [Trace.except_ok_bind]
    -- a number is accepted; anything else has to be a negated literal
    by_cases hs : s.isInteger = true
    · rw [if_pos hs] at h
      exact absurd rfl (h s)
    · rw [if_neg hs] at h ⊢
      cases hnegated : negated? following with
      | error failure => exact absurd hnegated (negated?_ne_error hvalues failure)
      | ok found =>
        rw [hnegated, Trace.except_ok_bind] at h
        cases found with
        | some t => exact absurd rfl (h t)
        | none =>
          exact ⟨.notLiteral directive.text (spelling following), s.location.or directive.location,
            rfl, rfl, rfl⟩

end Operand

/-! ### Zeros around a directive -/

/-- Zeros stand in front of symbols, so the last one stays. -/
theorem getLast?_withZeros (previous : Option Symbol) (symbols : List Symbol) :
    (withZeros previous symbols).getLast? = symbols.getLast? := by
  induction symbols generalizing previous with
  | nil => rfl
  | cons s rest ih =>
    rw [withZeros]
    split <;> simp [List.getLast?_cons, ih]

/-- Where an operand is absent, no operator comes. -/
theorem beginsPlain_withZeros {after : List Symbol} (h : Operand.absent after = true)
    (previous : Option Symbol) : BeginsPlain (withZeros previous after) := by
  intro s hs
  cases after with
  | nil => cases hs
  | cons t rest =>
    have hkind : t.kind ≠ .operator := by
      intro hkind
      simp [Operand.absent, Symbol.startsStatement, Symbol.isIdentifier, hkind] at h
    have hplain (texts : List String) : t.isOp texts = false := by simp [Symbol.isOp, hkind]
    rw [withZeros_cons (by rw [hplain, Bool.false_and])] at hs
    obtain rfl := Option.mem_some_iff.1 hs
    exact hplain _

/-- **Zeros keep signs away from opening parentheses.** -/
theorem isChain_withZeros (previous : Option Symbol) {symbols : List Symbol}
    (h : symbols.IsChain fun s t => s.isOp additive = true → t.isOp multiplicative = false) :
    (withZeros previous symbols).IsChain Settled := by
  -- along the stream; what precedes a symbol decides about its zero
  induction symbols generalizing previous with
  | nil => exact .nil
  | cons s rest ih =>
    obtain ⟨hnext, hrest⟩ := List.isChain_cons.1 h
    have hchain : (s :: withZeros (some s) rest).IsChain Settled := by
      refine List.isChain_cons.2 ⟨fun t ht => ?_, ih (some s) hrest⟩
      cases rest with
      | nil => cases ht
      | cons t' rest =>
        rw [withZeros] at ht
        split at ht
        · obtain rfl := Option.mem_some_iff.1 ht
          exact ⟨fun _ => rfl, fun _ => rfl⟩
        · next hzero =>
          obtain rfl := Option.mem_some_iff.1 ht
          -- a sign behind an opening parenthesis begins an expression, and would have got a zero
          refine ⟨fun hs => Bool.eq_false_iff.2 fun ht => hzero ?_, hnext t' rfl⟩
          have hbegins : s.isOp ["(", "="] = true := by
            simp only [Symbol.isOpen, Symbol.isOp, Bool.and_eq_true] at hs ⊢
            exact ⟨hs.1, by simpa using Or.inl (by simpa using hs.2)⟩
          rw [startsExpression, hbegins, Bool.true_or, Bool.true_or, Bool.and_true]
          exact ht
    rw [withZeros]
    split
    · -- a zero in front of the sign is neither a parenthesis nor a sign
      refine List.isChain_cons.2 ⟨fun t ht => ?_, hchain⟩
      constructor <;> intro hzero <;> cases hzero
    · exact hchain

/-- A number is neither a parenthesis nor an operator. -/
theorem other_of_isInteger {s : Symbol} (h : s.isInteger = true) (operators : List String) :
    s.isParenthesis = false ∧ s.isOp operators = false :=
  ⟨isParenthesis_of_isInteger h, Symbol.isOp_of_isInteger h operators⟩

/-- A sign is no parenthesis and no operator that binds more tightly. -/
theorem other_of_additive {s : Symbol} (h : s.isOp additive = true) :
    s.isParenthesis = false ∧ s.isOp multiplicative = false := by
  refine ⟨isParenthesis_of_isArithmetic (isArithmetic_of_additive s h), ?_⟩
  simp only [Symbol.isOp, additive, multiplicative, Bool.and_eq_true] at h ⊢
  obtain ⟨-, htext⟩ := h
  simp only [List.isEmpty_cons, Bool.false_or, List.contains_iff_mem, List.mem_cons,
    List.not_mem_nil, or_false] at htext
  rcases htext with htext | htext <;> simp [htext]

/-! ### A directive and its expression -/

/-- A directive with an expression behind it, in a source that can be read. The expression ends with
the source, or where a statement or a definition begins. If it is a literal, no operator stands in
front of the directive. -/
structure Directed (e : Expression (Option Location) .sum) where
  source : Source
  before : List Symbol
  directive : Symbol
  after : List Symbol
  reads : source.symbols = .ok (before ++ directive :: (e.symbols ++ after))
  kind_eq : directive.kind = .directive
  detached : e.literal?.isSome = true → ∀ s ∈ before.getLast?, s.isArithmetic = false
  ends : Operand.absent after = true

namespace Directed

variable {e : Expression (Option Location) .sum} (t : Directed e)

/-- All symbols of the source. -/
def symbols : List Symbol := t.before ++ t.directive :: (e.symbols ++ t.after)

theorem nodup : (t.symbols.map (·.location)).Nodup := (Source.symbols_stand t.reads).nodup

theorem plain (texts : List String) : t.directive.isOp texts = false := by
  simp [Symbol.isOp, t.kind_eq]

theorem other (operators : List String) :
    t.directive.isParenthesis = false ∧ t.directive.isOp operators = false :=
  ⟨Symbol.isParenthesis_eq_false.2 ⟨t.plain _, t.plain _⟩, t.plain operators⟩

/-- The stream with its zeros. -/
theorem exists_zeros :
    ∃ front last, withZeros none t.symbols =
      front ++ t.directive :: (e.zeroed ++ withZeros (some last) t.after) ∧
        (e.literal?.isSome = true → EndsPlain front) := by
  have hstarts : startsExpression (some t.directive) = true := by
    simp [startsExpression, Symbol.startsStatement, t.kind_eq]
  obtain ⟨last, -, he⟩ := withZeros_expression e (some t.directive) (fun _ => hstarts) t.after
  refine ⟨withZeros none t.before, last, ?_, ?_⟩
  · rw [symbols, withZeros_append (t.plain _), he]
  · intro hliteral s hs
    rw [getLast?_withZeros] at hs
    exact t.detached hliteral s hs

/-- A symbol that is neither a number nor a parenthesis stands at one place of the grouped
stream. -/
theorem eq_of_split {s : Symbol} (hs : s.isInteger = false) (hother : s.isParenthesis = false)
    {a b a' b' : List Symbol} (h : grouped t.symbols = a ++ s :: b)
    (h' : grouped t.symbols = a' ++ s :: b') : b = b' := by
  -- grouping brings in parentheses and zeros only, and the source has the symbol once
  have hcount : (grouped t.symbols).count s ≤ 1 := by
    have hparenthesis (q : Symbol) (hq : q.isParenthesis = true) : (q == s) = false :=
      beq_false_of_ne (Symbol.ne_of_isParenthesis hother hq).symm
    have hzero (place : Option Location) : (zero place == s) = false := by
      refine beq_false_of_ne fun heq => ?_
      rw [← heq] at hs
      cases hs
    rw [List.count_eq_length_filter, filter_grouped hparenthesis hzero,
      ← List.count_eq_length_filter]
    exact List.nodup_iff_count_le_one.1 (List.Nodup.of_map _ t.nodup) s
  -- with one of the two places before the other, the symbol would be there twice
  have htwice {c d r : List Symbol} (h : grouped t.symbols = c ++ s :: (d ++ s :: r)) : False := by
    rw [h] at hcount
    simp only [List.count_append, List.count_cons_self] at hcount
    omega
  rcases List.append_eq_append_iff.1 (h.symm.trans h') with ⟨c, rfl, hc⟩ | ⟨c, rfl, hc⟩
  · cases c with
    | nil => exact (List.cons.inj hc).2
    | cons q c =>
      rw [List.cons_append] at hc
      obtain ⟨rfl, rfl⟩ := List.cons.inj hc
      exact (htwice h).elim
  · cases c with
    | nil => exact (List.cons.inj hc).2.symm
    | cons q c =>
      rw [List.cons_append] at hc
      obtain ⟨rfl, rfl⟩ := List.cons.inj hc
      exact (htwice h').elim

theorem isInteger : t.directive.isInteger = false := by
  rw [Symbol.isInteger, t.kind_eq]
  rfl

/-- There is one stream behind the directive. -/
theorem behind_eq {front front' behind behind' : List Symbol}
    (h : grouped t.symbols = front ++ t.directive :: behind)
    (h' : grouped t.symbols = front' ++ t.directive :: behind') : behind = behind' :=
  t.eq_of_split t.isInteger (t.other []).1 h h'

/-- What follows a fenced symbol. -/
theorem exists_fence {s : Symbol} (hs : s.isInteger = false) (hother : s.isParenthesis = false)
    {C : List Symbol → Prop} (hfenced : FencedBy C s (grouped t.symbols)) {a b : List Symbol}
    (h : grouped t.symbols = a ++ s :: b) :
    ∃ m v, b = m ++ v ∧ (∀ q ∈ m, q.isParenthesis = true) ∧ C m := by
  obtain ⟨u, m, v, hstream, hm, hC⟩ := hfenced
  exact ⟨m, v, t.eq_of_split hs hother h hstream, hm, hC⟩

/-- A number does not stand right behind a fenced symbol: a parenthesis does. -/
theorem not_fenced_of_integer {s x : Symbol} (hs : s.isInteger = false)
    (hother : s.isParenthesis = false) (hx : x.isInteger = true) {a b : List Symbol}
    (h : grouped t.symbols = a ++ s :: x :: b) : ¬ Fenced 1 s (grouped t.symbols) := by
  intro hfenced
  have hxp := isParenthesis_of_isInteger hx
  obtain ⟨m, v, hbehind, hm, hn⟩ := t.exists_fence hs hother hfenced h
  obtain ⟨q, m, rfl⟩ := List.exists_cons_of_length_pos hn
  obtain ⟨rfl, -⟩ := List.cons.inj hbehind
  rw [hm x List.mem_cons_self] at hxp
  cases hxp

/-! ### Grouping the expression -/

/-- A number by itself stays behind the directive. -/
theorem exists_literal {x : Symbol} (hx : x.isInteger = true) (hzeroed : e.zeroed = [x]) :
    ∃ u v, grouped t.symbols = u ++ t.directive :: x :: v := by
  obtain ⟨front, last, hzeros, hfront⟩ := t.exists_zeros
  have hliteral : e.literal?.isSome = true := by
    obtain ⟨text, n, place, rfl, -⟩ := Expression.sum_eq_literal hzeroed hx
    rfl
  have hkeeps (operators : List String)
      (hoperators : ∀ s : Symbol, s.isOp operators = true → s.isArithmetic = true) :
      Grouping.Keeps operators (Whole False BeginsPlain t.directive [x]) :=
    keeps_whole hoperators (by simp [t.other operators, other_of_isInteger hx operators])
      trails_beginsPlain fun _ h => h
  have hwhole : Whole False BeginsPlain t.directive [x] (withZeros none t.symbols) := by
    refine .inr ⟨front, withZeros (some last) t.after, ?_, .inr (hfront hliteral),
      beginsPlain_withZeros t.ends _⟩
    rw [hzeros, hzeroed]
    rfl
  -- neither walk has an operator to put parentheses around here
  obtain ⟨u, v, hstream, -, -⟩ := ((hkeeps additive isArithmetic_of_additive).wrap
    ((hkeeps multiplicative isArithmetic_of_multiplicative).wrap hwhole)).resolve_left And.left
  exact ⟨u, v, hstream⟩

/-- A number and a literal with a sign between them stay together, if what follows is tame. -/
theorem exists_difference {z m l : Symbol} (hz : z.isInteger = true) (hm : m.isOp additive = true)
    (hl : l.isInteger = true) (hzeroed : e.zeroed = [z, m, l]) (hliteral : e.literal?.isSome = true)
    (hafter : t.after.IsChain fun s o => s.isOp additive = true → o.isOp multiplicative = false) :
    ∃ u v, grouped t.symbols = u ++ t.directive ::
      ([.ofOperator "(" m.location, z, m, l, .ofOperator ")" m.location] ++ v) := by
  obtain ⟨front, last, hzeros, hfront⟩ := t.exists_zeros
  have hwhole : Whole False Tame t.directive [z, m, l] (withZeros none t.symbols) := by
    refine .inr ⟨front, withZeros (some last) t.after, ?_, .inr (hfront hliteral),
      beginsPlain_withZeros t.ends _, isChain_withZeros _ hafter⟩
    rw [hzeros, hzeroed]
    rfl
  have hkeeps : Grouping.Keeps multiplicative (Whole False Tame t.directive [z, m, l]) := by
    refine keeps_whole isArithmetic_of_multiplicative ?_ trails_tame fun _ h => h.1
    simp [t.other multiplicative, other_of_isInteger hz multiplicative,
      other_of_isInteger hl multiplicative, other_of_additive hm]
  -- the first walk leaves all four alone; the second makes the group
  obtain ⟨u, v, hstream, hu, hv⟩ := (hkeeps.wrap hwhole).resolve_left And.left
  obtain ⟨u', v', hgrouped⟩ := exists_wrap_group (t.other _) (other_of_isInteger hz _) hm
    (other_of_isInteger hl _) (hu.resolve_left id) hv
  refine ⟨u', v', ?_⟩
  rw [grouped, hstream, hgrouped]
  simp

/-- With an operator behind it, a number is fenced off from the directive. -/
theorem fenced_of_operator {x o : Symbol} {w : List Symbol} (hx : x.isInteger = true)
    (ho : o.isArithmetic = true) (hw : Proceeds false w) (hzeroed : e.zeroed = x :: o :: w) :
    Fenced 1 t.directive (grouped t.symbols) := by
  obtain ⟨front, last, hzeros, -⟩ := t.exists_zeros
  rw [hzeroed] at hzeros
  rcases isArithmetic_iff.1 ho with hscaling | hsign
  · -- the first walk fences off the directive, and the second keeps the fence
    refine (keeps_fenced 1 t.directive).wrap ?_
    rw [hzeros]
    exact fenced_wrap isArithmetic_of_multiplicative (t.other _) (other_of_isInteger hx _)
      hscaling _ _
  · -- the first walk does not change anything here, or shuts off the directive
    have hkeeps : Grouping.Keeps multiplicative (Whole True BeginsPlain t.directive [x, o]) := by
      refine keeps_whole isArithmetic_of_multiplicative ?_ trails_beginsPlain fun _ h => h
      simp [t.other multiplicative, other_of_isInteger hx multiplicative, other_of_additive hsign]
    rcases hkeeps.wrap (.inr ⟨front, w ++ withZeros (some last) t.after, hzeros, .inl trivial,
      hw.beginsPlain _⟩) with ⟨-, hshut⟩ | ⟨u, v, hstream, -, -⟩
    · exact ((keeps_shut t.directive).wrap hshut).fenced
    · rw [grouped, hstream]
      exact fenced_wrap isArithmetic_of_additive (t.other _) (other_of_isInteger hx _) hsign _ _

/-- With two operators, the second of them fences off the sign or, once more, the directive; unless
another operator has shut off the directive. -/
theorem fenced_of_operators {z m l o : Symbol} {w : List Symbol} (hz : z.isInteger = true)
    (hm : m.isOp additive = true) (hl : l.isInteger = true) (ho : o.isArithmetic = true)
    (hw : Proceeds false w) (hzeroed : e.zeroed = z :: m :: l :: o :: w) :
    Fenced 1 m (grouped t.symbols) ∨ Fenced 2 t.directive (grouped t.symbols) ∨
      Shut t.directive (grouped t.symbols) := by
  obtain ⟨front, last, hzeros, -⟩ := t.exists_zeros
  rw [hzeroed] at hzeros
  rcases isArithmetic_iff.1 ho with hscaling | hsign
  · -- a product: its own walk comes first and fences off the sign
    refine .inl ((keeps_fenced 1 m).wrap ?_)
    have hfenced := fenced_wrap isArithmetic_of_multiplicative (other_of_additive hm)
      (other_of_isInteger hl _) hscaling (front ++ [t.directive, z])
      (w ++ withZeros (some last) t.after)
    rw [hzeros]
    simpa using hfenced
  · have hkeeps : Grouping.Keeps multiplicative
        (Whole True BeginsPlain t.directive [z, m, l, o]) := by
      refine keeps_whole isArithmetic_of_multiplicative ?_ trails_beginsPlain fun _ h => h
      simp [t.other multiplicative, other_of_isInteger hz multiplicative, other_of_additive hm,
        other_of_isInteger hl multiplicative, other_of_additive hsign]
    rcases hkeeps.wrap (.inr ⟨front, w ++ withZeros (some last) t.after, hzeros, .inl trivial,
      hw.beginsPlain _⟩) with ⟨-, hshut⟩ | ⟨u, v, hstream, -, -⟩
    · exact .inr (.inr ((keeps_shut t.directive).wrap hshut))
    · rw [grouped, hstream]
      exact .inr (fenced_wrap_twice isArithmetic_of_additive (t.other _) (other_of_isInteger hz _)
        hm (other_of_isInteger hl _) hsign _ _)

/-! ### Reading the operand back -/

section Back

variable {front : List Symbol}

/-- The directive is in the grouped stream, and the expression stands behind it with parentheses put
in. -/
theorem exists_padded : ∃ front behind rest,
    grouped t.symbols = front ++ t.directive :: behind ∧ Padded (e.zeroed ++ rest) behind := by
  obtain ⟨u, last, hzeros, -⟩ := t.exists_zeros
  have hpadded := padded_grouped t.symbols
  rw [hzeros] at hpadded
  obtain ⟨front, behind, hsplit, hbehind⟩ := hpadded.split
  exact ⟨front, behind, _, hsplit, hbehind⟩

/-- The same for a directive that has been found in the stream. -/
theorem padded {behind : List Symbol} (h : grouped t.symbols = front ++ t.directive :: behind) :
    ∃ rest, Padded (e.zeroed ++ rest) behind := by
  obtain ⟨front', behind', rest, hsplit, hbehind⟩ := t.exists_padded
  exact ⟨rest, t.behind_eq h hsplit ▸ hbehind⟩

/-- Where a number directly follows the directive, there is nothing else in the expression. -/
theorem literal?_of_integer {x : Symbol} {rest : List Symbol} (hx : x.isInteger = true)
    (h : grouped t.symbols = front ++ t.directive :: x :: rest) : e.literal? = some x := by
  have hxp := isParenthesis_of_isInteger hx
  have hproceeds := e.proceeds_zeroed
  obtain ⟨s, w, hzeroed, -⟩ := hproceeds.operand
  obtain ⟨after, hpadded⟩ := t.padded h
  rw [hzeroed, List.cons_append] at hpadded
  obtain ⟨rfl, -⟩ := hpadded.of_other hxp
  rw [hzeroed] at hproceeds
  rcases hproceeds.behind_integer hx with rfl | ⟨o, w, rfl, ho, hw⟩
  · obtain ⟨text, n, place, rfl, rfl⟩ := Expression.sum_eq_literal hzeroed hx
    rfl
  · -- an operator would have put a parenthesis between the directive and the number
    exact absurd (t.fenced_of_operator hx ho hw hzeroed)
      (t.not_fenced_of_integer t.isInteger (t.other []).1 hx h)

/-- An opening parenthesis in front of the expression is written. -/
theorem mem_symbols_of_isOpen {s : Symbol} {w : List Symbol} (hs : s.isOpen = true)
    (hzeroed : e.zeroed = s :: w) : s ∈ t.symbols := by
  obtain ⟨u, last, hzeros, -⟩ := t.exists_zeros
  have hmem : s ∈ (withZeros none t.symbols).filter Symbol.isOpen := by
    rw [List.mem_filter, hzeros, hzeroed]
    exact ⟨by simp, hs⟩
  rw [filter_withZeros fun _ => rfl] at hmem
  exact (List.mem_filter.1 hmem).1

/-- Signs are written: neither zeros nor parentheses bring one in. -/
theorem mem_symbols_of_additive {m : Symbol} (hm : m.isOp additive = true)
    (h : m ∈ grouped t.symbols) : m ∈ t.symbols := by
  have hmem : m ∈ (grouped t.symbols).filter (·.isOp additive) := List.mem_filter.2 ⟨h, hm⟩
  rw [filter_grouped (fun _ hs => not_isOp_of_isParenthesis isArithmetic_of_additive hs)
    fun _ => rfl] at hmem
  exact (List.mem_filter.1 hmem).1

section Group

variable {p z m l c : Symbol} {rest : List Symbol} (hp : p.isOpen = true)
  (hz : z.isInteger = true) (hm : m.isOp additive = true) (hl : l.isInteger = true)
  (h : grouped t.symbols = front ++ t.directive :: p :: z :: m :: l :: c :: rest)

include hp hz hm h

/-- A parenthesis in front of a difference was put in for it: a written one stands at another place
than the sign. -/
theorem not_isOpen_of_group {s : Symbol} {w : List Symbol} (hzeroed : e.zeroed = s :: w) :
    s.isOpen = false := by
  have hzp := isParenthesis_of_isInteger hz
  have hmp := (other_of_additive hm).1
  refine Bool.eq_false_iff.2 fun hs => ?_
  obtain ⟨after, hpadded⟩ := t.padded h
  rw [hzeroed, List.cons_append] at hpadded
  have hwritten : p = s := by
    cases hpadded with
    | keep hpadded => rfl
    | pad hp hpadded =>
      obtain ⟨rfl, -⟩ := hpadded.of_other hzp
      rw [(Symbol.isParenthesis_eq_false.1 hzp).1] at hs
      cases hs
  have hplace : p = .ofOperator "(" m.location := by
    by_contra hne
    refine guarded_wrapFrom hm hne hzp hmp [] _ (by simp)
      (⟨front ++ [t.directive], l :: c :: rest, ?_⟩ : [p, z] ++ [m] <:+: grouped t.symbols)
    rw [h]
    simp
  -- both are symbols of the source, so they would be the same
  have hpmem : p ∈ t.symbols := hwritten ▸ t.mem_symbols_of_isOpen hs hzeroed
  have hmmem : m ∈ t.symbols := t.mem_symbols_of_additive hm (by rw [h]; simp)
  have hlocation : p.location = m.location := by rw [hplace, Symbol.ofOperator]
  have hsame : p = m := List.inj_on_of_nodup_map t.nodup hpmem hmmem hlocation
  rw [← hsame] at hmp
  rw [(Symbol.isParenthesis_eq_false.1 hmp).1] at hp
  cases hp

include hl

/-- The difference is the whole expression. -/
theorem zeroed_of_group : e.zeroed = [z, m, l] := by
  have hzp := isParenthesis_of_isInteger hz
  have hmp := (other_of_additive hm).1
  have hlp := isParenthesis_of_isInteger hl
  have hparenthesis : p.isParenthesis = true := by rw [Symbol.isParenthesis, hp, Bool.true_or]
  have hproceeds := e.proceeds_zeroed
  obtain ⟨s, w, hzeroed, hs⟩ := hproceeds.operand
  rw [t.not_isOpen_of_group hp hz hm h hzeroed] at hs
  have hother := hs.resolve_left Bool.false_ne_true
  obtain ⟨after, hpadded⟩ := t.padded h
  rw [hzeroed, List.cons_append] at hpadded
  obtain ⟨rfl, hsign⟩ := (hpadded.of_parenthesis hother hparenthesis).of_other hzp
  rw [hzeroed] at hproceeds
  rcases hproceeds.behind_integer hz with rfl | ⟨o, right, rfl, ho, hright⟩
  · -- a number alone has no parenthesis in front of it
    obtain ⟨u, v, hgrouped⟩ := t.exists_literal hz hzeroed
    obtain ⟨rfl, -⟩ := List.cons.inj (t.behind_eq h hgrouped)
    rw [hzp] at hparenthesis
    cases hparenthesis
  rw [List.cons_append] at hsign
  obtain ⟨rfl, hoperand⟩ := hsign.of_other hmp
  obtain ⟨s, more, rfl, -⟩ := hright.operand
  rw [List.cons_append] at hoperand
  obtain ⟨rfl, -⟩ := hoperand.of_other hlp
  rcases hright.behind_integer hl with rfl | ⟨o, w, rfl, ho, hw⟩
  · exact hzeroed
  -- a second operator would have put a parenthesis behind the sign, or two behind the directive
  have hminteger : m.isInteger = false := by
    rw [Symbol.isInteger, Symbol.kind_of_isOp hm]
    rfl
  -- but there is one parenthesis behind the directive, and then the number comes
  have hsecond {q₁ q₂ : Symbol} {q v : List Symbol}
      (hbehind : p :: z :: m :: l :: c :: rest = q₁ :: q₂ :: q ++ v)
      (hq : ∀ s ∈ q₁ :: q₂ :: q, s.isParenthesis = true) : False := by
    simp only [List.cons_append, List.cons.injEq] at hbehind
    rw [hbehind.2.1, hq q₂ (by simp)] at hzp
    cases hzp
  rcases t.fenced_of_operators hz hm hl ho hw hzeroed with hfenced | hfenced | hshut
  · refine absurd hfenced (t.not_fenced_of_integer (x := l) (a := front ++ [t.directive, p, z])
      (b := c :: rest) hminteger hmp hl ?_)
    rw [h]
    simp
  · obtain ⟨q, v, hbehind, hq, hn⟩ := t.exists_fence t.isInteger (t.other []).1 hfenced h
    rcases q with _ | ⟨q₁, _ | ⟨q₂, q⟩⟩
    · simp at hn
    · simp at hn
    · exact (hsecond hbehind hq).elim
  · -- the parenthesis opens, and does not shut anything off
    obtain ⟨q, v, hbehind, hq, c, hc, hclose⟩ :=
      t.exists_fence t.isInteger (t.other []).1 hshut h
    rcases q with _ | ⟨q₁, _ | ⟨q₂, q⟩⟩
    · cases hc
    · obtain rfl := List.mem_singleton.1 hc
      obtain ⟨rfl, -⟩ := List.cons.inj hbehind
      rw [isOpen_of_isClose hclose] at hp
      cases hp
    · exact (hsecond hbehind hq).elim

end Group

/-! ### The operand and the expression -/

variable {behind : List Symbol} {x : Symbol}

/-- What is read as a literal was written as one. -/
theorem literal?_of_ok (h : grouped t.symbols = front ++ t.directive :: behind)
    (hok : Operand.literal t.directive behind = .ok x) : e.literal? = some x := by
  rcases Operand.literal_cases hok with ⟨hx, rest, rfl⟩ |
    ⟨p, z, m, l, c, rest, n, rfl, hp, hz, -, hm, hl, hn, -, hplace, rfl⟩
  · exact t.literal?_of_integer hx h
  · -- the five symbols of a negated literal; the sign was written, the zero was not
    have hadditive : m.isOp additive = true := by
      simp only [Symbol.isOp, Bool.and_eq_true] at hm ⊢
      exact ⟨hm.1, by simpa [additive] using Or.inr (by simpa using hm.2)⟩
    have hwritten : e.symbols <:+: t.symbols :=
      ⟨t.before ++ [t.directive], t.after, by simp [symbols]⟩
    exact Expression.literal?_eq_of_difference (t.zeroed_of_group hp hz hadditive hl h) hz hm hl hn
      hplace (t.nodup.sublist (hwritten.sublist.map _))

/-- What was written as a literal is read as one. -/
theorem ok_of_literal? (h : grouped t.symbols = front ++ t.directive :: behind)
    (hafter : e.isNegated = true →
      t.after.IsChain fun s o => s.isOp additive = true → o.isOp multiplicative = false)
    (hliteral : e.literal? = some x) : Operand.literal t.directive behind = .ok x := by
  rcases Expression.literal?_cases hliteral with ⟨text, n, place, rfl, rfl⟩ |
    ⟨text, n, place, place', rfl, rfl⟩
  · obtain ⟨u, v, hgrouped⟩ := t.exists_literal rfl rfl
    rw [t.behind_eq h hgrouped]
    exact Operand.literal_of_isInteger rfl t.directive v
  · obtain ⟨u, v, hgrouped⟩ := t.exists_difference rfl rfl rfl rfl rfl (hafter rfl)
    -- the sign was read, so it has a place
    have hmem : (Operator.sign .minus).symbol place ∈ t.symbols := by
      simp [symbols, Expression.symbols]
    obtain ⟨u', -, hlocation⟩ := (Source.symbols_stand t.reads).exists_place hmem
    have hplace : place.isSome = true := Option.isSome_of_eq_some hlocation
    rw [t.behind_eq h hgrouped]
    exact Operand.literal_of_negated hplace text n place' v

end Back

/-- **Directives accept literals and nothing else.** Of all expressions behind a directive, a
literal and a literal with a minus sign are read as a number, which has the value and the spelling
of the expression, and all others are reported, whatever stands around them. In front of the
directive of a literal there is no operator, and if the literal has a sign, what follows it must not
have a sign in front of an operator that binds more tightly. -/
theorem accepts_literals (hafter : e.isNegated = true →
      t.after.IsChain fun s o => s.isOp additive = true → o.isOp multiplicative = false) :
    t.directive ∈ grouped t.symbols ∧
    ∀ front behind, grouped t.symbols = front ++ t.directive :: behind →
      (∀ x, Operand.literal t.directive behind = .ok x ↔ e.literal? = some x) ∧
      (∀ x, e.literal? = some x → x.isInteger = true ∧ (∀ ρ, e.eval ρ = x.value) ∧
        x.text.toList = e.symbols.flatMap (·.text.toList)) ∧
      (e.literal? = none → ∃ problem place,
        Operand.literal t.directive behind = .error (.report problem place) ∧
        problem.category = .directive ∧
        (place.all Location.isWritable = true →
          Failure.report problem place = .diagnostic ⟨problem, place, none⟩)) := by
  constructor
  · obtain ⟨front, behind, -, hsplit, -⟩ := t.exists_padded
    rw [hsplit]
    simp
  · intro front behind h
    have hiff (x : Symbol) : Operand.literal t.directive behind = .ok x ↔ e.literal? = some x :=
      ⟨t.literal?_of_ok h, t.ok_of_literal? h hafter⟩
    refine ⟨hiff, fun x hx => Expression.literal?_spec hx, fun hnone => ?_⟩
    have hvalues : ∀ s ∈ behind, s.isInteger = true → ∃ n, s.value = some n := by
      intro s hs hinteger
      have hmem : s ∈ grouped t.symbols := by
        rw [h]
        simp [hs]
      obtain ⟨n, hn, -⟩ := (Source.grouped_isRead t.reads s hmem).genuine.number hinteger
      exact ⟨n, hn⟩
    have hrefused : ∀ x, Operand.literal t.directive behind ≠ .ok x := by
      intro x hok
      rw [(hiff x).1 hok] at hnone
      cases hnone
    obtain ⟨problem, place, hreport, hcategory, hintegers⟩ := Operand.exists_report hvalues hrefused
    exact ⟨problem, place, hreport, hcategory, System.report_eq_diagnostic hintegers⟩

/-- `.org -0x10` in front of a definition whose product has a negative operand. -/
def negativeOrigin : Directed (.signed .minus (inFirstLine 9)
    (.ofAtom (.literal "0x10" 16 (inFirstLine 10)))) where
  source := { text := "x: .org -0x10 y = 3 * - x".toList, file := "p.asm" }
  before := [⟨.identifier, "x", none, inFirstLine 1⟩, .ofOperator ":" (inFirstLine 2)]
  directive := ⟨.directive, ".org", none, inFirstLine 4⟩
  after := [⟨.identifier, "y", none, inFirstLine 15⟩, .ofOperator "=" (inFirstLine 17),
    ⟨.integer, "3", some 3, inFirstLine 19⟩, .ofOperator "*" (inFirstLine 21),
    .ofOperator "-" (inFirstLine 23), ⟨.identifier, "x", none, inFirstLine 25⟩]
  reads := by cbv
  kind_eq := rfl
  detached := by
    rintro - s ⟨⟩
    rfl
  ends := rfl

/-- In the definition behind it an operator stands in front of a sign, which does no harm; only a
sign in front of an operator would. -/
theorem negativeOrigin_accepted :
    (negativeOrigin.after.IsChain fun s o =>
      s.isOp additive = true → o.isOp multiplicative = false) ∧
    ∃ front behind, grouped negativeOrigin.symbols = front ++ negativeOrigin.directive :: behind ∧
      Operand.literal negativeOrigin.directive behind =
        .ok ⟨.integer, "-0x10", some (-16), inFirstLine 9⟩ := by
  have hafter : negativeOrigin.after.IsChain fun s o =>
      s.isOp additive = true → o.isOp multiplicative = false := by
    decide
  obtain ⟨hmem, hall⟩ := negativeOrigin.accepts_literals fun _ => hafter
  obtain ⟨front, behind, h⟩ := List.append_of_mem hmem
  exact ⟨hafter, front, behind, h, ((hall front behind h).1 _).2 rfl⟩

/-- `.org -5` in front of a statement with operators that lack an operand. -/
def unsettled : Directed (.signed .minus (inFirstLine 6)
    (.ofAtom (.literal "5" 5 (inFirstLine 7)))) where
  source := { text := ".org -5 NOP - * 3".toList, file := "p.asm" }
  before := []
  directive := ⟨.directive, ".org", none, inFirstLine 1⟩
  after := [⟨.mnemonic, "NOP", none, inFirstLine 9⟩, .ofOperator "-" (inFirstLine 13),
    .ofOperator "*" (inFirstLine 15), ⟨.integer, "3", some 3, inFirstLine 17⟩]
  reads := by cbv
  kind_eq := rfl
  detached := by
    rintro - s ⟨⟩
  ends := rfl

/-- `.org 5` behind a sum that lacks an operand. -/
def attached : Source where
  text := "1 + .org 5".toList
  file := "p.asm"

/-- Operators that lack an operand have literals refused. A sign far behind a negated literal breaks
up the group that was made of it, and an operator in front of a directive takes that for its
operand. -/
theorem stray_operators_refuse :
    (∃ behind, grouped unsettled.symbols = unsettled.directive :: behind ∧
      Operand.literal unsettled.directive behind = .error (.diagnostic
        ⟨.notLiteral ".org" "( 0 - 5 ( ) NOP 0 ( - * ) 3 )", inFirstLine 6, none⟩)) ∧
    ∃ before front behind, ∃ directive literal : Symbol,
      attached.symbols = .ok (before ++ [directive, literal]) ∧
      directive.kind = .directive ∧ literal.isInteger = true ∧
      grouped (before ++ [directive, literal]) = front ++ directive :: behind ∧
      Operand.literal directive behind =
        .error (.diagnostic ⟨.notLiteral ".org" ")", inFirstLine 3, none⟩) := by
  constructor
  · refine ⟨[.ofOperator "(" (inFirstLine 6), zero (inFirstLine 6), .ofOperator "-" (inFirstLine 6),
      ⟨.integer, "5", some 5, inFirstLine 7⟩, .ofOperator "(" (inFirstLine 13),
      .ofOperator ")" (inFirstLine 6), ⟨.mnemonic, "NOP", none, inFirstLine 9⟩,
      zero (inFirstLine 13), .ofOperator "(" (inFirstLine 15), .ofOperator "-" (inFirstLine 13),
      .ofOperator "*" (inFirstLine 15), .ofOperator ")" (inFirstLine 13),
      ⟨.integer, "3", some 3, inFirstLine 17⟩, .ofOperator ")" (inFirstLine 15)], ?_, ?_⟩
    · cbv
    · cbv
  · refine ⟨[⟨.integer, "1", some 1, inFirstLine 1⟩, .ofOperator "+" (inFirstLine 3)],
      [.ofOperator "(" (inFirstLine 3), ⟨.integer, "1", some 1, inFirstLine 1⟩,
        .ofOperator "+" (inFirstLine 3)],
      [.ofOperator ")" (inFirstLine 3), ⟨.integer, "5", some 5, inFirstLine 10⟩],
      ⟨.directive, ".org", none, inFirstLine 5⟩, ⟨.integer, "5", some 5, inFirstLine 10⟩,
      ?_, rfl, rfl, ?_, ?_⟩
    · cbv
    · cbv
    · cbv

end Directed

end RomAsm
