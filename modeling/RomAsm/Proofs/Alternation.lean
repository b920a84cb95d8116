import RomAsm.Proofs.Following

/-!
# Operands and operators in turn

In an expression, operands and operators come in turn, and parentheses balance. `Alternates` says
the first: reading a stream from the left, an operand begins exactly where none has just ended. A
parenthesis changes nothing about that, so it may be taken out (`Alternates.sheds`), and this is why
the parentheses that grouping inserts do not matter to it.

They could matter to the balance. But a parenthesis is inserted on both sides of an operator, or one
is missing because a group beside the operator is not ended, and then it is not ended afterwards
either (`loose_of_wrapped`). So a stream that alternates and balances after grouping did so before.

* `regular_of_grouped` — grouping makes no stream regular that was not;
* `regular_of_steps` — a stream that resolution uses up is regular.
-/

namespace RomAsm

namespace Symbol

/-- Whether a symbol is an operand by itself. -/
def isOperand (s : Symbol) : Bool := s.isInteger || s.isIdentifier

/-- Whether an operand can begin with a symbol. -/
def beginsOperand (s : Symbol) : Bool := s.isOperand || s.isOpen

/-- Whether an operand can end with a symbol. -/
def endsOperand (s : Symbol) : Bool := s.isOperand || s.isClose

/-- An operator is no operand. -/
theorem isOperand_of_isOp {s : Symbol} {texts : List String} (h : s.isOp texts = true) :
    s.isOperand = false := by
  have hkind : s.kind = .operator := by simpa using (Bool.and_eq_true_iff.1 h).1
  rw [isOperand, isInteger, isIdentifier, hkind]
  rfl

theorem isOperand_of_isInteger {s : Symbol} (h : s.isInteger = true) : s.isOperand = true := by
  rw [isOperand, h, Bool.true_or]

/-- An operand can begin with a parenthesis or end with it, but not both. -/
theorem beginsOperand_of_isParenthesis {s : Symbol} (h : s.isParenthesis = true) :
    s.beginsOperand = !s.endsOperand := by
  rw [beginsOperand, endsOperand]
  rcases Bool.or_eq_true_iff.1 h with hopen | hclose
  · rw [isOperand_of_isOp hopen, hopen, Grouping.isClose_of_isOpen hopen]
    rfl
  · rw [isOperand_of_isOp hclose, hclose, Grouping.isOpen_of_isClose hclose]
    rfl

/-- No operand ends with an opening parenthesis. -/
theorem isOpen_of_endsOperand {s : Symbol} (h : s.endsOperand = true) : s.isOpen = false := by
  refine Bool.eq_false_iff.2 fun hopen => ?_
  have hbegins := beginsOperand_of_isParenthesis (s := s) (by rw [isParenthesis, hopen]; rfl)
  rw [h, beginsOperand, hopen, Bool.or_true] at hbegins
  cases hbegins

/-- And none begins with a closing one. -/
theorem isClose_of_beginsOperand {s : Symbol} (h : s.beginsOperand = true) :
    s.isClose = false := by
  refine Bool.eq_false_iff.2 fun hclose => ?_
  have hbegins := beginsOperand_of_isParenthesis (s := s)
    (by rw [isParenthesis, hclose, Bool.or_true])
  rw [h, endsOperand, hclose, Bool.or_true] at hbegins
  cases hbegins

/-- Between operands stands an operator that is no parenthesis. -/
theorem beginsOperand_of_isOp {s : Symbol} {texts : List String} (h : s.isOp texts = true)
    (hparenthesis : s.isParenthesis = false) : s.beginsOperand = false ∧ s.endsOperand = false := by
  obtain ⟨hopen, hclose⟩ := isParenthesis_eq_false.1 hparenthesis
  rw [beginsOperand, endsOperand, isOperand_of_isOp h, hopen, hclose]
  exact ⟨rfl, rfl⟩

end Symbol

open Grouping

/-! ### Alternation -/

/-- Operands and operators come in turn; `ended` tells whether an operand has just ended. -/
def Alternates : Bool → List Symbol → Prop
  | ended, [] => ended = true
  | ended, s :: rest => s.beginsOperand = !ended ∧ Alternates s.endsOperand rest

section

variable {ended : Bool} {s : Symbol} {rest : List Symbol}

/-- A number or a name comes where no operand has just ended. -/
theorem alternates_operand (h : s.isOperand = true) :
    Alternates ended (s :: rest) ↔ ended = false ∧ Alternates true rest := by
  rw [Alternates, Symbol.beginsOperand, Symbol.endsOperand, h, Bool.true_or, Bool.true_or,
    eq_comm (a := true), Bool.not_eq_true']

/-- An operator comes where one has. -/
theorem alternates_operator {texts : List String} (h : s.isOp texts = true)
    (hparenthesis : s.isParenthesis = false) :
    Alternates ended (s :: rest) ↔ ended = true ∧ Alternates false rest := by
  obtain ⟨hbegins, hends⟩ := Symbol.beginsOperand_of_isOp h hparenthesis
  rw [Alternates, hbegins, hends, eq_comm (a := false), Bool.not_eq_false']

/-- An opening parenthesis comes where an operand may begin, and leaves it at that. -/
theorem alternates_open (h : s.isOpen = true) :
    Alternates ended (s :: rest) ↔ ended = false ∧ Alternates false rest := by
  rw [Alternates, Symbol.beginsOperand, Symbol.endsOperand, Symbol.isOperand_of_isOp h, h,
    isClose_of_isOpen h, Bool.or_true, Bool.or_false, eq_comm (a := true), Bool.not_eq_true']

/-- A closing one comes where an operand has ended. -/
theorem alternates_close (h : s.isClose = true) :
    Alternates ended (s :: rest) ↔ ended = true ∧ Alternates true rest := by
  rw [Alternates, Symbol.beginsOperand, Symbol.endsOperand, Symbol.isOperand_of_isOp h, h,
    isOpen_of_isClose h, Bool.or_true, Bool.or_false, eq_comm (a := false), Bool.not_eq_false']

end

namespace Alternates

variable {ended : Bool}

/-- **A parenthesis can be taken out** of a stream that alternates. -/
theorem sheds (ended : Bool) : Sheds (Alternates ended) := by
  intro a p b hp h
  induction a generalizing ended with
  | nil =>
    -- whatever ends or not in front of the parenthesis, ends or not behind it
    obtain ⟨hbegins, hb⟩ := h
    rw [Symbol.beginsOperand_of_isParenthesis hp, Bool.not_inj_iff] at hbegins
    exact hbegins ▸ hb
  | cons s a ih => exact ⟨h.1, ih _ h.2⟩

/-- In front of a symbol that no operand begins with, an operand has ended. -/
theorem split {s : Symbol} (hs : s.beginsOperand = false) {a b : List Symbol}
    (h : Alternates ended (a ++ s :: b)) : Alternates ended a ∧ Alternates s.endsOperand b := by
  induction a generalizing ended with
  | nil =>
    obtain ⟨hbegins, hb⟩ := h
    -- the symbol begins no operand, so it may only come where one has ended
    rw [hs] at hbegins
    exact ⟨by simpa [Alternates] using hbegins.symm, hb⟩
  | cons t a ih =>
    obtain ⟨ha, hb⟩ := ih h.2
    exact ⟨⟨h.1, ha⟩, hb⟩

/-- Where an operand has to come, one begins. -/
theorem exists_head {a : List Symbol} (h : Alternates false a) :
    ∃ s b, a = s :: b ∧ s.beginsOperand = true := by
  -- an empty stream does not end where an operand is still to come
  match a with
  | [] => cases h
  | s :: b => exact ⟨s, b, rfl, h.1⟩

/-- An operand has ended with the last symbol. -/
theorem exists_last {a : List Symbol} (h : Alternates false a) :
    ∃ s b, a.reverse = s :: b ∧ s.endsOperand = true := by
  -- if the stream has no symbols, an operand has ended before it
  have hlast (ended : Bool) (a : List Symbol) (h : Alternates ended a) :
      a = [] ∧ ended = true ∨ ∃ s b, a.reverse = s :: b ∧ s.endsOperand = true := by
    induction a generalizing ended with
    | nil => exact .inl ⟨rfl, h⟩
    | cons s a ih =>
      refine .inr ?_
      rcases ih _ h.2 with ⟨rfl, hs⟩ | ⟨t, b, hb, ht⟩
      · exact ⟨s, [], rfl, hs⟩
      · exact ⟨t, b ++ [s], by rw [List.reverse_cons, hb]; rfl, ht⟩
  rcases hlast false a h with ⟨-, h⟩ | h
  · cases h
  · exact h

end Alternates

/-! ### Wrapping an operator -/

/-- A symbol that is no parenthesis does not count. -/
theorem loose_neutral {s : Symbol} (h : s.isParenthesis = false) (rest : List Symbol) :
    loose (s :: rest) = loose rest := by
  obtain ⟨hopen, hclose⟩ := Symbol.isParenthesis_eq_false.1 h
  exact loose_other hopen hclose rest

/-- **One operator.** If there are operands on both sides of an operator and the stream balances
after the operator is wrapped, it did before. -/
theorem loose_of_wrapped {s l f : Symbol} {passed rest : List Symbol}
    (hs : s.isParenthesis = false) (hl : l.endsOperand = true) (hf : f.beginsOperand = true)
    (h : loose ((s :: openBefore s.location (l :: passed)).reverse ++
      closeBehind s.location (f :: rest)) = (0, 0)) :
    loose ((l :: passed).reverse ++ s :: f :: rest) = (0, 0) := by
  rw [List.reverse_cons, List.append_assoc, List.singleton_append] at h
  have hopen := Symbol.isOpen_of_endsOperand hl
  have hclose := Symbol.isClose_of_beginsOperand hf
  rcases enclose_operand (.ofOperator "(" s.location) hopen passed with
    ⟨x, before, hpassed, hx, hinsert⟩ | ⟨hsame, hopen⟩
  · rcases enclose_operand (.ofOperator ")" s.location) hclose rest with
      ⟨y, behind, hrest, hy, hinsert'⟩ | ⟨hsame, hclose⟩
    · -- both parentheses are inserted, around something that balances
      have hbetween : loose (x.reverse ++ s :: y) = (0, 0) :=
        loose_append_of_balanced (loose_reverse_of_balanced hx) ((loose_neutral hs y).trans hy)
      have hgroup : loose (.ofOperator "(" s.location ::
          (x.reverse ++ s :: y ++ [.ofOperator ")" s.location])) = (0, 0) :=
        (IsOperand.group rfl rfl hbetween).loose_eq
      have hnew : loose (before.reverse ++ behind) = (0, 0) := by
        rw [← loose_append_balanced hgroup, ← h, openBefore, closeBehind, hinsert, hinsert']
        simp
      calc loose ((l :: passed).reverse ++ s :: f :: rest)
          = loose (before.reverse ++ (x.reverse ++ s :: y ++ behind)) := by
            rw [hpassed, hrest]
            simp
        _ = loose (before.reverse ++ behind) := loose_append_balanced hbetween ..
        _ = (0, 0) := hnew
    · -- a group on the right is not ended
      rw [closeBehind, hsame, loose_append, loose_neutral hs, Prod.mk.injEq] at h
      have hclose : 1 ≤ (loose (f :: rest)).2 := hclose
      omega
  · -- a group on the left was not begun
    rw [openBefore, hsame, loose_append, Prod.mk.injEq] at h
    have hreverse := loose_reverse (l :: passed).reverse
    rw [List.reverse_reverse] at hreverse
    rw [hreverse, Prod.snd_swap] at hopen
    omega

/-! ### Regular streams -/

/-- A stream that alternates and balances. -/
structure Regular (stream : List Symbol) : Prop where
  alternates : Alternates false stream
  balanced : loose stream = (0, 0)

/-- A stream that is regular after an operator is wrapped was regular before. -/
theorem regular_of_wrapped {s : Symbol} (hs : s.isArithmetic = true) {passed rest : List Symbol}
    (h : Regular ((s :: openBefore s.location passed).reverse ++ closeBehind s.location rest)) :
    Regular (passed.reverse ++ s :: rest) := by
  have hparenthesis := isParenthesis_of_isArithmetic hs
  -- without the two parentheses the stream still alternates, so there are operands on both sides
  have halternates := (Alternates.sheds false).of_wrapped h.alternates
  obtain ⟨hbegins, hends⟩ := Symbol.beginsOperand_of_isOp hs hparenthesis
  obtain ⟨hpassed, hrest⟩ := halternates.split hbegins
  rw [hends] at hrest
  obtain ⟨l, before, hl, hlast⟩ := hpassed.exists_last
  obtain ⟨f, behind, rfl, hfirst⟩ := hrest.exists_head
  rw [List.reverse_reverse] at hl
  subst hl
  exact ⟨halternates, loose_of_wrapped hparenthesis hlast hfirst h.balanced⟩

/-- **A walk** makes no stream regular that was not. -/
theorem regular_of_wrapFrom {operators : List String}
    (hoperators : ∀ s : Symbol, s.isOp operators = true → s.isArithmetic = true)
    (passed rest : List Symbol) (h : Regular (wrapFrom operators passed rest)) :
    Regular (passed.reverse ++ rest) := by
  fun_induction wrapFrom operators passed rest with
  | case1 passed => simpa using h
  -- backwards through the walk, one operator after the other
  | case2 passed s rest hs ih => exact regular_of_wrapped (hoperators s hs) (ih h)
  | case3 passed s rest hs ih => simpa using ih h

/-- **Grouping makes no stream regular** that was not, once it has its zeros. -/
theorem regular_of_grouped {symbols : List Symbol} (h : Regular (grouped symbols)) :
    Regular (withZeros none symbols) := by
  -- backwards: sums were wrapped last
  have hsecond := regular_of_wrapFrom (fun _ hs => isArithmetic_iff.2 (.inr hs)) [] _ h
  exact regular_of_wrapFrom (fun _ hs => isArithmetic_iff.2 (.inl hs)) [] _ hsecond

/-! ### Rewriting backwards -/

namespace Resolution

/-- The number of names in a stream. -/
def nameCount (symbols : List Symbol) : Nat := symbols.countP Symbol.isIdentifier

theorem nameCount_cons (s : Symbol) (rest : List Symbol) :
    nameCount (s :: rest) = nameCount rest + if s.isIdentifier then 1 else 0 :=
  List.countP_cons

/-- The first stream is the second with something regular in the place of an operand. -/
structure Unfolds (a b : List Symbol) : Prop where
  names : nameCount a = nameCount b
  loose_eq : loose a = loose b
  alternates : ∀ ended, Alternates ended b → Alternates ended a

/-- An operand can be unfolded behind any symbol. -/
theorem Unfolds.cons (s : Symbol) {a b : List Symbol} (h : Unfolds a b) :
    Unfolds (s :: a) (s :: b) where
  names := by rw [nameCount_cons, nameCount_cons, h.names]
  loose_eq := by
    show loose ([s] ++ a) = loose ([s] ++ b)
    rw [loose_append, loose_append, h.loose_eq]
  alternates := fun _ hb => ⟨hb.1, h.alternates _ hb.2⟩

/-- A number unfolds to a group with the number in it. -/
theorem unfolds_ungroup {opening value closing : Symbol} (hopening : opening.isOpen = true)
    (hvalue : value.isInteger = true) (hclosing : closing.isClose = true) (rest : List Symbol) :
    Unfolds (opening :: value :: closing :: rest) (value :: rest) := by
  have hbalanced : loose [value] = (0, 0) := loose_neutral (isParenthesis_of_isInteger hvalue) []
  constructor
  case names =>
    simp only [nameCount_cons, Symbol.isIdentifier_of_isOp hopening,
      Symbol.isIdentifier_of_isOp hclosing]
    rfl
  case loose_eq =>
    have hgroup := (IsOperand.group hopening hclosing hbalanced).loose_eq
    -- a group and a number count for nothing both
    calc loose ([opening, value, closing] ++ rest) = loose rest :=
          loose_append_balanced hgroup [] rest
      _ = loose ([value] ++ rest) := (loose_append_balanced hbalanced [] rest).symm
  case alternates =>
    intro ended h
    have hoperand := Symbol.isOperand_of_isInteger hvalue
    obtain ⟨hended, hrest⟩ := (alternates_operand hoperand).1 h
    exact (alternates_open hopening).2 ⟨hended, (alternates_operand hoperand).2 ⟨rfl,
      (alternates_close hclosing).2 ⟨rfl, hrest⟩⟩⟩

/-- A number unfolds to two numbers with an operator between them. -/
theorem unfolds_evaluate {left operator right value : Symbol} (hleft : left.isInteger = true)
    (hoperator : operator.isArithmetic = true) (hright : right.isInteger = true)
    (hvalue : value.isInteger = true) (rest : List Symbol) :
    Unfolds (left :: operator :: right :: rest) (value :: rest) := by
  have hbetween := isParenthesis_of_isArithmetic hoperator
  constructor
  case names =>
    simp only [nameCount_cons, Symbol.isIdentifier_of_isOp hoperator,
      Symbol.isIdentifier_of_isInteger hleft, Symbol.isIdentifier_of_isInteger hright,
      Symbol.isIdentifier_of_isInteger hvalue]
    rfl
  -- none of the four symbols is a parenthesis
  case loose_eq =>
    rw [loose_neutral (isParenthesis_of_isInteger hleft), loose_neutral hbetween,
      loose_neutral (isParenthesis_of_isInteger hright),
      loose_neutral (isParenthesis_of_isInteger hvalue)]
  case alternates =>
    intro ended h
    obtain ⟨hended, hrest⟩ := (alternates_operand (Symbol.isOperand_of_isInteger hvalue)).1 h
    exact (alternates_operand (Symbol.isOperand_of_isInteger hleft)).2 ⟨hended,
      (alternates_operator hoperator hbetween).2 ⟨rfl,
        (alternates_operand (Symbol.isOperand_of_isInteger hright)).2 ⟨rfl, hrest⟩⟩⟩

/-- **One step.** It uses up a name, or makes an operand out of something regular. -/
theorem Step.cases {a b : List Symbol} (h : Step a b) :
    nameCount a = nameCount b + 1 ∨ b ≠ [] ∧ Unfolds a b := by
  induction h with
  | there s h ih =>
    rcases ih with hnames | ⟨-, hunfolds⟩
    · refine .inl ?_
      rw [nameCount_cons, nameCount_cons, hnames]
      omega
    · exact .inr ⟨by simp, hunfolds.cons s⟩
  | @here rest u v h =>
    cases h with
    | @define name equals value hname hequals hvalue =>
      -- neither the equals sign nor the value is a name
      have hinteger : value.isInteger = true := (Bool.and_eq_true_iff.1 hvalue).1
      refine .inl ?_
      simp only [List.cons_append, List.nil_append, nameCount_cons, hname,
        Symbol.isIdentifier_of_isOp hequals, Symbol.isIdentifier_of_isInteger hinteger]
      rfl
    | substitute hname hvalue =>
      refine .inl ?_
      simp only [List.cons_append, List.nil_append, nameCount_cons, hname,
        Symbol.isIdentifier_of_isInteger hvalue]
      rfl
    | ungroup hopening hvalue hclosing =>
      exact .inr ⟨by simp, unfolds_ungroup hopening hvalue hclosing rest⟩
    | evaluate hleft hoperator hright hvalue =>
      exact .inr ⟨by simp, unfolds_evaluate hleft hoperator hright hvalue rest⟩

/-- The last step takes out a definition whose value is a number. -/
theorem regular_of_step_nil {a : List Symbol} (h : Step a []) : Regular a := by
  generalize hx : ([] : List Symbol) = x at h
  -- all other steps leave at least a number
  cases h with
  | there s h => cases hx
  | here h =>
    cases h with
    | @define name equals value hname hequals hvalue =>
      obtain rfl : [] = _ := hx
      have hinteger : value.isInteger = true := (Bool.and_eq_true_iff.1 hvalue).1
      have hequals' : equals.isParenthesis = false :=
        Symbol.isParenthesis_of_isOp hequals (by simp) (by simp) (by simp)
      have hname' : name.isOperand = true := by rw [Symbol.isOperand, hname, Bool.or_true]
      constructor
      case alternates =>
        exact (alternates_operand hname').2 ⟨rfl, (alternates_operator hequals hequals').2 ⟨rfl,
          (alternates_operand (Symbol.isOperand_of_isInteger hinteger)).2 ⟨rfl, rfl⟩⟩⟩
      case balanced =>
        exact (loose_neutral (isParenthesis_of_isIdentifier hname) _).trans
          ((loose_neutral hequals' _).trans (loose_neutral (isParenthesis_of_isInteger hinteger) _))
    | substitute | ungroup | evaluate => cases hx

/-- **A stream that is used up is regular**, if it has one name at most. -/
theorem regular_of_steps {a : List Symbol} (h : Steps a []) (hnames : nameCount a ≤ 1) :
    a = [] ∨ nameCount a = 1 ∧ Regular a := by
  -- from the last step to the first: only that one takes a name, and the others unfold an operand
  induction h using Relation.ReflTransGen.head_induction_on with
  | refl => exact .inl rfl
  | @head a b hstep _ ih =>
    refine .inr ?_
    rcases hstep.cases with hused | ⟨hne, hunfolds⟩
    · -- the only name is used up, so nothing is left
      obtain rfl | ⟨hone, -⟩ := ih (by omega)
      · exact ⟨hused, regular_of_step_nil hstep⟩
      · omega
    · obtain rfl | ⟨hone, hregular⟩ := ih (hunfolds.names ▸ hnames)
      · cases hne rfl
      · exact ⟨hunfolds.names.trans hone, hunfolds.alternates _ hregular.alternates,
          hunfolds.loose_eq.trans hregular.balanced⟩

end Resolution

end RomAsm
