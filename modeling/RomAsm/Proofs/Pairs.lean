import Mathlib
import RomAsm.Proofs.Neighbours

/-!
# Wrapping inserts parentheses, and in pairs

Wrapping inserts parentheses into the stream that it walks through, also into the part that is still
to come. Whatever the stream and the operators, the walk comes to an end
(`exists_iterate_wrapStep`), and all symbols of the stream are left in their order (`sublist_wrap`).

How many parentheses come in depends on the operators. An empty list stands for all operators, the
parentheses among them, so that new parentheses are wrapped as well; even `1 + 2` comes out
unbalanced then (`wrap_nil_sum`). Otherwise an operator brings at most one parenthesis of each kind
(`countP_wrapFrom_le`), and both if it stands between two operands (`Served.countP_wrapFrom`).

That an operator still stands between operands when the walk comes to it is told by the parentheses
without a partner (`Supplied`). The pair that an earlier operator has brought encloses a balanced
run. To an operator behind that run it makes no difference (`Supplied.enclosed`), and an operator
within only sees one more parenthesis that ends a group (`Supplied.insert`). `Served.wrapped` puts
the two together.
-/

namespace RomAsm

/-- Whether a symbol is an operator whose text is in a list. -/
def Symbol.isListed (operators : List String) (s : Symbol) : Bool :=
  s.kind == .operator && operators.contains s.text

/-- If the list is not empty, an operator has to be in it. -/
theorem Symbol.isOp_eq_isListed {operators : List String} (h : operators ≠ []) (s : Symbol) :
    s.isOp operators = s.isListed operators := by
  rw [isOp, isListed, List.isEmpty_eq_false_iff.2 h, Bool.false_or]

namespace Grouping

variable {operators : List String}

/-- The number of operators of a stream that a walk wraps. -/
def targets (operators : List String) (symbols : List Symbol) : Nat :=
  symbols.countP fun s => s.isOp operators

@[simp] theorem targets_nil : targets operators [] = 0 := rfl

theorem targets_operator {s : Symbol} (h : s.isOp operators = true) (rest : List Symbol) :
    targets operators (s :: rest) = targets operators rest + 1 :=
  List.countP_cons_of_pos h

theorem targets_other {s : Symbol} (h : ¬ s.isOp operators = true) (rest : List Symbol) :
    targets operators (s :: rest) = targets operators rest :=
  List.countP_cons_of_neg h

theorem targets_append (a b : List Symbol) :
    targets operators (a ++ b) = targets operators a + targets operators b :=
  List.countP_append

/-- If no parenthesis is wrapped, the one that is put in behind an operator is not. -/
theorem not_isOp_close
    (hplain : ∀ s : Symbol, s.isOp operators = true → s.isParenthesis = false)
    (place : Option Location) : ¬ (Symbol.ofOperator ")" place).isOp operators = true := by
  intro hop
  cases hplain _ hop

/-! ### The walk ends -/

/-- One step of the walk: the next symbol is passed, and it is wrapped if it is one of the
operators. The symbols already passed are given nearest first. -/
def wrapStep (operators : List String) :
    List Symbol × List Symbol → List Symbol × List Symbol
  | (passed, []) => (passed, [])
  | (passed, s :: rest) =>
    if s.isOp operators then (s :: openBefore s.location passed, closeBehind s.location rest)
    else (s :: passed, rest)

/-- A walk away from an operator inserts its parenthesis once or not at all. -/
theorem countP_enclose_le (q deeper shallower : Symbol → Bool) (parenthesis : Symbol) (depth : Int)
    (symbols : List Symbol) :
    (enclose deeper shallower parenthesis depth symbols).countP q ≤
      symbols.countP q + [parenthesis].countP q := by
  -- the walk finds no place, or one
  rcases enclose_split deeper shallower parenthesis depth symbols with h | ⟨a, s, b, rfl, h, -⟩
  · rw [h]
    exact Nat.le_add_right _ _
  · rw [h]
    simp only [List.countP_append, List.countP_cons, List.countP_nil]
    omega

/-- Wrapping an operator makes no more operators to be wrapped. -/
theorem targets_closeBehind_le
    (hclose : ∀ place, ¬ (Symbol.ofOperator ")" place).isOp operators = true)
    (place : Option Location) (rest : List Symbol) :
    targets operators (closeBehind place rest) ≤ targets operators rest := by
  have h := countP_enclose_le (fun s => s.isOp operators) Symbol.isOpen Symbol.isClose
    (.ofOperator ")" place) 0 rest
  -- the one symbol that is new is not wrapped itself
  rwa [List.countP_singleton, if_neg (hclose place)] at h

/-- **The walk comes to an end**, and what it has passed then is the result. It takes a step for
every symbol, and one more for each operator if no parenthesis is one. -/
theorem exists_iterate_wrapStep (operators : List String) (passed rest : List Symbol) :
    ∃ n, (wrapStep operators)^[n] (passed, rest) = ((wrapFrom operators passed rest).reverse, []) ∧
      ((∀ place, ¬ (Symbol.ofOperator ")" place).isOp operators = true) →
        n ≤ rest.length + targets operators rest) := by
  fun_induction wrapFrom operators passed rest with
  | case1 passed => exact ⟨0, by simp, fun _ => Nat.zero_le _⟩
  | case2 passed s rest hs ih =>
    obtain ⟨n, hn, hle⟩ := ih
    refine ⟨n + 1, ?_, ?_⟩
    · rw [Function.iterate_succ_apply, wrapStep, if_pos hs, hn]
    · intro hclose
      -- what is still to come may grow by a symbol, but it has one operator less
      have hlength : (closeBehind s.location rest).length ≤ rest.length + 1 := by
        rcases closeBehind_split s.location rest with h | ⟨a, t, b, rfl, h, -⟩
        · rw [h]
          exact Nat.le_succ _
        · simp only [h, List.length_append, List.length_cons]
          omega
      have htargets := targets_closeBehind_le hclose s.location rest
      have hle := hle hclose
      rw [List.length_cons, targets_operator hs]
      omega
  -- a symbol that is passed takes one step and no more
  | case3 passed s rest hs ih =>
    obtain ⟨n, hn, hle⟩ := ih
    refine ⟨n + 1, ?_, ?_⟩
    · rw [Function.iterate_succ_apply, wrapStep, if_neg hs, hn]
    · intro hclose
      have hle := hle hclose
      rw [List.length_cons, targets_other hs]
      omega

/-! ### The stream is still there -/

/-- **All symbols stay**, in their order. -/
theorem sublist_wrap (operators : List String) (symbols : List Symbol) :
    symbols.Sublist (wrap operators symbols) := by
  -- to be a sublist of the result stays when a parenthesis is taken out
  have hsheds : Sheds fun l => l.Sublist (wrap operators symbols) := by
    intro a p b _ h
    exact (List.Sublist.append_left (List.sublist_cons_self p b) a).trans h
  exact hsheds.of_wrap (List.Sublist.refl _)

/-! ### At most one parenthesis of each kind -/

/-- **An operator brings in one parenthesis of each kind, or less.** `i` and `j` tell what a
parenthesis of each kind counts. -/
theorem countP_wrapFrom_le {q : Symbol → Bool} {i j : Nat}
    (hlisted : ∀ place, ¬ (Symbol.ofOperator ")" place).isOp operators = true)
    (hopen : ∀ place, [Symbol.ofOperator "(" place].countP q = i)
    (hclose : ∀ place, [Symbol.ofOperator ")" place].countP q = j) (passed rest : List Symbol) :
    (wrapFrom operators passed rest).countP q ≤
      passed.countP q + rest.countP q + (i + j) * targets operators rest := by
  fun_induction wrapFrom operators passed rest with
  | case1 passed => simp
  | case2 passed s rest hs ih =>
    -- one walk to each side, and neither of them brings in an operator
    have hbefore := countP_enclose_le q Symbol.isClose Symbol.isOpen
      (.ofOperator "(" s.location) 0 passed
    have hbehind := countP_enclose_le q Symbol.isOpen Symbol.isClose
      (.ofOperator ")" s.location) 0 rest
    rw [← openBefore, hopen] at hbefore
    rw [← closeBehind, hclose] at hbehind
    have htargets := Nat.mul_le_mul_left (i + j) (targets_closeBehind_le hlisted s.location rest)
    rw [targets_operator hs, Nat.mul_succ]
    simp only [List.countP_cons] at ih ⊢
    omega
  | case3 passed s rest hs ih =>
    rw [targets_other hs]
    simp only [List.countP_cons] at ih ⊢
    omega

/-! ### Operands on both sides -/

section Supplied

variable {deeper shallower : Symbol → Bool}

/-- A walk in one direction comes to the end of an operand: it begins with a symbol that is no
parenthesis, or with one that begins a group which is ended later. -/
def Supplied (deeper shallower : Symbol → Bool) : List Symbol → Prop
  | [] => False
  | s :: more => shallower s = false ∧
      (deeper s = true → 1 ≤ (unpaired deeper shallower more).1)

/-- Such a walk inserts its parenthesis behind a balanced run, which is a single symbol or ends with
a parenthesis. -/
theorem Supplied.enclose_eq {symbols : List Symbol} (h : Supplied deeper shallower symbols)
    (parenthesis : Symbol) :
    ∃ x more, symbols = x ++ more ∧ unpaired deeper shallower x = (0, 0) ∧
      ((∃ s, x = [s]) ∨ ∃ inside out, x = inside ++ [out] ∧ shallower out = true) ∧
      enclose deeper shallower parenthesis 0 symbols = x ++ parenthesis :: more := by
  cases symbols with
  | nil => exact h.elim
  | cons s rest =>
    obtain ⟨hs, hgroup⟩ := h
    cases hd : deeper s with
    | false =>
      refine ⟨[s], rest, rfl, unpaired_neutral hd hs [], .inl ⟨s, rfl⟩, ?_⟩
      simp [enclose, hd, hs]
    | true =>
      -- the walk goes to the end of the group that the first symbol begins
      rcases enclose_group parenthesis hd rest with ⟨inside, out, more, rfl, hout, hu, he⟩ | ⟨-, hu⟩
      · exact ⟨_, more, by simp, hu, .inr ⟨s :: inside, out, rfl, hout⟩, he⟩
      · -- the group that begins here is ended later
        have hended := hgroup hd
        omega

/-- A parenthesis that ends a group is put in further away. -/
theorem Supplied.insert {u v : List Symbol} {p : Symbol}
    (h : Supplied deeper shallower (u ++ v)) (hu : u ≠ []) (hd : deeper p = false)
    (hp : shallower p = true) : Supplied deeper shallower (u ++ p :: v) := by
  obtain ⟨s, u, rfl⟩ := List.exists_cons_of_ne_nil hu
  rw [List.cons_append] at h ⊢
  refine ⟨h.1, fun hs => ?_⟩
  have hended := h.2 hs
  -- one more end behind `u` does no harm
  rw [unpaired_append] at hended ⊢
  rw [unpaired_shallower hd hp]
  simp only at hended ⊢
  omega

/-- A pair of parentheses around a balanced run does not count. -/
theorem unpaired_enclosed {opening closing : Symbol} (ho : deeper opening = true)
    (hd : deeper closing = false) (hc : shallower closing = true) {m : List Symbol}
    (hm : unpaired deeper shallower m = (0, 0)) (u v : List Symbol) :
    unpaired deeper shallower (u ++ opening :: (m ++ closing :: v)) =
      unpaired deeper shallower (u ++ (m ++ v)) := by
  simp only [unpaired_append, unpaired_deeper ho, unpaired_shallower hd hc, hm]
  simp

/-- A balanced run is put in parentheses, further away or at the beginning. -/
theorem Supplied.enclosed {u m v : List Symbol} {opening closing : Symbol}
    (h : Supplied deeper shallower (u ++ (m ++ v))) (ho : deeper opening = true)
    (ho' : shallower opening = false) (hd : deeper closing = false)
    (hc : shallower closing = true) (hm : unpaired deeper shallower m = (0, 0)) :
    Supplied deeper shallower (u ++ opening :: (m ++ closing :: v)) := by
  cases u with
  | nil =>
    -- the new group is what the walk begins with, and it is ended
    refine ⟨ho', fun _ => ?_⟩
    rw [unpaired_append, hm, unpaired_shallower hd hc]
    simp
  | cons s u =>
    rw [List.cons_append] at h ⊢
    refine ⟨h.1, fun hs => ?_⟩
    -- the group lies further away and does not change the count
    rw [unpaired_enclosed ho hd hc hm]
    exact h.2 hs

end Supplied

/-- An operand is enough for a walk to the right, whatever follows it. -/
theorem IsOperand.supplied_right {x : List Symbol} (h : IsOperand x) (rest : List Symbol) :
    Supplied Symbol.isOpen Symbol.isClose (x ++ rest) := by
  cases h with
  | single ho hc => exact ⟨hc, fun h => absurd h (by simp [ho])⟩
  -- the group that the walk enters is ended by its own parenthesis
  | @group opening closing inside ho hc h =>
    rw [List.cons_append, List.append_assoc]
    refine ⟨isClose_of_isOpen ho, fun _ => ?_⟩
    have h : unpaired Symbol.isOpen Symbol.isClose inside = (0, 0) := h
    rw [unpaired_append, h, List.singleton_append,
      unpaired_shallower (isOpen_of_isClose hc) hc]
    simp

/-- And for a walk to the left, whatever stands before it. -/
theorem IsOperand.supplied_left {x : List Symbol} (h : IsOperand x) (passed : List Symbol) :
    Supplied Symbol.isClose Symbol.isOpen (x.reverse ++ passed) := by
  cases h with
  | single ho hc => exact ⟨ho, fun h => absurd h (by simp [hc])⟩
  | @group opening closing inside ho hc h =>
    -- the same for the contents read from the right
    have h : unpaired Symbol.isClose Symbol.isOpen inside.reverse = (0, 0) := by
      rw [loose_reverse, h, Prod.swap_prod_mk]
    rw [List.reverse_cons, List.reverse_append, List.reverse_singleton, List.append_assoc,
      List.append_assoc, List.singleton_append, List.singleton_append]
    refine ⟨isOpen_of_isClose hc, fun _ => ?_⟩
    rw [unpaired_append, h, unpaired_shallower (isClose_of_isOpen ho) ho]
    simp

/-- Every operator that is still to be wrapped has operands on both sides, and what follows it is
none of the operators. -/
def Served (operators : List String) (passed rest : List Symbol) : Prop :=
  ∀ a o b, rest = a ++ o :: b → o.isOp operators = true →
    Supplied Symbol.isClose Symbol.isOpen (a.reverse ++ passed) ∧
    Supplied Symbol.isOpen Symbol.isClose b ∧ ∀ t ∈ b.head?, ¬ t.isOp operators = true

namespace Served

variable {passed rest : List Symbol} {s : Symbol}

/-- A symbol is passed. -/
theorem pass (h : Served operators passed (s :: rest)) : Served operators (s :: passed) rest := by
  intro a o b hsplit ho
  -- the same operator, seen from one symbol further on
  have hserved := h (s :: a) o b (by rw [hsplit, List.cons_append]) ho
  rwa [List.reverse_cons, List.append_assoc, List.singleton_append] at hserved

/-- The parentheses of the next operator enclose a balanced run, in which it stands between what
was passed last and what comes next. -/
theorem exists_runs (h : Served operators passed (s :: rest)) (hs : s.isOp operators = true)
    (hplain : s.isParenthesis = false) :
    ∃ x p y r, passed = x ++ p ∧ rest = y ++ r ∧ loose (x.reverse ++ s :: y) = (0, 0) ∧
      ((∃ t, y = [t]) ∨ ∃ inside out, y = inside ++ [out] ∧ out.isClose = true) ∧
      openBefore s.location passed = x ++ .ofOperator "(" s.location :: p ∧
      closeBehind s.location rest = y ++ .ofOperator ")" s.location :: r := by
  obtain ⟨hso, hsc⟩ := Symbol.isParenthesis_eq_false.1 hplain
  obtain ⟨hleft, hright, -⟩ := h [] s rest rfl hs
  obtain ⟨x, p, hpassed, hx, -, hopen⟩ := hleft.enclose_eq (.ofOperator "(" s.location)
  obtain ⟨y, r, hrest, hy, hlast, hclose⟩ := hright.enclose_eq (.ofOperator ")" s.location)
  have hm : loose (x.reverse ++ s :: y) = (0, 0) :=
    loose_append_of_balanced (loose_reverse_of_balanced hx) ((loose_other hso hsc y).trans hy)
  exact ⟨x, p, y, r, hpassed, hrest, hm, hlast, hopen, hclose⟩

variable (hplain : ∀ s : Symbol, s.isOp operators = true → s.isParenthesis = false)

include hplain

/-- The right operand of an operator does not end with another one. -/
theorem ne_nil_of_within {a c r : List Symbol} {o : Symbol}
    (h : Served operators passed (s :: (a ++ o :: c ++ r))) (hs : s.isOp operators = true)
    (ho : o.isOp operators = true)
    (hlast : (∃ t, a ++ o :: c = [t]) ∨
      ∃ inside out, a ++ o :: c = inside ++ [out] ∧ out.isClose = true) : c ≠ [] := by
  rintro rfl
  rcases hlast with ⟨t, ht⟩ | ⟨inside, out, hout, hclose⟩
  · -- it would be the first symbol of the operand as well
    obtain ⟨rfl, -⟩ := (List.append_eq_singleton_iff.1 ht).resolve_right (by simp)
    obtain ⟨-, -, hnext⟩ := h [] s ([o] ++ r) rfl hs
    exact hnext o rfl ho
  · -- it would be the parenthesis that the operand ends with
    obtain rfl := List.singleton_inj.1 (List.append_inj' hout rfl).2
    have hparenthesis := hplain o ho
    rw [Symbol.isParenthesis, hclose, Bool.or_true] at hparenthesis
    cases hparenthesis

/-- **One step.** Once an operator is wrapped, all operators that follow still have their operands.
For one within the right operand there is an opening parenthesis more on the left and a closing one
more on the right; for one behind it there is a new group, which is an operand if it is next to the
operator. -/
theorem wrapped {x p y r : List Symbol} (h : Served operators (x ++ p) (s :: (y ++ r)))
    (hs : s.isOp operators = true) (hm : loose (x.reverse ++ s :: y) = (0, 0))
    (hlast : (∃ t, y = [t]) ∨ ∃ inside out, y = inside ++ [out] ∧ out.isClose = true)
    (place : Option Location) :
    Served operators (s :: (x ++ .ofOperator "(" place :: p))
      (y ++ .ofOperator ")" place :: r) := by
  have hclose := not_isOp_close hplain place
  intro a o b hsplit ho
  rcases List.append_eq_append_iff.1 hsplit with ⟨a', rfl, hbehind⟩ | ⟨c, rfl, hwithin⟩
  · -- the operator stands behind the new group
    cases a' with
    | nil =>
      obtain ⟨rfl, -⟩ := List.cons.inj hbehind
      exact absurd ho hclose
    | cons q a' =>
      obtain ⟨rfl, rfl⟩ := List.cons.inj hbehind
      -- it had its operands before, and a walk to the left meets the whole new group or nothing of
      -- it
      obtain ⟨hleft, hright⟩ := h (s :: (y ++ a')) o b (by simp) ho
      have hm : unpaired Symbol.isClose Symbol.isOpen (y.reverse ++ s :: x) = (0, 0) := by
        have hswap := loose_reverse (x.reverse ++ s :: y)
        rw [hm] at hswap
        simpa using hswap
      have hleft : Supplied Symbol.isClose Symbol.isOpen
          (a'.reverse ++ ((y.reverse ++ s :: x) ++ p)) := by simpa using hleft
      have henclosed := @Supplied.enclosed _ _ _ _ _ (.ofOperator ")" place) (.ofOperator "(" place)
        hleft rfl rfl rfl rfl hm
      exact ⟨by simpa using henclosed, hright⟩
  · cases c with
    | nil =>
      obtain ⟨rfl, -⟩ := List.cons.inj hwithin
      exact absurd ho hclose
    | cons q c =>
      -- the operator stands within the right operand
      obtain ⟨rfl, rfl⟩ := List.cons.inj hwithin
      obtain ⟨hleft, hright, hnext⟩ := h (s :: a) o (c ++ r) (by simp) ho
      -- the closing parenthesis is put behind `c`, so not between the operator and its right
      -- operand
      have hc : c ≠ [] := h.ne_nil_of_within hplain hs ho hlast
      have hleft : Supplied Symbol.isClose Symbol.isOpen ((a.reverse ++ s :: x) ++ p) := by
        simpa using hleft
      have hinsert := @Supplied.insert _ _ _ _ (.ofOperator "(" place) hleft (by simp) rfl rfl
      refine ⟨by simpa using hinsert, hright.insert hc rfl rfl, ?_⟩
      obtain ⟨t, c, rfl⟩ := List.exists_cons_of_ne_nil hc
      exact hnext

/-- **All steps: the balance of a stream stays as it is.** -/
theorem loose_wrapFrom (h : Served operators passed rest) :
    loose (wrapFrom operators passed rest) = loose (passed.reverse ++ rest) := by
  fun_induction wrapFrom operators passed rest with
  | case1 passed => rw [List.append_nil]
  | case2 passed s rest hs ih =>
    obtain ⟨x, p, y, r, rfl, rfl, hm, hlast, hopen, hclose⟩ := h.exists_runs hs (hplain s hs)
    rw [hopen, hclose] at ih ⊢
    -- one operator encloses a balanced run, which leaves all other parentheses their partners
    have henclosed : loose (p.reverse ++ .ofOperator "(" s.location ::
        ((x.reverse ++ s :: y) ++ .ofOperator ")" s.location :: r)) =
          loose (p.reverse ++ ((x.reverse ++ s :: y) ++ r)) :=
      unpaired_enclosed rfl rfl rfl hm _ _
    rw [ih (h.wrapped hplain hs hm hlast _)]
    simpa using henclosed
  | case3 passed s rest hs ih =>
    rw [ih h.pass, List.reverse_cons, List.append_assoc, List.singleton_append]

/-- **All steps: each operator brings in one pair.** -/
theorem countP_wrapFrom {q : Symbol → Bool} {i j : Nat}
    (hq : ∀ place, [Symbol.ofOperator "(" place].countP q = i)
    (hq' : ∀ place, [Symbol.ofOperator ")" place].countP q = j)
    (h : Served operators passed rest) :
    (wrapFrom operators passed rest).countP q =
      passed.countP q + rest.countP q + (i + j) * targets operators rest := by
  fun_induction wrapFrom operators passed rest with
  | case1 passed => simp
  | case2 passed s rest hs ih =>
    obtain ⟨x, p, y, r, rfl, rfl, hm, hlast, hopen, hclose⟩ := h.exists_runs hs (hplain s hs)
    have hq := hq s.location
    have hq' := hq' s.location
    rw [hopen, hclose] at ih ⊢
    -- the new closing parenthesis is no target, so one operator has been counted off
    rw [ih (h.wrapped hplain hs hm hlast _), targets_operator hs, targets_append, targets_append,
      targets_other (not_isOp_close hplain _), Nat.mul_succ]
    simp only [List.countP_append, List.countP_cons, List.countP_nil] at hq hq' ⊢
    omega
  | case3 passed s rest hs ih =>
    rw [ih h.pass, targets_other hs]
    simp only [List.countP_cons]
    omega

end Served

/-! ### How many parentheses come in -/

/-- An operand as it is written: an integer, a name, or a group with balanced contents. -/
inductive IsTerm : List Symbol → Prop where
  | atom {s : Symbol} (h : s.isInteger = true ∨ s.isIdentifier = true) : IsTerm [s]
  | group {opening closing : Symbol} {inside : List Symbol} (ho : opening.isOpen = true)
      (hc : closing.isClose = true) (h : loose inside = (0, 0)) :
      IsTerm (opening :: (inside ++ [closing]))

theorem not_isOp_of_atom {s : Symbol} (h : s.isInteger = true ∨ s.isIdentifier = true)
    (texts : List String) : s.isOp texts = false := by
  rcases h with h | h <;> simp [Symbol.isOp, beq_iff_eq.1 h]

/-- What is written as an operand is one for the walks. -/
theorem IsTerm.isOperand {x : List Symbol} (h : IsTerm x) : IsOperand x := by
  cases h with
  | atom h => exact .single (not_isOp_of_atom h _) (not_isOp_of_atom h _)
  | group ho hc h => exact .group ho hc h

/-- Every listed operator stands between two operands. -/
def Flanked (operators : List String) (symbols : List Symbol) : Prop :=
  ∀ before o after, symbols = before ++ o :: after → o.isListed operators = true →
    (∃ x, IsTerm x ∧ x <:+ before) ∧ ∃ y, IsTerm y ∧ y <+: after

/-- **At the beginning of the walk**, all operators that stand between operands are served. -/
theorem Flanked.served (hne : operators ≠ [])
    (hplain : ∀ s : Symbol, s.isOp operators = true → s.isParenthesis = false)
    {symbols : List Symbol} (h : Flanked operators symbols) : Served operators [] symbols := by
  intro a o b hsplit ho
  rw [Symbol.isOp_eq_isListed hne] at ho
  obtain ⟨⟨x, hx, u, rfl⟩, y, hy, v, rfl⟩ := h a o b hsplit ho
  refine ⟨?_, hy.isOperand.supplied_right v, ?_⟩
  · -- at the beginning of the walk nothing has been passed
    have hleft := hx.isOperand.supplied_left u.reverse
    rwa [List.reverse_append, List.append_nil]
  · -- an operand begins with an integer, a name or a parenthesis
    cases hy with
    | @atom s h =>
      intro t ht
      obtain rfl : s = t := Option.some.inj ht
      rw [not_isOp_of_atom h]
      exact Bool.false_ne_true
    | @group opening closing inside hopening _ _ =>
      intro t ht hop
      obtain rfl : opening = t := Option.some.inj ht
      have hparenthesis := hplain _ hop
      rw [Symbol.isParenthesis, hopening, Bool.true_or] at hparenthesis
      cases hparenthesis

/-- How many parentheses the listed operators bring into a stream: at most one of each kind for each
operator, and exactly one pair, with the balance kept, if they all stand between operands. -/
structure InsertsPairs (operators : List String) (symbols : List Symbol) : Prop where
  opening_le : (wrap operators symbols).countP Symbol.isOpen ≤
    symbols.countP Symbol.isOpen + symbols.countP (Symbol.isListed operators)
  closing_le : (wrap operators symbols).countP Symbol.isClose ≤
    symbols.countP Symbol.isClose + symbols.countP (Symbol.isListed operators)
  pairs : loose symbols = (0, 0) → Flanked operators symbols →
    loose (wrap operators symbols) = (0, 0) ∧
    (wrap operators symbols).countP Symbol.isOpen =
      symbols.countP Symbol.isOpen + symbols.countP (Symbol.isListed operators) ∧
    (wrap operators symbols).countP Symbol.isClose =
      symbols.countP Symbol.isClose + symbols.countP (Symbol.isListed operators)

/-- The operators that are wrapped are those of the list. -/
theorem targets_eq (hne : operators ≠ []) (symbols : List Symbol) :
    targets operators symbols = symbols.countP (Symbol.isListed operators) :=
  List.countP_congr fun s _ => by rw [Symbol.isOp_eq_isListed hne]

/-- **Parentheses come in pairs** if no parenthesis is wrapped itself. -/
theorem insertsPairs (hne : operators ≠ [])
    (hplain : ∀ s : Symbol, s.isOp operators = true → s.isParenthesis = false)
    (symbols : List Symbol) : InsertsPairs operators symbols := by
  have hlisted := not_isOp_close hplain
  have htargets := targets_eq hne symbols
  refine ⟨?_, ?_, ?_⟩
  · have hle := countP_wrapFrom_le (q := Symbol.isOpen) hlisted (fun _ => rfl) (fun _ => rfl) []
      symbols
    simpa [wrap, htargets] using hle
  · have hle := countP_wrapFrom_le (q := Symbol.isClose) hlisted (fun _ => rfl) (fun _ => rfl) []
      symbols
    simpa [wrap, htargets] using hle
  · -- both kinds are counted by one lemma, which is told what a parenthesis counts
    intro hbalanced hflanked
    have hserved := hflanked.served hne hplain
    have hopens := hserved.countP_wrapFrom (q := Symbol.isOpen) hplain (fun _ => rfl) fun _ => rfl
    have hcloses := hserved.countP_wrapFrom (q := Symbol.isClose) hplain (fun _ => rfl) fun _ => rfl
    refine ⟨(hserved.loose_wrapFrom hplain).trans hbalanced, ?_, ?_⟩
    · simpa [wrap, htargets] using hopens
    · simpa [wrap, htargets] using hcloses

/-- The sum of two numbers: `1 + 2`. -/
def plainSum : List Symbol :=
  [⟨.integer, "1", some 1, none⟩, .ofOperator "+" none, ⟨.integer, "2", some 2, none⟩]

/-- Without a list all operators are wrapped, also the closing parenthesis behind the sum. -/
theorem wrap_nil_sum : wrap [] plainSum =
    [.ofOperator "(" none, ⟨.integer, "1", some 1, none⟩, .ofOperator "+" none,
      .ofOperator "(" none, ⟨.integer, "2", some 2, none⟩, .ofOperator ")" none] := by
  cbv

/-- **Wrapping ends and only inserts parentheses**, for every stream, balanced or not, and every
list of operators without parentheses. The stream is a sublist of the result, and the symbols that
are no parentheses are the same in both. If operators are listed, each brings at most one
parenthesis of each kind, and a pair if the stream is balanced and every one stands between two
operands, and then the result is balanced. This is so for all streams exactly if the list is not
empty. -/
theorem wrap_inserts_pairs {operators : List String} (hopen : "(" ∉ operators)
    (hclose : ")" ∉ operators) :
    (∀ symbols,
      (∃ n, (wrapStep operators)^[n] ([], symbols) = ((wrap operators symbols).reverse, []) ∧
        (operators ≠ [] →
          n ≤ symbols.length + symbols.countP (Symbol.isListed operators))) ∧
      symbols.Sublist (wrap operators symbols) ∧
      (wrap operators symbols).filter (fun s => !s.isParenthesis) =
        symbols.filter (fun s => !s.isParenthesis)) ∧
    (operators ≠ [] ↔ ∀ symbols, InsertsPairs operators symbols) := by
  -- what a non-empty list wraps is no parenthesis
  have hplain (hne : operators ≠ []) (s : Symbol) (hs : s.isOp operators = true) :
      s.isParenthesis = false := Symbol.isParenthesis_of_isOp hs hne hopen hclose
  refine ⟨fun symbols => ⟨?_, sublist_wrap operators symbols, ?_⟩, ?_, ?_⟩
  · obtain ⟨n, hn, hle⟩ := exists_iterate_wrapStep operators [] symbols
    refine ⟨n, hn, fun hne => ?_⟩
    rw [← targets_eq hne]
    exact hle (not_isOp_close (hplain hne))
  · exact filter_wrap (fun s hs => by rw [hs, Bool.not_true]) operators symbols
  · intro hne symbols
    exact insertsPairs hne (hplain hne) symbols
  · rintro hall rfl
    -- two opening parentheses come into the sum, and there is no listed operator
    have hle := (hall plainSum).opening_le
    rw [wrap_nil_sum] at hle
    exact absurd hle (by decide)

/-- A sum of a group and a name: `( 1 + 2 ) + x`. -/
def groupedSum : List Symbol :=
  [.ofOperator "(" none, ⟨.integer, "1", some 1, none⟩, .ofOperator "+" none,
    ⟨.integer, "2", some 2, none⟩, .ofOperator ")" none, .ofOperator "+" none,
    ⟨.identifier, "x", none, none⟩]

/-- Both signs stand between operands, one of which is a group. -/
theorem flanked_groupedSum : Flanked ["+"] groupedSum := by
  intro before o after h ho
  have hlength : before.length < 7 := by
    have hlength := congrArg List.length h
    simp only [groupedSum, List.length_append, List.length_cons, List.length_nil] at hlength
    omega
  have hat : groupedSum[before.length]? = some o := by simp [h]
  have hbefore : before = groupedSum.take before.length := by simp [h]
  have hafter : after = groupedSum.drop (before.length + 1) := by simp [h]
  -- the two signs are found by going through all seven places
  have hplus : ∀ n < 7, groupedSum[n]?.any (Symbol.isListed ["+"]) = true → n = 2 ∨ n = 5 := by
    decide
  rcases hplus _ hlength (by rw [hat]; exact ho) with hn | hn
  · -- between two numbers
    rw [hbefore, hafter, hn]
    exact ⟨⟨[⟨.integer, "1", some 1, none⟩], .atom (.inl rfl), by decide⟩,
      [⟨.integer, "2", some 2, none⟩], .atom (.inl rfl), by decide⟩
  · -- between a group and a name
    rw [hbefore, hafter, hn]
    exact ⟨⟨_, @IsTerm.group (.ofOperator "(" none) (.ofOperator ")" none)
        [⟨.integer, "1", some 1, none⟩, .ofOperator "+" none, ⟨.integer, "2", some 2, none⟩]
        rfl rfl rfl, by decide⟩,
      [⟨.identifier, "x", none, none⟩], .atom (.inr rfl), by decide⟩

/-- Both operators are wrapped, the inner one within the left operand of the other. -/
theorem groupedSum_wrapped :
    "(" ∉ ["+"] ∧ ")" ∉ ["+"] ∧ loose groupedSum = (0, 0) ∧ Flanked ["+"] groupedSum ∧
    loose (wrap ["+"] groupedSum) = (0, 0) ∧ (wrap ["+"] groupedSum).countP Symbol.isOpen = 3 ∧
    (wrap ["+"] groupedSum).countP Symbol.isClose = 3 := by
  have hopen : "(" ∉ ["+"] := by decide
  have hclose : ")" ∉ ["+"] := by decide
  have hpairs := (wrap_inserts_pairs hopen hclose).2.1 (by decide) groupedSum
  exact ⟨hopen, hclose, rfl, flanked_groupedSum, hpairs.pairs rfl flanked_groupedSum⟩

/-- **Without a list the balance is lost.** No operator of `1 + 2` is listed, and still three
parentheses come in, two of one kind and one of the other. -/
theorem unlisted_sum_unbalanced :
    "(" ∉ ([] : List String) ∧ ")" ∉ ([] : List String) ∧ loose plainSum = (0, 0) ∧
    Flanked [] plainSum ∧ plainSum.countP (Symbol.isListed []) = 0 ∧
    (wrap [] plainSum).countP Symbol.isOpen = 2 ∧ (wrap [] plainSum).countP Symbol.isClose = 1 ∧
    loose (wrap [] plainSum) ≠ (0, 0) := by
  rw [wrap_nil_sum]
  refine ⟨List.not_mem_nil, List.not_mem_nil, rfl, ?_, rfl, rfl, rfl, by decide⟩
  intro before o after _ ho
  rw [Symbol.isListed, List.contains_nil, Bool.and_false] at ho
  cases ho

end Grouping

end RomAsm
