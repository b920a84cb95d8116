import RomAsm.Proofs.Expression
import RomAsm.Proofs.Parentheses

/-!
# Grouping spells out the tree of an expression

Grouping knows nothing of expressions: it puts in zeros, and then walks over the stream twice and
wraps each operator it comes to in parentheses, around whatever the parentheses inserted before make
of the operands. Here it is shown that the parentheses of an expression come out where its tree has
them.

An expression passes through three written forms. `Expression.zeroed` has the zeros before signs,
`Expression.halfway` has in addition the parentheses of the scaling operators, and the symbols of
`Expression.tree` have all of them. Each walk takes one form to the next, whatever stands before and
behind the expression; that is what `Wraps` says, and `Wraps.operator` is the step of the argument:

* `zeroed_isOperand`, `halfway_isOperand`, `Tree.isOperand` — what stands on the two sides of an
  operator is an operand in the sense of the walks;
* `wraps_halfway`, `wraps_tree` — the two walks on one expression;
* `grouped_written` — all of grouping, on a stream of expressions and symbols between them.
-/

namespace RomAsm

open Grouping

/-! ### The written forms -/

namespace Expression

/-- An expression with a zero before each of its signs. -/
def zeroed : {r : Rank} → Expression (Option Location) r → List Symbol
  | _, literal text n place => [⟨.integer, text, some n, place⟩]
  | _, name x place => [⟨.identifier, x, none, place⟩]
  | _, group opening e closing =>
    .ofOperator "(" opening :: (e.zeroed ++ [.ofOperator ")" closing])
  | _, ofAtom a => a.zeroed
  | _, scaled p s place a => p.zeroed ++ (Operator.scaling s).symbol place :: a.zeroed
  | _, ofProduct p => p.zeroed
  | _, signed s place p => Grouping.zero place :: (Operator.sign s).symbol place :: p.zeroed
  | _, summed e s place p => e.zeroed ++ (Operator.sign s).symbol place :: p.zeroed

/-- An expression with a zero before each of its signs and its products in parentheses. -/
def halfway : {r : Rank} → Expression (Option Location) r → List Symbol
  | _, literal text n place => [⟨.integer, text, some n, place⟩]
  | _, name x place => [⟨.identifier, x, none, place⟩]
  | _, group opening e closing =>
    .ofOperator "(" opening :: (e.halfway ++ [.ofOperator ")" closing])
  | _, ofAtom a => a.halfway
  | _, scaled p s place a =>
    .ofOperator "(" place ::
      (p.halfway ++ (Operator.scaling s).symbol place ::
        (a.halfway ++ [.ofOperator ")" place]))
  | _, ofProduct p => p.halfway
  | _, signed s place p => Grouping.zero place :: (Operator.sign s).symbol place :: p.halfway
  | _, summed e s place p => e.halfway ++ (Operator.sign s).symbol place :: p.halfway

end Expression

/-! ### Operators and parentheses as symbols -/

namespace Operator

@[simp] theorem isOpen_symbol (o : Operator) (place : Option Location) :
    (o.symbol place).isOpen = false := by
  rcases o with ⟨_ | _⟩ | ⟨_ | _ | _⟩ <;> rfl

@[simp] theorem isClose_symbol (o : Operator) (place : Option Location) :
    (o.symbol place).isClose = false := by
  rcases o with ⟨_ | _⟩ | ⟨_ | _ | _⟩ <;> rfl

@[simp] theorem isArithmetic_symbol (o : Operator) (place : Option Location) :
    (o.symbol place).isArithmetic = true := by
  rcases o with ⟨_ | _⟩ | ⟨_ | _ | _⟩ <;> rfl

theorem isOp_multiplicative (o : Operator) (place : Option Location) :
    (o.symbol place).isOp multiplicative = match o with | sign _ => false | scaling _ => true := by
  rcases o with ⟨_ | _⟩ | ⟨_ | _ | _⟩ <;> rfl

theorem isOp_additive (o : Operator) (place : Option Location) :
    (o.symbol place).isOp additive = match o with | sign _ => true | scaling _ => false := by
  rcases o with ⟨_ | _⟩ | ⟨_ | _ | _⟩ <;> rfl

end Operator

/-! ### Zeros -/

/-- Behind an expression no expression begins. `previous` is what stands before it: a sum may have a
sign of its own only where an expression begins. -/
theorem withZeros_expression {r : Rank} (e : Expression (Option Location) r)
    (previous : Option Symbol) (h : r = .sum → startsExpression previous = true)
    (rest : List Symbol) :
    ∃ last, startsExpression (some last) = false ∧
      withZeros previous (e.symbols ++ rest) = e.zeroed ++ withZeros (some last) rest := by
  -- by structure; of what stands before the expression only its last symbol matters
  induction e generalizing previous rest with
  | literal text n place => exact ⟨_, rfl, rfl⟩
  | name x place => exact ⟨_, rfl, rfl⟩
  | group opening e closing ih =>
    -- the contents begin behind an opening parenthesis, where a sign gets its zero
    obtain ⟨last, -, he⟩ := ih (some (.ofOperator "(" opening)) (fun _ => rfl)
      (.ofOperator ")" closing :: rest)
    refine ⟨.ofOperator ")" closing, rfl, ?_⟩
    simp only [Expression.symbols, Expression.zeroed, List.cons_append, List.append_assoc,
      List.nil_append]
    rw [withZeros, if_neg (by simp [Symbol.ofOperator, Symbol.isOp]), he, withZeros,
      if_neg (by simp [Symbol.ofOperator, Symbol.isOp])]
  | ofAtom a ih => exact ih previous (by simp) rest
  | scaled p s place a ihp iha =>
    -- an atom has no sign of its own, so nothing is put in behind the scaling operator
    obtain ⟨_, -, hp⟩ := ihp previous (by simp)
      ((Operator.scaling s).symbol place :: (a.symbols ++ rest))
    obtain ⟨last, hlast, ha⟩ := iha (some ((Operator.scaling s).symbol place)) (by simp) rest
    refine ⟨last, hlast, ?_⟩
    simp only [Expression.symbols, Expression.zeroed, List.cons_append, List.append_assoc]
    rw [hp, withZeros, if_neg, ha]
    cases s <;> simp [Operator.symbol, Operator.text, Symbol.ofOperator, Symbol.isOp]
  | ofProduct p ih => exact ih previous (by simp) rest
  | signed s place p ih =>
    obtain ⟨last, hlast, hp⟩ := ih (some ((Operator.sign s).symbol place)) (by simp) rest
    refine ⟨last, hlast, ?_⟩
    -- this is the sign that stands where an expression begins, and it gets the zero
    have hsign : ((Operator.sign s).symbol place).isOp ["+", "-"] = true := by cases s <;> rfl
    simp only [Expression.symbols, Expression.zeroed, List.cons_append]
    rw [withZeros, hsign, h rfl, Bool.and_true, if_pos rfl, hp]
    rfl
  | summed e s place p ihe ihp =>
    obtain ⟨l, hl, he⟩ := ihe previous h ((Operator.sign s).symbol place :: (p.symbols ++ rest))
    obtain ⟨last, hlast, hp⟩ := ihp (some ((Operator.sign s).symbol place)) (by simp) rest
    refine ⟨last, hlast, ?_⟩
    simp only [Expression.symbols, Expression.zeroed, List.cons_append, List.append_assoc]
    -- the sign stands behind a number or a parenthesis, so it gets no zero
    rw [he, withZeros, hl, Bool.and_false, if_neg Bool.false_ne_true, hp]

/-! ### Operands of an expression -/

/-- All parentheses of an expression have their partners in it. -/
theorem loose_zeroed {r : Rank} (e : Expression (Option Location) r) : loose e.zeroed = (0, 0) := by
  induction e with
  | literal text n place => rfl
  | name x place => rfl
  | group opening e closing ih => exact (IsOperand.group rfl rfl ih).loose_eq
  | ofAtom a ih => exact ih
  | scaled p s place a ihp iha =>
    -- operators do not count, so both sides being balanced is enough
    exact loose_append_of_balanced ihp ((loose_other (by simp) (by simp) _).trans iha)
  | ofProduct p ih => exact ih
  | signed s place p ih =>
    rw [Expression.zeroed, loose_other rfl rfl, loose_other (by simp) (by simp), ih]
  | summed e s place p ihe ihp =>
    exact loose_append_of_balanced ihe ((loose_other (by simp) (by simp) _).trans ihp)

/-- An atom is an operand of a scaling operator from the beginning. -/
theorem zeroed_isOperand (a : Expression (Option Location) .atom) : IsOperand a.zeroed := by
  cases a with
  | literal text n place => exact .single rfl rfl
  | name x place => exact .single rfl rfl
  | group opening e closing => exact .group rfl rfl (loose_zeroed e)

/-- All parentheses still have their partners when the products are in parentheses. -/
theorem loose_halfway {r : Rank} (e : Expression (Option Location) r) :
    loose e.halfway = (0, 0) := by
  induction e with
  | literal text n place => rfl
  | name x place => rfl
  | group opening e closing ih => exact (IsOperand.group rfl rfl ih).loose_eq
  | ofAtom a ih => exact ih
  -- a product is a group now
  | scaled p s place a ihp iha =>
    exact (IsOperand.parts rfl rfl ihp (by simp) (by simp) iha).loose_eq
  | ofProduct p ih => exact ih
  | signed s place p ih =>
    rw [Expression.halfway, loose_other rfl rfl, loose_other (by simp) (by simp), ih]
  | summed e s place p ihe ihp =>
    exact loose_append_of_balanced ihe ((loose_other (by simp) (by simp) _).trans ihp)

/-- A product is an operand of a sign once the scaling operators are in parentheses. -/
theorem halfway_isOperand (p : Expression (Option Location) .product) : IsOperand p.halfway := by
  cases p with
  | ofAtom a =>
    cases a with
    | literal text n place => exact .single rfl rfl
    | name x place => exact .single rfl rfl
    | group opening e closing => exact .group rfl rfl (loose_halfway e)
  -- the product has got its parentheses
  | scaled p s place a =>
    exact .parts rfl rfl (loose_halfway p) (by simp) (by simp) (loose_halfway a)

/-- A tree is an operand. -/
theorem Tree.isOperand (t : Tree) : IsOperand t.symbols := by
  induction t with
  | literal text n place => exact .single rfl rfl
  | name x place => exact .single rfl rfl
  | group opening t closing ih => exact .group rfl rfl ih.loose_eq
  | node opening l o place r closing ihl ihr =>
    exact .parts rfl rfl ihl.loose_eq (by simp) (by simp) ihr.loose_eq

/-! ### The walks -/

/-- The walk that wraps some operators turns one part of a stream into another, whatever stands
before it and behind it. -/
def Wraps (operators : List String) (x y : List Symbol) : Prop :=
  ∀ passed rest,
    wrapFrom operators passed (x ++ rest) = wrapFrom operators (y.reverse ++ passed) rest

namespace Wraps

variable {operators : List String} {x y l l' r r' : List Symbol} {s : Symbol}

theorem nil : Wraps operators [] [] := fun _ _ => rfl

/-- **Two parts** can be walked over one after the other. -/
theorem append (hx : Wraps operators x y) (hr : Wraps operators r r') :
    Wraps operators (x ++ r) (y ++ r') := by
  intro passed rest
  rw [List.append_assoc, hx, hr, List.reverse_append, List.append_assoc]

theorem single (h : s.isOp operators = false) : Wraps operators [s] [s] := by
  intro passed rest
  rw [List.singleton_append, wrapFrom, h, if_neg Bool.false_ne_true]
  rfl

theorem cons (h : s.isOp operators = false) (hr : Wraps operators r r') :
    Wraps operators (s :: r) (s :: r') :=
  (single h).append hr

/-- **One operator.** The walk has turned what is on the left into an operand, and an operand is on
the right; then the operator and both of them come to stand in parentheses. -/
theorem operator (hs : s.isOp operators = true)
    (hclose : (Symbol.ofOperator ")" s.location).isOp operators = false)
    (hl : Wraps operators l l') (hl' : IsOperand l') (hr : IsOperand r)
    (hr' : Wraps operators r r') :
    Wraps operators (l ++ s :: r)
      (.ofOperator "(" s.location :: (l' ++ s :: (r' ++ [.ofOperator ")" s.location]))) := by
  intro passed rest
  calc wrapFrom operators passed (l ++ s :: r ++ rest)
      = wrapFrom operators (l'.reverse ++ passed) (s :: (r ++ rest)) := by
        rw [List.append_assoc, hl, List.cons_append]
    _ = wrapFrom operators (s :: (l'.reverse ++ .ofOperator "(" s.location :: passed))
          (r ++ .ofOperator ")" s.location :: rest) := by
        -- each of the two walks from the operator goes over exactly one operand
        rw [wrapFrom, if_pos hs, openBefore_operand hl', closeBehind_operand hr]
    _ = wrapFrom operators
          (.ofOperator ")" s.location ::
            (r'.reverse ++ s :: (l'.reverse ++ .ofOperator "(" s.location :: passed))) rest := by
        -- the right operand is walked over only now, with the new parenthesis behind it
        rw [hr', wrapFrom, hclose, if_neg Bool.false_ne_true]
    _ = _ := by simp

/-- What a part is turned into is the result of a whole walk over it. -/
theorem wrap_eq (h : Wraps operators x y) : wrap operators x = y := by
  have h := h [] []
  rw [List.append_nil, List.append_nil] at h
  rw [wrap, h, wrapFrom, List.reverse_reverse]

end Wraps

/-- The first walk puts the products of an expression in parentheses. -/
theorem wraps_halfway {r : Rank} (e : Expression (Option Location) r) :
    Wraps multiplicative e.zeroed e.halfway := by
  induction e with
  | literal text n place => exact .single rfl
  | name x place => exact .single rfl
  | group opening e closing ih => exact .cons rfl (ih.append (.single rfl))
  | ofAtom a ih => exact ih
  | scaled p s place a ihp iha =>
    -- what is on the left has been wrapped already, what is on the right has not
    exact .operator (Operator.isOp_multiplicative _ _) rfl ihp
      (halfway_isOperand p) (zeroed_isOperand a) iha
  | ofProduct p ih => exact ih
  | signed s place p ih =>
    -- the first walk passes over signs
    exact .cons rfl (.cons (Operator.isOp_multiplicative _ _) ih)
  | summed e s place p ihe ihp =>
    exact ihe.append (.cons (Operator.isOp_multiplicative _ _) ihp)

/-- The second walk puts its sums in parentheses too, and that makes it the tree. -/
theorem wraps_tree {r : Rank} (e : Expression (Option Location) r) :
    Wraps additive e.halfway e.tree.symbols := by
  induction e with
  | literal text n place => exact .single rfl
  | name x place => exact .single rfl
  | group opening e closing ih => exact .cons rfl (ih.append (.single rfl))
  | ofAtom a ih => exact ih
  -- the second walk passes over the scaling operators and their parentheses
  | scaled p s place a ihp iha =>
    exact .cons rfl
      (ihp.append (.cons (Operator.isOp_additive _ _) (iha.append (.single rfl))))
  | ofProduct p ih => exact ih
  | signed s place p ih =>
    -- the zero is the operand on the left
    exact .operator (Operator.isOp_additive _ _) rfl (l := [Grouping.zero place])
      (.single rfl)
      (.single rfl rfl) (halfway_isOperand p) ih
  -- the sum on the left is a tree by now, the product on the right is still halfway
  | summed e s place p ihe ihp =>
    exact .operator (Operator.isOp_additive _ _) rfl ihe e.tree.isOperand
      (halfway_isOperand p) ihp

/-! ### Streams -/

/-- A part of a stream: an expression, or a symbol that stands between expressions. -/
inductive Chunk where
  | plain (s : Symbol)
  | expression (e : Expression (Option Location) .sum)

namespace Chunk

/-- A part of a stream as it is written. -/
def written : Chunk → List Symbol
  | plain s => [s]
  | expression e => e.symbols

/-- A part of a stream with its zeros. -/
def zeroed : Chunk → List Symbol
  | plain s => [s]
  | expression e => e.zeroed

/-- A part of a stream halfway through grouping. -/
def halfway : Chunk → List Symbol
  | plain s => [s]
  | expression e => e.halfway

/-- A part of a stream with its grouping spelled out. -/
def grouped : Chunk → List Symbol
  | plain s => [s]
  | expression e => e.tree.symbols

/-- Whether every expression of a stream stands where an expression begins, and no symbol between
them is an arithmetic operator; `begins` tells whether an expression may begin the stream. -/
def Placed : Bool → List Chunk → Prop
  | _, [] => True
  | _, plain s :: rest => s.isArithmetic = false ∧ Placed (startsExpression (some s)) rest
  | begins, expression _ :: rest => begins = true ∧ Placed false rest

end Chunk

/-- None of the three phases of grouping has to do with a symbol that is no arithmetic operator. -/
theorem isOp_of_isArithmetic_eq_false {s : Symbol} (h : s.isArithmetic = false) :
    s.isOp ["+", "-"] = false ∧ s.isOp multiplicative = false ∧ s.isOp additive = false := by
  simp only [Symbol.isArithmetic, Symbol.isOp, multiplicative, additive] at h ⊢
  by_cases hk : s.kind = .operator <;> simp_all

/-- **Zeros** are put in for each part on its own. -/
theorem withZeros_chunks (chunks : List Chunk) (previous : Option Symbol)
    (h : Chunk.Placed (startsExpression previous) chunks) :
    withZeros previous (chunks.flatMap Chunk.written) = chunks.flatMap Chunk.zeroed := by
  induction chunks generalizing previous with
  | nil => rfl
  | cons c chunks ih =>
    rw [List.flatMap_cons, List.flatMap_cons]
    cases c with
    -- a symbol between the expressions is no sign, so it gets no zero
    | plain s =>
      obtain ⟨hs, hrest⟩ := h
      rw [Chunk.written, Chunk.zeroed, List.singleton_append, List.singleton_append, withZeros,
        (isOp_of_isArithmetic_eq_false hs).1, Bool.false_and, if_neg Bool.false_ne_true, ih _ hrest]
    | expression e =>
      obtain ⟨hbegin, hrest⟩ := h
      -- behind an expression no other one begins, which is what `Placed` says of the rest
      obtain ⟨last, hlast, he⟩ := withZeros_expression e previous (fun _ => hbegin)
        (chunks.flatMap Chunk.written)
      rw [Chunk.written, Chunk.zeroed, he, ih (some last) (by rw [hlast]; exact hrest)]

/-- Walks over all parts of a stream come together to a walk over the stream. -/
theorem Wraps.flatMap {operators : List String} {f g : Chunk → List Symbol} {begins : Bool}
    {chunks : List Chunk} (h : Chunk.Placed begins chunks)
    (hplain : ∀ s, s.isArithmetic = false → Wraps operators (f (.plain s)) (g (.plain s)))
    (hexpression : ∀ e, Wraps operators (f (.expression e)) (g (.expression e))) :
    Wraps operators (chunks.flatMap f) (chunks.flatMap g) := by
  induction chunks generalizing begins with
  | nil => exact .nil
  | cons c chunks ih =>
    rw [List.flatMap_cons, List.flatMap_cons]
    cases c with
    | plain s => exact (hplain s h.1).append (ih h.2)
    | expression e => exact (hexpression e).append (ih h.2)

/-- **Grouping spells out trees.** In a stream of expressions and symbols between them, every
expression is turned into the symbols of its tree, and nothing else changes. -/
theorem grouped_written {chunks : List Chunk} (h : Chunk.Placed true chunks) :
    Grouping.grouped (chunks.flatMap Chunk.written) = chunks.flatMap Chunk.grouped := by
  -- the two walks, each taking one form to the next
  have hfirst : Wraps multiplicative (chunks.flatMap Chunk.zeroed) (chunks.flatMap Chunk.halfway) :=
    .flatMap h (fun _ hs => .single (isOp_of_isArithmetic_eq_false hs).2.1) wraps_halfway
  have hsecond : Wraps additive (chunks.flatMap Chunk.halfway) (chunks.flatMap Chunk.grouped) :=
    .flatMap h (fun _ hs => .single (isOp_of_isArithmetic_eq_false hs).2.2) wraps_tree
  rw [Grouping.grouped, withZeros_chunks chunks none h, hfirst.wrap_eq, hsecond.wrap_eq]

end RomAsm
