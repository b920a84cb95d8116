import RomAsm.Resolution

/-!
# Expressions and their values

An expression is a sum of products of atoms. The type `Expression` follows the grammar

* a sum is a product, a sign before a product, or a sum, a sign and a product;
* a product is an atom, or a product, a scaling operator and an atom;
* an atom is a literal, a name, or a sum in parentheses

so precedence and grouping to the left are in the shape of the tree, and there is no expression that
the grammar does not have. Every token carries a place `π`: nothing where only the spelling counts,
and a location where the expression was read from a source. `Expression.symbols` is the expression
as it is written, `Expression.eval` its value under a valuation of the names.

A `Tree` is an expression with its grouping spelled out: every operator stands in parentheses of its
own, together with its two operands. `Expression.tree` is the tree that the parentheses of an
expression should describe; it has the same names (`names_tree`) and the same value (`eval_tree`).
-/

namespace RomAsm

/-! ### Division -/

namespace Resolution

/-- **Dividing the magnitudes and putting the sign in front** is division towards zero. -/
theorem quotient_eq_tdiv (left right : Int) : quotient left right = left.tdiv right := by
  -- the sign of a number is that of its constructor, and the magnitude is its argument
  have hnat (n : Nat) : decide (Int.ofNat n < 0) = false :=
    decide_eq_false (Int.not_lt.2 (Int.natCast_nonneg n))
  have hneg (n : Nat) : decide (Int.negSucc n < 0) = true := decide_eq_true (Int.negSucc_lt_zero n)
  cases left with
  | ofNat m =>
    cases right with
    | ofNat n =>
      rw [quotient, hnat, hnat]
      rfl
    | negSucc n =>
      rw [quotient, hnat, hneg]
      rfl
  -- here the dividend is negative, and the quotient by a negative number has no sign
  | negSucc m =>
    cases right with
    | ofNat n =>
      rw [quotient, hnat, hneg]
      rfl
    | negSucc n =>
      rw [quotient, hneg, hneg]
      rfl

/-- What that leaves has the sign of the dividend. -/
theorem remainder_eq_tmod (left right : Int) : remainder left right = left.tmod right := by
  rw [remainder, quotient_eq_tdiv, Int.tmod_def]

end Resolution

/-! ### Operators -/

/-- The operators that bind less tightly; they also stand as a sign before a product. -/
inductive Sign where
  | plus
  | minus
  deriving DecidableEq, Repr

/-- The operators that bind more tightly. -/
inductive Scaling where
  | times
  | over
  | modulo
  deriving DecidableEq, Repr

/-- An operator between two numbers. -/
inductive Operator where
  | sign (s : Sign)
  | scaling (s : Scaling)
  deriving DecidableEq, Repr

namespace Operator

/-- The spelling of an operator. -/
def text : Operator → String
  | sign .plus => "+"
  | sign .minus => "-"
  | scaling .times => "*"
  | scaling .over => "/"
  | scaling .modulo => "%"

/-- The symbol of an operator. -/
def symbol (o : Operator) (place : Option Location) : Symbol := .ofOperator o.text place

/-- The value of an operator between two numbers. A quotient goes towards zero, and a remainder has
the sign of the dividend; by zero there is neither. -/
def apply : Operator → Int → Int → Option Int
  | sign .plus, a, b => some (a + b)
  | sign .minus, a, b => some (a - b)
  | scaling .times, a, b => some (a * b)
  | scaling .over, a, b => if b = 0 then none else some (a.tdiv b)
  | scaling .modulo, a, b => if b = 0 then none else some (a.tmod b)

/-- The value of an operator between two values, if both are there. -/
def between (o : Operator) (x y : Option Int) : Option Int :=
  x.bind fun a => y.bind fun b => o.apply a b

/-- What is reported when the right operand is zero. -/
def zeroProblem : Operator → Problem
  | scaling .over => .divisionByZero
  | _ => .moduloByZero

/-- Whether an operator has no value where its right operand is zero. -/
def divides : Operator → Bool
  | scaling .over | scaling .modulo => true
  | _ => false

/-- Only a division by zero has no value. -/
theorem apply_eq_none {o : Operator} {a b : Int} :
    o.apply a b = none ↔ o.divides = true ∧ b = 0 := by
  rcases o with ⟨_ | _⟩ | ⟨_ | _ | _⟩ <;> simp [apply, divides]

/-- An operator has a value if both its operands have one and it is defined for them. -/
theorem between_eq_some {o : Operator} {x y : Option Int} {c : Int} :
    o.between x y = some c ↔ ∃ a b, x = some a ∧ y = some b ∧ o.apply a b = some c := by
  cases x <;> cases y <;> simp [between]

/-- The operator that resolution evaluates for a symbol is the one that the symbol spells. -/
theorem evaluate_symbol (o : Operator) (place : Option Location) (a b : Int) :
    Resolution.evaluate (o.symbol place) a b =
      match o.apply a b with
      | some c => .ok c
      | none => .error (.report o.zeroProblem place) := by
  rcases o with ⟨_ | _⟩ | ⟨_ | _ | _⟩ <;>
    simp only [Resolution.evaluate, symbol, Symbol.ofOperator, text, apply, zeroProblem,
      Resolution.quotient_eq_tdiv, Resolution.remainder_eq_tmod]
  · -- the two operators that divide look at the divisor first
    by_cases h : b = 0 <;> simp [h]
  · by_cases h : b = 0 <;> simp [h]

end Operator

/-! ### The grammar -/

/-- How tightly the parts of an expression hang together. -/
inductive Rank where
  | atom
  | product
  | sum

/-- An expression, with a place `π` for each of its tokens. -/
inductive Expression (π : Type) : Rank → Type where
  | literal (text : String) (value : Int) (place : π) : Expression π .atom
  | name (text : String) (place : π) : Expression π .atom
  | group (opening : π) (inner : Expression π .sum) (closing : π) : Expression π .atom
  | ofAtom (a : Expression π .atom) : Expression π .product
  | scaled (left : Expression π .product) (s : Scaling) (place : π) (right : Expression π .atom) :
    Expression π .product
  | ofProduct (p : Expression π .product) : Expression π .sum
  | signed (s : Sign) (place : π) (p : Expression π .product) : Expression π .sum
  | summed (left : Expression π .sum) (s : Sign) (place : π) (right : Expression π .product) :
    Expression π .sum

namespace Expression

variable {π : Type} {r : Rank}

/-- The names of an expression, in the order in which they are written. -/
def names : {r : Rank} → Expression π r → List String
  | _, literal _ _ _ => []
  | _, name x _ => [x]
  | _, group _ e _ => e.names
  | _, ofAtom a => a.names
  | _, scaled p _ _ a => p.names ++ a.names
  | _, ofProduct p => p.names
  | _, signed _ _ p => p.names
  | _, summed e _ _ p => e.names ++ p.names

/-- The value of an expression under a valuation of its names: there is none if a name has no value
or a divisor is zero. -/
def eval (ρ : String → Option Int) : {r : Rank} → Expression π r → Option Int
  | _, literal _ n _ => some n
  | _, name x _ => ρ x
  | _, group _ e _ => e.eval ρ
  | _, ofAtom a => a.eval ρ
  | _, scaled p s _ a => (Operator.scaling s).between (p.eval ρ) (a.eval ρ)
  | _, ofProduct p => p.eval ρ
  | _, signed s _ p => (Operator.sign s).between (some 0) (p.eval ρ)
  | _, summed e s _ p => (Operator.sign s).between (e.eval ρ) (p.eval ρ)

/-- The dividends and divisors of an expression, at any depth. -/
def divisions : {r : Rank} → Expression π r → List (Expression π .product × Expression π .atom)
  | _, literal _ _ _ => []
  | _, name _ _ => []
  | _, group _ e _ => e.divisions
  | _, ofAtom a => a.divisions
  | _, scaled p s _ a =>
    p.divisions ++ a.divisions ++ if (Operator.scaling s).divides then [(p, a)] else []
  | _, ofProduct p => p.divisions
  | _, signed _ _ p => p.divisions
  | _, summed e _ _ p => e.divisions ++ p.divisions

/-- Whether every number that an operator of an expression gives under a valuation can be written.
The literals of the expression need not be: they are not written again. -/
def Legible (ρ : String → Option Int) : {r : Rank} → Expression π r → Prop
  | _, literal _ _ _ => True
  | _, name _ _ => True
  | _, group _ e _ => e.Legible ρ
  | _, ofAtom a => a.Legible ρ
  | _, scaled p s _ a => p.Legible ρ ∧ a.Legible ρ ∧
    ∀ n, (Operator.scaling s).between (p.eval ρ) (a.eval ρ) = some n → Numeral.isWritable n = true
  | _, ofProduct p => p.Legible ρ
  | _, signed s _ p => p.Legible ρ ∧
    ∀ n, (Operator.sign s).between (some 0) (p.eval ρ) = some n → Numeral.isWritable n = true
  | _, summed e s _ p => e.Legible ρ ∧ p.Legible ρ ∧
    ∀ n, (Operator.sign s).between (e.eval ρ) (p.eval ρ) = some n → Numeral.isWritable n = true

/-- The symbols of an expression, as it is written. -/
def symbols : {r : Rank} → Expression (Option Location) r → List Symbol
  | _, literal text n place => [⟨.integer, text, some n, place⟩]
  | _, name x place => [⟨.identifier, x, none, place⟩]
  | _, group opening e closing =>
    .ofOperator "(" opening :: e.symbols ++ [.ofOperator ")" closing]
  | _, ofAtom a => a.symbols
  | _, scaled p s place a => p.symbols ++ (Operator.scaling s).symbol place :: a.symbols
  | _, ofProduct p => p.symbols
  | _, signed s place p => (Operator.sign s).symbol place :: p.symbols
  | _, summed e s place p => e.symbols ++ (Operator.sign s).symbol place :: p.symbols

end Expression

/-! ### Trees -/

/-- An expression with its grouping spelled out. A node is an operator with its two operands, in
parentheses; the locations are those of the parentheses and of the operator. -/
inductive Tree where
  | literal (text : String) (value : Int) (place : Option Location)
  | name (text : String) (place : Option Location)
  | group (opening : Option Location) (inner : Tree) (closing : Option Location)
  | node (opening : Option Location) (left : Tree) (o : Operator) (place : Option Location)
    (right : Tree) (closing : Option Location)

namespace Tree

/-- The symbols of a tree. -/
def symbols : Tree → List Symbol
  | literal text n place => [⟨.integer, text, some n, place⟩]
  | name x place => [⟨.identifier, x, none, place⟩]
  | group opening t closing => .ofOperator "(" opening :: (t.symbols ++ [.ofOperator ")" closing])
  | node opening l o place r closing =>
    .ofOperator "(" opening ::
      (l.symbols ++ o.symbol place :: (r.symbols ++ [.ofOperator ")" closing]))

/-- The names of a tree, in the order in which they are written. -/
def names : Tree → List String
  | literal _ _ _ => []
  | name x _ => [x]
  | group _ t _ => t.names
  | node _ l _ _ r _ => l.names ++ r.names

/-- The value of a tree under a valuation of its names. -/
def eval (ρ : String → Option Int) : Tree → Option Int
  | literal _ n _ => some n
  | name x _ => ρ x
  | group _ t _ => t.eval ρ
  | node _ l o _ r _ => o.between (l.eval ρ) (r.eval ρ)

/-- Whether every number that an operator of a tree gives under a valuation can be written. -/
def Legible (ρ : String → Option Int) : Tree → Prop
  | literal _ _ _ => True
  | name _ _ => True
  | group _ t _ => t.Legible ρ
  | node _ l o _ r _ => l.Legible ρ ∧ r.Legible ρ ∧
    ∀ n, o.between (l.eval ρ) (r.eval ρ) = some n → Numeral.isWritable n = true

/-- The dividends and divisors of a tree, at any depth. -/
def divisions : Tree → List (Tree × Tree)
  | literal _ _ _ => []
  | name _ _ => []
  | group _ t _ => t.divisions
  | node _ l o _ r _ => l.divisions ++ r.divisions ++ if o.divides then [(l, r)] else []

end Tree

namespace Expression

/-- The tree of an expression. The parentheses of an operator stand at its location, and a sign is
applied to a zero that stands there too. -/
def tree : {r : Rank} → Expression (Option Location) r → Tree
  | _, literal text n place => .literal text n place
  | _, name x place => .name x place
  | _, group opening e closing => .group opening e.tree closing
  | _, ofAtom a => a.tree
  | _, scaled p s place a => .node place p.tree (.scaling s) place a.tree place
  | _, ofProduct p => p.tree
  | _, signed s place p => .node place (.literal "0" 0 place) (.sign s) place p.tree place
  | _, summed e s place p => .node place e.tree (.sign s) place p.tree place

/-- Grouping neither adds names nor changes their order: the zeros that it puts in are literals. -/
theorem names_tree {r : Rank} (e : Expression (Option Location) r) : e.tree.names = e.names := by
  induction e <;> simp_all [tree, names, Tree.names]

/-- **Spelling out the grouping keeps the value.** A sign becomes a difference from zero, or a sum
with it, which is how its value is defined. -/
theorem eval_tree {r : Rank} (e : Expression (Option Location) r) (ρ : String → Option Int) :
    e.tree.eval ρ = e.eval ρ := by
  induction e <;> simp_all [tree, eval, Tree.eval]

/-- The numbers that come up on the way to the value are the same too. -/
theorem legible_tree {r : Rank} (e : Expression (Option Location) r) (ρ : String → Option Int) :
    e.tree.Legible ρ ↔ e.Legible ρ := by
  induction e <;> simp_all [tree, Legible, Tree.Legible, Tree.eval, eval_tree]

/-- And so are the divisions, in the same order. A sign is none of them. -/
theorem divisions_tree {r : Rank} (e : Expression (Option Location) r) :
    e.tree.divisions = e.divisions.map fun d => (d.1.tree, d.2.tree) := by
  induction e with
  | literal _ _ _ => rfl
  | name _ _ => rfl
  | group _ e _ ih => exact ih
  | ofAtom a ih => exact ih
  -- a product is no division, a quotient and a remainder are
  | scaled p s _ a ihp iha =>
    cases h : (Operator.scaling s).divides <;> simp [tree, Tree.divisions, divisions, ihp, iha, h]
  | ofProduct p ih => exact ih
  -- the zero in front of a sign has no divisions of its own
  | signed s _ p ih =>
    cases s <;> simpa [tree, Tree.divisions, divisions, Operator.divides] using ih
  | summed e s _ p ihe ihp =>
    cases s <;> simp [tree, Tree.divisions, divisions, Operator.divides, ihe, ihp]

end Expression

end RomAsm
