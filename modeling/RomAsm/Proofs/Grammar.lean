import RomAsm.Proofs.Alternation

/-!
# Reading expressions

If each sign that begins an expression is given a zero, the grammar of expressions has all sequences
in which operands and operators come in turn and parentheses balance. Such a sequence is read from
the left: an atom, which may be a group with a shorter sequence in it, and then operators with their
operands, each of which extends the product or the sum that has been read.

* `exists_atom`, `exists_sum`, `readable` — reading an atom, the rest of a sum, and a sum;
* `Expression.tree_eq_of_symbols` — the grammar is unambiguous;
* `Expression.value` — the value of an expression without names.
-/

namespace RomAsm

open Grouping

/-! ### Tokens -/

/-- A symbol that an expression without names is made of. -/
inductive IsToken : Symbol → Prop where
  | literal (text : String) (value : Int) (place : Option Location) :
    IsToken ⟨.integer, text, some value, place⟩
  | operator (o : Operator) (place : Option Location) : IsToken (o.symbol place)
  | opening (place : Option Location) : IsToken (.ofOperator "(" place)
  | closing (place : Option Location) : IsToken (.ofOperator ")" place)

/-- A token is no name, and begins neither a statement nor what follows a label. -/
theorem IsToken.plain {s : Symbol} (h : IsToken s) :
    s.isIdentifier = false ∧ s.startsStatement = false ∧ s.isOp [":"] = false := by
  cases h with
  | literal text value place => exact ⟨rfl, rfl, rfl⟩
  | operator o place => rcases o with ⟨_ | _⟩ | ⟨_ | _ | _⟩ <;> exact ⟨rfl, rfl, rfl⟩
  | opening place => exact ⟨rfl, rfl, rfl⟩
  | closing place => exact ⟨rfl, rfl, rfl⟩

/-- A token that closes a group is a parenthesis. -/
theorem IsToken.exists_of_isClose {s : Symbol} (h : IsToken s) (hs : s.isClose = true) :
    ∃ place, s = .ofOperator ")" place := by
  cases h with
  | closing place => exact ⟨place, rfl⟩
  | literal text value place => cases hs
  | operator o place => rw [o.isClose_symbol] at hs; cases hs
  | opening place => cases hs

/-- A token that looks like a sign is one. -/
theorem IsToken.exists_of_isSign {s : Symbol} (h : IsToken s) (hs : s.isOp ["+", "-"] = true) :
    ∃ o place, s = (Operator.sign o).symbol place := by
  cases h with
  | operator o place =>
    cases o with
    | sign o => exact ⟨o, place, rfl⟩
    | scaling o => cases o <;> cases hs
  | literal text value place => cases hs
  | opening place => cases hs
  | closing place => cases hs

theorem Operator.isParenthesis_symbol (o : Operator) (place : Option Location) :
    (o.symbol place).isParenthesis = false :=
  isParenthesis_of_isArithmetic (o.isArithmetic_symbol place)

theorem Operator.startsExpression_symbol (o : Operator) (place : Option Location) :
    startsExpression (some (o.symbol place)) = false := by
  rcases o with ⟨_ | _⟩ | ⟨_ | _ | _⟩ <;> rfl

/-! ### Zeros -/

theorem withZeros_cons {s : Symbol} {previous : Option Symbol}
    (h : (s.isOp ["+", "-"] && startsExpression previous) = false) (rest : List Symbol) :
    withZeros previous (s :: rest) = s :: withZeros (some s) rest := by
  rw [withZeros, if_neg (by rw [h]; exact Bool.false_ne_true)]

/-- Zeros are put in on both sides of a symbol that is no sign, independently of each other. -/
theorem withZeros_append {s : Symbol} (hs : s.isOp ["+", "-"] = false) (previous : Option Symbol)
    (a b : List Symbol) :
    withZeros previous (a ++ s :: b) = withZeros previous a ++ s :: withZeros (some s) b := by
  induction a generalizing previous with
  | nil => exact withZeros_cons (by rw [hs, Bool.false_and]) b
  | cons t a ih =>
    rw [List.cons_append, withZeros, withZeros, ih]
    split <;> rfl

/-- A zero is no parenthesis. -/
theorem loose_withZeros (previous : Option Symbol) (symbols : List Symbol) :
    loose (withZeros previous symbols) = loose symbols := by
  induction symbols generalizing previous with
  | nil => rfl
  | cons s rest ih =>
    -- the symbol itself may be a parenthesis, so it is kept apart from what follows
    have hrest : loose ([s] ++ withZeros (some s) rest) = loose ([s] ++ rest) := by
      rw [loose_append, loose_append, ih]
    rw [withZeros]
    split
    · exact (loose_neutral rfl _).trans hrest
    · exact hrest

/-! ### Reading an expression -/

/-- A balanced stream that begins a group ends it, and balances behind it. -/
theorem exists_partner {opening : Symbol} (hopening : opening.isOpen = true) {rest : List Symbol}
    (h : loose (opening :: rest) = (0, 0)) :
    ∃ inside closing more, rest = inside ++ closing :: more ∧ closing.isClose = true ∧
      loose inside = (0, 0) ∧ loose more = (0, 0) := by
  rcases @enclose_cases Symbol.isOpen Symbol.isClose opening 0 rest with
    ⟨inside, closing, more, rfl, -, hclosing, hinside, -⟩ | ⟨-, hunended⟩
  · have hinside : loose inside = (0, 0) := hinside
    refine ⟨inside, closing, more, rfl, hclosing, hinside, ?_⟩
    have hgroup := (IsOperand.group hopening hclosing hinside).loose_eq
    rw [← h, ← List.nil_append more, ← loose_append_balanced hgroup]
    simp
  · -- the group is never ended
    have hunended : (loose rest).1 ≤ 0 := hunended
    rw [loose_open hopening, Prod.mk.injEq] at h
    omega

/-- A stream is an expression. -/
def Derivable (t : List Symbol) : Prop := ∃ e : Expression (Option Location) .sum, e.symbols = t

/-- A stream of tokens is an expression if it is regular with its zeros, as they are put in where an
expression begins. -/
def Readable (t : List Symbol) : Prop :=
  (∀ s ∈ t, IsToken s) → ∀ previous, startsExpression previous = true →
    Alternates false (withZeros previous t) → loose t = (0, 0) → Derivable t

section Reading

variable {n : Nat} (hinside : ∀ inside : List Symbol, inside.length < n → Readable inside)

include hinside

/-- **Reading an atom.** What follows it alternates and balances. -/
theorem exists_atom {s : Symbol} {t : List Symbol} (hn : t.length ≤ n)
    (htokens : ∀ u ∈ s :: t, IsToken u) (halternates : Alternates false (s :: withZeros (some s) t))
    (hbalanced : loose (s :: t) = (0, 0)) :
    ∃ (a : Expression (Option Location) .atom) (last : Symbol) (rest : List Symbol),
      s :: t = a.symbols ++ rest ∧ startsExpression (some last) = false ∧
        Alternates true (withZeros (some last) rest) ∧ loose rest = (0, 0) := by
  obtain ⟨hs, ht⟩ := List.forall_mem_cons.1 htokens
  cases hs with
  | literal text value place =>
    obtain ⟨-, hrest⟩ := (alternates_operand rfl).1 halternates
    exact ⟨.literal text value place, _, t, rfl, rfl, hrest,
      (loose_neutral rfl t).symm.trans hbalanced⟩
  | opening place =>
    obtain ⟨inside, closing, rest, rfl, hclosing, hcontents, hrest⟩ := exists_partner rfl hbalanced
    obtain ⟨place', rfl⟩ := (ht closing (by simp)).exists_of_isClose hclosing
    -- the group is read by itself, and what follows it is left
    obtain ⟨-, halternates⟩ := (alternates_open rfl).1 halternates
    rw [withZeros_append rfl] at halternates
    obtain ⟨hgroup, hbehind⟩ := halternates.split rfl
    have hshorter : inside.length < n := by
      simp only [List.length_append, List.length_cons] at hn
      omega
    obtain ⟨e, rfl⟩ :=
      hinside inside hshorter (fun u hu => ht u (by simp [hu])) _ rfl hgroup hcontents
    refine ⟨.group place e place', _, rest, ?_, rfl, hbehind, hrest⟩
    simp [Expression.symbols]
  -- an operand has to begin here, and an operator does not begin one
  | operator o place =>
    obtain ⟨hended, -⟩ := (alternates_operator (o.isArithmetic_symbol place)
      (o.isParenthesis_symbol place)).1 halternates
    cases hended
  | closing place =>
    obtain ⟨hended, -⟩ := (alternates_close rfl).1 halternates
    cases hended

omit hinside in
/-- What follows an operand is an operator, with another operand behind it. -/
theorem exists_operator {s last : Symbol} {rest : List Symbol} (htoken : IsToken s)
    (hlast : startsExpression (some last) = false)
    (halternates : Alternates true (withZeros (some last) (s :: rest)))
    (hbalanced : loose (s :: rest) = (0, 0)) :
    ∃ (o : Operator) (place : Option Location) (u : Symbol) (more : List Symbol),
      s = o.symbol place ∧ rest = u :: more ∧ Alternates false (u :: withZeros (some u) more) ∧
        loose rest = (0, 0) := by
  rw [withZeros_cons (by rw [hlast, Bool.and_false])] at halternates
  cases htoken with
  | operator o place =>
    obtain ⟨-, halternates⟩ := (alternates_operator (o.isArithmetic_symbol place)
      (o.isParenthesis_symbol place)).1 halternates
    rw [loose_neutral (o.isParenthesis_symbol place)] at hbalanced
    cases rest with
    | nil => cases halternates
    | cons u more =>
      -- a sign here would follow an operator, where it gets no zero
      rw [withZeros_cons (by rw [o.startsExpression_symbol, Bool.and_false])] at halternates
      exact ⟨o, place, u, more, rfl, rfl, halternates, hbalanced⟩
  -- the group that it would close was not opened here
  | closing place =>
    rw [loose_close rfl, Prod.mk.injEq] at hbalanced
    omega
  -- an operand has just ended, so no other one begins
  | literal text value place =>
    obtain ⟨hended, -⟩ := (alternates_operand rfl).1 halternates
    cases hended
  | opening place =>
    obtain ⟨hended, -⟩ := (alternates_open rfl).1 halternates
    cases hended

/-- **Reading the rest of a sum.** A product `p` has been read, and `close` makes a sum of it and
what stands before it. -/
theorem exists_sum {rest : List Symbol} (hn : rest.length ≤ n) (htokens : ∀ u ∈ rest, IsToken u)
    {last : Symbol} (hlast : startsExpression (some last) = false)
    (halternates : Alternates true (withZeros (some last) rest)) (hbalanced : loose rest = (0, 0))
    {before : List Symbol}
    {close : Expression (Option Location) .product → Expression (Option Location) .sum}
    (hclose : ∀ p, (close p).symbols = before ++ p.symbols)
    (p : Expression (Option Location) .product) : Derivable (before ++ (p.symbols ++ rest)) := by
  -- on what is left, which each operator with its operand makes shorter
  induction hlength : rest.length using Nat.strongRecOn generalizing rest last before close p with
  | ind k ih =>
    cases rest with
    | nil =>
      refine ⟨close p, ?_⟩
      rw [hclose, List.append_nil]
    | cons s rest =>
      obtain ⟨hs, hrest⟩ := List.forall_mem_cons.1 htokens
      obtain ⟨o, place, u, more, rfl, rfl, hoperand, hloose⟩ :=
        exists_operator hs hlast halternates hbalanced
      simp only [List.length_cons] at hn hlength
      obtain ⟨a, last', behind, heq, hlast', hmore, hloose'⟩ :=
        exists_atom hinside (by omega) hrest hoperand hloose
      have hshorter : behind.length < k := by
        have hlengths := congrArg List.length heq
        simp only [List.length_cons, List.length_append] at hlengths
        omega
      have hbehind : ∀ u ∈ behind, IsToken u := fun u hu =>
        hrest u (by rw [heq]; exact List.mem_append_right _ hu)
      rw [heq]
      cases o with
      | scaling o =>
        -- the atom extends the product
        have h := ih _ hshorter (by omega) hbehind hlast' hmore hloose' hclose
          (.scaled p o place a) rfl
        simpa [Expression.symbols] using h
      | sign o =>
        -- the product is closed, and the atom begins the next one
        have hclose' (q : Expression (Option Location) .product) :
            (Expression.summed (close p) o place q).symbols =
              before ++ (p.symbols ++ [(Operator.sign o).symbol place]) ++ q.symbols := by
          simp [Expression.symbols, hclose]
        have h := ih _ hshorter (by omega) hbehind hlast' hmore hloose' hclose'
          (.ofAtom a) rfl
        simpa [Expression.symbols] using h

/-- Reading a sum from its first atom on. -/
theorem exists_sum_of_atom {s : Symbol} {t : List Symbol} (hn : (s :: t).length ≤ n)
    (htokens : ∀ u ∈ s :: t, IsToken u) (halternates : Alternates false (s :: withZeros (some s) t))
    (hbalanced : loose (s :: t) = (0, 0)) (before : List Symbol)
    (close : Expression (Option Location) .product → Expression (Option Location) .sum)
    (hclose : ∀ p, (close p).symbols = before ++ p.symbols) : Derivable (before ++ s :: t) := by
  have ht : t.length ≤ n := Nat.le_of_succ_le hn
  obtain ⟨a, last, rest, heq, hlast, halternates, hbalanced⟩ :=
    exists_atom hinside ht htokens halternates hbalanced
  rw [heq] at hn htokens ⊢
  rw [List.length_append] at hn
  have hrest : ∀ u ∈ rest, IsToken u := fun u hu => htokens u (List.mem_append_right _ hu)
  exact exists_sum hinside (by omega) hrest hlast halternates hbalanced hclose (.ofAtom a)

end Reading

/-- **Regular streams of tokens are expressions.** -/
theorem readable (t : List Symbol) : Readable t := by
  -- by the length, since a group is read by itself
  induction hn : t.length using Nat.strongRecOn generalizing t with
  | ind n ih =>
    intro htokens previous hprevious halternates hbalanced
    have hinside (inside : List Symbol) (hshorter : inside.length < n) : Readable inside :=
      ih _ hshorter inside rfl
    cases t with
    | nil => cases halternates
    | cons s t =>
      by_cases hs : s.isOp ["+", "-"] = true
      · -- a sign has got its zero, so an atom follows it
        obtain ⟨o, place, rfl⟩ := (htokens s List.mem_cons_self).exists_of_isSign hs
        rw [withZeros, hs, hprevious, Bool.and_true, if_pos rfl] at halternates
        obtain ⟨-, halternates⟩ := (alternates_operand rfl).1 halternates
        obtain ⟨-, halternates⟩ := (alternates_operator hs
          (Operator.isParenthesis_symbol _ place)).1 halternates
        rw [loose_neutral (Operator.isParenthesis_symbol _ place)] at hbalanced
        cases t with
        | nil => cases halternates
        | cons u t =>
          rw [withZeros_cons (by rw [Operator.startsExpression_symbol, Bool.and_false])]
            at halternates
          exact exists_sum_of_atom hinside (Nat.le_of_succ_le (Nat.le_of_eq hn))
            (List.forall_mem_cons.1 htokens).2 halternates hbalanced
            [(Operator.sign o).symbol place] (.signed o place) fun _ => rfl
      · -- without a sign an atom comes first
        have hs : s.isOp ["+", "-"] = false := by simpa using hs
        rw [withZeros_cons (by rw [hs, Bool.false_and])] at halternates
        exact exists_sum_of_atom hinside (Nat.le_of_eq hn) htokens halternates hbalanced []
          .ofProduct fun _ => rfl

/-! ### The grammar is unambiguous -/

/-- An operator and its place can be read off the symbol. -/
theorem Operator.symbol_inj {o o' : Operator} {place place' : Option Location}
    (h : o.symbol place = o'.symbol place') : o = o' ∧ place = place' := by
  refine ⟨?_, congrArg Symbol.location h⟩
  have htext : o.text = o'.text := congrArg Symbol.text h
  revert htext
  rcases o with ⟨_ | _⟩ | ⟨_ | _ | _⟩ <;> rcases o' with ⟨_ | _⟩ | ⟨_ | _ | _⟩ <;> decide

/-- A closing parenthesis is no operator of the grammar. -/
theorem Operator.symbol_ne_close (o : Operator) (place place' : Option Location) :
    Symbol.ofOperator ")" place' ≠ o.symbol place := by
  intro h
  have hclose := congrArg Symbol.isClose h
  rw [o.isClose_symbol, isClose_ofOperator] at hclose
  cases hclose

/-- A tree can be read off its symbols, whatever stands behind them. -/
theorem Tree.eq_of_symbols {s t : Tree} {a b : List Symbol}
    (h : s.symbols ++ a = t.symbols ++ b) : s = t ∧ a = b := by
  induction s generalizing t a b with
  -- the first symbol tells a number, a name and a parenthesis apart
  | literal text n place =>
    cases t with
    | literal => simp_all [symbols]
    | name | group | node => simp [symbols, Symbol.ofOperator] at h
  | name x place =>
    cases t with
    | name => simp_all [symbols]
    | literal | group | node => simp [symbols, Symbol.ofOperator] at h
  | group opening s closing ih =>
    cases t with
    | literal | name => simp [symbols, Symbol.ofOperator] at h
    | group opening' t closing' =>
      simp only [symbols, List.cons_append, List.append_assoc, List.cons.injEq] at h
      obtain ⟨hopening, h⟩ := h
      obtain ⟨rfl, hbehind⟩ := ih h
      obtain ⟨hclosing, rfl⟩ := List.cons.inj hbehind
      obtain rfl : opening = opening' := congrArg Symbol.location hopening
      obtain rfl : closing = closing' := congrArg Symbol.location hclosing
      exact ⟨rfl, rfl⟩
    | node opening' l o place r closing' =>
      -- behind the first tree there is a parenthesis in one case and an operator in the other
      simp only [symbols, List.cons_append, List.append_assoc, List.cons.injEq] at h
      obtain ⟨-, hbehind⟩ := ih h.2
      exact absurd (List.cons.inj hbehind).1 (o.symbol_ne_close place closing)
  | node opening l o place r closing ihl ihr =>
    cases t with
    | literal | name => simp [symbols, Symbol.ofOperator] at h
    | group opening' t closing' =>
      simp only [symbols, List.cons_append, List.append_assoc, List.cons.injEq] at h
      obtain ⟨-, hbehind⟩ := ihl h.2
      exact absurd (List.cons.inj hbehind).1.symm (o.symbol_ne_close place closing')
    | node opening' l' o' place' r' closing' =>
      simp only [symbols, List.cons_append, List.append_assoc, List.cons.injEq] at h
      obtain ⟨hopening, h⟩ := h
      -- from left to right: what follows the left tree is the same in both, and so on
      obtain ⟨rfl, hbehind⟩ := ihl h
      obtain ⟨hoperator, hright⟩ := List.cons.inj hbehind
      obtain ⟨rfl, hend⟩ := ihr hright
      obtain ⟨hclosing, rfl⟩ := List.cons.inj hend
      obtain ⟨rfl, rfl⟩ := Operator.symbol_inj hoperator
      obtain rfl : opening = opening' := congrArg Symbol.location hopening
      obtain rfl : closing = closing' := congrArg Symbol.location hclosing
      exact ⟨rfl, rfl⟩

/-- **The grammar is unambiguous**: expressions that are written alike have the same tree, as
grouping finds it. -/
theorem Expression.tree_eq_of_symbols {e e' : Expression (Option Location) .sum}
    (h : e.symbols = e'.symbols) : e.tree = e'.tree := by
  -- grouping writes the tree down with all its parentheses, from which it can be read off
  have hgrouped (e : Expression (Option Location) .sum) : grouped e.symbols = e.tree.symbols := by
    have hchunk : Chunk.Placed true [.expression e] := ⟨rfl, trivial⟩
    simpa [Chunk.written, Chunk.grouped] using grouped_written hchunk
  have hsymbols : e.tree.symbols ++ [] = e'.tree.symbols ++ [] := by
    rw [← hgrouped, ← hgrouped, h]
  exact (Tree.eq_of_symbols hsymbols).1

/-- So they also have the same value, and the same numbers come up. -/
theorem Expression.eval_eq_of_symbols {e e' : Expression (Option Location) .sum}
    (h : e.symbols = e'.symbols) (ρ : String → Option Int) :
    e.eval ρ = e'.eval ρ ∧ (e.Legible ρ ↔ e'.Legible ρ) := by
  have htree := tree_eq_of_symbols h
  constructor
  · rw [← e.eval_tree, htree, e'.eval_tree]
  · rw [← e.legible_tree, htree, e'.legible_tree]

/-! ### Expressions without names -/

namespace Expression

variable {π : Type} {r : Rank}

/-- The value of an expression that has no names. -/
def value (e : Expression π r) : Option Int := e.eval fun _ => none

/-- Where an expression without names has a value, none of its divisors is zero. -/
theorem divisor_ne_zero (e : Expression π r) {n : Int} (h : e.value = some n)
    {d : Expression π .product × Expression π .atom} (hd : d ∈ e.divisions) :
    d.2.value ≠ some 0 := by
  obtain ⟨k, hk, hne⟩ := exists_divisor h hd
  intro hzero
  exact hne (Option.some.inj (hk.symm.trans hzero))

/-- Every name of an expression stands among its symbols. -/
theorem exists_of_mem_names {r : Rank} {e : Expression (Option Location) r} {x : String}
    (h : x ∈ e.names) : ∃ place, ⟨.identifier, x, none, place⟩ ∈ e.symbols := by
  induction e with
  | literal text n place => cases h
  | name y place =>
    obtain rfl := List.mem_singleton.1 h
    exact ⟨place, List.mem_singleton.2 rfl⟩
  | group opening e closing ih =>
    obtain ⟨place, hplace⟩ := ih h
    exact ⟨place, by simp [symbols, hplace]⟩
  | ofAtom a ih => exact ih h
  | scaled p s place a ihp iha =>
    rcases List.mem_append.1 h with h | h
    · obtain ⟨place, hplace⟩ := ihp h
      exact ⟨place, by simp [symbols, hplace]⟩
    · obtain ⟨place, hplace⟩ := iha h
      exact ⟨place, by simp [symbols, hplace]⟩
  | ofProduct p ih => exact ih h
  | signed s place p ih =>
    obtain ⟨place, hplace⟩ := ih h
    exact ⟨place, by simp [symbols, hplace]⟩
  | summed e s place p ihe ihp =>
    rcases List.mem_append.1 h with h | h
    · obtain ⟨place, hplace⟩ := ihe h
      exact ⟨place, by simp [symbols, hplace]⟩
    · obtain ⟨place, hplace⟩ := ihp h
      exact ⟨place, by simp [symbols, hplace]⟩

/-- Tokens are no names. -/
theorem names_eq_nil {e : Expression (Option Location) r} (h : ∀ s ∈ e.symbols, IsToken s) :
    e.names = [] := by
  refine List.eq_nil_iff_forall_not_mem.2 fun x hx => ?_
  obtain ⟨place, hplace⟩ := exists_of_mem_names hx
  -- no form of a token is a name
  generalize hs : (⟨.identifier, x, none, place⟩ : Symbol) = s at hplace
  cases h s hplace with
  | literal text n place => cases hs
  | operator o place => cases hs
  | opening place => cases hs
  | closing place => cases hs

/-- The names in a division are names of the expression. -/
theorem names_division {e : Expression π r} {d : Expression π .product × Expression π .atom}
    (hd : d ∈ e.divisions) : ∀ x ∈ d.1.names ++ d.2.names, x ∈ e.names := by
  induction e with
  | literal _ _ _ => cases hd
  | name _ _ => cases hd
  | group _ e _ ih => exact ih hd
  | ofAtom a ih => exact ih hd
  | scaled p s _ a ihp iha =>
    intro x hx
    simp only [divisions, List.mem_append] at hd
    rcases hd with (hd | hd) | hd
    · exact List.mem_append_left _ (ihp hd x hx)
    · exact List.mem_append_right _ (iha hd x hx)
    · -- the division of this node itself, if its operator divides
      split at hd
      · obtain rfl := List.mem_singleton.1 hd
        exact hx
      · cases hd
  | ofProduct p ih => exact ih hd
  | signed _ _ p ih => exact ih hd
  | summed e _ _ p ihe ihp =>
    intro x hx
    rcases List.mem_append.1 hd with hd | hd
    · exact List.mem_append_left _ (ihe hd x hx)
    · exact List.mem_append_right _ (ihp hd x hx)

/-- Whether an expression is legible depends on the values of its names only. -/
theorem Legible.congr {ρ σ : String → Option Int} {e : Expression π r} (he : e.Legible σ)
    (h : ∀ x ∈ e.names, ρ x = σ x) : e.Legible ρ := by
  induction e with
  | literal _ _ _ => trivial
  | name _ _ => trivial
  | group _ e _ ih => exact ih he h
  | ofAtom a ih => exact ih he h
  | scaled p s _ a ihp iha =>
    have hp : ∀ x ∈ p.names, ρ x = σ x := fun x hx => h x (List.mem_append_left _ hx)
    have ha : ∀ x ∈ a.names, ρ x = σ x := fun x hx => h x (List.mem_append_right _ hx)
    refine ⟨ihp he.1 hp, iha he.2.1 ha, ?_⟩
    rw [p.eval_congr hp, a.eval_congr ha]
    exact he.2.2
  | ofProduct p ih => exact ih he h
  | signed s _ p ih =>
    refine ⟨ih he.1 h, ?_⟩
    rw [p.eval_congr h]
    exact he.2
  | summed e s _ p ihe ihp =>
    have he' : ∀ x ∈ e.names, ρ x = σ x := fun x hx => h x (List.mem_append_left _ hx)
    have hp : ∀ x ∈ p.names, ρ x = σ x := fun x hx => h x (List.mem_append_right _ hx)
    refine ⟨ihe he.1 he', ihp he.2.1 hp, ?_⟩
    rw [e.eval_congr he', p.eval_congr hp]
    exact he.2.2

end Expression

end RomAsm
