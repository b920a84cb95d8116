import RomAsm.Proofs.Leftovers
import RomAsm.Proofs.Placement

/-!
# Well-formed programs

A program is well-formed if no name is defined twice, every expression has a value, no `.org` takes
the address back and all numbers that are written on the way can be written. None of this depends on
where the tokens of the program stand (`WellFormed.of_relocate`).

To the rounds of resolution a program is the list of its clauses. An element is one clause if it
defines a constant, and otherwise a clause for each of its parts (`Element.clauses`); labels have
gone by then. What well-formedness says of a program is said here of its clauses, in the terms in
which resolution is described: no name is taken (`WellFormed.wellNamed`), all numbers can be written
(`WellFormed.allWritable`), and no division is faulty (`WellFormed.not_faulty`).
-/

namespace RomAsm

/-! ### Programs -/

section Programs

variable {π π' : Type}

/-- The definitions of a program. -/
def definitionsIn (xs : List (Element.Source π)) : List (Definition π) :=
  xs.filterMap Element.definition?

/-- A program that can be translated. -/
structure WellFormed (xs : List (Element.Source π)) : Prop where
  /-- No name is defined twice. -/
  distinct : ((labelsFrom 0 xs).names ++ (definitionsIn xs).map Definition.name).Nodup
  /-- Every constant and every operand has a value. -/
  valued : ∀ x ∈ xs, ∀ e ∈ x.operand?, ∃ ρ n,
    Sound (labelsFrom 0 xs) (definitionsIn xs) ρ ∧ e.eval ρ = some n
  /-- No `.org` takes the address back. -/
  forward : Throughout Element.Forward 0 xs
  /-- What comes up when an expression is evaluated can be written. -/
  legible : ∀ x ∈ xs, ∀ e ∈ x.operand?, ∀ ρ, Sound (labelsFrom 0 xs) (definitionsIn xs) ρ →
    e.Legible ρ ∧ ∀ n, e.eval ρ = some n → Numeral.isWritable n = true
  /-- The address behind the program can be written. -/
  bounded : Numeral.isWritable (extent 0 xs : Nat) = true

/-- The constants of a program with other places are its constants with other places. -/
theorem definitionsIn_relocate (f : π → π') (xs : List (Element.Source π)) :
    definitionsIn (xs.map (Element.relocate f)) =
      (definitionsIn xs).map (Definition.relocate f) := by
  rw [definitionsIn, definitionsIn, List.filterMap_map, List.map_filterMap]
  refine List.filterMap_congr fun x _ => ?_
  exact x.definition?_relocate f

/-- Whether a program is well-formed does not depend on where its tokens stand. -/
theorem WellFormed.of_relocate {f : π → π'} {xs : List (Element.Source π)}
    (h : WellFormed (xs.map (Element.relocate f))) : WellFormed xs := by
  obtain ⟨hdistinct, hvalued, hforward, hlegible, hbounded⟩ := h
  have hlabels : labelsFrom 0 (xs.map (Element.relocate f)) = labelsFrom 0 xs :=
    labelsFrom_map f (Expression.relocate f) 0 xs
  -- an operand is moved along with its element
  have hmem {x : Element.Source π} {e : Expression π .sum} (he : e ∈ x.operand?) :
      e.relocate f ∈ (x.relocate f).operand? := by
    rw [Element.relocate, x.operand?_map, Option.mem_def, Option.mem_def.1 he]
    rfl
  rw [hlabels, definitionsIn_relocate] at hdistinct hvalued hlegible
  constructor
  case distinct =>
    rw [List.map_map] at hdistinct
    exact hdistinct
  case valued =>
    intro x hx e he
    obtain ⟨ρ, n, hρ, hn⟩ := hvalued _ (List.mem_map_of_mem hx) _ (hmem he)
    rw [Expression.eval_relocate] at hn
    exact ⟨ρ, n, (sound_relocate f).1 hρ, hn⟩
  case forward => exact (throughout_map fun x address => x.forward_map f _ address).1 hforward
  case legible =>
    intro x hx e he ρ hρ
    have h := hlegible _ (List.mem_map_of_mem hx) _ (hmem he) ρ ((sound_relocate f).2 hρ)
    rwa [Expression.legible_relocate, Expression.eval_relocate] at h
  case bounded =>
    have hextent : extent 0 (xs.map (Element.relocate f)) = extent 0 xs :=
      extent_map f (Expression.relocate f) 0 xs
    rwa [hextent] at hbounded

/-- To see that a program is well-formed, it is enough to know the values of its names. -/
theorem WellFormed.of_solves {xs : List (Element.Source π)} {ρ : String → Option Int}
    (hdistinct : ((labelsFrom 0 xs).names ++ (definitionsIn xs).map Definition.name).Nodup)
    (hforward : Throughout Element.Forward 0 xs)
    (hbounded : Numeral.isWritable (extent 0 xs : Nat) = true)
    (hsound : Sound (labelsFrom 0 xs) (definitionsIn xs) ρ)
    (hsolves : Solves (labelsFrom 0 xs) (definitionsIn xs) ρ)
    (hvalue : ∀ x ∈ xs, ∀ e ∈ x.operand?, e.Legible ρ ∧
      ∃ n, e.eval ρ = some n ∧ Numeral.isWritable n = true) : WellFormed xs where
  distinct := hdistinct
  forward := hforward
  bounded := hbounded
  valued x hx e he := by
    obtain ⟨-, n, hn, -⟩ := hvalue x hx e he
    exact ⟨ρ, n, hsound, hn⟩
  legible x hx e he σ hσ := by
    -- every sound assignment is a part of the given one, so it can find nothing else
    have hextends : Extends σ ρ := fun y m hy => hsolves.eq_of_hasValue (hσ y m hy)
    obtain ⟨hlegible, n, hn, hwritable⟩ := hvalue x hx e he
    refine ⟨hlegible.of_extends hextends, fun m hm => ?_⟩
    obtain rfl : m = n := Option.some.inj ((Expression.eval_mono hextends hm).symm.trans hn)
    exact hwritable

/-- The address never falls along a program. -/
theorem le_extent (address : Nat) (xs : List (Element.Source π)) : address ≤ extent address xs := by
  induction xs generalizing address with
  | nil => exact Nat.le_refl _
  | cons x xs ih => exact Nat.le_trans (Nat.le_add_right _ _) (ih _)

/-- The address of a label can be written. -/
theorem WellFormed.isWritable_label {xs : List (Element.Source π)} (h : WellFormed xs)
    {entry : String × Int} (hentry : entry ∈ labelsFrom 0 xs) :
    Numeral.isWritable entry.2 = true := by
  obtain ⟨before, place, colon, after, rfl, hn⟩ := mem_labelsFrom.1 hentry
  have hbounded := h.bounded
  -- the label stands in front of the end, whose address can be written
  rw [extent_append] at hbounded
  rw [hn]
  exact Numeral.isWritable_of_le hbounded (le_extent _ _)

end Programs

/-! ### Parts -/

/-- What a statement is written with, apart from its operand, takes no part in resolution: it is
neither a name nor an operator. -/
theorem Element.isInert_of_mem_parts {ε : Type} {x : Element (Option Location) ε}
    (hx : x.isStatement = true) {s : Symbol} (hs : .inl s ∈ x.parts) : s.isInert = true := by
  cases x with
  | label _ _ _ => cases hx
  | constant _ _ _ _ => cases hx
  | instruction i a h place =>
    -- the mnemonic itself, then what stands for its operand
    rcases List.mem_cons.1 hs with hs | hs
    · cases hs
      rfl
    · cases a with
      | absent => cases hs
      -- a marker is of one of two kinds, by its mode
      | marker text mode hmode mark =>
        cases List.mem_singleton.1 hs
        by_cases hstack : mode = .stack
        · rw [if_pos hstack]
          rfl
        · rw [if_neg hstack]
          rfl
      | immediate mark e =>
        rcases List.mem_cons.1 hs with hs | hs
        · cases hs
          rfl
        · cases List.mem_singleton.1 hs
      | direct e => cases List.mem_singleton.1 hs
  | byte _ _ | reserve _ _ _ | origin _ _ _ | string _ _ _ | data _ _ _ =>
    simp only [parts, List.mem_cons, List.not_mem_nil, or_false, Sum.inl.injEq, reduceCtorEq] at hs
    rcases hs with rfl | rfl <;> rfl

/-- Its operand is the one part that does. -/
theorem Element.inr_mem_parts {ε : Type} {x : Element (Option Location) ε} {e : ε} :
    .inr e ∈ x.parts ↔ e ∈ x.operand? := by
  cases x with
  | instruction i a h place =>
    cases a <;> simp [parts, Argument.parts, operand?, Argument.operand?, eq_comm]
  | _ => simp [parts, operand?, eq_comm]

/-! ### Clauses -/

/-- The clause of a part. -/
def Clause.ofPart : Symbol ⊕ Expression (Option Location) .sum → List Clause
  | .inl s => if h : s.isInert = true then [.plain s h] else []
  | .inr e => [.operand e]

/-- The clauses of an element. -/
def Element.clauses : Element.Source (Option Location) → List Clause
  | label _ _ _ => []
  | constant name place equals e => [.definition ⟨name, place, equals, e⟩]
  | x => x.parts.flatMap Clause.ofPart

/-- A clause that a part gives is a symbol that stays, or the operand. -/
theorem Clause.cases_of_mem_ofPart {c : Clause}
    {part : Symbol ⊕ Expression (Option Location) .sum} (h : c ∈ ofPart part) :
    (∃ s hs, c = .plain s hs) ∨ ∃ e, part = .inr e ∧ c = .operand e := by
  cases part with
  | inl s =>
    by_cases hs : s.isInert = true
    · rw [ofPart, dif_pos hs] at h
      exact .inl ⟨s, hs, List.mem_singleton.1 h⟩
    · rw [ofPart, dif_neg hs] at h
      cases h
  | inr e => exact .inr ⟨e, rfl, List.mem_singleton.1 h⟩

namespace Element

/-- The clauses of a statement are those of its parts. -/
theorem clauses_of_isStatement {x : Element.Source (Option Location)} (h : x.isStatement = true) :
    x.clauses = x.parts.flatMap Clause.ofPart := by
  cases x <;> first | rfl | cases h

/-- The definitions among the clauses of an element: itself if it is a constant, and none
otherwise. -/
theorem clause_of_definition? {x : Element.Source (Option Location)} :
    x.clauses.filterMap Clause.definition? = x.definition?.toList := by
  by_cases hx : x.isStatement = true
  · have hnone : x.definition? = none := by
      cases x <;> first | rfl | cases hx
    rw [clauses_of_isStatement hx, hnone]
    -- neither a symbol that stays nor an operand is a definition
    refine List.filterMap_eq_nil_iff.2 fun c hc => ?_
    obtain ⟨part, -, hc⟩ := List.mem_flatMap.1 hc
    rcases Clause.cases_of_mem_ofPart hc with ⟨s, hs, rfl⟩ | ⟨e, -, rfl⟩
    · rfl
    · rfl
  · cases x <;> first | rfl | exact absurd rfl hx

/-- Every expression among the clauses of an element is its operand. -/
theorem operand?_of_mem_clauses {x : Element.Source (Option Location)} {c : Clause}
    (hc : c ∈ x.clauses) {e : Expression (Option Location) .sum} (he : c.expression? = some e) :
    e ∈ x.operand? := by
  by_cases hx : x.isStatement = true
  · rw [clauses_of_isStatement hx] at hc
    obtain ⟨part, hpart, hc⟩ := List.mem_flatMap.1 hc
    rcases Clause.cases_of_mem_ofPart hc with ⟨s, hs, rfl⟩ | ⟨e', rfl, rfl⟩
    · cases he
    · cases he
      exact inr_mem_parts.1 hpart
  · cases x with
    | label _ _ _ => cases hc
    | constant _ _ _ _ =>
      rw [List.mem_singleton.1 hc] at he
      exact he
    | _ => exact absurd rfl hx

/-- And the operand of a statement is a clause of its own. -/
theorem operand_mem_clauses {x : Element.Source (Option Location)} (hx : x.isStatement = true)
    {e : Expression (Option Location) .sum} (he : e ∈ x.operand?) : .operand e ∈ x.clauses := by
  rw [clauses_of_isStatement hx]
  exact List.mem_flatMap.2 ⟨.inr e, inr_mem_parts.2 he, List.mem_cons_self⟩

/-- The symbols of an element are those of its clauses, however its operand is written. -/
theorem flatMap_clauses {x : Element.Source (Option Location)} (hx : x.isLabel = false)
    {f : Clause → List Symbol} {write : Expression (Option Location) .sum → List Symbol}
    (hplain : ∀ s h, f (.plain s h) = [s]) (hoperand : ∀ e, f (.operand e) = write e)
    (hdefinition : ∀ d, f (.definition d) =
      ⟨.identifier, d.name, none, d.place⟩ :: .ofOperator "=" d.equals :: write d.expression) :
    x.clauses.flatMap f = x.symbols write := by
  -- a statement is spelled part by part, a definition as a whole
  by_cases hstatement : x.isStatement = true
  · rw [clauses_of_isStatement hstatement, List.flatMap_assoc, symbols, spread]
    refine List.flatMap_congr fun part hpart => ?_
    cases part with
    | inl s =>
      rw [Clause.ofPart, dif_pos (isInert_of_mem_parts hstatement hpart), List.flatMap_singleton,
        hplain]
      rfl
    | inr e =>
      rw [Clause.ofPart, List.flatMap_singleton, hoperand]
      rfl
  · cases x with
    | label _ _ _ => cases hx
    | constant name place equals e =>
      rw [clauses, List.flatMap_singleton, hdefinition]
      exact congrArg (_ :: _ :: ·) (List.append_nil _).symm
    | _ => exact absurd rfl hstatement

end Element

section Clauses

variable {xs : List (Element.Source (Option Location))}

/-- The definitions that resolution sees are the constants of the program. -/
theorem definitionsOf_clauses (xs : List (Element.Source (Option Location))) :
    definitionsOf (xs.flatMap Element.clauses) = definitionsIn xs := by
  induction xs with
  | nil => rfl
  | cons x xs ih =>
    rw [definitionsOf] at ih
    rw [List.flatMap_cons, definitionsOf, List.filterMap_append, ih, definitionsIn, definitionsIn,
      List.filterMap_cons, Element.clause_of_definition?]
    cases x.definition? <;> rfl

/-- The expressions that it sees are the operands of the program, constants included. -/
theorem exists_of_mem_expressionsOf {e : Expression (Option Location) .sum}
    (he : e ∈ expressionsOf (xs.flatMap Element.clauses)) : ∃ x ∈ xs, e ∈ x.operand? := by
  obtain ⟨c, hc, he⟩ := List.mem_filterMap.1 he
  obtain ⟨x, hx, hc⟩ := List.mem_flatMap.1 hc
  exact ⟨x, hx, Element.operand?_of_mem_clauses hc he⟩

/-! ### What is known of a well-formed program -/

namespace WellFormed

/-- **No name is taken twice** among labels and definitions. -/
theorem wellNamed (h : WellFormed xs) :
    WellNamed (labelsFrom 0 xs) (xs.flatMap Element.clauses) := by
  -- labels and constants are distinct among themselves and from each other
  obtain ⟨hlabels, hconstants, hdisjoint⟩ := List.nodup_append.1 h.distinct
  refine ⟨hlabels, by rw [definitionsOf_clauses]; exact hconstants, fun d hd => ?_⟩
  rw [definitionsOf_clauses] at hd
  refine Table.get?_eq_none fun hlabel => ?_
  exact hdisjoint d.name hlabel d.name (List.mem_map_of_mem hd) rfl

/-- The expression of a constant is its operand. -/
theorem exists_of_mem_definitionsIn {π : Type} {xs : List (Element.Source π)} {d : Definition π}
    (hd : d ∈ definitionsIn xs) : ∃ x ∈ xs, d.expression ∈ x.operand? := by
  obtain ⟨x, hx, hdef⟩ := List.mem_filterMap.1 hd
  refine ⟨x, hx, ?_⟩
  cases x <;> cases hdef
  rfl

/-- **All numbers can be written** that come up while the clauses are resolved. -/
theorem allWritable (h : WellFormed xs) :
    AllWritable (labelsFrom 0 xs) (xs.flatMap Element.clauses) := by
  constructor
  case values =>
    rw [definitionsOf_clauses]
    intro x n hx
    cases hx with
    | label hlabel => exact h.isWritable_label (Table.mem_of_get? hlabel)
    -- a constant takes the value of its expression, which is legible
    | constant hd hρ heval =>
      obtain ⟨y, hy, he⟩ := exists_of_mem_definitionsIn hd
      exact (h.legible y hy _ he _ hρ).2 n heval
  case legible =>
    rw [definitionsOf_clauses]
    intro e he ρ hρ
    obtain ⟨x, hx, he⟩ := exists_of_mem_expressionsOf he
    exact (h.legible x hx e he ρ hρ).1

/-- Every constant of a well-formed program is determined. -/
theorem determined {π : Type} {xs : List (Element.Source π)} (h : WellFormed xs)
    {d : Definition π} (hd : d ∈ definitionsIn xs) :
    Determined (labelsFrom 0 xs) (definitionsIn xs) d.name := by
  obtain ⟨x, hx, he⟩ := exists_of_mem_definitionsIn hd
  obtain ⟨ρ, n, hρ, hn⟩ := h.valued x hx _ he
  -- a value of the expression needs values of all its names
  refine .constant hd fun y hy => ?_
  obtain ⟨m, hm⟩ := Expression.exists_of_eval hn y hy
  exact (hρ y m hm).determined

/-- **No division is faulty.** Every operand of the program has a value, so each divisor in it has
one that is not zero. A sound assignment under which it is zero would give some name another
value. -/
theorem not_faulty (h : WellFormed xs) : ¬ Faulty (labelsFrom 0 xs)
    (definitionsOf (xs.flatMap Element.clauses)) (expressionsOf (xs.flatMap Element.clauses)) := by
  have hunique := fun {x : String} {m n : Int} =>
    HasValue.unique (x := x) (m := m) (n := n) h.wellNamed.distinct h.wellNamed.new
  rw [definitionsOf_clauses] at hunique ⊢
  rintro ⟨e, he, d, hd, -, ρ, hρ, hzero⟩
  obtain ⟨x, hx, he⟩ := exists_of_mem_expressionsOf he
  obtain ⟨σ, n, hσ, hn⟩ := h.valued x hx e he
  obtain ⟨k, hk, hne⟩ := Expression.exists_divisor hn hd
  -- the divisor has one value, which cannot be zero
  have hcongr : d.2.eval ρ = d.2.eval σ := by
    refine d.2.eval_congr fun y hy => ?_
    obtain ⟨a, ha⟩ := Expression.exists_of_eval hzero y hy
    obtain ⟨b, hb⟩ := Expression.exists_of_eval hk y hy
    rw [ha, hb, hunique (hρ y a ha) (hσ y b hb)]
  rw [hcongr, hk] at hzero
  exact hne (Option.some.inj hzero)

end WellFormed

end Clauses

end RomAsm
