import RomAsm.Proofs.Settling

/-!
# What resolution leaves over

Once the rounds are over, what resolution comes to depends on what the definitions determine:

* `resolve_of_faulty` — a division by zero has been reported if there is one to be found;
* `resolve_of_not_faulty` — otherwise only the last check can still fail;
* `AtRest.undefinedNames_eq` — the names that the check complains of are the constants without a
  value, in their order, and then the names that nobody defines;
* `AtRest.location_mem` — what is left over stands where the program has something.
-/

namespace RomAsm

open Resolution

/-! ### Resolution, after the last round -/

/-- A table of numbers that can be written is logged without failure. -/
theorem recordTags_numbered {numbers : Table Int}
    (h : ∀ entry ∈ numbers, Numeral.isWritable entry.2 = true) :
    (recordTags (numbered numbers)).outcome = .ok () := by
  induction numbers with
  | nil => rfl
  | cons entry numbers ih =>
    have htext : valueText (some entry.2) = .ok (Numeral.decimal entry.2) := by
      rw [valueText, numeral_eq_ok (h entry List.mem_cons_self)]
    change (recordTags ((entry.1, some entry.2) :: numbered numbers)).outcome = _
    rw [recordTags]
    refine Trace.outcome_bind_eq_ok.2 ⟨_, htext, Trace.outcome_bind_eq_ok.2 ⟨(), rfl, ?_⟩⟩
    exact ih fun entry' hentry => h entry' (List.mem_cons_of_mem _ hentry)

section Clauses

variable {labels numbers : Table Int} {clauses : List Clause} {pieces : List Piece}

/-- No name is in the table twice. -/
theorem Reached.nodup_table (hnamed : WellNamed labels clauses)
    (h : Reached labels clauses numbers pieces) : numbers.names.Nodup := by
  obtain ⟨constants, rfl, hperm⟩ := h.table
  have hnodup := List.nodup_append.1 (hperm.nodup_iff.2 hnamed.distinct)
  rw [Table.names, List.map_append]
  refine List.nodup_append.2 ⟨hnamed.labelled, hnodup.1, ?_⟩
  rintro x hx y hy rfl
  -- a constant is not a label
  obtain ⟨d, hd, rfl⟩ := List.mem_map.1 (hperm.subset (List.mem_append_left _ hy))
  obtain ⟨n, hn⟩ := Table.exists_of_mem_names hx
  rw [hnamed.new d hd] at hn
  cases hn

/-- If a division is faulty, a division by zero is reported. -/
theorem resolve_of_faulty (hnamed : WellNamed labels clauses)
    (hwritable : AllWritable labels clauses)
    (hfaulty : Faulty labels (definitionsOf clauses) (expressionsOf clauses))
    (definitions : Table (Option Location)) :
    ∃ failure, (resolve ⟨flat (clauses.map Clause.piece), numbered labels, definitions⟩).outcome =
      .error failure ∧ ReportsDivision clauses failure := by
  rcases settle_clauses hnamed hwritable (.start hnamed) 0 definitions with
    ⟨failure, hsettle, -, hreports⟩ | ⟨_, _, _, _, -, hrest⟩
  · refine ⟨failure, ?_, hreports⟩
    rw [resolve, Trace.outcome_bind, hsettle]
    rfl
  · exact absurd hfaulty (hrest.not_faulty hnamed)

/-- Otherwise the rounds come to rest, and only the last check can still fail. -/
theorem resolve_of_not_faulty (hnamed : WellNamed labels clauses)
    (hwritable : AllWritable labels clauses)
    (hfaulty : ¬ Faulty labels (definitionsOf clauses) (expressionsOf clauses))
    (definitions : Table (Option Location)) :
    ∃ numbers pieces definitions', AtRest labels clauses numbers pieces ∧
      (resolve ⟨flat (clauses.map Clause.piece), numbered labels, definitions⟩).outcome =
        (check ⟨⟨flat pieces, numbered numbers, definitions'⟩, false,
          pieces.filterMap Piece.name?⟩).map
            fun _ => ⟨flat pieces, numbered numbers, definitions'⟩ := by
  rcases settle_clauses hnamed hwritable (.start hnamed) 0 definitions with
    ⟨_, -, h, -⟩ | ⟨rounds, numbers, pieces, definitions', hsettle, hrest⟩
  · exact absurd h hfaulty
  · refine ⟨numbers, pieces, definitions', hrest, ?_⟩
    -- all numbers are logged at the end, so they have to be written
    have hrecord : (recordTags (numbered numbers)).outcome = .ok () := by
      refine recordTags_numbered fun ⟨x, n⟩ hentry => ?_
      have hget := Table.get?_of_mem (hrest.nodup_table hnamed) hentry
      exact hwritable.values x n (hrest.sound x n hget)
    simp only [resolve, Trace.outcome_bind, hsettle, Trace.except_ok_bind, Trace.outcome_liftM,
      hrecord, Trace.outcome_pure]
    rfl

/-! ### Names that are left over -/

/-- Going through a list and taking each new member appends its new members, each once. -/
theorem foldl_append_new (known xs : List String) :
    xs.foldl (fun names x => if names.contains x then names else names ++ [x]) known =
      known ++ (xs.filter fun x => !known.contains x).eraseDups := by
  induction xs generalizing known with
  | nil => simp
  | cons x xs ih =>
    rw [List.foldl_cons]
    by_cases hx : known.contains x = true
    · rw [if_pos hx, ih, List.filter_cons_of_neg (by simpa using hx)]
    · -- a new member is taken, and from then on it is among the known ones
      rw [if_neg hx, ih, List.filter_cons_of_pos (by simpa using hx), List.eraseDups_cons,
        List.filter_filter, List.append_assoc, List.singleton_append]
      congr 4
      funext y
      simp only [List.contains_append, List.contains_cons, List.contains_nil, Bool.or_false,
        Bool.not_or]
      rw [Bool.and_comm]

/-- The names of a tree, in the order of its symbols. -/
theorem Tree.texts_filter (t : Tree) :
    (t.symbols.filter Symbol.isIdentifier).map (·.text) = t.names := by
  induction t with
  | literal _ _ _ => rfl
  | name _ _ => rfl
  | group opening t closing ih =>
    simp [symbols, names, ← ih, Symbol.isIdentifier, Symbol.ofOperator]
  | node opening l o place r closing ihl ihr =>
    simp [symbols, names, ← ihl, ← ihr, Symbol.isIdentifier, Symbol.ofOperator, Operator.symbol]

/-- The names that a piece defines or refers to. -/
def Piece.mentioned (p : Piece) : List String := p.name?.toList ++ (p.tree?.map Tree.names).getD []

/-- The names of a piece, that of a definition first. -/
theorem Piece.texts_filter (p : Piece) :
    (p.symbols.filter Symbol.isIdentifier).map (·.text) = p.mentioned := by
  cases p with
  -- an inert symbol is no name
  | plain s hs =>
    simp only [Symbol.isInert, Bool.and_eq_true, bne_iff_ne] at hs
    simp [symbols, mentioned, name?, tree?, Symbol.isIdentifier, hs.1]
  | operand t => exact t.texts_filter
  | definition name place equals t => exact congrArg (name :: ·) t.texts_filter

/-- All names of a stream. -/
theorem texts_filter_flat (pieces : List Piece) :
    ((flat pieces).filter Symbol.isIdentifier).map (·.text) = pieces.flatMap Piece.mentioned := by
  induction pieces with
  | nil => rfl
  | cons p pieces ih =>
    rw [flat, List.flatMap_cons, List.filter_append, List.map_append, List.flatMap_cons,
      p.texts_filter, ← ih]
    rfl

/-- The check complains of the pending names first, and then of each other name once. -/
theorem undefinedNames_eq (r : Round) :
    undefinedNames r = r.pending ++ (((r.program.symbols.filter Symbol.isIdentifier).map
      (·.text)).filter fun x => !r.pending.contains x).eraseDups := by
  rw [← foldl_append_new, List.foldl_map]
  rfl

/-- A name is left without a value exactly if it is no label and nobody defines it, or its
definition is pending. -/
theorem Reached.undefined_iff (h : Reached labels clauses numbers pieces) (x : String) :
    ((numbers.get? x).isNone && !(pieces.filterMap Piece.name?).contains x) =
      ((labels.get? x).isNone && !((definitionsOf clauses).map Definition.name).contains x) := by
  obtain ⟨constants, rfl, hperm⟩ := h.table
  have hmem := hperm.mem_iff (a := x)
  rw [List.mem_append] at hmem
  -- every definition has gone over to the table or is pending
  have hcontains : ((definitionsOf clauses).map Definition.name).contains x =
      (constants.names.contains x || (pieces.filterMap Piece.name?).contains x) := by
    rw [Bool.eq_iff_iff]
    simp only [Bool.or_eq_true, List.contains_iff_mem]
    exact hmem.symm
  -- being in the table of constants can be told by its names
  have hconstants : (constants.get? x).isNone = !constants.names.contains x := by
    by_cases hx : x ∈ constants.names
    · obtain ⟨n, hn⟩ := Table.exists_of_mem_names hx
      simp [hn, hx]
    · simp [Table.get?_eq_none hx, hx]
  rw [hcontains, Table.get?_append, Option.isNone_or, hconstants, Bool.not_or, Bool.and_assoc]

/-- Pieces define the names of their clauses. -/
theorem names_of_follows {ρ : String → Option Int}
    (h : List.Forall₂ (Clause.Follows ρ) clauses pieces) :
    pieces.filterMap Piece.name? = (definitionsOf clauses).map Definition.name := by
  induction h with
  | nil => rfl
  | cons hfollows _ ih =>
    cases hfollows with
    | plain _ _ => exact ih
    | operand _ _ _ => exact ih
    | definition d _ _ => exact congrArg (d.name :: ·) ih

/-- The definitions that are open are those without a number. -/
theorem definitionsOf_filter (numbers : Table Int) (clauses : List Clause) :
    definitionsOf (clauses.filter (Clause.isOpen numbers)) =
      (definitionsOf clauses).filter fun d => (numbers.get? d.name).isNone := by
  induction clauses with
  | nil => rfl
  | cons c clauses ih =>
    cases c with
    | plain _ _ => exact ih
    | operand _ => exact ih
    | definition d =>
      simp only [definitionsOf] at ih ⊢
      cases hd : numbers.get? d.name <;>
        simp [Clause.isOpen, Clause.definition?, hd, ih]

/-- The pending names are the constants without a number, in the order of their definitions. -/
theorem Reached.pending_eq (h : Reached labels clauses numbers pieces) :
    pieces.filterMap Piece.name? =
      ((definitionsOf clauses).map Definition.name).filter fun x => (numbers.get? x).isNone := by
  rw [names_of_follows h.follows, definitionsOf_filter, List.filter_map]
  rfl

/-- The names of the expression of a clause. -/
def Clause.names (c : Clause) : List String := (c.expression?.map Expression.names).getD []

/-- The names of some clauses are those of their expressions. -/
theorem flatMap_names (clauses : List Clause) :
    clauses.flatMap Clause.names = (expressionsOf clauses).flatMap Expression.names := by
  induction clauses with
  | nil => rfl
  | cons c clauses ih =>
    rw [List.flatMap_cons, ih]
    cases c <;> rfl

/-- The names that a piece leaves over are those that its clause leaves over. -/
theorem AtRest.mentioned_filter (h : AtRest labels clauses numbers pieces) {c : Clause} {p : Piece}
    (hp : p ∈ pieces) (hfollows : c.Follows numbers.get? p) :
    (p.mentioned.filter fun x => !(pieces.filterMap Piece.name?).contains x) =
      c.names.filter fun x => (numbers.get? x).isNone &&
        !(pieces.filterMap Piece.name?).contains x := by
  have htree {e : Expression (Option Location) .sum} {t : Tree}
      (ht : e.tree.refine numbers.get? = .ok t) :
      (t.names.filter fun x => !(pieces.filterMap Piece.name?).contains x) =
        e.names.filter fun x => (numbers.get? x).isNone &&
          !(pieces.filterMap Piece.name?).contains x := by
    -- refining drops the names that have a value and keeps the others in their order
    rw [Tree.names_refine ht, Expression.names_tree, List.filter_filter]
    congr 1
    funext x
    exact Bool.and_comm _ _
  cases hfollows with
  | plain _ _ => rfl
  | operand e t _ =>
    obtain ⟨_, htree?, ht⟩ := h.refine_expression hp (.operand e t ‹_›) rfl
    cases htree?
    exact htree ht
  | definition d t _ =>
    obtain ⟨_, htree?, ht⟩ := h.refine_expression hp (.definition d t ‹_›) rfl
    cases htree?
    -- the name of the constant itself is among those that are defined
    have hname : d.name ∈ pieces.filterMap Piece.name? := List.mem_filterMap.2 ⟨_, hp, rfl⟩
    change ((d.name :: t.names).filter _) = _
    rw [List.filter_cons_of_neg (by simpa using hname)]
    exact htree ht

/-- A definition that has gone over to the table leaves no name over. -/
theorem Reached.names_filter (h : Reached labels clauses numbers pieces) {c : Clause}
    (hc : c ∈ clauses) (hclosed : c.isOpen numbers = false) (q : String → Bool) :
    (c.names.filter fun x => (numbers.get? x).isNone && q x) = [] := by
  cases c with
  | plain _ _ => rfl
  | operand _ => cases hclosed
  | definition d =>
    have hd : d ∈ definitionsOf clauses := List.mem_filterMap.2 ⟨.definition d, hc, rfl⟩
    have hsome : (numbers.get? d.name).isNone = false := hclosed
    obtain ⟨n, hn⟩ := Option.isSome_iff_exists.1 (by simpa using hsome)
    refine List.filter_eq_nil_iff.2 fun x hx => ?_
    -- an expression that has a value has no names without one
    obtain ⟨m, hm⟩ := Expression.exists_of_eval (h.evaluated d hd n hn) x hx
    simp [hm]

/-- Piece by piece, the names that are left over are those of the clauses that are still open. -/
theorem AtRest.flatMap_mentioned (h : AtRest labels clauses numbers pieces) {cs : List Clause}
    {ps : List Piece} (hmem : ∀ p ∈ ps, p ∈ pieces)
    (hfollows : List.Forall₂ (Clause.Follows numbers.get?) cs ps) :
    ((ps.flatMap Piece.mentioned).filter fun x => !(pieces.filterMap Piece.name?).contains x) =
      (cs.flatMap Clause.names).filter fun x => (numbers.get? x).isNone &&
        !(pieces.filterMap Piece.name?).contains x := by
  -- along the pieces and their clauses
  induction hfollows with
  | nil => rfl
  | cons hfollow _ ih =>
    rw [List.flatMap_cons, List.flatMap_cons, List.filter_append, List.filter_append,
      h.mentioned_filter (hmem _ List.mem_cons_self) hfollow,
      ih fun p hp => hmem p (List.mem_cons_of_mem _ hp)]

/-- The clauses that are closed have none to add. -/
theorem Reached.flatMap_names_filter (h : Reached labels clauses numbers pieces)
    (q : String → Bool) {cs : List Clause} (hmem : ∀ c ∈ cs, c ∈ clauses) :
    (((cs.filter (Clause.isOpen numbers)).flatMap Clause.names).filter fun x =>
        (numbers.get? x).isNone && q x) =
      (cs.flatMap Clause.names).filter fun x => (numbers.get? x).isNone && q x := by
  induction cs with
  | nil => rfl
  | cons c cs ih =>
    have ih := ih fun c hc => hmem c (List.mem_cons_of_mem _ hc)
    cases hopen : c.isOpen numbers with
    | true =>
      rw [List.filter_cons_of_pos hopen, List.flatMap_cons, List.flatMap_cons, List.filter_append,
        List.filter_append, ih]
    -- a closed clause is dropped on one side and adds nothing on the other
    | false =>
      rw [List.filter_cons_of_neg (by simp [hopen]), ih, List.flatMap_cons, List.filter_append,
        h.names_filter (hmem c List.mem_cons_self) hopen, List.nil_append]

/-- Of the names that the pieces mention, those without a number that nobody defines are the same
as in the expressions of the program. -/
theorem AtRest.unknown_eq (h : AtRest labels clauses numbers pieces) :
    ((pieces.flatMap Piece.mentioned).filter fun x => !(pieces.filterMap Piece.name?).contains x) =
      (((expressionsOf clauses).flatMap Expression.names).filter fun x =>
        (labels.get? x).isNone && !((definitionsOf clauses).map Definition.name).contains x) := by
  rw [h.flatMap_mentioned (fun _ hp => hp) h.follows, h.flatMap_names_filter _ fun _ hc => hc,
    flatMap_names]
  congr 1
  funext x
  exact h.undefined_iff x

/-- **What is left over** at rest: the constants that have no value, in the order of their
definitions, and then each name that nobody defines, in the order of its first mention. -/
theorem AtRest.undefinedNames_eq (h : AtRest labels clauses numbers pieces) (progressed : Bool)
    (definitions : Table (Option Location)) :
    undefinedNames ⟨⟨flat pieces, numbered numbers, definitions⟩, progressed,
        pieces.filterMap Piece.name?⟩ =
      (((definitionsOf clauses).map Definition.name).filter fun x => (numbers.get? x).isNone) ++
        (((expressionsOf clauses).flatMap Expression.names).filter fun x =>
          (labels.get? x).isNone &&
            !((definitionsOf clauses).map Definition.name).contains x).eraseDups := by
  rw [RomAsm.undefinedNames_eq, texts_filter_flat, h.unknown_eq, ← h.pending_eq]

/-- Where every constant has a number, the table solves the definitions. -/
theorem AtRest.solves (h : AtRest labels clauses numbers pieces)
    (hclosed : ∀ d ∈ definitionsOf clauses, ∃ n, numbers.get? d.name = some n) :
    Solves labels (definitionsOf clauses) numbers.get? where
  labels := by
    obtain ⟨constants, rfl, -⟩ := h.table
    exact Table.extends_append _ _
  constants := by
    intro d hd
    obtain ⟨n, hn⟩ := hclosed d hd
    exact ⟨n, hn, h.evaluated d hd n hn⟩

end Clauses

/-! ### Where things stand -/

/-- All symbols of a tree stand at some of the given places. -/
def Tree.StandsIn (places : List (Option Location)) (t : Tree) : Prop :=
  ∀ s ∈ t.symbols, s.location ∈ places

namespace Tree

variable {places more : List (Option Location)} {opening place closing : Option Location}

theorem standsIn_literal {text : String} {n : Int} :
    (literal text n place).StandsIn places ↔ place ∈ places := List.forall_mem_singleton

theorem standsIn_name {x : String} : (name x place).StandsIn places ↔ place ∈ places :=
  List.forall_mem_singleton

/-- A group stands where its parentheses and its contents do. -/
theorem standsIn_group {t : Tree} : (group opening t closing).StandsIn places ↔
    opening ∈ places ∧ t.StandsIn places ∧ closing ∈ places := by
  simp only [StandsIn, symbols, List.forall_mem_cons, List.forall_mem_append, Symbol.ofOperator,
    List.not_mem_nil, false_imp_iff, implies_true, and_true]

/-- An operation stands where its operator, its operands and its parentheses do. -/
theorem standsIn_node {l r : Tree} {o : Operator} :
    (node opening l o place r closing).StandsIn places ↔
      opening ∈ places ∧ l.StandsIn places ∧ place ∈ places ∧ r.StandsIn places ∧
        closing ∈ places := by
  simp only [StandsIn, symbols, List.forall_mem_cons, List.forall_mem_append, Operator.symbol,
    Symbol.ofOperator, List.not_mem_nil, false_imp_iff, implies_true, and_true]

theorem StandsIn.mono {t : Tree} (h : t.StandsIn places) (hmore : places ⊆ more) :
    t.StandsIn more := fun s hs => hmore (h s hs)

/-- Refining a tree does not bring up new places. -/
theorem StandsIn.refine {ρ : String → Option Int} {t t' : Tree} (h : t.StandsIn places)
    (ht : t.refine ρ = .ok t') : t'.StandsIn places := by
  induction t generalizing t' with
  | literal text n place =>
    cases ht
    exact h
  | name x place =>
    cases ht
    rw [substitute]
    cases ρ x with
    | none => exact h
    | some n =>
      -- the number stands where the name stood
      exact standsIn_literal.2 (standsIn_name.1 h)
  | group opening t closing ih =>
    obtain ⟨hopening, hinner, hclosing⟩ := standsIn_group.1 h
    obtain ⟨u, hu, ht⟩ := Trace.except_bind_eq_ok.1 ht
    cases ht
    have hu := ih hinner hu
    -- a group around a number loses its parentheses
    cases hv : u.value? with
    | some n =>
      obtain ⟨text, place, rfl⟩ := eq_literal_of_value? hv
      exact hu
    | none =>
      rw [enclosed_eq_group hv]
      exact standsIn_group.2 ⟨hopening, hu, hclosing⟩
  | node opening l o place r closing ihl ihr =>
    obtain ⟨hopening, hl, hplace, hr, hclosing⟩ := standsIn_node.1 h
    obtain ⟨l', hl', ht⟩ := Trace.except_bind_eq_ok.1 ht
    obtain ⟨r', hr', ht⟩ := Trace.except_bind_eq_ok.1 ht
    have hl := ihl hl hl'
    rcases joined_cases ht with ⟨rfl, -⟩ | ⟨text, a, start, b, n, rfl, -, -, rfl⟩
    · exact standsIn_node.2 ⟨hopening, hl, hplace, ihr hr hr', hclosing⟩
    · -- a number stands where the number on its left stood
      exact standsIn_literal.2 (standsIn_literal.1 hl)

end Tree

/-- The tree of an expression stands where the expression does: parentheses that are put in, and the
zero in front of a sign, stand where the operator stands. -/
theorem Expression.standsIn_tree {r : Rank} (e : Expression (Option Location) r) :
    e.tree.StandsIn (e.symbols.map Symbol.location) := by
  induction e with
  | literal _ _ _ => exact Tree.standsIn_literal.2 List.mem_cons_self
  | name _ _ => exact Tree.standsIn_name.2 List.mem_cons_self
  | group opening e closing ih =>
    refine Tree.standsIn_group.2 ⟨List.mem_cons_self, ih.mono ?_, ?_⟩
    · simp [symbols]
    · simp [symbols, Symbol.ofOperator]
  | ofAtom a ih => exact ih
  -- the parentheses that grouping puts in stand where the operator does
  | scaled p o place a ihp iha =>
    have hplace : place ∈ (scaled p o place a).symbols.map Symbol.location := by
      simp [symbols, Operator.symbol, Symbol.ofOperator]
    refine Tree.standsIn_node.2 ⟨hplace, ihp.mono ?_, hplace, iha.mono ?_, hplace⟩
    · simp [symbols]
    · simp [symbols]
  | ofProduct p ih => exact ih
  | signed o place p ih =>
    have hplace : place ∈ (signed o place p).symbols.map Symbol.location := List.mem_cons_self
    refine Tree.standsIn_node.2 ⟨hplace, ?_, hplace, ih.mono ?_, hplace⟩
    · exact Tree.standsIn_literal.2 hplace
    · exact List.subset_cons_self _ _
  | summed e o place p ihe ihp =>
    have hplace : place ∈ (summed e o place p).symbols.map Symbol.location := by
      simp [symbols, Operator.symbol, Symbol.ofOperator]
    refine Tree.standsIn_node.2 ⟨hplace, ihe.mono ?_, hplace, ihp.mono ?_, hplace⟩
    · simp [symbols]
    · simp [symbols]

/-- What is left over stands at places of the program. -/
theorem AtRest.location_mem {labels numbers : Table Int} {clauses : List Clause}
    {pieces : List Piece} (h : AtRest labels clauses numbers pieces) {s : Symbol}
    (hs : s ∈ flat pieces) : ∃ c ∈ clauses, s.location ∈ c.symbols.map Symbol.location := by
  obtain ⟨p, hp, hs⟩ := List.mem_flatMap.1 hs
  obtain ⟨c, hc, -, hfollows⟩ := h.clause_of_mem hp
  refine ⟨c, hc, ?_⟩
  -- what is left of an expression stands where the expression stands
  have htree {e : Expression (Option Location) .sum} {t : Tree}
      (ht : e.tree.refine numbers.get? = .ok t) (hs : s ∈ t.symbols) :
      s.location ∈ e.symbols.map Symbol.location :=
    e.standsIn_tree.refine ht s hs
  cases hfollows with
  | plain s' hs' => exact List.mem_map_of_mem hs
  | operand e t hsame =>
    obtain ⟨_, htree?, ht⟩ := h.refine_expression hp (.operand e t hsame) rfl
    cases htree?
    exact htree ht hs
  | definition d t hsame =>
    obtain ⟨_, htree?, ht⟩ := h.refine_expression hp (.definition d t hsame) rfl
    cases htree?
    rcases List.mem_cons.1 hs with rfl | hs
    · exact List.mem_cons_self
    · rcases List.mem_cons.1 hs with rfl | hs
      · exact List.mem_cons_of_mem _ List.mem_cons_self
      · exact List.mem_cons_of_mem _ (List.mem_cons_of_mem _ (htree ht hs))

end RomAsm
