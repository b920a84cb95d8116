import RomAsm.Assembler
import RomAsm.Proofs.Emission
import RomAsm.Proofs.WellFormed

/-!
# Assembling well-formed programs

The phases of the assembler work on one flat stream of symbols, and each of them has to find out for
itself where an element ends. Here they are put together. A program is read (`exists_read`), grouped
(`grouped_elements`), laid out (`place_elements`), resolved (`resolve_elements`) and encoded
(`encode_elements`), and at each of these points the stream is the one that the elements of the
program are written as, with their operands in another form: expressions, then trees, then numbers.

`assemble_wellFormed` is the result. A well-formed program is assembled: its labels are given the
addresses where they stand, its constants have the values of their expressions, and the code is what
the elements stand for, as long as no run of zeros is longer than a run of bytes can be.
-/

namespace RomAsm

open Resolution

/-! ### Grouping -/

/-- An element with other operands is written with those. -/
theorem Element.symbols_map {ε ε' : Type} (g : ε → ε') (write : ε' → List Symbol)
    (x : Element (Option Location) ε) :
    (x.map id g).symbols write = x.symbols fun e => write (g e) := by
  cases x with
  -- of the elements, only an instruction has operands in more than one form
  | instruction i a h place => cases a <;> rfl
  | _ => rfl

/-- The parts of an element as chunks. -/
def Element.chunks (x : Element.Source (Option Location)) : List Chunk :=
  x.parts.map (Sum.elim Chunk.plain Chunk.expression)

/-- The parts of an element are written one after the other. -/
theorem Element.flatMap_chunks (x : Element.Source (Option Location)) {f : Chunk → List Symbol}
    {write : Expression (Option Location) .sum → List Symbol} (hplain : ∀ s, f (.plain s) = [s])
    (hexpression : ∀ e, f (.expression e) = write e) :
    x.chunks.flatMap f = x.symbols write := by
  rw [chunks, List.flatMap_map, symbols, spread]
  refine List.flatMap_congr fun part _ => ?_
  cases part with
  | inl s => exact hplain s
  | inr e => exact hexpression e

/-- The expressions of a program stand where expressions begin, whatever is before it. -/
theorem placed_elements (xs : List (Element.Source (Option Location))) (begins : Bool) :
    Chunk.Placed begins (xs.flatMap Element.chunks) := by
  induction xs generalizing begins with
  | nil => exact trivial
  | cons x xs ih =>
    rw [List.flatMap_cons]
    cases x with
    | instruction i a h place =>
      cases a with
      | absent => exact ⟨rfl, ih _⟩
      | marker text mode hmode mark =>
        -- a marker has one of two kinds, and neither is arithmetic
        refine ⟨rfl, ?_, ih _⟩
        by_cases hstack : mode = .stack
        · rw [if_pos hstack]
          rfl
        · rw [if_neg hstack]
          rfl
      | immediate mark e => exact ⟨rfl, rfl, rfl, ih _⟩
      | direct e => exact ⟨rfl, rfl, ih _⟩
    | label name place colon => exact ⟨rfl, rfl, ih _⟩
    | constant name place equals e => exact ⟨rfl, rfl, rfl, ih _⟩
    | byte place e => exact ⟨rfl, rfl, ih _⟩
    | reserve place n behind => exact ⟨rfl, rfl, ih _⟩
    | origin place n behind => exact ⟨rfl, rfl, ih _⟩
    | string place letters behind => exact ⟨rfl, rfl, ih _⟩
    | data place n behind => exact ⟨rfl, rfl, ih _⟩

/-- Grouping a program turns its expressions into trees. -/
theorem grouped_elements (xs : List (Element.Source (Option Location))) :
    Grouping.grouped (xs.flatMap Element.written) =
      (xs.map (Element.map id Expression.tree)).flatMap (Element.symbols Tree.symbols) := by
  -- a program is written as its chunks are, and grouping is known for those
  have hwritten :
      xs.flatMap Element.written = (xs.flatMap Element.chunks).flatMap Chunk.written := by
    rw [List.flatMap_assoc]
    refine List.flatMap_congr fun x _ => ?_
    have hchunks : x.chunks.flatMap Chunk.written = x.symbols Expression.symbols :=
      x.flatMap_chunks (fun _ => rfl) fun _ => rfl
    exact hchunks.symm
  rw [hwritten, grouped_written (placed_elements xs true), List.flatMap_assoc, List.flatMap_map]
  refine List.flatMap_congr fun x _ => ?_
  rw [x.symbols_map]
  exact x.flatMap_chunks (fun _ => rfl) fun _ => rfl

/-- Without its labels, a grouped program is what resolution takes its clauses for. -/
theorem unlabelled_elements (xs : List (Element.Source (Option Location))) :
    (unlabelled (xs.map (Element.map id Expression.tree))).flatMap (Element.symbols Tree.symbols) =
      flat ((xs.flatMap Element.clauses).map Clause.piece) := by
  induction xs with
  | nil => rfl
  | cons x xs ih =>
    rw [unlabelled] at ih
    -- other operands make no label of an element
    have hlabel : (x.map id Expression.tree).isLabel = x.isLabel := by cases x <;> rfl
    rw [List.map_cons, List.flatMap_cons, List.map_append, flat, List.flatMap_append, ← flat,
      ← flat, ← ih, unlabelled]
    -- a label is dropped on both sides, any other element is written by its clauses
    cases hx : x.isLabel with
    | true =>
      rw [List.filter_cons_of_neg (by rw [hlabel, hx]; exact Bool.false_ne_true)]
      cases x with
      | label _ _ _ => rfl
      | _ => cases hx
    | false =>
      have hpieces : flat (x.clauses.map Clause.piece) = x.symbols fun e => e.tree.symbols := by
        rw [flat, List.flatMap_map]
        exact Element.flatMap_clauses hx (fun _ _ => rfl) (fun _ => rfl) fun _ => rfl
      rw [List.filter_cons_of_pos (by rw [hlabel, hx]; rfl), List.flatMap_cons, x.symbols_map,
        hpieces]

/-! ### Resolution -/

/-- What is left of an expression when the values of names have been put in. -/
def Expression.settled (ρ : String → Option Int) (e : Expression (Option Location) .sum) : Tree :=
  match e.tree.refine ρ with
  | .ok t => t
  | .error _ => e.tree

/-- What is left is the result of refining, if there is no division by zero. -/
theorem Expression.settled_eq {ρ : String → Option Int} {e : Expression (Option Location) .sum}
    {t : Tree} (h : e.tree.refine ρ = .ok t) : e.settled ρ = t := by
  rw [settled, h]

/-- What is left of a clause when the values of names have been put in. -/
def Clause.settled (ρ : String → Option Int) : Clause → Piece
  | plain s h => .plain s h
  | operand e => .operand (e.settled ρ)
  | definition d => .definition d.name d.place d.equals (d.expression.settled ρ)

section Rest

variable {labels numbers : Table Int} {clauses : List Clause} {pieces : List Piece}

/-- At rest a piece is what is left of the clause that it follows. -/
theorem AtRest.eq_settled (h : AtRest labels clauses numbers pieces) {c : Clause} {p : Piece}
    (hp : p ∈ pieces) (hfollows : c.Follows numbers.get? p) : p = c.settled numbers.get? := by
  cases hfollows with
  | plain s hs => rfl
  | operand e t hsame =>
    obtain ⟨_, htree, ht⟩ := h.refine_expression hp (.operand e t hsame) rfl
    cases htree
    rw [Clause.settled, Expression.settled_eq ht]
  | definition d t hsame =>
    obtain ⟨_, htree, ht⟩ := h.refine_expression hp (.definition d t hsame) rfl
    cases htree
    rw [Clause.settled, Expression.settled_eq ht]

/-- **At rest** the pieces are what is left of the open clauses. -/
theorem AtRest.pieces_eq (h : AtRest labels clauses numbers pieces) :
    pieces = (clauses.filter (Clause.isOpen numbers)).map (Clause.settled numbers.get?) := by
  have hsettled := fun c p hp => h.eq_settled (c := c) (p := p) hp
  have hfollows := h.follows
  -- along the pieces and their clauses, with what is known of each piece
  generalize clauses.filter (Clause.isOpen numbers) = cs at hfollows
  clear h
  induction hfollows with
  | nil => rfl
  | @cons c p cs ps hfollow _ ih =>
    rw [List.map_cons, ← hsettled c p List.mem_cons_self hfollow,
      ← ih fun c p hp => hsettled c p (List.mem_cons_of_mem _ hp)]

/-- A round that leaves nothing but inert symbols passes the last check. -/
theorem check_of_isInert {r : Round} (hpending : r.pending = [])
    (h : ∀ s ∈ r.program.symbols, s.isInert = true) : check r = .ok () := by
  -- neither a name nor an operator is left to report
  have hkinds : ∀ s ∈ r.program.symbols, s.kind ≠ .identifier ∧ s.kind ≠ .operator := by
    intro s hs
    have hinert := h s hs
    rw [Symbol.isInert, Bool.and_eq_true, bne_iff_ne, bne_iff_ne] at hinert
    exact hinert
  have hidentifiers : r.program.symbols.filter Symbol.isIdentifier = [] := by
    refine List.filter_eq_nil_iff.2 fun s hs hname => ?_
    exact (hkinds s hs).1 (beq_iff_eq.1 hname)
  have hnames : undefinedNames r = [] := by
    rw [undefinedNames_eq, hpending, hidentifiers]
    rfl
  have hoperators : r.program.symbols.find? (·.kind == .operator) = none := by
    refine List.find?_eq_none.2 fun s hs hoperator => ?_
    exact (hkinds s hs).2 (beq_iff_eq.1 hoperator)
  unfold check
  rw [hnames]
  dsimp only
  rw [hoperators]

end Rest

section Resolved

variable {xs : List (Element.Source (Option Location))} {numbers : Table Int} {pieces : List Piece}

/-- The statements of a program with the values of their operands put in. -/
def statementsOf (numbers : Table Int) (xs : List (Element.Source (Option Location))) :
    List (Element (Option Location) Tree) :=
  (xs.filter Element.isStatement).map (Element.map id (Expression.settled numbers.get?))

/-- Origins lie ahead in what is left exactly if they do in the program. -/
theorem forward_statementsOf :
    Throughout Element.Forward 0 (statementsOf numbers xs) ↔ Throughout Element.Forward 0 xs :=
  (throughout_map fun x address => x.forward_map _ _ address).trans
    (throughout_filter_isStatement Element.forward_of_not_isStatement)

theorem feasible_statementsOf :
    Throughout Element.Feasible 0 (statementsOf numbers xs) ↔ Throughout Element.Feasible 0 xs :=
  (throughout_map fun x address => x.feasible_map _ _ address).trans
    (throughout_filter_isStatement Element.feasible_of_not_isStatement)

/-- Labels and constants are gone. -/
theorem isStatement_statementsOf {y : Element (Option Location) Tree}
    (hy : y ∈ statementsOf numbers xs) : y.isStatement = true := by
  obtain ⟨x, hx, rfl⟩ := List.mem_map.1 hy
  have hx := (List.mem_filter.1 hx).2
  -- putting values in does not change what an element is
  cases x <;> exact hx

/-- If every constant has a number, the clauses that are open are those of statements. -/
theorem filter_isOpen (hclosed : ∀ d ∈ definitionsIn xs, ∃ n, numbers.get? d.name = some n) :
    (xs.flatMap Element.clauses).filter (Clause.isOpen numbers) =
      (xs.filter Element.isStatement).flatMap Element.clauses := by
  induction xs with
  | nil => rfl
  | cons x xs ih =>
    have hxs : ∀ d ∈ definitionsIn xs, ∃ n, numbers.get? d.name = some n := by
      intro d hd
      obtain ⟨y, hy, hdef⟩ := List.mem_filterMap.1 hd
      exact hclosed d (List.mem_filterMap.2 ⟨y, List.mem_cons_of_mem _ hy, hdef⟩)
    rw [List.flatMap_cons, List.filter_append, ih hxs]
    by_cases hx : x.isStatement = true
    · -- the clauses of a statement define nothing, so they are never closed
      have hopen : x.clauses.filter (Clause.isOpen numbers) = x.clauses := by
        refine List.filter_eq_self.2 fun c hc => ?_
        rw [Element.clauses_of_isStatement hx] at hc
        obtain ⟨part, -, hc⟩ := List.mem_flatMap.1 hc
        rcases Clause.cases_of_mem_ofPart hc with ⟨s, hs, rfl⟩ | ⟨e, -, rfl⟩
        · rfl
        · rfl
      rw [hopen, List.filter_cons_of_pos hx, List.flatMap_cons]
    · have hclauses : x.clauses.filter (Clause.isOpen numbers) = [] := by
        cases x with
        | label _ _ _ => rfl
        | constant name place equals e =>
          obtain ⟨n, hn⟩ := hclosed ⟨name, place, equals, e⟩ List.mem_cons_self
          refine List.filter_cons_of_neg ?_
          simp [Clause.isOpen, Clause.definition?, hn]
        | _ => exact absurd rfl hx
      rw [hclauses, List.filter_cons_of_neg hx, List.nil_append]

variable (h : WellFormed xs)
  (hrest : AtRest (labelsFrom 0 xs) (xs.flatMap Element.clauses) numbers pieces)

include h hrest

/-- Every constant has a number at rest. -/
theorem exists_number {d : Definition (Option Location)} (hd : d ∈ definitionsIn xs) :
    ∃ n, numbers.get? d.name = some n := by
  refine hrest.exists_of_determined ?_
  rw [definitionsOf_clauses]
  exact h.determined hd

/-- What is left of a program are its statements. -/
theorem flat_eq_statementsOf :
    flat pieces = (statementsOf numbers xs).flatMap (Element.symbols Tree.symbols) := by
  rw [hrest.pieces_eq, filter_isOpen fun _ hd => exists_number h hrest hd, flat, statementsOf,
    List.map_flatMap, List.flatMap_assoc, List.flatMap_map]
  -- element by element, none of which is a label
  refine List.flatMap_congr fun x hx => ?_
  have hlabel : x.isLabel = false := by
    have hstatement := (List.mem_filter.1 hx).2
    cases x <;> first | rfl | cases hstatement
  rw [x.symbols_map, List.flatMap_map]
  exact Element.flatMap_clauses hlabel (fun _ _ => rfl) (fun _ => rfl) fun _ => rfl

/-- The table gives every expression the value that it has. -/
theorem exists_eval {x : Element.Source (Option Location)} (hx : x ∈ xs)
    {e : Expression (Option Location) .sum} (he : e ∈ x.operand?) :
    ∃ n, e.eval numbers.get? = some n := by
  obtain ⟨ρ, n, hρ, hn⟩ := h.valued x hx e he
  refine ⟨n, ?_⟩
  rw [← hn]
  -- a name of `e` has one value, so the assignment and the table agree on it
  refine e.eval_congr fun y hy => ?_
  obtain ⟨m, hm⟩ := Expression.exists_of_eval hn y hy
  have hvalue := hρ y m hm
  rw [← definitionsOf_clauses] at hvalue
  obtain ⟨k, hk⟩ := hrest.exists_of_determined hvalue.determined
  rw [hm, hk, HasValue.unique h.wellNamed.distinct h.wellNamed.new (hrest.sound y k hk) hvalue]

omit h in
/-- What is left of an operand is its value. -/
theorem value?_settled {x : Element.Source (Option Location)} (hx : x ∈ xs)
    (hstatement : x.isStatement = true) {e : Expression (Option Location) .sum}
    (he : e ∈ x.operand?) : (e.settled numbers.get?).value? = e.eval numbers.get? := by
  -- the operand is a clause of its own, and it is never closed
  have hclause : .operand e ∈ xs.flatMap Element.clauses :=
    List.mem_flatMap.2 ⟨x, hx, Element.operand_mem_clauses hstatement he⟩
  obtain ⟨p, hp, hfollows⟩ := hrest.exists_piece hclause rfl
  obtain ⟨t, -, ht⟩ := hrest.refine_expression hp hfollows rfl
  rw [Expression.settled_eq ht, Tree.value?_refine ht, Expression.eval_tree]

/-- **Every operand that is left is a number**, and one that can be written. -/
theorem isSettled_statementsOf {y : Element (Option Location) Tree}
    (hy : y ∈ statementsOf numbers xs) {t : Tree} (ht : t ∈ y.operand?) : t.IsSettled := by
  obtain ⟨x, hx, rfl⟩ := List.mem_map.1 hy
  obtain ⟨hx, hstatement⟩ := List.mem_filter.1 hx
  obtain ⟨e, he, rfl⟩ : ∃ e ∈ x.operand?, e.settled numbers.get? = t := by
    rw [x.operand?_map] at ht
    exact Option.map_eq_some_iff.1 ht
  obtain ⟨n, hn⟩ := exists_eval h hrest hx he
  refine ⟨n, (value?_settled hrest hx hstatement he).trans hn, ?_⟩
  have hsound := hrest.sound
  rw [definitionsOf_clauses] at hsound
  exact (h.legible x hx e he _ hsound).2 n hn

/-- Nothing is left that resolution could go on with. -/
theorem isInert_statementsOf {s : Symbol}
    (hs : s ∈ (statementsOf numbers xs).flatMap (Element.symbols Tree.symbols)) :
    s.isInert = true := by
  obtain ⟨y, hy, hs⟩ := List.mem_flatMap.1 hs
  obtain ⟨part, hpart, hs⟩ := List.mem_flatMap.1 hs
  cases part with
  | inl s' =>
    rw [List.mem_singleton.1 hs]
    exact Element.isInert_of_mem_parts (isStatement_statementsOf hy) hpart
  -- an operand is a number by now
  | inr t =>
    obtain ⟨n, hn, -⟩ := isSettled_statementsOf h hrest hy (Element.inr_mem_parts.1 hpart)
    obtain ⟨text, place, rfl⟩ := Tree.eq_literal_of_value? hn
    rw [List.mem_singleton.1 hs]
    rfl

omit h in
/-- What is left of a program stands where the program stands. -/
theorem isLocated_flat (hlocated : ∀ s ∈ xs.flatMap Element.written, s.IsLocated) {s : Symbol}
    (hs : s ∈ flat pieces) : s.IsLocated := by
  obtain ⟨c, hc, hlocation⟩ := hrest.location_mem hs
  obtain ⟨s', hs', heq⟩ := List.mem_map.1 hlocation
  obtain ⟨x, hx, hc⟩ := List.mem_flatMap.1 hc
  -- the symbol comes from a clause, and a clause from an element that is no label
  have hlabel : x.isLabel = false := by
    cases x <;> first | rfl | cases hc
  have hsymbols : x.clauses.flatMap Clause.symbols = x.written :=
    Element.flatMap_clauses hlabel (fun _ _ => rfl) (fun _ => rfl) fun _ => rfl
  have hwritten : s' ∈ x.written := hsymbols ▸ List.mem_flatMap.2 ⟨c, hc, hs'⟩
  obtain ⟨l, hl, hl'⟩ := hlocated s' (List.mem_flatMap.2 ⟨x, hx, hwritten⟩)
  exact ⟨l, hl, heq.symm.trans hl'⟩

/-- No definition is left. -/
theorem pending_eq_nil : pieces.filterMap Piece.name? = [] := by
  -- the definitions that are pending are those whose names have no number
  rw [hrest.pending_eq, definitionsOf_clauses]
  refine List.filter_eq_nil_iff.2 fun y hy => ?_
  obtain ⟨d, hd, rfl⟩ := List.mem_map.1 hy
  obtain ⟨n, hn⟩ := exists_number h hrest hd
  simp [hn]

/-- The table has the names that the program defines. -/
theorem names_atRest : numbers.names.Perm
    ((labelsFrom 0 xs).names ++ (definitionsIn xs).map Definition.name) := by
  obtain ⟨constants, hnumbers, hperm⟩ := hrest.table
  rw [pending_eq_nil h hrest, List.append_nil, definitionsOf_clauses] at hperm
  rw [hnumbers, Table.names, List.map_append]
  exact hperm.append_left _

omit h in
/-- What is left stands for the same bytes as the program. -/
theorem bytesFrom_statementsOf : bytesFrom Tree.value? 0 (statementsOf numbers xs) =
    bytesFrom (fun e => e.eval numbers.get?) 0 xs := by
  rw [statementsOf, bytesFrom_map, ← bytesFrom_filter_isStatement _ _ xs]
  refine bytesFrom_congr (fun x hx e he => ?_) 0
  obtain ⟨hx, hstatement⟩ := List.mem_filter.1 hx
  exact value?_settled hrest hx hstatement he

end Resolved

/-- **Resolution** leaves the statements of a well-formed program with numbers for operands. -/
theorem resolve_elements {xs : List (Element.Source (Option Location))} (h : WellFormed xs)
    (definitions : Table (Option Location)) :
    ∃ numbers pieces definitions',
      AtRest (labelsFrom 0 xs) (xs.flatMap Element.clauses) numbers pieces ∧
      (resolve ⟨flat ((xs.flatMap Element.clauses).map Clause.piece), numbered (labelsFrom 0 xs),
        definitions⟩).outcome =
          .ok ⟨(statementsOf numbers xs).flatMap (Element.symbols Tree.symbols), numbered numbers,
            definitions'⟩ := by
  obtain ⟨numbers, pieces, definitions', hrest, hresolve⟩ :=
    resolve_of_not_faulty h.wellNamed h.allWritable h.not_faulty definitions
  refine ⟨numbers, pieces, definitions', hrest, ?_⟩
  have hflat := flat_eq_statementsOf h hrest
  rw [hresolve, hflat, check_of_isInert (pending_eq_nil h hrest) fun s hs =>
    isInert_statementsOf h hrest hs]
  rfl

/-! ### All phases -/

section Source

variable {source : Source} {xs : List (Element.Source (Option Location))}
  (hread : source.symbols = .ok (xs.flatMap Element.written)) (h : WellFormed xs)

include hread h

/-- **The phases up to layout** take a source to the pieces of its clauses, with the labels in the
table. -/
theorem placed_source : ∃ definitions, (Assembler.placed source).outcome =
    .ok ⟨flat ((xs.flatMap Element.clauses).map Clause.piece), numbered (labelsFrom 0 xs),
      definitions⟩ := by
  -- the labels stand where they stood before the operands were trees
  have hlabels : labelsFrom 0 (xs.map (Element.map id Expression.tree)) = labelsFrom 0 xs :=
    labelsFrom_map id Expression.tree 0 xs
  obtain ⟨definitions, hplace⟩ := place_elements (xs.map (Element.map id Expression.tree)) 0 [] []
    ((throughout_map fun x address => x.forward_map _ _ address).2 h.forward)
    (by rw [hlabels]; exact (List.nodup_append.1 h.distinct).1)
    (by rw [hlabels]; exact fun _ => h.isWritable_label)
    (by rw [extent_map]; exact h.bounded)
  rw [hlabels, unlabelled_elements] at hplace
  refine ⟨definitions, Trace.outcome_bind_eq_ok.2 ⟨xs.flatMap Element.written, ?_,
    Trace.outcome_bind_eq_ok.2 ⟨_, rfl, ?_⟩⟩⟩
  · exact Trace.outcome_bind_eq_ok.2 ⟨_, hread, Trace.outcome_bind_eq_ok.2 ⟨(), rfl, rfl⟩⟩
  · rw [grouped_elements]
    exact hplace

/-- **The front end** takes a well-formed program to its statements. -/
theorem frontEnd_source {text : String} (hnormalize : source.normalize = .ok text)
    (level : Level) : ∃ numbers pieces definitions,
      AtRest (labelsFrom 0 xs) (xs.flatMap Element.clauses) numbers pieces ∧
      (Assembler.frontEnd level source).outcome =
        .ok ⟨(statementsOf numbers xs).flatMap (Element.symbols Tree.symbols), numbered numbers,
          definitions⟩ := by
  obtain ⟨places, hplaced⟩ := placed_source hread h
  obtain ⟨numbers, pieces, definitions, hrest, hresolve⟩ := resolve_elements h places
  refine ⟨numbers, pieces, definitions, hrest, ?_⟩
  have hresolved : (Assembler.resolved source).outcome = _ :=
    Trace.outcome_bind_eq_ok.2 ⟨_, hplaced, hresolve⟩
  -- what is logged does not touch the outcome; at the level of debugging a text is logged first
  have hrun : Trace.outcome (ω := Record) (do
      let program ← Assembler.resolved source
      Logged.debug ("Resolved stream: " ++ spelled program.symbols)
      return program) = _ :=
    Trace.outcome_bind_eq_ok.2 ⟨_, hresolved, Trace.outcome_bind_eq_ok.2 ⟨(), rfl, rfl⟩⟩
  unfold Assembler.frontEnd
  refine Trace.outcome_bind_eq_ok.2 ⟨(), rfl, ?_⟩
  split
  · exact Trace.outcome_bind_eq_ok.2 ⟨_, hnormalize, Trace.outcome_bind_eq_ok.2 ⟨(), rfl, hrun⟩⟩
  · exact hrun

end Source

/-! ### Assembling -/

/-- If the stream is encoded, its code and the names of the front end are what the assembler ends
with. -/
theorem Assembler.assemble_of_ok {a : Assembler} {level : Level} {source : Source}
    {program : Program} {statements : List Statement} {records : List Record}
    (hfront : (frontEnd level source).outcome = .ok program)
    (hencode : Generation.encodeFrom a.settings.strict 0 program.symbols =
      ⟨statements, [], records, .ok ()⟩) :
    (a.assemble level source).outcome = .ok (statements.flatMap (·.bytes)) ∧
      (a.assemble level source).state.code = statements.flatMap (·.bytes) ∧
      (a.assemble level source).state.tags = program.tags := by
  have hcode : (Generation.reached a.settings.strict program).code =
      statements.flatMap (·.bytes) := by
    rw [Generation.reached, Generation.Encoded.bytes, hencode, List.append_nil]
  have hgenerate := Generator.generate_of_ok (g := a.generator.reset)
    (congrArg Generation.Encoded.outcome hencode)
  simp only [assemble, hfront, hgenerate]
  exact ⟨congrArg Except.ok hcode, hcode, rfl⟩

/-- If it is not, the assembler fails as the encoder does. -/
theorem Assembler.assemble_of_error {a : Assembler} {level : Level} {source : Source}
    {program : Program} {failure : Failure}
    (hfront : (frontEnd level source).outcome = .ok program)
    (hencode : (Generation.encodeFrom a.settings.strict 0 program.symbols).outcome =
      .error failure) : (a.assemble level source).outcome = .error failure := by
  have hgenerate := Generator.generate_of_error (g := a.generator.reset) hencode
  simp only [assemble, hfront, hgenerate]

section Source

variable {source : Source} {xs : List (Element.Source (Option Location))}
  (hread : source.symbols = .ok (xs.flatMap Element.written)) (h : WellFormed xs)
  (hlocated : ∀ s ∈ xs.flatMap Element.written, s.IsLocated)
  {text : String} (hnormalize : source.normalize = .ok text)
  {a : Assembler} (hstrict : a.settings.strict = false) (level : Level)

include hread h hlocated hnormalize hstrict

/-- A well-formed program whose zeros can be made is assembled. -/
theorem assemble_of_feasible (hfeasible : Throughout Element.Feasible 0 xs) :
    ∃ numbers code, (a.assemble level source).outcome = .ok code ∧
      (a.assemble level source).state.code = code ∧
      (a.assemble level source).state.tags = numbered numbers ∧
      numbers.names.Perm ((labelsFrom 0 xs).names ++ (definitionsIn xs).map Definition.name) ∧
      Solves (labelsFrom 0 xs) (definitionsIn xs) numbers.get? ∧
      bytesFrom (fun e => e.eval numbers.get?) 0 xs = some code := by
  obtain ⟨numbers, pieces, definitions, hrest, hfront⟩ := frontEnd_source hread h hnormalize level
  -- generation needs to know where each symbol stands
  have hplaces := fun s => isLocated_flat hrest hlocated (s := s)
  rw [flat_eq_statementsOf h hrest] at hplaces
  obtain ⟨statements, records, hencode, hbytes⟩ := encode_elements
    (fun _ hy => isStatement_statementsOf hy) (forward_statementsOf.2 h.forward)
    (feasible_statementsOf.2 hfeasible) (fun _ hy _ ht => isSettled_statementsOf h hrest hy ht)
    hplaces
  rw [← hstrict] at hencode
  obtain ⟨houtcome, hcode, htags⟩ := Assembler.assemble_of_ok hfront hencode
  refine ⟨numbers, _, houtcome, hcode, htags, names_atRest h hrest, ?_, ?_⟩
  · -- every definition has got its number
    rw [← definitionsOf_clauses]
    refine hrest.solves fun d hd => exists_number h hrest ?_
    rwa [definitionsOf_clauses] at hd
  · rw [← bytesFrom_statementsOf hrest, hbytes]

/-- A program whose zeros cannot be made is not. -/
theorem assemble_of_not_feasible (hfeasible : ¬ Throughout Element.Feasible 0 xs) :
    ∃ e, (a.assemble level source).outcome = .error (.excess e) := by
  obtain ⟨numbers, pieces, definitions, hrest, hfront⟩ := frontEnd_source hread h hnormalize level
  have hplaces := fun s => isLocated_flat hrest hlocated (s := s)
  rw [flat_eq_statementsOf h hrest] at hplaces
  obtain ⟨e, hencode⟩ := encode_infeasible
    (fun _ hy => isStatement_statementsOf hy) (forward_statementsOf.2 h.forward)
    (fun hstatements => hfeasible (feasible_statementsOf.1 hstatements))
    (fun _ hy _ ht => isSettled_statementsOf h hrest hy ht) hplaces
  rw [← hstrict] at hencode
  exact ⟨e, Assembler.assemble_of_error hfront hencode⟩

end Source

/-- A program that asks for more zeros than can be made is not assembled. -/
theorem assemble_sourceOf_of_not_feasible {xs : List (Element.Source Unit)}
    (hspelled : ∀ x ∈ xs, x.Spelled) (h : WellFormed xs) (file : String) {markLimit : Option Nat}
    (hroom : markLimit ≠ some 0)
    (hlength : Numeral.isWritable ((sourceOf file markLimit xs).text.length + 1 : Nat) = true)
    {a : Assembler} (hstrict : a.settings.strict = false) (level : Level)
    (hfeasible : ¬ Throughout Element.Feasible 0 xs) :
    ∃ e, (a.assemble level (sourceOf file markLimit xs)).outcome = .error (.excess e) := by
  obtain ⟨located, hread, rfl, hlocated⟩ := exists_read file hroom hspelled hlength
  obtain ⟨text, hnormalize⟩ := Source.normalize_ofSymbols file markLimit (spelled_tokens hspelled)
  refine assemble_of_not_feasible hread h.of_relocate hlocated hnormalize hstrict level ?_
  intro hzeros
  exact hfeasible ((throughout_map fun x address => x.feasible_map _ _ address).2 hzeros)

/-- **Assembling a well-formed program.** Its tokens, with spaces between them, are assembled. The
table has the names that the program defines: each label has the size of what is before it as its
address, and each constant has the value of its expression. The code is what the elements stand for,
one after the other. No run of zeros may be longer than a run of bytes can be, and a reader with a
limit on signs in a row must allow for one. -/
theorem assemble_wellFormed {xs : List (Element.Source Unit)} (hspelled : ∀ x ∈ xs, x.Spelled)
    (h : WellFormed xs) (hfeasible : Throughout Element.Feasible 0 xs) (file : String)
    {markLimit : Option Nat} (hroom : markLimit ≠ some 0)
    (hlength : Numeral.isWritable ((sourceOf file markLimit xs).text.length + 1 : Nat) = true)
    (a : Assembler) (hstrict : a.settings.strict = false) (level : Level) :
    ∃ numbers code,
      (a.assemble level (sourceOf file markLimit xs)).outcome = .ok code ∧
      (a.assemble level (sourceOf file markLimit xs)).state.code = code ∧
      (a.assemble level (sourceOf file markLimit xs)).state.tags = numbered numbers ∧
      numbers.names.Perm ((labelsFrom 0 xs).names ++ (definitionsIn xs).map Definition.name) ∧
      (∀ before name place colon after, xs = before ++ .label name place colon :: after →
        numbers.get? name = some (extent 0 before : Nat)) ∧
      Solves (labelsFrom 0 xs) (definitionsIn xs) numbers.get? ∧
      bytesFrom (fun e => e.eval numbers.get?) 0 xs = some code := by
  obtain ⟨located, hread, rfl, hlocated⟩ := exists_read file hroom hspelled hlength
  obtain ⟨text, hnormalize⟩ := Source.normalize_ofSymbols file markLimit (spelled_tokens hspelled)
  obtain ⟨numbers, code, houtcome, hcode, htags, hnames, hsolves, hbytes⟩ :=
    assemble_of_feasible hread h.of_relocate hlocated hnormalize hstrict level
      ((throughout_map fun x address => x.feasible_map _ _ address).1 hfeasible)
  have hlabels : labelsFrom 0 (located.map (Element.relocate fun _ => ())) = labelsFrom 0 located :=
    labelsFrom_map _ _ 0 located
  have hdefinitions := definitionsIn_relocate (fun _ => ()) located
  have hsolved : Solves (labelsFrom 0 (located.map (Element.relocate fun _ => ())))
      (definitionsIn (located.map (Element.relocate fun _ => ()))) numbers.get? := by
    rw [hlabels, hdefinitions, solves_relocate]
    exact hsolves
  -- labels and constants are the same wherever the elements stand
  refine ⟨numbers, code, houtcome, hcode, htags, ?_, ?_, hsolved, ?_⟩
  · rw [hlabels, hdefinitions, List.map_map]
    exact hnames
  · intro before name place colon after hxs
    refine hsolved.labels name _ ?_
    refine Table.get?_of_mem (List.nodup_append.1 h.distinct).1 ?_
    exact mem_labelsFrom.2 ⟨before, place, colon, after, hxs, rfl⟩
  · rw [← hbytes]
    refine (bytesFrom_map _ _ _ 0 located).trans (bytesFrom_congr (fun x _ e _ => ?_) 0)
    exact e.eval_relocate _ _

/-! ### A program, and one that asks for too much -/

/-- The number two. -/
def two : Unsigned := ⟨"2", ⟨.decimal, [2]⟩, by decide, by decide⟩

/-- A small program. The size of a buffer is defined before the number that it is made of, and that
number is the distance of two labels; the arithmetic unit is used with and without an operand. -/
def buffer : List (Element.Source Unit) :=
  [.constant "size" () () (.ofProduct (.scaled (.ofAtom (.literal "2" 2 ())) .times ()
    (.name "count" ()))),
  .label "start" () (),
  .instruction ⟨"ADD", .immediate, 0x30⟩ (.immediate () (.ofProduct (.ofAtom (.name "size" ()))))
    (by decide) (),
  .instruction ⟨"ROL", .accumulator, 0x2c⟩ .absent (by decide) (),
  .constant "count" () () (.summed (.ofProduct (.ofAtom (.name "end" ()))) .minus ()
    (.ofAtom (.name "start" ()))),
  .label "loop" () (),
  .instruction ⟨"JMP", .direct, 0xa0⟩ (.direct (.ofProduct (.ofAtom (.name "loop" ())))) (by decide)
    (),
  .origin () ⟨"8", ⟨.decimal, [8]⟩, by decide, by decide⟩ (),
  .byte () (.signed .minus () (.ofAtom (.literal "2" 2 ()))),
  .label "end" () ()]

/-- Its names and numbers can be read back. -/
theorem buffer_spelled : ∀ x ∈ buffer, x.Spelled := by
  have htwo : ∃ u : Unsigned, u.text = "2" ∧ (u.value : Int) = 2 := ⟨two, rfl, rfl⟩
  have hname {text : String} (h : IsName text) : ∀ e ∈ some (Expression.ofProduct (.ofAtom
      (.name text ()))), e.Spelled := by
    rintro e ⟨⟩
    exact h
  have hnone : ∀ e ∈ (none : Option (Expression Unit .sum)), e.Spelled :=
    fun e he => absurd he (Option.not_mem_none e)
  simp only [buffer, List.forall_mem_cons]
  exact ⟨⟨by decide, htwo, (by decide : IsName "count")⟩, (by decide : IsName "start"),
    hname (by decide), hnone, ⟨by decide, (by decide : IsName "end"), (by decide : IsName "start")⟩,
    (by decide : IsName "loop"), hname (by decide), trivial, htwo, (by decide : IsName "end"),
    List.forall_mem_nil _⟩

/-- The values of the names. -/
def bufferNames : Table Int := labelsFrom 0 buffer ++ [("count", 9), ("size", 18)]

/-- These values solve its definitions. -/
theorem buffer_solves : Solves (labelsFrom 0 buffer) (definitionsIn buffer) bufferNames.get? where
  labels := Table.extends_append _ _
  constants := by
    intro d hd
    simp only [definitionsIn, buffer, List.filterMap_cons, Element.definition?, List.filterMap_nil,
      List.mem_cons, List.not_mem_nil, or_false] at hd
    rcases hd with rfl | rfl
    · exact ⟨18, by decide, by decide⟩
    · exact ⟨9, by decide, by decide⟩

/-- Each of them follows from the definitions, `size` by way of `count`. -/
theorem buffer_sound : Sound (labelsFrom 0 buffer) (definitionsIn buffer) bufferNames.get? := by
  -- `count` is the distance of two labels, and `size` is twice that
  have hcount : HasValue (labelsFrom 0 buffer) (definitionsIn buffer) "count" 9 :=
    .constant (d := (definitionsIn buffer).get ⟨1, by decide⟩) (List.get_mem _ _)
      (fun _ _ h => .label h) (by decide)
  have hsize : HasValue (labelsFrom 0 buffer) (definitionsIn buffer) "size" 18 := by
    refine .constant (d := (definitionsIn buffer).get ⟨0, by decide⟩) (List.get_mem _ _)
      (ρ := Table.get? [("count", 9)]) (fun x m h => ?_) (by decide)
    obtain ⟨rfl, rfl⟩ := Prod.mk.inj (List.mem_singleton.1 (Table.mem_of_get? h))
    exact hcount
  intro x n hx
  rcases List.mem_append.1 (Table.mem_of_get? hx) with hlabel | hconstant
  · exact .label (Table.get?_of_mem (by decide) hlabel)
  · simp only [List.mem_cons, Prod.mk.injEq, List.not_mem_nil, or_false] at hconstant
    rcases hconstant with ⟨rfl, rfl⟩ | ⟨rfl, rfl⟩
    · exact hcount
    · exact hsize

/-- All operands have values with them, and those can be written. -/
theorem buffer_values : ∀ x ∈ buffer, ∀ e ∈ x.operand?, e.Legible bufferNames.get? ∧
    ∃ n, e.eval bufferNames.get? = some n ∧ Numeral.isWritable n = true := by
  have hbetween {o : Operator} {x y : Option Int} {n : Int} (h : o.between x y = some n)
      (hn : Numeral.isWritable n = true) :
      ∀ m, o.between x y = some m → Numeral.isWritable m = true := by
    intro m hm
    obtain rfl : n = m := Option.some.inj (h.symm.trans hm)
    exact hn
  have hnone : ∀ e ∈ (none : Option (Expression Unit .sum)), e.Legible bufferNames.get? ∧
      ∃ n, e.eval bufferNames.get? = some n ∧ Numeral.isWritable n = true :=
    fun e he => absurd he (Option.not_mem_none e)
  simp only [buffer, List.forall_mem_cons]
  refine ⟨?_, hnone, ?_, hnone, ?_, hnone, ?_, hnone, ?_, hnone, List.forall_mem_nil _⟩
  · rintro e ⟨⟩
    exact ⟨⟨trivial, trivial, hbetween (n := 18) (by decide) (by decide)⟩, 18, by decide, by decide⟩
  · rintro e ⟨⟩
    exact ⟨trivial, 18, by decide, by decide⟩
  · rintro e ⟨⟩
    exact ⟨⟨trivial, trivial, hbetween (n := 9) (by decide) (by decide)⟩, 9, by decide, by decide⟩
  · rintro e ⟨⟩
    exact ⟨trivial, 3, by decide, by decide⟩
  · rintro e ⟨⟩
    exact ⟨⟨trivial, hbetween (n := -2) (by decide) (by decide)⟩, -2, by decide, by decide⟩

theorem buffer_wellFormed : WellFormed buffer := by
  refine .of_solves (by decide) ?_ (by decide) buffer_sound buffer_solves buffer_values
  exact ⟨trivial, trivial, trivial, trivial, trivial, trivial, trivial, (by decide : 6 ≤ 8),
    trivial, trivial, trivial⟩

/-- The only zeros that it asks for are the two bytes up to the origin. -/
theorem buffer_feasible : Throughout Element.Feasible 0 buffer :=
  ⟨trivial, trivial, trivial, trivial, trivial, trivial, trivial,
    (by decide : 2 + 33 < 2 ^ 63), trivial, trivial, trivial⟩

/-- The code of the program: both definitions have been used before their names had values. -/
theorem buffer_assembled : (∀ x ∈ buffer, x.Spelled) ∧ WellFormed buffer ∧
    Throughout Element.Feasible 0 buffer ∧
    ((Assembler.ofSettings {}).assemble .debug (sourceOf "buffer.asm" (some 1) buffer)).outcome =
      .ok [0x30, 0x12, 0x2c, 0xa0, 0x03, 0x00, 0x00, 0x00, 0xfe] := by
  obtain ⟨numbers, code, houtcome, -, -, -, -, hsolves, hbytes⟩ :=
    assemble_wellFormed buffer_spelled buffer_wellFormed buffer_feasible "buffer.asm"
      (by decide : some 1 ≠ some 0) (by decide) (.ofSettings {}) rfl .debug
  refine ⟨buffer_spelled, buffer_wellFormed, buffer_feasible, ?_⟩
  rw [houtcome]
  -- the table that comes out agrees with ours on all names of the program
  have hvalue : bytesFrom (fun e => e.eval numbers.get?) 0 buffer =
      bytesFrom (fun e => e.eval bufferNames.get?) 0 buffer := by
    refine bytesFrom_congr (fun x hx e he => ?_) 0
    obtain ⟨-, n, hn, -⟩ := buffer_values x hx e he
    have hextends : Extends bufferNames.get? numbers.get? := fun y m hy =>
      hsolves.eq_of_hasValue (buffer_sound y m hy)
    rw [hn, Expression.eval_mono hextends hn]
  have hcode : bytesFrom (fun e => e.eval bufferNames.get?) 0 buffer =
      some [0x30, 0x12, 0x2c, 0xa0, 0x03, 0x00, 0x00, 0x00, 0xfe] := by decide
  rw [hvalue, hcode] at hbytes
  exact congrArg Except.ok (Option.some.inj hbytes).symm

/-- A program that asks for more zeros than can be counted. -/
def hugeReserve : List (Element.Source Unit) :=
  [.reserve () ⟨"0x8000000000000000", ⟨.hexadecimal, 8 :: List.replicate 15 0⟩, by decide,
    by decide⟩ ()]

/-- It is well-formed all the same, and fails only when its zeros are made. -/
theorem hugeReserve_not_assembled : (∀ x ∈ hugeReserve, x.Spelled) ∧ WellFormed hugeReserve ∧
    ∃ e, ((Assembler.ofSettings {}).assemble .warning (sourceOf "p.asm" none hugeReserve)).outcome =
      .error (.excess e) := by
  have hspelled : ∀ x ∈ hugeReserve, x.Spelled := List.forall_mem_cons.2 ⟨trivial, nofun⟩
  -- there are no names, so nothing has to be determined
  have hwellFormed : WellFormed hugeReserve := by
    refine .of_solves (ρ := fun _ => none) (by decide) ⟨trivial, trivial⟩ (by decide) nofun
      ⟨nofun, nofun⟩ ?_
    exact List.forall_mem_cons.2 ⟨nofun, nofun⟩
  refine ⟨hspelled, hwellFormed, ?_⟩
  refine assemble_sourceOf_of_not_feasible hspelled hwellFormed "p.asm"
    (by decide : none ≠ some 0) (by decide) rfl .warning ?_
  rintro ⟨hzeros, -⟩
  exact absurd hzeros (by decide : ¬ 2 ^ 63 + 33 < 2 ^ 63)

end RomAsm
