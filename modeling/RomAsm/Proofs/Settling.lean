import RomAsm.Proofs.Determined
import RomAsm.Proofs.Rounds

/-!
# Where resolution comes to rest

A program without labels is a list of `Clause`s: definitions, operands, and symbols that resolution
passes over. `Reached` is the invariant of the rounds. It says of a table of numbers and the pieces
that are left that

* the table has only right values, and a constant that is in it has its definition's value;
* the pieces are the clauses that are still open, and refining a piece with any larger table comes
  to the same as refining what the clause says. So no round has spoilt anything.

Each round keeps it (`Reached.advance`, `Reached.refine`). Hence resolution either ends at a
division by zero, or comes to rest with every determined name in the table (`settle_clauses`).
-/

namespace RomAsm

open Resolution

/-! ### Clauses -/

/-- A part of a program, once its labels have been taken out. -/
inductive Clause where
  | plain (s : Symbol) (h : s.isInert = true)
  | operand (e : Expression (Option Location) .sum)
  | definition (d : Definition (Option Location))

namespace Clause

/-- The piece of the stream that a clause is, with its grouping spelled out. -/
def piece : Clause → Piece
  | plain s h => .plain s h
  | operand e => .operand e.tree
  | definition d => .definition d.name d.place d.equals d.expression.tree

/-- The symbols of a clause, as it is written. -/
def symbols : Clause → List Symbol
  | plain s _ => [s]
  | operand e => e.symbols
  | definition d => d.symbols

/-- The parts of a clause that grouping tells apart. -/
def chunks : Clause → List Chunk
  | plain s _ => [.plain s]
  | operand e => [.expression e]
  | definition d =>
    [.plain ⟨.identifier, d.name, none, d.place⟩, .plain (.ofOperator "=" d.equals),
      .expression d.expression]

/-- The definition that a clause is. -/
def definition? : Clause → Option (Definition (Option Location))
  | definition d => some d
  | _ => none

/-- The expression of a clause. -/
def expression? : Clause → Option (Expression (Option Location) .sum)
  | plain _ _ => none
  | operand e => some e
  | definition d => some d.expression

/-- Whether a clause stays in the stream when the given names have values. -/
def isOpen (numbers : Table Int) (c : Clause) : Bool :=
  c.definition?.all fun d => (numbers.get? d.name).isNone

/-- A piece is what has become of a clause: refining it is still refining the clause. -/
inductive Follows (ρ : String → Option Int) : Clause → Piece → Prop where
  | plain (s : Symbol) (h : s.isInert = true) : Follows ρ (.plain s h) (.plain s h)
  | operand (e : Expression (Option Location) .sum) (t : Tree)
    (h : ∀ σ, Extends ρ σ → t.refine σ = e.tree.refine σ) : Follows ρ (.operand e) (.operand t)
  | definition (d : Definition (Option Location)) (t : Tree)
    (h : ∀ σ, Extends ρ σ → t.refine σ = d.expression.tree.refine σ) :
    Follows ρ (.definition d) (.definition d.name d.place d.equals t)

/-- Before any round, a piece says what its clause says. -/
theorem follows_piece (ρ : String → Option Int) (c : Clause) : Follows ρ c c.piece := by
  cases c with
  | plain s h => exact .plain s h
  | operand e => exact .operand e _ fun _ _ => rfl
  | definition d => exact .definition d _ fun _ _ => rfl

/-- With a larger table there is less to compare. -/
theorem Follows.mono {ρ σ : String → Option Int} (hσ : Extends ρ σ) {c : Clause} {p : Piece}
    (h : Follows ρ c p) : Follows σ c p := by
  cases h with
  | plain s h => exact .plain s h
  | operand e t h => exact .operand e t fun τ hτ => h τ (hσ.trans hτ)
  | definition d t h => exact .definition d t fun τ hτ => h τ (hσ.trans hτ)

/-- **One refinement of a piece** leaves it a piece of its clause. -/
theorem Follows.refine {ρ : String → Option Int} {c : Clause} {p p' : Piece} (h : Follows ρ c p)
    (hp : p.refine ρ = .ok p') : Follows ρ c p' := by
  cases h with
  | plain s h =>
    cases hp
    exact .plain s h
  | operand e t h =>
    obtain ⟨t', ht, rfl⟩ := Trace.except_map_eq_ok.1 hp
    -- refining once more with a larger table makes up for what this table did not know
    exact .operand e t' fun σ hσ => (Tree.refine_refine hσ ht).trans (h σ hσ)
  | definition d t h =>
    obtain ⟨t', ht, rfl⟩ := Trace.except_map_eq_ok.1 hp
    exact .definition d t' fun σ hσ => (Tree.refine_refine hσ ht).trans (h σ hσ)

/-- What has become of a definition still defines its name. -/
theorem Follows.name?_eq {ρ : String → Option Int} {c : Clause} {p : Piece} (h : Follows ρ c p) :
    p.name? = c.definition?.map Definition.name := by
  cases h <;> rfl

/-- A clause that is open for a larger table was open before. -/
theorem filter_isOpen_append (numbers more : Table Int) (clauses : List Clause) :
    clauses.filter (isOpen (numbers ++ more)) =
      (clauses.filter (isOpen numbers)).filter (isOpen (numbers ++ more)) := by
  rw [List.filter_filter]
  refine List.filter_congr fun c _ => ?_
  cases c with
  | plain _ _ => rfl
  | operand _ => rfl
  | definition d =>
    simp only [isOpen, definition?, Table.get?_append, Option.all_some]
    -- only a definition can close, and it stays closed when the table grows
    cases Table.get? numbers d.name <;> simp

end Clause

/-- Grouping takes a clause to its piece. -/
theorem grouped_clauses {clauses : List Clause}
    (h : Chunk.Placed true (clauses.flatMap Clause.chunks)) :
    Grouping.grouped (clauses.flatMap Clause.symbols) = flat (clauses.map Clause.piece) := by
  -- a clause is written as its parts are, and its piece is made of the parts grouped
  have hwritten : clauses.flatMap Clause.symbols =
      (clauses.flatMap Clause.chunks).flatMap Chunk.written := by
    rw [List.flatMap_assoc]
    refine List.flatMap_congr fun c _ => ?_
    cases c <;> simp [Clause.symbols, Clause.chunks, Chunk.written, Definition.symbols]
  have hgrouped : flat (clauses.map Clause.piece) =
      (clauses.flatMap Clause.chunks).flatMap Chunk.grouped := by
    rw [List.flatMap_assoc, flat, List.flatMap_map]
    refine List.flatMap_congr fun c _ => ?_
    cases c <;> simp [Clause.piece, Piece.symbols, Clause.chunks, Chunk.grouped]
  rw [hwritten, grouped_written h, hgrouped]

/-- The definitions among some clauses. -/
def definitionsOf (clauses : List Clause) : List (Definition (Option Location)) :=
  clauses.filterMap Clause.definition?

/-- The expressions of some clauses. -/
def expressionsOf (clauses : List Clause) : List (Expression (Option Location) .sum) :=
  clauses.filterMap Clause.expression?

/-! ### Lists that follow each other -/

/-- What stands on the right of a relation between lists has something on the left. -/
theorem exists_left_of_forall₂ {α β : Type} {R : α → β → Prop} {as : List α} {bs : List β}
    (h : List.Forall₂ R as bs) {b : β} (hb : b ∈ bs) : ∃ a ∈ as, R a b := by
  induction h with
  | nil => cases hb
  | @cons a b' as bs hab _ ih =>
    rcases List.mem_cons.1 hb with rfl | hb
    · exact ⟨a, List.mem_cons_self, hab⟩
    · obtain ⟨a', ha', hab'⟩ := ih hb
      exact ⟨a', List.mem_cons_of_mem _ ha', hab'⟩

theorem exists_right_of_forall₂ {α β : Type} {R : α → β → Prop} {as : List α} {bs : List β}
    (h : List.Forall₂ R as bs) {a : α} (ha : a ∈ as) : ∃ b ∈ bs, R a b := by
  obtain ⟨b, hb, hab⟩ := exists_left_of_forall₂ h.flip ha
  exact ⟨b, hb, hab⟩

/-- Two lists that follow each other go on to do so when the same places are dropped from both. -/
theorem forall₂_filter {α β : Type} {R : α → β → Prop} {p : α → Bool} {q : β → Bool}
    {as : List α} {bs : List β} (h : List.Forall₂ R as bs)
    (hpq : ∀ a, ∀ b ∈ bs, R a b → p a = q b) :
    List.Forall₂ R (as.filter p) (bs.filter q) := by
  induction h with
  | nil => exact .nil
  | @cons a b as bs hab _ ih =>
    have ih := ih fun a b hb => hpq a b (List.mem_cons_of_mem _ hb)
    have heq := hpq a b List.mem_cons_self hab
    cases hq : q b with
    | true =>
      rw [List.filter_cons_of_pos (heq.trans hq), List.filter_cons_of_pos hq]
      exact .cons hab ih
    | false =>
      rw [List.filter_cons_of_neg (by simp [heq, hq]), List.filter_cons_of_neg (by simp [hq])]
      exact ih

/-- Where all calls succeed, each result belongs to its argument. -/
theorem forall₂_of_mapM {α β ε : Type} {f : α → Except ε β} {as : List α} {bs : List β}
    (h : as.mapM f = .ok bs) : List.Forall₂ (fun a b => f a = .ok b) as bs := by
  induction as generalizing bs with
  | nil =>
    cases h
    exact .nil
  | cons a as ih =>
    rw [List.mapM_cons] at h
    obtain ⟨b, hb, h⟩ := Trace.except_bind_eq_ok.1 h
    obtain ⟨bs', hbs, h⟩ := Trace.except_bind_eq_ok.1 h
    cases h
    exact .cons hb (ih hbs)

/-- Where one fails, the failure is that of some argument. -/
theorem exists_of_mapM_eq_error {α β ε : Type} {f : α → Except ε β} {as : List α} {e : ε}
    (h : as.mapM f = .error e) : ∃ a ∈ as, f a = .error e := by
  induction as with
  | nil => cases h
  | cons a as ih =>
    rw [List.mapM_cons] at h
    cases ha : f a with
    | error e' =>
      rw [ha] at h
      cases h
      exact ⟨a, List.mem_cons_self, ha⟩
    -- this argument is all right, so the failure comes from a later one
    | ok b =>
      rw [ha, Trace.except_ok_bind] at h
      cases has : as.mapM f with
      | error e' =>
        rw [has] at h
        cases h
        obtain ⟨a', ha', hfail⟩ := ih has
        exact ⟨a', List.mem_cons_of_mem _ ha', hfail⟩
      | ok bs =>
        rw [has] at h
        cases h

/-- Every name that is defined is defined as a literal, or its definition is unsettled. -/
theorem names_entries_unsettled (pieces : List Piece) :
    ((entries pieces).names ++ (unsettled pieces).filterMap Piece.name?).Perm
      (pieces.filterMap Piece.name?) := by
  induction pieces with
  | nil => exact .refl _
  | cons p pieces ih =>
    cases p with
    | plain s h => exact ih
    | operand t => exact ih
    | definition name place equals t =>
      -- the name goes to the front of one list or the other
      cases ht : t.value? with
      | none =>
        rw [entries_cons_pending name place equals pieces ht,
          unsettled_cons_pending name place equals pieces ht]
        exact List.perm_middle.trans (ih.cons name)
      | some n =>
        rw [entries_cons_literal name place equals pieces ht,
          unsettled_cons_literal name place equals pieces ht]
        exact ih.cons name

/-- Where no name is defined twice, a definition enters the table as a literal or not at all. -/
theorem get?_entries {pieces : List Piece} (hdistinct : (pieces.filterMap Piece.name?).Nodup)
    {name : String} {place equals : Option Location} {t : Tree}
    (h : .definition name place equals t ∈ pieces) : (entries pieces).get? name = t.value? := by
  induction pieces with
  | nil => cases h
  | cons p pieces ih =>
    cases p with
    | plain s hs => exact ih hdistinct ((List.mem_cons.1 h).resolve_left nofun)
    | operand u => exact ih hdistinct ((List.mem_cons.1 h).resolve_left nofun)
    | definition name' place' equals' u =>
      obtain ⟨hname', hdistinct⟩ := List.nodup_cons.1 hdistinct
      rcases List.mem_cons.1 h with heq | h
      · cases heq
        cases ht : t.value? with
        | none =>
          rw [entries_cons_pending _ _ _ _ ht]
          -- a second definition of the name would have to be among the other pieces
          refine Table.get?_eq_none fun hmem => hname' ?_
          exact (names_entries_unsettled pieces).subset (List.mem_append_left _ hmem)
        | some n =>
          rw [entries_cons_literal _ _ _ _ ht, Table.get?, List.lookup_cons_self]
      · -- the definition stands further back, and an entry in front has another name
        have hmem : name ∈ pieces.filterMap Piece.name? := List.mem_filterMap.2 ⟨_, h, rfl⟩
        have hne : name ≠ name' := ne_of_mem_of_not_mem hmem hname'
        cases hu : u.value? with
        | none =>
          rw [entries_cons_pending _ _ _ _ hu]
          exact ih hdistinct h
        | some n =>
          rw [entries_cons_literal _ _ _ _ hu, Table.get?, List.lookup_cons, beq_false_of_ne hne]
          exact ih hdistinct h

/-- Refining does not change what a piece defines. -/
theorem Piece.name?_refine {ρ : String → Option Int} {p p' : Piece} (h : p.refine ρ = .ok p') :
    p'.name? = p.name? := by
  cases p with
  | plain s hs =>
    cases h
    rfl
  | operand t =>
    obtain ⟨t', -, rfl⟩ := Trace.except_map_eq_ok.1 h
    rfl
  | definition name place equals t =>
    obtain ⟨t', -, rfl⟩ := Trace.except_map_eq_ok.1 h
    rfl

/-- So the names that are defined stay, in their order. -/
theorem names_of_forall₂_refine {ρ : String → Option Int} {pieces pieces' : List Piece}
    (h : List.Forall₂ (fun p p' => p.refine ρ = .ok p') pieces pieces') :
    pieces'.filterMap Piece.name? = pieces.filterMap Piece.name? := by
  induction h with
  | nil => rfl
  | cons hp _ ih => rw [List.filterMap_cons, List.filterMap_cons, Piece.name?_refine hp, ih]

/-- All pieces can be refined together. -/
theorem follows_of_forall₂_refine {ρ : String → Option Int} {clauses : List Clause}
    {pieces pieces' : List Piece} (h : List.Forall₂ (Clause.Follows ρ) clauses pieces)
    (hrefine : List.Forall₂ (fun p p' => p.refine ρ = .ok p') pieces pieces') :
    List.Forall₂ (Clause.Follows ρ) clauses pieces' := by
  induction h generalizing pieces' with
  | nil =>
    cases hrefine
    exact .nil
  | cons hfollows _ ih =>
    cases hrefine with
    | cons hp hrest => exact .cons (hfollows.refine hp) (ih hrest)

/-! ### The invariant -/

/-- No name is defined twice, and none that is a label. -/
structure WellNamed (labels : Table Int) (clauses : List Clause) : Prop where
  labelled : labels.names.Nodup
  distinct : ((definitionsOf clauses).map Definition.name).Nodup
  new : ∀ d ∈ definitionsOf clauses, labels.get? d.name = none

/-- All numbers that come up can be written. -/
structure AllWritable (labels : Table Int) (clauses : List Clause) : Prop where
  values : ∀ x n, HasValue labels (definitionsOf clauses) x n → Numeral.isWritable n = true
  legible : ∀ e ∈ expressionsOf clauses, ∀ ρ, Sound labels (definitionsOf clauses) ρ → e.Legible ρ

/-- What holds of the table and the pieces after any number of rounds. -/
structure Reached (labels : Table Int) (clauses : List Clause) (numbers : Table Int)
    (pieces : List Piece) : Prop where
  /-- The table has the labels, and some of the constants. -/
  table : ∃ constants, numbers = labels ++ constants ∧
    (constants.names ++ pieces.filterMap Piece.name?).Perm
      ((definitionsOf clauses).map Definition.name)
  sound : Sound labels (definitionsOf clauses) numbers.get?
  /-- A constant that is in the table has its value. -/
  evaluated : ∀ d ∈ definitionsOf clauses, ∀ n, numbers.get? d.name = some n →
    d.expression.eval numbers.get? = some n
  follows : List.Forall₂ (Clause.Follows numbers.get?) (clauses.filter (Clause.isOpen numbers))
    pieces

namespace Reached

variable {labels numbers : Table Int} {clauses : List Clause} {pieces : List Piece}

/-- **Before the first round**, the table has the labels and every clause is open. -/
theorem start (hnamed : WellNamed labels clauses) :
    Reached labels clauses labels (clauses.map Clause.piece) where
  table := by
    refine ⟨[], (List.append_nil labels).symm, .of_eq ?_⟩
    rw [Table.names, List.map_nil, List.nil_append, List.filterMap_map, definitionsOf,
      List.map_filterMap]
    congr 1
    funext c
    exact (Clause.follows_piece labels.get? c).name?_eq
  sound := fun x n h => .label h
  evaluated := fun d hd n hn => by rw [hnamed.new d hd] at hn; cases hn
  follows := by
    -- no definition has its name among the labels, so none is closed
    have hopen : clauses.filter (Clause.isOpen labels) = clauses := by
      refine List.filter_eq_self.2 fun c hc => ?_
      cases c with
      | plain s h => rfl
      | operand e => rfl
      | definition d =>
        have hd : d ∈ definitionsOf clauses := List.mem_filterMap.2 ⟨.definition d, hc, rfl⟩
        simp [Clause.isOpen, Clause.definition?, hnamed.new d hd]
    rw [hopen, List.forall₂_map_right_iff]
    exact List.forall₂_same.2 fun c _ => Clause.follows_piece _ c

/-! ### Names and entries -/

/-- Every piece that is left comes from a clause that is still open. -/
theorem clause_of_mem (h : Reached labels clauses numbers pieces) {p : Piece} (hp : p ∈ pieces) :
    ∃ c ∈ clauses, c.isOpen numbers = true ∧ c.Follows numbers.get? p := by
  obtain ⟨c, hc, hfollows⟩ := exists_left_of_forall₂ h.follows hp
  obtain ⟨hc, hopen⟩ := List.mem_filter.1 hc
  exact ⟨c, hc, hopen, hfollows⟩

/-- No name is defined by two of the pieces. -/
theorem nodup_names (hnamed : WellNamed labels clauses)
    (h : Reached labels clauses numbers pieces) :
    (pieces.filterMap Piece.name?).Nodup := by
  obtain ⟨constants, -, hperm⟩ := h.table
  exact (List.nodup_append.1 (hperm.nodup_iff.2 hnamed.distinct)).2.1

/-- A name that a piece defines is not in the table yet. -/
theorem get?_of_mem_names (hnamed : WellNamed labels clauses)
    (h : Reached labels clauses numbers pieces) :
    ∀ x ∈ pieces.filterMap Piece.name?, numbers.get? x = none := by
  intro x hx
  obtain ⟨constants, rfl, hperm⟩ := h.table
  have hdefined : x ∈ (definitionsOf clauses).map Definition.name :=
    hperm.subset (List.mem_append_right _ hx)
  obtain ⟨d, hd, rfl⟩ := List.mem_map.1 hdefined
  have hnodup := hperm.nodup_iff.2 hnamed.distinct
  -- every definition is in the table or among the pieces, and none in both
  have hconstants : d.name ∉ constants.names := fun hmem =>
    (List.nodup_append.1 hnodup).2.2 d.name hmem d.name hx rfl
  rw [Table.get?_append, hnamed.new d hd, Table.get?_eq_none hconstants]
  rfl

/-- A literal definition among the pieces has the value of the definition. -/
theorem eval_of_mem_entries (h : Reached labels clauses numbers pieces) {x : String} {n : Int}
    (hx : (x, n) ∈ entries pieces) :
    ∃ d ∈ definitionsOf clauses, d.name = x ∧ d.expression.eval numbers.get? = some n := by
  obtain ⟨p, hp, hentry⟩ := List.mem_filterMap.1 hx
  obtain ⟨c, hc, -, hfollows⟩ := h.clause_of_mem hp
  cases hfollows with
  | plain _ _ => cases hentry
  | operand _ _ _ => cases hentry
  | definition d t hrefine =>
    obtain ⟨m, hm, hpair⟩ := Option.map_eq_some_iff.1 hentry
    cases hpair
    -- a literal is refined to itself, so it is what the expression is refined to
    have ht : d.expression.tree.refine numbers.get? = .ok t :=
      (hrefine _ (Extends.refl _)).symm.trans (Tree.refine_of_value? hm _)
    refine ⟨d, List.mem_filterMap.2 ⟨.definition d, hc, rfl⟩, rfl, ?_⟩
    rw [← Expression.eval_tree, ← Tree.value?_refine ht, hm]

/-- A clause closes exactly if its piece is a literal definition. -/
theorem isOpen_entries (hnamed : WellNamed labels clauses)
    (h : Reached labels clauses numbers pieces) {ρ : String → Option Int} {c : Clause} {p : Piece}
    (hp : p ∈ pieces) (hfollows : c.Follows ρ p) :
    c.isOpen (numbers ++ entries pieces) = p.entry?.isNone := by
  cases hfollows with
  | plain _ _ => rfl
  | operand _ _ _ => rfl
  | definition d t _ =>
    -- the name is new, so whether it has a value now is up to its own entry
    have hentry := get?_entries (h.nodup_names hnamed) hp
    have hnone : numbers.get? d.name = none :=
      h.get?_of_mem_names hnamed d.name (List.mem_filterMap.2 ⟨_, hp, rfl⟩)
    simp [Clause.isOpen, Clause.definition?, Table.get?_append, hnone, hentry, Piece.entry?]

/-! ### What a round keeps -/

/-- The literal definitions can go over to the table. -/
theorem advance (hnamed : WellNamed labels clauses) (h : Reached labels clauses numbers pieces) :
    Reached labels clauses (numbers ++ entries pieces) (unsettled pieces) := by
  have hextends := Table.extends_append numbers (entries pieces)
  constructor
  case table =>
    obtain ⟨constants, rfl, hperm⟩ := h.table
    refine ⟨constants ++ entries pieces, List.append_assoc _ _ _, ?_⟩
    rw [Table.names, List.map_append, List.append_assoc]
    exact ((names_entries_unsettled pieces).append_left _).trans hperm
  case sound =>
    intro x n hx
    rw [Table.get?_append, Option.or_eq_some_iff] at hx
    rcases hx with hx | ⟨-, hx⟩
    · exact h.sound x n hx
    · obtain ⟨d, hd, rfl, heval⟩ := h.eval_of_mem_entries (Table.mem_of_get? hx)
      exact .constant hd h.sound heval
  case evaluated =>
    intro d hd n hn
    rw [Table.get?_append, Option.or_eq_some_iff] at hn
    rcases hn with hn | ⟨-, hn⟩
    · exact Expression.eval_mono hextends (h.evaluated d hd n hn)
    · obtain ⟨d', hd', hname, heval⟩ := h.eval_of_mem_entries (Table.mem_of_get? hn)
      -- the entry comes from this definition, since names are not defined twice
      obtain rfl := List.inj_on_of_nodup_map hnamed.distinct hd' hd hname
      exact Expression.eval_mono hextends heval
  case follows =>
    -- the clauses that close are those whose pieces leave the stream
    rw [Clause.filter_isOpen_append]
    exact forall₂_filter (h.follows.imp fun c p hfollows => hfollows.mono hextends)
      fun c p hp hfollows => h.isOpen_entries hnamed hp hfollows

/-- Refining the pieces with the table keeps the invariant. -/
theorem refine (h : Reached labels clauses numbers pieces) {pieces' : List Piece}
    (hpieces : pieces.mapM (Piece.refine numbers.get?) = .ok pieces') :
    Reached labels clauses numbers pieces' := by
  have hrefine := forall₂_of_mapM hpieces
  constructor
  case table =>
    obtain ⟨constants, hnumbers, hperm⟩ := h.table
    refine ⟨constants, hnumbers, ?_⟩
    rw [names_of_forall₂_refine hrefine]
    exact hperm
  case sound => exact h.sound
  case evaluated => exact h.evaluated
  case follows => exact follows_of_forall₂_refine h.follows hrefine

end Reached

/-! ### Coming to rest -/

/-- A piece that is refined gets lighter, or there was nothing to do. -/
theorem Piece.weight_refine {ρ : String → Option Int} {p p' : Piece} (h : p.refine ρ = .ok p') :
    p' = p ∨ weight p'.symbols < weight p.symbols := by
  cases p with
  | plain s hs =>
    cases h
    exact .inl rfl
  | operand t =>
    obtain ⟨t', ht, rfl⟩ := Trace.except_map_eq_ok.1 h
    exact (Tree.weight_refine ht).imp (fun h => by rw [h]) id
  | definition name place equals t =>
    obtain ⟨t', ht, rfl⟩ := Trace.except_map_eq_ok.1 h
    refine (Tree.weight_refine ht).imp (fun h => by rw [h]) fun h => ?_
    simpa [Piece.symbols] using h

theorem weight_flat_cons (p : Piece) (pieces : List Piece) :
    weight (flat (p :: pieces)) = weight p.symbols + weight (flat pieces) :=
  weight_append p.symbols (flat pieces)

/-- Hence the same is true of all pieces together. -/
theorem weight_flat_refine {ρ : String → Option Int} {pieces pieces' : List Piece}
    (h : List.Forall₂ (fun p p' => p.refine ρ = .ok p') pieces pieces') :
    pieces' = pieces ∨ weight (flat pieces') < weight (flat pieces) := by
  induction h with
  | nil => exact .inl rfl
  | cons hp _ ih =>
    rw [weight_flat_cons, weight_flat_cons]
    -- a list stays as it is only if its head and its tail do
    rcases Piece.weight_refine hp with rfl | hlt <;> rcases ih with rfl | hlt'
    · exact .inl rfl
    all_goals exact .inr (by omega)

/-- The stream also gets lighter by the definitions that go over to the table, if there are any. -/
theorem weight_flat_unsettled (pieces : List Piece) :
    (unsettled pieces = pieces ∧ entries pieces = []) ∨
      weight (flat (unsettled pieces)) < weight (flat pieces) := by
  induction pieces with
  | nil => exact .inl ⟨rfl, rfl⟩
  | cons p pieces ih =>
    rw [weight_flat_cons]
    cases hentry : p.entry? with
    | none =>
      have hunsettled : unsettled (p :: pieces) = p :: unsettled pieces := by
        simp [unsettled, hentry]
      have hentries : entries (p :: pieces) = entries pieces := by simp [entries, hentry]
      rw [hunsettled, hentries, weight_flat_cons]
      exact ih.imp (fun h => ⟨by rw [h.1], h.2⟩) fun h => by omega
    | some entry =>
      have hunsettled : unsettled (p :: pieces) = unsettled pieces := by
        simp [unsettled, hentry]
      -- the definition that is taken out has some weight
      have hpos : 0 < weight p.symbols := by
        cases p with
        | plain _ _ => cases hentry
        | operand _ => cases hentry
        | definition name place equals t => exact Nat.add_pos_left (weigh_pos _) _
      right
      rw [hunsettled]
      rcases ih with ⟨h, -⟩ | h
      · rw [h]
        omega
      · omega

/-- The rounds are over: no definition is left that could go over to the table, and refining with
the table changes nothing. -/
structure AtRest (labels : Table Int) (clauses : List Clause) (numbers : Table Int)
    (pieces : List Piece) : Prop extends Reached labels clauses numbers pieces where
  entries_eq : entries pieces = []
  refined : pieces.mapM (Piece.refine numbers.get?) = .ok pieces

/-- A failure reports a division by zero at an operator of one of the clauses. -/
def ReportsDivision (clauses : List Clause) (failure : Failure) : Prop :=
  ∃ o : Operator, ∃ e ∈ expressionsOf clauses, ∃ s ∈ e.tree.symbols, o.divides = true ∧
    failure = .report o.zeroProblem s.location

section Rest

variable {labels numbers : Table Int} {clauses : List Clause} {pieces : List Piece}

/-- **The last round.** If a round without progress has been made, everything is at rest. -/
theorem Reached.atRest (hnamed : WellNamed labels clauses)
    (h : Reached labels clauses numbers pieces) {pieces' : List Piece}
    (hpieces : (unsettled pieces).mapM (Piece.refine (Table.get? (numbers ++ entries pieces))) =
      .ok pieces')
    (hflat : flat pieces' = flat pieces) :
    AtRest labels clauses (numbers ++ entries pieces) pieces' := by
  have hreached := (h.advance hnamed).refine hpieces
  -- taking definitions out and refining what is left make the stream lighter or change nothing
  rcases weight_flat_refine (forall₂_of_mapM hpieces) with rfl | hlt
  · rcases weight_flat_unsettled pieces with ⟨hunsettled, hentries⟩ | hlt
    · refine ⟨hreached, ?_, hpieces⟩
      rw [hunsettled, hentries]
    · rw [hflat] at hlt
      exact absurd hlt (Nat.lt_irrefl _)
  · rcases weight_flat_unsettled pieces with ⟨hunsettled, -⟩ | hlt'
    · rw [hunsettled, hflat] at hlt
      exact absurd hlt (Nat.lt_irrefl _)
    · rw [hflat] at hlt
      exact absurd (Nat.lt_trans hlt hlt') (Nat.lt_irrefl _)

/-- A piece that cannot be refined shows that a division is faulty. -/
theorem Reached.faulty (hwritable : AllWritable labels clauses)
    (h : Reached labels clauses numbers pieces) {failure : Failure}
    (hpieces : pieces.mapM (Piece.refine numbers.get?) = .error failure) :
    Faulty labels (definitionsOf clauses) (expressionsOf clauses) ∧
      ReportsDivision clauses failure := by
  obtain ⟨p, hp, hfailure⟩ := exists_of_mapM_eq_error hpieces
  obtain ⟨c, hc, -, hfollows⟩ := h.clause_of_mem hp
  -- whichever clause the piece comes from, it is the expression of the clause that fails
  obtain ⟨e, he, hrefine⟩ :
      ∃ e ∈ expressionsOf clauses, e.tree.refine numbers.get? = .error failure := by
    cases hfollows with
    | plain _ _ => cases hfailure
    | operand e t hrefine =>
      refine ⟨e, List.mem_filterMap.2 ⟨_, hc, rfl⟩, ?_⟩
      rw [← hrefine _ (Extends.refl _)]
      exact Trace.except_map_eq_error.1 hfailure
    | definition d t hrefine =>
      refine ⟨d.expression, List.mem_filterMap.2 ⟨_, hc, rfl⟩, ?_⟩
      rw [← hrefine _ (Extends.refl _)]
      exact Trace.except_map_eq_error.1 hfailure
  have hlegible := (e.legible_tree _).2 (hwritable.legible e he _ h.sound)
  obtain ⟨⟨d, hd, ⟨a, ha⟩, hzero⟩, o, s, hs, ho, rfl⟩ := Tree.refine_eq_error hlegible hrefine
  rw [Expression.divisions_tree] at hd
  obtain ⟨⟨l, r⟩, hlr, rfl⟩ := List.mem_map.1 hd
  rw [Expression.eval_tree] at ha hzero
  refine ⟨⟨e, he, (l, r), hlr, ?_, numbers.get?, h.sound, hzero⟩, o, e, he, s, hs, ho, rfl⟩
  intro x hx
  -- both operands have values in the table, and only determined names are in it
  rcases List.mem_append.1 hx with hx | hx
  · obtain ⟨m, hm⟩ := Expression.exists_of_eval ha x hx
    exact (h.sound x m hm).determined
  · obtain ⟨m, hm⟩ := Expression.exists_of_eval hzero x hx
    exact (h.sound x m hm).determined

/-- **Resolution comes to rest**, or ends at a division by zero. -/
theorem settle_clauses (hnamed : WellNamed labels clauses) (hwritable : AllWritable labels clauses)
    (h : Reached labels clauses numbers pieces) (rounds : Nat)
    (definitions : Table (Option Location)) :
    (∃ failure, (settle rounds ⟨flat pieces, numbered numbers, definitions⟩).outcome =
        .error failure ∧ Faulty labels (definitionsOf clauses) (expressionsOf clauses) ∧
        ReportsDivision clauses failure) ∨
      ∃ rounds' numbers' pieces' definitions',
        (settle rounds ⟨flat pieces, numbered numbers, definitions⟩).outcome =
          .ok (rounds', ⟨⟨flat pieces', numbered numbers', definitions'⟩, false,
            pieces'.filterMap Piece.name?⟩) ∧ AtRest labels clauses numbers' pieces' := by
  induction hn : weight (flat pieces) using Nat.strongRecOn
    generalizing numbers pieces rounds definitions with
  | ind n ih =>
    -- the weight of the stream falls with every round that makes progress
    have hadvanced := h.advance hnamed
    have hentries : ∀ entry ∈ entries pieces, Numeral.isWritable entry.2 = true := by
      rintro ⟨x, n⟩ hx
      obtain ⟨d, hd, -, heval⟩ := h.eval_of_mem_entries hx
      exact hwritable.values d.name n (.constant hd h.sound heval)
    obtain ⟨definitions', progressed, hround⟩ := round_pieces pieces numbers definitions
      (h.get?_of_mem_names hnamed) (h.nodup_names hnamed) hentries
      (fun x n hx => hwritable.values x n (hadvanced.sound x n hx))
    cases hpieces : (unsettled pieces).mapM
        (Piece.refine (Table.get? (numbers ++ entries pieces))) with
    | error failure =>
      rw [hpieces] at hround
      exact .inl ⟨failure, settle_of_error hround rounds, hadvanced.faulty hwritable hpieces⟩
    | ok pieces' =>
      rw [hpieces] at hround
      cases progressed with
      -- the invariant holds after this round, and the stream is lighter
      | true =>
        have hlt := weight_round_lt hround rfl
        rw [settle_of_progress hround rfl]
        exact ih _ (hn ▸ hlt) (hadvanced.refine hpieces) _ _ rfl
      -- the stream is unchanged, so the table and the pieces are at rest
      | false =>
        have hflat : flat pieces' = flat pieces :=
          congrArg Program.symbols (round_unchanged hround rfl)
        right
        refine ⟨rounds + 1, _, pieces', definitions', ?_, h.atRest hnamed hpieces hflat⟩
        rw [settle_of_rest hround rfl, names_of_forall₂_refine (forall₂_of_mapM hpieces)]

/-! ### What is known at rest -/

namespace AtRest

/-- What is left of a clause is its expression, refined with the table. -/
theorem refine_expression (h : AtRest labels clauses numbers pieces) {c : Clause} {p : Piece}
    (hp : p ∈ pieces) (hfollows : c.Follows numbers.get? p)
    {e : Expression (Option Location) .sum} (he : c.expression? = some e) :
    ∃ t, p.tree? = some t ∧ e.tree.refine numbers.get? = .ok t := by
  -- refining changes none of the pieces any more
  have hrefine : p.refine numbers.get? = .ok p :=
    List.forall₂_same.1 (forall₂_of_mapM h.refined) p hp
  cases hfollows with
  | plain _ _ => cases he
  | operand e t hsame =>
    cases he
    obtain ⟨t', ht, heq⟩ := Trace.except_map_eq_ok.1 hrefine
    cases heq
    exact ⟨t, rfl, (hsame _ (Extends.refl _)).symm.trans ht⟩
  | definition d t hsame =>
    cases he
    obtain ⟨t', ht, heq⟩ := Trace.except_map_eq_ok.1 hrefine
    cases heq
    exact ⟨t, rfl, (hsame _ (Extends.refl _)).symm.trans ht⟩

/-- A clause that is open has left something. -/
theorem exists_piece (h : AtRest labels clauses numbers pieces) {c : Clause} (hc : c ∈ clauses)
    (hopen : c.isOpen numbers = true) : ∃ p ∈ pieces, c.Follows numbers.get? p :=
  exists_right_of_forall₂ h.follows (List.mem_filter.2 ⟨hc, hopen⟩)

/-- No determined name is left behind. -/
theorem exists_of_determined (h : AtRest labels clauses numbers pieces) {x : String}
    (hx : Determined labels (definitionsOf clauses) x) : ∃ n, numbers.get? x = some n := by
  -- on how the name is determined
  induction hx with
  | label hlabel =>
    obtain ⟨constants, rfl, -⟩ := h.table
    exact ⟨_, Table.extends_append _ _ _ _ hlabel⟩
  | @constant d hd _ ih =>
    obtain ⟨c, hc, hcd⟩ := List.mem_filterMap.1 hd
    obtain rfl : c = .definition d := by
      cases c <;> cases hcd
      rfl
    by_contra hnone
    have hnone : numbers.get? d.name = none := by
      rw [Option.eq_none_iff_forall_ne_some]
      exact fun n hn => hnone ⟨n, hn⟩
    -- all names of the expression have values, so what is left of it is a literal
    obtain ⟨p, hp, hfollows⟩ :=
      h.exists_piece hc (by simp [Clause.isOpen, Clause.definition?, hnone])
    obtain ⟨t, htree, ht⟩ := h.refine_expression hp hfollows rfl
    obtain ⟨n, hn⟩ := Tree.exists_eval_of_refine ht fun x hx => by
      rw [Expression.names_tree] at hx
      obtain ⟨m, hm⟩ := ih x hx
      rw [hm]
      exact Option.some_ne_none m
    have hentry : (d.name, n) ∈ entries pieces := by
      refine List.mem_filterMap.2 ⟨p, hp, ?_⟩
      cases hfollows
      cases htree
      rw [Piece.entry?, Tree.value?_refine ht, hn]
      rfl
    -- but a literal definition would have gone over to the table
    rw [h.entries_eq] at hentry
    cases hentry

/-- **At rest the table has the determined names**, and no others. -/
theorem exists_iff_determined (h : AtRest labels clauses numbers pieces) (x : String) :
    (∃ n, numbers.get? x = some n) ↔ Determined labels (definitionsOf clauses) x :=
  ⟨fun ⟨n, hn⟩ => (h.sound x n hn).determined, h.exists_of_determined⟩

/-- No expression has a division by zero that the table shows. -/
theorem not_fails (h : AtRest labels clauses numbers pieces)
    {e : Expression (Option Location) .sum} (he : e ∈ expressionsOf clauses) :
    ¬ e.tree.Fails numbers.get? := by
  obtain ⟨c, hc, hce⟩ := List.mem_filterMap.1 he
  by_cases hopen : c.isOpen numbers = true
  · obtain ⟨p, hp, hfollows⟩ := h.exists_piece hc hopen
    obtain ⟨t, -, ht⟩ := h.refine_expression hp hfollows hce
    exact Tree.not_fails_of_refine ht
  · -- a definition that has gone over to the table has a value
    cases c with
    | plain _ _ => cases hce
    | operand _ => exact absurd rfl hopen
    | definition d =>
      cases hce
      have hd : d ∈ definitionsOf clauses := List.mem_filterMap.2 ⟨.definition d, hc, rfl⟩
      cases hn : numbers.get? d.name with
      | none => exact absurd (by simp [Clause.isOpen, Clause.definition?, hn]) hopen
      | some n =>
        refine Tree.not_fails_of_eval (n := n) ?_
        rw [Expression.eval_tree]
        exact h.evaluated d hd n hn

/-- **At rest no division is faulty.** -/
theorem not_faulty (hnamed : WellNamed labels clauses) (h : AtRest labels clauses numbers pieces) :
    ¬ Faulty labels (definitionsOf clauses) (expressionsOf clauses) := by
  rintro ⟨e, he, d, hd, hnames, ρ, hρ, hzero⟩
  have hfails : ∀ c ∈ e.divisions, (∃ a, c.1.eval numbers.get? = some a) →
      c.2.eval numbers.get? ≠ some 0 := by
    rintro c hc ⟨a, ha⟩ hc0
    refine h.not_fails he ⟨(c.1.tree, c.2.tree), ?_, ⟨a, by rw [Expression.eval_tree, ha]⟩,
      by rw [Expression.eval_tree, hc0]⟩
    rw [Expression.divisions_tree]
    exact List.mem_map.2 ⟨c, hc, rfl⟩
  -- the divisor is zero for some sound table, and the table at rest agrees with it on its names
  have hdivisor : d.2.eval numbers.get? = some 0 := by
    rw [← hzero]
    refine d.2.eval_congr fun x hx => ?_
    obtain ⟨m, hm⟩ := h.exists_of_determined (hnames x (List.mem_append_right _ hx))
    obtain ⟨n, hn⟩ := Expression.exists_of_eval hzero x hx
    rw [hm, hn, HasValue.unique hnamed.distinct hnamed.new (h.sound x m hm) (hρ x n hn)]
  rcases d.1.exists_eval_or_division
      (fun x hx => h.exists_of_determined (hnames x (List.mem_append_left _ hx))) with
    hdividend | ⟨c, hc, hca, hc0⟩
  · exact hfails d hd hdividend hdivisor
  · -- the dividend itself divides by zero
    exact hfails c (Expression.divisions_dividend hd hc) hca hc0

end AtRest

end Rest

end RomAsm
