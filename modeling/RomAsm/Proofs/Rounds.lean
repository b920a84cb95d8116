import Mathlib.Data.List.Nodup
import RomAsm.Proofs.Bracketing
import RomAsm.Proofs.Refining

/-!
# A round of resolution on trees

Resolution works on a flat stream. Where the stream is made of the symbols of trees, what one round
does to the stream is what refining does to each of the trees.

A stream is cut into `Piece`s: symbols that resolution passes over, operands and definitions. They
may follow each other in any order, because none of them begins with a symbol that could have to do
with what stands before it (`fresh_flat`). The three parts of a round are done piece by piece:

* `define_pieces` — the definitions with a literal value leave the stream;
* `substitute_pieces` — values are put in the place of names;
* `foldedFrom_pieces` — trees are evaluated; `foldedFrom_tree` does it for one tree, on any stack.

`round_pieces` puts them together: a round goes over to the table with one more value for each
literal definition, and refines what is left with that table.
-/

namespace RomAsm

open Grouping Resolution

/-! ### Tables of numbers -/

/-- A table of numbers, as a table of values. -/
def numbered (numbers : Table Int) : Table Value := numbers.map fun entry => (entry.1, some entry.2)

namespace Table

/-- Looking up a number in the table of values. -/
theorem get?_numbered (numbers : Table Int) (x : String) :
    (numbered numbers).get? x = (numbers.get? x).map some := by
  induction numbers with
  | nil => rfl
  | cons entry numbers ih =>
    obtain ⟨y, n⟩ := entry
    change List.lookup x ((y, some n) :: numbered numbers) = _
    rw [get?, List.lookup_cons, List.lookup_cons]
    cases x == y with
    | true => rfl
    | false => exact ih

/-- An earlier entry hides a later one. -/
theorem get?_append {α : Type} (t u : Table α) (x : String) :
    get? (t ++ u) x = (get? t x).or (get? u x) :=
  List.lookup_append

/-- More entries at the end leave those in front alone. -/
theorem extends_append (t u : Table Int) : Extends t.get? (get? (t ++ u)) := by
  intro x n hx
  rw [get?_append, hx, Option.some_or]

theorem put_numbered {numbers : Table Int} {x : String} (h : numbers.get? x = none) (n : Int) :
    (numbered numbers).put x (some n) = numbered (numbers ++ [(x, n)]) := by
  rw [put, has, get?_numbered, h]
  simp [numbered]

/-- A new name does not change what the others stand for. -/
theorem get?_put_of_get? {α : Type} {t : Table α} {x y : String} {v : α} (hnew : t.has y = false)
    (hx : t.get? x = some v) (w : α) : (t.put y w).get? x = some v := by
  rw [put, hnew, if_neg Bool.false_ne_true, get?_append, hx, Option.some_or]

/-- A name that was put has its value. -/
theorem get?_put_self {α : Type} {t : Table α} {x : String} (hnew : t.has x = false) (w : α) :
    (t.put x w).get? x = some w := by
  have hnone : t.get? x = none := Option.not_isSome_iff_eq_none.1 (by simpa [has] using hnew)
  rw [put, hnew, if_neg Bool.false_ne_true, get?_append, hnone, Option.none_or, get?,
    List.lookup_cons, beq_self_eq_true]

/-- The value of a name has nothing to do with that of another. -/
theorem get?_put_of_ne {α : Type} {t : Table α} {x y : String} (hne : x ≠ y) (w : α) :
    (t.put y w).get? x = t.get? x := by
  have hbeq : (x == y) = false := beq_false_of_ne hne
  -- a known name keeps its entry, with another value in it
  have hreplace :
      get? (t.map fun entry => if entry.1 == y then (y, w) else entry) x = t.get? x := by
    induction t with
    | nil => rfl
    | cons entry t ih =>
      obtain ⟨z, v⟩ := entry
      rw [get?, List.map_cons, List.lookup_cons, get?, List.lookup_cons]
      by_cases hz : z = y
      · rw [if_pos (beq_iff_eq.2 hz), hz, hbeq]
        exact ih
      · rw [if_neg (by simpa using hz)]
        cases x == z with
        | true => rfl
        | false => exact ih
  -- a new name has its entry behind all others
  have happend : get? (t ++ [(y, w)]) x = t.get? x := by
    rw [get?_append]
    change (t.get? x).or (List.lookup x [(y, w)]) = t.get? x
    rw [List.lookup_cons, hbeq]
    exact Option.or_none
  -- a name that is known, and one that is not
  unfold put
  split
  · exact hreplace
  · exact happend

/-- A table with one entry. -/
theorem get?_singleton (x y : String) (n : Int) :
    get? [(x, n)] y = if y = x then some n else none := by
  rw [get?, List.lookup_cons]
  by_cases h : y = x
  · rw [if_pos h, h, beq_self_eq_true]
  · rw [if_neg h, beq_false_of_ne h]
    rfl

/-- A name that is not in the table has no value. -/
theorem get?_eq_none {α : Type} {t : Table α} {x : String} (h : x ∉ t.names) :
    t.get? x = none := by
  refine List.lookup_eq_none_iff.2 fun entry hentry => ?_
  have hne : x ≠ entry.1 := fun hx => h (hx ▸ List.mem_map_of_mem hentry)
  exact bne_iff_ne.2 hne

/-- A name that is in the table has one. -/
theorem exists_of_mem_names {α : Type} {t : Table α} {x : String} (h : x ∈ t.names) :
    ∃ a, t.get? x = some a := by
  refine Option.ne_none_iff_exists'.1 fun hnone => ?_
  obtain ⟨entry, hentry, rfl⟩ := List.mem_map.1 h
  exact bne_iff_ne.1 (List.lookup_eq_none_iff.1 hnone entry hentry) rfl

theorem mem_of_get? {α : Type} {t : Table α} {x : String} {a : α} (h : t.get? x = some a) :
    (x, a) ∈ t := by
  obtain ⟨before, after, rfl, -⟩ := List.lookup_eq_some_iff.1 h
  exact List.mem_append_right _ List.mem_cons_self

/-- An entry is looked up, if no name has two. -/
theorem get?_of_mem {α : Type} {t : Table α} (hdistinct : t.names.Nodup) {x : String} {a : α}
    (h : (x, a) ∈ t) : t.get? x = some a := by
  obtain ⟨b, hb⟩ := exists_of_mem_names (List.mem_map_of_mem (f := Prod.fst) h)
  have heq : (x, b) = (x, a) := List.inj_on_of_nodup_map hdistinct (mem_of_get? hb) h rfl
  cases heq
  exact hb

end Table

/-! ### Pieces of a stream -/

/-- Whether resolution passes over a symbol: it is neither a name nor an operator. -/
def Symbol.isInert (s : Symbol) : Bool := s.kind != .identifier && s.kind != .operator

/-- A piece of a stream that resolution works on. -/
inductive Piece where
  | plain (s : Symbol) (h : s.isInert = true)
  | operand (t : Tree)
  | definition (name : String) (place equals : Option Location) (t : Tree)

namespace Piece

/-- The symbols of a piece. -/
def symbols : Piece → List Symbol
  | plain s _ => [s]
  | operand t => t.symbols
  | definition name place equals t =>
    ⟨.identifier, name, none, place⟩ :: .ofOperator "=" equals :: t.symbols

/-- The name that a piece defines. -/
def name? : Piece → Option String
  | definition name _ _ _ => some name
  | _ => none

/-- The tree of a piece. -/
def tree? : Piece → Option Tree
  | plain _ _ => none
  | operand t | definition _ _ _ t => some t

/-- The name that a piece defines and the number that it is defined as, if that is a literal. -/
def entry? : Piece → Option (String × Int)
  | definition name _ _ t => t.value?.map fun n => (name, n)
  | _ => none

/-- A piece with the values of names in the place of the names. -/
def substitute (ρ : String → Option Int) : Piece → Piece
  | plain s h => plain s h
  | operand t => operand (t.substitute ρ)
  | definition name place equals t => definition name place equals (t.substitute ρ)

/-- A piece with its tree refined. -/
def refine (ρ : String → Option Int) : Piece → Except Failure Piece
  | plain s h => .ok (plain s h)
  | operand t => (t.refine ρ).map operand
  | definition name place equals t => (t.refine ρ).map (definition name place equals)

end Piece

/-- The stream that is made of some pieces. -/
def flat (pieces : List Piece) : List Symbol := pieces.flatMap Piece.symbols

/-- The names that are defined as literals, with their values. -/
def entries (pieces : List Piece) : Table Int := pieces.filterMap Piece.entry?

/-- The pieces other than definitions with a literal value. -/
def unsettled (pieces : List Piece) : List Piece := pieces.filter fun p => p.entry?.isNone

section Definition

variable {t : Tree} (name : String) (place equals : Option Location) (pieces : List Piece)

/-- A definition with a literal value is an entry of the table to come. -/
theorem entries_cons_literal {n : Int} (h : t.value? = some n) :
    entries (.definition name place equals t :: pieces) = (name, n) :: entries pieces := by
  simp [entries, Piece.entry?, h]

theorem entries_cons_pending (h : t.value? = none) :
    entries (.definition name place equals t :: pieces) = entries pieces := by
  simp [entries, Piece.entry?, h]

theorem unsettled_cons_literal {n : Int} (h : t.value? = some n) :
    unsettled (.definition name place equals t :: pieces) = unsettled pieces := by
  simp [unsettled, Piece.entry?, h]

theorem unsettled_cons_pending (h : t.value? = none) :
    unsettled (.definition name place equals t :: pieces) =
      .definition name place equals t :: unsettled pieces := by
  simp [unsettled, Piece.entry?, h]

end Definition

/-- A stream does not begin with an operator, unless it is an opening parenthesis. -/
def Fresh (symbols : List Symbol) : Prop :=
  ∀ s rest, symbols = s :: rest → s.kind = .operator → s.isOpen = true

/-- A tree begins with a number, a name or an opening parenthesis. -/
theorem Tree.fresh (t : Tree) (rest : List Symbol) : Fresh (t.symbols ++ rest) := by
  intro s rest' h hs
  cases t with
  | literal text n place =>
    cases h
    cases hs
  | name x place =>
    cases h
    cases hs
  | group opening t closing =>
    cases h
    exact isOpen_ofOperator_open opening
  | node opening l o place r closing =>
    cases h
    exact isOpen_ofOperator_open opening

/-- **Pieces can follow each other in any order**: none of them begins with a symbol that could have
to do with what stands before it. -/
theorem fresh_flat (pieces : List Piece) : Fresh (flat pieces) := by
  intro s rest h hs
  cases pieces with
  | nil => cases h
  | cons p pieces =>
    cases p with
    | plain t ht =>
      cases h
      -- an inert symbol is no operator
      simp [Symbol.isInert, hs] at ht
    | operand t => exact t.fresh (flat pieces) s rest h hs
    | definition name place equals t =>
      cases h
      cases hs

/-- So what follows a piece is none of the operators that make something else of its last symbol. -/
theorem Fresh.any_isOp {symbols : List Symbol} (h : Fresh symbols) (text : String)
    (texts : List String) (hopen : "(" ∉ text :: texts) :
    (symbols.head?.any fun s => s.isOp (text :: texts)) = false := by
  cases symbols with
  | nil => rfl
  | cons s rest =>
    rw [List.head?_cons, Option.any_some]
    by_contra hs
    have hs : s.isOp (text :: texts) = true := by simpa using hs
    simp only [Symbol.isOp, Bool.and_eq_true, beq_iff_eq, List.isEmpty_cons, Bool.false_or,
      List.contains_iff_mem] at hs
    -- a fresh stream begins with no operator but an opening parenthesis
    have ho := h s rest rfl hs.1
    simp only [Symbol.isOpen, Symbol.isOp, Bool.and_eq_true, List.isEmpty_cons, Bool.false_or,
      List.contains_iff_mem, List.mem_singleton] at ho
    rw [ho.2] at hs
    exact hopen hs.2

/-- Every symbol of the first list has a property together with what follows it, when the second
list comes behind. -/
def Along (p : Symbol → List Symbol → Prop) : List Symbol → List Symbol → Prop
  | [], _ => True
  | s :: symbols, rest => p s (symbols ++ rest) ∧ Along p symbols rest

/-- A property along two lists, the first of which is followed by the second. -/
theorem Along.append {p : Symbol → List Symbol → Prop} {a b rest : List Symbol}
    (ha : Along p a (b ++ rest)) (hb : Along p b rest) : Along p (a ++ b) rest := by
  induction a with
  | nil => exact hb
  | cons s a ih =>
    refine ⟨?_, ih ha.2⟩
    change p s ((a ++ b) ++ rest)
    rw [List.append_assoc]
    exact ha.1

/-- What holds of numbers, of operators and of names that no colon or equals sign follows holds
along a tree. -/
theorem Tree.along {p : Symbol → List Symbol → Prop}
    (hinteger : ∀ text n place rest, p ⟨.integer, text, some n, place⟩ rest)
    (hoperator : ∀ text place rest, text ∈ ["(", ")", "+", "-", "*", "/", "%"] →
      p (.ofOperator text place) rest)
    (hname : ∀ x place rest, (rest.head?.any fun s => s.isOp [":", "="]) = false →
      p ⟨.identifier, x, none, place⟩ rest) (t : Tree) {rest : List Symbol}
    (h : (rest.head?.any fun s => s.isOp [":", "="]) = false) : Along p t.symbols rest := by
  induction t generalizing rest with
  | literal text n place => exact ⟨hinteger text n place rest, trivial⟩
  | name x place => exact ⟨hname x place rest h, trivial⟩
  | group opening t closing ih =>
    have hclose : Along p [.ofOperator ")" closing] rest :=
      ⟨hoperator ")" closing rest (by decide), trivial⟩
    exact ⟨hoperator "(" opening _ (by decide), (ih rfl).append hclose⟩
  | node opening l o place r closing ihl ihr =>
    have hclose : Along p [.ofOperator ")" closing] rest :=
      ⟨hoperator ")" closing rest (by decide), trivial⟩
    have htext : o.text ∈ ["(", ")", "+", "-", "*", "/", "%"] := by
      rcases o with ⟨_ | _⟩ | ⟨_ | _ | _⟩ <;> decide
    -- the left operand is followed by the operator, which is neither a colon nor an equals sign
    have hfollows : ((o.symbol place).isOp [":", "="]) = false := by
      rcases o with ⟨_ | _⟩ | ⟨_ | _ | _⟩ <;> rfl
    have hleft : Along p l.symbols
        ((o.symbol place :: (r.symbols ++ [.ofOperator ")" closing])) ++ rest) := ihl hfollows
    exact ⟨hoperator "(" opening _ (by decide),
      hleft.append ⟨hoperator o.text place _ htext, (ihr rfl).append hclose⟩⟩

/-! ### Defining -/

/-- A number that can be written is written by its digits. -/
theorem numeral_eq_ok {n : Int} (h : Numeral.isWritable n = true) :
    numeral n = .ok (Numeral.decimal n) := by
  rw [numeral, Numeral.written, if_pos h]
  rfl

/-- No symbol of the first list defines a constant when the second list follows. -/
abbrev Quiet : List Symbol → List Symbol → Prop :=
  Along fun s following => isDefinition s following = false

theorem quiet_singleton {s : Symbol} (h : s.isIdentifier = false) (rest : List Symbol) :
    Quiet [s] rest :=
  ⟨by simp [isDefinition, h], trivial⟩

/-- A tree does not define anything, unless an equals sign follows. -/
theorem Tree.quiet (t : Tree) {rest : List Symbol} (h : Fresh rest) : Quiet t.symbols rest := by
  refine t.along (fun _ _ _ _ => rfl) (fun _ _ _ _ => rfl) (fun x place rest h => ?_)
    (h.any_isOp ":" ["="] (by decide))
  change (rest.head?.any fun s => s.isOp ["="]) = false
  cases rest with
  | nil => rfl
  | cons s rest =>
    simp only [List.head?_cons, Option.any_some, Symbol.isOp] at h ⊢
    by_cases hs : s.text = "=" <;> simp_all

/-- Symbols that define nothing stay in the stream. -/
theorem define_quiet {tags : Table Value} {definitions : Table (Option Location)}
    {symbols rest : List Symbol} {d : Defined} (hquiet : Quiet symbols rest)
    (h : (define tags definitions rest).outcome = .ok d) :
    (define tags definitions (symbols ++ rest)).outcome =
      .ok { d with symbols := symbols ++ d.symbols } := by
  induction symbols with
  | nil => exact h
  | cons s symbols ih =>
    have hrole : role tags definitions s (symbols ++ rest) = .ok .plain := by
      unfold role
      rw [hquiet.1, if_neg Bool.false_ne_true]
      rfl
    rw [List.cons_append, define]
    exact Trace.outcome_bind_eq_ok.2
      ⟨.plain, hrole, Trace.outcome_bind_eq_ok.2 ⟨_, ih hquiet.2, rfl⟩⟩

/-- The role of a name that a tree is put equal to. -/
theorem role_definition {numbers : Table Int} {name : String} (hnew : numbers.get? name = none)
    (definitions : Table (Option Location)) (place equals : Option Location) (t : Tree)
    {rest : List Symbol} (hrest : Fresh rest) :
    role (numbered numbers) definitions ⟨.identifier, name, none, place⟩
      (.ofOperator "=" equals :: (t.symbols ++ rest)) =
        .ok (match t.value? with | some n => .literal (some n) | none => .pending) := by
  have hnew : (numbered numbers).has name = false := by
    rw [Table.has, Table.get?_numbered, hnew]
    rfl
  have harithmetic : rest.head?.any Symbol.isArithmetic = false :=
    hrest.any_isOp "+" ["-", "*", "/", "%"] (by decide)
  have hcheck : Program.checkNew (numbered numbers) definitions
      ⟨.identifier, name, none, place⟩ = .ok () := by
    rw [Program.checkNew, hnew, if_neg Bool.false_ne_true]
  have hdefinition : isDefinition ⟨.identifier, name, none, place⟩
      (.ofOperator "=" equals :: (t.symbols ++ rest)) = true := rfl
  unfold role
  rw [if_pos hdefinition, hcheck]
  cases t with
  -- only here the value is complete, and no operator follows that could go on with it
  | literal text n start =>
    change Except.ok (if isComplete ⟨.integer, text, some n, start⟩ rest then
      Role.literal (some n) else .pending) = _
    rw [isComplete, harithmetic]
    rfl
  | name _ _ => rfl
  | group _ _ _ => rfl
  | node _ _ _ _ _ _ => rfl

/-- A definition whose value is still to be found stays, and its name is pending. -/
theorem define_pending {numbers : Table Int} {name : String} (hnew : numbers.get? name = none)
    {definitions : Table (Option Location)} (place equals : Option Location) {t : Tree}
    (ht : t.value? = none) {rest : List Symbol} (hrest : Fresh rest) {d : Defined}
    (h : (define (numbered numbers) definitions rest).outcome = .ok d) :
    (define (numbered numbers) definitions (⟨.identifier, name, none, place⟩ ::
        .ofOperator "=" equals :: (t.symbols ++ rest))).outcome =
      .ok { d with
        symbols := ⟨.identifier, name, none, place⟩ ::
          .ofOperator "=" equals :: (t.symbols ++ d.symbols)
        pending := name :: d.pending } := by
  have hrole := role_definition hnew definitions place equals t hrest
  rw [ht] at hrole
  have hquiet : Quiet (.ofOperator "=" equals :: t.symbols) rest := ⟨rfl, t.quiet hrest⟩
  rw [define]
  exact Trace.outcome_bind_eq_ok.2
    ⟨.pending, hrole, Trace.outcome_bind_eq_ok.2 ⟨_, define_quiet hquiet h, rfl⟩⟩

/-- A definition with a literal value goes, and its name has the value from there on. -/
theorem define_literal {numbers : Table Int} {name : String} (hnew : numbers.get? name = none)
    {definitions : Table (Option Location)} (place equals : Option Location) {t : Tree} {n : Int}
    (ht : t.value? = some n) (hn : Numeral.isWritable n = true) {rest : List Symbol}
    (hrest : Fresh rest) {d : Defined}
    (h : (define (numbered (numbers ++ [(name, n)]))
      (Program.recordPlace definitions ⟨.identifier, name, none, place⟩) rest).outcome = .ok d) :
    (define (numbered numbers) definitions (⟨.identifier, name, none, place⟩ ::
        .ofOperator "=" equals :: (t.symbols ++ rest))).outcome =
      .ok { d with changed := true } := by
  have hrole := role_definition hnew definitions place equals t hrest
  rw [ht] at hrole
  have htext : valueText (some n) = .ok (Numeral.decimal n) := by
    rw [valueText, numeral_eq_ok hn]
  rw [← Table.put_numbered hnew] at h
  obtain ⟨text, start, rfl⟩ := Tree.eq_literal_of_value? ht
  change (define _ _ (_ :: _ :: _ :: rest)).outcome = _
  rw [define]
  refine Trace.outcome_bind_eq_ok.2 ⟨.literal (some n), hrole, ?_⟩
  refine Trace.outcome_bind_eq_ok.2 ⟨_, htext, ?_⟩
  exact Trace.outcome_bind_eq_ok.2 ⟨(), rfl, Trace.outcome_bind_eq_ok.2 ⟨_, h, rfl⟩⟩

/-- **Defining, piece by piece.** Definitions with a literal value leave the stream, and the names
of the others are pending. -/
theorem define_pieces (pieces : List Piece) (numbers : Table Int)
    (definitions : Table (Option Location))
    (hnew : ∀ x ∈ pieces.filterMap Piece.name?, numbers.get? x = none)
    (hdistinct : (pieces.filterMap Piece.name?).Nodup)
    (hwritable : ∀ entry ∈ entries pieces, Numeral.isWritable entry.2 = true) :
    ∃ definitions' changed, (define (numbered numbers) definitions (flat pieces)).outcome =
      .ok ⟨flat (unsettled pieces), numbered (numbers ++ entries pieces), definitions',
        (unsettled pieces).filterMap Piece.name?, changed⟩ := by
  induction pieces generalizing numbers definitions with
  | nil => exact ⟨definitions, false, by rw [entries, List.filterMap_nil, List.append_nil]; rfl⟩
  | cons p pieces ih =>
    cases p with
    -- neither a plain symbol nor an operand defines anything
    | plain s hs =>
      obtain ⟨definitions', changed, h⟩ := ih numbers definitions hnew hdistinct hwritable
      refine ⟨definitions', changed, define_quiet (quiet_singleton ?_ _) h⟩
      simp only [Symbol.isInert, Bool.and_eq_true, bne_iff_ne] at hs
      simpa [Symbol.isIdentifier] using hs.1
    | operand t =>
      obtain ⟨definitions', changed, h⟩ := ih numbers definitions hnew hdistinct hwritable
      exact ⟨definitions', changed,
        define_quiet (t.quiet (fresh_flat pieces)) h⟩
    -- by whether the value of the definition is known yet
    | definition name place equals t =>
      have hnames : (Piece.definition name place equals t :: pieces).filterMap Piece.name? =
          name :: pieces.filterMap Piece.name? := rfl
      rw [hnames] at hnew hdistinct
      obtain ⟨hname, hdistinct⟩ := List.nodup_cons.1 hdistinct
      cases ht : t.value? with
      | none =>
        rw [entries_cons_pending name place equals pieces ht] at hwritable ⊢
        rw [unsettled_cons_pending name place equals pieces ht]
        obtain ⟨definitions', changed, h⟩ := ih numbers definitions
          (fun x hx => hnew x (List.mem_cons_of_mem _ hx)) hdistinct hwritable
        exact ⟨definitions', changed, define_pending (hnew name List.mem_cons_self) place equals ht
          (fresh_flat pieces) h⟩
      | some n =>
        rw [entries_cons_literal name place equals pieces ht] at hwritable ⊢
        rw [unsettled_cons_literal name place equals pieces ht]
        -- the names are distinct, so the new entry gives a value to none of the later ones
        have hlater : ∀ x ∈ pieces.filterMap Piece.name?,
            Table.get? (numbers ++ [(name, n)]) x = none := by
          intro x hx
          rw [Table.get?_append, hnew x (List.mem_cons_of_mem _ hx), Table.get?_singleton,
            if_neg (ne_of_mem_of_not_mem hx hname)]
          rfl
        obtain ⟨definitions', changed, h⟩ := ih (numbers ++ [(name, n)])
          (Program.recordPlace definitions ⟨.identifier, name, none, place⟩) hlater hdistinct
          (fun entry hentry => hwritable entry (List.mem_cons_of_mem _ hentry))
        rw [List.append_assoc] at h
        exact ⟨definitions', true, define_literal (hnew name List.mem_cons_self) place equals ht
          (hwritable _ List.mem_cons_self) (fresh_flat pieces) h⟩

/-! ### Substituting -/

/-- A value that can be written becomes a number, at the place that is given. -/
theorem ofValue_eq_ok {n : Int} (h : Numeral.isWritable n = true) (place : Option Location) :
    Symbol.ofValue (some n) place = .ok ⟨.integer, Numeral.decimal n, some n, place⟩ := by
  rw [Symbol.ofValue, valueText, numeral_eq_ok h]
  rfl

/-- A symbol that is no name, or is a name that is being defined, stays. -/
theorem substitute_cons {tags : Table Value} {s : Symbol} {rest more : List Symbol} {changed : Bool}
    (hs : (s.isIdentifier && !isDefinition s rest) = false)
    (h : Resolution.substitute tags rest = .ok (more, changed)) :
    Resolution.substitute tags (s :: rest) = .ok (s :: more, changed) := by
  rw [Resolution.substitute, hs, if_neg Bool.false_ne_true, h]
  rfl

section Substituting

variable {numbers : Table Int}
  (hwritable : ∀ x n, numbers.get? x = some n → Numeral.isWritable n = true)

include hwritable

/-- **Substituting in a tree**, whatever follows it, unless that is an equals sign, which would make
a definition of its last name. -/
theorem substitute_tree (t : Tree) {rest more : List Symbol} {changed : Bool}
    (hrest : (rest.head?.any fun s => s.isOp ["="]) = false)
    (h : Resolution.substitute (numbered numbers) rest = .ok (more, changed)) :
    ∃ changed', Resolution.substitute (numbered numbers) (t.symbols ++ rest) =
      .ok ((t.substitute numbers.get?).symbols ++ more, changed') := by
  induction t generalizing rest more changed with
  | literal text n place => exact ⟨changed, substitute_cons rfl h⟩
  | name x place =>
    have hname : (Symbol.isIdentifier ⟨.identifier, x, none, place⟩ &&
        !isDefinition ⟨.identifier, x, none, place⟩ rest) = true := by
      simp only [isDefinition, hrest]
      rfl
    change ∃ changed', Resolution.substitute _ (⟨.identifier, x, none, place⟩ :: rest) = _
    rw [Resolution.substitute, if_pos hname, Table.get?_numbered, Tree.substitute]
    -- a name without a value stays for a later round
    cases hx : numbers.get? x with
    | none =>
      rw [h]
      exact ⟨changed, rfl⟩
    | some n =>
      have hvalue := ofValue_eq_ok (hwritable x n hx) place
      refine ⟨true, ?_⟩
      change (Symbol.ofValue (some n) place >>= _) = _
      rw [hvalue, h]
      rfl
  | group opening t closing ih =>
    have hclose : Resolution.substitute (numbered numbers) (.ofOperator ")" closing :: rest) =
        .ok (.ofOperator ")" closing :: more, changed) := substitute_cons rfl h
    obtain ⟨changed', ht⟩ := ih rfl hclose
    refine ⟨changed', ?_⟩
    simp only [Tree.symbols, Tree.substitute, List.cons_append, List.append_assoc, List.nil_append]
    exact substitute_cons rfl ht
  | node opening l o place r closing ihl ihr =>
    -- the stream is taken from its end: what follows an operand is substituted before the operand
    have hclose : Resolution.substitute (numbered numbers) (.ofOperator ")" closing :: rest) =
        .ok (.ofOperator ")" closing :: more, changed) := substitute_cons rfl h
    obtain ⟨_, hr⟩ := ihr rfl hclose
    have hoperator : ((o.symbol place :: (r.symbols ++ .ofOperator ")" closing :: rest)).head?.any
        fun s => s.isOp ["="]) = false := by
      rcases o with ⟨_ | _⟩ | ⟨_ | _ | _⟩ <;> rfl
    obtain ⟨changed', hl⟩ := ihl hoperator (substitute_cons rfl hr)
    refine ⟨changed', ?_⟩
    simp only [Tree.symbols, Tree.substitute, List.cons_append, List.append_assoc, List.nil_append]
    exact substitute_cons rfl hl

/-- **Substituting, piece by piece.** -/
theorem substitute_pieces (pieces : List Piece) :
    ∃ changed, Resolution.substitute (numbered numbers) (flat pieces) =
      .ok (flat (pieces.map (Piece.substitute numbers.get?)), changed) := by
  induction pieces with
  | nil => exact ⟨false, rfl⟩
  | cons p pieces ih =>
    obtain ⟨changed, h⟩ := ih
    have hrest : ((flat pieces).head?.any fun s => s.isOp ["="]) = false :=
      (fresh_flat pieces).any_isOp "=" [] (by decide)
    cases p with
    | plain s hs =>
      refine ⟨changed, substitute_cons ?_ h⟩
      simp only [Symbol.isInert, Bool.and_eq_true, bne_iff_ne] at hs
      simp [Symbol.isIdentifier, hs.1]
    | operand t => exact substitute_tree hwritable t hrest h
    -- the name that is defined is not substituted itself
    | definition name place equals t =>
      obtain ⟨changed', ht⟩ := substitute_tree hwritable t hrest h
      exact ⟨changed', substitute_cons rfl (substitute_cons rfl ht)⟩

end Substituting

/-! ### Folding -/

/-- What folding leaves of a stream. -/
def foldedFrom (stack symbols : List Symbol) : Except Failure (List Symbol) :=
  (foldFrom stack symbols).map Prod.fst

/-- One step of folding, without the flag that tells of a change. -/
theorem foldedFrom_cons (stack : List Symbol) (s : Symbol) (rest : List Symbol) :
    foldedFrom stack (s :: rest) = push s stack >>= fun pushed => foldedFrom pushed.1 rest := by
  rw [foldedFrom, foldFrom]
  cases push s stack with
  | error failure => rfl
  | ok pushed =>
    change Except.map Prod.fst (foldFrom pushed.1 rest >>= _) =
      (foldFrom pushed.1 rest).map Prod.fst
    cases foldFrom pushed.1 rest <;> rfl

/-- A symbol that is neither a number nor a closing parenthesis is just put on the stack. -/
theorem push_passive {s : Symbol} (hi : s.isInteger = false) (hc : s.isClose = false)
    (stack : List Symbol) : push s stack = .ok (s :: stack, false) := by
  match stack with
  | [] | [_] => rfl
  | middle :: left :: below =>
    rw [push, hi, hc, Bool.and_false, if_neg Bool.false_ne_true, Bool.and_false,
      if_neg Bool.false_ne_true]
    rfl

/-- So is a number, unless an operator waits for it. -/
theorem push_integer {s : Symbol} (hi : s.isInteger = true) {stack : List Symbol}
    (h : ∀ middle left below, stack = middle :: left :: below →
      left.isInteger = false ∨ middle.isArithmetic = false) :
    push s stack = .ok (s :: stack, false) := by
  have hc : s.isClose = false := by
    simp only [Symbol.isInteger, beq_iff_eq] at hi
    simp [Symbol.isClose, Symbol.isOp, hi]
  rcases stack with _ | ⟨middle, _ | ⟨left, below⟩⟩
  · rfl
  · rfl
  · rw [push, hc, Bool.and_false, if_neg Bool.false_ne_true, hi, Bool.and_true, if_neg]
    · rfl
    · -- one of the two tests of the reduction fails
      rcases h middle left below rfl with h | h <;> simp [h]

/-- A closing parenthesis is put on the stack, unless a number in parentheses is on it. -/
theorem push_close {s : Symbol} (hc : s.isClose = true) {stack : List Symbol}
    (h : ∀ middle left below, stack = middle :: left :: below →
      left.isOpen = false ∨ middle.isInteger = false) :
    push s stack = .ok (s :: stack, false) := by
  have hi : s.isInteger = false := by
    simp only [Symbol.isClose, Symbol.isOp, Bool.and_eq_true, beq_iff_eq] at hc
    simp [Symbol.isInteger, hc.1]
  rcases stack with _ | ⟨middle, _ | ⟨left, below⟩⟩
  · rfl
  · rfl
  · rw [push, hi, Bool.and_false, if_neg, if_neg Bool.false_ne_true]
    · rfl
    · rcases h middle left below rfl with h | h <;> simp [h]

/-- What is on the stack when a tree has been folded: a literal may still be taken by an operator
that waits for it, and another tree lies as it is. -/
def landed (t : Tree) (stack : List Symbol) : Except Failure (List Symbol) :=
  match t with
  | .literal text n place => (push ⟨.integer, text, some n, place⟩ stack).map Prod.fst
  | t => .ok (t.symbols.reverse ++ stack)

/-- A tree that is no literal just lies on the stack. -/
theorem landed_of_value?_eq_none {t : Tree} (h : t.value? = none) (stack : List Symbol) :
    landed t stack = .ok (t.symbols.reverse ++ stack) := by
  cases t with
  | literal _ _ _ => cases h
  | name _ _ => rfl
  | group _ _ _ => rfl
  | node _ _ _ _ _ _ => rfl

/-- A tree that is no literal does not end with a number. -/
theorem Tree.exists_last {t : Tree} (h : t.value? = none) :
    ∃ last before, t.symbols.reverse = last :: before ∧ last.isInteger = false := by
  cases t with
  | literal _ _ _ => cases h
  | name x place => exact ⟨_, [], rfl, rfl⟩
  -- all other trees end with a parenthesis or a name
  | group opening t closing =>
    exact ⟨.ofOperator ")" closing, t.symbols.reverse ++ [.ofOperator "(" opening],
      by simp [symbols], rfl⟩
  | node opening l o place r closing =>
    exact ⟨.ofOperator ")" closing,
      (l.symbols ++ o.symbol place :: r.symbols).reverse ++ [.ofOperator "(" opening],
      by simp [symbols], rfl⟩

/-- Where no operator waits for it, a tree lies on the stack as it is. -/
theorem landed_of_head? (t : Tree) {stack : List Symbol}
    (h : stack.head?.any Symbol.isArithmetic = false) :
    landed t stack = .ok (t.symbols.reverse ++ stack) := by
  cases hv : t.value? with
  | none => exact landed_of_value?_eq_none hv _
  | some n =>
    obtain ⟨text, place, rfl⟩ := Tree.eq_literal_of_value? hv
    have hpush : push ⟨.integer, text, some n, place⟩ stack = _ :=
      push_integer rfl fun middle left below hstack => by
        rw [hstack] at h
        exact .inr h
    rw [landed, hpush]
    rfl

/-- A closing parenthesis behind a tree encloses the tree. -/
theorem foldedFrom_close (t : Tree) (opening closing : Option Location) (stack rest : List Symbol) :
    foldedFrom (t.symbols.reverse ++ .ofOperator "(" opening :: stack)
        (.ofOperator ")" closing :: rest) =
      landed (t.enclosed opening closing) stack >>= fun stack' => foldedFrom stack' rest := by
  rw [foldedFrom_cons]
  cases hv : t.value? with
  | some n =>
    -- a number takes the place of its parentheses
    obtain ⟨text, place, rfl⟩ := Tree.eq_literal_of_value? hv
    have hreduces : ((Symbol.ofOperator "(" opening).isOpen &&
        Symbol.isInteger ⟨.integer, text, some n, place⟩ &&
        (Symbol.ofOperator ")" closing).isClose) = true := rfl
    change (push (.ofOperator ")" closing) (⟨.integer, text, some n, place⟩ ::
      .ofOperator "(" opening :: stack) >>= _) = Except.map Prod.fst (push _ stack) >>= _
    rw [push, if_pos hreduces]
    cases push ⟨.integer, text, some n, place⟩ stack <;> rfl
  | none =>
    obtain ⟨last, before, hlast, hinteger⟩ := Tree.exists_last hv
    rw [Tree.enclosed_eq_group hv, push_close rfl, landed_of_value?_eq_none rfl]
    · change foldedFrom _ rest = foldedFrom _ rest
      simp [Tree.symbols]
    · intro middle left below hstack
      rw [hlast, List.cons_append] at hstack
      injection hstack with hmiddle
      rw [← hmiddle]
      exact .inr hinteger

/-- An operator between two numbers is evaluated. -/
theorem push_operator (text text' : String) (a b : Int)
    (start place start' opening : Option Location) (o : Operator) (stack : List Symbol) :
    (push ⟨.integer, text', some b, start'⟩ (o.symbol place :: ⟨.integer, text, some a, start⟩ ::
        .ofOperator "(" opening :: stack)).map Prod.fst =
      match o.apply a b with
      | some n =>
        if Numeral.isWritable n then
          .ok (⟨.integer, Numeral.decimal n, some n, start⟩ :: .ofOperator "(" opening :: stack)
        else .error (.numeral .tooLarge)
      | none => .error (.report o.zeroProblem place) := by
  have hreduces : (Symbol.isInteger ⟨.integer, text, some a, start⟩ &&
      (o.symbol place).isArithmetic &&
      Symbol.isInteger ⟨.integer, text', some b, start'⟩) = true := by
    rw [o.isArithmetic_symbol]
    rfl
  have hleft : (Symbol.isOpen ⟨.integer, text, some a, start⟩) = false := rfl
  rw [push, hleft, Bool.false_and, Bool.false_and, if_neg Bool.false_ne_true, if_pos hreduces]
  change Except.map Prod.fst (evaluate (o.symbol place) a b >>= _) = _
  rw [Operator.evaluate_symbol]
  cases o.apply a b with
  | none => rfl
  | some n =>
    change Except.map Prod.fst (Symbol.ofValue (some n) start >>= _) = _
    by_cases hn : Numeral.isWritable n = true
    · -- the number that comes out has only the opening parenthesis before it
      have hpush : push ⟨.integer, Numeral.decimal n, some n, start⟩
          (.ofOperator "(" opening :: stack) = _ :=
        push_integer rfl fun middle left below hstack => by
          cases hstack
          exact .inr rfl
      rw [ofValue_eq_ok hn]
      change Except.map Prod.fst (push _ (.ofOperator "(" opening :: stack) >>= _) =
        if Numeral.isWritable n then _ else _
      rw [hpush, if_pos hn]
      rfl
    · -- a number that cannot be written is a failure, and nothing is pushed
      rw [Symbol.ofValue, valueText, numeral, Numeral.written, if_neg hn]
      change _ = if Numeral.isWritable n then _ else _
      rw [if_neg hn]
      rfl

/-- An operator does not take its right operand, unless both operands are literals. -/
theorem landed_right {l r : Tree} (hv : l.value? = none ∨ r.value? = none) (o : Operator)
    (place : Option Location) (stack : List Symbol) :
    landed r (o.symbol place :: (l.symbols.reverse ++ stack)) =
      .ok (r.symbols.reverse ++ o.symbol place :: (l.symbols.reverse ++ stack)) := by
  cases hr : r.value? with
  | none => exact landed_of_value?_eq_none hr _
  | some b =>
    -- the left operand is no literal, so it does not end with a number
    obtain ⟨text, start, rfl⟩ := Tree.eq_literal_of_value? hr
    obtain ⟨last, before, hlast, hinteger⟩ := Tree.exists_last (hv.resolve_right (by simp [hr]))
    have hpush : push ⟨.integer, text, some b, start⟩
        (o.symbol place :: (l.symbols.reverse ++ stack)) = _ :=
      push_integer rfl fun middle left below hstack => by
        rw [hlast, List.cons_append] at hstack
        injection hstack with _ hstack
        injection hstack with hleft
        rw [← hleft]
        exact .inl hinteger
    rw [landed, hpush]
    rfl

/-- A closing parenthesis behind a right operand finds no number in front of it, or an operator in
front of that number, so it is just put on the stack. -/
theorem push_close_right (r : Tree) (o : Operator) (place closing : Option Location)
    (stack : List Symbol) :
    push (.ofOperator ")" closing) (r.symbols.reverse ++ o.symbol place :: stack) =
      .ok (.ofOperator ")" closing :: (r.symbols.reverse ++ o.symbol place :: stack), false) := by
  refine push_close rfl fun middle left below hstack => ?_
  cases hr : r.value? with
  | none =>
    obtain ⟨last, before, hlast, hinteger⟩ := Tree.exists_last hr
    rw [hlast, List.cons_append] at hstack
    injection hstack with hmiddle
    rw [← hmiddle]
    exact .inr hinteger
  | some b =>
    obtain ⟨text, start, rfl⟩ := Tree.eq_literal_of_value? hr
    injection hstack with _ hstack
    injection hstack with hleft
    rw [← hleft]
    exact .inl (o.isOpen_symbol place)

/-- Behind an operator and its left operand, a tree is joined with them as soon as the parenthesis
is closed. -/
theorem landed_operator (l r : Tree) (o : Operator) (opening place closing : Option Location)
    (stack rest : List Symbol) :
    (landed r (o.symbol place :: (l.symbols.reverse ++ .ofOperator "(" opening :: stack)) >>=
        fun stack' => foldedFrom stack' (.ofOperator ")" closing :: rest)) =
      Tree.joined opening l o place r closing >>= fun t => landed t stack >>= fun stack' =>
        foldedFrom stack' rest := by
  by_cases hv : l.value? = none ∨ r.value? = none
  · -- no reduction: the operator and both operands lie on the stack
    rw [landed_right hv, Tree.joined_eq_node hv]
    change foldedFrom _ (_ :: rest) =
      foldedFrom ((Tree.node opening l o place r closing).symbols.reverse ++ stack) rest
    rw [foldedFrom_cons, push_close_right]
    change foldedFrom _ rest = _
    simp [Tree.symbols]
  · -- both operands are literals
    rw [not_or, ← ne_eq, ← ne_eq, Option.ne_none_iff_exists', Option.ne_none_iff_exists'] at hv
    obtain ⟨⟨a, ha⟩, b, hb⟩ := hv
    obtain ⟨text, start, rfl⟩ := Tree.eq_literal_of_value? ha
    obtain ⟨text', start', rfl⟩ := Tree.eq_literal_of_value? hb
    change (Except.map Prod.fst (push _ (o.symbol place :: ⟨.integer, text, some a, start⟩ ::
      .ofOperator "(" opening :: stack)) >>= _) = _
    rw [push_operator, Tree.joined]
    cases o.apply a b with
    | none => rfl
    | some n =>
      by_cases hn : Numeral.isWritable n = true
      · simp only [hn, if_true]
        exact foldedFrom_close (.literal (Numeral.decimal n) n start) opening closing stack rest
      · simp only [hn]
        rfl

/-- **Folding refines a tree**, whatever lies on the stack and whatever follows. -/
theorem foldedFrom_tree (t : Tree) (stack rest : List Symbol) :
    foldedFrom stack (t.symbols ++ rest) =
      t.refine (fun _ => none) >>= fun t' => landed t' stack >>= fun stack' =>
        foldedFrom stack' rest := by
  induction t generalizing stack rest with
  -- only a literal can be taken by an operator that lies on the stack
  | literal text n place =>
    change foldedFrom stack (_ :: rest) = landed (.literal text n place) stack >>= _
    rw [foldedFrom_cons, landed]
    cases push ⟨.integer, text, some n, place⟩ stack <;> rfl
  | name x place =>
    change foldedFrom stack (_ :: rest) = _
    rw [foldedFrom_cons, push_passive rfl rfl]
    rfl
  | group opening t closing ih =>
    change foldedFrom stack (_ :: (t.symbols ++ _ ++ rest)) = _
    rw [foldedFrom_cons, push_passive rfl rfl, List.append_assoc, List.singleton_append]
    change foldedFrom (.ofOperator "(" opening :: stack) _ = _
    rw [ih, Tree.refine]
    cases t.refine (fun _ => none) with
    | error failure => rfl
    | ok u =>
      change (landed u _ >>= _) = _
      -- the opening parenthesis is on top, so no operator waits for the tree
      rw [landed_of_head? u rfl]
      exact foldedFrom_close u opening closing stack rest
  | node opening l o place r closing ihl ihr =>
    change foldedFrom stack (_ :: (l.symbols ++ _ :: (r.symbols ++ _) ++ rest)) = _
    rw [foldedFrom_cons, push_passive rfl rfl, List.append_assoc, List.cons_append,
      List.append_assoc, List.singleton_append]
    change foldedFrom (.ofOperator "(" opening :: stack) _ = _
    rw [ihl, Tree.refine]
    cases l.refine (fun _ => none) with
    | error failure => rfl
    | ok l' =>
      -- an opening parenthesis lies under the left operand, so nothing takes it yet
      change (landed l' _ >>= _) = _
      rw [landed_of_head? l' rfl]
      change foldedFrom _ (o.symbol place :: _) = _
      rw [foldedFrom_cons, push_passive (by rcases o with ⟨_ | _⟩ | ⟨_ | _ | _⟩ <;> rfl)
        (o.isClose_symbol place)]
      change foldedFrom (o.symbol place :: _) _ = _
      rw [ihr]
      cases r.refine (fun _ => none) with
      | error failure => rfl
      | ok r' => exact landed_operator l' r' o opening place closing stack rest

/-- Behind a piece of the stream no operator waits for an operand. -/
theorem Piece.head?_reverse (p : Piece) (stack : List Symbol) :
    (p.symbols.reverse ++ stack).head?.any Symbol.isArithmetic = false := by
  have htree (t : Tree) (stack : List Symbol) :
      (t.symbols.reverse ++ stack).head?.any Symbol.isArithmetic = false := by
    cases t with
    | literal _ _ _ => rfl
    | name _ _ => rfl
    | group opening t closing =>
      rw [Tree.symbols, List.reverse_cons, List.reverse_append]
      rfl
    | node opening l o place r closing =>
      rw [Tree.symbols, List.reverse_cons, List.reverse_append, List.reverse_cons,
        List.reverse_append]
      rfl
  cases p with
  | plain s hs =>
    simp only [Symbol.isInert, Bool.and_eq_true, bne_iff_ne] at hs
    simp [symbols, Symbol.isArithmetic, Symbol.isOp, hs.2]
  | operand t => exact htree t stack
  | definition name place equals t =>
    rw [symbols, List.reverse_cons, List.reverse_cons, List.append_assoc, List.append_assoc]
    exact htree t _

/-- An operand that no operator waits for is refined and lies on the stack. -/
theorem foldedFrom_operand (t : Tree) {stack : List Symbol}
    (hstack : stack.head?.any Symbol.isArithmetic = false) (rest : List Symbol) :
    foldedFrom stack (t.symbols ++ rest) =
      t.refine (fun _ => none) >>= fun t' => foldedFrom (t'.symbols.reverse ++ stack) rest := by
  rw [foldedFrom_tree]
  congr 1
  funext t'
  rw [landed_of_head? t' hstack]
  rfl

/-- **Folding one piece** refines it, and leaves it on the stack for good. -/
theorem foldedFrom_piece (p : Piece) {stack : List Symbol}
    (hstack : stack.head?.any Symbol.isArithmetic = false) (rest : List Symbol) :
    foldedFrom stack (p.symbols ++ rest) =
      p.refine (fun _ => none) >>= fun p' => foldedFrom (p'.symbols.reverse ++ stack) rest := by
  cases p with
  | plain s hs =>
    simp only [Symbol.isInert, Bool.and_eq_true, bne_iff_ne] at hs
    -- a plain number is no operand of anything: the piece before it does not end with an operator
    have hpush : push s stack = .ok (s :: stack, false) := by
      by_cases hi : s.isInteger = true
      · refine push_integer hi fun middle left below h => ?_
        rw [h] at hstack
        exact .inr hstack
      · exact push_passive (by simpa using hi) (by simp [Symbol.isClose, Symbol.isOp, hs.2]) stack
    change foldedFrom stack (s :: rest) = _
    rw [foldedFrom_cons, hpush]
    rfl
  -- the piece before does not end with an operator, so nothing waits for this one
  | operand t =>
    rw [Piece.symbols, foldedFrom_operand t hstack, Piece.refine]
    cases t.refine (fun _ => none) <;> rfl
  | definition name place equals t =>
    -- the name and the equals sign are passed over, and the equals sign waits for nothing
    change foldedFrom stack (_ :: _ :: (t.symbols ++ rest)) = _
    rw [foldedFrom_cons, push_passive rfl rfl]
    change foldedFrom (_ :: stack) (_ :: _) = _
    rw [foldedFrom_cons, push_passive rfl rfl]
    change foldedFrom (.ofOperator "=" equals :: ⟨.identifier, name, none, place⟩ :: stack) _ = _
    rw [foldedFrom_operand t rfl, Piece.refine]
    cases t.refine (fun _ => none) with
    | error failure => rfl
    | ok t' =>
      change foldedFrom (t'.symbols.reverse ++ _) rest =
        foldedFrom ((Piece.definition name place equals t').symbols.reverse ++ stack) rest
      simp [Piece.symbols]

/-- **Folding, piece by piece.** -/
theorem foldedFrom_pieces (pieces : List Piece) (stack : List Symbol)
    (hstack : stack.head?.any Symbol.isArithmetic = false) :
    foldedFrom stack (flat pieces) =
      (pieces.mapM (Piece.refine fun _ => none)).map
        fun pieces' => stack.reverse ++ flat pieces' := by
  -- what is folded lies on the stack, reversed, and the next piece never reaches into it
  induction pieces generalizing stack with
  | nil =>
    rw [List.mapM_nil]
    change Except.ok stack.reverse = .ok (stack.reverse ++ [])
    rw [List.append_nil]
  | cons p pieces ih =>
    change foldedFrom stack (p.symbols ++ flat pieces) = _
    rw [List.mapM_cons, foldedFrom_piece p hstack]
    cases p.refine (fun _ => none) with
    | error failure => rfl
    | ok p' =>
      change foldedFrom (p'.symbols.reverse ++ stack) (flat pieces) =
        Except.map _ (pieces.mapM (Piece.refine fun _ => none) >>= _)
      rw [ih _ (p'.head?_reverse stack)]
      cases pieces.mapM (Piece.refine fun _ => none) with
      | error failure => rfl
      | ok pieces' =>
        change Except.ok ((p'.symbols.reverse ++ stack).reverse ++ flat pieces') =
          Except.ok (stack.reverse ++ (p'.symbols ++ flat pieces'))
        rw [List.reverse_append, List.reverse_reverse, List.append_assoc]

/-! ### A round -/

/-- Refining with a table is substituting from it and then refining without one. -/
theorem Piece.refine_substitute (ρ : String → Option Int) (p : Piece) :
    (p.substitute ρ).refine (fun _ => none) = p.refine ρ := by
  cases p with
  | plain s h => rfl
  | operand t => rw [substitute, refine, refine, t.refine_substitute]
  | definition name place equals t => rw [substitute, refine, refine, t.refine_substitute]

/-- **One round.** The literal definitions enter the table, and everything else is refined with the
table that comes out. -/
theorem round_pieces (pieces : List Piece) (numbers : Table Int)
    (definitions : Table (Option Location))
    (hnew : ∀ x ∈ pieces.filterMap Piece.name?, numbers.get? x = none)
    (hdistinct : (pieces.filterMap Piece.name?).Nodup)
    (hentries : ∀ entry ∈ entries pieces, Numeral.isWritable entry.2 = true)
    (hnumbers : ∀ x n, Table.get? (numbers ++ entries pieces) x = some n →
      Numeral.isWritable n = true) :
    ∃ definitions' progressed, (round ⟨flat pieces, numbered numbers, definitions⟩).outcome =
      ((unsettled pieces).mapM (Piece.refine (Table.get? (numbers ++ entries pieces)))).map
        fun pieces' => ⟨⟨flat pieces', numbered (numbers ++ entries pieces), definitions'⟩,
          progressed, (unsettled pieces).filterMap Piece.name?⟩ := by
  obtain ⟨definitions', changed, hdefine⟩ :=
    define_pieces pieces numbers definitions hnew hdistinct hentries
  obtain ⟨substituted, hsubstitute⟩ := substitute_pieces hnumbers (unsettled pieces)
  -- refining with the table is substituting from it and refining without
  have hfold := foldedFrom_pieces
    ((unsettled pieces).map (Piece.substitute (Table.get? (numbers ++ entries pieces)))) [] rfl
  rw [List.mapM_map] at hfold
  simp only [Function.comp_def, Piece.refine_substitute] at hfold
  -- both computations are now one call of folding, with nothing that can fail around it
  have hround : (round ⟨flat pieces, numbered numbers, definitions⟩).outcome =
      fold (flat ((unsettled pieces).map
        (Piece.substitute (Table.get? (numbers ++ entries pieces))))) >>= fun folded =>
        .ok ⟨⟨folded.1, numbered (numbers ++ entries pieces), definitions'⟩,
          changed || substituted || folded.2, (unsettled pieces).filterMap Piece.name?⟩ := by
    simp only [Resolution.round, Trace.outcome_bind, hdefine, Trace.except_ok_bind,
      Trace.outcome_liftM, hsubstitute, Trace.outcome_pure]
  rw [foldedFrom] at hfold
  rw [hround, fold]
  cases hf : foldFrom [] (flat ((unsettled pieces).map
      (Piece.substitute (Table.get? (numbers ++ entries pieces))))) with
  -- the round fails exactly if some piece cannot be refined
  | error failure =>
    rw [hf] at hfold
    cases hm : (unsettled pieces).mapM (Piece.refine (Table.get? (numbers ++ entries pieces))) with
    | error failure' =>
      rw [hm] at hfold
      cases hfold
      exact ⟨definitions', false, rfl⟩
    | ok pieces' =>
      rw [hm] at hfold
      cases hfold
  | ok folded =>
    rw [hf] at hfold
    cases hm : (unsettled pieces).mapM (Piece.refine (Table.get? (numbers ++ entries pieces))) with
    | error failure' =>
      rw [hm] at hfold
      cases hfold
    | ok pieces' =>
      rw [hm] at hfold
      -- the stream that is left is made of the refined pieces
      have hsymbols : folded.1 = flat pieces' := Except.ok.inj hfold
      rw [Trace.except_ok_bind, hsymbols]
      exact ⟨definitions', _, rfl⟩

/-! ### A round that changes nothing -/

/-- If no definition was found, none has been taken out, and the tables are as before. -/
theorem define_unchanged {tags : Table Value} {definitions : Table (Option Location)}
    {symbols : List Symbol} {d : Defined} (h : (define tags definitions symbols).outcome = .ok d)
    (hd : d.changed = false) :
    d.symbols = symbols ∧ d.tags = tags ∧ d.definitions = definitions := by
  induction symbols generalizing d with
  | nil =>
    cases h
    exact ⟨rfl, rfl, rfl⟩
  | cons s following ih =>
    rw [define] at h
    obtain ⟨r, -, h⟩ := Trace.outcome_bind_eq_ok.1 h
    cases r with
    -- the symbol stays, and the rest is unchanged as well
    | plain | pending =>
      obtain ⟨more, hmore, h⟩ := Trace.outcome_bind_eq_ok.1 h
      cases h
      obtain ⟨hsymbols, htables⟩ := ih hmore hd
      exact ⟨congrArg (s :: ·) hsymbols, htables⟩
    | literal n =>
      -- a definition with a literal value is a change
      obtain ⟨shown, -, h⟩ := Trace.outcome_bind_eq_ok.1 h
      obtain ⟨_, -, h⟩ := Trace.outcome_bind_eq_ok.1 h
      rcases following with _ | ⟨_, _ | ⟨_, rest⟩⟩
      · cases h
        cases hd
      · cases h
        cases hd
      · obtain ⟨more, -, h⟩ := Trace.outcome_bind_eq_ok.1 h
        cases h
        cases hd

/-- If nothing was substituted, the stream is as before. -/
theorem substitute_unchanged {tags : Table Value} {symbols result : List Symbol}
    (h : Resolution.substitute tags symbols = .ok (result, false)) : result = symbols := by
  induction symbols generalizing result with
  | nil =>
    cases h
    rfl
  | cons s following ih =>
    rw [Resolution.substitute] at h
    split at h
    · split at h
      · -- a name that was substituted is a change
        obtain ⟨value, -, h⟩ := Trace.except_bind_eq_ok.1 h
        obtain ⟨more, -, h⟩ := Trace.except_bind_eq_ok.1 h
        cases h
      · obtain ⟨⟨more, changed⟩, hmore, h⟩ := Trace.except_bind_eq_ok.1 h
        cases h
        rw [ih hmore]
    · obtain ⟨⟨more, changed⟩, hmore, h⟩ := Trace.except_bind_eq_ok.1 h
      cases h
      rw [ih hmore]

/-- If nothing was reduced, the symbol lies on top. -/
theorem push_unchanged {top : Symbol} {below stack : List Symbol}
    (h : push top below = .ok (stack, false)) : stack = top :: below := by
  match below with
  | [] | [_] =>
    cases h
    rfl
  | middle :: left :: below =>
    rw [push] at h
    split at h
    · -- either reduction is a change
      obtain ⟨reduced, -, h⟩ := Trace.except_bind_eq_ok.1 h
      cases h
    · split at h
      · obtain ⟨n, -, h⟩ := Trace.except_bind_eq_ok.1 h
        obtain ⟨value, -, h⟩ := Trace.except_bind_eq_ok.1 h
        obtain ⟨reduced, -, h⟩ := Trace.except_bind_eq_ok.1 h
        cases h
      · cases h
        rfl

/-- If nothing was folded, the stream is as before. -/
theorem foldFrom_unchanged {stack symbols result : List Symbol}
    (h : foldFrom stack symbols = .ok (result, false)) : result = stack.reverse ++ symbols := by
  induction symbols generalizing stack result with
  | nil =>
    cases h
    rw [List.append_nil]
  | cons s rest ih =>
    obtain ⟨⟨pushed, reduced⟩, hpush, h⟩ := Trace.except_bind_eq_ok.1 h
    obtain ⟨⟨more, changed⟩, hmore, h⟩ := Trace.except_bind_eq_ok.1 h
    have hflags : (reduced || changed) = false := congrArg Prod.snd (Except.ok.inj h)
    have hresult : more = result := congrArg Prod.fst (Except.ok.inj h)
    -- neither this symbol nor the rest has been reduced
    obtain ⟨rfl, rfl⟩ := Bool.or_eq_false_iff.1 hflags
    rw [← hresult, ih hmore, push_unchanged hpush, List.reverse_cons, List.append_assoc,
      List.singleton_append]

/-- A round without progress leaves the program as it was. -/
theorem round_unchanged {p : Program} {r : Round} (h : (round p).outcome = .ok r)
    (hr : r.progressed = false) : r.program = p := by
  obtain ⟨d, hd, h⟩ := Trace.outcome_bind_eq_ok.1 h
  obtain ⟨⟨substituted, wasSubstituted⟩, hs, h⟩ := Trace.outcome_bind_eq_ok.1 h
  obtain ⟨⟨folded, wasFolded⟩, hf, h⟩ := Trace.outcome_bind_eq_ok.1 h
  cases h
  simp only [Bool.or_eq_false_iff] at hr
  obtain ⟨⟨hchanged, rfl⟩, rfl⟩ := hr
  obtain ⟨hdefined, htags, hdefinitions⟩ := define_unchanged hd hchanged
  -- the three parts in reverse order
  have hsymbols : folded = p.symbols :=
    calc folded = substituted := foldFrom_unchanged hf
      _ = d.symbols := substitute_unchanged hs
      _ = p.symbols := hdefined
  exact (Program.mk.injEq ..).mpr ⟨hsymbols, htags, hdefinitions⟩

/-! ### Round after round -/

/-- A round that fails ends the rounds. -/
theorem settle_of_error {p : Program} {failure : Failure} (h : (round p).outcome = .error failure)
    (rounds : Nat) : (settle rounds p).outcome = .error failure := by
  rw [settle]
  split
  · next hround =>
    obtain rfl := Except.error.inj (h.symm.trans hround)
    rfl
  · next hround => rw [h] at hround; cases hround

/-- A round with progress is followed by another. -/
theorem settle_of_progress {p : Program} {r : Round} (h : (round p).outcome = .ok r)
    (hr : r.progressed = true) (rounds : Nat) :
    (settle rounds p).outcome = (settle (rounds + 1) r.program).outcome := by
  -- the round is looked at once more where `settle` matches on it
  rw [settle]
  split
  · next hround => rw [h] at hround; cases hround
  · next hround =>
    obtain rfl := Except.ok.inj (h.symm.trans hround)
    rw [dif_pos hr]

/-- A round without progress is the last. -/
theorem settle_of_rest {p : Program} {r : Round} (h : (round p).outcome = .ok r)
    (hr : r.progressed = false) (rounds : Nat) :
    (settle rounds p).outcome = .ok (rounds + 1, r) := by
  rw [settle]
  split
  · next hround => rw [h] at hround; cases hround
  · next hround =>
    obtain rfl := Except.ok.inj (h.symm.trans hround)
    rw [dif_neg (by simp [hr])]

end RomAsm
