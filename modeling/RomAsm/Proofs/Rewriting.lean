import Mathlib.Logic.Relation
import RomAsm.Proofs.Leftovers

/-!
# Resolution as rewriting

Whatever the stream, well-formed or not, resolution changes it at four kinds of places only: a
constant with a literal value leaves it, a name becomes an integer, a group around an integer loses
its parentheses, and an operator between two integers becomes their value. `Redex` lists these,
`Step` is one such change anywhere in a stream, and `Steps` any number of them.

* `define_steps`, `substitute_steps`, `foldFrom_steps` — the parts of a round are such steps, and
  folding is a `Reduction`, which takes no names from the stream;
* `resolve_steps` — so is a successful resolution, and what it leaves behind has neither names nor
  operators;
* `Rounds.isExtendedBy` — the names that have a value keep it, and the place of their definition.

So a property of streams that every step keeps holds of the resolved stream, and one that every step
keeps backwards holds of the stream that resolution was given. A constant is defined only where no
operator follows its value; that condition is part of `Redex.define`.
-/

namespace RomAsm

namespace Symbol

theorem kind_of_isOp {s : Symbol} {texts : List String} (h : s.isOp texts = true) :
    s.kind = .operator := beq_iff_eq.1 (Bool.and_eq_true_iff.1 h).1

theorem isIdentifier_of_isOp {s : Symbol} {texts : List String} (h : s.isOp texts = true) :
    s.isIdentifier = false := by
  simp [isIdentifier, kind_of_isOp h]

theorem isIdentifier_of_isInteger {s : Symbol} (h : s.isInteger = true) :
    s.isIdentifier = false := by
  simp [isIdentifier, beq_iff_eq.1 h]

theorem isIdentifier_of_isInert {s : Symbol} (h : s.isInert = true) : s.isIdentifier = false := by
  simpa [isIdentifier] using (Bool.and_eq_true_iff.1 h).1

theorem isOp_of_isInert {s : Symbol} (h : s.isInert = true) (texts : List String) :
    s.isOp texts = false := by
  have hkind : s.kind ≠ .operator := bne_iff_ne.1 (Bool.and_eq_true_iff.1 h).2
  simp [isOp, hkind]

theorem isOp_pair (s : Symbol) (a b : String) : s.isOp [a, b] = (s.isOp [a] || s.isOp [b]) := by
  simp [isOp, Bool.and_or_distrib_left]

end Symbol

namespace Resolution

/-! ### Steps -/

/-- A place that resolution rewrites and what it writes there, in front of the given rest. -/
inductive Redex (rest : List Symbol) : List Symbol → List Symbol → Prop where
  /-- A constant whose value is a literal and nothing more leaves the stream. -/
  | define {name equals value : Symbol} (hname : name.isIdentifier = true)
      (hequals : equals.isOp ["="] = true) (hvalue : isComplete value rest = true) :
      Redex rest [name, equals, value] []
  /-- A name becomes an integer, at the place of the name. -/
  | substitute {name value : Symbol} (hname : name.isIdentifier = true)
      (hvalue : value.isInteger = true) (hlocation : value.location = name.location) :
      Redex rest [name] [value]
  /-- A group around an integer loses its parentheses. -/
  | ungroup {opening value closing : Symbol} (hopening : opening.isOpen = true)
      (hvalue : value.isInteger = true) (hclosing : closing.isClose = true) :
      Redex rest [opening, value, closing] [value]
  /-- An operator between two integers becomes their value, at the place of the left one. -/
  | evaluate {left operator right value : Symbol} (hleft : left.isInteger = true)
      (hoperator : operator.isArithmetic = true) (hright : right.isInteger = true)
      (hvalue : value.isInteger = true)
      (happly : ∃ n, apply operator left.value right.value = .ok n ∧ value.value = some n)
      (hlocation : value.location = left.location) :
      Redex rest [left, operator, right] [value]

/-- One change somewhere in a stream. -/
inductive Step : List Symbol → List Symbol → Prop where
  | here {rest u v : List Symbol} (h : Redex rest u v) : Step (u ++ rest) (v ++ rest)
  | there (s : Symbol) {a b : List Symbol} (h : Step a b) : Step (s :: a) (s :: b)

/-- Any number of changes. -/
abbrev Steps : List Symbol → List Symbol → Prop := Relation.ReflTransGen Step

theorem Steps.cons (s : Symbol) {a b : List Symbol} (h : Steps a b) : Steps (s :: a) (s :: b) := by
  induction h with
  | refl => exact .refl
  | tail _ step ih => exact ih.tail (.there s step)

/-- Steps can be taken behind any symbols. -/
theorem Steps.append_left (x : List Symbol) {a b : List Symbol} (h : Steps a b) :
    Steps (x ++ a) (x ++ b) := by
  induction x with
  | nil => exact h
  | cons s x ih => exact ih.cons s

/-- A property that every step keeps holds after any number of steps. -/
theorem Steps.invariant {P : List Symbol → Prop} (hstep : ∀ a b, Step a b → P a → P b)
    {a b : List Symbol} (h : Steps a b) (ha : P a) : P b := by
  induction h with
  | refl => exact ha
  | tail _ step ih => exact hstep _ _ step ih

/-- A change that takes no name from the stream: a group or an operator is evaluated. -/
def Reduction (a b : List Symbol) : Prop :=
  ∃ before u v rest, a = before ++ (u ++ rest) ∧ b = before ++ (v ++ rest) ∧ Redex rest u v ∧
    ∀ s ∈ u, s.isIdentifier = false

theorem Reduction.steps {a b : List Symbol} (h : Reduction a b) : Steps a b := by
  obtain ⟨before, u, v, rest, rfl, rfl, hredex, -⟩ := h
  exact Steps.append_left before (.single (.here hredex))

/-! ### Each part of a round takes steps -/

/-- A number that is put in has the value and the place that it was given. -/
theorem isInteger_of_ofValue {value : Value} {location : Option Location} {s : Symbol}
    (h : Symbol.ofValue value location = .ok s) :
    s.isInteger = true ∧ s.value = value ∧ s.location = location := by
  obtain ⟨text, -, h⟩ := Trace.except_bind_eq_ok.1 h
  cases h
  exact ⟨rfl, rfl, rfl⟩

/-- A check for a new name that finds nothing. -/
theorem has_eq_false {tags : Table Value} {definitions : Table (Option Location)} {s : Symbol}
    {u : Unit} (h : Program.checkNew tags definitions s = .ok u) : tags.has s.text = false := by
  by_contra hhas
  rw [Program.checkNew, if_pos (by simpa using hhas)] at h
  cases h

/-- What it takes to be a definition with a literal value. -/
theorem redex_of_role {tags : Table Value} {definitions : Table (Option Location)} {s : Symbol}
    {following : List Symbol} {n : Value}
    (h : role tags definitions s following = .ok (.literal n)) :
    ∃ equals value rest, following = equals :: value :: rest ∧ tags.has s.text = false ∧
      Redex rest [s, equals, value] [] := by
  unfold role at h
  split at h
  · next hdefinition =>
    obtain ⟨_, hnew, h⟩ := Trace.except_bind_eq_ok.1 h
    match following with
    | [] | [_] => cases h
    | equals :: value :: rest =>
      dsimp only at h
      split at h
      · -- a definition without a value is reported
        cases h
      · -- a value that is not complete makes the definition a pending one
        by_cases hcomplete : isComplete value rest = true
        · simp only [isDefinition, List.head?_cons, Option.any_some, Bool.and_eq_true]
            at hdefinition
          exact ⟨equals, value, rest, rfl, has_eq_false hnew,
            .define hdefinition.1 hdefinition.2 hcomplete⟩
        · rw [if_neg hcomplete] at h
          cases h
  · cases h

/-- **What `define` does with the first symbol**: it keeps the symbol, or the symbol is a new name
with a literal value, and the definition leaves the stream. -/
theorem define_cases {tags : Table Value} {definitions : Table (Option Location)} {s : Symbol}
    {following : List Symbol} {d : Defined}
    (h : (define tags definitions (s :: following)).outcome = .ok d) :
    (∃ more, (define tags definitions following).outcome = .ok more ∧
        d.symbols = s :: more.symbols ∧ d.tags = more.tags ∧ d.definitions = more.definitions) ∨
      ∃ equals value rest n more, following = equals :: value :: rest ∧
        tags.has s.text = false ∧ Redex rest [s, equals, value] [] ∧
        (define (tags.put s.text n) (Program.recordPlace definitions s) rest).outcome = .ok more ∧
        d.symbols = more.symbols ∧ d.tags = more.tags ∧ d.definitions = more.definitions := by
  rw [define] at h
  obtain ⟨r, hrole, h⟩ := Trace.outcome_bind_eq_ok.1 h
  cases r with
  -- a pending definition stays in the stream too
  | plain | pending =>
    obtain ⟨more, hmore, h⟩ := Trace.outcome_bind_eq_ok.1 h
    cases h
    exact .inl ⟨more, hmore, rfl, rfl, rfl⟩
  | literal n =>
    obtain ⟨equals, value, rest, rfl, hnew, hredex⟩ := redex_of_role hrole
    obtain ⟨shown, -, h⟩ := Trace.outcome_bind_eq_ok.1 h
    obtain ⟨_, -, h⟩ := Trace.outcome_bind_eq_ok.1 h
    obtain ⟨more, hmore, h⟩ := Trace.outcome_bind_eq_ok.1 h
    cases h
    exact .inr ⟨equals, value, rest, n, more, rfl, hnew, hredex, hmore, rfl, rfl, rfl⟩

/-- At the end of the stream nothing is defined. -/
theorem define_nil {tags : Table Value} {definitions : Table (Option Location)} {d : Defined}
    (h : (define tags definitions []).outcome = .ok d) :
    d.symbols = [] ∧ d.tags = tags ∧ d.definitions = definitions := by
  rw [define] at h
  cases h
  exact ⟨rfl, rfl, rfl⟩

/-- **Taking out definitions** is rewriting. -/
theorem define_steps {tags : Table Value} {definitions : Table (Option Location)}
    {symbols : List Symbol} {d : Defined} (h : (define tags definitions symbols).outcome = .ok d) :
    Steps symbols d.symbols := by
  -- on the length, since a definition takes three symbols at once
  induction hn : symbols.length using Nat.strongRecOn generalizing tags definitions symbols d with
  | ind n ih =>
    cases symbols with
    | nil => rw [(define_nil h).1]
    | cons s following =>
      rw [List.length_cons] at hn
      rcases define_cases h with ⟨more, hmore, hsymbols, -⟩ |
        ⟨equals, value, rest, n, more, rfl, -, hredex, hmore, hsymbols, -⟩
      · rw [hsymbols]
        exact (ih following.length (by omega) hmore rfl).cons s
      · -- the definition is taken out, and what follows it is rewritten
        rw [List.length_cons, List.length_cons] at hn
        rw [hsymbols]
        exact .head (.here hredex) (ih rest.length (by omega) hmore rfl)

/-- **Substituting names** is rewriting. -/
theorem substitute_steps {tags : Table Value} {symbols result : List Symbol} {changed : Bool}
    (h : substitute tags symbols = .ok (result, changed)) : Steps symbols result := by
  induction symbols generalizing result changed with
  | nil =>
    cases h
    exact .refl
  | cons s following ih =>
    rw [substitute] at h
    split at h
    · next hname =>
      split at h
      · obtain ⟨value, hvalue, h⟩ := Trace.except_bind_eq_ok.1 h
        obtain ⟨⟨more, moreChanged⟩, hmore, h⟩ := Trace.except_bind_eq_ok.1 h
        cases h
        obtain ⟨hinteger, -, hlocation⟩ := isInteger_of_ofValue hvalue
        -- the name is replaced first, and the symbols behind it are rewritten behind its value
        have hredex : Redex following [s] [value] :=
          .substitute (Bool.and_eq_true_iff.1 hname).1 hinteger hlocation
        exact .head (.here hredex) ((ih hmore).cons value)
      · obtain ⟨⟨more, moreChanged⟩, hmore, h⟩ := Trace.except_bind_eq_ok.1 h
        cases h
        exact (ih hmore).cons s
    · obtain ⟨⟨more, moreChanged⟩, hmore, h⟩ := Trace.except_bind_eq_ok.1 h
      cases h
      exact (ih hmore).cons s

/-- The stack holds the last symbols passed, nearest first; reducing it is rewriting there. -/
theorem push_reductions (top : Symbol) (below : List Symbol) {stack : List Symbol} {changed : Bool}
    (h : push top below = .ok (stack, changed)) (rest : List Symbol) :
    Relation.ReflTransGen Reduction (below.reverse ++ top :: rest) (stack.reverse ++ rest) := by
  -- a reduction takes the two symbols below the top
  match below with
  | [] =>
    cases h
    exact .refl
  | [s] =>
    cases h
    exact .refl
  | middle :: left :: below =>
    have hsplit (v : Symbol) : (middle :: left :: below).reverse ++ v :: rest =
        below.reverse ++ ([left, middle, v] ++ rest) := by simp
    rw [push] at h
    split at h
    · next hgroup =>
      -- a number in parentheses comes down, and may then be taken by an operator
      obtain ⟨⟨reduced, _⟩, hreduced, h⟩ := Trace.except_bind_eq_ok.1 h
      cases h
      simp only [Bool.and_eq_true] at hgroup
      have hredex : Redex rest [left, middle, top] [middle] :=
        .ungroup hgroup.1.1 hgroup.1.2 hgroup.2
      have hnames : ∀ s ∈ [left, middle, top], s.isIdentifier = false := by
        simp [Symbol.isIdentifier_of_isOp hgroup.1.1, Symbol.isIdentifier_of_isInteger hgroup.1.2,
          Symbol.isIdentifier_of_isOp hgroup.2]
      exact .head ⟨below.reverse, _, _, rest, hsplit top, rfl, hredex, hnames⟩
        (push_reductions middle below hreduced rest)
    · split at h
      · next hoperator =>
        obtain ⟨n, hn, h⟩ := Trace.except_bind_eq_ok.1 h
        obtain ⟨value, hvalue, h⟩ := Trace.except_bind_eq_ok.1 h
        obtain ⟨⟨reduced, _⟩, hreduced, h⟩ := Trace.except_bind_eq_ok.1 h
        cases h
        simp only [Bool.and_eq_true] at hoperator
        obtain ⟨hinteger, hv, hlocation⟩ := isInteger_of_ofValue hvalue
        -- the value stands where the left operand stood, and may be taken by an operator before it
        have hredex : Redex rest [left, middle, top] [value] :=
          .evaluate hoperator.1.1 hoperator.1.2 hoperator.2 hinteger ⟨n, hn, hv⟩ hlocation
        have hnames : ∀ s ∈ [left, middle, top], s.isIdentifier = false := by
          simp [Symbol.isIdentifier_of_isInteger hoperator.1.1,
            Symbol.isIdentifier_of_isOp hoperator.1.2,
            Symbol.isIdentifier_of_isInteger hoperator.2]
        exact .head ⟨below.reverse, _, _, rest, hsplit top, rfl, hredex, hnames⟩
          (push_reductions value below hreduced rest)
      · cases h
        rw [List.reverse_cons (a := top), List.append_assoc]
        exact .refl

/-- Folding takes no name from the stream. -/
theorem foldFrom_reductions {stack symbols result : List Symbol} {changed : Bool}
    (h : foldFrom stack symbols = .ok (result, changed)) :
    Relation.ReflTransGen Reduction (stack.reverse ++ symbols) result := by
  induction symbols generalizing stack result changed with
  | nil =>
    cases h
    rw [List.append_nil]
  | cons s rest ih =>
    obtain ⟨⟨pushed, reduced⟩, hpush, h⟩ := Trace.except_bind_eq_ok.1 h
    obtain ⟨⟨more, moreChanged⟩, hmore, h⟩ := Trace.except_bind_eq_ok.1 h
    cases h
    -- first what this symbol sets off, then the rest
    exact (push_reductions s stack hpush rest).trans (ih hmore)

/-- **Folding** is rewriting: every reduction is a step. -/
theorem foldFrom_steps {stack symbols result : List Symbol} {changed : Bool}
    (h : foldFrom stack symbols = .ok (result, changed)) :
    Steps (stack.reverse ++ symbols) result := by
  have hreductions := foldFrom_reductions h
  clear h
  induction hreductions with
  | refl => exact .refl
  | tail _ hreduction ih => exact ih.trans hreduction.steps

/-! ### Round after round -/

/-- The program after any number of rounds of resolution. -/
abbrev Rounds : Program → Program → Prop :=
  Relation.ReflTransGen fun p q => ∃ r, (round p).outcome = .ok r ∧ r.program = q

/-- The parts of a round. -/
theorem exists_of_round {p : Program} {r : Round} (h : (round p).outcome = .ok r) :
    ∃ d substituted wasSubstituted wasFolded,
      (define p.tags p.definitions p.symbols).outcome = .ok d ∧
      substitute d.tags d.symbols = .ok (substituted, wasSubstituted) ∧
      fold substituted = .ok (r.program.symbols, wasFolded) ∧ r.program.tags = d.tags ∧
      r.program.definitions = d.definitions := by
  obtain ⟨d, hd, h⟩ := Trace.outcome_bind_eq_ok.1 h
  obtain ⟨⟨substituted, wasSubstituted⟩, hs, h⟩ := Trace.outcome_bind_eq_ok.1 h
  obtain ⟨⟨folded, wasFolded⟩, hf, h⟩ := Trace.outcome_bind_eq_ok.1 h
  cases h
  exact ⟨d, substituted, wasSubstituted, wasFolded, hd, hs, hf, rfl, rfl⟩

/-- **A round** is rewriting. -/
theorem round_steps {p : Program} {r : Round} (h : (round p).outcome = .ok r) :
    Steps p.symbols r.program.symbols := by
  obtain ⟨d, substituted, _, _, hd, hs, hf, -⟩ := exists_of_round h
  -- the three parts one after the other
  exact (define_steps hd).trans ((substitute_steps hs).trans (foldFrom_steps hf))

/-- A property that every round keeps holds after the last of them. -/
theorem settle_invariant {P : Program → Prop}
    (hround : ∀ p r, (round p).outcome = .ok r → P p → P r.program) {p : Program}
    {rounds rounds' : Nat} {last : Round}
    (h : (settle rounds p).outcome = .ok (rounds', last)) (hp : P p) : P last.program := by
  -- by the weight of the stream, as the rounds themselves
  induction hn : weight p.symbols using Nat.strongRecOn generalizing p rounds with
  | ind n ih =>
    cases hr : (round p).outcome with
    | error failure =>
      rw [settle_of_error hr] at h
      cases h
    | ok r =>
      cases hprogress : r.progressed with
      | false =>
        rw [settle_of_rest hr hprogress] at h
        cases h
        exact hround p _ hr hp
      -- the property holds after this round, and the others go on from there
      | true =>
        rw [settle_of_progress hr hprogress] at h
        exact ih _ (hn ▸ weight_round_lt hr hprogress) h (hround p r hr hp) rfl

/-- A check that finds nothing has looked at inert symbols only. -/
theorem isInert_of_check {r : Round} (h : check r = .ok ()) :
    ∀ s ∈ r.program.symbols, s.isInert = true := by
  intro s hs
  unfold check at h
  -- the check looks for names first, and then for operators
  split at h
  · cases h
  · next hnames =>
    split at h
    · cases h
    · next hoperators =>
      -- names without a value would be reported, whether something defines them or not
      rw [undefinedNames_eq] at hnames
      obtain ⟨hpending, hnames⟩ := List.append_eq_nil_iff.1 hnames
      have hidentifier : ¬ s.kind = .identifier := by
        intro hkind
        have hmem : s.text ∈ (r.program.symbols.filter Symbol.isIdentifier).map (·.text) :=
          List.mem_map_of_mem (List.mem_filter.2 ⟨hs, beq_iff_eq.2 hkind⟩)
        have hundefined := List.mem_eraseDups.2
          (List.mem_filter (p := fun x => !r.pending.contains x).2 ⟨hmem, by simp [hpending]⟩)
        rw [hnames] at hundefined
        cases hundefined
      have hoperator : ¬ s.kind = .operator := by simpa using List.find?_eq_none.1 hoperators s hs
      simp [Symbol.isInert, hidentifier, hoperator]

/-- What a resolution that succeeds has gone through. -/
theorem exists_of_resolve {p q : Program} (h : (resolve p).outcome = .ok q) :
    ∃ rounds last, (settle 0 p).outcome = .ok (rounds, last) ∧ check last = .ok () ∧
      last.program = q := by
  -- what is logged on the way does not matter
  obtain ⟨⟨rounds, last⟩, hsettle, h⟩ := Trace.outcome_bind_eq_ok.1 h
  obtain ⟨_, -, h⟩ := Trace.outcome_bind_eq_ok.1 h
  obtain ⟨_, hcheck, h⟩ := Trace.outcome_bind_eq_ok.1 h
  obtain ⟨_, -, h⟩ := Trace.outcome_bind_eq_ok.1 h
  exact ⟨rounds, last, hsettle, hcheck, Except.ok.inj h⟩

/-- A resolution succeeds if its last round leaves nothing to report. -/
theorem resolve_of_settle {p : Program} {rounds : Nat} {last : Round}
    (hsettle : (settle 0 p).outcome = .ok (rounds, last)) (hcheck : check last = .ok ())
    (htags : (recordTags last.program.tags).outcome = .ok ()) :
    (resolve p).outcome = .ok last.program := by
  refine Trace.outcome_bind_eq_ok.2 ⟨_, hsettle, Trace.outcome_bind_eq_ok.2 ⟨(), rfl, ?_⟩⟩
  exact Trace.outcome_bind_eq_ok.2 ⟨(), hcheck, Trace.outcome_bind_eq_ok.2 ⟨(), htags, rfl⟩⟩

/-- A program that is at rest is resolved as it is. -/
theorem resolve_of_rest {p : Program} {r : Round} (hround : (round p).outcome = .ok r)
    (hrest : r.progressed = false) (hcheck : check r = .ok ())
    (htags : (recordTags r.program.tags).outcome = .ok ()) :
    (resolve p).outcome = .ok r.program :=
  resolve_of_settle (settle_of_rest hround hrest 0) hcheck htags

/-- A program that comes to rest after one round is resolved then. -/
theorem resolve_of_progress {p : Program} {r last : Round} (hround : (round p).outcome = .ok r)
    (hprogress : r.progressed = true) (hlast : (round r.program).outcome = .ok last)
    (hrest : last.progressed = false) (hcheck : check last = .ok ())
    (htags : (recordTags last.program.tags).outcome = .ok ()) :
    (resolve p).outcome = .ok last.program := by
  have hsettle : (settle 0 p).outcome = .ok (2, last) := by
    rw [settle_of_progress hround hprogress, settle_of_rest hlast hrest]
  exact resolve_of_settle hsettle hcheck htags

/-- Any number of rounds are rewriting. -/
theorem Rounds.steps {p q : Program} (h : Rounds p q) : Steps p.symbols q.symbols := by
  induction h with
  | refl => exact .refl
  | tail _ hround ih =>
    obtain ⟨r, hr, rfl⟩ := hround
    exact ih.trans (round_steps hr)

/-- A resolution that succeeds is some rounds and a check that finds nothing. -/
theorem rounds_of_resolve {p q : Program} (h : (resolve p).outcome = .ok q) :
    Rounds p q ∧ ∀ s ∈ q.symbols, s.isInert = true := by
  obtain ⟨rounds, last, hsettle, hcheck, rfl⟩ := exists_of_resolve h
  refine ⟨?_, isInert_of_check hcheck⟩
  exact settle_invariant (P := Rounds p) (fun _ r hround hp => hp.tail ⟨r, hround, rfl⟩) hsettle
    .refl

/-- **Resolution is rewriting**, down to a stream without names and operators. -/
theorem resolve_steps {p q : Program} (h : (resolve p).outcome = .ok q) :
    Steps p.symbols q.symbols ∧ ∀ s ∈ q.symbols, s.isInert = true := by
  obtain ⟨hrounds, hinert⟩ := rounds_of_resolve h
  exact ⟨hrounds.steps, hinert⟩

end Resolution

/-! ### Names keep their values -/

/-- The names of a program keep their values and their places in another, which may have more. -/
structure Program.IsExtendedBy (p q : Program) : Prop where
  tags : p.tags <+: q.tags
  definitions : ∀ x, p.tags.has x = true → q.definitions.get? x = p.definitions.get? x

namespace Program.IsExtendedBy

variable {p q r : Program}

theorem refl (p : Program) : p.IsExtendedBy p := ⟨List.prefix_rfl, fun _ _ => rfl⟩

theorem get? (h : p.IsExtendedBy q) {x : String} {v : Value} (hx : p.tags.get? x = some v) :
    q.tags.get? x = some v := by
  obtain ⟨more, hmore⟩ := h.tags
  rw [← hmore, Table.get?_append, hx, Option.some_or]

/-- A name with a value stays one. -/
theorem has (h : p.IsExtendedBy q) {x : String} (hx : p.tags.has x = true) :
    q.tags.has x = true := by
  obtain ⟨v, hv⟩ := Option.isSome_iff_exists.1 hx
  rw [Table.has, h.get? hv]
  rfl

theorem trans (h : p.IsExtendedBy q) (h' : q.IsExtendedBy r) : p.IsExtendedBy r :=
  ⟨h.tags.trans h'.tags, fun x hx => (h'.definitions x (h.has hx)).trans (h.definitions x hx)⟩

end Program.IsExtendedBy

/-- A new name and its place. -/
theorem Program.isExtendedBy_put {tags : Table Value} {definitions : Table (Option Location)}
    {s : Symbol} (hnew : tags.has s.text = false) (n : Value) (symbols symbols' : List Symbol) :
    IsExtendedBy ⟨symbols, tags, definitions⟩
      ⟨symbols', tags.put s.text n, recordPlace definitions s⟩ := by
  constructor
  · show tags <+: tags.put s.text n
    rw [Table.put, hnew, if_neg Bool.false_ne_true]
    exact List.prefix_append _ _
  · intro x hx
    -- the name that is put is new, so it is not one that has a place already
    have hne : x ≠ s.text := by
      rintro rfl
      exact Bool.false_ne_true (hnew.symm.trans hx)
    show (recordPlace definitions s).get? x = definitions.get? x
    unfold recordPlace
    cases s.location with
    | none => rfl
    | some l => exact Table.get?_put_of_ne hne (some l)

namespace Resolution

/-- Definitions that are taken out give values to new names only. -/
theorem define_isExtendedBy {tags : Table Value} {definitions : Table (Option Location)}
    {symbols : List Symbol} {d : Defined} (h : (define tags definitions symbols).outcome = .ok d)
    (before after : List Symbol) :
    Program.IsExtendedBy ⟨before, tags, definitions⟩ ⟨after, d.tags, d.definitions⟩ := by
  -- on the length again, as a definition takes three symbols
  induction hn : symbols.length using Nat.strongRecOn
    generalizing tags definitions symbols d before with
  | ind n ih =>
    cases symbols with
    | nil =>
      obtain ⟨-, htags, hdefinitions⟩ := define_nil h
      rw [htags, hdefinitions]
      exact ⟨List.prefix_rfl, fun _ _ => rfl⟩
    | cons s following =>
      rw [List.length_cons] at hn
      rcases define_cases h with ⟨more, hmore, -, htags, hdefinitions⟩ |
        ⟨equals, value, rest, n, more, rfl, hnew, -, hmore, -, htags, hdefinitions⟩
      · rw [htags, hdefinitions]
        exact ih following.length (by omega) hmore before rfl
      · -- only a new name is given a value
        rw [List.length_cons, List.length_cons] at hn
        rw [htags, hdefinitions]
        exact (Program.isExtendedBy_put hnew n before rest).trans
          (ih rest.length (by omega) hmore rest rfl)

/-- And so does a round, as its other parts give no values. -/
theorem round_isExtendedBy {p : Program} {r : Round} (h : (round p).outcome = .ok r) :
    p.IsExtendedBy r.program := by
  obtain ⟨d, -, -, -, hd, -, -, htags, hdefinitions⟩ := exists_of_round h
  have hextended := define_isExtendedBy hd p.symbols r.program.symbols
  rw [← htags, ← hdefinitions] at hextended
  exact hextended

/-- **Rounds give values to new names only.** -/
theorem Rounds.isExtendedBy {p q : Program} (h : Rounds p q) : p.IsExtendedBy q := by
  induction h with
  | refl => exact .refl p
  | tail _ hround ih =>
    obtain ⟨r, hr, rfl⟩ := hround
    exact ih.trans (round_isExtendedBy hr)

/-- **Resolution keeps the values** that names have before it. -/
theorem resolve_get? {p q : Program} (h : (resolve p).outcome = .ok q) {x : String} {v : Value}
    (hx : p.tags.get? x = some v) : q.tags.get? x = some v :=
  (rounds_of_resolve h).1.isExtendedBy.get? hx

end Resolution

end RomAsm
