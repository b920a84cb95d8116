import RomAsm.Proofs.Rounds

/-!
# Moving a program to other locations

Every symbol carries the location at which it stands in its source. The phases of the assembler hand
locations on, compare them in one place, and write them into diagnostics; they decide nothing else
by them. A `Relocation` moves locations so that different ones stay different and what can be
written can still be written. Moving the symbols of a program moves the results of every phase in
the same way, and the failures too (`Relocation.moved`).

* `withZeros_moved`, `wrapFrom_moved`, `grouped_moved` — grouping;
* `literal_moved` and its companions — operands; `negated?_moved` is where locations are compared;
* `placeFrom_moved` — layout;
* `round_moved`, `settle_moved`, `resolve_moved` — resolution.
-/

namespace RomAsm

/-- A way to move locations. -/
structure Relocation where
  move : Location → Location
  injective : Function.Injective move
  isWritable_line : ∀ l, Numeral.isWritable (move l).line = Numeral.isWritable l.line
  isWritable_column : ∀ l, Numeral.isWritable (move l).column = Numeral.isWritable l.column

namespace Relocation

variable (r : Relocation) {α β γ : Type}

/-! ### Moving symbols and failures -/

/-- Moves a symbol. -/
def symbol (s : Symbol) : Symbol := { s with location := s.location.map r.move }

/-- Moves the location that a problem mentions. -/
def problem : Problem → Problem
  | .duplicateName name first => .duplicateName name (first.map r.move)
  | other => other

/-- Moves the locations that a failure mentions. -/
def failure : Failure → Failure
  | .diagnostic d => .diagnostic ⟨r.problem d.problem, d.location.map r.move, d.sourceLine⟩
  | other => other

/-- Moves an outcome, where `f` moves its result. -/
def moved (f : α → β) : Except Failure α → Except Failure β
  | .ok a => .ok (f a)
  | .error e => .error (r.failure e)

@[simp] theorem moved_ok (f : α → β) (a : α) : r.moved f (.ok a) = .ok (f a) := rfl

@[simp] theorem moved_pure (f : α → β) (a : α) : r.moved f (pure a) = .ok (f a) := rfl

@[simp] theorem moved_error (f : α → β) (e : Failure) :
    r.moved f (.error e) = .error (r.failure e) := rfl

/-- A choice that does not look at locations is made alike on both sides. -/
theorem moved_ite {p : Prop} [Decidable p] (f : α → β) (x y : Except Failure α) :
    r.moved f (if p then x else y) = if p then r.moved f x else r.moved f y := apply_ite _ p x y

/-- Parts that are moved make a sequence that is moved. -/
theorem bind_moved {x : Except Failure α} {x' : Except Failure β} {f : α → Except Failure γ}
    {δ : Type} {f' : β → Except Failure δ} {g : α → β} {h : γ → δ} (hx : x' = r.moved g x)
    (hf : ∀ a, x = .ok a → f' (g a) = r.moved h (f a)) : (x' >>= f') = r.moved h (x >>= f) := by
  subst hx
  cases x with
  | error e => rfl
  | ok a => exact hf a rfl

@[simp] theorem kind_symbol (s : Symbol) : (r.symbol s).kind = s.kind := rfl

@[simp] theorem text_symbol (s : Symbol) : (r.symbol s).text = s.text := rfl

@[simp] theorem value_symbol (s : Symbol) : (r.symbol s).value = s.value := rfl

@[simp] theorem location_symbol (s : Symbol) :
    (r.symbol s).location = s.location.map r.move := rfl

@[simp] theorem isInteger_symbol (s : Symbol) : (r.symbol s).isInteger = s.isInteger := rfl

@[simp] theorem isIdentifier_symbol (s : Symbol) :
    (r.symbol s).isIdentifier = s.isIdentifier := rfl

@[simp] theorem isOp_symbol (s : Symbol) (texts : List String) :
    (r.symbol s).isOp texts = s.isOp texts := rfl

@[simp] theorem isOpen_symbol (s : Symbol) : (r.symbol s).isOpen = s.isOpen := rfl

@[simp] theorem isClose_symbol (s : Symbol) : (r.symbol s).isClose = s.isClose := rfl

@[simp] theorem isArithmetic_symbol (s : Symbol) :
    (r.symbol s).isArithmetic = s.isArithmetic := rfl

@[simp] theorem startsStatement_symbol (s : Symbol) :
    (r.symbol s).startsStatement = s.startsStatement := rfl

@[simp] theorem mode?_symbol (s : Symbol) : (r.symbol s).mode? = s.mode? := rfl

@[simp] theorem symbol_ofOperator (text : String) (l : Option Location) :
    r.symbol (.ofOperator text l) = .ofOperator text (l.map r.move) := rfl

/-- A location that can be written is moved to one that can be written, and no other is. -/
theorem isWritable_move (l : Location) : (r.move l).isWritable = l.isWritable := by
  rw [Location.isWritable, r.isWritable_line, r.isWritable_column, Location.isWritable]

/-- The same for a location that may be missing: one that is missing is no obstacle. -/
theorem all_isWritable_map (l : Option Location) :
    (l.map r.move).all Location.isWritable = l.all Location.isWritable := by
  cases l with
  | none => rfl
  | some l => exact r.isWritable_move l

/-- The integers of a message can be written before the move exactly if they can be after it. Only
the message about a name that is defined twice has integers that are moved. -/
theorem integers_problem (p : Problem) :
    (r.problem p).integers.all Numeral.isWritable = p.integers.all Numeral.isWritable := by
  cases p with
  -- the only message with a location in its text
  | duplicateName name first =>
    cases first with
    | none => rfl
    | some l => simp [problem, Problem.integers, r.isWritable_line, r.isWritable_column]
  | _ => rfl

/-- A problem that is reported elsewhere is the same report, moved. -/
theorem failure_report (p : Problem) (l : Option Location) :
    r.failure (.report p l) = .report (r.problem p) (l.map r.move) := by
  rw [Failure.report_eq, Failure.report_eq, r.integers_problem, r.all_isWritable_map]
  split <;> rfl

/-- Most problems mention no location. -/
theorem report_moved {p : Problem} (hp : r.problem p = p) (l : Option Location) (f : α → β) :
    .error (.report p (l.map r.move)) = r.moved f (.error (.report p l)) := by
  rw [moved_error, failure_report, hp]

/-! ### Grouping -/

section Grouping

open Grouping

/-- Where a sign can stand is told by the kind of the symbol in front of it. -/
theorem startsExpression_moved (previous : Option Symbol) :
    startsExpression (previous.map r.symbol) = startsExpression previous := by
  cases previous <;> rfl

/-- **Putting zeros in front of signs** does not depend on locations: the zero has the location of
its sign, and so it moves with the sign. -/
theorem withZeros_moved (previous : Option Symbol) (symbols : List Symbol) :
    withZeros (previous.map r.symbol) (symbols.map r.symbol) =
      (withZeros previous symbols).map r.symbol := by
  induction symbols generalizing previous with
  | nil => rfl
  | cons s rest ih =>
    -- the symbol that was passed becomes the previous one of the rest
    have ih := ih (some s)
    rw [Option.map_some] at ih
    simp only [List.map_cons, withZeros, isOp_symbol, startsExpression_moved, ih,
      apply_ite (List.map r.symbol)]
    rfl

/-- A parenthesis is put in at the same depth. The two tests may be any that do not look at
locations, since the walk goes in both directions with their roles exchanged. -/
theorem enclose_moved {deeper shallower : Symbol → Bool}
    (hdeeper : ∀ s, deeper (r.symbol s) = deeper s)
    (hshallower : ∀ s, shallower (r.symbol s) = shallower s) (parenthesis : Symbol) (depth : Int)
    (symbols : List Symbol) :
    enclose deeper shallower (r.symbol parenthesis) depth (symbols.map r.symbol) =
      (enclose deeper shallower parenthesis depth symbols).map r.symbol := by
  induction symbols generalizing depth with
  | nil => rfl
  | cons s rest ih =>
    -- both walks see the same parentheses, so they count the same depth
    simp only [List.map_cons, enclose, hdeeper, hshallower, ih, apply_ite (List.map r.symbol)]

/-- Wrapping operators does not depend on locations, from any place of the walk on. -/
theorem wrapFrom_moved (operators : List String) (passed symbols : List Symbol) :
    wrapFrom operators (passed.map r.symbol) (symbols.map r.symbol) =
      (wrapFrom operators passed symbols).map r.symbol := by
  fun_induction wrapFrom operators passed symbols with
  | case1 passed => rw [List.map_nil, wrapFrom, List.map_reverse]
  | case2 passed s rest hs ih =>
    -- the parentheses that are put in have the location of the operator
    have hopen := r.enclose_moved r.isClose_symbol r.isOpen_symbol
      (.ofOperator "(" s.location) 0 passed
    have hclose := r.enclose_moved r.isOpen_symbol r.isClose_symbol
      (.ofOperator ")" s.location) 0 rest
    rw [List.map_cons, wrapFrom, if_pos (by exact hs), ← ih]
    simp only [openBefore, closeBehind, List.map_cons, ← hopen, ← hclose, symbol_ofOperator,
      location_symbol]
  | case3 passed s rest hs ih =>
    rw [List.map_cons, wrapFrom, if_neg (by exact hs), ← ih, List.map_cons]

/-- **Grouping** does not depend on locations. -/
theorem grouped_moved (symbols : List Symbol) :
    grouped (symbols.map r.symbol) = (grouped symbols).map r.symbol := by
  have hzeros := r.withZeros_moved none symbols
  rw [Option.map_none] at hzeros
  have hwrap (operators : List String) (symbols : List Symbol) :
      wrap operators (symbols.map r.symbol) = (wrap operators symbols).map r.symbol :=
    r.wrapFrom_moved operators [] symbols
  -- first the zeros, then the operators of the two ranks
  rw [grouped, hzeros, hwrap, hwrap, grouped]

end Grouping

/-! ### Operands -/

section Operand

open Operand

/-- Whether an operand is missing is told by the kinds of at most two symbols. -/
theorem absent_moved (following : List Symbol) :
    absent (following.map r.symbol) = absent following := by
  match following with
  | [] | [_] | _ :: _ :: _ => rfl

/-- Reading the mode off a marker fails in one way only, and that failure mentions no location. -/
theorem exists_text_of_mode? {s : Symbol} {e : Failure} (h : s.mode? = .error e) :
    ∃ text, e = .unlistedMarker text := by
  unfold Symbol.mode? at h
  split at h
  · split at h <;> cases h
    exact ⟨_, rfl⟩
  · split at h <;> cases h
    exact ⟨_, rfl⟩
  · cases h
  · cases h

/-- So the mode of a marker, and its failure too, is the same wherever the marker stands. -/
theorem mode?_moved (s : Symbol) (f : Option Machine.Mode → α) :
    s.mode?.map f = r.moved id (s.mode?.map f) := by
  cases h : s.mode? with
  | ok mode => rfl
  | error e =>
    obtain ⟨text, rfl⟩ := exists_text_of_mode? h
    rfl

/-- The mode of an instruction does not depend on locations; a missing operand is reported at the
mnemonic, wherever that is now. -/
theorem mode_moved (mnemonic : Symbol) (following : List Symbol) :
    mode (r.symbol mnemonic) (following.map r.symbol) = r.moved id (mode mnemonic following) := by
  unfold mode
  rw [absent_moved, moved_ite, moved_ite, moved_ite]
  congr 2
  · congr 1
    exact r.report_moved rfl mnemonic.location id
  · -- the marker of the mode is read off the first symbol, and its failures have no location
    match following with
    | [] => rfl
    | s :: _ => exact r.mode?_moved s _

/-- Nor does the instruction that is chosen by it. -/
theorem instruction_moved (mnemonic : Symbol) (following : List Symbol) :
    instruction (r.symbol mnemonic) (following.map r.symbol) =
      r.moved id (instruction mnemonic following) := by
  refine r.bind_moved (r.mode_moved mnemonic following) fun mode _ => ?_
  dsimp only [id, text_symbol]
  -- no instruction has this mode: a report at the mnemonic
  cases Machine.instruction? mnemonic.text mode with
  | some i => rfl
  | none => exact r.report_moved rfl mnemonic.location id

/-- The first symbol of an operand is moved like all others; where there is none, the report stands
at the directive. -/
theorem first_moved (directive : Symbol) (following : List Symbol) :
    first (r.symbol directive) (following.map r.symbol) =
      r.moved r.symbol (first directive following) := by
  have hmissing : first.missing (r.symbol directive) =
      r.moved r.symbol (first.missing directive) := r.report_moved rfl directive.location r.symbol
  unfold first
  rw [absent_moved, hmissing]
  -- the first symbol is absent if it begins the next statement
  cases following with
  | nil => rfl
  | cons s rest =>
    dsimp only [List.map_cons, List.head?_cons]
    rw [moved_ite]
    rfl

/-- The symbols up to the parenthesis that closes the first one are found by counting. -/
theorem balanced_moved (depth : Int) (symbols : List Symbol) :
    balanced depth (symbols.map r.symbol) = (balanced depth symbols).map r.symbol := by
  induction symbols generalizing depth with
  | nil => rfl
  | cons s rest ih =>
    simp only [List.map_cons, balanced, isOpen_symbol, isClose_symbol, ih,
      apply_ite (List.map r.symbol), List.map_nil]
    rfl

/-- The spelling of symbols has no locations in it. -/
theorem spelled_moved (symbols : List Symbol) :
    spelled (symbols.map r.symbol) = spelled symbols := by
  rw [spelled, List.map_map, spelled]
  rfl

/-- What a report quotes of an operand is the same wherever it stands. -/
theorem spelling_moved (following : List Symbol) :
    spelling (following.map r.symbol) = spelling following := by
  cases following with
  | nil => rfl
  | cons s rest =>
    -- an operand in parentheses is quoted up to the closing one
    have hbalanced := r.balanced_moved 0 (s :: rest)
    simp only [List.map_cons] at hbalanced
    simp only [List.map_cons, spelling, isOpen_symbol, text_symbol, hbalanced, spelled_moved]

/-- Two locations are equal after the move exactly if they were before: this is what the injectivity
of a move is for. -/
theorem map_move_beq (l m : Option Location) :
    (l.map r.move == m.map r.move) = (l == m) := by
  rw [Bool.eq_iff_iff, beq_iff_eq, beq_iff_eq]
  exact (Option.map_injective r.injective).eq_iff

/-- **Whether a zero was put in for a sign** is told by its location; moving keeps that. -/
theorem negated?_moved (following : List Symbol) :
    negated? (following.map r.symbol) = r.moved (Option.map r.symbol) (negated? following) := by
  match following with
  | opening :: zero :: minus :: literal :: closing :: rest =>
    -- the only comparison of locations: an injective move keeps it
    simp only [List.map_cons, negated?, isOpen_symbol, isClose_symbol, isInteger_symbol,
      value_symbol, isOp_symbol, location_symbol, text_symbol, map_move_beq, Option.isSome_map,
      moved_ite]
    cases literal.value <;> rfl
  | [] | [_] | [_, _] | [_, _, _] | [_, _, _, _] => rfl

/-- **The literal of a directive** is moved, and so are all reports about it. -/
theorem literal_moved (directive : Symbol) (following : List Symbol) :
    literal (r.symbol directive) (following.map r.symbol) =
      r.moved r.symbol (literal directive following) := by
  refine r.bind_moved (r.first_moved directive following) fun operand _ => ?_
  simp only [isInteger_symbol, moved_ite]
  congr 1
  refine r.bind_moved (r.negated?_moved following) fun negated _ => ?_
  cases negated with
  | some s => rfl
  | none =>
    simp only [Option.map_none, spelling_moved, location_symbol, text_symbol]
    -- where the operand has no location, the report has that of the directive
    rw [← Option.map_or]
    exact r.report_moved rfl _ _

/-- The text of a string operand is the same; a report about it is moved. -/
theorem string_moved (directive : Symbol) (following : List Symbol) :
    string (r.symbol directive) (following.map r.symbol) =
      r.moved id (string directive following) := by
  refine r.bind_moved (r.first_moved directive following) fun operand _ => ?_
  simp only [kind_symbol, text_symbol, location_symbol, moved_ite]
  -- an operand without a location is reported at the directive
  rw [← Option.map_or]
  congr 1
  exact r.report_moved rfl _ _

/-- The check for a sign, for each of the three problems that it can report. -/
theorem nonNegative_moved {p : String → Problem} (hp : ∀ text, r.problem (p text) = p text)
    (operand : Symbol) : nonNegative p (r.symbol operand) = r.moved id (nonNegative p operand) := by
  unfold nonNegative
  rw [value_symbol]
  cases operand.value with
  | none => rfl
  | some n =>
    simp only [moved_ite, moved_error, failure_report, hp]
    rfl

/-- The operand of `.data`, which keeps its location since it may be reported again. -/
theorem data_moved (directive : Symbol) (following : List Symbol) :
    data (r.symbol directive) (following.map r.symbol) =
      r.moved r.symbol (data directive following) :=
  r.bind_moved (r.literal_moved directive following) fun operand _ =>
    r.bind_moved (r.nonNegative_moved (fun _ => rfl) operand) fun _ _ => rfl

/-- The count of `.reserve`. -/
theorem reserve_moved (directive : Symbol) (following : List Symbol) :
    reserve (r.symbol directive) (following.map r.symbol) =
      r.moved id (reserve directive following) :=
  r.bind_moved (r.literal_moved directive following) fun operand _ =>
    r.nonNegative_moved (fun _ => rfl) operand

/-- The target of `.org`. -/
theorem origin_moved (directive : Symbol) (following : List Symbol) :
    origin (r.symbol directive) (following.map r.symbol) =
      r.moved id (origin directive following) :=
  r.bind_moved (r.literal_moved directive following) fun operand _ =>
    r.nonNegative_moved (fun _ => rfl) operand

end Operand

/-! ### Layout -/

/-- Moves a program. -/
def program (p : Program) : Program where
  symbols := p.symbols.map r.symbol
  tags := p.tags
  definitions := p.definitions.map fun entry => (entry.1, entry.2.map r.move)

/-- Moves the places at which names were defined. -/
abbrev places (definitions : Table (Option Location)) : Table (Option Location) :=
  definitions.map fun entry => (entry.1, entry.2.map r.move)

/-- Looking a name up gives the place that was recorded for it, moved. -/
theorem get?_places (definitions : Table (Option Location)) (name : String) :
    (r.places definitions).get? name = (definitions.get? name).map (Option.map r.move) := by
  induction definitions with
  | nil => rfl
  | cons entry definitions ih =>
    obtain ⟨other, l⟩ := entry
    simp only [Table.get?, places, List.map_cons, List.lookup_cons] at ih ⊢
    rw [ih]
    split <;> rfl

/-- Recording a moved place is moving what was recorded. Both keep the order of the names. -/
theorem put_places (definitions : Table (Option Location)) (name : String) (l : Location) :
    r.places (definitions.put name (some l)) =
      (r.places definitions).put name (some (r.move l)) := by
  unfold Table.put Table.has
  rw [get?_places, Option.isSome_map, apply_ite r.places, places, places, List.map_map,
    List.map_map, List.map_append]
  -- a name that is there already keeps its position in the table
  congr 2
  funext entry
  dsimp only [Function.comp_apply]
  split <;> rfl

/-- A name that is taken is reported at its second place, with its first one in the hint: here a
failure mentions two locations. -/
theorem checkNew_moved (tags : Table Value) (definitions : Table (Option Location)) (s : Symbol) :
    Program.checkNew tags (r.places definitions) (r.symbol s) =
      r.moved id (Program.checkNew tags definitions s) := by
  unfold Program.checkNew
  rw [moved_ite, moved_error, failure_report, get?_places, text_symbol]
  cases definitions.get? s.text <;> rfl

/-- A symbol without a location leaves no record, before the move and after it. -/
theorem recordPlace_moved (definitions : Table (Option Location)) (s : Symbol) :
    Program.recordPlace (r.places definitions) (r.symbol s) =
      r.places (Program.recordPlace definitions s) := by
  unfold Program.recordPlace
  rw [location_symbol]
  cases s.location with
  | none => rfl
  | some l => exact (r.put_places definitions s.text l).symm

section Layout

open Layout

/-- A number that cannot be written is a failure without a location. -/
theorem numeral_moved (n : Int) : numeral n = r.moved id (numeral n) := by
  unfold numeral Numeral.written
  split <;> rfl

theorem mapError_numeral_moved (x : Except Numeral.Fault α) :
    x.mapError Failure.numeral = r.moved id (x.mapError Failure.numeral) := by
  cases x <;> rfl

/-- The address behind a directive, by the directives in turn. -/
theorem addressAfter_moved (address : Nat) (directive : Symbol) (following : List Symbol) :
    addressAfter address (r.symbol directive) (following.map r.symbol) =
      r.moved id (addressAfter address directive following) := by
  unfold addressAfter
  rw [text_symbol]
  split
  · exact r.bind_moved (r.reserve_moved directive following) fun _ _ => rfl
  · exact r.origin_moved directive following
  · exact r.bind_moved (r.first_moved directive following) fun _ _ => rfl
  · exact r.bind_moved (r.string_moved directive following) fun _ _ => rfl
  · exact r.bind_moved (r.data_moved directive following) fun operand _ =>
      r.bind_moved (r.mapError_numeral_moved (DataLiteral.size operand.text)) fun _ _ => rfl
  · exact r.report_moved rfl directive.location id

/-- The address behind a statement is the same wherever the statement stands. -/
theorem step_moved (address : Nat) (s : Symbol) (following : List Symbol) :
    step address (r.symbol s) (following.map r.symbol) = r.moved id (step address s following) := by
  unfold step
  rw [kind_symbol]
  split
  · exact r.bind_moved (r.instruction_moved s following) fun _ _ => rfl
  · exact r.addressAfter_moved address s following
  · rfl

/-- What is a label is told by the kinds of two symbols. -/
theorem isLabel_moved (s : Symbol) (following : List Symbol) :
    isLabel (r.symbol s) (following.map r.symbol) = isLabel s following := by
  cases following <;> rfl

/-- At the end of the stream the size of the program is written into the log; whether it can be has
nothing to do with locations. -/
theorem outcome_finish_moved (address : Nat) (tags : Table Value)
    (definitions : Table (Option Location)) :
    (finish address tags (r.places definitions)).outcome =
      r.moved r.program (finish address tags definitions).outcome := by
  simp only [finish, Trace.outcome_bind, Trace.outcome_liftM]
  exact r.bind_moved (r.numeral_moved address) fun _ _ => rfl

omit r in
/-- What layout does with a label, without the entries it writes: the name must be new, the address
must be writable, and both are recorded. -/
theorem outcome_placeFrom_label {address : Nat} {tags : Table Value}
    {definitions : Table (Option Location)} {s colon : Symbol} {rest : List Symbol}
    (h : isLabel s (colon :: rest) = true) :
    (placeFrom address tags definitions (s :: colon :: rest)).outcome =
      Program.checkNew tags definitions s >>= fun _ => numeral address >>= fun _ =>
        (placeFrom address (tags.put s.text (some address)) (Program.recordPlace definitions s)
          rest).outcome := by
  rw [placeFrom, if_pos h]
  simp only [Trace.outcome_bind, Trace.outcome_liftM]
  rfl

omit r in
/-- What layout does with any other symbol: the address goes on, and the symbol stays. -/
theorem outcome_placeFrom_step {address : Nat} {tags : Table Value}
    {definitions : Table (Option Location)} {s : Symbol} {following : List Symbol}
    (h : ¬ isLabel s following = true) (hcolon : ¬ s.isOp [":"] = true) :
    (placeFrom address tags definitions (s :: following)).outcome =
      step address s following >>= fun next =>
        (placeFrom next tags definitions following).outcome >>= fun program =>
          .ok { program with symbols := s :: program.symbols } := by
  conv_lhs => unfold placeFrom
  rw [if_neg h, if_neg hcolon]
  simp only [Trace.outcome_bind, Trace.outcome_liftM]
  rfl

/-- **Layout** does not depend on locations. -/
theorem placeFrom_moved (address : Nat) (tags : Table Value)
    (definitions : Table (Option Location)) (symbols : List Symbol) :
    (placeFrom address tags (r.places definitions) (symbols.map r.symbol)).outcome =
      r.moved r.program (placeFrom address tags definitions symbols).outcome := by
  induction address, tags, definitions, symbols using placeFrom.induct with
  | case1 address tags definitions =>
    rw [List.map_nil, placeFrom, placeFrom]
    exact r.outcome_finish_moved address tags definitions
  -- a label has a colon behind it, so it is not the last symbol
  | case2 address tags definitions s hlabel => simp [isLabel] at hlabel
  | case3 address tags definitions s colon rest hlabel ih =>
    have hmoved : isLabel (r.symbol s) (r.symbol colon :: rest.map r.symbol) = true :=
      (r.isLabel_moved s (colon :: rest)).trans hlabel
    rw [List.map_cons, List.map_cons, outcome_placeFrom_label hmoved,
      outcome_placeFrom_label hlabel]
    refine r.bind_moved (r.checkNew_moved tags definitions s) fun _ _ => ?_
    refine r.bind_moved (r.numeral_moved address) fun _ _ => ?_
    -- the place that is recorded for the label moves with it
    rw [recordPlace_moved]
    exact ih
  | case4 address tags definitions s rest hlabel hcolon =>
    -- a colon that belongs to no label is reported where it stands
    have hmoved : ¬ isLabel (r.symbol s) (rest.map r.symbol) = true := by
      rwa [isLabel_moved]
    unfold placeFrom
    rw [List.map_cons, if_neg hlabel, if_pos hcolon]
    dsimp only
    rw [if_neg hmoved, if_pos (by exact hcolon)]
    exact r.report_moved rfl s.location r.program
  -- all other symbols stay in the program
  | case5 address tags definitions s rest hlabel hcolon ih =>
    have hmoved : ¬ isLabel (r.symbol s) (rest.map r.symbol) = true := by
      rwa [isLabel_moved]
    rw [List.map_cons, outcome_placeFrom_step hmoved hcolon, outcome_placeFrom_step hlabel hcolon]
    refine r.bind_moved (r.step_moved address s rest) fun next _ => ?_
    exact r.bind_moved (ih next) fun _ _ => rfl

end Layout

/-! ### Resolution -/

section Resolution

open Resolution

/-- The two problems of a zero divisor mention no location. -/
theorem problem_zero (p : Prop) [Decidable p] :
    r.problem (if p then .divisionByZero else .moduloByZero) =
      if p then .divisionByZero else .moduloByZero := by
  split <;> rfl

/-- The value of an operator is the same; a zero divisor is reported at the operator. -/
theorem evaluate_moved (operator : Symbol) (left right : Int) :
    evaluate (r.symbol operator) left right = r.moved id (evaluate operator left right) := by
  unfold evaluate
  rw [text_symbol]
  split
  · rfl
  · rfl
  · rfl
  · rw [moved_ite, moved_ite, moved_ite]
    congr 1
    · exact r.report_moved (r.problem_zero _) operator.location id
    · congr 2
      exact r.report_moved rfl operator.location id

/-- The same where operands may lack a number. -/
theorem apply_moved (operator : Symbol) (left right : Value) :
    apply (r.symbol operator) left right = r.moved id (apply operator left right) := by
  -- an operand without a number is a failure of its own
  have hwithout : withoutNumbers (r.symbol operator) left right =
      r.failure (withoutNumbers operator left right) := by
    unfold withoutNumbers
    rw [text_symbol, apply_ite r.failure, apply_ite r.failure, failure_report, problem_zero]
    rfl
  match left, right with
  | some left, some right => exact r.evaluate_moved operator left right
  | some _, none | none, some _ | none, none => exact congrArg Except.error hwithout

/-- What is a definition is told by the kinds of two symbols. -/
theorem isDefinition_moved (s : Symbol) (following : List Symbol) :
    isDefinition (r.symbol s) (following.map r.symbol) = isDefinition s following := by
  cases following <;> rfl

/-- Whether a number is all there is to a definition is told by the symbol behind it. -/
theorem isComplete_moved (value : Symbol) (rest : List Symbol) :
    isComplete (r.symbol value) (rest.map r.symbol) = isComplete value rest := by
  cases rest <;> rfl

/-- The role of a symbol in a round does not depend on locations. Its failures do: a definition
without a value is reported at its equals sign. -/
theorem role_moved (tags : Table Value) (definitions : Table (Option Location)) (s : Symbol)
    (following : List Symbol) :
    role tags (r.places definitions) (r.symbol s) (following.map r.symbol) =
      r.moved id (role tags definitions s following) := by
  unfold role
  rw [isDefinition_moved, moved_ite]
  congr 1
  refine r.bind_moved (r.checkNew_moved tags definitions s) fun _ _ => ?_
  match following with
  -- the cases differ in where the report stands
  | [] => exact r.report_moved rfl none id
  | [equals] => exact r.report_moved rfl equals.location id
  | equals :: value :: rest =>
    simp only [List.map_cons, startsStatement_symbol, isComplete_moved]
    rw [moved_ite]
    congr 1
    exact r.report_moved rfl equals.location id

/-- The text of a value, or the failure to write it, mentions no location. -/
theorem valueText_moved (n : Value) : valueText n = r.moved id (valueText n) := by
  cases n with
  | none => rfl
  | some n => exact r.numeral_moved n

/-- A number that is put in for a symbol gets the location of that symbol. -/
theorem ofValue_moved (n : Value) (l : Option Location) :
    Symbol.ofValue n (l.map r.move) = r.moved r.symbol (Symbol.ofValue n l) :=
  r.bind_moved (r.valueText_moved n) fun _ _ => rfl

/-- Moves what `define` comes to. -/
def defined (d : Defined) : Defined :=
  { d with symbols := d.symbols.map r.symbol, definitions := r.places d.definitions }

omit r in
/-- One step of `define`, without the entries it writes, by the role of its first symbol. -/
theorem outcome_define (tags : Table Value) (definitions : Table (Option Location)) (s : Symbol)
    (following : List Symbol) :
    (define tags definitions (s :: following)).outcome =
      role tags definitions s following >>= fun
        | .plain => (define tags definitions following).outcome >>= fun more => .ok (more.keep s)
        | .pending => (define tags definitions following).outcome >>= fun more =>
            .ok { more.keep s with pending := s.text :: more.pending }
        | .literal n => valueText n >>= fun _ =>
            match following with
            | _ :: _ :: rest =>
              (define (tags.put s.text n) (Program.recordPlace definitions s) rest).outcome >>=
                fun more => .ok { more with changed := true }
            | _ => .ok ⟨[], tags.put s.text n, Program.recordPlace definitions s, [], true⟩ := by
  rw [define, Trace.outcome_bind, Trace.outcome_liftM]
  congr 1
  funext role
  cases role with
  | plain => exact Trace.outcome_bind ..
  | pending => exact Trace.outcome_bind ..
  | literal n =>
    rw [Trace.outcome_bind, Trace.outcome_liftM]
    congr 1
    -- the first two symbols behind a literal definition are its equals sign and its value
    funext _
    rcases following with _ | ⟨_, _ | ⟨_, rest⟩⟩
    · rfl
    · rfl
    · rw [Trace.outcome_bind]
      exact Trace.outcome_bind ..

/-- **Collecting definitions** does not depend on locations. -/
theorem define_moved (tags : Table Value) (definitions : Table (Option Location))
    (symbols : List Symbol) :
    (define tags (r.places definitions) (symbols.map r.symbol)).outcome =
      r.moved r.defined (define tags definitions symbols).outcome := by
  induction tags, definitions, symbols using define.induct with
  | case1 tags definitions =>
    rw [List.map_nil, define, define]
    rfl
  | case2 tags definitions s following ih ihrest =>
    rw [List.map_cons, outcome_define, outcome_define]
    refine r.bind_moved (r.role_moved tags definitions s following) fun role _ => ?_
    cases role with
    | plain => exact r.bind_moved ih fun _ _ => rfl
    | pending => exact r.bind_moved ih fun _ _ => rfl
    | literal n =>
      refine r.bind_moved (r.valueText_moved n) fun _ _ => ?_
      rw [recordPlace_moved, text_symbol]
      -- a literal definition has two more symbols, but `define` does not rely on it
      rcases following with _ | ⟨_, _ | ⟨_, rest⟩⟩
      · rfl
      · rfl
      · exact r.bind_moved (ihrest n) fun _ _ => rfl

/-- **Substituting names** does not depend on locations: a name is looked up by its text, and its
number takes its place. -/
theorem substitute_moved (tags : Table Value) (symbols : List Symbol) :
    substitute tags (symbols.map r.symbol) =
      r.moved (Prod.map (List.map r.symbol) id) (substitute tags symbols) := by
  induction symbols with
  | nil => rfl
  | cons s following ih =>
    simp only [List.map_cons, substitute, isIdentifier_symbol, isDefinition_moved, text_symbol]
    rw [moved_ite]
    congr 1
    · cases tags.get? s.text with
      | none => exact r.bind_moved ih fun _ _ => rfl
      | some n =>
        exact r.bind_moved (r.ofValue_moved n s.location) fun _ _ => r.bind_moved ih fun _ _ => rfl
    · exact r.bind_moved ih fun _ _ => rfl

/-- Pushing a symbol reduces the same groups on both sides, since a group is found by kinds and
values; its number gets the location of its left operand. -/
theorem push_moved (top : Symbol) (below : List Symbol) :
    push (r.symbol top) (below.map r.symbol) =
      r.moved (Prod.map (List.map r.symbol) id) (push top below) := by
  match below with
  | [] | [_] => rfl
  | middle :: left :: below =>
    simp only [List.map_cons, push, isOpen_symbol, isInteger_symbol, isClose_symbol,
      isArithmetic_symbol, value_symbol, location_symbol]
    rw [moved_ite, moved_ite]
    congr 1
    · -- a number in parentheses: the number is pushed again
      exact r.bind_moved (push_moved middle below) fun _ _ => rfl
    · congr 1
      -- an operator between two numbers: its value is pushed in their place
      refine r.bind_moved (r.apply_moved middle left.value top.value) fun n _ => ?_
      refine r.bind_moved (r.ofValue_moved (some n) left.location) fun value _ => ?_
      exact r.bind_moved (push_moved value below) fun _ _ => rfl

/-- **Folding** does not depend on locations. -/
theorem foldFrom_moved (stack symbols : List Symbol) :
    foldFrom (stack.map r.symbol) (symbols.map r.symbol) =
      r.moved (Prod.map (List.map r.symbol) id) (foldFrom stack symbols) := by
  induction symbols generalizing stack with
  | nil =>
    rw [List.map_nil, foldFrom, ← List.map_reverse]
    rfl
  | cons s rest ih =>
    exact r.bind_moved (r.push_moved s stack) fun pushed _ =>
      r.bind_moved (ih pushed.1) fun _ _ => rfl

/-- Moves what a round comes to. -/
def round (x : Round) : Round := { x with program := r.program x.program }

/-- **A round** does not depend on locations. -/
theorem round_moved (p : Program) :
    (Resolution.round (r.program p)).outcome = r.moved r.round (Resolution.round p).outcome := by
  simp only [Resolution.round, Trace.outcome_bind, Trace.outcome_liftM]
  refine r.bind_moved (r.define_moved p.tags p.definitions p.symbols) fun d _ => ?_
  refine r.bind_moved (r.substitute_moved d.tags d.symbols) fun substituted _ => ?_
  exact r.bind_moved (r.foldFrom_moved [] substituted.1) fun _ _ => rfl

/-- **Rounds** are repeated equally often. The recursion is on the weight of the symbols, which a
round with progress makes smaller. -/
theorem settle_moved (rounds : Nat) (p : Program) :
    (settle rounds (r.program p)).outcome =
      r.moved (Prod.map id r.round) (settle rounds p).outcome := by
  induction hn : weight p.symbols using Nat.strongRecOn generalizing rounds p with
  | ind n ih =>
    -- the moved round makes progress if the round does
    have hmoved := r.round_moved p
    cases hround : (Resolution.round p).outcome with
    | error failure =>
      rw [hround] at hmoved
      rw [settle_of_error hround, settle_of_error hmoved]
      rfl
    | ok x =>
      rw [hround] at hmoved
      cases hprogress : x.progressed with
      | false =>
        rw [settle_of_rest hround hprogress, settle_of_rest hmoved hprogress]
        rfl
      | true =>
        rw [settle_of_progress hround hprogress, settle_of_progress hmoved hprogress]
        -- the next round, on a program of less weight
        exact ih _ (hn ▸ weight_round_lt hround hprogress) (rounds + 1) x.program rfl

/-- The names that are left over are the same, in the same order. -/
theorem undefinedNames_moved (x : Round) : undefinedNames (r.round x) = undefinedNames x := by
  have hfilter : (x.program.symbols.map r.symbol).filter Symbol.isIdentifier =
      (x.program.symbols.filter Symbol.isIdentifier).map r.symbol := List.filter_map
  unfold undefinedNames
  dsimp only [round, program]
  -- the names are collected from the texts of what is left
  rw [hfilter, List.foldl_map]
  rfl

/-- The last check reports the same, at the moved place of the symbol that it finds. -/
theorem check_moved (x : Round) : check (r.round x) = r.moved id (check x) := by
  -- the symbol that is reported is found by its kind and its text
  have hfind {p : Symbol → Bool} (hp : p ∘ r.symbol = p) :
      (r.round x).program.symbols.find? p = (x.program.symbols.find? p).map r.symbol := by
    have hmap := List.find?_map (f := r.symbol) (p := p) (l := x.program.symbols)
    rwa [hp] at hmap
  unfold check
  rw [undefinedNames_moved]
  cases undefinedNames x with
  | nil =>
    dsimp only
    rw [hfind rfl]
    cases x.program.symbols.find? (·.kind == .operator) with
    | none => rfl
    | some s => exact r.report_moved rfl s.location id
  | cons name names =>
    dsimp only
    rw [hfind rfl]
    cases x.program.symbols.find? fun s => s.isIdentifier && s.text == name with
    | none => exact r.report_moved rfl none id
    | some s => exact r.report_moved rfl s.location id

/-- The values that are logged at the end have no locations. -/
theorem recordTags_moved (tags : Table Value) :
    (recordTags tags).outcome = r.moved id (recordTags tags).outcome := by
  induction tags with
  | nil => rfl
  | cons tag tags ih =>
    simp only [recordTags, Trace.outcome_bind, Trace.outcome_liftM]
    -- only the value can keep a tag from being written
    exact r.bind_moved (r.valueText_moved tag.2) fun _ _ => ih

/-- **Resolution** does not depend on locations. -/
theorem resolve_moved (p : Program) :
    (resolve (r.program p)).outcome = r.moved r.program (resolve p).outcome := by
  simp only [resolve, Trace.outcome_bind, Trace.outcome_liftM, Logged.debug, Trace.outcome_write,
    Trace.except_ok_bind]
  refine r.bind_moved (r.settle_moved 0 p) fun last _ => ?_
  refine r.bind_moved (r.check_moved last.2) fun _ _ => ?_
  exact r.bind_moved (r.recordTags_moved last.2.program.tags) fun _ _ => rfl

end Resolution

end Relocation

end RomAsm
