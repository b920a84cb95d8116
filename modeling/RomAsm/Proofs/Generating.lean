import RomAsm.Generation

/-!
# What a generator makes of a program

A generator works on a state that it keeps from one program to the next, and it moves the parts of
that state in different places. What it makes of a stream can also be said without a state: the
stream is cut into statements, each with its address, its bytes and its symbols, and `encodeFrom`
tells which. The generator does the same step by step:

* `Generator.foldl_perform` — the events of a statement move the code and the counter by the same
  bytes, and nothing else;
* `Generator.step_of_ok`, `Generator.step_of_error` — one statement;
* `Generator.encode_eq` — by induction, a stream, from any state: **the generator refines**
  `encodeFrom`;
* `Generator.generate_of_ok`, `Generator.generate_of_error` — a whole program. It begins with a
  cleared state, so what it comes to does not depend on the state before it
  (`Generator.generate_eq`).

`Generator.stops` are the states in which the statements of a stream begin. They are what can be
said about a run between two statements.
-/

namespace RomAsm

/-! ### Streams without a state -/

/-- A statement of a program, as it was encoded. -/
structure Statement where
  address : Nat
  bytes : List UInt8
  symbols : List Symbol
  deriving DecidableEq, Repr

/-- The line of the listing for a statement. -/
def Statement.line (s : Statement) : String := Listing.line s.address s.bytes s.symbols

namespace Generation

/-- What the statements of a stream come to, up to the failure that may have ended them. The
fragment is what the statement that failed had laid down. -/
structure Encoded where
  statements : List Statement
  fragment : List UInt8
  records : List Record
  outcome : Except Failure Unit

/-- The bytes of a stream, the fragment at its end included. -/
def Encoded.bytes (e : Encoded) : List UInt8 := e.statements.flatMap (·.bytes) ++ e.fragment

/-- Encodes the rest of a stream, from the given address on. -/
def encodeFrom (strict : Bool) (address : Nat) : List Symbol → Encoded
  | [] => ⟨[], [], [], .ok ()⟩
  | s :: following =>
    let t := statement strict address s following
    let bytes := t.entries.flatMap Event.laidDown
    let records := t.entries.filterMap Event.record?
    match t.outcome with
    | .error failure => ⟨[], bytes, records, .error failure⟩
    | .ok taken =>
      let later := encodeFrom strict (address + bytes.length) (following.drop taken)
      ⟨⟨address, bytes, s :: following.take taken⟩ :: later.statements, later.fragment,
        records ++ later.records, later.outcome⟩
termination_by symbols => symbols.length
decreasing_by
  simp only [List.length_drop, List.length_cons]
  omega

/-- What has come of a program when its encoding ends. -/
def reached (strict : Bool) (p : Program) : Generator where
  code := (encodeFrom strict 0 p.symbols).bytes
  address := (encodeFrom strict 0 p.symbols).bytes.length
  tags := p.tags
  lines := (encodeFrom strict 0 p.symbols).statements.map Statement.line

end Generation

/-! ### Steps -/

namespace Generator

open Generation

variable {g : Generator} {strict : Bool} {s : Symbol} {following : List Symbol}

theorem emit_nil (g : Generator) : g.emit [] = g := by
  rw [emit, List.append_nil]
  rfl

theorem emit_emit (g : Generator) (xs ys : List UInt8) :
    (g.emit xs).emit ys = g.emit (xs ++ ys) := by
  simp only [emit, List.append_assoc, List.length_append, Nat.add_assoc]

/-- **The events of a statement** lay down their bytes and do nothing else to the state. -/
theorem foldl_perform (g : Generator) (events : List Event) :
    events.foldl Event.perform g = g.emit (events.flatMap Event.laidDown) := by
  induction events generalizing g with
  | nil => exact g.emit_nil.symm
  | cons event events ih =>
    rw [List.foldl_cons, ih, List.flatMap_cons]
    -- only bytes change the state; a record goes to the log
    cases event with
    | bytes bs => exact emit_emit g bs _
    | record r => rfl

/-- The state behind some statements, and behind what the failure of another one has left. -/
def extended (g : Generator) (statements : List Statement) (fragment : List UInt8) : Generator :=
  { g.emit (statements.flatMap (·.bytes) ++ fragment) with
    lines := g.lines ++ statements.map Statement.line }

/-- A statement that is encoded: its bytes are laid down, and its line shows just these. -/
theorem step_of_ok {taken : Nat}
    (h : (statement strict g.address s following).outcome = .ok taken) :
    g.step strict s following =
      let bytes := (statement strict g.address s following).entries.flatMap Event.laidDown
      ⟨g.extended [⟨g.address, bytes, s :: following.take taken⟩] [],
        (statement strict g.address s following).entries.filterMap Event.record?, .ok taken⟩ := by
  -- the line shows what the code has become longer by, and that is what was laid down
  have hcode (bytes : List UInt8) : (g.code ++ bytes).drop g.code.length = bytes := List.drop_left
  simp only [step, h, foldl_perform, addLine, emit, hcode, extended, Statement.line,
    List.flatMap_singleton, List.map_singleton, List.append_nil]

/-- A statement that fails leaves what it has laid down, and no line. -/
theorem step_of_error {failure : Failure}
    (h : (statement strict g.address s following).outcome = .error failure) :
    g.step strict s following =
      ⟨g.emit ((statement strict g.address s following).entries.flatMap Event.laidDown),
        (statement strict g.address s following).entries.filterMap Event.record?,
        .error failure⟩ := by
  simp only [step, h, foldl_perform]

/-! ### Runs -/

theorem extended_nil (g : Generator) : g.extended [] [] = g := by
  simp only [extended, List.flatMap_nil, List.append_nil, List.map_nil, emit_nil]

/-- Statements can be added one after the other. -/
theorem extended_cons (g : Generator) (s : Statement) (later : List Statement)
    (fragment : List UInt8) :
    (g.extended [s] []).extended later fragment = g.extended (s :: later) fragment := by
  simp only [extended, emit, List.flatMap_cons, List.flatMap_nil, List.map_cons, List.map_nil,
    List.append_nil, List.append_assoc, List.length_append, List.singleton_append, Nat.add_assoc]

/-- **A generator refines `encodeFrom`.** From any state, a stream comes to what it comes to without
a state, at the address of the counter; the state is extended by that, and the records and the
outcome are the same. -/
theorem encode_eq (g : Generator) (strict : Bool) (symbols : List Symbol) :
    g.encode strict symbols =
      ⟨g.extended (encodeFrom strict g.address symbols).statements
          (encodeFrom strict g.address symbols).fragment,
        (encodeFrom strict g.address symbols).records,
        (encodeFrom strict g.address symbols).outcome⟩ := by
  -- on the length of the stream, since a statement takes several symbols
  induction hn : symbols.length using Nat.strongRecOn generalizing g symbols with
  | ind n ih =>
    cases symbols with
    | nil =>
      rw [encode, encodeFrom, extended_nil]
    | cons s following =>
      rw [encode, encodeFrom]
      cases houtcome : (statement strict g.address s following).outcome with
      -- the statement that fails is the last, and has left a fragment
      | error failure =>
        rw [step_of_error houtcome]
        simp only [extended, List.flatMap_nil, List.nil_append, List.map_nil, List.append_nil]
        rfl
      | ok taken =>
        rw [step_of_ok houtcome]
        -- the rest is encoded from the address behind this statement, where the counter now is
        have hshorter : (following.drop taken).length < n := by
          rw [← hn, List.length_drop, List.length_cons]
          omega
        dsimp only
        rw [ih _ hshorter _ _ rfl, extended_cons]
        simp only [extended, emit, List.flatMap_singleton, List.append_nil]

/-- The state behind a program is the one that the program has reached. -/
theorem extended_start (g : Generator) (strict : Bool) (p : Program) :
    (g.start p).extended (encodeFrom strict 0 p.symbols).statements
        (encodeFrom strict 0 p.symbols).fragment = reached strict p := by
  simp only [extended, start, reset, emit, reached, Encoded.bytes, List.nil_append, Nat.zero_add]

/-- A program is encoded from the cleared state on, so it reaches the same whatever was there
before. -/
theorem encode_start (g : Generator) (strict : Bool) (p : Program) :
    (g.start p).encode strict p.symbols =
      ⟨reached strict p, (encodeFrom strict 0 p.symbols).records,
        (encodeFrom strict 0 p.symbols).outcome⟩ := by
  have haddress : (g.start p).address = 0 := rfl
  rw [encode_eq, haddress, extended_start]

/-- A program that is encoded leaves what it has reached. -/
theorem generate_of_ok {p : Program} (h : (encodeFrom strict 0 p.symbols).outcome = .ok ()) :
    g.generate strict p =
      ⟨reached strict p,
        (encodeFrom strict 0 p.symbols).records ++
          [⟨.debug, "Generated " ++ Numeral.decimal (reached strict p).code.length ++ " bytes"⟩],
        .ok (reached strict p).code⟩ := by
  simp only [generate, encode_start, h]

/-- A program that fails leaves what it has reached, too, unless the failure is a diagnostic. -/
theorem generate_of_error {p : Program} {failure : Failure}
    (h : (encodeFrom strict 0 p.symbols).outcome = .error failure) :
    g.generate strict p =
      ⟨if failure.isDiagnostic then unused else reached strict p,
        (encodeFrom strict 0 p.symbols).records, .error failure⟩ := by
  simp only [generate, encode_start, h]
  rfl

/-- **What a generator makes of a program** depends on the program alone, whatever the generator was
used for before. -/
theorem generate_eq (g h : Generator) (strict : Bool) (p : Program) :
    g.generate strict p = h.generate strict p := by
  -- neither result mentions the generator
  cases hencode : (encodeFrom strict 0 p.symbols).outcome with
  | ok u => rw [generate_of_ok hencode, generate_of_ok hencode]
  | error failure => rw [generate_of_error hencode, generate_of_error hencode]

/-- A program that is encoded alike in both modes comes to the same in both. -/
theorem generate_congr {p : Program} (g : Generator)
    (h : encodeFrom true 0 p.symbols = encodeFrom false 0 p.symbols) :
    g.generate true p = g.generate false p := by
  simp only [generate, encode_start, reached, h]

/-- The records of a program are those of its statements, and one more if it is encoded. -/
theorem exists_records_generate (g : Generator) (strict : Bool) (p : Program) :
    ∃ later, (g.generate strict p).records =
      (encodeFrom strict 0 p.symbols).records ++ later ∧ ∀ r ∈ later, r.level = .debug := by
  cases hencode : (encodeFrom strict 0 p.symbols).outcome with
  | ok u =>
    rw [generate_of_ok hencode]
    exact ⟨_, rfl, List.forall_mem_singleton.2 rfl⟩
  | error failure =>
    rw [generate_of_error hencode]
    exact ⟨[], (List.append_nil _).symm, List.forall_mem_nil _⟩

/-- Generation succeeds exactly if all statements are encoded. -/
theorem outcome_generate_ok {p : Program} {code : List UInt8} :
    (g.generate strict p).outcome = .ok code ↔
      (encodeFrom strict 0 p.symbols).outcome = .ok () ∧ code = (reached strict p).code := by
  cases hencode : (encodeFrom strict 0 p.symbols).outcome with
  | ok u =>
    rw [generate_of_ok hencode]
    exact ⟨fun h => ⟨rfl, (Except.ok.inj h).symm⟩, fun h => congrArg Except.ok h.2.symm⟩
  | error failure =>
    rw [generate_of_error hencode]
    constructor
    · intro h
      cases h
    · rintro ⟨h, -⟩
      cases h

/-- It fails exactly if a statement cannot be encoded, and with the same failure. -/
theorem outcome_generate_error {p : Program} {failure : Failure} :
    (g.generate strict p).outcome = .error failure ↔
      (encodeFrom strict 0 p.symbols).outcome = .error failure := by
  cases hencode : (encodeFrom strict 0 p.symbols).outcome with
  | ok u =>
    rw [generate_of_ok hencode]
    constructor
    · intro h
      cases h
    · intro h
      cases h
  | error f =>
    rw [generate_of_error hencode]
    constructor
    · intro h
      cases h
      rfl
    · intro h
      cases h
      rfl

/-! ### Between two statements -/

/-- The states in which the statements of a stream begin, and the one at the end, each with what is
left of the stream. They stop at a statement that fails. -/
def stops (g : Generator) (strict : Bool) : List Symbol → List (Generator × List Symbol)
  | [] => [(g, [])]
  | s :: following =>
    (g, s :: following) ::
      match (g.step strict s following).outcome with
      | .error _ => []
      | .ok taken => (g.step strict s following).state.stops strict (following.drop taken)
termination_by symbols => symbols.length
decreasing_by
  simp only [List.length_drop, List.length_cons]
  omega

/-- The stops of a program. -/
def stopsOf (g : Generator) (strict : Bool) (p : Program) : List (Generator × List Symbol) :=
  (g.start p).stops strict p.symbols

/-- The number of bytes that have been laid down at each stop of a program. -/
def offsets (g : Generator) (strict : Bool) (p : Program) : List Nat :=
  (g.stopsOf strict p).map (·.1.code.length)

end Generator

end RomAsm
