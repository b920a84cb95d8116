import RomAsm.Layout
import RomAsm.Similarity

/-!
# Resolution

Resolution gives every constant its value and makes every operand a single integer. One round does
three things in turn:

* it defines the constants whose value is a literal and takes them from the stream (`define`);
* it puts the values of names in the place of the names (`substitute`);
* it evaluates operators whose operands are literals, and drops parentheses around a single literal
  (`fold`). Grouping has been spelled out before, so no precedence is left to be respected.

Rounds are repeated until one changes nothing. Each round that changes something makes the stream
lighter (`weight_round_lt`), where a name weighs two and any other symbol one; so that point is
reached. What is then left over is reported.
-/

namespace RomAsm.Resolution

/-! ### Arithmetic -/

/-- The quotient of two numbers: that of their magnitudes, with a minus sign if their signs
differ. -/
def quotient (left right : Int) : Int :=
  let magnitude : Int := (left.natAbs / right.natAbs : Nat)
  if decide (left < 0) != decide (right < 0) then -magnitude else magnitude

/-- What the quotient leaves of the number on the left. -/
def remainder (left right : Int) : Int := left - right * quotient left right

/-- The value of an operator between two numbers. Division goes towards zero, and a remainder has
the sign of the dividend. A zero on the right is reported before an operator that is not known. -/
def evaluate (operator : Symbol) (left right : Int) : Except Failure Int :=
  match operator.text with
  | "+" => .ok (left + right)
  | "-" => .ok (left - right)
  | "*" => .ok (left * right)
  | text =>
    if right = 0 then
      .error (.report (if text = "/" then .divisionByZero else .moduloByZero) operator.location)
    else if text = "/" then .ok (quotient left right)
    else if text = "%" then .ok (remainder left right)
    else .error (.report (.unknownOperator text) operator.location)

/-- Why an operator has no value where one of its operands is no number. A zero on the right is
reported also then. -/
def withoutNumbers (operator : Symbol) (left right : Value) : Failure :=
  if ["+", "-", "*"].contains operator.text then
    .noValue (.operator operator.text left.isSome right.isSome)
  else if right = some 0 then
    .report (if operator.text = "/" then .divisionByZero else .moduloByZero) operator.location
  else .noValue .magnitude

/-- The value of an operator between two values. -/
def apply (operator : Symbol) : Value → Value → Except Failure Int
  | some left, some right => evaluate operator left right
  | left, right => .error (withoutNumbers operator left right)

/-! ### Definitions -/

/-- Whether a symbol and the one behind it define a constant. -/
def isDefinition (s : Symbol) (following : List Symbol) : Bool :=
  s.isIdentifier && following.head?.any fun t => t.isOp ["="]

/-- What `define` comes to: the stream that is left, the names, those whose value is still to be
found, and whether anything was defined. -/
structure Defined where
  symbols : List Symbol
  tags : Table Value
  definitions : Table (Option Location)
  pending : List String
  changed : Bool

/-- The same, with one more symbol in front of the stream. -/
def Defined.keep (d : Defined) (s : Symbol) : Defined := { d with symbols := s :: d.symbols }

/-- Whether the value of a definition is a literal and nothing more. -/
def isComplete (value : Symbol) (rest : List Symbol) : Bool :=
  value.isInteger && !rest.head?.any Symbol.isArithmetic

/-- What a symbol is to the definitions of a program. -/
inductive Role where
  /-- It defines nothing. -/
  | plain
  /-- It defines a constant whose value is still to be found. -/
  | pending
  /-- It defines a constant whose value is this literal. -/
  | literal (value : Value)

/-- The role of the symbol at which a stream begins. A name that has a value already is reported
before a definition without a value. -/
def role (tags : Table Value) (definitions : Table (Option Location)) (s : Symbol)
    (following : List Symbol) : Except Failure Role :=
  if isDefinition s following then do
    Program.checkNew tags definitions s
    match following with
    | equals :: value :: rest =>
      if value.startsStatement then
        throw (.report (.constantWithoutValue s.text) equals.location)
      return if isComplete value rest then .literal value.value else .pending
    | _ => throw (.report (.constantWithoutValue s.text) (following.head?.bind (·.location)))
  else return .plain

/-- Takes the definitions with a literal value from the stream. -/
def define (tags : Table Value) (definitions : Table (Option Location)) :
    List Symbol → Logged Defined
  | [] => return ⟨[], tags, definitions, [], false⟩
  | s :: following => do
    match ← role tags definitions s following with
    | .plain =>
      let more ← define tags definitions following
      return more.keep s
    | .pending =>
      let more ← define tags definitions following
      return { more.keep s with pending := s.text :: more.pending }
    | .literal n =>
      let shown ← valueText n
      Logged.debug ("Constant '" ++ s.text ++ "' = " ++ shown)
      match following with
      | _ :: _ :: rest =>
        let more ← define (tags.put s.text n) (Program.recordPlace definitions s) rest
        return { more with changed := true }
      | _ => return ⟨[], tags.put s.text n, Program.recordPlace definitions s, [], true⟩

/-! ### Substitution -/

/-- Puts the values of names in the place of the names, except where a name is being defined; tells
whether it has done so. -/
def substitute (tags : Table Value) : List Symbol → Except Failure (List Symbol × Bool)
  | [] => return ([], false)
  | s :: following =>
    if s.isIdentifier && !isDefinition s following then
      match tags.get? s.text with
      | some n => do
        let value ← Symbol.ofValue n s.location
        let (more, _) ← substitute tags following
        return (value :: more, true)
      | none => do
        let (more, changed) ← substitute tags following
        return (s :: more, changed)
    else do
      let (more, changed) ← substitute tags following
      return (s :: more, changed)

/-! ### Folding -/

/-- Puts a symbol on a stack and reduces the stack as far as it goes; tells whether it has. -/
def push (top : Symbol) : List Symbol → Except Failure (List Symbol × Bool)
  | middle :: left :: below =>
    if left.isOpen && middle.isInteger && top.isClose then do
      let (stack, _) ← push middle below
      return (stack, true)
    else if left.isInteger && middle.isArithmetic && top.isInteger then do
      let n ← apply middle left.value top.value
      let value ← Symbol.ofValue (some n) left.location
      let (stack, _) ← push value below
      return (stack, true)
    else return (top :: middle :: left :: below, false)
  | below => return (top :: below, false)

/-- Folds the rest of a stream on top of a stack. -/
def foldFrom (stack : List Symbol) : List Symbol → Except Failure (List Symbol × Bool)
  | [] => return (stack.reverse, false)
  | s :: rest => do
    let (stack, reduced) ← push s stack
    let (symbols, more) ← foldFrom stack rest
    return (symbols, reduced || more)

/-- Evaluates operators between literals and drops parentheses around literals; tells whether it has
done so. -/
def fold (symbols : List Symbol) : Except Failure (List Symbol × Bool) := foldFrom [] symbols

/-! ### Rounds -/

/-- What a round comes to. -/
structure Round where
  program : Program
  /-- Whether the round has changed anything. -/
  progressed : Bool
  /-- The constants whose value was still to be found. -/
  pending : List String

/-- One round of resolution. -/
def round (p : Program) : Logged Round := do
  let d ← define p.tags p.definitions p.symbols
  let (substituted, wasSubstituted) ← substitute d.tags d.symbols
  let (folded, wasFolded) ← fold substituted
  return ⟨⟨folded, d.tags, d.definitions⟩, d.changed || wasSubstituted || wasFolded, d.pending⟩

/-! ### Rounds end -/

/-- The weight of a symbol: a name may still become a literal, so it weighs more. -/
def weigh (s : Symbol) : Nat := if s.isIdentifier then 2 else 1

/-- The weight of a stream. -/
def weight : List Symbol → Nat
  | [] => 0
  | s :: rest => weigh s + weight rest

@[simp] theorem weight_nil : weight [] = 0 := rfl

@[simp] theorem weight_cons (s : Symbol) (rest : List Symbol) :
    weight (s :: rest) = weigh s + weight rest := rfl

@[simp] theorem weight_append (a b : List Symbol) : weight (a ++ b) = weight a + weight b := by
  induction a with
  | nil => simp
  | cons s rest ih => rw [List.cons_append, weight_cons, weight_cons, ih, Nat.add_assoc]

theorem weigh_pos (s : Symbol) : 0 < weigh s := by
  unfold weigh
  split <;> omega

/-- A stack weighs as much as the stream that it stands for. -/
theorem weight_reverse (symbols : List Symbol) : weight symbols.reverse = weight symbols := by
  induction symbols with
  | nil => rfl
  | cons s rest ih => simp [ih, Nat.add_comm]

/-- A number that is put into the stream weighs one. -/
theorem weigh_ofValue {value : Value} {location : Option Location} {s : Symbol}
    (h : Symbol.ofValue value location = .ok s) : weigh s = 1 := by
  obtain ⟨text, -, h⟩ := Trace.except_bind_eq_ok.1 h
  cases h
  rfl

/-- Definitions never make a stream heavier, and make it lighter where they define a constant. -/
theorem weight_define {tags : Table Value} {definitions : Table (Option Location)}
    {symbols : List Symbol} {d : Defined} (h : (define tags definitions symbols).outcome = .ok d) :
    weight d.symbols ≤ weight symbols ∧
      (d.changed = true → weight d.symbols < weight symbols) := by
  -- on the length, since a definition takes three symbols at a time
  induction hn : symbols.length using Nat.strongRecOn generalizing tags definitions symbols d with
  | ind n ih =>
    match symbols with
    | [] =>
      rw [define] at h
      cases h
      simp
    | s :: following =>
      have hs := weigh_pos s
      simp only [List.length_cons] at hn
      rw [define] at h
      obtain ⟨r, -, h⟩ := Trace.outcome_bind_eq_ok.1 h
      cases r with
      | plain | pending =>
        obtain ⟨more, hmore, h⟩ := Trace.outcome_bind_eq_ok.1 h
        have := ih following.length (by omega) hmore rfl
        cases h
        simpa [Defined.keep] using this
      -- the name, the equals sign and the literal are taken from the stream
      | literal n =>
        obtain ⟨shown, -, h⟩ := Trace.outcome_bind_eq_ok.1 h
        obtain ⟨_, -, h⟩ := Trace.outcome_bind_eq_ok.1 h
        match following with
        | [] | [_] =>
          cases h
          simp
          omega
        | t :: u :: rest =>
          obtain ⟨more, hmore, h⟩ := Trace.outcome_bind_eq_ok.1 h
          simp only [List.length_cons] at hn
          have := ih rest.length (by omega) hmore rfl
          cases h
          simp only [weight_cons]
          omega

/-- Substitution never makes a stream heavier, and makes it lighter where it replaces a name. -/
theorem weight_substitute {tags : Table Value} {symbols result : List Symbol} {changed : Bool}
    (h : substitute tags symbols = .ok (result, changed)) :
    weight result ≤ weight symbols ∧ (changed = true → weight result < weight symbols) := by
  induction symbols generalizing result changed with
  | nil =>
    cases h
    simp
  | cons s following ih =>
    rw [substitute] at h
    split at h
    · next hname =>
      have hs : weigh s = 2 := by simp_all [weigh]
      split at h
      · -- a name, which weighs two, gives way to a number, which weighs one
        obtain ⟨value, hvalue, h⟩ := Trace.except_bind_eq_ok.1 h
        obtain ⟨⟨more, moreChanged⟩, hmore, h⟩ := Trace.except_bind_eq_ok.1 h
        have hv := weigh_ofValue hvalue
        have := ih hmore
        cases h
        simp only [weight_cons]
        omega
      · obtain ⟨⟨more, moreChanged⟩, hmore, h⟩ := Trace.except_bind_eq_ok.1 h
        have := ih hmore
        cases h
        simpa using this
    · obtain ⟨⟨more, moreChanged⟩, hmore, h⟩ := Trace.except_bind_eq_ok.1 h
      have := ih hmore
      cases h
      simpa using this

/-- A reduction makes a stack lighter. -/
theorem weight_push (top : Symbol) (below : List Symbol) {stack : List Symbol} {changed : Bool}
    (h : push top below = .ok (stack, changed)) :
    weight stack ≤ weight (top :: below) ∧
      (changed = true → weight stack < weight (top :: below)) := by
  match below with
  | [] =>
    cases h
    simp
  | [s] =>
    cases h
    simp
  | middle :: left :: below =>
    -- a reduction leaves one of three symbols, and goes on with what is below them
    have hl := weigh_pos left
    have hm := weigh_pos middle
    have ht := weigh_pos top
    rw [push] at h
    split at h
    · obtain ⟨⟨reduced, _⟩, hreduced, h⟩ := Trace.except_bind_eq_ok.1 h
      have := (weight_push middle below hreduced).1
      cases h
      simp only [weight_cons] at this ⊢
      omega
    · split at h
      · obtain ⟨n, -, h⟩ := Trace.except_bind_eq_ok.1 h
        obtain ⟨value, hvalue, h⟩ := Trace.except_bind_eq_ok.1 h
        obtain ⟨⟨reduced, _⟩, hreduced, h⟩ := Trace.except_bind_eq_ok.1 h
        have := (weight_push value below hreduced).1
        have := weigh_ofValue hvalue
        cases h
        simp only [weight_cons] at *
        omega
      · cases h
        simp

/-- Folding never makes a stream heavier, and makes it lighter where it reduces anything. -/
theorem weight_foldFrom {stack symbols result : List Symbol} {changed : Bool}
    (h : foldFrom stack symbols = .ok (result, changed)) :
    weight result ≤ weight stack + weight symbols ∧
      (changed = true → weight result < weight stack + weight symbols) := by
  induction symbols generalizing stack result changed with
  | nil =>
    cases h
    simp [weight_reverse]
  | cons s rest ih =>
    obtain ⟨⟨pushed, reduced⟩, hpush, h⟩ := Trace.except_bind_eq_ok.1 h
    obtain ⟨⟨more, moreChanged⟩, hmore, h⟩ := Trace.except_bind_eq_ok.1 h
    have hp := weight_push s stack hpush
    have hm := ih hmore
    cases h
    simp only [weight_cons, Bool.or_eq_true] at *
    refine ⟨by omega, ?_⟩
    -- this symbol has set off a reduction, or a later one has
    rintro (hr | hr)
    · have := hp.2 hr
      omega
    · have := hm.2 hr
      omega

/-- **Progress.** A round that changes anything makes the stream lighter. -/
theorem weight_round_lt {p : Program} {r : Round} (h : (round p).outcome = .ok r)
    (hr : r.progressed = true) : weight r.program.symbols < weight p.symbols := by
  obtain ⟨d, hd, h⟩ := Trace.outcome_bind_eq_ok.1 h
  obtain ⟨⟨substituted, wasSubstituted⟩, hs, h⟩ := Trace.outcome_bind_eq_ok.1 h
  obtain ⟨⟨folded, wasFolded⟩, hf, h⟩ := Trace.outcome_bind_eq_ok.1 h
  have hd := weight_define hd
  have hs := weight_substitute hs
  have hf := weight_foldFrom hf
  cases h
  simp only [Bool.or_eq_true, weight_nil] at *
  -- the step that has changed anything makes the stream lighter, the others do not make it heavier
  rcases hr with (hr | hr) | hr
  · have := hd.2 hr
    omega
  · have := hs.2 hr
    omega
  · have := hf.2 hr
    omega

/-! ### Resolving a program -/

/-- Repeats rounds until one changes nothing: the number of rounds, and the last of them. -/
def settle (rounds : Nat) (p : Program) : Logged (Nat × Round) :=
  let t := round p
  match _done : t.outcome with
  | .error failure => ⟨t.entries, .error failure⟩
  | .ok r =>
    if _more : r.progressed = true then
      let later := settle (rounds + 1) r.program
      ⟨t.entries ++ later.entries, later.outcome⟩
    else ⟨t.entries, .ok (rounds + 1, r)⟩
termination_by weight p.symbols
decreasing_by exact weight_round_lt _done _more

/-- The names that have no value: the pending constants, and then each other name once. -/
def undefinedNames (r : Round) : List String :=
  (r.program.symbols.filter Symbol.isIdentifier).foldl
    (fun names s => if names.contains s.text then names else names ++ [s.text]) r.pending

/-- Reports what is left over after the last round: names first, then operators. -/
def check (r : Round) : Except Failure Unit :=
  match undefinedNames r with
  | name :: names =>
    let place := r.program.symbols.find? fun s => s.isIdentifier && s.text == name
    let similar :=
      if r.pending.isEmpty then Similarity.similarNames name r.program.tags.names else []
    .error (.report (.undefinedNames (name :: names) similar none) (place.bind (·.location)))
  | [] =>
    match r.program.symbols.find? (·.kind == .operator) with
    | some s => .error (.report (.unevaluated s.text) s.location)
    | none => .ok ()

/-- Records the value of every name. -/
def recordTags : Table Value → Logged Unit
  | [] => return ()
  | (name, n) :: rest => do
    let shown ← valueText n
    Logged.debug ("Tag " ++ name ++ " = " ++ shown)
    recordTags rest

/-- Gives every constant its value and makes every operand a single integer. -/
def resolve (p : Program) : Logged Program := do
  let (rounds, last) ← settle 0 p
  Logged.debug ("Resolution settled after " ++ Numeral.decimal rounds ++ " rounds")
  check last
  recordTags last.program.tags
  return last.program

end RomAsm.Resolution
