import Mathlib
import RomAsm.Proofs.Agreement
import RomAsm.Proofs.Endings
import RomAsm.Proofs.LogLevel
import RomAsm.Proofs.Tokens

/-!
# Every diagnostic points at the source

A diagnostic is made in any of the phases, often about a symbol that was put in or put together in
an earlier one. Still it always has a location, and a token of the source begins there: the symbols
of the source stand at tokens, and every symbol that a phase makes takes over the location of
another (`Genuine`).

* `Assembler.frontEnd_ends` — what the phases before generation end in;
* `Assembler.rejected_or_reachesZeros` — all failures of a run;
* `Assembler.diagnostic_at_token` — where diagnostics and symbols stand.
-/

namespace RomAsm

/-- A diagnostic is passed on as it is, if at all. -/
theorem Failure.eq_of_ofDiagnostic {d e : Diagnostic} (h : ofDiagnostic d = .diagnostic e) :
    d = e := by
  unfold ofDiagnostic at h
  split at h
  · cases h
  · split at h
    · cases h
    · cases h
      rfl

/-- A source whose symbols can be read has genuine ones without a sign after grouping. -/
theorem Source.grouped_isRead {source : Source} {symbols : List Symbol}
    (h : source.symbols = .ok symbols) :
    ∀ s ∈ Grouping.grouped symbols, source.IsRead s := by
  have hinherited : Grouping.Inherited source.IsRead := by
    -- zeros and parentheses take their places from symbols that are there
    refine ⟨fun s hs => ⟨genuine_zero hs.genuine.place, ?_⟩,
      fun s text hs => ⟨genuine_ofOperator hs.genuine.place text, nofun⟩⟩
    rintro n ⟨⟩
    exact le_refl 0
  exact hinherited.grouped (source.symbols_ends.of_ok h)

namespace Resolution

/-- **Any number of rounds** leave a program genuine. -/
theorem Rounds.genuine {p q : Program} (h : Rounds p q) {Place : Option Location → Prop}
    (hp : p.Genuine Place) : q.Genuine Place := by
  induction h with
  | refl => exact hp
  | tail _ hround ih =>
    obtain ⟨r, hr, rfl⟩ := hround
    exact ((round_ends ih).of_ok hr).1

end Resolution

namespace Assembler

/-- The failures of a source before generation: it cannot be read, or is rejected once it is. -/
inductive Rejected (source : Source) : Failure → Prop where
  | misread {f : Failure} (h : source.Misread f) : Rejected source f
  | misplaced {f : Failure} {symbols : List Symbol} (hsymbols : source.symbols = .ok symbols)
      (h : Misplaced source.AtToken (Grouping.grouped symbols) f) : Rejected source f

variable (source : Source)

/-- **Up to layout** a source ends in a genuine program, or is rejected. -/
theorem placed_ends :
    Ends (fun p => p.Genuine source.AtToken) (Rejected source) (placed source).outcome := by
  cases hsymbols : source.symbols with
  -- the source cannot be read, and nothing comes after that
  | error f =>
    have hplaced : (placed source).outcome = .error f := by
      simp only [placed, Source.tokenize, hsymbols, Trace.outcome_bind, Trace.outcome_liftM,
        Trace.except_error_bind]
    rw [hplaced]
    exact .misread (source.symbols_ends.of_error hsymbols)
  | ok symbols =>
    have hread := Source.grouped_isRead hsymbols
    rw [placed_of_symbols hsymbols]
    -- literals have no sign before layout, so data that is not negative is a zero if it has one
    refine (Layout.place_ends (fun s hs => (hread s hs).genuine)
      fun s hs => (hread s hs).unsigned).worse fun f hf => ?_
    exact .misplaced hsymbols hf

/-- Reports come up only after the source was read. -/
theorem rejected_of_reported {p : Program} (hp : (placed source).outcome = .ok p) {f : Failure}
    (hf : Reported source.AtToken f) : Rejected source f := by
  obtain ⟨symbols, hsymbols, -⟩ := exists_of_placed hp
  exact .misplaced hsymbols (.reported hf)

/-- **Up to the end of resolution** it does too, and nothing is left but numbers and what stands for
itself. -/
theorem resolved_ends :
    Ends (fun p => p.Genuine source.AtToken ∧ ∀ s ∈ p.symbols, s.isInert = true)
      (Rejected source) (resolved source).outcome := by
  refine (placed_ends source).trace_bind fun p hplaced hp => ?_
  exact (Resolution.resolve_ends hp).worse fun f hf => rejected_of_reported source hplaced hf

/-- **The phases before generation** end in a genuine program, or reject the source. -/
theorem frontEnd_ends (level : Level) :
    Ends (fun p => p.Genuine source.AtToken ∧ ∀ s ∈ p.symbols, s.isInert = true)
      (Rejected source) (frontEnd level source).outcome := by
  by_cases hlevel : level = .debug
  · -- the source is normalized for the log, which can only fail as reading it does
    rw [hlevel, outcome_frontEnd_debug]
    refine (source.normalize_ends.worse fun f hf => .misread hf).bind fun _ _ _ => ?_
    exact resolved_ends source
  · rw [outcome_frontEnd hlevel]
    exact resolved_ends source

/-- **All failures of a run**: the source is rejected, a statement is reported, or the encoding
comes to zeros that cannot be laid down. -/
theorem rejected_or_reachesZeros {a : Assembler} {level : Level} {f : Failure}
    (h : (a.assemble level source).outcome = .error f) :
    (frontEnd level source).outcome = .error f ∧ Rejected source f ∨
      ∃ p, (frontEnd level source).outcome = .ok p ∧ (Reported source.AtToken f ∨
        ∃ n e, Generation.ReachesZeros a.settings.strict p n ∧ Excess.ofBytes? n = some e ∧
          f = .excess e) := by
  have hfront := frontEnd_ends source level
  cases houtcome : (frontEnd level source).outcome with
  -- the front end fails, and generation is not reached
  | error g =>
    obtain rfl := Except.error.inj ((assemble_of_frontEnd houtcome).2.symm.trans h)
    exact .inl ⟨rfl, hfront.of_error houtcome⟩
  -- the front end has succeeded, so it is generation that fails
  | ok p =>
    obtain ⟨hp, hinert⟩ := hfront.of_ok houtcome
    have hgenerate := (assemble_of_frontEnd_ok (a := a) houtcome a.generator).2.symm.trans h
    exact .inr ⟨p, rfl,
      (Generation.generate_ends a.generator a.settings.strict hp hinert).of_error hgenerate⟩

/-- A diagnostic stands where a token begins. -/
theorem atToken_of_diagnostic {a : Assembler} {level : Level} {d : Diagnostic}
    (h : (a.assemble level source).outcome = .error (.diagnostic d)) :
    source.AtToken d.location := by
  have hreported : ∀ {f : Failure}, Reported source.AtToken f → f = .diagnostic d →
      source.AtToken d.location := by
    intro f hf hd
    cases hf with
    | diagnostic hplace =>
      cases hd
      exact hplace
    | tooLarge => cases hd
  rcases rejected_or_reachesZeros source h with ⟨-, hrejected⟩ | ⟨p, -, hf | ⟨n, e, -, -, hf⟩⟩
  · -- a report of reading also quotes the line, but keeps its location
    generalize hfailure : Failure.diagnostic d = f at hrejected
    cases hrejected with
    | misread hmisread =>
      cases hmisread with
      | @reported problem l hl =>
        rw [← Failure.eq_of_ofDiagnostic hfailure.symm]
        exact ⟨l, rfl, hl⟩
      | tooManyDigits => cases hfailure
      | tooManyMarks => cases hfailure
    | misplaced hsymbols hmisplaced =>
      cases hmisplaced with
      | reported hf => exact hreported hf hfailure.symm
      | negatedZero => cases hfailure
  · exact hreported hf rfl
  · cases hf

/-- **Every diagnostic points at the source.** A run that ends in a diagnostic has a location in the
file of the source, at which a token begins and a character of the text stands. This is because all
symbols stand at tokens: after grouping, after layout, and after any number of rounds. -/
theorem diagnostic_at_token (a : Assembler) (level : Level) :
    (∀ d, (a.assemble level source).outcome = .error (.diagnostic d) →
      ∃ l, d.location = some l ∧ l.file = source.file ∧ source.Token l ∧
        ∃ before first rest, source.text = before ++ first :: rest ∧
          l = source.locate (source.start.position.after before)) ∧
    (∀ symbols, source.symbols = .ok symbols →
      ∀ s ∈ Grouping.grouped symbols, source.AtToken s.location) ∧
    ∀ p q, (placed source).outcome = .ok p → Resolution.Rounds p q →
      ∀ s ∈ q.symbols, source.AtToken s.location := by
  refine ⟨fun d hd => ?_, fun symbols hsymbols s hs => ?_, fun p q hp hrounds s hs => ?_⟩
  · obtain ⟨l, hlocation, hl⟩ := atToken_of_diagnostic source hd
    -- a token begins with a character of the text
    obtain ⟨before, first, rest, htext, hplace⟩ := hl.splits
    exact ⟨l, hlocation, by rw [hplace]; rfl, hl, before, first, rest, htext, hplace⟩
  · exact (Source.grouped_isRead hsymbols s hs).genuine.place
  · have hgenuine := Resolution.Rounds.genuine hrounds ((placed_ends source).of_ok hp)
    exact (hgenuine.symbols s hs).place

end Assembler

/-! ### A division by zero -/

/-- A division by a difference that turns out to be zero when all names have their values. -/
def chained : Source where
  text := "z=y y=2 x=1/(z-z)".toList
  file := "p.asm"

/-- The symbols of the source. -/
def chainedSymbols : List Symbol :=
  [⟨.identifier, "z", none, inFirstLine 1⟩, .ofOperator "=" (inFirstLine 2),
    ⟨.identifier, "y", none, inFirstLine 3⟩, ⟨.identifier, "y", none, inFirstLine 5⟩,
    .ofOperator "=" (inFirstLine 6), ⟨.integer, "2", some 2, inFirstLine 7⟩,
    ⟨.identifier, "x", none, inFirstLine 9⟩, .ofOperator "=" (inFirstLine 10),
    ⟨.integer, "1", some 1, inFirstLine 11⟩, .ofOperator "/" (inFirstLine 12),
    .ofOperator "(" (inFirstLine 13), ⟨.identifier, "z", none, inFirstLine 14⟩,
    .ofOperator "-" (inFirstLine 15), ⟨.identifier, "z", none, inFirstLine 16⟩,
    .ofOperator ")" (inFirstLine 17)]

/-- The program with its labels placed, of which there are none. -/
def chainedPlaced : Program := ⟨Grouping.grouped chainedSymbols, [], []⟩

/-- The program after one round, which has found the value of `y`. -/
def chainedOnce : Program where
  symbols :=
    [⟨.identifier, "z", none, inFirstLine 1⟩, .ofOperator "=" (inFirstLine 2),
      ⟨.integer, "2", some 2, inFirstLine 3⟩, ⟨.identifier, "x", none, inFirstLine 9⟩,
      .ofOperator "=" (inFirstLine 10), .ofOperator "(" (inFirstLine 12),
      ⟨.integer, "1", some 1, inFirstLine 11⟩, .ofOperator "/" (inFirstLine 12),
      .ofOperator "(" (inFirstLine 13), .ofOperator "(" (inFirstLine 15),
      ⟨.identifier, "z", none, inFirstLine 14⟩, .ofOperator "-" (inFirstLine 15),
      ⟨.identifier, "z", none, inFirstLine 16⟩, .ofOperator ")" (inFirstLine 15),
      .ofOperator ")" (inFirstLine 17), .ofOperator ")" (inFirstLine 12)]
  tags := [("y", some 2)]
  definitions := [("y", inFirstLine 5)]

theorem symbols_chained : chained.symbols = .ok chainedSymbols := by cbv

/-- Grouping is all that has happened. -/
theorem placed_chained : (Assembler.placed chained).outcome = .ok chainedPlaced := by
  rw [placed_of_symbols symbols_chained]
  cbv

/-- The first round finds one of the three values and puts it in. -/
theorem round_chained :
    (Resolution.round chainedPlaced).outcome = .ok ⟨chainedOnce, true, ["z", "x"]⟩ := by
  cbv

/-- The second round knows `z` too, and comes to the division. -/
theorem frontEnd_chained : (Assembler.frontEnd .info chained).outcome =
    .error (.diagnostic ⟨.divisionByZero, inFirstLine 12, none⟩) := by
  have hsecond : (Resolution.round chainedOnce).outcome =
      .error (.diagnostic ⟨.divisionByZero, inFirstLine 12, none⟩) := by cbv
  have hsettle : (Resolution.settle 0 chainedPlaced).outcome =
      .error (.diagnostic ⟨.divisionByZero, inFirstLine 12, none⟩) := by
    rw [settle_of_progress round_chained rfl, settle_of_error hsecond]
  rw [Assembler.outcome_frontEnd (by decide), Assembler.resolved, Trace.outcome_bind,
    placed_chained, Trace.except_ok_bind, Resolution.resolve, Trace.outcome_bind, hsettle]
  rfl

/-- The zero that is divided by is put together in the second round, from literals that have taken
the place of names; the report points at the sign of the division. -/
theorem chained_at_token :
    ((Assembler.ofSettings {}).assemble .info chained).outcome =
      .error (.diagnostic ⟨.divisionByZero, inFirstLine 12, none⟩) ∧
    chained.AtToken (inFirstLine 12) ∧
    chained.symbols = .ok chainedSymbols ∧
    (∀ s ∈ Grouping.grouped chainedSymbols, chained.AtToken s.location) ∧
    (Assembler.placed chained).outcome = .ok chainedPlaced ∧
    Resolution.Rounds chainedPlaced chainedOnce ∧
    ∀ s ∈ chainedOnce.symbols, chained.AtToken s.location := by
  have houtcome := (Assembler.assemble_of_frontEnd (a := .ofSettings {}) frontEnd_chained).2
  have hrounds : Resolution.Rounds chainedPlaced chainedOnce :=
    .single ⟨_, round_chained, rfl⟩
  obtain ⟨hdiagnostic, hgrouped, hresolving⟩ :=
    Assembler.diagnostic_at_token chained (.ofSettings {}) .info
  obtain ⟨l, hl, -, htoken, -⟩ := hdiagnostic _ houtcome
  exact ⟨houtcome, ⟨l, hl, htoken⟩, symbols_chained, hgrouped _ symbols_chained, placed_chained,
    hrounds, hresolving _ _ placed_chained hrounds⟩

end RomAsm
