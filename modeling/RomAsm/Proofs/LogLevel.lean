import Mathlib
import RomAsm.Assembler
import RomAsm.Proofs.Generating

/-!
# The level of the log

A log that shows every step has the normalized text of the source. To write it, all lexemes are read
before the first of them is classified. So a string literal or a comment that is never closed is
reported first, whatever stands before it; without such a log it is reported only if everything
before it is a symbol.

* `Source.exists_failure_of_lexemes` — a source with lexemes that cannot be read has no symbols, so
  the run fails at every level;
* `Assembler.assemble_debug_iff` — the level never changes what the assembler keeps, and changes the
  outcome exactly if the two passes over the lexemes meet different failures first.

They do for `12ab "open` (`invalidNumber_hidden`).
-/

namespace RomAsm

/-! ### Reading lexemes and reading symbols -/

namespace Source

variable {s : Source} {α : Type} {view : Lexeme → Except Failure (List α)}

/-- A failure to read the lexemes that are left is a failure of every view of them. -/
theorem exists_failure_of_collect (c : Cursor) {g : Failure}
    (h : (s.collect (fun l => .ok [l]) c).1 = .error g) :
    ∃ f, (s.collect view c).1 = .error f := by
  -- the two readings take the same steps, up to a lexeme that the view does not accept
  fun_induction collect s view c with
  | case1 c after hnext =>
    -- the source has ended for both
    rw [collect] at h
    split at h <;> simp_all
  | case2 c failure after hnext => exact ⟨failure, rfl⟩
  | case3 c l after hnext failure hview => exact ⟨failure, rfl⟩
  | case4 c l after hnext items hview more last hmore ih =>
    have hlexemes : (s.collect (fun l => .ok [l]) after).1 = .error g := by
      -- the lexemes are read one by one, whatever the view makes of them
      rw [collect] at h
      split at h
      · next e => cases hnext.symm.trans e
      · next e => cases hnext.symm.trans e
      · next e =>
        cases hnext.symm.trans e
        exact Trace.except_map_eq_error.1 h
    -- the rest fails, and so does what begins with this lexeme
    obtain ⟨f, hf⟩ := ih hlexemes
    rw [hmore] at hf
    exact ⟨f, Trace.except_map_eq_error.2 hf⟩

/-- A source with lexemes that cannot be read has no symbols. -/
theorem exists_failure_of_lexemes {g : Failure} (h : s.lexemes = .error g) :
    ∃ f, s.symbols = .error f :=
  exists_failure_of_collect s.start h

/-- A text is normalized by its lexemes, and fails with them. -/
theorem normalize_eq_error {g : Failure} (h : s.lexemes = .error g) : s.normalize = .error g := by
  rw [normalize, h]
  rfl

/-- A text whose lexemes can be read can be normalized. -/
theorem exists_normalize {ls : List Lexeme} (h : s.lexemes = .ok ls) :
    ∃ text, s.normalize = .ok text := by
  rw [normalize, h]
  exact ⟨_, rfl⟩

end Source

/-! ### The front end at each level -/

namespace Assembler

variable {source : Source} {level : Level} {a : Assembler}

/-- At most levels the front end goes right to the symbols. -/
theorem outcome_frontEnd (h : level ≠ .debug) :
    (frontEnd level source).outcome = (resolved source).outcome := by
  simp only [frontEnd, if_neg h, Trace.outcome_bind, Logged.debug, Trace.outcome_write,
    Trace.outcome_pure, Trace.except_ok_bind]
  exact bind_pure _

/-- With a log of every step, the text is normalized first. -/
theorem outcome_frontEnd_debug : (frontEnd .debug source).outcome =
    source.normalize >>= fun _ => (resolved source).outcome := by
  simp only [frontEnd, if_pos, Trace.outcome_bind, Logged.debug, Trace.outcome_write,
    Trace.outcome_pure, Trace.except_ok_bind, Trace.outcome_liftM]
  congr 1
  funext _
  exact bind_pure _

/-- The outcome of the front end from those of its two halves. -/
theorem frontEnd_of_placed (hlevel : level ≠ .debug) {p q : Program}
    (hplaced : (placed source).outcome = .ok p)
    (hresolve : (Resolution.resolve p).outcome = .ok q) :
    (frontEnd level source).outcome = .ok q := by
  rw [outcome_frontEnd hlevel]
  exact Trace.outcome_bind_eq_ok.2 ⟨p, hplaced, hresolve⟩

theorem outcome_resolved_of_symbols {f : Failure} (h : source.symbols = .error f) :
    (resolved source).outcome = .error f := by
  simp only [resolved, placed, Source.tokenize, h, Trace.outcome_bind, Trace.outcome_liftM,
    Trace.except_error_bind]

/-! ### Assembling at each level -/

/-- A run that fails before generation leaves the generator unused. -/
theorem assemble_of_frontEnd {failure : Failure}
    (h : (frontEnd level source).outcome = .error failure) :
    (a.assemble level source).state = { a with generator := .unused } ∧
      (a.assemble level source).outcome = .error failure := by
  simp only [assemble, h, and_true]
  rfl

/-- A program that is resolved goes to the generator, which comes to the same from any state. -/
theorem assemble_of_frontEnd_ok {p : Program} (h : (frontEnd level source).outcome = .ok p)
    (g : Generator) :
    (a.assemble level source).state =
        { a with generator := (g.generate a.settings.strict p).state } ∧
      (a.assemble level source).outcome = (g.generate a.settings.strict p).outcome := by
  unfold assemble
  simp only [h, Generator.generate_eq a.generator.reset g]
  cases hgenerate : (g.generate a.settings.strict p).outcome <;> exact ⟨rfl, rfl⟩

/-- The level matters to a run only through the outcome of the front end. -/
theorem assemble_congr {other : Level}
    (h : (frontEnd level source).outcome = (frontEnd other source).outcome) :
    (a.assemble level source).state = (a.assemble other source).state ∧
      (a.assemble level source).outcome = (a.assemble other source).outcome := by
  -- both runs go on alike from there
  cases hother : (frontEnd other source).outcome with
  | error failure =>
    obtain ⟨hstate, houtcome⟩ := assemble_of_frontEnd (a := a) (h.trans hother)
    obtain ⟨hstate', houtcome'⟩ := assemble_of_frontEnd (a := a) hother
    exact ⟨hstate.trans hstate'.symm, houtcome.trans houtcome'.symm⟩
  | ok p =>
    obtain ⟨hstate, houtcome⟩ := assemble_of_frontEnd_ok (a := a) (h.trans hother) .unused
    obtain ⟨hstate', houtcome'⟩ := assemble_of_frontEnd_ok (a := a) hother .unused
    exact ⟨hstate.trans hstate'.symm, houtcome.trans houtcome'.symm⟩

/-- **A log of every step** leaves the assembler as any other log does. It leaves the outcome alone
as well, unless the source has a string literal or a comment that is never closed and the symbols
end in another failure before it. -/
theorem assemble_debug_iff (a : Assembler) (source : Source) {level : Level}
    (hlevel : level ≠ .debug) :
    (a.assemble .debug source).state = (a.assemble level source).state ∧
      ((a.assemble .debug source).outcome = (a.assemble level source).outcome ↔
        ∀ g, source.lexemes = .error g → source.symbols = .error g) := by
  have hplain : (frontEnd level source).outcome = _ := outcome_frontEnd hlevel
  have hdebug : (frontEnd .debug source).outcome = _ := outcome_frontEnd_debug
  cases hlexemes : source.lexemes with
  | ok ls =>
    -- the normalized text can be written, and the front end goes on as without it
    obtain ⟨text, htext⟩ := Source.exists_normalize hlexemes
    rw [htext] at hdebug
    obtain ⟨hstate, houtcome⟩ := assemble_congr (a := a) (hdebug.trans hplain.symm)
    exact ⟨hstate, iff_of_true houtcome nofun⟩
  | error g =>
    -- both runs fail, one with what the lexemes end in and one with what the symbols end in
    obtain ⟨f, hsymbols⟩ := Source.exists_failure_of_lexemes hlexemes
    rw [Source.normalize_eq_error hlexemes] at hdebug
    rw [outcome_resolved_of_symbols hsymbols] at hplain
    obtain ⟨hstate, houtcome⟩ := assemble_of_frontEnd (a := a) hdebug
    obtain ⟨hstate', houtcome'⟩ := assemble_of_frontEnd (a := a) hplain
    refine ⟨hstate.trans hstate'.symm, ?_⟩
    rw [houtcome, houtcome', hsymbols]
    constructor
    · rintro ⟨⟩ g ⟨⟩
      rfl
    · intro h
      cases h g rfl
      rfl

end Assembler

/-- A string literal that is never closed, behind a symbol. -/
def openString : Source where
  text := "NOP \"open".toList
  file := "p.asm"

/-- What is wrong with it. -/
def unclosed : Diagnostic :=
  ⟨.unterminatedString, some ⟨"p.asm", 1, 5⟩, some "NOP \"open"⟩

/-- The mnemonic is a symbol, so the literal is reached. -/
theorem symbols_openString : openString.symbols = .error (.diagnostic unclosed) := by cbv

/-- Here both passes meet the same failure. -/
theorem openString_reported : openString.symbols = .error (.diagnostic unclosed) ∧
    unclosed.text = "p.asm:1:5: error: unterminated string literal\n    NOP \"open\n        ^" ∧
    ((Assembler.ofSettings {}).assemble .debug openString).outcome =
      ((Assembler.ofSettings {}).assemble .warning openString).outcome := by
  have hlexemes : openString.lexemes = .error (.diagnostic unclosed) := by cbv
  have hlevel : Level.warning ≠ .debug := by decide
  refine ⟨symbols_openString, rfl, (Assembler.assemble_debug_iff _ _ hlevel).2.2 ?_⟩
  intro g hg
  cases hlexemes.symm.trans hg
  exact symbols_openString

/-- A string literal that is never closed, behind a word that is no symbol. -/
def openStringBehindWord : Source where
  text := "12ab \"open".toList
  file := "<input>"

/-- **The level of the log can change what is reported.** -/
theorem invalidNumber_hidden : ∃ d d',
    ((Assembler.ofSettings {}).assemble .debug openStringBehindWord).outcome =
      .error (.diagnostic d) ∧
    d.text = "<input>:1:6: error: unterminated string literal\n    12ab \"open\n         ^" ∧
    ((Assembler.ofSettings {}).assemble .warning openStringBehindWord).outcome =
      .error (.diagnostic d') ∧
    d'.text = "<input>:1:1: error: invalid number '12ab'\n    12ab \"open\n    ^" := by
  have hlexemes : openStringBehindWord.lexemes = .error (.diagnostic
      ⟨.unterminatedString, some ⟨"<input>", 1, 6⟩, some "12ab \"open"⟩) := by cbv
  have hsymbols : openStringBehindWord.symbols = .error (.diagnostic
      ⟨.invalidNumber "12ab", some ⟨"<input>", 1, 1⟩, some "12ab \"open"⟩) := by cbv
  -- one pass meets the literal first, the other one the word
  have hdebug : (Assembler.frontEnd .debug openStringBehindWord).outcome = _ :=
    Assembler.outcome_frontEnd_debug
  rw [Source.normalize_eq_error hlexemes] at hdebug
  have hlevel : Level.warning ≠ .debug := by decide
  have hplain : (Assembler.frontEnd .warning openStringBehindWord).outcome = _ :=
    Assembler.outcome_frontEnd hlevel
  rw [Assembler.outcome_resolved_of_symbols hsymbols] at hplain
  exact ⟨_, _, (Assembler.assemble_of_frontEnd hdebug).2, rfl,
    (Assembler.assemble_of_frontEnd hplain).2, rfl⟩

end RomAsm
