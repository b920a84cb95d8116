import Mathlib
import RomAsm.Proofs.Diagnosis

/-!
# How a run can fail

Most failures have no way of coming up in a run: no symbol is looked up where there is none, every
marker is listed, every integer has a value. What is left is foreseen (`Assembler.Foreseen`): a
diagnostic, a number with too many digits, and a negated zero as data; the last is accepted as a
literal, but its sign is no digit. A run may also use up what a machine has
(`Assembler.Exhausted`).

There is one more way to fail. A directive can ask for more zeros than any run of bytes has
(`Assembler.ReachesOverlong`), and nobody has checked for that when they are to be laid down.

* `Assembler.foreseen_or_exhausted` — the failures that come before generation;
* `Assembler.foreseen_iff_not_overlong` — all failures of a run.
-/

namespace RomAsm

/-! ### Sizes -/

namespace Excess

/-- A run of bytes that cannot be made is overlong. -/
theorem overlong_of_ofBytes? {n : Nat} {e : Excess} (h : ofBytes? n = some e) :
    indexLimit ≤ n + runOverhead := by
  unfold ofBytes? at h
  -- there are too many to be counted, or just too many
  split at h
  · next hcount => exact hcount.trans (Nat.le_add_right ..)
  · split at h
    · next hbytes => exact hbytes
    · cases h

/-- And a run of bytes that is overlong cannot be made. -/
theorem ofBytes?_of_overlong {n : Nat} (h : indexLimit ≤ n + runOverhead) :
    ∃ e, ofBytes? n = some e ∧ (e = .count ∨ e = .bytes) := by
  unfold ofBytes?
  split
  · exact ⟨.count, rfl, .inl rfl⟩
  · exact ⟨.bytes, rfl, .inr rfl⟩

/-- Characters that cannot be made cannot be counted. -/
theorem le_of_ofCharacters? {n : Nat} {e : Excess} (h : ofCharacters? n = some e) :
    indexLimit ≤ n := by
  unfold ofCharacters? at h
  split at h
  · next hcount => exact hcount
  · cases h

end Excess

/-- A run of characters leads at most so many columns on; it may also begin a new line. -/
theorem Position.column_after_le {p : Position} (hp : 1 ≤ p.column) (text : List Char) :
    (p.after text).column ≤ p.column + text.length := by
  induction text generalizing p with
  | nil => exact Int.le_add_of_nonneg_right (Int.natCast_nonneg 0)
  | cons c text ih =>
    -- a character leads one column on, or back to the first one
    have hnext : 1 ≤ (p.next c).column ∧ (p.next c).column ≤ p.column + 1 := by
      unfold Position.next
      split <;> constructor <;> dsimp only <;> omega
    have hrest : ((p.next c).after text).column ≤ (p.next c).column + text.length := ih hnext.1
    calc (p.after (c :: text)).column
      _ ≤ (p.next c).column + text.length := hrest
      _ ≤ p.column + (c :: text).length := by
        rw [List.length_cons]
        omega

/-- No token stands in a column behind the text. -/
theorem Source.Token.column_le {s : Source} {l : Location} (h : s.Token l) :
    l.column.toNat ≤ s.text.length := by
  obtain ⟨before, first, rest, htext, rfl⟩ := h.splits
  have hcolumn : (s.start.position.after before).column ≤ 1 + before.length :=
    Position.column_after_le (le_refl 1) before
  have hlength : s.text.length = before.length + (rest.length + 1) := by
    rw [htext, List.length_append, List.length_cons]
  show (s.start.position.after before).column.toNat ≤ _
  omega

namespace Assembler

/-! ### Kinds of failures -/

/-- **The failures that are foreseen**: a diagnostic, a number that has too many digits to be read
or to be written, and a negated zero as data. -/
inductive Foreseen (source : Source) : Failure → Prop where
  | diagnostic (d : Diagnostic) : Foreseen source (.diagnostic d)
  | tooManyDigits {count : Nat} (h : Numeral.digitLimit < count) :
      Foreseen source (.numeral (.tooManyDigits count))
  | tooLarge : Foreseen source (.numeral .tooLarge)
  | negatedZero {symbols : List Symbol} {text : String} (hsymbols : source.symbols = .ok symbols)
      (h : NegatedZero (Grouping.grouped symbols) text) :
      Foreseen source (.numeral (.notDecimal text))

/-- **The failures of the machine**: a word has more signs in front of it than there is room for, or
the source has more characters than can be counted, so that it is too long to be quoted in a
report. -/
inductive Exhausted (level : Level) (source : Source) : Failure → Prop where
  | depth {limit : Nat} (h : source.markLimit = some limit) :
      Exhausted level source .tooManyMarks
  | quotation {e : Excess} (hfront : (frontEnd level source).outcome = .error (.excess e))
      (hlength : Excess.indexLimit ≤ Diagnostic.caretIndent source.text.length) :
      Exhausted level source (.excess e)

/-- A run comes to zeros that no run of bytes can have. -/
def ReachesOverlong (a : Assembler) (level : Level) (source : Source) : Prop :=
  ∃ p n, (frontEnd level source).outcome = .ok p ∧
    Generation.ReachesZeros a.settings.strict p n ∧ Excess.indexLimit ≤ n + Excess.runOverhead

variable {a : Assembler} {level : Level} {source : Source} {f : Failure}

/-- A report is foreseen. -/
theorem Foreseen.of_reported {Place : Option Location → Prop} (h : Reported Place f) :
    Foreseen source f := by
  cases h with
  | diagnostic _ => exact .diagnostic _
  | tooLarge => exact .tooLarge

/-- A report quotes a line, which may be too long for that. -/
theorem foreseen_or_exhausted_of_report {problem : Problem} {l : Location} (hl : source.Token l)
    (hfront : (frontEnd level source).outcome = .error (source.report problem l)) :
    Foreseen source (source.report problem l) ∨
      Exhausted level source (source.report problem l) := by
  generalize hreport : source.report problem l = f at hfront ⊢
  unfold Source.report Failure.ofDiagnostic at hreport
  -- the place can be written, and then the line may be too long to be quoted
  split at hreport
  · subst hreport
    exact .inl .tooLarge
  · split at hreport
    · next e he =>
      subst hreport
      refine .inr (.quotation hfront ?_)
      -- the excess is that of the caret, which is not further out than the text is long
      have hcharacters : Excess.ofCharacters? (Diagnostic.caretIndent l.column.toNat) = some e := by
        unfold Diagnostic.caretExcess? at he
        cases hline : source.line? l.line with
        | none => simp [hline] at he
        | some line =>
          simp only [hline, Option.ite_none_right_eq_some] at he
          exact he.2
      exact (Excess.le_of_ofCharacters? hcharacters).trans (Nat.add_le_add_left hl.column_le 3)
    · subst hreport
      exact .inl (.diagnostic _)

/-- **Before generation** all failures are foreseen, or the machine is exhausted. -/
theorem foreseen_or_exhausted (hfront : (frontEnd level source).outcome = .error f) :
    Foreseen source f ∨ Exhausted level source f := by
  cases (frontEnd_ends source level).of_error hfront with
  | misread hmisread =>
    cases hmisread with
    | reported hl => exact foreseen_or_exhausted_of_report hl hfront
    | tooManyDigits h => exact .inl (.tooManyDigits h)
    | tooManyMarks hlimit => exact .inr (.depth hlimit)
  | misplaced hsymbols hmisplaced =>
    cases hmisplaced with
    | reported h => exact .inl (.of_reported h)
    | negatedZero h => exact .inl (.negatedZero hsymbols h)

/-- Zeros that no run of bytes can have end the run, whatever stands behind them. -/
theorem excess_of_overlong (h : a.ReachesOverlong level source) :
    ∃ e, (a.assemble level source).outcome = .error (.excess e) ∧ (e = .count ∨ e = .bytes) := by
  obtain ⟨p, n, hfront, hreaches, hn⟩ := h
  obtain ⟨e, he, hcases⟩ := Excess.ofBytes?_of_overlong hn
  refine ⟨e, ?_, hcases⟩
  rw [(assemble_of_frontEnd_ok hfront a.generator).2]
  exact Generation.generate_of_reachesZeros a.generator hreaches he

/-- Such a failure is not foreseen, and it is none of the machine. -/
theorem not_foreseen_of_overlong (h : a.ReachesOverlong level source)
    (hf : (a.assemble level source).outcome = .error f) :
    ¬ (Foreseen source f ∨ Exhausted level source f) := by
  obtain ⟨e, he, -⟩ := excess_of_overlong h
  obtain rfl := Except.error.inj (hf.symm.trans he)
  rintro (hforeseen | hexhausted)
  · cases hforeseen
  · cases hexhausted with
    | quotation hfront _ =>
      -- a line is quoted only before generation, which this run has come to
      obtain ⟨p, n, hok, -⟩ := h
      cases hok.symm.trans hfront

/-- **All failures of a run.** A failure is foreseen, or the machine is exhausted, exactly if the
run does not come to zeros that no run of bytes can have; if it does, these are what it fails for.
-/
theorem foreseen_iff_not_overlong (h : (a.assemble level source).outcome = .error f) :
    (Foreseen source f ∨ Exhausted level source f ↔ ¬ a.ReachesOverlong level source) ∧
      (a.ReachesOverlong level source → f = .excess .count ∨ f = .excess .bytes) := by
  refine ⟨⟨fun hf hoverlong => not_foreseen_of_overlong hoverlong h hf, fun hnot => ?_⟩,
    fun hoverlong => ?_⟩
  · rcases rejected_or_reachesZeros source h with
      ⟨hfront, -⟩ | ⟨p, hfront, hreported | ⟨n, e, hreaches, he, rfl⟩⟩
    · exact foreseen_or_exhausted hfront
    · exact .inl (.of_reported hreported)
    · -- zeros can be laid down unless they are overlong
      exact absurd ⟨p, n, hfront, hreaches, Excess.overlong_of_ofBytes? he⟩ hnot
  · obtain ⟨e, he, hcases⟩ := excess_of_overlong hoverlong
    obtain rfl := Except.error.inj (h.symm.trans he)
    rcases hcases with rfl | rfl
    · exact .inl rfl
    · exact .inr rfl

end Assembler

/-! ### A negated zero and too many zeros -/

/-- A zero with a sign as data, behind a statement that can be laid down. -/
def signedZero : Source where
  text := "x: .byte x .data -0x0".toList
  file := "p.asm"

/-- Layout asks for the size of the data, and does not get it. -/
theorem frontEnd_signedZero : (Assembler.frontEnd .info signedZero).outcome =
    .error (.numeral (.notDecimal "-0x0")) := by
  have hplaced : (Assembler.placed signedZero).outcome =
      .error (.numeral (.notDecimal "-0x0")) := by cbv
  rw [Assembler.outcome_frontEnd (by decide), Assembler.resolved, Trace.outcome_bind, hplaced]
  rfl

/-- The sign is no digit, so the size of the data is not found; the stream has the zero that was put
in for it. -/
theorem signedZero_foreseen :
    ((Assembler.ofSettings {}).assemble .info signedZero).outcome =
      .error (.numeral (.notDecimal "-0x0")) ∧
    ∃ symbols, signedZero.symbols = .ok symbols ∧
      NegatedZero (Grouping.grouped symbols) "-0x0" := by
  have houtcome := (Assembler.assemble_of_frontEnd (a := .ofSettings {}) frontEnd_signedZero).2
  -- the front end has failed, so no zeros are reached
  have hnot : ¬ (Assembler.ofSettings {}).ReachesOverlong .info signedZero := by
    rintro ⟨p, n, hfront, -⟩
    cases hfront.symm.trans frontEnd_signedZero
  refine ⟨houtcome, ?_⟩
  cases (Assembler.foreseen_iff_not_overlong houtcome).1.2 hnot with
  | inl hforeseen =>
    cases hforeseen with
    | negatedZero hsymbols h => exact ⟨_, hsymbols, h⟩
  | inr hexhausted => cases hexhausted

/-- A directive that asks for more zeros than can be counted. -/
def manyZeros : Source where
  text := ".reserve 0x8000000000000000".toList
  file := "p.asm"

/-- The resolved program. -/
def manyZerosResolved : Program where
  symbols := [⟨.directive, ".reserve", none, inFirstLine 1⟩,
    ⟨.integer, "0x8000000000000000", some 9223372036854775808, inFirstLine 10⟩]
  tags := []
  definitions := []

/-- Up to generation nothing is wrong with it. -/
theorem frontEnd_manyZeros :
    (Assembler.frontEnd .info manyZeros).outcome = .ok manyZerosResolved := by
  have hsymbols : manyZeros.symbols = .ok manyZerosResolved.symbols := by
    -- the two tokens, and the end of the text
    have hdirective : manyZeros.next manyZeros.start =
        .lexeme ⟨".reserve", ⟨"p.asm", 1, 1⟩⟩ ⟨" 0x8000000000000000".toList, ⟨1, 9⟩⟩ := rfl
    have hcount : manyZeros.next ⟨" 0x8000000000000000".toList, ⟨1, 9⟩⟩ =
        .lexeme ⟨"0x8000000000000000", ⟨"p.asm", 1, 10⟩⟩ ⟨[], ⟨1, 28⟩⟩ := rfl
    have hended : manyZeros.next ⟨[], ⟨1, 28⟩⟩ = .ended ⟨[], ⟨1, 28⟩⟩ := rfl
    show (manyZeros.collect (fun l => (manyZeros.classify l).outcome) manyZeros.start).1 =
      .ok ([⟨.directive, ".reserve", none, inFirstLine 1⟩] ++
        ([⟨.integer, "0x8000000000000000", some 9223372036854775808, inFirstLine 10⟩] ++ []))
    exact Source.collect_of_lexeme hdirective rfl
      (Source.collect_of_lexeme hcount rfl (Source.collect_of_ended hended))
  have hplaced : (Assembler.placed manyZeros).outcome = .ok manyZerosResolved := by
    rw [placed_of_symbols hsymbols]
    cbv
  have hround : (Resolution.round manyZerosResolved).outcome =
      .ok ⟨manyZerosResolved, false, []⟩ := by cbv
  exact Assembler.frontEnd_of_placed (by decide) hplaced
    (Resolution.resolve_of_rest hround rfl rfl (by cbv))

/-- The count is a literal that is not negative, so no diagnostic is made; the run fails when the
zeros are to be laid down, in a way that is not foreseen. -/
theorem manyZeros_not_foreseen :
    ((Assembler.ofSettings {}).assemble .info manyZeros).outcome = .error (.excess .count) ∧
    ¬ Assembler.Foreseen manyZeros (.excess .count) ∧
    ¬ Assembler.Exhausted .info manyZeros (.excess .count) := by
  refine ⟨?_, nofun, fun h => ?_⟩
  · rw [(Assembler.assemble_of_frontEnd_ok frontEnd_manyZeros .unused).2,
      Generator.outcome_generate_error, manyZerosResolved, Generation.encodeFrom]
    rfl
  · cases h with
    | quotation hfront _ => cases hfront.symm.trans frontEnd_manyZeros

end RomAsm
