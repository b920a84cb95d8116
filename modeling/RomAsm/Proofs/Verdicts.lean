import RomAsm.Source.Token

/-!
# What a word is

Which symbol a word becomes, or what is wrong with it, is decided by its text alone. The source and
the place only say where the symbol stands or where the problem is reported. `Verdict` is what the
text decides, and `Source.hasVerdict_classifyPlain` says that there is one for every text. So a
failure to classify a word is about that word (`Source.classifyPlain_cases`).
-/

namespace RomAsm

/-- What a text comes to when it is classified. -/
inductive Verdict where
  /-- It is a symbol. -/
  | symbol (kind : Kind) (value : Value)
  /-- It is no symbol, and this is wrong with it. -/
  | problem (p : Problem)
  /-- It is a literal that cannot be read. -/
  | fault (f : Numeral.Fault)

/-- The word that a problem of classification names. -/
def Problem.word? : Problem → Option String
  | unknownMarker text | unknownDirectiveWord text | invalidNumber text | invalidIdentifier text =>
    some text
  | _ => none

namespace Verdict

/-- The outcome of a verdict on a text at a place of a source. -/
def outcome (v : Verdict) (s : Source) (text : List Char) (l : Location) : Except Failure Symbol :=
  match v with
  | symbol kind value => .ok ⟨kind, String.ofList text, value, some l⟩
  | problem p => .error (s.report p l)
  | fault f => .error (.numeral f)

end Verdict

/-- A classification of a text, at any place of any source, is one verdict on the text. If that is a
problem, it names the text. -/
def HasVerdict (text : List Char) (classify : Source → Location → Except Failure Symbol) : Prop :=
  ∃ v : Verdict, (∀ s l, classify s l = v.outcome s text l) ∧
    ∀ p, v = .problem p → p.word? = some (String.ofList text)

namespace HasVerdict

variable {text : List Char}

theorem symbol (kind : Kind) (value : Value) :
    HasVerdict text fun _ l => .ok ⟨kind, String.ofList text, value, some l⟩ :=
  ⟨.symbol kind value, fun _ _ => rfl, nofun⟩

/-- A text that is none, which the problem names. -/
theorem problem {p : Problem} (h : p.word? = some (String.ofList text)) :
    HasVerdict text fun s l => .error (s.report p l) := by
  refine ⟨.problem p, fun _ _ => rfl, ?_⟩
  rintro _ ⟨⟩
  exact h

/-- A choice that does not depend on the place. -/
theorem ite {c : Prop} [Decidable c] {f g : Source → Location → Except Failure Symbol}
    (hf : HasVerdict text f) (hg : HasVerdict text g) :
    HasVerdict text fun s l => if c then f s l else g s l := by
  -- one branch is taken at all places
  by_cases hc : c
  · simpa only [if_pos hc] using hf
  · simpa only [if_neg hc] using hg

end HasVerdict

namespace Source

/-- A number or a name, or neither. -/
theorem hasVerdict_classifyOperand (text : List Char) :
    HasVerdict text fun s l => s.classifyOperand text l := by
  unfold classifyOperand
  cases Numeral.integer? text with
  | error f => exact ⟨.fault f, fun _ _ => rfl, nofun⟩
  | ok value =>
    cases value with
    | some n => exact .symbol .integer (some n)
    -- a text that begins with a digit is blamed as a number, any other as a name
    | none => exact .ite (.problem rfl) (.ite (.symbol .identifier none) (.problem rfl))

/-- **Every text has a verdict.** -/
theorem hasVerdict_classifyPlain (text : List Char) :
    HasVerdict text fun s l => s.classifyPlain text l := by
  unfold classifyPlain
  dsimp only
  -- four classes are told by the text alone, the markers by their table
  refine .ite (.symbol .string none) (.ite (.symbol .operator none)
    (.ite (.symbol .mnemonic none) (.ite (.symbol .directive none) ?_)))
  cases Machine.markers.lookup (String.ofList text) with
  | some mode => exact .symbol _ none
  | none => exact .ite (.problem rfl) (.ite (.problem rfl) (hasVerdict_classifyOperand text))

/-- A symbol has the text that was classified. A failure is reported at the place and names the
text, or it is a literal that cannot be read. -/
theorem classifyPlain_cases (s : Source) (text : List Char) (l : Location) :
    (∃ kind value, s.classifyPlain text l = .ok ⟨kind, String.ofList text, value, some l⟩) ∨
      (∃ p : Problem, p.word? = some (String.ofList text) ∧
        s.classifyPlain text l = .error (s.report p l)) ∨
      ∃ f, s.classifyPlain text l = .error (.numeral f) := by
  obtain ⟨v, hv, hproblem⟩ := hasVerdict_classifyPlain text
  have hplain : s.classifyPlain text l = v.outcome s text l := hv s l
  rw [hplain]
  -- the verdict does not depend on the place, so it can be looked at once
  cases v with
  | symbol kind value => exact .inl ⟨kind, value, rfl⟩
  | problem p => exact .inr (.inl ⟨p, hproblem p rfl, rfl⟩)
  | fault f => exact .inr (.inr ⟨f, rfl⟩)

end Source

end RomAsm
