import Mathlib
import RomAsm.Proofs.Agreement

/-!
# The skeleton of a program

Three phases rewrite the stream before it is encoded: grouping inserts symbols while it walks
through them, layout passes over two at a time where there is a label, and resolution takes
definitions out and collapses expressions, round after round. All of that concerns names, numbers
and operators. The other symbols (mnemonics, directives, strings and markers) are the `skeleton` of
the stream, and no phase loses, adds, moves or changes any of them:

* `skeleton_grouped` — grouping inserts parentheses and zeros only;
* `skeleton_withoutLabels` — a label is a name and an operator;
* `skeleton_step` — each place that resolution rewrites has names, numbers and operators only.

Once a program is resolved, the skeleton has nothing but numbers in its gaps
(`skeleton_resolved`).
-/

namespace RomAsm

open Layout Resolution

/-- The symbols of a stream other than names, numbers and operators. -/
def skeleton (symbols : List Symbol) : List Symbol :=
  symbols.filter fun s =>
    match s.kind with
    | .mnemonic | .directive | .string | .accumulator | .stack | .immediate => true
    | .integer | .identifier | .operator => false

/-- The skeleton has the symbols that rewriting leaves alone wherever they stand. -/
theorem skeleton_eq (symbols : List Symbol) : skeleton symbols = symbols.filter Symbol.isFixed := by
  refine List.filter_congr fun s _ => ?_
  unfold Symbol.isFixed Symbol.isInert Symbol.isInteger
  cases s.kind <;> rfl

theorem isFixed_of_isIdentifier {s : Symbol} (h : s.isIdentifier = true) : s.isFixed = false := by
  simp [Symbol.isFixed, Symbol.isInert, beq_iff_eq.1 h]

theorem isFixed_of_isInteger {s : Symbol} (h : s.isInteger = true) : s.isFixed = false := by
  rw [Symbol.isFixed, h, Bool.not_true, Bool.and_false]

theorem isFixed_of_isOp {s : Symbol} {texts : List String} (h : s.isOp texts = true) :
    s.isFixed = false := by
  simp [Symbol.isFixed, Symbol.isInert, Symbol.kind_of_isOp h]

/-! ### Grouping and layout -/

/-- **Grouping** inserts parentheses and zeros, none of which are part of the skeleton. -/
theorem skeleton_grouped (symbols : List Symbol) :
    skeleton (Grouping.grouped symbols) = skeleton symbols := by
  rw [skeleton_eq, skeleton_eq]
  refine Grouping.filter_grouped (fun s hs => ?_) (fun _ => rfl) symbols
  -- a parenthesis is an operator, whichever way it faces
  rcases Bool.or_eq_true_iff.1 hs with hs | hs
  · exact isFixed_of_isOp hs
  · exact isFixed_of_isOp hs

/-- **Laying out labels** takes names and colons out. -/
theorem skeleton_withoutLabels (symbols : List Symbol) :
    skeleton (withoutLabels symbols) = skeleton symbols := by
  rw [skeleton_eq, skeleton_eq]
  fun_induction withoutLabels symbols with
  | case1 => rfl
  | case2 s => rfl
  | case3 s t rest hlabel ih =>
    -- the two symbols that are passed over at once are a name and a colon
    obtain ⟨hs, ht⟩ := of_isLabel hlabel
    have hs : ¬ s.isFixed = true := by simp [isFixed_of_isIdentifier hs]
    have ht : ¬ t.isFixed = true := by simp [isFixed_of_isOp ht]
    rw [ih, List.filter_cons_of_neg hs, List.filter_cons_of_neg ht]
  | case4 s t rest hlabel ih => rw [List.filter_cons, List.filter_cons, ih]

/-! ### Resolution -/

/-- What a step takes out, and what it puts in, are names, numbers and operators. -/
theorem Resolution.Redex.isFixed {rest u v : List Symbol} (h : Redex rest u v) :
    (∀ s ∈ u, s.isFixed = false) ∧ ∀ s ∈ v, s.isFixed = false := by
  cases h with
  | define hname hequals hvalue =>
    -- only a literal may be taken out together with its name
    have hvalue := (Bool.and_eq_true_iff.1 hvalue).1
    simp [isFixed_of_isIdentifier hname, isFixed_of_isOp hequals, isFixed_of_isInteger hvalue]
  | substitute hname hvalue =>
    simp [isFixed_of_isIdentifier hname, isFixed_of_isInteger hvalue]
  | ungroup hopening hvalue hclosing =>
    simp [isFixed_of_isOp hopening, isFixed_of_isInteger hvalue, isFixed_of_isOp hclosing]
  | evaluate hleft hoperator hright hvalue =>
    simp [isFixed_of_isInteger hleft, isFixed_of_isOp hoperator, isFixed_of_isInteger hright,
      isFixed_of_isInteger hvalue]

/-- **One step of resolution** does not touch the skeleton. -/
theorem skeleton_step {a b : List Symbol} (h : Step a b) : skeleton b = skeleton a := by
  rw [skeleton_eq, skeleton_eq]
  -- the place may be anywhere in the stream
  induction h with
  | @here rest u v hredex =>
    have hnone {w : List Symbol} (hw : ∀ s ∈ w, s.isFixed = false) : w.filter Symbol.isFixed = [] :=
      List.filter_eq_nil_iff.2 fun s hs => by simp [hw s hs]
    obtain ⟨hu, hv⟩ := hredex.isFixed
    rw [List.filter_append, List.filter_append, hnone hu, hnone hv]
  | there s _ ih => rw [List.filter_cons, List.filter_cons, ih]

/-- **All of resolution** leaves the skeleton as it was. -/
theorem skeleton_steps {a b : List Symbol} (h : Steps a b) : skeleton b = skeleton a :=
  h.invariant (P := fun c => skeleton c = skeleton a)
    (fun _ _ hstep hc => (skeleton_step hstep).trans hc) rfl

/-! ### The phases before generation -/

/-- Layout and resolution, of any stream: the skeleton stays and numbers come into its gaps. -/
theorem skeleton_of_resolve {symbols : List Symbol} {p q : Program}
    (hplace : (place symbols).outcome = .ok p) (hresolve : (resolve p).outcome = .ok q) :
    skeleton q.symbols = skeleton symbols ∧
      ∀ s ∈ q.symbols, s ∈ skeleton q.symbols ∨ s.kind = .integer := by
  obtain ⟨hsteps, hinert⟩ := resolve_steps hresolve
  obtain ⟨hsymbols, -⟩ := placeFrom_counters hplace
  constructor
  · calc skeleton q.symbols
      _ = skeleton p.symbols := skeleton_steps hsteps
      _ = skeleton symbols := by rw [hsymbols, skeleton_withoutLabels]
  · intro s hs
    -- names and operators would have been reported at the end
    have hs' := hinert s hs
    cases hinteger : s.isInteger with
    | true => exact .inr (beq_iff_eq.1 hinteger)
    | false =>
      left
      rw [skeleton_eq, List.mem_filter, Symbol.isFixed, hs', hinteger]
      exact ⟨hs, rfl⟩

/-- **The phases before generation keep the skeleton.** If a source is resolved, the mnemonics,
directives, strings and markers of the resolved stream are those that were read, each with its text
and its location and in the same order, and all other symbols are numbers. -/
theorem Assembler.skeleton_resolved {source : Source} {q : Program}
    (h : (resolved source).outcome = .ok q) :
    ∃ symbols, source.tokenize.outcome = .ok symbols ∧
      skeleton q.symbols = skeleton symbols ∧
      ∀ s ∈ q.symbols, s ∈ skeleton q.symbols ∨ s.kind = .integer := by
  -- one phase after the other
  obtain ⟨p, hplaced, hresolve⟩ := Trace.outcome_bind_eq_ok.1 h
  obtain ⟨symbols, htokenize, hplaced⟩ := Trace.outcome_bind_eq_ok.1 hplaced
  obtain ⟨grouped, hgroup, hplace⟩ := Trace.outcome_bind_eq_ok.1 hplaced
  obtain rfl : Grouping.grouped symbols = grouped := Except.ok.inj hgroup
  obtain ⟨hskeleton, hothers⟩ := skeleton_of_resolve hplace hresolve
  exact ⟨symbols, htokenize, hskeleton.trans (skeleton_grouped symbols), hothers⟩

/-- A label, a definition and an expression leave the program, and two mnemonics, an immediate sign
and another mnemonic are what is between the numbers. -/
theorem jumpAhead_skeleton :
    (Assembler.resolved jumpAhead).outcome = .ok jumpAheadResolved ∧
      skeleton jumpAheadSymbols = [⟨.mnemonic, "JMP", none, inFirstLine 1⟩,
        ⟨.mnemonic, "ADD", none, inFirstLine 7⟩, ⟨.immediate, "!", none, inFirstLine 11⟩,
        ⟨.mnemonic, "HLT", none, inFirstLine 19⟩] ∧
      skeleton jumpAheadResolved.symbols = skeleton jumpAheadSymbols ∧
      ∀ s ∈ jumpAheadResolved.symbols,
        s ∈ skeleton jumpAheadResolved.symbols ∨ s.kind = .integer := by
  have hresolved : (Assembler.resolved jumpAhead).outcome = .ok jumpAheadResolved := by
    rw [Assembler.resolved, Trace.outcome_bind, placed_jumpAhead, Trace.except_ok_bind,
      resolve_jumpAhead]
  obtain ⟨symbols, htokenize, hskeleton, hothers⟩ := Assembler.skeleton_resolved hresolved
  -- the symbols that were tokenized are those that were read
  have htokens : jumpAhead.tokenize.outcome = .ok jumpAheadSymbols := by
    rw [Source.tokenize, Trace.outcome_bind, Trace.outcome_liftM, symbols_jumpAhead]
    rfl
  obtain rfl := Except.ok.inj (htokens.symm.trans htokenize)
  exact ⟨hresolved, rfl, hskeleton, hothers⟩

end RomAsm
