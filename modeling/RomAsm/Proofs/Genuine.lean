import RomAsm.Proofs.Following

/-!
# Genuine symbols and how runs on them end

A symbol that was put together by hand may have no location, be an integer without a value or a
marker that is spelled like none, and then a run may end in ways that no program should lead to. The
symbols of a source are `Genuine`, and every phase keeps them so: it ends in a genuine program or in
a failure that the user can be told of (`Reported`).

`Ends good bad x` says how a computation ends, and `Ends.bind` puts two of them in a row; there is
one lemma for each function of a phase. What counts as a place in the program is left open: it is a
predicate that the symbols of the source have and that every new symbol takes over from an old one.

* `Grouping.Inherited.grouped` — what the symbols that grouping brings in take over;
* `Layout.step_ends`, `Layout.place_ends` — layout, which has one more way to fail (`NegatedZero`).
-/

namespace RomAsm

/-! ### How a computation ends -/

section Ends

variable {α β ω : Type}

/-- A computation ends in a result with the first property, or in a failure with the second. -/
def Ends (good : α → Prop) (bad : Failure → Prop) : Except Failure α → Prop
  | .ok a => good a
  | .error failure => bad failure

namespace Ends

variable {good : α → Prop} {good' : β → Prop} {bad : Failure → Prop} {x : Except Failure α}

/-- **A sequence ends as its last part does**, provided that the parts before it fail only in ways
that are allowed. -/
theorem bind {f : α → Except Failure β} (hx : Ends good bad x)
    (hf : ∀ a, x = .ok a → good a → Ends good' bad (f a)) : Ends good' bad (x >>= f) := by
  cases x with
  | ok a => exact hf a rfl hx
  | error failure => exact hx

/-- The same for a computation that leaves a trace. -/
theorem trace_bind {t : Trace ω α} {f : α → Trace ω β} (ht : Ends good bad t.outcome)
    (hf : ∀ a, t.outcome = .ok a → good a → Ends good' bad (f a).outcome) :
    Ends good' bad (t >>= f).outcome := by
  rw [Trace.outcome_bind]
  exact ht.bind hf

/-- A result may be changed on the way out; a failure is handed on. -/
theorem map {f : α → β} (hx : Ends good bad x) (hf : ∀ a, x = .ok a → good a → good' (f a)) :
    Ends good' bad (x.map f) := by
  cases x with
  | ok a => exact hf a rfl hx
  | error failure => exact hx

/-- Less may be said of the result. What is known of it in any case may be used for that. -/
theorem mono {more : α → Prop} (hx : Ends good bad x)
    (hgood : ∀ a, x = .ok a → good a → more a) : Ends more bad x := by
  cases x with
  | ok a => exact hgood a rfl hx
  | error failure => exact hx

theorem any (hx : Ends good bad x) : Ends (fun _ => True) bad x := hx.mono fun _ _ _ => trivial

/-- More failures may be allowed. -/
theorem worse {bad' : Failure → Prop} (hx : Ends good bad x) (hbad : ∀ f, bad f → bad' f) :
    Ends good bad' x := by
  cases x with
  | ok a => exact hx
  | error failure => exact hbad failure hx

theorem of_ok {a : α} (hx : Ends good bad x) (h : x = .ok a) : good a := by
  subst h
  exact hx

theorem of_error {failure : Failure} (hx : Ends good bad x) (h : x = .error failure) :
    bad failure := by
  subst h
  exact hx

end Ends

end Ends

/-! ### Failures that are reported -/

/-- The failures that tell of the program: a diagnostic that has a place in it, or that a number is
too long to be written. -/
inductive Reported (Place : Option Location → Prop) : Failure → Prop where
  | diagnostic {d : Diagnostic} (h : Place d.location) : Reported Place (.diagnostic d)
  | tooLarge : Reported Place (.numeral .tooLarge)

section Reported

variable {Place : Option Location → Prop}

/-- **A report is a diagnostic at its place**, or it fails because a number in it is too long. -/
theorem Reported.report {location : Option Location} (h : Place location) (problem : Problem) :
    Reported Place (.report problem location) := by
  rw [Failure.report_eq]
  -- whether all integers of the message and its place can be written
  split
  · exact .diagnostic h
  · exact .tooLarge

/-- An operand without a location is reported at its directive: either way the report has a
place. -/
theorem place_or {a b : Option Location} (ha : Place a) (hb : Place b) : Place (a.or b) := by
  cases a with
  | none => exact hb
  | some l => exact ha

/-- A number is written by its digits, or it is too long. -/
theorem numeral_ends (n : Int) :
    Ends (fun text => text = Numeral.decimal n) (Reported Place) (numeral n) := by
  unfold numeral Numeral.written
  split
  · rfl
  · exact .tooLarge

end Reported

/-! ### Genuine symbols -/

/-- A symbol as a source or a phase makes it: it has a place, an integer has a value and, unless
that is negative, the spelling of a literal, and a marker is listed. -/
structure Symbol.Genuine (Place : Option Location → Prop) (s : Symbol) : Prop where
  place : Place s.location
  number : s.isInteger = true → ∃ n, s.value = some n ∧
    (0 ≤ n → ∃ l, Numeral.Literal.ofChars? s.text.toList = some l)
  marker : s.kind = .accumulator ∨ s.kind = .stack →
    ∃ mode, Machine.markers.lookup s.text = some mode

/-- A stream of genuine symbols. -/
def Genuine (Place : Option Location → Prop) (symbols : List Symbol) : Prop :=
  ∀ s ∈ symbols, s.Genuine Place

/-- A program of genuine symbols, whose names have values. -/
structure Program.Genuine (Place : Option Location → Prop) (p : Program) : Prop where
  symbols : RomAsm.Genuine Place p.symbols
  tags : ∀ entry ∈ p.tags, entry.2.isSome = true

section Symbols

variable {Place : Option Location → Prop}

/-- An operator is neither a number nor a marker, so only its place is in question. -/
theorem genuine_ofOperator {location : Option Location} (h : Place location) (text : String) :
    (Symbol.ofOperator text location).Genuine Place where
  place := h
  number h := by cases h
  marker h := by rcases h with h | h <;> cases h

/-- A text of digits only is a literal. -/
theorem Numeral.Literal.exists_of_digits {text : List Char} (hne : text ≠ [])
    (hdigits : ∀ c ∈ text, c.isDigit = true) : ∃ l, Literal.ofChars? text = some l := by
  -- each character has a value below ten
  have hvalues : ∃ ds, text.mapM (digitOf? 10) = some ds := by
    clear hne
    induction text with
    | nil => exact ⟨[], rfl⟩
    | cons c rest ih =>
      obtain ⟨hc, hrest⟩ := List.forall_mem_cons.1 hdigits
      obtain ⟨ds, hds⟩ := ih hrest
      have hbounds : '0' ≤ c ∧ c ≤ '9' := by
        rw [Char.isDigit, Bool.and_eq_true, decide_eq_true_eq, decide_eq_true_eq] at hc
        exact hc
      have hvalue : digitOf? 10 c = some (c.toNat - '0'.toNat) := by
        have hlast : c.toNat ≤ '9'.toNat := hbounds.2
        have hsmall : c.toNat - '0'.toNat < 10 := by
          have h9 : '9'.toNat = 57 := rfl
          have h0 : '0'.toNat = 48 := rfl
          omega
        rw [digitOf?, digitValue?, if_pos hbounds, Option.filter_some,
          if_pos (by simpa using hsmall)]
      exact ⟨_, mapM_cons_eq_some.2 ⟨_, _, hvalue, hds, rfl⟩⟩
  obtain ⟨ds, hds⟩ := hvalues
  have hrun : digitRun? 10 text = some ds := by
    rw [digitRun?, if_neg (by simpa using hne), hds]
  -- the letter of another base would be the second character
  refine ⟨⟨.decimal, ds⟩, ?_⟩
  unfold Literal.ofChars?
  split
  · exact absurd (hdigits 'x' (by simp)) (by decide)
  · exact absurd (hdigits 'X' (by simp)) (by decide)
  · exact absurd (hdigits 'b' (by simp)) (by decide)
  · exact absurd (hdigits 'B' (by simp)) (by decide)
  · rw [hrun]
    rfl

/-- The zero in front of a sign is spelled like a literal, at the place of the sign. -/
theorem genuine_zero {location : Option Location} (h : Place location) :
    (Grouping.zero location).Genuine Place where
  place := h
  number _ := by
    have hspelled : Numeral.Literal.ofChars? "0".toList = some ⟨.decimal, [0]⟩ := rfl
    exact ⟨0, rfl, fun _ => ⟨_, hspelled⟩⟩
  marker h := by rcases h with h | h <;> cases h

/-- A number that is put in for a name or a group is spelled like a literal if it is not negative. A
negative one is not, and a directive does not take it for a literal. -/
theorem genuine_ofValue {location : Option Location} (h : Place location) (n : Int) :
    Ends (fun s => s.Genuine Place) (Reported Place) (Symbol.ofValue (some n) location) := by
  refine (numeral_ends n).bind fun text _ htext => ⟨h, fun _ => ⟨n, rfl, fun hn => ?_⟩, ?_⟩
  · -- a number that is not negative is written by its digits only
    have hdigits : text.toList = Nat.toDigits 10 n.natAbs := by
      rw [htext, Numeral.decimal, if_neg (Int.not_lt.2 hn), String.toList_ofList]
    rw [hdigits]
    exact Numeral.Literal.exists_of_digits Nat.toDigits_ne_nil fun c hc =>
      Nat.isDigit_of_mem_toDigits (by decide) (by decide) hc
  · -- an integer is no marker
    rintro (h | h) <;> cases h

end Symbols

/-! ### Grouping -/

namespace Grouping

variable {Q : Symbol → Prop} {symbols : List Symbol}

/-- A property that the zeros and parentheses of an operator take over from it. -/
structure Inherited (Q : Symbol → Prop) : Prop where
  zero : ∀ s, Q s → Q (zero s.location)
  parenthesis : ∀ s text, Q s → Q (.ofOperator text s.location)

/-- A walk that puts in a parenthesis puts in nothing else. -/
theorem mem_enclose {deeper shallower : Symbol → Bool} {parenthesis : Symbol} {depth : Int}
    {s : Symbol} (h : s ∈ enclose deeper shallower parenthesis depth symbols) :
    s = parenthesis ∨ s ∈ symbols := by
  induction symbols generalizing depth with
  | nil => exact .inr h
  | cons t rest ih =>
    unfold enclose at h
    dsimp only at h
    -- where the parenthesis goes does not matter, only that it is the one new symbol
    generalize (if deeper t then depth + 1
      else if shallower t then depth - 1 else depth) = here at h
    split at h
    · simp only [List.mem_cons] at h ⊢
      tauto
    · rcases List.mem_cons.1 h with rfl | h
      · exact .inr List.mem_cons_self
      · exact (ih h).imp_right (List.mem_cons_of_mem t)

namespace Inherited

/-- The zeros that are put in front of signs take over what their signs have. -/
theorem withZeros (hQ : Inherited Q) (h : ∀ s ∈ symbols, Q s) (previous : Option Symbol) :
    ∀ s ∈ Grouping.withZeros previous symbols, Q s := by
  induction symbols generalizing previous with
  | nil => exact h
  | cons s rest ih =>
    obtain ⟨hs, hrest⟩ := List.forall_mem_cons.1 h
    unfold Grouping.withZeros
    -- a zero is put in, or not; the symbol itself stays in any case
    split
    · exact List.forall_mem_cons.2 ⟨hQ.zero s hs, List.forall_mem_cons.2 ⟨hs, ih hrest _⟩⟩
    · exact List.forall_mem_cons.2 ⟨hs, ih hrest _⟩

/-- The parentheses around an operator take over what the operator has, and pass it on if they are
wrapped themselves. -/
theorem wrapFrom (hQ : Inherited Q) {passed : List Symbol} (operators : List String)
    (hpassed : ∀ s ∈ passed, Q s) (h : ∀ s ∈ symbols, Q s) :
    ∀ s ∈ Grouping.wrapFrom operators passed symbols, Q s := by
  fun_induction Grouping.wrapFrom operators passed symbols with
  | case1 passed => exact fun s hs => hpassed s (List.mem_reverse.1 hs)
  | case2 passed s rest hs ih =>
    obtain ⟨hoperator, hrest⟩ := List.forall_mem_cons.1 h
    -- both parentheses have the location of the operator that is wrapped
    have henclosed : ∀ {deeper shallower : Symbol → Bool} {text : String} {others : List Symbol},
        (∀ t ∈ others, Q t) →
        ∀ t ∈ enclose deeper shallower (.ofOperator text s.location) 0 others, Q t := by
      intro deeper shallower text others hothers t ht
      rcases mem_enclose ht with rfl | ht
      · exact hQ.parenthesis s text hoperator
      · exact hothers t ht
    exact ih (List.forall_mem_cons.2 ⟨hoperator, henclosed hpassed⟩) (henclosed hrest)
  | case3 passed s rest hs ih =>
    obtain ⟨hs, hrest⟩ := List.forall_mem_cons.1 h
    exact ih (List.forall_mem_cons.2 ⟨hs, hpassed⟩) hrest

/-- Grouping brings in nothing but zeros and parentheses. -/
theorem grouped (hQ : Inherited Q) (h : ∀ s ∈ symbols, Q s) :
    ∀ s ∈ Grouping.grouped symbols, Q s :=
  hQ.wrapFrom additive nofun (hQ.wrapFrom multiplicative nofun (hQ.withZeros h none))

end Inherited

end Grouping

namespace Genuine

variable {Place : Option Location → Prop} {symbols : List Symbol}

theorem head {s : Symbol} (h : Genuine Place (s :: symbols)) : s.Genuine Place :=
  h s List.mem_cons_self

theorem tail {s : Symbol} (h : Genuine Place (s :: symbols)) : Genuine Place symbols :=
  (List.forall_mem_cons.1 h).2

theorem of_suffix {more : List Symbol} (h : Genuine Place symbols) (hmore : more <:+ symbols) :
    Genuine Place more :=
  fun s hs => h s (hmore.mem hs)

end Genuine

/-! ### Operands -/

section Operands

variable {Place : Option Location → Prop} {d : Symbol} {following : List Symbol}

/-- A genuine marker selects a mode. -/
theorem Symbol.Genuine.exists_mode {s : Symbol} (h : s.Genuine Place) :
    ∃ mode, s.mode? = .ok mode := by
  unfold Symbol.mode?
  -- accumulator, stack, immediate and all others
  split
  · next hkind =>
    obtain ⟨mode, hmode⟩ := h.marker (.inl hkind)
    rw [hmode]
    exact ⟨_, rfl⟩
  · next hkind =>
    obtain ⟨mode, hmode⟩ := h.marker (.inr hkind)
    rw [hmode]
    exact ⟨_, rfl⟩
  · exact ⟨_, rfl⟩
  · exact ⟨_, rfl⟩

namespace Operand

/-- A mnemonic without the operand that it must have is reported at its place. -/
theorem mode_ends (hd : d.Genuine Place) (hfollowing : Genuine Place following) :
    Ends (fun _ => True) (Reported Place) (mode d following) := by
  unfold mode
  split
  · trivial
  · split
    · split
      · trivial
      · exact .report hd.place _
    · split
      · trivial
      · -- this is where an unlisted marker would make the run fail
        obtain ⟨mode, hmode⟩ := hfollowing.head.exists_mode
        rw [hmode]
        trivial

/-- So is a mnemonic that does not have the mode. -/
theorem instruction_ends (hd : d.Genuine Place) (hfollowing : Genuine Place following) :
    Ends (fun _ => True) (Reported Place) (instruction d following) := by
  refine (mode_ends hd hfollowing).bind fun mode _ _ => ?_
  split
  · trivial
  · exact .report hd.place _

/-- A missing operand is reported at its directive, and one that is there is genuine. -/
theorem first_ends (hd : d.Genuine Place) (hfollowing : Genuine Place following) :
    Ends (fun s => s.Genuine Place) (Reported Place) (first d following) := by
  unfold first
  cases following with
  | nil => exact .report hd.place _
  | cons s rest =>
    dsimp only [List.head?_cons]
    split
    · exact .report hd.place _
    · exact hfollowing.head

/-- A negated literal stands at the place of its sign. -/
theorem negated?_ends (hfollowing : Genuine Place following) :
    Ends (fun o => ∀ s ∈ o, Place s.location) (Reported Place) (negated? following) := by
  unfold negated?
  split
  · next opening zero minus l closing rest =>
    split
    · next hshape =>
      -- the integer behind the sign has a value
      simp only [Bool.and_eq_true] at hshape
      obtain ⟨⟨⟨⟨⟨⟨⟨-, -⟩, -⟩, -⟩, hl⟩, -⟩, -⟩, -⟩ := hshape
      obtain ⟨n, hn, -⟩ := hfollowing.tail.tail.tail.head.number hl
      rw [hn]
      rintro s ⟨⟩
      exact hfollowing.tail.tail.head.place
    · exact nofun
  · exact nofun

/-- A directive that must have a literal has one with a place and a value. -/
theorem literal_ends (hd : d.Genuine Place) (hfollowing : Genuine Place following) :
    Ends (fun s => Place s.location ∧ ∃ n, s.value = some n) (Reported Place)
      (literal d following) := by
  -- the place comes from the way the operand is found, its value from the form it has
  have hplace : Ends (fun s => Place s.location) (Reported Place) (literal d following) := by
    refine (first_ends hd hfollowing).bind fun operand _ hoperand => ?_
    split
    · exact hoperand.place
    · refine (negated?_ends hfollowing).bind fun o _ ho => ?_
      cases o with
      | some s => exact ho s rfl
      | none => exact .report (place_or hoperand.place hd.place) _
  refine hplace.mono fun operand h hplace => ⟨hplace, ?_⟩
  rcases literal_cases h with ⟨hoperand, rest, rfl⟩ |
    ⟨-, -, -, -, -, -, n, -, -, -, -, -, -, -, -, -, rfl⟩
  · obtain ⟨n, hn, -⟩ := hfollowing.head.number hoperand
    exact ⟨n, hn⟩
  · exact ⟨-n, rfl⟩

/-- A number with a sign is reported where it stands; any other is a count. -/
theorem nonNegative_ends {s : Symbol} {n : Int} (hplace : Place s.location)
    (hvalue : s.value = some n) (problem : String → Problem) :
    Ends (fun count : Nat => (count : Int) = n) (Reported Place) (nonNegative problem s) := by
  unfold nonNegative
  rw [hvalue]
  dsimp only
  split
  · exact .report hplace _
  · next hn => exact Int.toNat_of_nonneg (Int.not_lt.1 hn)

/-- The operand of a directive that counts or names a place. -/
theorem amount_ends (hd : d.Genuine Place) (hfollowing : Genuine Place following)
    (problem : String → Problem) :
    Ends (fun _ => True) (Reported Place)
      (literal d following >>= fun s => nonNegative problem s) := by
  refine (literal_ends hd hfollowing).bind fun s _ ⟨hplace, n, hn⟩ => ?_
  exact (nonNegative_ends hplace hn problem).any

/-- The operand of `.data` is the literal behind it, and it is not negative. -/
theorem data_ends (hd : d.Genuine Place) (hfollowing : Genuine Place following) :
    Ends (fun s => literal d following = .ok s ∧ ∃ n : Nat, s.value = some (n : Int))
      (Reported Place) (data d following) := by
  refine (literal_ends hd hfollowing).bind fun s hs ⟨hplace, n, hn⟩ => ?_
  refine (nonNegative_ends hplace hn .negativeData).bind fun count _ hcount => ?_
  exact ⟨hs, count, by rw [hn, hcount]⟩

/-- An operand that is no string literal is reported where it stands, or at its directive. -/
theorem string_ends (hd : d.Genuine Place) (hfollowing : Genuine Place following) :
    Ends (fun _ => True) (Reported Place) (string d following) := by
  refine (first_ends hd hfollowing).bind fun operand _ hoperand => ?_
  split
  · trivial
  · exact .report (place_or hoperand.place hd.place) _

end Operand

end Operands

/-! ### Layout -/

/-- A stream has a `.data` whose operand is a negated zero with the given spelling: a literal zero
in a group with the zero that was put in for its sign. -/
inductive NegatedZero (symbols : List Symbol) : String → Prop where
  | intro {d opening zero minus l closing : Symbol}
      (hstream : [d, opening, zero, minus, l, closing] <:+: symbols)
      (hdirective : d.kind = .directive) (hdata : d.text = ".data")
      (hopening : opening.isOpen = true) (hzero : zero.isInteger = true)
      (hvalue : zero.value = some 0) (hminus : minus.isOp ["-"] = true)
      (hplace : zero.location = minus.location) (hl : l.isInteger = true)
      (hnone : l.value = some 0) (hclosing : closing.isClose = true) :
      NegatedZero symbols ("-" ++ l.text)

/-- The failures of layout: those that are reported, and a negated zero as data. -/
inductive Misplaced (Place : Option Location → Prop) (symbols : List Symbol) : Failure → Prop where
  | reported {f : Failure} (h : Reported Place f) : Misplaced Place symbols f
  | negatedZero {text : String} (h : NegatedZero symbols text) :
      Misplaced Place symbols (.numeral (.notDecimal text))

/-- A negated zero in a part of the stream is one in the stream. -/
theorem Misplaced.of_suffix {Place : Option Location → Prop} {symbols more : List Symbol}
    {f : Failure} (h : Misplaced Place more f) (hmore : more <:+ symbols) :
    Misplaced Place symbols f := by
  cases h with
  | reported h => exact .reported h
  | negatedZero h =>
    obtain ⟨hstream, hdirective, hdata, hopening, hzero, hvalue, hminus, hplace, hl, hnone,
      hclosing⟩ := h
    exact .negatedZero (.intro (hstream.trans hmore.isInfix) hdirective hdata hopening hzero hvalue
      hminus hplace hl hnone hclosing)

namespace Layout

variable {Place : Option Location → Prop} {symbols : List Symbol}

/-- The values of a stream are those of literals without a sign. -/
def Unsigned (symbols : List Symbol) : Prop := ∀ s ∈ symbols, ∀ n, s.value = some n → 0 ≤ n

/-- The data of a directive has a size, unless it is a negated zero. -/
theorem size_ends {d operand : Symbol} {following : List Symbol} {n : Nat}
    (hfollowing : Genuine Place following) (hunsigned : Unsigned following)
    (hdirective : d.kind = .directive) (hdata : d.text = ".data")
    (hliteral : Operand.literal d following = .ok operand) (hn : operand.value = some (n : Int)) :
    Ends (fun _ => True) (Misplaced Place (d :: following))
      ((DataLiteral.size operand.text).mapError .numeral) := by
  rcases Operand.literal_cases hliteral with ⟨hoperand, rest, rfl⟩ |
    ⟨opening, zero, minus, l, closing, rest, m, rfl, hopening, hzero, hvalue, hminus, hl, hm,
      hclosing, hplace, rfl⟩
  · -- a literal without a sign is spelled, and so it has a size
    obtain ⟨k, hk, hspelled⟩ := hfollowing.head.number hoperand
    obtain rfl := Option.some.inj (hk.symm.trans hn)
    obtain ⟨l, hl⟩ := hspelled (Int.natCast_nonneg n)
    rw [DataLiteral.size_literal hl]
    trivial
  · -- neither the literal nor its negation is negative
    have hm0 : 0 ≤ m := hunsigned l (by simp) m hm
    have hmn : -m = n := Option.some.inj hn
    obtain rfl : m = 0 := by omega
    rw [DataLiteral.size_negated]
    refine .negatedZero (.intro (List.IsPrefix.isInfix ⟨rest, rfl⟩) hdirective hdata hopening hzero
      hvalue hminus hplace hl hm hclosing)

/-- The address behind a directive. Only `.data` can fail with a negated zero. -/
theorem addressAfter_ends {d : Symbol} {following : List Symbol} (hd : d.Genuine Place)
    (hfollowing : Genuine Place following) (hunsigned : Unsigned following)
    (hdirective : d.kind = .directive) (address : Nat) :
    Ends (fun _ => True) (Misplaced Place (d :: following))
      (addressAfter address d following) := by
  have hreported : ∀ {α : Type} {good : α → Prop} {x : Except Failure α},
      Ends good (Reported Place) x → Ends good (Misplaced Place (d :: following)) x :=
    fun h => h.worse fun _ => .reported
  -- in the order in which the directives are listed, and last an unknown one
  unfold addressAfter
  split
  · exact (hreported (Operand.amount_ends hd hfollowing _)).bind fun _ _ _ => trivial
  · exact hreported (Operand.amount_ends hd hfollowing _)
  · exact (hreported (Operand.first_ends hd hfollowing)).bind fun _ _ _ => trivial
  · exact (hreported (Operand.string_ends hd hfollowing)).bind fun _ _ _ => trivial
  · next hdata =>
    refine (hreported (Operand.data_ends hd hfollowing)).bind fun operand _ ⟨hliteral, n, hn⟩ => ?_
    exact (size_ends hfollowing hunsigned hdirective hdata hliteral hn).bind fun _ _ _ => trivial
  · exact .reported (.report hd.place _)

/-- **One step of layout**: an instruction, a directive, or any other symbol, which takes no
room. -/
theorem step_ends {s : Symbol} {following : List Symbol} (hs : s.Genuine Place)
    (hfollowing : Genuine Place following) (hunsigned : Unsigned following) (address : Nat) :
    Ends (fun _ => True) (Misplaced Place (s :: following)) (step address s following) := by
  unfold step
  split
  · exact ((Operand.instruction_ends hs hfollowing).worse fun _ => .reported).bind
      fun _ _ _ => trivial
  · next hdirective => exact addressAfter_ends hs hfollowing hunsigned hdirective address
  · trivial

/-- A name that is taken is reported where it stands for the second time. -/
theorem checkNew_ends {s : Symbol} (hs : s.Genuine Place) (tags : Table Value)
    (definitions : Table (Option Location)) :
    Ends (fun _ => True) (Reported Place) (Program.checkNew tags definitions s) := by
  unfold Program.checkNew
  split
  · exact .report hs.place _
  · trivial

/-- The end of layout fails only if the size of the program is too long to be written. -/
theorem finish_ends (address : Nat) {tags : Table Value}
    (htags : ∀ entry ∈ tags, entry.2.isSome = true) (definitions : Table (Option Location)) :
    Ends (fun p => p.Genuine Place) (Reported Place) (finish address tags definitions).outcome :=
  (numeral_ends address).trace_bind fun _ _ _ => ⟨nofun, htags⟩

end Layout

/-- What is in a table to which an entry was added. -/
theorem Table.mem_put {α : Type} {t : Table α} {name : String} {a : α} {entry : String × α}
    (h : entry ∈ t.put name a) : entry ∈ t ∨ entry = (name, a) := by
  unfold Table.put at h
  split at h
  · obtain ⟨old, hold, rfl⟩ := List.mem_map.1 h
    split
    · exact .inr rfl
    · exact .inl hold
  · rcases List.mem_append.1 h with h | h
    · exact .inl h
    · exact .inr (List.mem_singleton.1 h)

/-- A table of names with values has values still when a name is given one. -/
theorem isSome_of_mem_put {tags : Table Value} (htags : ∀ entry ∈ tags, entry.2.isSome = true)
    (name : String) (n : Int) : ∀ entry ∈ tags.put name (some n), entry.2.isSome = true := by
  intro entry hentry
  rcases Table.mem_put hentry with hentry | rfl
  · exact htags entry hentry
  · rfl

namespace Layout

variable {Place : Option Location → Prop} {symbols : List Symbol}

/-- **Layout** ends in a program of the symbols it was given, or in a failure. -/
theorem placeFrom_ends (hsymbols : Genuine Place symbols) (hunsigned : Unsigned symbols)
    (address : Nat) {tags : Table Value} (htags : ∀ entry ∈ tags, entry.2.isSome = true)
    (definitions : Table (Option Location)) :
    Ends (fun p => p.Genuine Place) (Misplaced Place symbols)
      (placeFrom address tags definitions symbols).outcome := by
  fun_induction placeFrom address tags definitions symbols with
  | case1 address tags definitions =>
    exact (finish_ends address htags definitions).worse fun _ => .reported
  | case2 address tags definitions =>
    exact (finish_ends address htags definitions).worse fun _ => .reported
  | case3 address tags definitions s colon rest hlabel ih =>
    -- a label leaves the stream together with its colon
    have hrest : rest <:+ s :: colon :: rest := List.suffix_append [s, colon] rest
    refine ((checkNew_ends hsymbols.head tags definitions).worse fun _ => .reported).trace_bind
      fun _ _ _ => ?_
    refine ((numeral_ends address).worse fun _ => .reported).trace_bind fun _ _ _ => ?_
    exact (ih (hsymbols.of_suffix hrest) (fun t ht => hunsigned t (hrest.mem ht))
      (isSome_of_mem_put htags s.text address)).worse fun _ h => h.of_suffix hrest
  -- a colon behind no name
  | case4 address tags definitions s following _ hcolon =>
    exact .reported (.report hsymbols.head.place _)
  | case5 address tags definitions s following hlabel hcolon ih =>
    have hfollowing : following <:+ s :: following := List.suffix_cons s following
    have hunsigned' : Unsigned following := fun t ht => hunsigned t (hfollowing.mem ht)
    refine Ends.trace_bind (t := liftM (step address s following))
      (step_ends hsymbols.head hsymbols.tail hunsigned' address) fun next _ _ => ?_
    -- what goes wrong later goes wrong in a part of the stream
    have hlater := ih next hsymbols.tail hunsigned' htags
    refine (hlater.worse fun _ h => h.of_suffix hfollowing).trace_bind fun p _ hp => ?_
    exact ⟨List.forall_mem_cons.2 ⟨hsymbols.head, hp.symbols⟩, hp.tags⟩

/-- **Layout of a whole stream**, which begins at address zero with no names. -/
theorem place_ends (hsymbols : Genuine Place symbols) (hunsigned : Unsigned symbols) :
    Ends (fun p => p.Genuine Place) (Misplaced Place symbols) (place symbols).outcome := by
  have htags : ∀ entry ∈ ([] : Table Value), entry.2.isSome = true := by
    intro entry hentry
    cases hentry
  exact placeFrom_ends hsymbols hunsigned 0 htags []

end Layout

end RomAsm
