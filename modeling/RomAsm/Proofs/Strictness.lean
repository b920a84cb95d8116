import RomAsm.Proofs.Diagnosis

/-!
# Strict and lenient runs

A strict run and a lenient one differ only where an operand does not fit its field: the lenient run
writes a warning and goes on, the strict one stops there. So as long as the lenient run has no
warning the two are the same, and the first warning says what the strict run stops with.

`Stricter` is this relation between two computations. It is closed under sequencing, so each
function that encodes is related to itself in the other mode by following its text.

* `report_stricter` — the one place where the modes differ;
* `statement_stricter`, `encodeFrom_stricter` — one statement, and by induction a stream;
* `Uneventful.frontEnd`, `Located.frontEnd` — the phases before write no warning, and leave every
  symbol its location;
* `strict_assemble` — whole runs.
-/

namespace RomAsm

open Generation

namespace Trace

variable {ω α β : Type} {t : Trace ω α}

theorem bind_of_ok {a : α} (h : t.outcome = .ok a) (f : α → Trace ω β) :
    t >>= f = ⟨t.entries ++ (f a).entries, (f a).outcome⟩ := by
  change andThen t f = _
  rw [andThen, h]

/-- A sequence whose first part has failed: the second one is not run. -/
theorem bind_of_error {failure : Failure} (h : t.outcome = .error failure) (f : α → Trace ω β) :
    t >>= f = ⟨t.entries, .error failure⟩ := by
  change andThen t f = _
  rw [andThen, h]

end Trace

/-! ### Computations in the two modes -/

/-- The operand does not fit its field, and this is how that is put. -/
inductive Misfit (operand : Symbol) : Problem → Prop where
  | value {n : Int} {bits : Nat} (hvalue : operand.value = some n)
      (hfits : Field.fits n bits = false) : Misfit operand (.valueTooWide n bits)
  | character {c : Char} (hc : c ∈ (StringLiteral.decode operand.text).toList)
      (hfits : Field.fits c.toNat Field.immediateBits = false) :
      Misfit operand (.characterTooWide c)

theorem Misfit.category {operand : Symbol} {problem : Problem} (h : Misfit operand problem) :
    problem.category = .expression := by
  cases h <;> rfl

/-- The events are no records. -/
def Recordless (events : List Event) : Prop := events.filterMap Event.record? = []

/-- Two parts without records make a whole without records. -/
theorem Recordless.append {events more : List Event} (h : Recordless events)
    (hmore : Recordless more) : Recordless (events ++ more) := by
  rw [Recordless, List.filterMap_append, h, hmore]
  rfl

/-- The second computation is what becomes of the first in strict mode: the same, if there is no
warning, or else the part before the first warning. The warning is about one of the operands. -/
inductive Stricter (operands : List Symbol) {α : Type} : Emission α → Emission α → Prop where
  | quiet {t : Emission α} (h : Recordless t.entries) : Stricter operands t t
  | stopped {before after : List Event} {operand : Symbol} {problem : Problem} {w : Record}
      {outcome : Except Failure α} (hbefore : Recordless before) (hoperand : operand ∈ operands)
      (hmisfit : Misfit operand problem) (hwarning : warning problem operand = .ok w) :
      Stricter operands ⟨before ++ .record w :: after, outcome⟩
        ⟨before, .error (.diagnostic ⟨problem, operand.location, none⟩)⟩

namespace Stricter

variable {operands : List Symbol} {α β : Type}

/-- What follows is compared only if the first part has succeeded in both modes. -/
theorem bind {t t' : Emission α} {f f' : α → Emission β} (h : Stricter operands t t')
    (hf : ∀ a, t.outcome = .ok a → Stricter operands (f a) (f' a)) :
    Stricter operands (t >>= f) (t' >>= f') := by
  cases h with
  | quiet ht =>
    cases houtcome : t.outcome with
    | error failure =>
      rw [Trace.bind_of_error houtcome, Trace.bind_of_error houtcome]
      exact .quiet ht
    | ok a =>
      rw [Trace.bind_of_ok houtcome, Trace.bind_of_ok houtcome]
      -- `cases` needs variables for the two computations that follow
      generalize f a = u, f' a = u', hf a houtcome = hu
      cases hu with
      | quiet hu => exact .quiet (ht.append hu)
      | stopped hbefore hoperand hmisfit hwarning =>
        rw [← List.append_assoc]
        exact .stopped (ht.append hbefore) hoperand hmisfit hwarning
  | @stopped before after operand problem w outcome hbefore hoperand hmisfit hwarning =>
    -- the strict run has stopped already; what the lenient one adds comes behind its warning
    rw [Trace.bind_of_error (rfl : Trace.outcome ⟨before, _⟩ = .error _)]
    cases outcome with
    | error failure =>
      rw [Trace.bind_of_error (rfl : Trace.outcome ⟨_, _⟩ = .error failure)]
      exact .stopped hbefore hoperand hmisfit hwarning
    | ok a =>
      rw [Trace.bind_of_ok (rfl : Trace.outcome ⟨_, _⟩ = .ok a), List.append_assoc,
        List.cons_append]
      exact .stopped hbefore hoperand hmisfit hwarning

/-- A part that knows no modes changes nothing. -/
theorem after {t : Emission α} {f f' : α → Emission β} (h : Recordless t.entries)
    (hf : ∀ a, t.outcome = .ok a → Stricter operands (f a) (f' a)) :
    Stricter operands (t >>= f) (t >>= f') :=
  (quiet h).bind hf

end Stricter

/-! ### Encoding in the two modes -/

section Encoding

variable {operands : List Symbol} {operand : Symbol} {problem : Problem}

/-- The text of a warning: the place, the message that a strict run would fail with, and what has
been done about it. It fails if its place cannot be written. -/
theorem warning_eq : warning problem operand =
    if operand.location.all Location.isWritable then
      .ok ⟨.warning, (operand.location.elim "" fun l => l.text ++ ": ") ++ problem.message ++
        "; truncated"⟩
    else .error (.numeral .tooLarge) := by
  unfold warning placeText
  cases operand.location with
  | none => rfl
  | some l =>
    simp only [Location.written, Option.all_some]
    split <;> rfl

/-- **A report** is the one place where the modes differ. -/
theorem report_stricter (hoperand : operand ∈ operands) (hmisfit : Misfit operand problem)
    (hintegers : problem.integers.all Numeral.isWritable = true) :
    Stricter operands (report false problem operand) (report true problem operand) := by
  have hstrict : report true problem operand = throw (.report problem operand.location) := rfl
  have hlenient : report false problem operand = (do
      let record ← warning problem operand
      Trace.write (.record record)) := rfl
  rw [hstrict, hlenient, Failure.report_eq, hintegers, Bool.true_and]
  have hwarning : warning problem operand = _ := warning_eq
  split at hwarning
  · next hwritable =>
    rw [hwarning, if_pos hwritable]
    have hnone : Recordless [] := rfl
    exact .stopped hnone hoperand hmisfit hwarning
  · -- a location that cannot be written is a failure in both modes
    next hwritable =>
    rw [hwarning, if_neg hwritable]
    exact .quiet rfl

/-- A number that was written can be written. -/
theorem isWritable_of_numeral {n : Int} {text : String} (h : numeral n = .ok text) :
    Numeral.isWritable n = true := by
  by_contra hn
  rw [numeral, Numeral.written, if_neg hn] at h
  cases h

/-- A value for a field: it fits in both modes, or it is reported in both. -/
theorem inRange_stricter (hoperand : operand ∈ operands) (bits : Nat) :
    Stricter operands (inRange false operand bits) (inRange true operand bits) := by
  unfold inRange
  cases hvalue : operand.value with
  | none => exact .quiet rfl
  | some n =>
    dsimp only
    cases hfits : Field.fits n bits with
    | true =>
      rw [if_pos rfl, if_pos rfl]
      exact .quiet rfl
    | false =>
      rw [if_neg Bool.false_ne_true, if_neg Bool.false_ne_true]
      -- both modes write the value first, so it can be written when the report is made
      refine .after rfl fun text htext => ?_
      have hwritable : Numeral.isWritable n = true := isWritable_of_numeral htext
      have hintegers : (Problem.valueTooWide n bits).integers.all Numeral.isWritable = true := by
        simp [Problem.integers, hwritable]
      exact (report_stricter hoperand (.value hvalue hfits) hintegers).bind fun _ _ => .quiet rfl

/-- The characters of a string, each of which may be reported. -/
theorem characters_stricter (hoperand : operand ∈ operands) (text : List Char)
    (htext : ∀ c ∈ text, c ∈ (StringLiteral.decode operand.text).toList) :
    Stricter operands (characters false operand text) (characters true operand text) := by
  induction text with
  | nil => exact .quiet rfl
  | cons c rest ih =>
    have hrest := ih fun d hd => htext d (List.mem_cons_of_mem c hd)
    -- the byte of a character is laid down with or without a report before it
    have hemitted : Stricter operands
        (do emit (Field.immediate c.toNat); characters false operand rest)
        (do emit (Field.immediate c.toNat); characters true operand rest) :=
      .after rfl fun _ _ => hrest
    unfold characters
    dsimp only
    cases hfits : Field.fits c.toNat Field.immediateBits with
    | true => exact hemitted
    | false =>
      exact (report_stricter hoperand (.character (htext c List.mem_cons_self) hfits) rfl).bind
        fun _ _ => hemitted

end Encoding

/-- The symbol that is blamed for a character is the string literal which has the character. -/
theorem string_of_first {d operand : Symbol} {following : List Symbol} {text : String}
    (htext : Operand.string d following = .ok text)
    (hoperand : Operand.first d following = .ok operand) :
    operand ∈ following ∧ text = StringLiteral.decode operand.text := by
  obtain ⟨s, hs, htext⟩ := Trace.except_bind_eq_ok.1 htext
  obtain rfl := Except.ok.inj (hs.symm.trans hoperand)
  constructor
  · -- the first symbol, since there is one
    match following with
    | [] => cases hs
    | t :: rest =>
      unfold Operand.first at hs
      dsimp only [List.head?_cons] at hs
      split at hs
      · cases hs
      · cases hs
        exact List.mem_cons_self
  · split at htext
    · exact (Except.ok.inj htext).symm
    · cases htext

/-- An instruction in both modes. -/
theorem instruction_stricter (mnemonic : Symbol) (following : List Symbol) :
    Stricter following (instruction false mnemonic following)
      (instruction true mnemonic following) := by
  -- mode, instruction and opcode are found without regard to the run; only the fields differ
  refine .after rfl fun mode _ => .after rfl fun i _ => .after rfl fun _ _ => ?_
  cases mode with
  | direct =>
    refine .after rfl fun operand hoperand => ?_
    have hmem := List.mem_of_mem_head? (isInteger_of_number hoperand).1
    exact (inRange_stricter hmem _).bind fun n _ => .quiet rfl
  | immediate =>
    refine .after rfl fun operand hoperand => ?_
    have hmem := List.mem_of_getElem? (isInteger_of_number hoperand).1
    exact (inRange_stricter hmem _).bind fun n _ => .quiet rfl
  -- a marker is passed over, and there is no field
  | accumulator | stack => exact .after rfl fun _ _ => .quiet rfl
  | inherent => exact .quiet rfl

theorem emitZeros_recordless (count : Nat) : Recordless (emitZeros count).entries := by
  unfold emitZeros
  split <;> rfl

/-- A directive in both modes. Only `.byte` and `.string` have something to report. -/
theorem directive_stricter (address : Nat) (d : Symbol) (following : List Symbol) :
    Stricter following (directive false address d following)
      (directive true address d following) := by
  unfold directive
  split
  · -- `.reserve`
    exact .after rfl fun count _ => .quiet (emitZeros_recordless count)
  · -- `.org`
    refine .after rfl fun target _ => ?_
    dsimp only
    split
    · exact .quiet rfl
    · exact .quiet (emitZeros_recordless _)
  · -- `.byte`
    refine .after rfl fun operand hoperand => ?_
    have hmem := List.mem_of_mem_head? (isInteger_of_number hoperand).1
    exact (inRange_stricter hmem _).bind fun n _ => .quiet rfl
  · -- `.string`
    refine .after rfl fun text htext => .after rfl fun operand hoperand => ?_
    obtain ⟨hmem, rfl⟩ := string_of_first htext hoperand
    exact (characters_stricter hmem _ fun c hc => hc).bind fun _ _ => .quiet rfl
  · -- `.data`
    exact .after rfl fun operand _ => .after rfl fun bytes _ => .quiet rfl
  · exact .quiet rfl

/-- **One statement** in both modes. The operand that does not fit stands behind its head. -/
theorem statement_stricter (address : Nat) (s : Symbol) (following : List Symbol) :
    Stricter following (statement false address s following)
      (statement true address s following) := by
  have hencode : Stricter following (encode false address s following)
      (encode true address s following) := by
    unfold encode
    split
    · exact instruction_stricter s following
    · exact (directive_stricter address s following).bind fun _ _ => .quiet rfl
    · exact .quiet rfl
  exact hencode.bind fun _ _ => .after rfl fun _ _ => .quiet rfl

/-! ### Streams -/

/-- A strict run has stopped with the problem of an operand, and the first of the given records is
the warning that stands in its place in the lenient run. -/
structure Stopped (symbols : List Symbol) (warnings : List Record) (outcome : Except Failure Unit)
    (operand : Symbol) (problem : Problem) : Prop where
  operand_mem : operand ∈ symbols
  misfit : Misfit operand problem
  outcome_eq : outcome = .error (.diagnostic ⟨problem, operand.location, none⟩)
  head_eq : ∃ w, warning problem operand = .ok w ∧ warnings.head? = some w

/-- **A stream** is encoded alike in both modes, or the strict mode stops at the first warning. -/
theorem encodeFrom_stricter (address : Nat) (symbols : List Symbol) :
    (encodeFrom true address symbols = encodeFrom false address symbols ∧
      (encodeFrom false address symbols).records = []) ∨
    (encodeFrom true address symbols).records = [] ∧ ∃ operand problem,
      Stopped symbols (encodeFrom false address symbols).records
        (encodeFrom true address symbols).outcome operand problem := by
  -- by the length of the stream, since a statement may take several symbols
  induction hn : symbols.length using Nat.strongRecOn generalizing address symbols with
  | ind n ih =>
    match symbols with
    | [] =>
      rw [encodeFrom, encodeFrom]
      exact .inl ⟨rfl, rfl⟩
    | s :: following =>
      rw [encodeFrom, encodeFrom]
      dsimp only
      -- the first statement decides whether the two runs part here
      generalize statement false address s following = t,
        statement true address s following = t', statement_stricter address s following = ht
      cases ht with
      | quiet hquiet =>
        cases houtcome : t.outcome with
        | error failure => exact .inl ⟨rfl, hquiet⟩
        | ok taken =>
          have hlength : (following.drop taken).length < n := by
            simp only [List.length_drop, ← hn, List.length_cons]
            omega
          have hquiet : t.entries.filterMap Event.record? = [] := hquiet
          dsimp only
          rcases ih _ hlength (address + (t.entries.flatMap Event.laidDown).length)
            (following.drop taken) rfl with ⟨hsame, hrecords⟩ | ⟨hrecords, operand, problem, h⟩
          · rw [hsame, hquiet, hrecords]
            exact .inl ⟨rfl, rfl⟩
          · rw [hquiet, hrecords]
            exact .inr ⟨rfl, operand, problem,
              List.mem_cons_of_mem s (List.mem_of_mem_drop h.operand_mem), h.misfit, h.outcome_eq,
              h.head_eq⟩
      | @stopped before after operand problem w outcome hbefore hoperand hmisfit hwarning =>
        -- the lenient run may go on, but its first record is the warning
        have hbefore : before.filterMap Event.record? = [] := hbefore
        have hfirst : ((before ++ .record w :: after).filterMap Event.record?).head? = some w := by
          rw [List.filterMap_append, hbefore]
          rfl
        refine .inr ⟨hbefore, operand, problem, List.mem_cons_of_mem s hoperand, hmisfit, rfl, w,
          hwarning, ?_⟩
        cases outcome with
        | error failure => exact hfirst
        | ok taken => exact List.head?_append.trans (by rw [hfirst]; rfl)

/-- A program is encoded alike in both modes and without a warning, or the strict mode stops. -/
theorem generate_stricter (g : Generator) (p : Program) :
    (g.generate true p = g.generate false p ∧
      ∀ r ∈ (g.generate false p).records, r.level ≠ .warning) ∨
    ∃ operand ∈ p.symbols, ∃ problem w later, Misfit operand problem ∧
      warning problem operand = .ok w ∧ (g.generate false p).records = w :: later ∧
      (g.generate true p).records = [] ∧
      (g.generate true p).outcome = .error (.diagnostic ⟨problem, operand.location, none⟩) := by
  -- a lenient run may have one more record behind those of the statements, which is no warning
  obtain ⟨last, hlast, hdebug⟩ := g.exists_records_generate false p
  -- what holds of the streams holds of what the generator makes of them
  rcases encodeFrom_stricter 0 p.symbols with ⟨hsame, hrecords⟩ | ⟨hrecords, operand, problem, h⟩
  · refine .inl ⟨g.generate_congr hsame, ?_⟩
    rw [hlast, hrecords, List.nil_append]
    intro r hr
    rw [hdebug r hr]
    decide
  · obtain ⟨w, hwarning, hhead⟩ := h.head_eq
    obtain ⟨later, hlater⟩ := List.head?_eq_some_iff.1 hhead
    refine .inr ⟨operand, h.operand_mem, problem, w, later ++ last, h.misfit, hwarning, ?_, ?_, ?_⟩
    · rw [hlast, hlater, List.cons_append]
    · rw [Generator.generate_of_error h.outcome_eq]
      exact hrecords
    · rw [Generator.generate_of_error h.outcome_eq]

/-! ### The phases before -/

/-- The computation records steps of the work only. -/
def Uneventful {α : Type} (t : Logged α) : Prop := ∀ r ∈ t.entries, r.level = .debug

namespace Uneventful

variable {α β : Type}

theorem lift (x : Except Failure α) : Uneventful (liftM x : Logged α) := nofun

theorem result (a : α) : Uneventful (pure a : Logged α) := nofun

theorem debug (message : String) : Uneventful (Logged.debug message) := by
  intro r hr
  rw [List.mem_singleton.1 hr]

/-- A sequence of uneventful parts. -/
theorem bind {t : Logged α} {f : α → Logged β} (ht : Uneventful t) (hf : ∀ a, Uneventful (f a)) :
    Uneventful (t >>= f) := by
  intro r hr
  rw [Trace.entries_bind] at hr
  rcases List.mem_append.1 hr with hr | hr
  · exact ht r hr
  · -- the second part has records only if it is reached
    split at hr
    · next a _ => exact hf a r hr
    · cases hr

/-- The last record of layout is its size. -/
theorem finish (address : Nat) (tags : Table Value) (definitions : Table (Option Location)) :
    Uneventful (Layout.finish address tags definitions) :=
  (lift _).bind fun _ => (debug _).bind fun _ => result _

/-- Layout records labels and its size. -/
theorem placeFrom (address : Nat) (tags : Table Value) (definitions : Table (Option Location))
    (symbols : List Symbol) : Uneventful (Layout.placeFrom address tags definitions symbols) := by
  fun_induction Layout.placeFrom address tags definitions symbols with
  | case1 | case2 => exact finish _ _ _
  | case3 _ _ _ _ _ _ _ ih =>
    exact (lift _).bind fun _ => (lift _).bind fun _ => (debug _).bind fun _ => ih
  -- a colon behind no name ends the layout without a record
  | case4 => exact List.forall_mem_nil _
  | case5 _ _ _ _ _ _ _ ih => exact (lift _).bind fun next => (ih next).bind fun _ => result _

/-- A round records the constants that it finds. -/
theorem define (tags : Table Value) (definitions : Table (Option Location))
    (symbols : List Symbol) : Uneventful (Resolution.define tags definitions symbols) := by
  induction tags, definitions, symbols using Resolution.define.induct with
  | case1 tags definitions =>
    rw [Resolution.define]
    exact result _
  | case2 tags definitions s following ih ihrest =>
    rw [Resolution.define]
    refine (lift _).bind fun role => ?_
    cases role with
    | plain => exact ih.bind fun _ => result _
    | pending => exact ih.bind fun _ => result _
    -- a constant that is found is recorded, and taken out
    | literal n =>
      refine (lift _).bind fun _ => (debug _).bind fun _ => ?_
      rcases following with _ | ⟨_, _ | ⟨_, rest⟩⟩
      · exact result _
      · exact result _
      · exact (ihrest n).bind fun _ => result _

theorem round (p : Program) : Uneventful (Resolution.round p) :=
  (define _ _ _).bind fun _ => (lift _).bind fun _ => (lift _).bind fun _ => result _

/-- Any number of rounds. -/
theorem settle (rounds : Nat) (p : Program) : Uneventful (Resolution.settle rounds p) := by
  -- by the weight of the stream, which every round that changes something makes smaller
  induction hn : Resolution.weight p.symbols using Nat.strongRecOn generalizing rounds p with
  | ind n ih =>
    rw [Resolution.settle]
    split
    · exact round p
    · next r hr =>
      split
      · next hprogress =>
        intro e he
        -- the records of this round, and those of the rounds behind it
        rcases List.mem_append.1 he with he | he
        · exact round p e he
        · exact ih _ (hn ▸ Resolution.weight_round_lt hr hprogress) _ _ rfl e he
      · exact round p

theorem recordTags (tags : Table Value) : Uneventful (Resolution.recordTags tags) := by
  induction tags with
  | nil => exact result _
  | cons tag tags ih => exact (lift _).bind fun _ => (debug _).bind fun _ => ih

theorem resolve (p : Program) : Uneventful (Resolution.resolve p) :=
  (settle 0 p).bind fun _ => (debug _).bind fun _ => (lift _).bind fun _ =>
    (recordTags _).bind fun _ => result _

/-- Reading, grouping, layout and resolution together are uneventful. -/
theorem resolved (source : Source) : Uneventful (Assembler.resolved source) := by
  refine Uneventful.bind (.bind ?_ fun symbols => .bind ?_ fun grouped => placeFrom _ _ _ _) resolve
  · exact (lift _).bind fun _ => (debug _).bind fun _ => result _
  · exact (debug _).bind fun _ => result _

/-- **No phase before the encoding** writes a warning. -/
theorem frontEnd (level : Level) (source : Source) :
    Uneventful (Assembler.frontEnd level source) := by
  have hresolved : Uneventful (do
      let program ← Assembler.resolved source
      Logged.debug ("Resolved stream: " ++ spelled program.symbols)
      return program) :=
    (resolved source).bind fun _ => (debug _).bind fun _ => result _
  unfold Assembler.frontEnd
  refine (debug _).bind fun _ => ?_
  dsimp only
  split
  · exact (lift _).bind fun _ => (debug _).bind fun _ => hresolved
  · exact hresolved

end Uneventful

/-! ### Symbols keep their locations -/

/-- Every symbol has a location. -/
def Located (symbols : List Symbol) : Prop := ∀ s ∈ symbols, ∃ l, s.location = some l

/-- **Every symbol of a resolved program** has a location, for it stands where a token begins. -/
theorem Located.frontEnd {level : Level} {source : Source} {p : Program}
    (h : (Assembler.frontEnd level source).outcome = .ok p) : Located p.symbols := by
  obtain ⟨hgenuine, -⟩ := (Assembler.frontEnd_ends source level).of_ok h
  intro s hs
  obtain ⟨l, hl, -⟩ := (hgenuine.symbols s hs).place
  exact ⟨l, hl⟩

/-! ### Whole runs -/

/-- There is no warning among the records. -/
def Silent (records : List Record) : Prop := ∀ r ∈ records, r.level ≠ .warning

theorem Uneventful.silent {α : Type} {t : Logged α} (h : Uneventful t) : Silent t.entries := by
  intro r hr hwarning
  cases (h r hr).symm.trans hwarning

/-- The part of some records before their first warning. -/
theorem eq_of_silent {before before' after after' : List Record} {w w' : Record}
    (h : before ++ w :: after = before' ++ w' :: after') (hbefore : Silent before)
    (hbefore' : Silent before') (hw : w.level = .warning) (hw' : w'.level = .warning) :
    before = before' ∧ w = w' := by
  induction before generalizing before' with
  | nil =>
    cases before' with
    | nil => exact ⟨rfl, (List.cons.inj h).1⟩
    | cons r before' =>
      cases (List.cons.inj h).1
      -- a warning stands in a part that has none
      exact absurd hw (hbefore' w List.mem_cons_self)
  | cons r before ih =>
    cases before' with
    | nil =>
      cases (List.cons.inj h).1
      exact absurd hw' (hbefore w' List.mem_cons_self)
    | cons r' before' =>
      obtain ⟨rfl, hrest⟩ := List.cons.inj h
      obtain ⟨rfl, hsame⟩ := ih hrest (List.forall_mem_cons.1 hbefore).2
        (List.forall_mem_cons.1 hbefore').2
      exact ⟨rfl, hsame⟩

section Runs

open Assembler

variable {lenient strict : Assembler} (hlenient : lenient.settings.strict = false)
  (hstrict : strict.settings.strict = true) {level : Level} {source : Source}

include hlenient hstrict

/-- Two runs without a warning are the same. -/
theorem assemble_agree {p : Program} (hfront : (frontEnd level source).outcome = .ok p)
    (hsame : Generator.unused.generate true p = Generator.unused.generate false p)
    (hsilent : Silent (Generator.unused.generate false p).records) :
    Silent (lenient.assemble level source).records ∧
      (strict.assemble level source).outcome = (lenient.assemble level source).outcome ∧
      (strict.assemble level source).records = (lenient.assemble level source).records ∧
      (strict.assemble level source).state.generator =
        (lenient.assemble level source).state.generator := by
  have hentries := (Uneventful.frontEnd level source).silent
  unfold assemble
  simp only [hfront, hlenient, hstrict]
  rw [Generator.generate_eq strict.generator.reset .unused,
    Generator.generate_eq lenient.generator.reset .unused, hsame]
  cases (Generator.unused.generate false p).outcome with
  | error failure => exact ⟨List.forall_mem_append.2 ⟨hentries, hsilent⟩, rfl, rfl, rfl⟩
  | ok code =>
    have hdone {message : String} : Silent [⟨.info, message⟩] := List.forall_mem_singleton.2 nofun
    have hboth := List.forall_mem_append.2 ⟨hentries, hsilent⟩
    exact ⟨List.forall_mem_append.2 ⟨hboth, hdone⟩, rfl, rfl, rfl⟩

omit hstrict in
/-- The first warning of a lenient run comes right behind the records of the front end. -/
theorem records_of_warning {p : Program} (hfront : (frontEnd level source).outcome = .ok p)
    {w : Record} {later : List Record}
    (hlater : (Generator.unused.generate false p).records = w :: later) :
    ∃ after, (lenient.assemble level source).records =
      (frontEnd level source).entries ++ w :: after := by
  unfold assemble
  simp only [hfront, hlenient]
  rw [Generator.generate_eq lenient.generator.reset .unused, hlater]
  cases (Generator.unused.generate false p).outcome with
  | error failure => exact ⟨later, rfl⟩
  | ok code => exact ⟨_, List.append_assoc ..⟩

omit hlenient in
/-- A strict run that stops has no more records than those. -/
theorem records_of_stopped {p : Program} (hfront : (frontEnd level source).outcome = .ok p)
    (hnone : (Generator.unused.generate true p).records = []) {failure : Failure}
    (hfailure : (Generator.unused.generate true p).outcome = .error failure) :
    (strict.assemble level source).records = (frontEnd level source).entries ∧
      (strict.assemble level source).outcome = .error failure := by
  unfold assemble
  simp only [hfront, hstrict]
  rw [Generator.generate_eq strict.generator.reset .unused, hnone, hfailure, List.append_nil]
  exact ⟨rfl, rfl⟩

/-- The two runs agree, or the strict one stops at the first warning. -/
theorem assemble_cases (level : Level) (source : Source) :
    (Silent (lenient.assemble level source).records ∧
      (strict.assemble level source).outcome = (lenient.assemble level source).outcome ∧
      (strict.assemble level source).records = (lenient.assemble level source).records ∧
      (strict.assemble level source).state.generator =
        (lenient.assemble level source).state.generator) ∨
    ∃ p operand l problem w after, (frontEnd level source).outcome = .ok p ∧
      operand ∈ p.symbols ∧ operand.location = some l ∧ Misfit operand problem ∧
      w = ⟨.warning, l.text ++ ": " ++ problem.message ++ "; truncated"⟩ ∧
      (lenient.assemble level source).records = (frontEnd level source).entries ++ w :: after ∧
      (strict.assemble level source).records = (frontEnd level source).entries ∧
      (strict.assemble level source).outcome = .error (.diagnostic ⟨problem, some l, none⟩) := by
  cases hfront : (frontEnd level source).outcome with
  -- a failure of the front end comes before the modes matter
  | error failure =>
    have hentries := (Uneventful.frontEnd level source).silent
    unfold assemble
    simp only [hfront]
    exact .inl ⟨hentries, trivial, trivial, rfl⟩
  | ok p =>
    rcases generate_stricter .unused p with ⟨hsame, hsilent⟩ |
      ⟨operand, hoperand, problem, w, later, hmisfit, hwarning, hlater, hnone, houtcome⟩
    · exact .inl (assemble_agree hlenient hstrict hfront hsame hsilent)
    · -- the operand has a location, so the warning begins with it
      obtain ⟨l, hl⟩ := Located.frontEnd hfront operand hoperand
      obtain ⟨after, hrecords⟩ := records_of_warning hlenient hfront hlater
      obtain ⟨hrecords', houtcome⟩ := records_of_stopped hstrict hfront hnone houtcome
      rw [warning_eq, hl] at hwarning
      split at hwarning
      · rw [hl] at houtcome
        exact .inr ⟨p, operand, l, problem, w, after, rfl, hoperand, hl, hmisfit,
          (Except.ok.inj hwarning).symm, hrecords, hrecords', houtcome⟩
      · cases hwarning

end Runs

open Assembler in
/-- **A strict run is a lenient run without warnings.** The two agree on everything if the lenient
run writes no warning. If it does, the strict run stops at the first one, with the problem and at
the location of the operand that the warning is about. So a strict run succeeds exactly if the
lenient one does without a warning. -/
theorem strict_assemble {lenient strict : Assembler} (hlenient : lenient.settings.strict = false)
    (hstrict : strict.settings.strict = true) (level : Level) (source : Source) :
    ((∃ code, (strict.assemble level source).outcome = .ok code) ↔
      (∃ code, (lenient.assemble level source).outcome = .ok code) ∧
        ∀ r ∈ (lenient.assemble level source).records, r.level ≠ .warning) ∧
    ((∀ r ∈ (lenient.assemble level source).records, r.level ≠ .warning) →
      (strict.assemble level source).outcome = (lenient.assemble level source).outcome ∧
      (strict.assemble level source).records = (lenient.assemble level source).records ∧
      (strict.assemble level source).state.generator =
        (lenient.assemble level source).state.generator) ∧
    ∀ before w after, (lenient.assemble level source).records = before ++ w :: after →
      w.level = .warning → (∀ r ∈ before, r.level ≠ .warning) →
      ∃ p operand l problem, (frontEnd level source).outcome = .ok p ∧ operand ∈ p.symbols ∧
        operand.location = some l ∧ Misfit operand problem ∧ problem.category = .expression ∧
        (strict.assemble level source).outcome = .error (.diagnostic ⟨problem, some l, none⟩) ∧
        (strict.assemble level source).records = before ∧
        w.message = l.text ++ ": " ++ problem.message ++ "; truncated" := by
  -- the runs agree, or the strict one stops; in the second case the lenient run has a warning
  rcases assemble_cases hlenient hstrict level source with
    ⟨hsilent, houtcome, hrecords, hgenerator⟩ |
    ⟨p, operand, l, problem, w, after, hfront, hoperand, hl, hmisfit, rfl, hlater, hrecords,
      houtcome⟩
  · refine ⟨?_, fun _ => ⟨houtcome, hrecords, hgenerator⟩, ?_⟩
    · rw [houtcome]
      exact ⟨fun h => ⟨h, hsilent⟩, fun h => h.1⟩
    · intro before w after hlater hw
      have hmem : w ∈ (lenient.assemble level source).records := by simp [hlater]
      exact absurd hw (hsilent w hmem)
  · have hwarned : ¬ Silent (lenient.assemble level source).records := by
      intro hsilent
      exact hsilent _ (by rw [hlater]; exact List.mem_append_right _ List.mem_cons_self) rfl
    refine ⟨?_, fun hsilent => absurd hsilent hwarned, ?_⟩
    · rw [houtcome]
      exact ⟨nofun, fun h => absurd h.2 hwarned⟩
    · intro before w' after' hlater' hw' hbefore
      -- the given warning is the first one, and so is the one at which the strict run stops
      have hentries := (Uneventful.frontEnd level source).silent
      obtain ⟨rfl, rfl⟩ := eq_of_silent (hlater'.symm.trans hlater) hbefore hentries hw' rfl
      exact ⟨p, operand, l, problem, hfront, hoperand, hl, hmisfit, hmisfit.category, houtcome,
        hrecords, rfl⟩

/-! ### A byte that is too large -/

/-- A program with a value that does not fit. -/
def wideByte : Source where
  text := ".byte 300".toList
  file := "p.asm"

/-- The resolved program. -/
def wideByteResolved : Program :=
  ⟨[⟨.directive, ".byte", none, inFirstLine 1⟩, ⟨.integer, "300", some 300, inFirstLine 7⟩], [], []⟩

/-- The value is not looked at before the code is made. -/
theorem frontEnd_wideByte : (Assembler.frontEnd .info wideByte).outcome = .ok wideByteResolved := by
  have hsymbols : wideByte.symbols = .ok wideByteResolved.symbols := by cbv
  have hplaced : (Assembler.placed wideByte).outcome = .ok wideByteResolved := by
    rw [placed_of_symbols hsymbols]
    cbv
  have hround : (Resolution.round wideByteResolved).outcome =
      .ok ⟨wideByteResolved, false, []⟩ := by cbv
  exact Assembler.frontEnd_of_placed (by decide) hplaced
    (Resolution.resolve_of_rest hround rfl rfl (by cbv))

/-- What a lenient run says about it. -/
def wideByteWarning : Record :=
  ⟨.warning, "p.asm:1:7: value 300 does not fit in 8 bits; truncated"⟩

/-- The lenient run begins with the warning. -/
theorem records_wideByte :
    ∃ later, (Generator.unused.generate false wideByteResolved).records =
      wideByteWarning :: later := by
  have hstatement : statement false 0 ⟨.directive, ".byte", none, inFirstLine 1⟩
      [⟨.integer, "300", some 300, inFirstLine 7⟩] =
        ⟨[.record wideByteWarning, .bytes [44]], .ok 1⟩ := rfl
  have hencode : (encodeFrom false 0 wideByteResolved.symbols).records = [wideByteWarning] := by
    rw [wideByteResolved, encodeFrom, hstatement]
    dsimp only
    rw [List.drop_succ_cons, List.drop_nil, encodeFrom]
    rfl
  obtain ⟨last, hlast, -⟩ := Generator.unused.exists_records_generate false wideByteResolved
  exact ⟨last, by rw [hlast, hencode, List.singleton_append]⟩

/-- The strict run stops with what the warning says. -/
theorem wideByte_stops : ∃ l problem,
    ((Assembler.ofSettings { strict := true }).assemble .info wideByte).outcome =
      .error (.diagnostic ⟨problem, some l, none⟩) ∧ problem.category = .expression ∧
    "p.asm:1:7: value 300 does not fit in 8 bits; truncated" =
      l.text ++ ": " ++ problem.message ++ "; truncated" := by
  obtain ⟨later, hlater⟩ := records_wideByte
  have hlenient : (Assembler.ofSettings {}).settings.strict = false := rfl
  have hstrict : (Assembler.ofSettings { strict := true }).settings.strict = true := rfl
  obtain ⟨after, hrecords⟩ := records_of_warning hlenient frontEnd_wideByte hlater
  have hsilent := (Uneventful.frontEnd .info wideByte).silent
  -- the first warning stands behind the silent records of the front end
  obtain ⟨-, -, hstops⟩ := strict_assemble hlenient hstrict .info wideByte
  obtain ⟨p, operand, l, problem, -, -, -, -, hcategory, houtcome, -, hmessage⟩ :=
    hstops _ wideByteWarning after hrecords rfl hsilent
  exact ⟨l, problem, houtcome, hcategory, hmessage⟩

end RomAsm
