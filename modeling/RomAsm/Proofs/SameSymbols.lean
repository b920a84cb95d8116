import Mathlib.Algebra.Group.End
import Mathlib.Logic.Equiv.Fintype
import RomAsm.Proofs.Agreement
import RomAsm.Proofs.LogLevel
import RomAsm.Proofs.Positions
import RomAsm.Proofs.Relocation

/-!
# Sources with the same symbols

Two sources that differ in their layout, their comments and the names of their files have the same
symbols at other locations. No two symbols of a source stand at the same place, so there is a
relocation that takes the symbols of one to those of the other. Moving a program moves what becomes
of it, and the code has no locations in it.

* `Parallel` relates the encoding of a statement to that of the statement moved;
* `encodeFrom_moved`, `generate_moved` — the code is the same;
* `exists_relocation` — there is a relocation between two sources with the same symbols;
* `assemble_of_alike` — what such sources are assembled to.
-/

namespace RomAsm

namespace Relocation

variable (r : Relocation) {α β γ : Type}

/-! ### Generation -/

section Generation

open Generation

/-- Two computations lay down the same bytes and end alike. Their records may differ. -/
structure Parallel (f : α → β) (t : Emission α) (t' : Emission β) : Prop where
  laid : t'.entries.flatMap Event.laidDown = t.entries.flatMap Event.laidDown
  outcome : t'.outcome = r.moved f t.outcome

variable {r}

theorem Parallel.lift {x : Except Failure α} {x' : Except Failure β} {f : α → β}
    (h : x' = r.moved f x) : r.Parallel f (liftM x) (liftM x') := ⟨rfl, h⟩

theorem Parallel.result {a : α} {b : β} {f : α → β} (h : b = f a) :
    r.Parallel f (pure a) (pure b) := ⟨rfl, congrArg Except.ok h⟩

theorem Parallel.emit (bytes : List UInt8) : r.Parallel id (emit bytes) (emit bytes) := ⟨rfl, rfl⟩

/-- A problem that mentions no location, reported at a location and at the moved one. -/
theorem Parallel.report {p : Problem} (hp : r.problem p = p) (l : Option Location) (f : α → β) :
    r.Parallel f (throw (.report p l)) (throw (.report p (l.map r.move))) :=
  ⟨rfl, r.report_moved hp l f⟩

/-- **Sequences run in parallel if their parts do.** -/
theorem Parallel.bind {δ : Type} {t : Emission α} {t' : Emission β} {f : α → Emission γ}
    {f' : β → Emission δ} {g : α → β} {h : γ → δ} (ht : r.Parallel g t t')
    (hf : ∀ a, t.outcome = .ok a → r.Parallel h (f a) (f' (g a))) :
    r.Parallel h (t >>= f) (t' >>= f') := by
  -- the second parts run in both or in neither, since the first parts end alike
  have houtcome := ht.outcome
  refine ⟨?_, ?_⟩
  · rw [Trace.entries_bind, Trace.entries_bind, List.flatMap_append, List.flatMap_append, ht.laid]
    congr 1
    cases hresult : t.outcome with
    | error e =>
      rw [hresult] at houtcome
      rw [houtcome]
      rfl
    | ok a =>
      rw [hresult] at houtcome
      rw [houtcome]
      exact (hf a hresult).laid
  · rw [Trace.outcome_bind, Trace.outcome_bind]
    exact r.bind_moved houtcome fun a ha => (hf a ha).outcome

/-- A value out of range stops both runs if they are strict, and neither if they are not. -/
theorem report_parallel {p : Problem} (hp : r.problem p = p) (strict : Bool) (operand : Symbol) :
    r.Parallel id (report strict p operand) (report strict p (r.symbol operand)) := by
  cases strict with
  | true => exact .report hp operand.location id
  | false =>
    -- a warning is written in both or in neither, and it lays down no bytes
    change r.Parallel id (do let w ← warning p operand; Trace.write (.record w))
      (do let w ← warning p (r.symbol operand); Trace.write (.record w))
    unfold warning
    rw [location_symbol]
    cases operand.location with
    | none => exact ⟨rfl, rfl⟩
    | some l =>
      -- a moved location can be written if the location can
      rw [Option.map_some, placeText, placeText, Location.written, Location.written,
        r.isWritable_move]
      split <;> exact ⟨rfl, rfl⟩

/-- The value that goes into a field is the same. -/
theorem inRange_parallel (strict : Bool) (operand : Symbol) (bits : Nat) :
    r.Parallel id (inRange strict operand bits) (inRange strict (r.symbol operand) bits) := by
  unfold inRange
  rw [value_symbol]
  cases operand.value with
  | none => exact ⟨rfl, rfl⟩
  | some n =>
    dsimp only
    -- in range, or not
    split
    · exact .result rfl
    · exact (Parallel.lift (r.numeral_moved n)).bind fun _ _ =>
        (report_parallel rfl strict operand).bind fun _ _ => .result rfl

/-- Zeros are laid down, or are too many, whatever the locations. -/
theorem emitZeros_parallel (count : Nat) :
    r.Parallel id (emitZeros count) (emitZeros count) := by
  unfold emitZeros
  split <;> exact ⟨rfl, rfl⟩

/-- An operand that is no number is reported where it stands, or where it should stand. -/
theorem number_moved (owner : Symbol) (operand : Option Symbol) :
    number (r.symbol owner) (operand.map r.symbol) = r.moved r.symbol (number owner operand) := by
  cases operand with
  | none => exact r.report_moved rfl owner.location r.symbol
  | some s =>
    change (if s.isInteger then _ else _) = r.moved r.symbol (if s.isInteger then _ else _)
    rw [moved_ite]
    congr 1
    exact r.report_moved rfl s.location r.symbol

/-- Whether the next symbol is a marker of some mode is told by its kind and its text. -/
theorem isMarked_moved (mode : Machine.Mode) (following : List Symbol) :
    isMarked mode (following.map r.symbol) = r.moved id (isMarked mode following) := by
  match following with
  | [] => rfl
  | s :: _ => exact r.mode?_moved s _

/-- An instruction lays down the same bytes wherever it stands. -/
theorem instruction_parallel (strict : Bool) (mnemonic : Symbol) (following : List Symbol) :
    r.Parallel id (Generation.instruction strict mnemonic following)
      (Generation.instruction strict (r.symbol mnemonic) (following.map r.symbol)) := by
  -- all that is looked up is moved along; the mode decides which field is laid down
  refine (Parallel.lift (r.mode_moved mnemonic following)).bind fun mode _ => ?_
  refine (Parallel.lift (r.instruction_moved mnemonic following)).bind fun i _ => ?_
  refine (Parallel.emit [i.opcode]).bind fun _ _ => ?_
  cases mode with
  | direct =>
    have hnumber := r.number_moved mnemonic following.head?
    rw [← List.head?_map] at hnumber
    exact (Parallel.lift hnumber).bind fun operand _ =>
      (inRange_parallel strict operand _).bind fun n _ =>
        (Parallel.emit _).bind fun _ _ => .result rfl
  -- here the number stands behind the sign
  | immediate =>
    have hnumber := r.number_moved mnemonic following[1]?
    rw [← List.getElem?_map] at hnumber
    exact (Parallel.lift hnumber).bind fun operand _ =>
      (inRange_parallel strict operand _).bind fun n _ =>
        (Parallel.emit _).bind fun _ _ => .result rfl
  | accumulator =>
    exact (Parallel.lift (isMarked_moved .accumulator following)).bind fun _ _ => .result rfl
  | stack => exact (Parallel.lift (isMarked_moved .stack following)).bind fun _ _ => .result rfl
  | inherent => exact .result rfl

/-- So do the characters of a string, one by one. Each of them may be out of range. -/
theorem characters_parallel (strict : Bool) (operand : Symbol) (text : List Char) :
    r.Parallel id (characters strict operand text)
      (characters strict (r.symbol operand) text) := by
  induction text with
  | nil => exact .result rfl
  | cons c rest ih =>
    have hemitted : r.Parallel id
        (do Generation.emit (Field.immediate c.toNat); characters strict operand rest)
        (do Generation.emit (Field.immediate c.toNat); characters strict (r.symbol operand) rest) :=
      (Parallel.emit _).bind fun _ _ => ih
    unfold characters
    dsimp only
    split
    · exact (report_parallel rfl strict operand).bind fun _ _ => hemitted
    · exact hemitted

/-- So do the directives. -/
theorem directive_parallel (strict : Bool) (address : Nat) (d : Symbol) (following : List Symbol) :
    r.Parallel id (directive strict address d following)
      (directive strict address (r.symbol d) (following.map r.symbol)) := by
  unfold directive
  rw [text_symbol]
  split
  · -- `.reserve`
    exact (Parallel.lift (r.reserve_moved d following)).bind fun count _ => emitZeros_parallel count
  · -- `.org`
    refine (Parallel.lift (r.origin_moved d following)).bind fun target _ => ?_
    dsimp only [id]
    split
    · exact .report rfl d.location id
    · exact emitZeros_parallel _
  · -- `.byte`
    have hnumber := r.number_moved d following.head?
    rw [← List.head?_map] at hnumber
    exact (Parallel.lift hnumber).bind fun operand _ =>
      (inRange_parallel strict operand _).bind fun n _ => .emit _
  · -- `.string`
    exact (Parallel.lift (r.string_moved d following)).bind fun text _ =>
      (Parallel.lift (r.first_moved d following)).bind fun operand _ =>
        (characters_parallel strict operand _).bind fun _ _ => .emit _
  · -- `.data`
    exact (Parallel.lift (r.data_moved d following)).bind fun operand _ =>
      (Parallel.lift (r.mapError_numeral_moved _)).bind fun bytes _ => .emit _
  · exact .report rfl d.location id

/-- **One statement** lays down the same bytes at other locations, and takes equally many
symbols. -/
theorem statement_parallel (strict : Bool) (address : Nat) (s : Symbol) (following : List Symbol) :
    r.Parallel id (statement strict address s following)
      (statement strict address (r.symbol s) (following.map r.symbol)) := by
  -- what is laid down, by the kind of the head
  have hencode : r.Parallel id (encode strict address s following)
      (encode strict address (r.symbol s) (following.map r.symbol)) := by
    unfold encode
    rw [kind_symbol]
    split
    · exact instruction_parallel strict s following
    · exact (directive_parallel strict address s following).bind fun _ _ => .result rfl
    · exact .report rfl s.location id
  refine hencode.bind fun taken _ => ?_
  rw [location_symbol]
  cases s.location with
  | none => exact (Parallel.lift (r.numeral_moved 0)).bind fun _ _ => .result rfl
  | some l =>
    -- the line is written only to see whether it can be
    have hline : numeral (r.move l).line =
        r.moved (fun _ => Numeral.decimal (r.move l).line) (numeral l.line) := by
      unfold numeral Numeral.written
      rw [r.isWritable_line]
      split <;> rfl
    exact (Parallel.lift hline).bind fun _ _ => .result rfl

variable (r)

/-- Moves the symbols of a statement. -/
def statement (x : Statement) : Statement := { x with symbols := x.symbols.map r.symbol }

/-- **The code** does not depend on locations. -/
theorem encodeFrom_moved (strict : Bool) (address : Nat) (symbols : List Symbol) :
    (encodeFrom strict address (symbols.map r.symbol)).statements =
        (encodeFrom strict address symbols).statements.map r.statement ∧
      (encodeFrom strict address (symbols.map r.symbol)).fragment =
        (encodeFrom strict address symbols).fragment ∧
      (encodeFrom strict address (symbols.map r.symbol)).outcome =
        r.moved id (encodeFrom strict address symbols).outcome := by
  -- by the length of the stream: how much of it a statement takes is known only from its encoding
  induction hn : symbols.length using Nat.strongRecOn generalizing address symbols with
  | ind n ih =>
    match symbols with
    | [] =>
      rw [List.map_nil, encodeFrom]
      exact ⟨rfl, rfl, rfl⟩
    | s :: following =>
      have hparallel := statement_parallel (r := r) strict address s following
      rw [List.map_cons, encodeFrom, encodeFrom]
      dsimp only
      rw [hparallel.laid, hparallel.outcome]
      cases Generation.statement strict address s following |>.outcome with
      | error failure => exact ⟨rfl, rfl, rfl⟩
      | ok taken =>
        have hlength : (following.drop taken).length < n := by
          simp only [List.length_drop, ← hn, List.length_cons]
          omega
        obtain ⟨hstatements, hfragment, houtcome⟩ := ih _ hlength (address + _) _ rfl
        rw [List.map_drop] at hstatements hfragment houtcome
        dsimp only [moved_ok, id]
        rw [hstatements, hfragment, houtcome, ← List.map_take]
        exact ⟨rfl, rfl, rfl⟩

/-- What a generator makes of a program is the same at other locations, or it fails at these. -/
theorem generate_moved (g : Generator) (strict : Bool) (p : Program) :
    (g.generate strict (r.program p)).outcome = r.moved id (g.generate strict p).outcome := by
  obtain ⟨hstatements, hfragment, houtcome⟩ := r.encodeFrom_moved strict 0 p.symbols
  have houtcome : (encodeFrom strict 0 (r.program p).symbols).outcome = _ := houtcome
  -- a run ends as its encoding does
  cases hencode : (encodeFrom strict 0 p.symbols).outcome with
  | ok _ =>
    rw [hencode] at houtcome
    rw [Generator.outcome_generate_ok.2 ⟨hencode, rfl⟩,
      Generator.outcome_generate_ok.2 ⟨houtcome, rfl⟩]
    -- the bytes are in the statements, beside the symbols
    simp only [reached, Encoded.bytes, program, hstatements, hfragment, List.flatMap_map]
    rfl
  | error failure =>
    rw [hencode] at houtcome
    rw [Generator.outcome_generate_error.2 hencode, Generator.outcome_generate_error.2 houtcome]
    rfl

/-- The names of a program that has code are kept with it. -/
theorem tags_generate {g : Generator} {strict : Bool} {p : Program} {code : List UInt8}
    (h : (g.generate strict p).outcome = .ok code) :
    (g.generate strict p).state.tags = p.tags := by
  obtain ⟨hencode, -⟩ := Generator.outcome_generate_ok.1 h
  rw [Generator.generate_of_ok hencode]
  rfl

end Generation

/-! ### The front end -/

/-- **The front end sees nothing of a source but its symbols**, at each level of the log. -/
theorem outcome_frontEnd_of_symbols {source : Source} {xs : List Symbol}
    (h : source.symbols = .ok xs) (level : Level) :
    (Assembler.frontEnd level source).outcome =
      (Layout.place (Grouping.grouped xs)).outcome >>= fun p => (Resolution.resolve p).outcome := by
  have hresolved : (Assembler.resolved source).outcome = _ := Trace.outcome_bind ..
  rw [placed_of_symbols h] at hresolved
  by_cases hlevel : level = .debug
  · -- a source with symbols has a normalized text
    cases hlexemes : source.lexemes with
    | error failure =>
      obtain ⟨f, hf⟩ := Source.exists_failure_of_lexemes hlexemes
      cases h.symm.trans hf
    | ok ls =>
      obtain ⟨text, htext⟩ := Source.exists_normalize hlexemes
      rw [hlevel, Assembler.outcome_frontEnd_debug, htext, ← hresolved]
      rfl
  · rw [Assembler.outcome_frontEnd hlevel, hresolved]

/-- **The front end** takes moved symbols to the moved program. -/
theorem frontEnd_moved {source other : Source} {xs : List Symbol} (h : source.symbols = .ok xs)
    (hother : other.symbols = .ok (xs.map r.symbol)) (level level' : Level) :
    (Assembler.frontEnd level' other).outcome =
      r.moved r.program (Assembler.frontEnd level source).outcome := by
  rw [outcome_frontEnd_of_symbols h, outcome_frontEnd_of_symbols hother, grouped_moved]
  exact r.bind_moved (r.placeFrom_moved 0 [] [] _) fun p _ => r.resolve_moved p

/-! ### There is a relocation -/

/-- A permutation of the locations that can be written, as a relocation. -/
def ofPerm (σ : Equiv.Perm { l : Location // l.isWritable = true }) : Relocation where
  move := Equiv.Perm.ofSubtype σ
  injective := Equiv.injective _
  isWritable_line l := by
    by_cases hl : l.isWritable = true
    · have hmoved := (σ ⟨l, hl⟩).2
      rw [Equiv.Perm.ofSubtype_apply_of_mem σ hl]
      rw [Location.isWritable, Bool.and_eq_true] at hl hmoved
      rw [hl.1, hmoved.1]
    · rw [Equiv.Perm.ofSubtype_apply_of_not_mem σ hl]
  isWritable_column l := by
    by_cases hl : l.isWritable = true
    · have hmoved := (σ ⟨l, hl⟩).2
      rw [Equiv.Perm.ofSubtype_apply_of_mem σ hl]
      rw [Location.isWritable, Bool.and_eq_true] at hl hmoved
      rw [hl.2, hmoved.2]
    · rw [Equiv.Perm.ofSubtype_apply_of_not_mem σ hl]

/-- A symbol that is like another one, at its moved location, is that symbol moved. -/
theorem eq_symbol_of_alike {x y : Symbol} (halike : x.alike y = true)
    (hlocation : y.location = x.location.map r.move) : y = r.symbol x := by
  obtain ⟨kind, text, value, location⟩ := x
  obtain ⟨kind', text', value', location'⟩ := y
  simp only [Symbol.alike, Bool.and_eq_true, beq_iff_eq] at halike
  obtain ⟨⟨rfl, rfl⟩, rfl⟩ := halike
  exact congrArg _ hlocation

/-- The places of symbols, none of which stand at the same place. -/
theorem exists_places {xs : List Symbol}
    (hplaced : ∀ x ∈ xs, ∃ l : Location, l.isWritable = true ∧ x.location = some l)
    (hnodup : (xs.map (·.location)).Nodup) :
    ∃ f : Fin xs.length → { l : Location // l.isWritable = true }, Function.Injective f ∧
      ∀ i, (xs.get i).location = some (f i).1 := by
  have hplace (i : Fin xs.length) : ∃ l : { l : Location // l.isWritable = true },
      (xs.get i).location = some l.1 := by
    obtain ⟨l, hl, hlocation⟩ := hplaced _ (xs.get_mem i)
    exact ⟨⟨l, hl⟩, hlocation⟩
  -- two symbols at the same place would be the same one
  choose f hf using hplace
  refine ⟨f, ?_, hf⟩
  intro i j hij
  have hlocation : (xs.get i).location = (xs.get j).location := by rw [hf, hf, hij]
  have hsymbol := List.inj_on_of_nodup_map hnodup (xs.get_mem i) (xs.get_mem j) hlocation
  exact List.nodup_iff_injective_get.1 (.of_map _ hnodup) hsymbol

/-- **Two lists of the same symbols** are moved into each other if neither has two symbols at the
same place. -/
theorem exists_relocation {xs ys : List Symbol}
    (halike : List.Forall₂ (fun x y => x.alike y = true) xs ys)
    (hxs : ∀ x ∈ xs, ∃ l : Location, l.isWritable = true ∧ x.location = some l)
    (hys : ∀ y ∈ ys, ∃ l : Location, l.isWritable = true ∧ y.location = some l)
    (hnodup : (xs.map (·.location)).Nodup) (hnodup' : (ys.map (·.location)).Nodup) :
    ∃ r : Relocation, ys = xs.map r.symbol := by
  obtain ⟨hlength, hsame⟩ := List.forall₂_iff_get.1 halike
  obtain ⟨f, hf, hplace⟩ := exists_places hxs hnodup
  obtain ⟨g, hg, hplace'⟩ := exists_places hys hnodup'
  -- a map between finitely many places extends to a permutation of all that can be written
  obtain ⟨σ, hσ⟩ := Equiv.Perm.exists_extending_pair f (g ∘ Fin.cast hlength) hf
    (hg.comp (Fin.cast_injective hlength))
  refine ⟨ofPerm σ, List.ext_getElem (by simpa using hlength.symm) fun i hi hi' => ?_⟩
  have hi' : i < xs.length := hlength ▸ hi
  have hlocation : ys[i].location = xs[i].location.map (ofPerm σ).move := by
    have hmove : Equiv.Perm.ofSubtype σ (f ⟨i, hi'⟩).1 = (g ⟨i, hi⟩).1 := by
      rw [Equiv.Perm.ofSubtype_apply_of_mem σ (f ⟨i, hi'⟩).2]
      exact congrArg Subtype.val (hσ ⟨i, hi'⟩)
    rw [show xs[i].location = some (f ⟨i, hi'⟩).1 from hplace ⟨i, hi'⟩,
      show ys[i].location = some (g ⟨i, hi⟩).1 from hplace' ⟨i, hi⟩, ← hmove]
    rfl
  -- symbol by symbol: alike, and the location is the moved one
  rw [List.getElem_map]
  exact (ofPerm σ).eq_symbol_of_alike (hsame i hi' hi) hlocation

/-! ### Failures that differ in their locations -/

theorem category_problem (p : Problem) : (r.problem p).category = p.category := by
  cases p <;> rfl

/-- The message is the same at other locations: the one that a problem can have is shown in its
hint. -/
theorem message_problem (p : Problem) : (r.problem p).message = p.message := by
  cases p <;> rfl

end Relocation

/-- Two failures are of the same kind and have the same message, up to the locations and the lines
shown in it. -/
def Failure.Alike : Failure → Failure → Prop
  | .diagnostic d, .diagnostic e =>
    d.problem.category = e.problem.category ∧ d.problem.message = e.problem.message
  | f, g => f = g

theorem Relocation.alike_failure (r : Relocation) (f : Failure) : f.Alike (r.failure f) := by
  cases f with
  | diagnostic d => exact ⟨(r.category_problem _).symm, (r.message_problem _).symm⟩
  | _ => rfl

/-- The symbols of a text whose lines and columns can be written. -/
theorem Source.exists_location_of_isWritable {text : List Char} {file : String}
    {markLimit : Option Nat} {xs : List Symbol}
    (hxs : Source.symbols { text, file, markLimit } = .ok xs)
    (htext : Numeral.isWritable (1 + text.length : Nat) = true) :
    ∀ x ∈ xs, ∃ l : Location, l.isWritable = true ∧ x.location = some l :=
  fun _ hx => (Source.symbols_stand hxs).isWritable
    ⟨Int.le_refl 1, Int.le_refl 1, Int.le_refl 1, Int.le_refl 1⟩ htext hx

/-- **Layout, comments and file names do not matter.** Two texts with the same symbols at other
places, given to two assemblers that are equally strict, have the same code and the same names in
the same order, or neither has code and they fail alike. No line or column of the texts is so large
that it could not be written. -/
theorem assemble_of_alike {text text' : List Char} {file file' : String}
    {markLimit markLimit' : Option Nat} {xs ys : List Symbol}
    (hxs : Source.symbols { text, file, markLimit } = .ok xs)
    (hys : Source.symbols { text := text', file := file', markLimit := markLimit' } = .ok ys)
    (halike : List.Forall₂ (fun x y => x.alike y = true) xs ys)
    (htext : Numeral.isWritable (1 + text.length : Nat) = true)
    (htext' : Numeral.isWritable (1 + text'.length : Nat) = true)
    {a b : Assembler} (hstrict : a.settings.strict = b.settings.strict) (level level' : Level) :
    let run := a.assemble level { text, file, markLimit }
    let run' := b.assemble level' { text := text', file := file', markLimit := markLimit' }
    (∃ code, run.outcome = .ok code ∧ run'.outcome = .ok code ∧ run.state.tags = run'.state.tags) ∨
      ∃ f g : Failure, run.outcome = .error f ∧ run'.outcome = .error g ∧ f.Alike g := by
  intro run run'
  obtain ⟨r, rfl⟩ := Relocation.exists_relocation halike
    (Source.exists_location_of_isWritable hxs htext)
    (Source.exists_location_of_isWritable hys htext')
    (Source.symbols_stand hxs).nodup (Source.symbols_stand hys).nodup
  -- the second source is the first one moved, and each phase can be moved
  have hfront := r.frontEnd_moved hxs hys level level'
  cases hsource : (Assembler.frontEnd level { text, file, markLimit }).outcome with
  | error f =>
    rw [hsource] at hfront
    exact .inr ⟨f, r.failure f, (Assembler.assemble_of_frontEnd hsource).2,
      (Assembler.assemble_of_frontEnd hfront).2, r.alike_failure f⟩
  | ok p =>
    rw [hsource] at hfront
    obtain ⟨hstate, houtcome⟩ := Assembler.assemble_of_frontEnd_ok (a := a) hsource .unused
    obtain ⟨hstate', houtcome'⟩ := Assembler.assemble_of_frontEnd_ok (a := b) hfront .unused
    rw [← hstrict] at hstate' houtcome'
    have hmoved := r.generate_moved .unused a.settings.strict p
    rw [hmoved] at houtcome'
    cases hgenerate : (Generator.unused.generate a.settings.strict p).outcome with
    | error f =>
      rw [hgenerate] at houtcome houtcome'
      exact .inr ⟨f, r.failure f, houtcome, houtcome', r.alike_failure f⟩
    | ok code =>
      rw [hgenerate] at houtcome houtcome' hmoved
      -- the names are those of the program, which have no locations
      have htags : run.state.tags = p.tags :=
        (congrArg Assembler.tags hstate).trans (Relocation.tags_generate hgenerate)
      have htags' : run'.state.tags = p.tags :=
        (congrArg Assembler.tags hstate').trans (Relocation.tags_generate hmoved)
      exact .inl ⟨code, houtcome, houtcome', htags.trans htags'.symm⟩

/-! ### A program in two layouts -/

/-- A loop over three lines, with a comment. -/
def spacious : List Char := "loop: // again\n\n  JMP   loop".toList

/-- The same loop in one line. -/
def dense : List Char := "loop:JMP loop".toList

/-- The symbols of the loop, at the given places. -/
def loopAt (label colon jump operand : Location) : List Symbol :=
  [⟨.identifier, "loop", none, some label⟩, ⟨.operator, ":", none, some colon⟩,
    ⟨.mnemonic, "JMP", none, some jump⟩, ⟨.identifier, "loop", none, some operand⟩]

/-- The comment and the blank line leave no symbols. -/
theorem symbols_spacious : Source.symbols { text := spacious, file := "a.asm" } =
    .ok (loopAt ⟨"a.asm", 1, 1⟩ ⟨"a.asm", 1, 5⟩ ⟨"a.asm", 3, 3⟩ ⟨"a.asm", 3, 9⟩) := by cbv

/-- Here the colon stands directly between two words. -/
theorem symbols_dense : Source.symbols { text := dense, file := "b.asm" } =
    .ok (loopAt ⟨"b.asm", 1, 1⟩ ⟨"b.asm", 1, 5⟩ ⟨"b.asm", 1, 6⟩ ⟨"b.asm", 1, 10⟩) := by cbv

/-- The first program with its label placed. -/
def spaciousPlaced : Program where
  symbols := [⟨.mnemonic, "JMP", none, some ⟨"a.asm", 3, 3⟩⟩,
    ⟨.identifier, "loop", none, some ⟨"a.asm", 3, 9⟩⟩]
  tags := [("loop", some 0)]
  definitions := [("loop", some ⟨"a.asm", 1, 1⟩)]

/-- The first program with its operand known. -/
def spaciousResolved : Program :=
  { spaciousPlaced with
    symbols := [⟨.mnemonic, "JMP", none, some ⟨"a.asm", 3, 3⟩⟩,
      ⟨.integer, "0", some 0, some ⟨"a.asm", 3, 9⟩⟩] }

/-- One round puts in the address, and the next one finds nothing to do. -/
theorem frontEnd_spacious :
    (Assembler.frontEnd .info { text := spacious, file := "a.asm" }).outcome =
      .ok spaciousResolved := by
  have hplaced : (Assembler.placed { text := spacious, file := "a.asm" }).outcome =
      .ok spaciousPlaced := by
    rw [placed_of_symbols symbols_spacious]
    cbv
  have hfirst : (Resolution.round spaciousPlaced).outcome = .ok ⟨spaciousResolved, true, []⟩ := by
    cbv
  have hlast : (Resolution.round spaciousResolved).outcome = .ok ⟨spaciousResolved, false, []⟩ := by
    cbv
  exact Assembler.frontEnd_of_placed (by decide) hplaced
    (Resolution.resolve_of_progress hfirst rfl hlast rfl rfl (by cbv))

/-- The code and the names of the loop in one line are those of the loop over three. -/
theorem dense_like_spacious :
    ((Assembler.ofSettings {}).assemble .debug { text := dense, file := "b.asm" }).outcome =
        .ok [0xa0, 0x00, 0x00] ∧
      ((Assembler.ofSettings {}).assemble .debug { text := dense, file := "b.asm" }).state.tags =
        [("loop", some 0)] := by
  have halike (label colon jump operand label' colon' jump' operand' : Location) :
      List.Forall₂ (fun x y => x.alike y = true) (loopAt label colon jump operand)
        (loopAt label' colon' jump' operand') :=
    .cons rfl (.cons rfl (.cons rfl (.cons rfl .nil)))
  have hcode : (Generator.unused.generate false spaciousResolved).outcome =
      .ok [0xa0, 0x00, 0x00] := by cbv
  obtain ⟨hstate, houtcome⟩ :=
    Assembler.assemble_of_frontEnd_ok (a := .ofSettings {}) frontEnd_spacious .unused
  -- the first loop is known to be assembled, so both are
  rcases assemble_of_alike symbols_spacious symbols_dense (halike ..) (by decide) (by decide)
    (a := .ofSettings {}) (b := .ofSettings {}) rfl .info .debug with
    ⟨code, hspacious, hdense, htags⟩ | ⟨f, g, hspacious, -⟩
  · obtain rfl := Except.ok.inj ((houtcome.trans hcode).symm.trans hspacious)
    refine ⟨hdense, htags.symm.trans ?_⟩
    rw [hstate]
    exact Relocation.tags_generate hcode
  · cases (houtcome.trans hcode).symm.trans hspacious

end RomAsm
