import RomAsm.Proofs.Element

/-!
# Programs with and without locations

A program is written down without locations, and read with them. `relocate` changes the places of an
expression or of a definition, and `Element.relocate` those of an element; nothing that counts
depends on them: neither names and values of an expression (`names_relocate`, `eval_relocate`) nor
the values that follow from some definitions (`hasValue_relocate`).

`exists_located` goes the other way. A stream of symbols that is, but for the locations, what a
program is written as, is what a program with locations is written as. That program is the same but
for the places.
-/

namespace RomAsm

variable {π π' : Type}

/-! ### Expressions -/

namespace Expression

variable {r : Rank}

/-- An expression with other places. -/
def relocate (f : π → π') : {r : Rank} → Expression π r → Expression π' r
  | _, literal text n place => literal text n (f place)
  | _, name x place => name x (f place)
  | _, group opening e closing => group (f opening) (e.relocate f) (f closing)
  | _, ofAtom a => ofAtom (a.relocate f)
  | _, scaled p s place a => scaled (p.relocate f) s (f place) (a.relocate f)
  | _, ofProduct p => ofProduct (p.relocate f)
  | _, signed s place p => signed s (f place) (p.relocate f)
  | _, summed e s place p => summed (e.relocate f) s (f place) (p.relocate f)

/-- Whether the names of an expression are names, and its literals spell their values. -/
def Spelled : {r : Rank} → Expression π r → Prop
  | _, literal text n _ => ∃ u : Unsigned, u.text = text ∧ (u.value : Int) = n
  | _, name x _ => IsName x
  | _, group _ e _ => e.Spelled
  | _, ofAtom a => a.Spelled
  | _, scaled p _ _ a => p.Spelled ∧ a.Spelled
  | _, ofProduct p => p.Spelled
  | _, signed _ _ p => p.Spelled
  | _, summed e _ _ p => e.Spelled ∧ p.Spelled

variable (f : π → π')

@[simp] theorem names_relocate (e : Expression π r) : (e.relocate f).names = e.names := by
  induction e <;> simp_all [relocate, names]

/-- The value of an expression does not depend on where it stands. -/
@[simp] theorem eval_relocate (e : Expression π r) (ρ : String → Option Int) :
    (e.relocate f).eval ρ = e.eval ρ := by
  induction e <;> simp_all [relocate, eval]

/-- Nor do the numbers that come up on the way to it. -/
@[simp] theorem legible_relocate (e : Expression π r) (ρ : String → Option Int) :
    (e.relocate f).Legible ρ ↔ e.Legible ρ := by
  induction e <;> simp_all [relocate, Legible]

end Expression

/-! ### Definitions -/

/-- A definition with other places. -/
def Definition.relocate (f : π → π') (d : Definition π) : Definition π' :=
  ⟨d.name, f d.place, f d.equals, d.expression.relocate f⟩

/-- The values that follow from some definitions do not depend on where they stand. -/
theorem hasValue_relocate (f : π → π') {labels : Table Int} {definitions : List (Definition π)}
    {x : String} {n : Int} :
    HasValue labels (definitions.map (Definition.relocate f)) x n ↔
      HasValue labels definitions x n := by
  constructor
  · intro h
    induction h with
    | label h => exact .label h
    | constant hd _ h ih =>
      obtain ⟨d, hmem, rfl⟩ := List.mem_map.1 hd
      refine HasValue.constant (d := d) hmem ih ?_
      rw [← h]
      -- names and values are the same, only the places have changed
      exact (d.expression.eval_relocate f _).symm
  · intro h
    induction h with
    | label h => exact .label h
    | @constant d ρ n hd _ h ih =>
      refine .constant (List.mem_map_of_mem hd) ih ?_
      rw [← h]
      exact d.expression.eval_relocate f _

/-- A valuation is sound for some definitions wherever they stand. -/
theorem sound_relocate (f : π → π') {labels : Table Int} {definitions : List (Definition π)}
    {ρ : String → Option Int} :
    Sound labels (definitions.map (Definition.relocate f)) ρ ↔ Sound labels definitions ρ := by
  constructor
  · exact fun h x n hx => (hasValue_relocate f).1 (h x n hx)
  · exact fun h x n hx => (hasValue_relocate f).2 (h x n hx)

/-- And it solves them wherever they stand. -/
theorem solves_relocate (f : π → π') {labels : Table Int} {definitions : List (Definition π)}
    {ρ : String → Option Int} :
    Solves labels (definitions.map (Definition.relocate f)) ρ ↔ Solves labels definitions ρ := by
  have hvalue (d : Definition π) : (d.relocate f).expression.eval ρ = d.expression.eval ρ :=
    d.expression.eval_relocate f ρ
  -- the constants of one list are those of the other, with the same values
  constructor
  · rintro ⟨hlabels, hconstants⟩
    refine ⟨hlabels, fun d hd => ?_⟩
    obtain ⟨n, hn, heval⟩ := hconstants _ (List.mem_map_of_mem hd)
    exact ⟨n, hn, (hvalue d).symm.trans heval⟩
  · rintro ⟨hlabels, hconstants⟩
    refine ⟨hlabels, fun d' hd' => ?_⟩
    obtain ⟨d, hd, rfl⟩ := List.mem_map.1 hd'
    obtain ⟨n, hn, heval⟩ := hconstants d hd
    exact ⟨n, hn, (hvalue d).trans heval⟩

/-! ### Elements -/

/-- An element as it is read or written, with expressions as operands. -/
abbrev Element.Source (π : Type) : Type := Element π (Expression π .sum)

namespace Element

/-- An element with other places. -/
def relocate (f : π → π') : Element.Source π → Element.Source π' := map f (Expression.relocate f)

/-- The definition that an element is. -/
def definition? : Element.Source π → Option (Definition π)
  | constant name place equals e => some ⟨name, place, equals, e⟩
  | _ => none

/-- Whether the names of an element are names, and the literals of its operand spell their values.
-/
def Spelled : Element.Source π → Prop
  | label name _ _ => IsName name
  | constant name _ _ e => IsName name ∧ e.Spelled
  | instruction _ a _ _ => ∀ e ∈ a.operand?, e.Spelled
  | byte _ e => e.Spelled
  | _ => True

/-- The symbols of an element, as it is written. -/
def written (x : Element.Source (Option Location)) : List Symbol := x.symbols Expression.symbols

/-- The symbols of an element without any locations. -/
def tokens (x : Element.Source π) : List Symbol := (x.relocate fun _ => none).written

/-- A constant is the same definition, with its places changed. -/
theorem definition?_relocate (f : π → π') (x : Element.Source π) :
    (x.relocate f).definition? = x.definition?.map (Definition.relocate f) := by
  cases x <;> rfl

end Element

/-! ### Writing tokens -/

/-- Every operator is a character that is read as an operator. -/
theorem Operator.spelled_symbol (o : Operator) : (o.symbol none).Spelled := by
  rcases o with ⟨_ | _⟩ | ⟨_ | _ | _⟩
  · exact .operator (c := '+') rfl rfl
  · exact .operator (c := '-') rfl rfl
  · exact .operator (c := '*') rfl rfl
  · exact .operator (c := '/') rfl rfl
  · exact .operator (c := '%') rfl rfl

theorem Unsigned.spelled_symbol (u : Unsigned) : (u.symbol none).Spelled :=
  .integer u.spelled u.readable

/-- **An expression can be written down**: all its tokens are spelled. -/
theorem Expression.spelled_symbols {r : Rank} {e : Expression π r} (h : e.Spelled) :
    ∀ s ∈ (e.relocate fun _ => none).symbols, s.Spelled := by
  induction e with
  | literal text n place =>
    obtain ⟨u, rfl, rfl⟩ := h
    intro s hs
    rw [List.mem_singleton.1 hs]
    exact u.spelled_symbol
  | name x place =>
    intro s hs
    rw [List.mem_singleton.1 hs]
    exact .identifier h
  | group opening e closing ih =>
    intro s hs
    rcases List.mem_cons.1 hs with rfl | hs
    · exact .operator (c := '(') rfl rfl
    · rcases List.mem_append.1 hs with hs | hs
      · exact ih h s hs
      · rw [List.mem_singleton.1 hs]
        exact .operator (c := ')') rfl rfl
  | ofAtom a ih => exact ih h
  -- left operand, operator, right operand, in the order in which they are written
  | scaled p o place a ihp iha =>
    intro s hs
    rcases List.mem_append.1 hs with hs | hs
    · exact ihp h.1 s hs
    · rcases List.mem_cons.1 hs with rfl | hs
      · exact Operator.spelled_symbol _
      · exact iha h.2 s hs
  | ofProduct p ih => exact ih h
  | signed o place p ih =>
    intro s hs
    rcases List.mem_cons.1 hs with rfl | hs
    · exact Operator.spelled_symbol _
    · exact ih h s hs
  | summed e o place p ihe ihp =>
    intro s hs
    rcases List.mem_append.1 hs with hs | hs
    · exact ihe h.1 s hs
    · rcases List.mem_cons.1 hs with rfl | hs
      · exact Operator.spelled_symbol _
      · exact ihp h.2 s hs

/-- A string literal ends at its last quotation mark: every other one in it is escaped. -/
theorem closeString_stringBody (letters : List Letter) :
    closeString (stringBody letters) = some (stringBody letters, []) := by
  induction letters with
  | nil => rfl
  | cons l letters ih =>
    cases l with
    | plain c h =>
      -- a plain letter neither ends the literal nor begins an escape
      change closeString (c :: stringBody letters) = some (c :: stringBody letters, [])
      unfold closeString
      split
      · next e => cases e
      · next e => exact absurd (List.cons.inj e).1 h.1
      · next e => exact absurd (List.cons.inj e).1 h.2
      · next e =>
        cases e
        rw [ih]
        rfl
    -- the backslash and the character behind it are passed together
    | escape c =>
      change closeString ('\\' :: c :: stringBody letters) =
        some ('\\' :: c :: stringBody letters, [])
      rw [closeString, ih]
      rfl

/-- An expression that is a whole operand is spelled if its names are. -/
theorem Expression.Spelled.spelled_spread {e : Expression π .sum} (h : e.Spelled) :
    ∀ s ∈ spread symbols [.inr (e.relocate fun _ => none)], s.Spelled := by
  intro s hs
  rw [spread_inr, spread_nil, List.append_nil] at hs
  exact Expression.spelled_symbols h s hs

/-- An argument can be written down if its operand can. -/
theorem Argument.spelled_parts {a : Argument π (Expression π .sum)}
    (h : ∀ e ∈ a.operand?, e.Spelled) : ∀ s ∈ spread Expression.symbols
      (a.map (fun _ => none) (Expression.relocate fun _ => none)).parts, s.Spelled := by
  cases a with
  | absent => exact nofun
  | marker text mode hmode place => exact List.forall_mem_cons.2 ⟨.marker hmode, nofun⟩
  | immediate mark e => exact List.forall_mem_cons.2 ⟨.immediate, (h e rfl).spelled_spread⟩
  | direct e => exact (h e rfl).spelled_spread

/-- **A program can be written down**: all its tokens are spelled. -/
theorem Element.Spelled.tokens {x : Element.Source π} (h : x.Spelled) :
    ∀ s ∈ x.tokens, s.Spelled := by
  -- four of the directives have one token behind them
  have hdirective {text : String} (htext : text ∈ Machine.directives) {s : Symbol}
      (hs : s.Spelled) : ∀ t ∈ [⟨.directive, text, none, none⟩, s], t.Spelled :=
    List.forall_mem_cons.2 ⟨.directive htext, List.forall_mem_cons.2 ⟨hs, nofun⟩⟩
  cases x with
  | label name place colon =>
    exact List.forall_mem_cons.2
      ⟨.identifier h, List.forall_mem_cons.2 ⟨.operator (c := ':') rfl rfl, nofun⟩⟩
  | constant name place equals e =>
    exact List.forall_mem_cons.2
      ⟨.identifier h.1, List.forall_mem_cons.2 ⟨.operator (c := '=') rfl rfl, h.2.spelled_spread⟩⟩
  | instruction i a hi place =>
    -- the instruction was found in the table, so its mnemonic is one
    have hmnemonic : Machine.isMnemonic i.mnemonic = true :=
      List.any_eq_true.2 ⟨i, (Machine.of_instruction? hi).1, beq_self_eq_true _⟩
    exact List.forall_mem_cons.2 ⟨.mnemonic hmnemonic, a.spelled_parts h⟩
  | byte place e =>
    exact List.forall_mem_cons.2 ⟨.directive (by decide), h.spelled_spread⟩
  | reserve place n behind => exact hdirective (by decide) n.spelled_symbol
  | origin place n behind => exact hdirective (by decide) n.spelled_symbol
  | string place letters behind =>
    exact hdirective (by decide) (.string (closeString_stringBody letters))
  | data place n behind => exact hdirective (by decide) n.spelled_symbol

/-! ### Finding the places -/

/-- A symbol without its location. -/
def Symbol.bare (s : Symbol) : Symbol := s.at none

/-- Two symbols that are equal but for the location differ in nothing else. -/
theorem Symbol.eq_at_of_bare {s t : Symbol} (h : s.bare = t.at none) : s = t.at s.location := by
  cases s
  cases t
  cases h
  rfl

theorem map_bare_eq_singleton {located : List Symbol} {t : Symbol}
    (h : located.map Symbol.bare = [t.at none]) : ∃ place, located = [t.at place] := by
  obtain ⟨s, rfl, hs⟩ := List.map_eq_singleton_iff.1 h
  exact ⟨s.location, congrArg (fun s => [s]) (Symbol.eq_at_of_bare hs)⟩

/-- Symbols that an expression is written as, but for the locations, are what a located expression
is written as. -/
theorem Expression.exists_located {r : Rank} (e : Expression Unit r) {located : List Symbol}
    (h : located.map Symbol.bare = (e.relocate fun _ => none).symbols) :
    ∃ e' : Expression (Option Location) r, e'.symbols = located ∧
      (e'.relocate fun _ => ()) = e := by
  induction e generalizing located with
  | literal text n place =>
    obtain ⟨place, rfl⟩ := map_bare_eq_singleton (t := ⟨.integer, text, some n, none⟩) h
    exact ⟨literal text n place, rfl, rfl⟩
  | name x place =>
    obtain ⟨place, rfl⟩ := map_bare_eq_singleton (t := ⟨.identifier, x, none, none⟩) h
    exact ⟨name x place, rfl, rfl⟩
  | group opening e closing ih =>
    -- the symbols are split where those of the expression are
    obtain ⟨s, rest, rfl, hopening, h⟩ := List.map_eq_cons_iff.1 h
    obtain ⟨inner, last, rfl, hinner, hlast⟩ := List.map_eq_append_iff.1 h
    obtain ⟨e', rfl, he⟩ := ih hinner
    obtain ⟨closing', rfl⟩ := map_bare_eq_singleton (t := .ofOperator ")" none) hlast
    refine ⟨group s.location e' closing', ?_, congrArg (group () · ()) he⟩
    rw [Symbol.eq_at_of_bare (t := .ofOperator "(" none) hopening]
    rfl
  | ofAtom a ih =>
    obtain ⟨a', ha, heq⟩ := ih h
    exact ⟨ofAtom a', ha, congrArg ofAtom heq⟩
  -- the operator is the symbol between those of its operands
  | scaled p s place a ihp iha =>
    obtain ⟨left, right, rfl, hleft, hright⟩ := List.map_eq_append_iff.1 h
    obtain ⟨o, right, rfl, ho, hright⟩ := List.map_eq_cons_iff.1 hright
    obtain ⟨p', rfl, hp⟩ := ihp hleft
    obtain ⟨a', rfl, ha⟩ := iha hright
    refine ⟨scaled p' s o.location a', ?_, by rw [relocate, hp, ha]⟩
    rw [Symbol.eq_at_of_bare (t := (Operator.scaling s).symbol none) ho]
    rfl
  | ofProduct p ih =>
    obtain ⟨p', hp, heq⟩ := ih h
    exact ⟨ofProduct p', hp, congrArg ofProduct heq⟩
  | signed s place p ih =>
    obtain ⟨o, right, rfl, ho, hright⟩ := List.map_eq_cons_iff.1 h
    obtain ⟨p', rfl, hp⟩ := ih hright
    refine ⟨signed s o.location p', ?_, by rw [relocate, hp]⟩
    rw [Symbol.eq_at_of_bare (t := (Operator.sign s).symbol none) ho]
    rfl
  | summed e s place p ihe ihp =>
    obtain ⟨left, right, rfl, hleft, hright⟩ := List.map_eq_append_iff.1 h
    obtain ⟨o, right, rfl, ho, hright⟩ := List.map_eq_cons_iff.1 hright
    obtain ⟨e', rfl, he⟩ := ihe hleft
    obtain ⟨p', rfl, hp⟩ := ihp hright
    refine ⟨summed e' s o.location p', ?_, by rw [relocate, he, hp]⟩
    rw [Symbol.eq_at_of_bare (t := (Operator.sign s).symbol none) ho]
    rfl

/-- The first of some tokens is found at some place, and the rest behind it. -/
theorem exists_located_cons {t : Symbol} {rest located : List Symbol}
    (h : located.map Symbol.bare = t.at none :: rest) :
    ∃ place tail, located = t.at place :: tail ∧ tail.map Symbol.bare = rest := by
  obtain ⟨s, tail, rfl, hs, htail⟩ := List.map_eq_cons_iff.1 h
  exact ⟨s.location, tail, congrArg (· :: tail) (Symbol.eq_at_of_bare hs), htail⟩

/-- An expression that is a whole operand is found at the places of its tokens. -/
theorem Expression.exists_located_spread (e : Expression Unit .sum) {located : List Symbol}
    (h : located.map Symbol.bare = spread symbols [.inr (e.relocate fun _ => none)]) :
    ∃ e' : Expression (Option Location) .sum, spread symbols [.inr e'] = located ∧
      (e'.relocate fun _ => ()) = e := by
  rw [spread_inr, spread_nil, List.append_nil] at h
  obtain ⟨e', he, hsame⟩ := e.exists_located h
  refine ⟨e', ?_, hsame⟩
  rw [spread_inr, spread_nil, List.append_nil, he]

/-- The same for an argument. -/
theorem Argument.exists_located (a : Argument Unit (Expression Unit .sum)) {located : List Symbol}
    (h : located.map Symbol.bare =
      spread Expression.symbols (a.map (fun _ => none) (Expression.relocate fun _ => none)).parts) :
    ∃ a' : Argument (Option Location) (Expression (Option Location) .sum),
      spread Expression.symbols a'.parts = located ∧
        a'.map (fun _ => ()) (Expression.relocate fun _ => ()) = a := by
  cases a with
  | absent => exact ⟨absent, (List.map_eq_nil_iff.1 h).symm, rfl⟩
  | marker text mode hmode place =>
    obtain ⟨place, rfl⟩ := map_bare_eq_singleton
      (t := ⟨if mode = .stack then .stack else .accumulator, text, none, none⟩) h
    exact ⟨marker text mode hmode place, rfl, rfl⟩
  | immediate mark e =>
    obtain ⟨place, rest, rfl, htail⟩ := exists_located_cons (t := ⟨.immediate, "!", none, none⟩) h
    obtain ⟨e', rfl, he⟩ := e.exists_located_spread htail
    exact ⟨immediate place e', rfl, congrArg (immediate ()) he⟩
  | direct e =>
    obtain ⟨e', rfl, he⟩ := e.exists_located_spread h
    exact ⟨direct e', rfl, congrArg direct he⟩

/-- The same for an element. Its constructors have one place for each token, so the tokens are taken
off one by one. -/
theorem Element.exists_located (x : Element.Source Unit) {located : List Symbol}
    (h : located.map Symbol.bare = x.tokens) :
    ∃ x' : Element.Source (Option Location), x'.written = located ∧
      (x'.relocate fun _ => ()) = x := by
  cases x with
  | label name place colon =>
    obtain ⟨place, rest, rfl, htail⟩ :=
      exists_located_cons (t := ⟨.identifier, name, none, none⟩) h
    obtain ⟨colon, rfl⟩ := map_bare_eq_singleton (t := .ofOperator ":" none) htail
    exact ⟨label name place colon, rfl, rfl⟩
  | constant name place equals e =>
    obtain ⟨place, rest, rfl, htail⟩ :=
      exists_located_cons (t := ⟨.identifier, name, none, none⟩) h
    obtain ⟨equals, rest, rfl, hrest⟩ := exists_located_cons (t := .ofOperator "=" none) htail
    obtain ⟨e', rfl, he⟩ := e.exists_located_spread hrest
    exact ⟨constant name place equals e', rfl, congrArg (constant name () ()) he⟩
  | instruction i a hi place =>
    obtain ⟨place, rest, rfl, htail⟩ :=
      exists_located_cons (t := ⟨.mnemonic, i.mnemonic, none, none⟩) h
    -- the mode does not depend on locations, so the located instruction is well formed too
    obtain ⟨a', rfl, ha⟩ := a.exists_located htail
    subst ha
    rw [Argument.mode_map] at hi
    exact ⟨instruction i a' hi place, rfl, rfl⟩
  | byte place e =>
    obtain ⟨place, rest, rfl, htail⟩ :=
      exists_located_cons (t := ⟨.directive, ".byte", none, none⟩) h
    obtain ⟨e', rfl, he⟩ := e.exists_located_spread htail
    exact ⟨byte place e', rfl, congrArg (byte ()) he⟩
  -- the operands of the other directives are single tokens
  | reserve place n behind =>
    obtain ⟨place, rest, rfl, htail⟩ :=
      exists_located_cons (t := ⟨.directive, ".reserve", none, none⟩) h
    obtain ⟨behind, rfl⟩ := map_bare_eq_singleton (t := n.symbol none) htail
    exact ⟨reserve place n behind, rfl, rfl⟩
  | origin place n behind =>
    obtain ⟨place, rest, rfl, htail⟩ :=
      exists_located_cons (t := ⟨.directive, ".org", none, none⟩) h
    obtain ⟨behind, rfl⟩ := map_bare_eq_singleton (t := n.symbol none) htail
    exact ⟨origin place n behind, rfl, rfl⟩
  | string place letters behind =>
    obtain ⟨place, rest, rfl, htail⟩ :=
      exists_located_cons (t := ⟨.directive, ".string", none, none⟩) h
    obtain ⟨behind, rfl⟩ := map_bare_eq_singleton (t := stringSymbol letters none) htail
    exact ⟨string place letters behind, rfl, rfl⟩
  | data place n behind =>
    obtain ⟨place, rest, rfl, htail⟩ :=
      exists_located_cons (t := ⟨.directive, ".data", none, none⟩) h
    obtain ⟨behind, rfl⟩ := map_bare_eq_singleton (t := n.symbol none) htail
    exact ⟨data place n behind, rfl, rfl⟩

/-- **Locations can be found.** Symbols that a program is written as, but for the locations, are
what the program is written as with some locations. -/
theorem exists_located {xs : List (Element.Source Unit)} {located : List Symbol}
    (h : located.map Symbol.bare = xs.flatMap Element.tokens) :
    ∃ xs' : List (Element.Source (Option Location)), xs'.flatMap Element.written = located ∧
      xs'.map (Element.relocate fun _ => ()) = xs := by
  induction xs generalizing located with
  | nil => exact ⟨[], (List.map_eq_nil_iff.1 h).symm, rfl⟩
  | cons x xs ih =>
    -- the symbols of the first element come first
    obtain ⟨first, rest, rfl, hfirst, hrest⟩ := List.map_eq_append_iff.1 h
    obtain ⟨x', rfl, hx⟩ := x.exists_located hfirst
    obtain ⟨xs', rfl, hxs⟩ := ih hrest
    exact ⟨x' :: xs', rfl, by rw [List.map_cons, hx, hxs]⟩

/-! ### Reading a program -/

theorem Symbol.Spelled.at_none {s : Symbol} (h : s.Spelled) : s.at none = s := by
  cases h <;> rfl

/-- What was read is what was written but for the locations, and all of it has a location. -/
theorem map_bare_of_forall₂ {tokens located : List Symbol} (h : ∀ t ∈ tokens, t.Spelled)
    (hread : List.Forall₂ (fun t u => ∃ l : Location, l.isWritable = true ∧ u = t.at (some l))
      tokens located) :
    located.map Symbol.bare = tokens ∧
      ∀ s ∈ located, ∃ l : Location, l.isWritable = true ∧ s.location = some l := by
  induction hread with
  | nil => exact ⟨rfl, nofun⟩
  -- the location that was added is the only difference
  | @cons t u tokens located hu _ ih =>
    obtain ⟨l, hl, rfl⟩ := hu
    obtain ⟨hmap, hplaces⟩ := ih fun t ht => h t (List.mem_cons_of_mem _ ht)
    have ht : (t.at (some l)).bare = t := (h t List.mem_cons_self).at_none
    rw [List.map_cons, ht, hmap]
    exact ⟨rfl, List.forall_mem_cons.2 ⟨⟨l, hl, rfl⟩, hplaces⟩⟩

/-- The source of a program: its tokens, with single spaces between them. -/
def sourceOf (file : String) (markLimit : Option Nat) (xs : List (Element.Source π)) : Source :=
  .ofSymbols file markLimit (xs.flatMap Element.tokens)

/-- All tokens of a program are spelled if those of its elements are. -/
theorem spelled_tokens {xs : List (Element.Source π)} (h : ∀ x ∈ xs, x.Spelled) :
    ∀ t ∈ xs.flatMap Element.tokens, t.Spelled := by
  intro t ht
  obtain ⟨x, hx, ht⟩ := List.mem_flatMap.1 ht
  exact (h x hx).tokens t ht

/-- **A program is read as it was written**, with locations that can be written. -/
theorem exists_read (file : String) {markLimit : Option Nat} (hroom : markLimit ≠ some 0)
    {xs : List (Element.Source Unit)} (h : ∀ x ∈ xs, x.Spelled)
    (hlength : Numeral.isWritable ((sourceOf file markLimit xs).text.length + 1 : Nat) = true) :
    ∃ xs' : List (Element.Source (Option Location)),
      (sourceOf file markLimit xs).symbols = .ok (xs'.flatMap Element.written) ∧
      xs'.map (Element.relocate fun _ => ()) = xs ∧
      ∀ s ∈ xs'.flatMap Element.written,
        ∃ l : Location, l.isWritable = true ∧ s.location = some l := by
  have hspelled := spelled_tokens h
  -- reading gives the tokens back with locations, and these are filled into the program
  obtain ⟨located, hread, hforall⟩ := Source.symbols_ofSymbols file hroom hspelled hlength
  obtain ⟨hmap, hplaces⟩ := map_bare_of_forall₂ hspelled hforall
  obtain ⟨xs', rfl, hxs⟩ := exists_located hmap
  exact ⟨xs', hread, hxs, hplaces⟩

end RomAsm
