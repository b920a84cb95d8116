import RomAsm.Proofs.Leftovers

/-!
# Resolution solves the definitions

A `System` is a table of labels and a list of definitions. What resolution makes of it depends on
what the definitions determine, and not on their order or on the rounds it takes:

* `resolve_of_isFaulty` — a division by zero is reported if there is one to be found;
* `resolve_of_isDetermined`, `resolve_of_not_isDetermined` — otherwise a system is resolved if all
  its constants are determined, and what is missing is reported if not;
* `solves_atRest` — the table of a resolved system is its one solution.

`resolve_solves_definitions` says all of this, for the definitions in any order.
-/

namespace RomAsm

open Resolution

/-! ### Systems of definitions -/

/-- Labels and definitions of constants; no name is defined twice. -/
structure System where
  labels : Table Int
  definitions : List (Definition (Option Location))
  distinct : (labels.names ++ definitions.map Definition.name).Nodup

/-- The definitions among clauses that are all definitions. -/
theorem definitionsOf_map (definitions : List (Definition (Option Location))) :
    definitionsOf (definitions.map .definition) = definitions := by
  induction definitions with
  | nil => rfl
  | cons d definitions ih => exact congrArg (d :: ·) ih

/-- And the expressions among them. -/
theorem expressionsOf_map (definitions : List (Definition (Option Location))) :
    expressionsOf (definitions.map .definition) = definitions.map Definition.expression := by
  induction definitions with
  | nil => rfl
  | cons d definitions ih => exact congrArg (d.expression :: ·) ih

namespace System

/-- A system as a program: the definitions, with their grouping spelled out, and the labels. -/
def program (S : System) (places : Table (Option Location)) : Program :=
  ⟨Grouping.grouped (S.definitions.flatMap Definition.symbols), numbered S.labels, places⟩

/-- All numbers that come up in a system can be written, locations included. -/
structure Writable (S : System) : Prop where
  values : ∀ x n, HasValue S.labels S.definitions x n → Numeral.isWritable n = true
  legible : ∀ d ∈ S.definitions, ∀ ρ, Sound S.labels S.definitions ρ → d.expression.Legible ρ
  places : ∀ d ∈ S.definitions, ∀ s ∈ d.symbols, s.location.all Location.isWritable = true

/-- Some division whose operands are determined is a division by zero. -/
def IsFaulty (S : System) : Prop :=
  Faulty S.labels S.definitions (S.definitions.map Definition.expression)

/-- All constants of a system are determined. -/
def IsDetermined (S : System) : Prop :=
  ∀ d ∈ S.definitions, Determined S.labels S.definitions d.name

open Classical in
/-- The constants that are not determined, in the order of their definitions. -/
noncomputable def undetermined (S : System) : List String :=
  (S.definitions.map Definition.name).filter fun x => ¬ Determined S.labels S.definitions x

/-- The names that are neither labels nor defined, in the order in which they are first mentioned.
-/
def unknown (S : System) : List String :=
  ((S.definitions.flatMap fun d => d.expression.names).filter fun x =>
    (S.labels.get? x).isNone && !(S.definitions.map Definition.name).contains x).eraseDups

/-! ### What resolution makes of a system -/

/-- Definitions can stand in any order: the expression of each stands behind its own equals sign,
where an expression can begin. -/
theorem placed_definitions (definitions : List (Definition (Option Location))) (begins : Bool) :
    Chunk.Placed begins ((definitions.map Clause.definition).flatMap Clause.chunks) := by
  induction definitions generalizing begins with
  | nil => exact trivial
  -- a definition begins with a name and an equals sign
  | cons d definitions ih => exact ⟨rfl, rfl, rfl, ih false⟩

variable {S : System}

/-- A system as resolution sees it: its definitions as pieces, each with its grouping. -/
theorem program_eq (S : System) (places : Table (Option Location)) :
    S.program places =
      ⟨flat ((S.definitions.map Clause.definition).map Clause.piece), numbered S.labels,
        places⟩ := by
  rw [program, ← grouped_clauses (placed_definitions S.definitions true), List.flatMap_map]
  rfl

/-- A system is well named by its definition. -/
theorem wellNamed (S : System) : WellNamed S.labels (S.definitions.map .definition) := by
  have hdistinct := List.nodup_append.1 S.distinct
  refine ⟨hdistinct.1, by rw [definitionsOf_map]; exact hdistinct.2.1, fun d hd => ?_⟩
  rw [definitionsOf_map] at hd
  -- a name is in the labels or in the definitions, not in both
  refine Table.get?_eq_none fun hlabel => ?_
  exact hdistinct.2.2 d.name hlabel d.name (List.mem_map_of_mem hd) rfl

/-- What is assumed of a system is what resolution needs of its clauses. -/
theorem Writable.allWritable (h : S.Writable) :
    AllWritable S.labels (S.definitions.map .definition) := by
  constructor
  case values =>
    rw [definitionsOf_map]
    exact h.values
  case legible =>
    rw [definitionsOf_map, expressionsOf_map]
    rintro e he
    obtain ⟨d, hd, rfl⟩ := List.mem_map.1 he
    exact h.legible d hd

/-- A report without integers, at a place that can be written, is a diagnostic. -/
theorem report_eq_diagnostic {problem : Problem} (hintegers : problem.integers = [])
    {place : Option Location} (hplace : place.all Location.isWritable = true) :
    Failure.report problem place = .diagnostic ⟨problem, place, none⟩ := by
  rw [Failure.report_eq, hintegers, hplace]
  rfl

/-- The places of a system can be written. -/
theorem Writable.place_of_mem (h : S.Writable) {d : Definition (Option Location)}
    (hd : d ∈ S.definitions) {place : Option Location}
    (hplace : place ∈ d.symbols.map Symbol.location) :
    place.all Location.isWritable = true := by
  obtain ⟨s, hs, rfl⟩ := List.mem_map.1 hplace
  exact h.places d hd s hs

/-- **A division by zero is reported** if it is to be found, whatever else there is. -/
theorem resolve_of_isFaulty (h : S.Writable) (places : Table (Option Location))
    (hfaulty : S.IsFaulty) :
    ∃ d, (resolve (S.program places)).outcome = .error (.diagnostic d) ∧
      d.problem.category = .expression := by
  have hfaulty : Faulty S.labels (definitionsOf (S.definitions.map .definition))
      (expressionsOf (S.definitions.map .definition)) := by
    rw [definitionsOf_map, expressionsOf_map]
    exact hfaulty
  obtain ⟨failure, hresolve, o, e, he, s, hs, ho, rfl⟩ :=
    resolve_of_faulty S.wellNamed h.allWritable hfaulty places
  rw [expressionsOf_map] at he
  obtain ⟨d, hd, rfl⟩ := List.mem_map.1 he
  -- the report stands at an operator, and every location of a system can be written
  have hplace := h.place_of_mem hd
    (List.mem_cons_of_mem _ (List.mem_cons_of_mem _ (d.expression.standsIn_tree _ hs)))
  rw [program_eq, hresolve]
  -- signs do not divide, and neither does a product
  rcases o with _ | ⟨_ | _ | _⟩
  · cases ho
  · cases ho
  · exact ⟨_, congrArg _ (report_eq_diagnostic rfl hplace), rfl⟩
  · exact ⟨_, congrArg _ (report_eq_diagnostic rfl hplace), rfl⟩

/-- Without a faulty division, a table is reached that has the determined names and their values. -/
theorem exists_atRest (h : S.Writable) (places : Table (Option Location))
    (hfaulty : ¬ S.IsFaulty) :
    ∃ numbers pieces places', AtRest S.labels (S.definitions.map .definition) numbers pieces ∧
      (resolve (S.program places)).outcome =
        (check ⟨⟨flat pieces, numbered numbers, places'⟩, false,
          pieces.filterMap Piece.name?⟩).map fun _ => ⟨flat pieces, numbered numbers, places'⟩ := by
  rw [program_eq]
  refine resolve_of_not_faulty S.wellNamed h.allWritable ?_ places
  rw [definitionsOf_map, expressionsOf_map]
  exact hfaulty

variable {numbers : Table Int} {pieces : List Piece}

/-- At rest, the constants without a number are those that are not determined. -/
theorem undefinedNames_atRest
    (h : AtRest S.labels (S.definitions.map .definition) numbers pieces)
    (places : Table (Option Location)) :
    undefinedNames ⟨⟨flat pieces, numbered numbers, places⟩, false,
        pieces.filterMap Piece.name?⟩ = S.undetermined ++ S.unknown := by
  -- a name without a number at rest is one that is not determined
  have hnone : ∀ x, (numbers.get? x).isNone = true ↔ ¬ Determined S.labels S.definitions x := by
    intro x
    have hiff := h.exists_iff_determined x
    rw [definitionsOf_map] at hiff
    rw [← hiff, Option.isNone_iff_eq_none, ← Option.not_isSome_iff_eq_none,
      Option.isSome_iff_exists]
  rw [h.undefinedNames_eq, definitionsOf_map, expressionsOf_map, List.flatMap_map]
  congr 1
  refine List.filter_congr fun x _ => ?_
  classical
  rw [Bool.eq_iff_iff, hnone]
  exact decide_eq_true_iff.symm

/-- **Constants that are not determined are reported**, and with them all names that nobody
defines. -/
theorem resolve_of_not_isDetermined (h : S.Writable) (places : Table (Option Location))
    (hfaulty : ¬ S.IsFaulty) (hdetermined : ¬ S.IsDetermined) :
    ∃ similar place, (resolve (S.program places)).outcome = .error (.diagnostic
      ⟨.undefinedNames (S.undetermined ++ S.unknown) similar none, place, none⟩) := by
  obtain ⟨numbers, pieces, places', hrest, hresolve⟩ := exists_atRest h places hfaulty
  have hnames := undefinedNames_atRest hrest places'
  -- some constant is not determined, so there is a name to report
  have hne : S.undetermined ++ S.unknown ≠ [] := by
    simp only [IsDetermined, not_forall] at hdetermined
    obtain ⟨d, hd, hnot⟩ := hdetermined
    refine List.append_ne_nil_of_left_ne_nil (List.ne_nil_of_mem (a := d.name) ?_) _
    exact List.mem_filter.2 ⟨List.mem_map_of_mem hd, by simpa using hnot⟩
  obtain ⟨name, names, hcons⟩ := List.exists_cons_of_ne_nil hne
  rw [hcons] at hnames
  -- the report stands at the first mention of the first name
  have hcheck : ∃ similar place, place.all Location.isWritable = true ∧
      check ⟨⟨flat pieces, numbered numbers, places'⟩, false, pieces.filterMap Piece.name?⟩ =
        .error (.report (.undefinedNames (name :: names) similar none) place) := by
    unfold check
    rw [hnames]
    refine ⟨_, _, ?_, rfl⟩
    cases hfind : (flat pieces).find? fun s => s.isIdentifier && s.text == name with
    | none => rfl
    | some s =>
      obtain ⟨c, hc, hplace⟩ := hrest.location_mem (List.mem_of_find?_eq_some hfind)
      obtain ⟨d, hd, rfl⟩ := List.mem_map.1 hc
      exact h.place_of_mem hd hplace
  obtain ⟨similar, place, hplace, hcheck⟩ := hcheck
  refine ⟨similar, place, ?_⟩
  rw [hresolve, hcheck, hcons, report_eq_diagnostic rfl hplace]
  rfl

/-- If all constants are determined, nothing of the system is left over. -/
theorem pieces_eq_nil (hdetermined : S.IsDetermined)
    (h : AtRest S.labels (S.definitions.map .definition) numbers pieces) : pieces = [] := by
  -- every definition has gone over to the table, and a system has nothing but definitions
  have hclosed : (S.definitions.map Clause.definition).filter (Clause.isOpen numbers) = [] := by
    refine List.filter_eq_nil_iff.2 fun c hc => ?_
    obtain ⟨d, hd, rfl⟩ := List.mem_map.1 hc
    obtain ⟨n, hn⟩ := h.exists_of_determined (x := d.name)
      (by rw [definitionsOf_map]; exact hdetermined d hd)
    simp [Clause.isOpen, Clause.definition?, hn]
  have hfollows := h.follows
  rw [hclosed] at hfollows
  cases hfollows
  rfl

/-- **A system of determined constants is resolved**, and nothing of it is left over. -/
theorem resolve_of_isDetermined (h : S.Writable) (places : Table (Option Location))
    (hfaulty : ¬ S.IsFaulty) (hdetermined : S.IsDetermined) :
    ∃ numbers places', AtRest S.labels (S.definitions.map .definition) numbers [] ∧
      (resolve (S.program places)).outcome = .ok ⟨[], numbered numbers, places'⟩ := by
  obtain ⟨numbers, pieces, places', hrest, hresolve⟩ := exists_atRest h places hfaulty
  -- with nothing left over, the last check has nothing to find
  obtain rfl := pieces_eq_nil hdetermined hrest
  exact ⟨numbers, places', hrest, hresolve⟩

/-- A system is resolved exactly if no division is faulty and all its constants are determined. -/
theorem resolve_ok_iff (h : S.Writable) (places : Table (Option Location)) :
    (∃ q, (resolve (S.program places)).outcome = .ok q) ↔ ¬ S.IsFaulty ∧ S.IsDetermined := by
  constructor
  · rintro ⟨q, hq⟩
    -- both obstacles are reported, so neither is there
    have hfaulty : ¬ S.IsFaulty := by
      intro hfaulty
      obtain ⟨d, hd, -⟩ := resolve_of_isFaulty h places hfaulty
      rw [hq] at hd
      cases hd
    refine ⟨hfaulty, ?_⟩
    by_contra hdetermined
    obtain ⟨similar, place, hd⟩ := resolve_of_not_isDetermined h places hfaulty hdetermined
    rw [hq] at hd
    cases hd
  · -- conversely the run is known
    rintro ⟨hfaulty, hdetermined⟩
    obtain ⟨numbers, places', -, hresolve⟩ := resolve_of_isDetermined h places hfaulty hdetermined
    exact ⟨_, hresolve⟩

/-- A system that is resolved has a table with exactly the values that follow from it. -/
theorem atRest_of_resolve_ok (h : S.Writable) {places : Table (Option Location)} {q : Program}
    (hq : (resolve (S.program places)).outcome = .ok q) :
    ∃ numbers places', AtRest S.labels (S.definitions.map .definition) numbers [] ∧
      q = ⟨[], numbered numbers, places'⟩ := by
  obtain ⟨hfaulty, hdetermined⟩ := (resolve_ok_iff h places).1 ⟨q, hq⟩
  obtain ⟨numbers, places', hrest, hresolve⟩ := resolve_of_isDetermined h places hfaulty hdetermined
  exact ⟨numbers, places', hrest, Except.ok.inj (hq.symm.trans hresolve)⟩

/-- At rest, the table has exactly the values that follow from the system. -/
theorem get?_atRest (h : AtRest S.labels (S.definitions.map .definition) numbers pieces)
    (x : String) (n : Int) : numbers.get? x = some n ↔ HasValue S.labels S.definitions x n := by
  have hsound := h.sound x
  have hexists := h.exists_of_determined (x := x)
  -- the table has only right values, and a name has one value at most
  have hunique := fun {m k : Int} =>
    HasValue.unique (m := m) (n := k) (x := x) S.wellNamed.distinct S.wellNamed.new
  rw [definitionsOf_map] at hsound hexists hunique
  refine ⟨hsound n, fun hx => ?_⟩
  obtain ⟨m, hm⟩ := hexists hx.determined
  rw [hm, hunique (hsound m hm) hx]

/-- The table of a resolved system solves it, and nothing else does. -/
theorem solves_atRest (hdetermined : S.IsDetermined)
    (h : AtRest S.labels (S.definitions.map .definition) numbers []) :
    Solves S.labels S.definitions numbers.get? ∧
      ∀ ρ, Solves S.labels S.definitions ρ → ∀ x ∈ numbers.names, ρ x = numbers.get? x := by
  constructor
  · have hsolves := h.solves fun d hd => h.exists_of_determined (by
      rw [definitionsOf_map] at hd ⊢
      exact hdetermined d hd)
    rw [definitionsOf_map] at hsolves
    exact hsolves
  · -- a solution has the values that follow, and the table has only these
    intro ρ hρ x hx
    obtain ⟨n, hn⟩ := Table.exists_of_mem_names hx
    rw [hn]
    exact hρ.eq_of_hasValue ((get?_atRest h x n).1 hn)

/-! ### The order of definitions -/

section Order

variable {S' : System} (hlabels : S'.labels = S.labels)
  (hperm : S'.definitions.Perm S.definitions)

include hlabels hperm

/-- What follows from the definitions follows from them in any order. -/
theorem hasValue_of_perm {x : String} {n : Int} (h : HasValue S.labels S.definitions x n) :
    HasValue S'.labels S'.definitions x n :=
  hlabels ▸ h.mono fun _ hd => hperm.symm.subset hd

/-- So a constant that is determined is determined in any order. -/
theorem isDetermined_of_perm (h : S.IsDetermined) : S'.IsDetermined := by
  intro d hd
  rw [hlabels]
  exact (h d (hperm.subset hd)).mono fun _ hd => hperm.symm.subset hd

/-- A division that is faulty is faulty in any order. -/
theorem isFaulty_of_perm (h : S.IsFaulty) : S'.IsFaulty := by
  rw [IsFaulty, hlabels]
  refine Faulty.mono (fun _ hd => hperm.symm.subset hd) (fun e he => ?_) h
  exact (hperm.symm.map Definition.expression).subset he

/-- The numbers that come up do not depend on the order either. -/
theorem writable_of_perm (h : S.Writable) : S'.Writable where
  values x n hx := h.values x n (hasValue_of_perm hlabels.symm hperm.symm hx)
  legible d hd ρ hρ := h.legible d (hperm.subset hd) ρ fun x n hx =>
    hasValue_of_perm hlabels.symm hperm.symm (hρ x n hx)
  places d hd := h.places d (hperm.subset hd)

end Order

/-- For a system with a solution, it is enough that the numbers of the solution can be written. -/
theorem writable_of_solves {ρ : String → Option Int} (h : Solves S.labels S.definitions ρ)
    (hvalues : ∀ x n, ρ x = some n → Numeral.isWritable n = true)
    (hlegible : ∀ d ∈ S.definitions, d.expression.Legible ρ)
    (hplaces : ∀ d ∈ S.definitions, ∀ s ∈ d.symbols, s.location.all Location.isWritable = true) :
    S.Writable where
  values x n hx := hvalues x n (h.eq_of_hasValue hx)
  legible d hd _ hσ := (hlegible d hd).of_extends fun x n hx => h.eq_of_hasValue (hσ x n hx)
  places := hplaces

/-- **Resolution solves the definitions.** If a division whose operands are determined has the
divisor zero, that is reported. Otherwise a system is resolved exactly if all its constants are
determined, and then nothing is left of the definitions and the table has the labels and the one
solution; if not, the constants that are not determined are reported, and after them the names that
nobody defines. So the order of the definitions does not matter. -/
theorem resolve_solves_definitions (S : System) (h : S.Writable)
    (places : Table (Option Location)) :
    (S.IsFaulty → ∃ d, (resolve (S.program places)).outcome = .error (.diagnostic d) ∧
      d.problem.category = .expression) ∧
    (¬ S.IsFaulty → ((∃ q, (resolve (S.program places)).outcome = .ok q) ↔ S.IsDetermined)) ∧
    (∀ q, (resolve (S.program places)).outcome = .ok q → q.symbols = [] ∧
      ∃ constants : Table Int, q.tags = numbered (S.labels ++ constants) ∧
        constants.names.Perm (S.definitions.map Definition.name) ∧
        Solves S.labels S.definitions (Table.get? (S.labels ++ constants)) ∧
        ∀ ρ, Solves S.labels S.definitions ρ → ∀ x ∈ Table.names (S.labels ++ constants),
          ρ x = Table.get? (S.labels ++ constants) x) ∧
    (¬ S.IsFaulty → ¬ S.IsDetermined → ∃ similar place,
      (resolve (S.program places)).outcome = .error (.diagnostic
        ⟨.undefinedNames (S.undetermined ++ S.unknown) similar none, place, none⟩)) ∧
    ∀ (S' : System) (places' : Table (Option Location)), S'.labels = S.labels →
      S'.definitions.Perm S.definitions →
        ((∃ q, (resolve (S'.program places')).outcome = .ok q) ↔
          ∃ q, (resolve (S.program places)).outcome = .ok q) ∧
        ∀ q q', (resolve (S.program places)).outcome = .ok q →
          (resolve (S'.program places')).outcome = .ok q' →
            ∀ x, q'.tags.get? x = q.tags.get? x := by
  refine ⟨resolve_of_isFaulty h places, ?_, ?_, resolve_of_not_isDetermined h places, ?_⟩
  · intro hfaulty
    rw [resolve_ok_iff h]
    exact and_iff_right hfaulty
  · intro q hq
    obtain ⟨numbers, places', hrest, rfl⟩ := atRest_of_resolve_ok h hq
    -- the table begins with the labels, and the constants come behind them
    obtain ⟨constants, rfl, hnames⟩ := hrest.table
    obtain ⟨-, hdetermined⟩ := (resolve_ok_iff h places).1 ⟨_, hq⟩
    obtain ⟨hsolves, hunique⟩ := solves_atRest hdetermined hrest
    rw [definitionsOf_map, List.filterMap_nil, List.append_nil] at hnames
    exact ⟨rfl, constants, rfl, hnames, hsolves, hunique⟩
  · intro S' places' hlabels hperm
    have h' := writable_of_perm hlabels hperm h
    constructor
    · -- both conditions are about sets of definitions
      rw [resolve_ok_iff h, resolve_ok_iff h']
      refine and_congr (not_congr ⟨?_, ?_⟩) ⟨?_, ?_⟩
      · exact isFaulty_of_perm hlabels.symm hperm.symm
      · exact isFaulty_of_perm hlabels hperm
      · exact isDetermined_of_perm hlabels.symm hperm.symm
      · exact isDetermined_of_perm hlabels hperm
    · intro q q' hq hq' x
      obtain ⟨numbers, _, hrest, rfl⟩ := atRest_of_resolve_ok h hq
      obtain ⟨numbers', _, hrest', rfl⟩ := atRest_of_resolve_ok h' hq'
      -- both tables have the values that follow from the definitions
      have hsame : numbers'.get? x = numbers.get? x := by
        ext n
        rw [get?_atRest hrest', get?_atRest hrest]
        exact ⟨hasValue_of_perm hlabels.symm hperm.symm, hasValue_of_perm hlabels hperm⟩
      rw [Table.get?_numbered, Table.get?_numbered, hsame]

/-- A table whose size is defined before the two numbers it is made of; one of them comes from a
label. -/
def tableSize : System where
  labels := [("start", 4)]
  definitions :=
    [⟨"size", none, none,
      .ofProduct (.scaled (.ofAtom (.name "count" none)) .times none (.name "width" none))⟩,
    ⟨"width", none, none, .ofProduct (.ofAtom (.literal "3" 3 none))⟩,
    ⟨"count", none, none,
      .summed (.ofProduct (.ofAtom (.name "start" none))) .minus none
        (.ofAtom (.literal "1" 1 none))⟩]
  distinct := by decide

/-- The values can be checked without finding them: nine is three times three, and three is four
minus one. -/
theorem tableSize_solves : Solves tableSize.labels tableSize.definitions
    (Table.get? [("start", 4), ("width", 3), ("count", 3), ("size", 9)]) where
  labels := by
    intro x n hx
    exact Table.extends_append tableSize.labels [("width", 3), ("count", 3), ("size", 9)] x n hx
  constants := by
    intro d hd
    simp only [tableSize, List.mem_cons, List.not_mem_nil, or_false] at hd
    rcases hd with rfl | rfl | rfl
    · exact ⟨9, by decide, by decide⟩
    · exact ⟨3, by decide, by decide⟩
    · exact ⟨3, by decide, by decide⟩

/-- All its numbers are small. -/
theorem tableSize_writable : tableSize.Writable := by
  refine writable_of_solves tableSize_solves ?_ ?_ ?_
  · intro x n hx
    have := Table.mem_of_get? hx
    simp only [List.mem_cons, Prod.mk.injEq, List.not_mem_nil, or_false] at this
    rcases this with ⟨-, rfl⟩ | ⟨-, rfl⟩ | ⟨-, rfl⟩ | ⟨-, rfl⟩ <;> decide
  · intro d hd
    simp only [tableSize, List.mem_cons, List.not_mem_nil, or_false] at hd
    rcases hd with rfl | rfl | rfl
    · refine ⟨trivial, trivial, fun n hn => ?_⟩
      obtain rfl : n = 9 := Option.some.inj (hn.symm.trans (by decide))
      decide
    · trivial
    · refine ⟨trivial, trivial, fun n hn => ?_⟩
      obtain rfl : n = 3 := Option.some.inj (hn.symm.trans (by decide))
      decide
  · decide

/-- None of its constants depends on itself. -/
theorem tableSize_isDetermined : tableSize.IsDetermined := by
  -- in the order in which their values are found
  have hwidth : Determined tableSize.labels tableSize.definitions "width" :=
    .constant (d := tableSize.definitions.get ⟨1, by decide⟩) (List.get_mem _ _)
      fun x hx => by cases hx
  have hcount : Determined tableSize.labels tableSize.definitions "count" := by
    refine .constant (d := tableSize.definitions.get ⟨2, by decide⟩) (List.get_mem _ _) ?_
    intro x hx
    obtain rfl : x = "start" := by simpa [tableSize, Expression.names] using hx
    exact .label (n := 4) rfl
  have hsize : Determined tableSize.labels tableSize.definitions "size" := by
    refine .constant (d := tableSize.definitions.get ⟨0, by decide⟩) (List.get_mem _ _) ?_
    intro x hx
    obtain rfl | rfl : x = "count" ∨ x = "width" := by
      simpa [tableSize, Expression.names] using hx
    · exact hcount
    · exact hwidth
  intro d hd
  simp only [tableSize, List.mem_cons, List.not_mem_nil, or_false] at hd
  rcases hd with rfl | rfl | rfl
  · exact hsize
  · exact hwidth
  · exact hcount

/-- The size is found although it is defined first. -/
theorem tableSize_resolved : tableSize.Writable ∧ ∃ q,
    (resolve (tableSize.program [])).outcome = .ok q ∧ q.symbols = [] ∧
      q.tags.get? "size" = some (some 9) := by
  obtain ⟨-, hiff, hok, -, -⟩ := resolve_solves_definitions tableSize tableSize_writable []
  -- there is no division at all
  have hfaulty : ¬ tableSize.IsFaulty := by
    rintro ⟨e, he, d, hd, -⟩
    simp only [tableSize, List.map_cons, List.map_nil, List.mem_cons, List.not_mem_nil,
      or_false] at he
    rcases he with rfl | rfl | rfl <;> simp [Expression.divisions, Operator.divides] at hd
  obtain ⟨q, hq⟩ := (hiff hfaulty).2 tableSize_isDetermined
  obtain ⟨hsymbols, constants, htags, hnames, -, hunique⟩ := hok q hq
  have hmem : "size" ∈ Table.names (tableSize.labels ++ constants) := by
    rw [Table.names, List.map_append]
    exact List.mem_append_right _ (hnames.symm.subset List.mem_cons_self)
  refine ⟨tableSize_writable, q, hq, hsymbols, ?_⟩
  rw [htags, Table.get?_numbered, ← hunique _ tableSize_solves "size" hmem]
  decide

end System

end RomAsm
