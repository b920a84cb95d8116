import RomAsm.Proofs.Grammar
import RomAsm.Proofs.Placement
import RomAsm.Proofs.Solution

/-!
# The definitions that are accepted

A constant may be defined by any sequence of numbers, operators and parentheses. It is given a value
exactly if the sequence is an expression of the grammar that divides by nothing but numbers other
than zero.

* `derivable_of_resolve` — what is used up is regular, so it was an expression;
* `resolve_of_value`, `resolve_of_zero` — what becomes of an expression;
* `resolved_value_iff` — both together.
-/

namespace RomAsm

open Grouping

/-! ### A definition with a given value -/

/-- The symbols of a constant that is defined by the given ones. -/
def defining (x : String) (place equals : Option Location) (t : List Symbol) : List Symbol :=
  ⟨.identifier, x, none, place⟩ :: .ofOperator "=" equals :: t

/-- Symbols after grouping, layout and resolution. -/
def resolvedFrom (symbols : List Symbol) : Logged Program := do
  let symbols ← Grouping.group symbols
  let program ← Layout.place symbols
  Resolution.resolve program

/-- Grouping does not change the number of the symbols that are neither parentheses nor zeros. -/
theorem countP_grouped {q : Symbol → Bool}
    (hparenthesis : ∀ s, s.isParenthesis = true → q s = false)
    (hzero : ∀ place, q (Grouping.zero place) = false) (symbols : List Symbol) :
    (grouped symbols).countP q = symbols.countP q := by
  rw [List.countP_eq_length_filter, filter_grouped hparenthesis hzero,
    ← List.countP_eq_length_filter]

/-- Where no statement and no label begins, layout has nothing to do. -/
theorem passive_of_forall {symbols : List Symbol}
    (h : ∀ s ∈ symbols, s.startsStatement = false ∧ s.isOp [":"] = false) : Passive symbols [] := by
  induction symbols with
  | nil => trivial
  | cons s symbols ih =>
    obtain ⟨hs, hsymbols⟩ := List.forall_mem_cons.1 h
    refine ⟨⟨hs.1, hs.2, ?_⟩, ih hsymbols⟩
    rw [Layout.isLabel, List.append_nil]
    -- no colon comes next, so the symbol is no label
    cases symbols with
    | nil => exact Bool.and_false _
    | cons t symbols => simp [(hsymbols t List.mem_cons_self).2]

section Definition

variable {x : String} {place equals : Option Location} {t : List Symbol}
  (htokens : ∀ s ∈ t, IsToken s)

include htokens

/-- The only name is the one that is defined. -/
theorem nameCount_defining : Resolution.nameCount (grouped (defining x place equals t)) = 1 := by
  -- what grouping puts in is no name
  have hparenthesis (s : Symbol) (hs : s.isParenthesis = true) : s.isIdentifier = false := by
    refine Bool.eq_false_iff.2 fun hname => ?_
    rw [isParenthesis_of_isIdentifier hname] at hs
    cases hs
  have ht : t.countP Symbol.isIdentifier = 0 :=
    List.countP_eq_zero.2 fun s hs => by simp [(htokens s hs).plain.1]
  rw [Resolution.nameCount, countP_grouped hparenthesis (fun _ => rfl), defining,
    List.countP_cons_of_pos rfl, List.countP_cons_of_neg Bool.false_ne_true, ht]

/-- Layout leaves a definition as it is. -/
theorem place_defining : (Layout.place (grouped (defining x place equals t))).outcome =
    .ok ⟨grouped (defining x place equals t), [], []⟩ := by
  have hparenthesis (s : Symbol) (hs : s.isParenthesis = true) :
      (s.startsStatement || s.isOp [":"]) = false := by
    rcases Bool.or_eq_true_iff.1 hs with hs | hs
    · rw [startsStatement_of_isOp hs, Symbol.isOp_ne hs (by decide), Bool.or_false]
    · rw [startsStatement_of_isOp hs, Symbol.isOp_ne hs (by decide), Bool.or_false]
  -- nothing in the definition is laid out, and grouping adds nothing of that kind
  have hnone : (grouped (defining x place equals t)).countP
      (fun s => s.startsStatement || s.isOp [":"]) = 0 := by
    rw [countP_grouped hparenthesis (fun _ => rfl), defining,
      List.countP_cons_of_neg Bool.false_ne_true, List.countP_cons_of_neg Bool.false_ne_true]
    exact List.countP_eq_zero.2 fun s hs => by simp [(htokens s hs).plain]
  have hpassive : Passive (grouped (defining x place equals t)) [] := by
    refine passive_of_forall fun s hs => ?_
    simpa using List.countP_eq_zero.1 hnone s hs
  have hnil : (Layout.placeFrom 0 [] [] []).outcome = .ok ⟨[], [], []⟩ := by
    rw [Layout.placeFrom]
    rfl
  have hplace :
      (Layout.placeFrom 0 [] [] (grouped (defining x place equals t) ++ [])).outcome = _ :=
    placeFrom_passive hpassive
  simpa [hnil, Except.map, Program.behind, Layout.place] using hplace

/-- So what becomes of a definition is up to resolution. -/
theorem outcome_resolvedFrom : (resolvedFrom (defining x place equals t)).outcome =
    (Resolution.resolve ⟨grouped (defining x place equals t), [], []⟩).outcome := by
  show (Layout.place (grouped (defining x place equals t)) >>= Resolution.resolve).outcome = _
  rw [Trace.outcome_bind, place_defining htokens]
  rfl

/-- **Only expressions are accepted.** -/
theorem derivable_of_resolve {q : Program} (hq : q.symbols = [])
    (h : (Resolution.resolve ⟨grouped (defining x place equals t), [], []⟩).outcome = .ok q) :
    Derivable t := by
  have hcount : Resolution.nameCount (grouped (defining x place equals t)) = 1 :=
    nameCount_defining htokens
  have hsteps : Resolution.Steps (grouped (defining x place equals t)) [] :=
    hq ▸ (Resolution.resolve_steps h).1
  -- what is used up is regular, and so was the definition before grouping
  have hregular : Regular (grouped (defining x place equals t)) := by
    obtain hnil | ⟨-, hregular⟩ := Resolution.regular_of_steps hsteps (Nat.le_of_eq hcount)
    · rw [hnil] at hcount
      cases hcount
    · exact hregular
  obtain ⟨halternates, hbalanced⟩ := regular_of_grouped hregular
  rw [loose_withZeros] at hbalanced
  have hbalanced : loose t = (0, 0) := hbalanced
  -- the constant and the equals sign are an operand and an operator, so the value begins anew
  rw [defining, withZeros_cons rfl, withZeros_cons rfl] at halternates
  obtain ⟨-, halternates⟩ := (alternates_operand rfl).1 halternates
  have hequals : (Symbol.ofOperator "=" equals).isOp ["="] = true := rfl
  obtain ⟨-, halternates⟩ := (alternates_operator hequals rfl).1 halternates
  exact readable t htokens _ rfl halternates hbalanced

end Definition

/-! ### Values -/

/-- The system with one definition. -/
def systemOf (x : String) (place equals : Option Location)
    (e : Expression (Option Location) .sum) : System where
  labels := []
  definitions := [⟨x, place, equals, e⟩]
  distinct := List.nodup_singleton x

section Value

variable {x : String} {place equals : Option Location} {e : Expression (Option Location) .sum}
  (hnames : e.names = [])

/-- The program of this system is the definition, grouped. -/
theorem program_systemOf : (systemOf x place equals e).program [] =
    ⟨grouped (defining x place equals e.symbols), [], []⟩ := by
  rw [System.program, systemOf, List.flatMap_singleton]
  rfl

include hnames

theorem eval_eq_value (ρ : String → Option Int) : e.eval ρ = e.value :=
  e.eval_congr (by simp [hnames])

theorem isDetermined_systemOf : (systemOf x place equals e).IsDetermined := by
  intro d hd
  obtain rfl := List.mem_singleton.1 hd
  exact .constant (List.mem_singleton.2 rfl) (by simp [hnames])

/-- The only name is the one that is defined, with the value of the expression. -/
theorem hasValue_systemOf {y : String} {n : Int}
    (h : HasValue (systemOf x place equals e).labels (systemOf x place equals e).definitions y n) :
    y = x ∧ e.value = some n := by
  cases h with
  -- there are no labels
  | label h => cases h
  | @constant d ρ n hd hρ heval =>
    obtain rfl := List.mem_singleton.1 hd
    exact ⟨rfl, (eval_eq_value hnames ρ).symm.trans heval⟩

/-- A division is faulty exactly if its divisor is zero. -/
theorem isFaulty_systemOf : (systemOf x place equals e).IsFaulty ↔
    ∃ d ∈ e.divisions, d.2.value = some 0 := by
  -- without names the values of a division depend on nothing
  have hnone {d : Expression (Option Location) .product × Expression (Option Location) .atom}
      (hd : d ∈ e.divisions) : ∀ y, y ∉ d.1.names ++ d.2.names := by
    intro y hy
    have hmem := Expression.names_division hd y hy
    rw [hnames] at hmem
    cases hmem
  constructor
  · rintro ⟨_, he, d, hd, -, ρ, -, hzero⟩
    obtain rfl := List.mem_singleton.1 he
    refine ⟨d, hd, ?_⟩
    rw [← hzero]
    exact d.2.eval_congr fun y hy => absurd (List.mem_append_right _ hy) (hnone hd y)
  · rintro ⟨d, hd, hzero⟩
    exact ⟨e, List.mem_singleton.2 rfl, d, hd, fun y hy => absurd hy (hnone hd y), fun _ => none,
      nofun, hzero⟩

/-- All numbers of the system can be written if those of the expression can. -/
theorem writable_systemOf (hlegible : e.Legible fun _ => none)
    (hvalue : ∀ n, e.value = some n → Numeral.isWritable n = true)
    (hplaces : ∀ s ∈ defining x place equals e.symbols, s.location.all Location.isWritable = true) :
    (systemOf x place equals e).Writable where
  values y n h := hvalue n (hasValue_systemOf hnames h).2
  legible d hd ρ _ := by
    obtain rfl := List.mem_singleton.1 hd
    exact hlegible.congr (by simp [hnames])
  places d hd := by
    obtain rfl := List.mem_singleton.1 hd
    exact hplaces

/-- **An expression with a value** is accepted with that value. -/
theorem resolve_of_value (hwritable : (systemOf x place equals e).Writable) {v : Int}
    (hvalue : e.value = some v) :
    ∃ definitions,
      (Resolution.resolve ⟨grouped (defining x place equals e.symbols), [], []⟩).outcome =
        .ok ⟨[], [(x, some v)], definitions⟩ := by
  have hfaulty : ¬ (systemOf x place equals e).IsFaulty := by
    rw [isFaulty_systemOf hnames]
    rintro ⟨d, hd, hzero⟩
    exact e.divisor_ne_zero hvalue hd hzero
  obtain ⟨numbers, definitions, hrest, hresolve⟩ :=
    System.resolve_of_isDetermined hwritable [] hfaulty (isDetermined_systemOf hnames)
  -- the table has the constant, and nothing else
  obtain ⟨constants, hnumbers, hperm⟩ := hrest.table
  obtain rfl : numbers = constants := hnumbers
  have hconstants : numbers.names = [x] := by
    rw [List.filterMap_nil, List.append_nil, definitionsOf_map] at hperm
    exact List.perm_singleton.1 hperm
  obtain ⟨⟨y, n⟩, rfl, rfl⟩ := List.map_eq_singleton_iff.1 hconstants
  have hget : Table.get? [(y, n)] y = some n := by rw [Table.get?_singleton, if_pos rfl]
  obtain ⟨-, hn⟩ := hasValue_systemOf hnames ((System.get?_atRest hrest y n).1 hget)
  obtain rfl : n = v := Option.some.inj (hn.symm.trans hvalue)
  rw [program_systemOf] at hresolve
  exact ⟨definitions, hresolve⟩

/-- An expression that divides by zero is reported. -/
theorem resolve_of_zero (hwritable : (systemOf x place equals e).Writable)
    (hzero : ∃ d ∈ e.divisions, d.2.value = some 0) :
    ∃ d, (Resolution.resolve ⟨grouped (defining x place equals e.symbols), [], []⟩).outcome =
      .error (.diagnostic d) ∧ d.problem.category = .expression := by
  rw [← program_systemOf]
  exact System.resolve_of_isFaulty hwritable [] ((isFaulty_systemOf hnames).2 hzero)

end Value

/-- **What is accepted, and with which value.** A constant that is defined by a sequence of numbers,
operators and parentheses is resolved exactly if the sequence is an expression and no divisor in it
is zero, and its value is that of the expression. If a divisor is zero, that is reported. No number
that comes up is so large that it could not be written. -/
theorem resolved_value_iff (x : String) (place equals : Option Location) {t : List Symbol}
    (htokens : ∀ s ∈ t, IsToken s)
    (hlegible : ∀ e : Expression (Option Location) .sum, e.symbols = t →
      (e.Legible fun _ => none) ∧ ∀ n, e.value = some n → Numeral.isWritable n = true)
    (hplaces : ∀ s ∈ defining x place equals t, s.location.all Location.isWritable = true) :
    (∀ v, (∃ definitions, (resolvedFrom (defining x place equals t)).outcome =
        .ok ⟨[], [(x, some v)], definitions⟩) ↔
      ∃ e : Expression (Option Location) .sum, e.symbols = t ∧
        (∀ d ∈ e.divisions, d.2.value ≠ some 0) ∧ e.value = some v) ∧
    ∀ e : Expression (Option Location) .sum, e.symbols = t →
      (∃ d ∈ e.divisions, d.2.value = some 0) →
        ∃ d, (resolvedFrom (defining x place equals t)).outcome = .error (.diagnostic d) ∧
          d.problem.category = .expression := by
  have hnames {e : Expression (Option Location) .sum} (he : e.symbols = t) : e.names = [] :=
    e.names_eq_nil (he ▸ htokens)
  have hwritable {e : Expression (Option Location) .sum} (he : e.symbols = t) :
      (systemOf x place equals e).Writable :=
    writable_systemOf (hnames he) (hlegible e he).1 (hlegible e he).2 (he ▸ hplaces)
  -- the second part, which is needed in the first one too
  have hzero (e : Expression (Option Location) .sum) (he : e.symbols = t)
      (hdivision : ∃ d ∈ e.divisions, d.2.value = some 0) :
      ∃ d, (resolvedFrom (defining x place equals t)).outcome = .error (.diagnostic d) ∧
        d.problem.category = .expression := by
    rw [outcome_resolvedFrom htokens]
    subst he
    exact resolve_of_zero (hnames rfl) (hwritable rfl) hdivision
  refine ⟨fun v => ⟨?_, ?_⟩, hzero⟩
  · -- what is accepted is an expression, and of the two things that may become of one only a value
    -- is left
    rintro ⟨definitions, h⟩
    rw [outcome_resolvedFrom htokens] at h
    obtain ⟨e, rfl⟩ := derivable_of_resolve htokens rfl h
    have hvalued (y : String) (hy : y ∈ e.names) : ∃ m : Int, (none : Option Int) = some m := by
      rw [hnames rfl] at hy
      cases hy
    rcases e.exists_eval_or_division hvalued with ⟨n, hn⟩ | ⟨d, hd, -, hdivisor⟩
    · obtain ⟨places, hresolve⟩ := resolve_of_value (hnames rfl) (hwritable rfl) hn
      rw [h] at hresolve
      obtain ⟨rfl, -⟩ : v = n ∧ definitions = places := by simpa using hresolve
      exact ⟨e, rfl, fun d hd => e.divisor_ne_zero hn hd, hn⟩
    · obtain ⟨_, herror, -⟩ := resolve_of_zero (hnames rfl) (hwritable rfl) ⟨d, hd, hdivisor⟩
      rw [h] at herror
      cases herror
  · rintro ⟨e, rfl, -, hvalue⟩
    rw [outcome_resolvedFrom htokens]
    exact resolve_of_value (hnames rfl) (hwritable rfl) hvalue

/-- The expression `-(7 + 1) / 3`. -/
def negatedThird : Expression (Option Location) .sum :=
  .signed .minus none (.scaled
    (.ofAtom (.group none (.summed (.ofProduct (.ofAtom (.literal "7" 7 none))) .plus none
      (.ofAtom (.literal "1" 1 none))) none))
    .over none (.literal "3" 3 none))

/-- It is written with numbers, operators and parentheses. -/
theorem negatedThird_tokens : ∀ s ∈ negatedThird.symbols, IsToken s := by
  intro s hs
  simp only [negatedThird, Expression.symbols, List.cons_append, List.nil_append, List.mem_cons,
    List.not_mem_nil, or_false] at hs
  rcases hs with rfl | rfl | rfl | rfl | rfl | rfl | rfl | rfl
  · exact .operator _ _
  · exact .opening _
  · exact .literal _ _ _
  · exact .operator _ _
  · exact .literal _ _ _
  · exact .closing _
  · exact .operator _ _
  · exact .literal _ _ _

/-- Its intermediate values are `8`, `2` and `-2`. -/
theorem negatedThird_legible : negatedThird.Legible fun _ => none := by
  refine ⟨⟨⟨trivial, trivial, fun n hn => ?_⟩, trivial, fun n hn => ?_⟩, fun n hn => ?_⟩
  · obtain rfl : 8 = n := Option.some.inj hn
    decide
  · obtain rfl : 2 = n := Option.some.inj hn
    decide
  · obtain rfl : -2 = n := Option.some.inj hn
    decide

/-- The quotient goes towards zero before the sign is applied. -/
theorem negatedThird_resolved : ∃ definitions,
    (resolvedFrom (defining "x" none none negatedThird.symbols)).outcome =
      .ok ⟨[], [("x", some (-2))], definitions⟩ := by
  have hlegible (e : Expression (Option Location) .sum) (he : e.symbols = negatedThird.symbols) :
      (e.Legible fun _ => none) ∧ ∀ n, e.value = some n → Numeral.isWritable n = true := by
    -- another expression with these symbols would have the same value
    obtain ⟨heval, hlegible⟩ := Expression.eval_eq_of_symbols he fun _ => none
    refine ⟨hlegible.2 negatedThird_legible, fun n hn => ?_⟩
    obtain rfl : -2 = n := Option.some.inj (heval.symm.trans hn)
    decide
  have hplaces : ∀ s ∈ defining "x" none none negatedThird.symbols,
      s.location.all Location.isWritable = true := by decide
  exact ((resolved_value_iff "x" none none negatedThird_tokens hlegible hplaces).1 (-2)).2
    ⟨negatedThird, rfl, fun d hd => negatedThird.divisor_ne_zero (n := -2) rfl hd, rfl⟩

end RomAsm
