import Mathlib
import RomAsm.Proofs.Agreement

/-!
# A name is defined once

A name that is defined twice is found out at different times: two labels while they are laid out, a
constant with the name of a label in the first round of resolution, two constants once one of them
has its value, and two constants that never get one when resolution has come to an end.

One number covers all of these. `tally` counts a name that has a value as one and adds the
definitions of the name that are still in the stream. Layout turns the labels into values
(`placeFrom_tally`) and each part of a round takes a definition out of the stream only by giving its
name a value (`define_tally`, `substitute_keeps`, `Reduction.keeps`), so the number never falls. It
is at most one where resolution succeeds, because no definitions are left then
(`tally_le_one`).

That a name which has a value keeps it, and the place of its definition, is
`Program.IsExtendedBy`; both are put together in `tags_assigned_once`.
-/

namespace RomAsm

open Layout Resolution

/-! ### Definitions in a stream -/

/-- Whether a stream begins with one of the given signs. -/
def beginsWith (signs : List String) (symbols : List Symbol) : Bool :=
  symbols.head?.any fun t => t.isOp signs

/-- Whether a symbol defines a name, with one of the given signs behind it. -/
def definesBy (signs : List String) (x : String) (s : Symbol) (following : List Symbol) : Bool :=
  s.isIdentifier && s.text == x && beginsWith signs following

/-- The number of definitions of a name in a stream. -/
def definitionCount (signs : List String) (x : String) : List Symbol → Nat
  | [] => 0
  | s :: rest => (definesBy signs x s rest).toNat + definitionCount signs x rest

/-- The definitions of a name that a program has behind it, because the name has a value, and those
of a constant that it has still ahead of it. -/
def tally (tags : Table Value) (symbols : List Symbol) (x : String) : Nat :=
  (tags.has x).toNat + definitionCount ["="] x symbols

section Counting

variable {signs : List String} {x : String}

theorem beginsWith_cons (signs : List String) (t : Symbol) (rest : List Symbol) :
    beginsWith signs (t :: rest) = t.isOp signs := rfl

/-- A definition is as good as its name, once its sign is known. -/
theorem definesBy_eq {s : Symbol} {following : List Symbol} (hs : s.isIdentifier = true)
    (hsign : beginsWith signs following = true) :
    definesBy signs x s following = (s.text == x) := by
  rw [definesBy, hs, hsign, Bool.true_and, Bool.and_true]

/-- A symbol goes on to define a name if it goes on to have a sign behind it. -/
theorem definesBy_le {signs signs' : List String} {a b : List Symbol} {s : Symbol}
    (h : s.isIdentifier = true → beginsWith signs a = true → beginsWith signs' b = true)
    (x : String) : (definesBy signs x s a).toNat ≤ (definesBy signs' x s b).toNat := by
  cases hs : s.isIdentifier with
  | false => simp [definesBy, hs]
  | true =>
    cases ha : beginsWith signs a with
    | false => simp [definesBy, ha]
    | true => rw [definesBy, definesBy, ha, h hs ha]

/-- Only names are defined. -/
theorem definitionCount_cons_of_not_isIdentifier {s : Symbol} (hs : s.isIdentifier = false)
    (rest : List Symbol) : definitionCount signs x (s :: rest) = definitionCount signs x rest := by
  rw [definitionCount, definesBy, hs, Bool.false_and, Bool.false_and]
  exact Nat.zero_add _

/-- Where there are no names, nothing is defined. -/
theorem definitionCount_of_isInert {symbols : List Symbol}
    (h : ∀ s ∈ symbols, s.isInert = true) : definitionCount signs x symbols = 0 := by
  induction symbols with
  | nil => rfl
  | cons s rest ih =>
    obtain ⟨hs, hrest⟩ := List.forall_mem_cons.1 h
    rw [definitionCount_cons_of_not_isIdentifier (Symbol.isIdentifier_of_isInert hs), ih hrest]

/-- A new name counts from now on, and the others as before. -/
theorem toNat_has_put {tags : Table Value} {y : String} (hnew : tags.has y = false) (n : Value)
    (x : String) : ((tags.put y n).has x).toNat = (y == x).toNat + (tags.has x).toNat := by
  -- the new name itself, and any other
  by_cases hxy : x = y
  · rw [hxy, Table.has, Table.get?_put_self hnew, beq_self_eq_true, hnew]
    rfl
  · rw [Table.has, Table.get?_put_of_ne hxy, beq_false_of_ne (Ne.symm hxy), ← Table.has]
    exact (Nat.zero_add _).symm

end Counting

/-! ### Streams that keep their definitions -/

/-- One stream has at least the constants of another, and goes on to begin with the sign of a
definition, so that a name in front of it stays defined. -/
structure Keeps (a b : List Symbol) : Prop where
  count : ∀ x, definitionCount ["="] x a ≤ definitionCount ["="] x b
  sign : beginsWith ["="] a = true → beginsWith ["="] b = true

theorem Keeps.refl (a : List Symbol) : Keeps a a := ⟨fun _ => le_refl _, id⟩

theorem Keeps.trans {a b c : List Symbol} (h : Keeps a b) (h' : Keeps b c) : Keeps a c :=
  ⟨fun x => (h.count x).trans (h'.count x), fun hsign => h'.sign (h.sign hsign)⟩

theorem Keeps.cons (s : Symbol) {a b : List Symbol} (h : Keeps a b) : Keeps (s :: a) (s :: b) :=
  ⟨fun x => Nat.add_le_add (definesBy_le (fun _ => h.sign) x) (h.count x), id⟩

/-- Where no names are taken out, no definitions are. -/
theorem keeps_of_not_isIdentifier {u v rest : List Symbol} (hu : ∀ s ∈ u, s.isIdentifier = false)
    (hsign : beginsWith ["="] (u ++ rest) = false) : Keeps (u ++ rest) (v ++ rest) := by
  -- what is taken out counts for nothing, and what is put in can only add to the count
  have hcount (x : String) :
      definitionCount ["="] x (u ++ rest) = definitionCount ["="] x rest := by
    clear hsign
    induction u with
    | nil => rfl
    | cons s u ih =>
      obtain ⟨hs, hu⟩ := List.forall_mem_cons.1 hu
      rw [List.cons_append, definitionCount_cons_of_not_isIdentifier hs, ih hu]
  have hmore (x : String) : definitionCount ["="] x rest ≤ definitionCount ["="] x (v ++ rest) := by
    induction v with
    | nil => exact le_refl _
    | cons s v ih => exact ih.trans (Nat.le_add_left _ _)
  refine ⟨fun x => (hcount x).trans_le (hmore x), fun h => ?_⟩
  rw [hsign] at h
  cases h

/-- **One reduction** takes no definition out. -/
theorem Resolution.Reduction.keeps {a b : List Symbol} (h : Reduction a b) : Keeps a b := by
  obtain ⟨before, u, v, rest, rfl, rfl, hredex, hnames⟩ := h
  -- on the symbols in front of the place
  induction before with
  | cons s before ih => exact ih.cons s
  | nil =>
    refine keeps_of_not_isIdentifier hnames ?_
    -- what is evaluated begins with a parenthesis or a number, never with a sign
    cases hredex with
    | define hname | substitute hname => simp [hname] at hnames
    | ungroup hopening => exact Symbol.isOp_ne hopening (by decide)
    | evaluate hleft => exact Symbol.isOp_of_isInteger hleft _

/-- So folding takes none out. -/
theorem fold_keeps {symbols result : List Symbol} {changed : Bool}
    (h : fold symbols = .ok (result, changed)) : Keeps symbols result := by
  have hreductions : Relation.ReflTransGen Reduction symbols result := foldFrom_reductions h
  clear h
  induction hreductions with
  | refl => exact .refl symbols
  | tail _ hreduction ih => exact ih.trans hreduction.keeps

/-- A name that is being defined is not replaced by its value. -/
theorem substitute_keeps {tags : Table Value} {symbols result : List Symbol} {changed : Bool}
    (h : substitute tags symbols = .ok (result, changed)) : Keeps symbols result := by
  induction symbols generalizing result changed with
  | nil =>
    cases h
    exact .refl []
  | cons s following ih =>
    rw [substitute] at h
    split at h
    · next hname =>
      obtain ⟨hs, hplain⟩ := Bool.and_eq_true_iff.1 hname
      split at h
      · obtain ⟨value, -, h⟩ := Trace.except_bind_eq_ok.1 h
        obtain ⟨⟨more, moreChanged⟩, hmore, h⟩ := Trace.except_bind_eq_ok.1 h
        cases h
        -- the name is replaced, so there is no sign behind it and it has not been counted
        have hnext : beginsWith ["="] following = false := by
          simpa [isDefinition, hs, beginsWith] using hplain
        refine ⟨fun x => ?_, fun hsign => ?_⟩
        · have hnone : definesBy ["="] x s following = false := by
            rw [definesBy, hnext, Bool.and_false]
          rw [definitionCount, hnone]
          exact (Nat.zero_add _).trans_le (((ih hmore).count x).trans (Nat.le_add_left _ _))
        · -- a name is no sign
          have hop : s.isOp ["="] = true := hsign
          rw [Symbol.isIdentifier_of_isOp hop] at hs
          cases hs
      · -- the name has no value yet
        obtain ⟨⟨more, moreChanged⟩, hmore, h⟩ := Trace.except_bind_eq_ok.1 h
        cases h
        exact (ih hmore).cons s
    · obtain ⟨⟨more, moreChanged⟩, hmore, h⟩ := Trace.except_bind_eq_ok.1 h
      cases h
      exact (ih hmore).cons s

/-! ### The tally never falls -/

/-- **Defining constants.** A definition leaves the stream only if its name is given a value. -/
theorem define_tally {tags : Table Value} {definitions : Table (Option Location)}
    {symbols : List Symbol} {d : Defined} (h : (define tags definitions symbols).outcome = .ok d) :
    (∀ x, tally tags symbols x ≤ tally d.tags d.symbols x) ∧
      (beginsWith ["="] symbols = true → beginsWith ["="] d.symbols = true) := by
  -- on the length of the stream, since a definition takes three symbols out of it at once
  induction hn : symbols.length using Nat.strongRecOn generalizing tags definitions symbols d with
  | ind n ih =>
    cases symbols with
    | nil =>
      obtain ⟨hsymbols, htags, -⟩ := define_nil h
      rw [hsymbols, htags]
      exact ⟨fun _ => le_refl _, id⟩
    | cons s following =>
      rw [List.length_cons] at hn
      rcases define_cases h with ⟨more, hmore, hsymbols, htags, -⟩ |
        ⟨equals, value, rest, n, more, rfl, hnew, hredex, hmore, hsymbols, htags, -⟩
      · -- the symbol stays, and so does a sign behind it
        obtain ⟨htally, hsign⟩ := ih following.length (by omega) hmore rfl
        rw [hsymbols, htags]
        refine ⟨fun x => ?_, id⟩
        have hdefines := definesBy_le (fun _ : s.isIdentifier = true => hsign) x
        have hrest := htally x
        simp only [tally, definitionCount] at hrest ⊢
        omega
      · -- the definition goes, and its name is new in the table
        rw [List.length_cons, List.length_cons] at hn
        obtain ⟨htally, -⟩ := ih rest.length (by omega) hmore rfl
        cases hredex with
        | define hname hequals hvalue =>
          have hinteger := (Bool.and_eq_true_iff.1 hvalue).1
          rw [hsymbols, htags]
          refine ⟨fun x => ?_, fun hsign => ?_⟩
          · have hsign : beginsWith ["="] (equals :: value :: rest) = true := hequals
            -- one definition less in the stream, and one more name in the table
            have hrest := htally x
            rw [tally, toNat_has_put hnew] at hrest
            rw [tally, definitionCount, definesBy_eq hname hsign,
              definitionCount_cons_of_not_isIdentifier (Symbol.isIdentifier_of_isOp hequals),
              definitionCount_cons_of_not_isIdentifier (Symbol.isIdentifier_of_isInteger hinteger)]
            omega
          · have hop : s.isOp ["="] = true := hsign
            rw [Symbol.isIdentifier_of_isOp hop] at hname
            cases hname

/-- **One round** does not lower the number. -/
theorem round_tally {p : Program} {r : Round} (h : (round p).outcome = .ok r) (x : String) :
    tally p.tags p.symbols x ≤ tally r.program.tags r.program.symbols x := by
  obtain ⟨d, substituted, _, _, hd, hs, hf, htags, -⟩ := exists_of_round h
  rw [htags]
  calc tally p.tags p.symbols x
    _ ≤ tally d.tags d.symbols x := (define_tally hd).1 x
    _ ≤ tally d.tags substituted x := Nat.add_le_add_left ((substitute_keeps hs).count x) _
    _ ≤ tally d.tags r.program.symbols x := Nat.add_le_add_left ((fold_keeps hf).count x) _

/-- **Nor do any number of rounds.** -/
theorem Resolution.Rounds.tally_le {p q : Program} (h : Rounds p q) (x : String) :
    tally p.tags p.symbols x ≤ tally q.tags q.symbols x := by
  induction h with
  | refl => exact le_refl _
  | tail _ hround ih =>
    obtain ⟨r, hr, rfl⟩ := hround
    exact ih.trans (round_tally hr x)

/-- The sign behind a name that is no label stays there. -/
theorem beginsWith_withoutLabels {s : Symbol} {following : List Symbol}
    (hlabel : isLabel s following = false) (hs : s.isIdentifier = true)
    (hsign : beginsWith [":", "="] following = true) :
    beginsWith ["="] (withoutLabels following) = true := by
  cases following with
  | nil => cases hsign
  | cons t rest =>
    -- the sign is no colon, or the name would be a label
    have hcolon : t.isOp [":"] = false := by
      rw [isLabel, hs, Bool.true_and] at hlabel
      exact hlabel
    rw [beginsWith_cons, Symbol.isOp_pair, hcolon, Bool.false_or] at hsign
    rw [withoutLabels_cons (isLabel_eq_false (Symbol.isIdentifier_of_isOp hsign) rest)]
    exact hsign

/-- **Laying out labels.** A label leaves the stream and becomes a name with a value, and constants
stay where they are. -/
theorem placeFrom_tally {address : Nat} {tags : Table Value}
    {definitions : Table (Option Location)} {symbols : List Symbol} {p : Program}
    (h : (placeFrom address tags definitions symbols).outcome = .ok p) (x : String) :
    (tags.has x).toNat + definitionCount [":", "="] x symbols ≤ tally p.tags p.symbols x := by
  -- on the length again: a label takes two symbols
  induction hn : symbols.length using Nat.strongRecOn
    generalizing address tags definitions symbols p with
  | ind n ih =>
    cases symbols with
    | nil =>
      rw [placeFrom_nil h]
      exact le_refl _
    | cons s following =>
      rw [List.length_cons] at hn
      rcases placeFrom_cases h with ⟨colon, rest, rfl, hlabel, hnew, hrest⟩ |
        ⟨hlabel, next, later, -, hlater, rfl⟩
      · -- a label: one more name has a value
        obtain ⟨hs, hcolon⟩ := of_isLabel hlabel
        rw [List.length_cons] at hn
        have hmore := ih rest.length (by omega) hrest rfl
        rw [toNat_has_put hnew] at hmore
        have hsign : beginsWith [":", "="] (colon :: rest) = true := by
          rw [beginsWith_cons, Symbol.isOp_pair, hcolon, Bool.true_or]
        rw [definitionCount, definesBy_eq hs hsign,
          definitionCount_cons_of_not_isIdentifier (Symbol.isIdentifier_of_isOp hcolon)]
        omega
      · -- any other symbol stays, and if it is a constant then its sign is still behind it
        have hmore := ih following.length (by omega) hlater rfl
        have hdefines : (definesBy [":", "="] x s following).toNat ≤
            (definesBy ["="] x s later.symbols).toNat := by
          refine definesBy_le (fun hs hsign => ?_) x
          rw [(placeFrom_counters hlater).1]
          exact beginsWith_withoutLabels hlabel hs hsign
        show _ ≤ tally later.tags (s :: later.symbols) x
        simp only [tally, definitionCount] at hmore ⊢
        omega

/-- Where no names are left, each has at most one definition behind it. -/
theorem tally_le_one {q : Program} (h : ∀ s ∈ q.symbols, s.isInert = true) (x : String) :
    tally q.tags q.symbols x ≤ 1 := by
  rw [tally, definitionCount_of_isInert h]
  exact Bool.toNat_le _

/-! ### Two definitions -/

/-- A name is defined at a position of a stream: as a label or as a constant. -/
def DefinedAt (x : String) (symbols : List Symbol) (i : Nat) : Prop :=
  ∃ s t, symbols[i]? = some s ∧ s.isIdentifier = true ∧ s.text = x ∧
    symbols[i + 1]? = some t ∧ t.isOp [":", "="] = true

/-- A definition at the beginning of a stream is counted there. -/
theorem definesBy_of_definedAt {x : String} {s : Symbol} {rest : List Symbol}
    (h : DefinedAt x (s :: rest) 0) : definesBy [":", "="] x s rest = true := by
  obtain ⟨s', t, hs', hs, rfl, ht, hsign⟩ := h
  obtain rfl := Option.some.inj hs'
  have hnext : rest.head? = some t := List.head?_eq_getElem?.trans ht
  rw [definesBy_eq hs (by rw [beginsWith, hnext]; exact hsign), beq_self_eq_true]

/-- A definition anywhere is counted. -/
theorem one_le_definitionCount {x : String} {symbols : List Symbol} {i : Nat}
    (h : DefinedAt x symbols i) : 1 ≤ definitionCount [":", "="] x symbols := by
  induction symbols generalizing i with
  | nil =>
    obtain ⟨s, t, hs, -⟩ := h
    cases hs
  | cons s rest ih =>
    cases i with
    -- it is the first symbol that is defined, or one behind it
    | zero =>
      rw [definitionCount, definesBy_of_definedAt h]
      exact Nat.le_add_right _ _
    | succ i => exact (ih (i := i) h).trans (Nat.le_add_left _ _)

/-- Definitions at two positions are counted twice. -/
theorem two_le_definitionCount {x : String} {symbols : List Symbol} {i j : Nat} (hij : i < j)
    (hi : DefinedAt x symbols i) (hj : DefinedAt x symbols j) :
    2 ≤ definitionCount [":", "="] x symbols := by
  induction symbols generalizing i j with
  | nil =>
    obtain ⟨s, t, hs, -⟩ := hi
    cases hs
  | cons s rest ih =>
    -- the earlier one is the first symbol, or both are further on
    obtain ⟨j, rfl⟩ := Nat.exists_eq_add_of_lt hij
    cases i with
    | zero =>
      have hrest : 1 ≤ definitionCount [":", "="] x rest := one_le_definitionCount hj
      rw [definitionCount, definesBy_of_definedAt hi]
      exact Nat.add_le_add_left hrest 1
    | succ i =>
      have hi : DefinedAt x rest i := hi
      have hj : DefinedAt x rest (i + 1 + j) := hj
      exact (ih (by omega) hi hj).trans (Nat.le_add_left _ _)

/-- **Names are assigned once.** Over any number of rounds, the names that have a value keep it, and
their places. And a stream that defines a name at two positions, in whatever way, is never resolved.
-/
theorem tags_assigned_once :
    (∀ p q, Rounds p q → p.tags <+: q.tags ∧
      ∀ x v, p.tags.get? x = some v →
        q.tags.get? x = some v ∧ q.definitions.get? x = p.definitions.get? x) ∧
    ∀ symbols x i j, i ≠ j → DefinedAt x symbols i → DefinedAt x symbols j →
      ∀ q, (place symbols >>= resolve).outcome ≠ .ok q := by
  constructor
  · intro p q hrounds
    have hextended := hrounds.isExtendedBy
    refine ⟨hextended.tags, fun x v hx => ⟨hextended.get? hx, hextended.definitions x ?_⟩⟩
    rw [Table.has, hx]
    rfl
  · intro symbols x i j hij hi hj q hq
    obtain ⟨p, hplace, hresolve⟩ := Trace.outcome_bind_eq_ok.1 hq
    obtain ⟨hrounds, hinert⟩ := rounds_of_resolve hresolve
    have htwo : 2 ≤ definitionCount [":", "="] x symbols := by
      rcases Nat.lt_or_gt_of_ne hij with hlt | hlt
      · exact two_le_definitionCount hlt hi hj
      · exact two_le_definitionCount hlt hj hi
    -- the tally does not fall between layout and the end, where it is one at most
    have hall : 2 ≤ 1 :=
      calc 2
        _ ≤ definitionCount [":", "="] x symbols := htwo
        _ ≤ tally p.tags p.symbols x := (Nat.le_add_left _ _).trans (placeFrom_tally hplace x)
        _ ≤ tally q.tags q.symbols x := hrounds.tally_le x
        _ ≤ 1 := tally_le_one hinert x
    omega

/-- A constant that is defined once by a name that comes later and once by a number. -/
def twiceDefined : List Symbol :=
  [⟨.identifier, "x", none, inFirstLine 1⟩, .ofOperator "=" (inFirstLine 2),
    ⟨.identifier, "y", none, inFirstLine 3⟩, ⟨.identifier, "x", none, inFirstLine 5⟩,
    .ofOperator "=" (inFirstLine 6), ⟨.integer, "2", some 2, inFirstLine 7⟩,
    ⟨.identifier, "y", none, inFirstLine 9⟩, .ofOperator "=" (inFirstLine 10),
    ⟨.integer, "1", some 1, inFirstLine 11⟩]

/-- The name `x` is defined at two positions of `twiceDefined`, which is not resolved. The other
program is resolved, and keeps the value and the place of its constant. -/
theorem twiceDefined_not_resolved :
    (Rounds jumpAheadPlaced jumpAheadResolved ∧
      jumpAheadResolved.tags.get? "z" = some (some 5) ∧
      jumpAheadResolved.definitions.get? "z" = some (inFirstLine 16)) ∧
    DefinedAt "x" twiceDefined 0 ∧ DefinedAt "x" twiceDefined 3 ∧
      ∀ q, (place twiceDefined >>= resolve).outcome ≠ .ok q := by
  obtain ⟨hextends, hrejects⟩ := tags_assigned_once
  have hrounds := (rounds_of_resolve resolve_jumpAhead).1
  obtain ⟨hvalue, hplace⟩ := (hextends _ _ hrounds).2 "z" (some 5) rfl
  have hfirst : DefinedAt "x" twiceDefined 0 := ⟨_, _, rfl, rfl, rfl, rfl, rfl⟩
  have hsecond : DefinedAt "x" twiceDefined 3 := ⟨_, _, rfl, rfl, rfl, rfl, rfl⟩
  exact ⟨⟨hrounds, hvalue, hplace⟩, hfirst, hsecond, hrejects _ _ 0 3 (by decide) hfirst hsecond⟩

end RomAsm
