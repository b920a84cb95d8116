import RomAsm.Proofs.Expression

/-!
# Refining a tree

`Tree.refine` is what a round of resolution does to a tree: a name that has a value becomes a
literal, an operator between literals is evaluated, and parentheses around a literal go away.

* `refine_refine` — refining a tree once more, with values for more names, is the same as refining
  the tree from the beginning; so nothing depends on the round in which a value is found.
* `value?_refine` — a refined tree is a literal exactly if the tree has a value.
* `names_refine` — its names are those that have no value yet.
* `refine_eq_error`, `not_fails_of_refine` — refining fails exactly at a division by zero, as long
  as the numbers that arise can be written.
* `weight_refine` — a refined tree is lighter, unless nothing has changed.
-/

namespace RomAsm

/-- A valuation has all values of another one, and maybe more. -/
def Extends (ρ σ : String → Option Int) : Prop := ∀ x n, ρ x = some n → σ x = some n

theorem Extends.refl (ρ : String → Option Int) : Extends ρ ρ := fun _ _ h => h

theorem Extends.trans {ρ σ τ : String → Option Int} (h : Extends ρ σ) (h' : Extends σ τ) :
    Extends ρ τ :=
  fun x n hx => h' x n (h x n hx)

/-! ### Refining a tree -/

namespace Tree

open Resolution (weight weight_nil weight_cons weight_append weigh_pos)

/-- The number that a tree is, if it is a literal. -/
def value? : Tree → Option Int
  | literal _ n _ => some n
  | _ => none

/-- A tree in parentheses, which a literal does not need. -/
def enclosed (opening closing : Option Location) : Tree → Tree
  | literal text n place => literal text n place
  | t => group opening t closing

/-- An operator with its operands, evaluated if both of them are literals. -/
def joined (opening : Option Location) (l : Tree) (o : Operator) (place : Option Location)
    (r : Tree) (closing : Option Location) : Except Failure Tree :=
  match l, r with
  | literal _ a start, literal _ b _ =>
    -- the number must be written into the stream, which fails if it is too long
    match o.apply a b with
    | some n =>
      if Numeral.isWritable n then .ok (literal (Numeral.decimal n) n start)
      else .error (.numeral .tooLarge)
    | none => .error (.report o.zeroProblem place)
  | l, r => .ok (node opening l o place r closing)

/-- A tree with the values of names in the place of the names. -/
def substitute (ρ : String → Option Int) : Tree → Tree
  | literal text n place => literal text n place
  | name x place =>
    match ρ x with
    | some n => literal (Numeral.decimal n) n place
    | none => name x place
  | group opening t closing => group opening (t.substitute ρ) closing
  | node opening l o place r closing =>
    node opening (l.substitute ρ) o place (r.substitute ρ) closing

/-- A tree with the values of names put in and everything evaluated that can be. -/
def refine (ρ : String → Option Int) : Tree → Except Failure Tree
  | literal text n place => .ok (literal text n place)
  | name x place => .ok ((name x place).substitute ρ)
  | group opening t closing => do
    let t ← t.refine ρ
    return t.enclosed opening closing
  | node opening l o place r closing => do
    let l ← l.refine ρ
    let r ← r.refine ρ
    joined opening l o place r closing

/-- Only a literal is a number. -/
theorem eq_literal_of_value? {t : Tree} {n : Int} (h : t.value? = some n) :
    ∃ text place, t = literal text n place := by
  cases t with
  | literal text m place =>
    cases h
    exact ⟨text, place, rfl⟩
  | name _ _ => cases h
  | group _ _ _ => cases h
  | node _ _ _ _ _ _ => cases h

/-- The parentheses stay around anything else. -/
theorem enclosed_eq_group {t : Tree} (h : t.value? = none) (opening closing : Option Location) :
    t.enclosed opening closing = group opening t closing := by
  cases t with
  | literal _ _ _ => cases h
  | name _ _ => rfl
  | group _ _ _ => rfl
  | node _ _ _ _ _ _ => rfl

/-- An operator stays unless both operands are literals. -/
theorem joined_eq_node {l r : Tree} (h : l.value? = none ∨ r.value? = none)
    (opening : Option Location) (o : Operator) (place closing : Option Location) :
    joined opening l o place r closing = .ok (node opening l o place r closing) := by
  -- of the sixteen shapes only two literals are evaluated, and `h` excludes them
  cases l <;> cases r <;> first | rfl | (rcases h with h | h <;> cases h)

/-- What an operator with its operands can become: it stays, or it is a number. -/
theorem joined_cases {l r t : Tree} {o : Operator} {opening place closing : Option Location}
    (h : joined opening l o place r closing = .ok t) :
    (t = node opening l o place r closing ∧ (l.value? = none ∨ r.value? = none)) ∨
      ∃ text a start b n, l = literal text a start ∧ r.value? = some b ∧ o.apply a b = some n ∧
        t = literal (Numeral.decimal n) n start := by
  cases hl : l.value? with
  | none =>
    rw [joined_eq_node (.inl hl)] at h
    exact .inl ⟨(Except.ok.inj h).symm, .inl rfl⟩
  | some a =>
    cases hr : r.value? with
    | none =>
      rw [joined_eq_node (.inr hr)] at h
      exact .inl ⟨(Except.ok.inj h).symm, .inr rfl⟩
    | some b =>
      -- both are literals, so the operator has been applied and its number written
      obtain ⟨text, start, rfl⟩ := eq_literal_of_value? hl
      obtain ⟨_, _, rfl⟩ := eq_literal_of_value? hr
      rw [joined] at h
      split at h
      · next n hn =>
        split at h
        · exact .inr ⟨text, a, start, b, n, rfl, rfl, hn, (Except.ok.inj h).symm⟩
        · cases h
      · cases h

/-- Why an operator with its operands can have no value. -/
theorem joined_eq_error {l r : Tree} {o : Operator} {opening place closing : Option Location}
    {failure : Failure} (h : joined opening l o place r closing = .error failure) :
    ∃ a b, l.value? = some a ∧ r.value? = some b ∧
      ((∃ n, o.apply a b = some n ∧ Numeral.isWritable n = false) ∨
        (o.apply a b = none ∧ failure = .report o.zeroProblem place)) := by
  cases hl : l.value? with
  | none =>
    rw [joined_eq_node (.inl hl)] at h
    cases h
  | some a =>
    cases hr : r.value? with
    | none =>
      rw [joined_eq_node (.inr hr)] at h
      cases h
    | some b =>
      obtain ⟨_, _, rfl⟩ := eq_literal_of_value? hl
      obtain ⟨_, _, rfl⟩ := eq_literal_of_value? hr
      refine ⟨a, b, rfl, rfl, ?_⟩
      rw [joined] at h
      split at h
      · next n hn =>
        split at h
        · cases h
        · next hwritable => exact .inl ⟨n, hn, by simpa using hwritable⟩
      · next hnone => exact .inr ⟨hnone, (Except.error.inj h).symm⟩

/-- Values can be put in first and everything evaluated afterwards. -/
theorem refine_substitute (ρ : String → Option Int) (t : Tree) :
    (t.substitute ρ).refine (fun _ => none) = t.refine ρ := by
  induction t with
  | literal text n place => rfl
  | name x place =>
    rw [refine, substitute]
    cases ρ x <;> rfl
  | group opening t closing ih => rw [substitute, refine, refine, ih]
  | node opening l o place r closing ihl ihr => rw [substitute, refine, refine, ihl, ihr]

/-- Parentheses that are left out make no difference to what a tree is refined to. -/
theorem refine_enclosed (ρ : String → Option Int) (t : Tree) (opening closing : Option Location) :
    (t.enclosed opening closing).refine ρ = (group opening t closing).refine ρ := by
  cases t <;> rfl

theorem refine_of_value? {t : Tree} {n : Int} (h : t.value? = some n) (ρ : String → Option Int) :
    t.refine ρ = .ok t := by
  obtain ⟨text, place, rfl⟩ := eq_literal_of_value? h
  rfl

/-- It makes no difference if an operator is evaluated early. -/
theorem refine_joined {ρ : String → Option Int} {l r t : Tree} {o : Operator}
    {opening place closing : Option Location} (h : joined opening l o place r closing = .ok t) :
    t.refine ρ = (node opening l o place r closing).refine ρ := by
  rcases joined_cases h with ⟨rfl, -⟩ | ⟨text, a, start, b, n, rfl, hr, -, rfl⟩
  · rfl
  · -- two literals have been evaluated, and would be again
    rw [refine, refine, refine, refine_of_value? hr]
    exact h.symm

/-- **Refining twice is refining once**, with the values known the second time. -/
theorem refine_refine {ρ σ : String → Option Int} (hσ : Extends ρ σ) {t t' : Tree}
    (h : t.refine ρ = .ok t') : t'.refine σ = t.refine σ := by
  induction t generalizing t' with
  | literal text n place =>
    cases h
    rfl
  | name x place =>
    cases h
    rw [substitute]
    cases hx : ρ x with
    | none => rfl
    -- the literal that was put in is the one that `σ` would put in
    | some n => rw [refine, refine, substitute, hσ x n hx]
  | group opening t closing ih =>
    obtain ⟨u, hu, h⟩ := Trace.except_bind_eq_ok.1 h
    cases h
    rw [refine_enclosed, refine, refine, ih hu]
  | node opening l o place r closing ihl ihr =>
    obtain ⟨l', hl, h⟩ := Trace.except_bind_eq_ok.1 h
    obtain ⟨r', hr, h⟩ := Trace.except_bind_eq_ok.1 h
    -- an evaluated operator is a literal, which stays; one that was left is looked at again
    rw [refine_joined h, refine, refine, ihl hl, ihr hr]

/-- **A refined tree is a literal exactly if the tree has a value**, which it then is. -/
theorem value?_refine {ρ : String → Option Int} {t t' : Tree} (h : t.refine ρ = .ok t') :
    t'.value? = t.eval ρ := by
  induction t generalizing t' with
  | literal text n place =>
    cases h
    rfl
  | name x place =>
    cases h
    rw [substitute, eval]
    cases ρ x <;> rfl
  | group opening t closing ih =>
    obtain ⟨u, hu, h⟩ := Trace.except_bind_eq_ok.1 h
    cases h
    rw [eval, ← ih hu]
    -- parentheses go away exactly around a literal
    cases u <;> rfl
  | node opening l o place r closing ihl ihr =>
    obtain ⟨l', hl, h⟩ := Trace.except_bind_eq_ok.1 h
    obtain ⟨r', hr, h⟩ := Trace.except_bind_eq_ok.1 h
    rw [eval, ← ihl hl, ← ihr hr]
    -- an operand is no literal and there is no value, or both are and the result is one
    rcases joined_cases h with ⟨rfl, hnone | hnone⟩ | ⟨text, a, start, b, n, rfl, hb, hn, rfl⟩
    · rw [hnone]
      rfl
    · rw [hnone]
      cases l'.value? <;> rfl
    · rw [hb]
      exact hn.symm

theorem names_of_value? {t : Tree} {n : Int} (h : t.value? = some n) : t.names = [] := by
  obtain ⟨text, place, rfl⟩ := eq_literal_of_value? h
  rfl

/-- The names of a refined tree are those that have no value yet. -/
theorem names_refine {ρ : String → Option Int} {t t' : Tree} (h : t.refine ρ = .ok t') :
    t'.names = t.names.filter fun x => (ρ x).isNone := by
  induction t generalizing t' with
  | literal text n place =>
    cases h
    rfl
  | name x place =>
    cases h
    rw [substitute, names]
    cases hx : ρ x <;> simp [names, hx]
  | group opening t closing ih =>
    obtain ⟨u, hu, h⟩ := Trace.except_bind_eq_ok.1 h
    cases h
    rw [names, ← ih hu]
    -- whether the parentheses have gone or not, no names have gone with them
    cases u <;> rfl
  | node opening l o place r closing ihl ihr =>
    obtain ⟨l', hl, h⟩ := Trace.except_bind_eq_ok.1 h
    obtain ⟨r', hr, h⟩ := Trace.except_bind_eq_ok.1 h
    rw [names, List.filter_append, ← ihl hl, ← ihr hr]
    rcases joined_cases h with ⟨rfl, -⟩ | ⟨text, a, start, b, n, rfl, hb, -, rfl⟩
    · rfl
    · rw [names_of_value? hb]
      rfl

/-- Where all names of a tree have values, a refined tree is a literal. -/
theorem exists_eval_of_refine {ρ : String → Option Int} {t t' : Tree} (h : t.refine ρ = .ok t')
    (hρ : ∀ x ∈ t.names, ρ x ≠ none) : ∃ n, t.eval ρ = some n := by
  induction t generalizing t' with
  | literal text n place => exact ⟨n, rfl⟩
  | name x place => exact Option.ne_none_iff_exists'.1 (hρ x (by simp [names]))
  | group opening t closing ih =>
    obtain ⟨u, hu, -⟩ := Trace.except_bind_eq_ok.1 h
    exact ih hu hρ
  | node opening l o place r closing ihl ihr =>
    obtain ⟨l', hl, hjoined⟩ := Trace.except_bind_eq_ok.1 h
    obtain ⟨r', hr, hjoined⟩ := Trace.except_bind_eq_ok.1 hjoined
    obtain ⟨a, ha⟩ := ihl hl fun x hx => hρ x (List.mem_append_left _ hx)
    obtain ⟨b, hb⟩ := ihr hr fun x hx => hρ x (List.mem_append_right _ hx)
    rw [← value?_refine h]
    -- an operator is left only if an operand is no literal, but both have values
    rcases joined_cases hjoined with ⟨rfl, hnone | hnone⟩ | ⟨_, _, _, _, n, -, -, -, rfl⟩
    · rw [value?_refine hl, ha] at hnone
      cases hnone
    · rw [value?_refine hr, hb] at hnone
      cases hnone
    · exact ⟨n, rfl⟩

/-! ### Divisions by zero -/

/-- A division of a tree has operands with values, the second of them zero. -/
def Fails (ρ : String → Option Int) (t : Tree) : Prop :=
  ∃ d ∈ t.divisions, (∃ a, d.1.eval ρ = some a) ∧ d.2.eval ρ = some 0

/-- Where the numbers that arise can be written, refining fails only at a division by zero, and that
is reported at the location of an operator. -/
theorem refine_eq_error {ρ : String → Option Int} {t : Tree} {failure : Failure}
    (hlegible : t.Legible ρ) (h : t.refine ρ = .error failure) :
    t.Fails ρ ∧ ∃ o : Operator, ∃ s ∈ t.symbols, o.divides = true ∧
      failure = .report o.zeroProblem s.location := by
  induction t with
  | literal text n place => cases h
  | name x place => cases h
  | group opening t closing ih =>
    rw [refine] at h
    cases ht : t.refine ρ with
    | ok u =>
      rw [ht] at h
      cases h
    | error f =>
      rw [ht] at h
      cases h
      obtain ⟨hfails, o, s, hs, ho⟩ := ih hlegible ht
      exact ⟨hfails, o, s, by simp [symbols, hs], ho⟩
  | node opening l o place r closing ihl ihr =>
    -- the first failure counts: on the left, on the right, or where the two are joined
    obtain ⟨hl, hr, hn⟩ := hlegible
    rw [refine] at h
    cases hl' : l.refine ρ with
    | error f =>
      rw [hl'] at h
      cases h
      obtain ⟨⟨d, hd, hzero⟩, p, s, hs, hp⟩ := ihl hl hl'
      exact ⟨⟨d, by simp [divisions, hd], hzero⟩, p, s, by simp [symbols, hs], hp⟩
    | ok l' =>
      cases hr' : r.refine ρ with
      | error f =>
        rw [hl', hr'] at h
        cases h
        obtain ⟨⟨d, hd, hzero⟩, p, s, hs, hp⟩ := ihr hr hr'
        exact ⟨⟨d, by simp [divisions, hd], hzero⟩, p, s, by simp [symbols, hs], hp⟩
      | ok r' =>
        rw [hl', hr'] at h
        obtain ⟨a, b, ha, hb, ⟨n, happly, hlong⟩ | ⟨happly, rfl⟩⟩ := joined_eq_error h
        · -- the result can be written
          rw [← value?_refine hl', ← value?_refine hr', ha, hb] at hn
          rw [hn n happly] at hlong
          cases hlong
        · -- the operator has no value, so it divides by zero
          rw [value?_refine hl'] at ha
          rw [value?_refine hr'] at hb
          obtain ⟨ho, rfl⟩ := Operator.apply_eq_none.1 happly
          exact ⟨⟨(l, r), by simp [divisions, ho], ⟨a, ha⟩, hb⟩, o, o.symbol place,
            by simp [symbols], ho, rfl⟩

/-- A tree that can be refined has no division by zero. -/
theorem not_fails_of_refine {ρ : String → Option Int} {t t' : Tree} (h : t.refine ρ = .ok t') :
    ¬ t.Fails ρ := by
  rintro ⟨d, hd, ⟨a, ha⟩, hzero⟩
  induction t generalizing t' with
  | literal text n place => cases hd
  | name x place => cases hd
  | group opening t closing ih =>
    obtain ⟨u, hu, -⟩ := Trace.except_bind_eq_ok.1 h
    exact ih hu hd
  | node opening l o place r closing ihl ihr =>
    obtain ⟨l', hl, h⟩ := Trace.except_bind_eq_ok.1 h
    obtain ⟨r', hr, h⟩ := Trace.except_bind_eq_ok.1 h
    rw [divisions, List.mem_append, List.mem_append] at hd
    -- the division is on the left, on the right, or at the root
    rcases hd with (hd | hd) | hd
    · exact ihl hl hd
    · exact ihr hr hd
    · -- the division at the root would have been evaluated
      split at hd
      · next ho =>
        rw [List.mem_singleton] at hd
        subst hd
        rcases joined_cases h with ⟨-, hnone | hnone⟩ | ⟨_, _, _, b, n, -, hb, hn, -⟩
        · rw [value?_refine hl, ha] at hnone
          cases hnone
        · rw [value?_refine hr, hzero] at hnone
          cases hnone
        · rw [value?_refine hr, hzero] at hb
          cases hb
          rw [Operator.apply_eq_none.2 ⟨ho, rfl⟩] at hn
          cases hn
      · cases hd

/-- A tree that has a value has no division by zero. -/
theorem not_fails_of_eval {ρ : String → Option Int} {t : Tree} {n : Int}
    (ht : t.eval ρ = some n) : ¬ t.Fails ρ := by
  rintro ⟨d, hd, hdividend, hzero⟩
  induction t generalizing n with
  | literal text m place => cases hd
  | name x place => cases hd
  | group opening t closing ih => exact ih ht hd
  | node opening l o place r closing ihl ihr =>
    -- a tree with a value has values at all its nodes, so `ihl` and `ihr` apply
    obtain ⟨a, b, ha, hb, hn⟩ := Operator.between_eq_some.1 ht
    rw [divisions, List.mem_append, List.mem_append] at hd
    rcases hd with (hd | hd) | hd
    · exact ihl ha hd
    · exact ihr hb hd
    · -- the division at the root has a value as well, so its divisor is not zero
      split at hd
      · next ho =>
        rw [List.mem_singleton] at hd
        subst hd
        rw [hb] at hzero
        cases hzero
        rw [Operator.apply_eq_none.2 ⟨ho, rfl⟩] at hn
        cases hn
      · cases hd

/-! ### Weight -/

/-- **Refining makes progress.** A refined tree is lighter, unless nothing has changed. -/
theorem weight_refine {ρ : String → Option Int} {t t' : Tree} (h : t.refine ρ = .ok t') :
    t' = t ∨ weight t'.symbols < weight t.symbols := by
  -- along the tree; what is refined in a part makes that part lighter
  induction t generalizing t' with
  | literal text n place =>
    cases h
    exact .inl rfl
  | name x place =>
    cases h
    rw [substitute]
    cases ρ x with
    | none => exact .inl rfl
    | some n =>
      right
      -- a name weighs two and a literal one
      change 1 < 2
      decide
  | group opening t closing ih =>
    obtain ⟨u, hu, h⟩ := Trace.except_bind_eq_ok.1 h
    cases h
    cases hv : u.value? with
    | none =>
      rw [enclosed_eq_group hv]
      refine (ih hu).imp (fun h => by rw [h]) fun h => ?_
      simpa [symbols] using h
    | some n =>
      -- the two parentheses are gone
      right
      obtain ⟨text, place, rfl⟩ := eq_literal_of_value? hv
      have hopen := weigh_pos (.ofOperator "(" opening)
      have hclose := weigh_pos (.ofOperator ")" closing)
      change 1 < weight (group opening t closing).symbols
      simp only [symbols, weight_append, weight_cons, weight_nil]
      omega
  | node opening l o place r closing ihl ihr =>
    obtain ⟨l', hl, h⟩ := Trace.except_bind_eq_ok.1 h
    obtain ⟨r', hr, h⟩ := Trace.except_bind_eq_ok.1 h
    rcases joined_cases h with ⟨rfl, -⟩ | ⟨text, a, start, b, n, rfl, hb, -, rfl⟩
    · -- the operator stays; then it is lighter if one of its operands is
      rcases ihl hl with rfl | hlt
      · refine (ihr hr).imp (fun h => by rw [h]) fun h => ?_
        simpa [symbols] using h
      · right
        have hle : weight r'.symbols ≤ weight r.symbols := by
          rcases ihr hr with rfl | hlt'
          · exact Nat.le_refl _
          · exact Nat.le_of_lt hlt'
        simp only [symbols, weight_append, weight_cons]
        omega
    · -- one number is left of at least two symbols
      right
      have hopen := weigh_pos (.ofOperator "(" opening)
      have hoperator := weigh_pos (o.symbol place)
      change 1 < weight (node opening l o place r closing).symbols
      simp only [symbols, weight_append, weight_cons]
      omega

end Tree

end RomAsm
