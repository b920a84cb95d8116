import Mathlib.Data.List.Nodup
import RomAsm.Proofs.Refining

/-!
# Which names have a value, and which value

Labels have their addresses, and constants are defined by expressions that may refer to labels and
to other constants, in any order. What the values should be is said here without any reference to
how they are found:

* `Determined` — the least set of names that has the labels and, with all names of its expression,
  each constant;
* `HasValue` — the value that follows for a determined name;
* `Faulty` — some division that can be evaluated is a division by zero;
* `Solves` — a valuation gives every constant the value of its expression.

A name has at most one value (`HasValue.unique`), and if no division is faulty then the names with
a value are the determined ones. Nothing here depends on the order of the definitions
(`Determined.mono`, `HasValue.mono`, `Faulty.mono`).
-/

namespace RomAsm

/-- The definition of a constant, with a place `π` for each of its tokens. -/
structure Definition (π : Type) where
  name : String
  place : π
  equals : π
  expression : Expression π .sum

/-- The symbols of a definition, as it is written. -/
def Definition.symbols (d : Definition (Option Location)) : List Symbol :=
  ⟨.identifier, d.name, none, d.place⟩ :: .ofOperator "=" d.equals :: d.expression.symbols

/-! ### Values of expressions -/

namespace Expression

variable {π : Type} {r : Rank} {ρ σ : String → Option Int}

/-- The value of an expression depends on its names only. -/
theorem eval_congr (e : Expression π r) (h : ∀ x ∈ e.names, ρ x = σ x) : e.eval ρ = e.eval σ := by
  induction e with
  | literal _ _ _ => rfl
  | name x _ => exact h x List.mem_cons_self
  | group _ e _ ih => exact ih h
  | ofAtom a ih => exact ih h
  | scaled p s _ a ihp iha =>
    rw [eval, eval, ihp fun x hx => h x (List.mem_append_left _ hx),
      iha fun x hx => h x (List.mem_append_right _ hx)]
  | ofProduct p ih => exact ih h
  | signed s _ p ih => rw [eval, eval, ih h]
  | summed e s _ p ihe ihp =>
    rw [eval, eval, ihe fun x hx => h x (List.mem_append_left _ hx),
      ihp fun x hx => h x (List.mem_append_right _ hx)]

/-- An expression has a value only if all its names do. -/
theorem exists_of_eval {e : Expression π r} {n : Int} (h : e.eval ρ = some n) :
    ∀ x ∈ e.names, ∃ m, ρ x = some m := by
  induction e generalizing n with
  | literal _ _ _ => exact nofun
  | name x _ =>
    rintro y hy
    obtain rfl := List.mem_singleton.1 hy
    exact ⟨n, h⟩
  | group _ e _ ih => exact ih h
  | ofAtom a ih => exact ih h
  | scaled p s _ a ihp iha =>
    obtain ⟨a, b, ha, hb, -⟩ := Operator.between_eq_some.1 h
    intro x hx
    exact (List.mem_append.1 hx).elim (ihp ha x) (iha hb x)
  | ofProduct p ih => exact ih h
  | signed s _ p ih =>
    obtain ⟨a, b, -, hb, -⟩ := Operator.between_eq_some.1 h
    exact ih hb
  | summed e s _ p ihe ihp =>
    obtain ⟨a, b, ha, hb, -⟩ := Operator.between_eq_some.1 h
    intro x hx
    exact (List.mem_append.1 hx).elim (ihe ha x) (ihp hb x)

/-- More values of names do not change the value of an expression. -/
theorem eval_mono (h : Extends ρ σ) {e : Expression π r} {n : Int} (he : e.eval ρ = some n) :
    e.eval σ = some n := by
  rw [← he]
  refine e.eval_congr fun x hx => ?_
  -- only the names of the expression matter, and these have values already
  obtain ⟨m, hm⟩ := exists_of_eval he x hx
  rw [hm, h x m hm]

/-- What is legible with some values is legible with fewer of them. -/
theorem Legible.of_extends {e : Expression π r} (he : e.Legible σ) (h : Extends ρ σ) :
    e.Legible ρ := by
  -- an operator that has a value with fewer names has the same value with more of them
  have hbetween {o : Operator} {x x' y y' : Option Int} (hx : ∀ n, x = some n → x' = some n)
      (hy : ∀ n, y = some n → y' = some n)
      (hσ : ∀ n, o.between x' y' = some n → Numeral.isWritable n = true) :
      ∀ n, o.between x y = some n → Numeral.isWritable n = true := by
    intro n hn
    obtain ⟨a, b, ha, hb, hab⟩ := Operator.between_eq_some.1 hn
    exact hσ n (Operator.between_eq_some.2 ⟨a, b, hx a ha, hy b hb, hab⟩)
  induction e with
  | literal _ _ _ => trivial
  | name _ _ => trivial
  | group _ e _ ih => exact ih he
  | ofAtom a ih => exact ih he
  | scaled p s _ a ihp iha =>
    exact ⟨ihp he.1, iha he.2.1, hbetween (fun _ => eval_mono h) (fun _ => eval_mono h) he.2.2⟩
  | ofProduct p ih => exact ih he
  | signed s _ p ih => exact ⟨ih he.1, hbetween (fun _ hn => hn) (fun _ => eval_mono h) he.2⟩
  | summed e s _ p ihe ihp =>
    exact ⟨ihe he.1, ihp he.2.1, hbetween (fun _ => eval_mono h) (fun _ => eval_mono h) he.2.2⟩

/-- An expression whose names all have values has a value too, or divides by zero somewhere. -/
theorem exists_eval_or_division (e : Expression π r) (h : ∀ x ∈ e.names, ∃ m, ρ x = some m) :
    (∃ n, e.eval ρ = some n) ∨
      ∃ d ∈ e.divisions, (∃ a, d.1.eval ρ = some a) ∧ d.2.eval ρ = some 0 := by
  induction e with
  | literal _ n _ => exact .inl ⟨n, rfl⟩
  | name x _ => exact .inl (h x List.mem_cons_self)
  | group _ e _ ih => exact ih h
  | ofAtom a ih => exact ih h
  | scaled p s _ a ihp iha =>
    -- both operands have values, or the division by zero in one of them is the one that is looked
    -- for
    rcases ihp fun x hx => h x (List.mem_append_left _ hx) with ⟨m, hm⟩ | ⟨d, hd, hzero⟩
    · rcases iha fun x hx => h x (List.mem_append_right _ hx) with ⟨n, hn⟩ | ⟨d, hd, hzero⟩
      · cases happly : (Operator.scaling s).apply m n with
        | some k => exact .inl ⟨k, Operator.between_eq_some.2 ⟨m, n, hm, hn, happly⟩⟩
        | none =>
          -- the operator itself has no value only if it divides by zero
          obtain ⟨hdivides, rfl⟩ := Operator.apply_eq_none.1 happly
          exact .inr ⟨(p, a), by simp [divisions, hdivides], ⟨m, hm⟩, hn⟩
      · exact .inr ⟨d, by simp [divisions, hd], hzero⟩
    · exact .inr ⟨d, by simp [divisions, hd], hzero⟩
  | ofProduct p ih => exact ih h
  | signed s _ p ih =>
    rcases ih h with ⟨n, hn⟩ | hzero
    · exact .inl (by cases s <;> simp [eval, hn, Operator.between, Operator.apply])
    · exact .inr hzero
  | summed e s _ p ihe ihp =>
    rcases ihe fun x hx => h x (List.mem_append_left _ hx) with ⟨m, hm⟩ | ⟨d, hd, hzero⟩
    · rcases ihp fun x hx => h x (List.mem_append_right _ hx) with ⟨n, hn⟩ | ⟨d, hd, hzero⟩
      · exact .inl (by cases s <;> simp [eval, hm, hn, Operator.between, Operator.apply])
      · exact .inr ⟨d, List.mem_append_right _ hd, hzero⟩
    · exact .inr ⟨d, List.mem_append_left _ hd, hzero⟩

/-- In an expression with a value no divisor is zero. -/
theorem exists_divisor {e : Expression π r} {n : Int} (h : e.eval ρ = some n)
    {d : Expression π .product × Expression π .atom} (hd : d ∈ e.divisions) :
    ∃ k, d.2.eval ρ = some k ∧ k ≠ 0 := by
  induction e generalizing n with
  | literal _ _ _ => cases hd
  | name _ _ => cases hd
  | group _ e _ ih => exact ih h hd
  | ofAtom a ih => exact ih h hd
  | scaled p s _ a ihp iha =>
    obtain ⟨m, k, hm, hk, happly⟩ := Operator.between_eq_some.1 h
    simp only [divisions, List.mem_append] at hd
    rcases hd with (hd | hd) | hd
    · exact ihp hm hd
    · exact iha hk hd
    · split at hd
      · next hdivides =>
        obtain rfl := List.mem_singleton.1 hd
        -- `e` has a value, so this operator has one, which it would not have with the divisor zero
        refine ⟨k, hk, ?_⟩
        rintro rfl
        rw [Operator.apply_eq_none.2 ⟨hdivides, rfl⟩] at happly
        cases happly
      · cases hd
  | ofProduct p ih => exact ih h hd
  | signed s _ p ih =>
    obtain ⟨_, k, -, hk, -⟩ := Operator.between_eq_some.1 h
    exact ih hk hd
  | summed e s _ p ihe ihp =>
    obtain ⟨m, k, hm, hk, -⟩ := Operator.between_eq_some.1 h
    exact (List.mem_append.1 hd).elim (ihe hm) (ihp hk)

/-- The divisions in the dividend of a division are divisions of the whole expression. -/
theorem divisions_dividend {e : Expression π r} {d c : Expression π .product × Expression π .atom}
    (hd : d ∈ e.divisions) (hc : c ∈ d.1.divisions) : c ∈ e.divisions := by
  induction e with
  | literal _ _ _ => cases hd
  | name _ _ => cases hd
  | group _ e _ ih => exact ih hd
  | ofAtom a ih => exact ih hd
  | scaled p s _ a ihp iha =>
    simp only [divisions, List.mem_append] at hd ⊢
    rcases hd with (hd | hd) | hd
    · exact .inl (.inl (ihp hd))
    · exact .inl (.inr (iha hd))
    · split at hd
      · -- the division is this operator itself, and its dividend is `p`
        obtain rfl := List.mem_singleton.1 hd
        exact .inl (.inl hc)
      · cases hd
  | ofProduct p ih => exact ih hd
  | signed _ _ p ih => exact ih hd
  | summed e _ _ p ihe ihp =>
    simp only [divisions, List.mem_append] at hd ⊢
    exact hd.imp ihe ihp

end Expression

/-! ### Values of names -/

section Values

variable {π : Type} (labels : Table Int) (definitions : List (Definition π))

/-- The names that get a value: labels, and constants whose expression has such names only. -/
inductive Determined : String → Prop where
  | label {x : String} {n : Int} (h : labels.get? x = some n) : Determined x
  | constant {d : Definition π} (hd : d ∈ definitions)
    (h : ∀ x ∈ d.expression.names, Determined x) : Determined d.name

/-- The value of a name: the address of a label, or the value of the expression of a constant. -/
inductive HasValue : String → Int → Prop where
  | label {x : String} {n : Int} (h : labels.get? x = some n) : HasValue x n
  | constant {d : Definition π} {ρ : String → Option Int} {n : Int} (hd : d ∈ definitions)
    (hρ : ∀ x m, ρ x = some m → HasValue x m) (h : d.expression.eval ρ = some n) :
    HasValue d.name n

/-- A valuation gives names no other values than they have. -/
def Sound (ρ : String → Option Int) : Prop :=
  ∀ x n, ρ x = some n → HasValue labels definitions x n

/-- In one of the expressions, a division with determined operands has a divisor that is zero. -/
def Faulty (expressions : List (Expression π .sum)) : Prop :=
  ∃ e ∈ expressions, ∃ d ∈ e.divisions,
    (∀ x ∈ d.1.names ++ d.2.names, Determined labels definitions x) ∧
      ∃ ρ, Sound labels definitions ρ ∧ d.2.eval ρ = some 0

/-- A valuation has the labels and solves every definition. -/
structure Solves (ρ : String → Option Int) : Prop where
  labels : ∀ x n, labels.get? x = some n → ρ x = some n
  constants : ∀ d ∈ definitions, ∃ n, ρ d.name = some n ∧ d.expression.eval ρ = some n

variable {labels definitions}

/-- A solution has every value that follows from the definitions. -/
theorem Solves.eq_of_hasValue {ρ : String → Option Int} (h : Solves labels definitions ρ)
    {x : String} {n : Int} (hx : HasValue labels definitions x n) : ρ x = some n := by
  -- induction on how the value follows: all names of a definition already have their values in `ρ`
  induction hx with
  | label hlabel => exact h.labels _ _ hlabel
  | @constant d σ n hd _ heval ih =>
    obtain ⟨m, hm, hsolved⟩ := h.constants d hd
    have hσ : d.expression.eval ρ = some n := by
      rw [← heval]
      refine d.expression.eval_congr fun y hy => ?_
      obtain ⟨k, hk⟩ := Expression.exists_of_eval heval y hy
      rw [hk, ih y k hk]
    rw [hm, ← hsolved, hσ]

/-- A name with a value is determined. -/
theorem HasValue.determined {x : String} {n : Int} (h : HasValue labels definitions x n) :
    Determined labels definitions x := by
  induction h with
  | label h => exact .label h
  | constant hd _ h ih =>
    refine .constant hd fun x hx => ?_
    -- the expression has a value, so each of its names has one
    obtain ⟨m, hm⟩ := Expression.exists_of_eval h x hx
    exact ih x m hm

/-- **A name has one value**, if no name is defined twice. -/
theorem HasValue.unique (hdistinct : (definitions.map Definition.name).Nodup)
    (hnew : ∀ d ∈ definitions, labels.get? d.name = none) {x : String} {m n : Int}
    (hm : HasValue labels definitions x m) (hn : HasValue labels definitions x n) : m = n := by
  induction hm generalizing n with
  | label h =>
    cases hn with
    | label h' => exact Option.some.inj (h.symm.trans h')
    | constant hd _ _ => rw [hnew _ hd] at h; cases h
  | @constant d ρ m hd _ h ih =>
    -- no label is a constant, so the value follows from a definition here too, and from the same
    -- one
    generalize hx : d.name = x at hn
    cases hn with
    | label h' =>
      rw [← hx, hnew d hd] at h'
      cases h'
    | @constant d' ρ' _ hd' hρ' h' =>
      obtain rfl : d = d' := List.inj_on_of_nodup_map hdistinct hd hd' hx
      -- both valuations give the names of the expression the same values
      have hcongr : d.expression.eval ρ = d.expression.eval ρ' := by
        refine d.expression.eval_congr fun y hy => ?_
        obtain ⟨a, ha⟩ := Expression.exists_of_eval h y hy
        obtain ⟨b, hb⟩ := Expression.exists_of_eval h' y hy
        rw [ha, hb, ih y a ha (hρ' y b hb)]
      rw [hcongr, h'] at h
      exact (Option.some.inj h).symm

/-! ### The order of definitions does not matter -/

variable {definitions' : List (Definition π)} (hsub : ∀ d ∈ definitions, d ∈ definitions')

include hsub

/-- More definitions determine more names. -/
theorem Determined.mono {x : String} (h : Determined labels definitions x) :
    Determined labels definitions' x := by
  induction h with
  | label h => exact .label h
  | constant hd _ ih => exact .constant (hsub _ hd) ih

/-- More definitions leave the values that follow already. -/
theorem HasValue.mono {x : String} {n : Int} (h : HasValue labels definitions x n) :
    HasValue labels definitions' x n := by
  induction h with
  | label h => exact .label h
  | constant hd _ h ih => exact .constant (hsub _ hd) ih h

/-- More definitions and expressions leave a faulty division faulty. -/
theorem Faulty.mono {expressions expressions' : List (Expression π .sum)}
    (hexpressions : ∀ e ∈ expressions, e ∈ expressions')
    (h : Faulty labels definitions expressions) : Faulty labels definitions' expressions' := by
  obtain ⟨e, he, d, hd, hnames, ρ, hρ, hzero⟩ := h
  exact ⟨e, hexpressions e he, d, hd, fun x hx => (hnames x hx).mono hsub, ρ,
    fun x n hx => (hρ x n hx).mono hsub, hzero⟩

end Values

end RomAsm
