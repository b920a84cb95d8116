import RomAsm.Failure

/-!
# Computations that leave a trace

A `Trace ω α` is a computation that writes entries of type `ω` on its way to a result or a failure.
What was written before a failure stays written. The lemmas say how the entries and the outcome of a
sequence arise from those of its parts, so that statements about results need not mention entries.
-/

namespace RomAsm

/-- The entries that a computation has written, and how it ended. -/
structure Trace (ω α : Type) where
  entries : List ω
  outcome : Except Failure α

namespace Trace

variable {ω α β : Type}

/-- Ends with a result and writes nothing. -/
def result (a : α) : Trace ω α := ⟨[], .ok a⟩

/-- Goes on with the result of the first part, unless that has failed. -/
def andThen (t : Trace ω α) (f : α → Trace ω β) : Trace ω β :=
  match t.outcome with
  | .ok a => ⟨t.entries ++ (f a).entries, (f a).outcome⟩
  | .error e => ⟨t.entries, .error e⟩

instance : Monad (Trace ω) where
  pure := result
  bind := andThen

instance : MonadExceptOf Failure (Trace ω) where
  throw e := ⟨[], .error e⟩
  tryCatch t handle :=
    match t.outcome with
    | .ok _ => t
    | .error e => ⟨t.entries ++ (handle e).entries, (handle e).outcome⟩

/-- Writes one entry. -/
def write (entry : ω) : Trace ω Unit := ⟨[entry], .ok ()⟩

/-- A computation that writes nothing. -/
def ofExcept (outcome : Except Failure α) : Trace ω α := ⟨[], outcome⟩

instance : MonadLift (Except Failure) (Trace ω) where
  monadLift := ofExcept

/-- The first of the monad laws: handing a result on changes nothing. -/
theorem andThen_result (t : Trace ω α) : andThen t result = t := by
  rcases t with ⟨entries, _ | a⟩ <;> simp [andThen, result]

theorem result_andThen (a : α) (f : α → Trace ω β) : andThen (result a) f = f a := by
  simp [andThen, result]

/-- Three parts may be put together in either way, since the entries are appended in the order in
which they are written. -/
theorem andThen_andThen {γ : Type} (t : Trace ω α) (f : α → Trace ω β) (g : β → Trace ω γ) :
    andThen (andThen t f) g = andThen t fun a => andThen (f a) g := by
  rcases t with ⟨entries, _ | a⟩
  · -- the first part has failed, and neither of the others is run
    simp [andThen]
  · -- the second part may fail as well
    cases h : (f a).outcome <;> simp [andThen, h]

instance : LawfulMonad (Trace ω) :=
  LawfulMonad.mk' (Trace ω) andThen_result result_andThen andThen_andThen

/-- A sequence ends with a result exactly if both its parts do. -/
theorem except_bind_eq_ok {ε : Type} {x : Except ε α} {f : α → Except ε β} {b : β} :
    (x >>= f) = .ok b ↔ ∃ a, x = .ok a ∧ f a = .ok b := by
  -- a failure in the first part is the failure of both sides
  cases x <;> simp [bind, Except.bind]

/-- A mapped outcome is a result exactly if the outcome is. -/
theorem except_map_eq_ok {ε : Type} {x : Except ε α} {f : α → β} {b : β} :
    x.map f = .ok b ↔ ∃ a, x = .ok a ∧ f a = b := by
  cases x <;> simp [Except.map]

theorem except_map_eq_error {ε : Type} {x : Except ε α} {f : α → β} {e : ε} :
    x.map f = .error e ↔ x = .error e := by
  cases x <;> simp [Except.map]

/-- Mapping the result of a sequence is mapping that of its last part. -/
theorem except_map_bind {ε γ : Type} (x : Except ε α) (f : α → Except ε β) (g : β → γ) :
    (x >>= f).map g = x >>= fun a => (f a).map g := by
  cases x <;> rfl

@[simp] theorem except_ok_bind {ε : Type} (a : α) (f : α → Except ε β) :
    (Except.ok a >>= f) = f a := rfl

@[simp] theorem except_error_bind {ε : Type} (e : ε) (f : α → Except ε β) :
    (Except.error e >>= f) = .error e := rfl

/-! ### Entries and outcome of the parts -/

@[simp] theorem outcome_pure (a : α) : (pure a : Trace ω α).outcome = .ok a := rfl

@[simp] theorem entries_pure (a : α) : (pure a : Trace ω α).entries = [] := rfl

/-- **The outcome of a sequence** is the sequence of the outcomes: what is written does not matter
to it. -/
@[simp] theorem outcome_bind (t : Trace ω α) (f : α → Trace ω β) :
    (t >>= f).outcome = t.outcome >>= fun a => (f a).outcome := by
  change (andThen t f).outcome = _
  unfold andThen
  -- by the outcome of the first part, which `andThen` looks at
  cases t.outcome <;> rfl

/-- A sequence ends with a result exactly if both its parts do. -/
theorem outcome_bind_eq_ok {t : Trace ω α} {f : α → Trace ω β} {b : β} :
    (t >>= f).outcome = .ok b ↔ ∃ a, t.outcome = .ok a ∧ (f a).outcome = .ok b := by
  rw [outcome_bind, except_bind_eq_ok]

/-- **The entries of a sequence** are those of the first part, and those of the second part if that
is reached. -/
theorem entries_bind (t : Trace ω α) (f : α → Trace ω β) :
    (t >>= f).entries =
      t.entries ++ (match t.outcome with | .ok a => (f a).entries | .error _ => []) := by
  change (andThen t f).entries = _
  unfold andThen
  -- behind a failure nothing is written
  cases t.outcome <;> simp

@[simp] theorem outcome_write (entry : ω) : (write entry).outcome = .ok () := rfl

@[simp] theorem entries_write (entry : ω) : (write entry).entries = [entry] := rfl

@[simp] theorem outcome_ofExcept (outcome : Except Failure α) :
    (ofExcept outcome : Trace ω α).outcome = outcome := rfl

@[simp] theorem entries_ofExcept (outcome : Except Failure α) :
    (ofExcept outcome : Trace ω α).entries = [] := rfl

@[simp] theorem outcome_liftM (outcome : Except Failure α) :
    (liftM outcome : Trace ω α).outcome = outcome := rfl

@[simp] theorem entries_liftM (outcome : Except Failure α) :
    (liftM outcome : Trace ω α).entries = [] := rfl

@[simp] theorem outcome_throw (e : Failure) : (throw e : Trace ω α).outcome = .error e := rfl

@[simp] theorem entries_throw (e : Failure) : (throw e : Trace ω α).entries = [] := rfl

end Trace

end RomAsm
