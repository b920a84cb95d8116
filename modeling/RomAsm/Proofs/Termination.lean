import RomAsm.Proofs.Rewriting

/-!
# Resolution comes to an end

A round tells whether it has changed anything, and it tells the truth: without progress the program
is the same as before, and with progress the stream has lost a symbol or a name (`round_progress`).
Symbols and names together are the `size` of a stream, so there are no more rounds than that, and
one more to see that nothing changes any longer.

`Settles p n last` says that resolution takes `n` rounds on `p`, and what the last of them comes to;
a round may also fail. Such rounds always exist (`exists_settles`), the outcome of a resolution is
read off the last one (`Settles.outcome_resolve`), and that one can be repeated at will
(`Settles.outcome_round`). So resolving a resolved program leaves it alone.
-/

namespace RomAsm.Resolution

/-! ### What a round changes -/

/-- The number of symbols of a stream, where a name counts twice. -/
def size (symbols : List Symbol) : Nat := symbols.length + symbols.countP Symbol.isIdentifier

/-- The weight that the rounds are counted down by is the size. -/
theorem weight_eq_size (symbols : List Symbol) : weight symbols = size symbols := by
  induction symbols with
  | nil => rfl
  | cons s rest ih =>
    rw [weight_cons, ih, size, size, List.length_cons, List.countP_cons, weigh]
    split <;> omega

/-- **The flag of a round is exact.** It is set if the stream has become smaller, and not set if the
program is still the same. -/
theorem round_progress {p : Program} {r : Round} (h : (round p).outcome = .ok r) :
    (r.progressed = false → r.program = p) ∧
      (r.progressed = true → size r.program.symbols < size p.symbols) := by
  refine ⟨round_unchanged h, fun hr => ?_⟩
  rw [← weight_eq_size, ← weight_eq_size]
  exact weight_round_lt h hr

/-! ### All rounds -/

/-- The rounds that resolution takes: how many they are, and what the last of them comes to. -/
inductive Settles : Program → Nat → Except Failure Round → Prop where
  | failed {p : Program} {f : Failure} (h : (round p).outcome = .error f) :
      Settles p 1 (.error f)
  | rest {p : Program} {r : Round} (h : (round p).outcome = .ok r) (hr : r.progressed = false) :
      Settles p 1 (.ok r)
  | progress {p : Program} {r : Round} {n : Nat} {last : Except Failure Round}
      (h : (round p).outcome = .ok r) (hr : r.progressed = true)
      (hlater : Settles r.program n last) : Settles p (n + 1) last

/-- **There are no more rounds than the size of the stream and one.** -/
theorem exists_settles (p : Program) : ∃ n last, n ≤ size p.symbols + 1 ∧ Settles p n last := by
  -- on the size, which every round with progress makes smaller
  induction hn : size p.symbols using Nat.strongRecOn generalizing p with
  | ind m ih =>
    cases hround : (round p).outcome with
    | error f => exact ⟨1, _, Nat.le_add_left 1 m, .failed hround⟩
    | ok r =>
      cases hr : r.progressed with
      | false => exact ⟨1, _, Nat.le_add_left 1 m, .rest hround hr⟩
      | true =>
        -- the later rounds work on a smaller stream
        have hlt : size r.program.symbols < m := hn ▸ (round_progress hround).2 hr
        obtain ⟨n, last, hle, hlater⟩ := ih _ hlt r.program rfl
        exact ⟨n + 1, last, by omega, .progress hround hr hlater⟩

/-- What resolution makes of its last round. -/
def conclude (r : Round) : Except Failure Program := do
  check r
  (recordTags r.program.tags).outcome
  return r.program

namespace Settles

variable {p : Program} {n : Nat}

/-- Counting the rounds gives their number. -/
theorem outcome_settle {last : Except Failure Round} (h : Settles p n last) (rounds : Nat) :
    (settle rounds p).outcome = last.map fun r => (rounds + n, r) := by
  induction h generalizing rounds with
  | failed h => exact settle_of_error h rounds
  | rest h hr => exact settle_of_rest h hr rounds
  | @progress p r n last h hr _ ih =>
    rw [settle_of_progress h hr, ih, Nat.add_assoc, Nat.add_comm 1]

/-- The outcome of a resolution is that of its last round, looked over. -/
theorem outcome_resolve {last : Except Failure Round} (h : Settles p n last) :
    (resolve p).outcome = last >>= conclude := by
  rw [resolve, Trace.outcome_bind, h.outcome_settle 0]
  cases last with
  | error f => rfl
  | ok r =>
    simp only [Except.map, Trace.except_ok_bind, Trace.outcome_bind, Logged.debug,
      Trace.outcome_write, Trace.outcome_liftM, Trace.outcome_pure]
    rfl

/-- The last round changes nothing, so it is its own repetition. -/
theorem outcome_round {r : Round} (h : Settles p n (.ok r)) :
    (round r.program).outcome = .ok r ∧ r.progressed = false := by
  -- the last round is at the end of the chain, so the others are passed
  generalize hlast : Except.ok r = last at h
  induction h with
  | failed => cases hlast
  | rest h hr =>
    cases hlast
    -- the program of the last round is the one it was given
    rw [round_unchanged h hr]
    exact ⟨h, hr⟩
  | progress _ _ _ ih => exact ih hlast

end Settles

/-- **Resolution comes to an end.** Whatever the program, the flag of a round tells whether the
round has changed it, and every change makes the stream smaller. So resolution fails or comes to
rest after no more rounds than the stream has symbols and names, and one. Its result is resolved:
to resolve it once more changes nothing. -/
theorem resolve_ends_at_fixpoint (p : Program) :
    (∀ r, (round p).outcome = .ok r →
      (r.progressed = false → r.program.symbols = p.symbols ∧ r.program.tags = p.tags ∧
        r.program.definitions = p.definitions) ∧
      (r.progressed = true →
        r.program.symbols.length + r.program.symbols.countP Symbol.isIdentifier <
          p.symbols.length + p.symbols.countP Symbol.isIdentifier)) ∧
    (∃ n last, n ≤ p.symbols.length + p.symbols.countP Symbol.isIdentifier + 1 ∧
      Settles p n last ∧ (resolve p).outcome = last >>= conclude) ∧
    ∀ q, (resolve p).outcome = .ok q → (resolve q).outcome = .ok q := by
  obtain ⟨n, last, hle, hsettles⟩ := exists_settles p
  refine ⟨?_, ⟨n, last, hle, hsettles, hsettles.outcome_resolve⟩, ?_⟩
  · intro r hr
    obtain ⟨hsame, hsmaller⟩ := round_progress hr
    refine ⟨?_, hsmaller⟩
    intro hrest
    rw [hsame hrest]
    exact ⟨rfl, rfl, rfl⟩
  · -- the last round would be the only one
    intro q hq
    rw [hsettles.outcome_resolve] at hq
    obtain ⟨r, rfl, hr⟩ := Trace.except_bind_eq_ok.1 hq
    obtain rfl : r.program = q := by
      obtain ⟨_, -, hr⟩ := Trace.except_bind_eq_ok.1 hr
      obtain ⟨_, -, hr⟩ := Trace.except_bind_eq_ok.1 hr
      exact Except.ok.inj hr
    obtain ⟨hround, hrest⟩ := hsettles.outcome_round
    rw [(Settles.rest hround hrest).outcome_resolve]
    exact hr

end RomAsm.Resolution
