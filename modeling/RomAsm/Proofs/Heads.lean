import Mathlib.Data.List.Forall2
import RomAsm.Proofs.Placement
import RomAsm.Proofs.Rewriting

/-!
# The heads of a stream

A statement begins with its head, a mnemonic or a directive. No phase adds, drops or moves a head:
they only change what stands behind it. So what a phase does to a stream is told head by head:

* `headsOf_withoutLabels` — layout takes the labels from what stands behind each head;
* `headsOf_steps` — resolution rewrites what stands behind each head, and nothing across heads.

The address counter of the layout moves at heads only. `counters` are its values at each of them and
at the end; `placeFrom_counters` states that a layout that succeeds has counted them, and
`placeFrom_label_get?` that it has given each label the value at the head that comes next.
-/

namespace RomAsm

open Layout Resolution

/-- The heads of a stream, each with what stands behind it. -/
def headsOf : List Symbol → List (Symbol × List Symbol)
  | [] => []
  | s :: rest => if s.startsStatement then (s, rest) :: headsOf rest else headsOf rest

theorem headsOf_cons_head {s : Symbol} (h : s.startsStatement = true) (rest : List Symbol) :
    headsOf (s :: rest) = (s, rest) :: headsOf rest := if_pos h

theorem headsOf_cons_other {s : Symbol} (h : s.startsStatement = false) (rest : List Symbol) :
    headsOf (s :: rest) = headsOf rest := if_neg (by simp [h])

/-- Symbols that are no heads are passed over. -/
theorem headsOf_append {symbols : List Symbol} (h : ∀ s ∈ symbols, s.startsStatement = false)
    (rest : List Symbol) : headsOf (symbols ++ rest) = headsOf rest := by
  induction symbols with
  | nil => rfl
  | cons s symbols ih =>
    rw [List.cons_append, headsOf_cons_other (h s List.mem_cons_self),
      ih fun t ht => h t (List.mem_cons_of_mem s ht)]

/-- What stands behind a head is the end of the stream. -/
theorem suffix_of_mem_headsOf {symbols : List Symbol} {h : Symbol × List Symbol}
    (hmem : h ∈ headsOf symbols) : h.1.startsStatement = true ∧ h.1 :: h.2 <:+ symbols := by
  induction symbols with
  | nil => cases hmem
  | cons s rest ih =>
    -- the head is here or further on
    by_cases hs : s.startsStatement = true
    · rw [headsOf_cons_head hs] at hmem
      rcases List.mem_cons.1 hmem with rfl | hmem
      · exact ⟨hs, List.suffix_rfl⟩
      · exact ⟨(ih hmem).1, (ih hmem).2.trans (List.suffix_cons s rest)⟩
    · rw [headsOf_cons_other (by simpa using hs)] at hmem
      exact ⟨(ih hmem).1, (ih hmem).2.trans (List.suffix_cons s rest)⟩

theorem startsStatement_of_isIdentifier {s : Symbol} (h : s.isIdentifier = true) :
    s.startsStatement = false := by
  simp [Symbol.startsStatement, beq_iff_eq.1 h]

theorem startsStatement_of_isInteger {s : Symbol} (h : s.isInteger = true) :
    s.startsStatement = false := by
  simp [Symbol.startsStatement, beq_iff_eq.1 h]

theorem startsStatement_of_isOp {s : Symbol} {texts : List String} (h : s.isOp texts = true) :
    s.startsStatement = false := by
  have hkind : s.kind = .operator := beq_iff_eq.1 (Bool.and_eq_true_iff.1 h).1
  simp [Symbol.startsStatement, hkind]

/-! ### Labels -/

/-- The stream without its labels. -/
def withoutLabels : List Symbol → List Symbol
  | [] => []
  | [s] => [s]
  | s :: t :: rest =>
    if isLabel s (t :: rest) then withoutLabels rest else s :: withoutLabels (t :: rest)

/-- A symbol that begins no label stays. -/
theorem withoutLabels_cons {s : Symbol} {rest : List Symbol} (h : isLabel s rest = false) :
    withoutLabels (s :: rest) = s :: withoutLabels rest := by
  cases rest with
  | nil => rfl
  | cons t rest => exact if_neg (by simp [h])

theorem withoutLabels_label {s t : Symbol} {rest : List Symbol}
    (h : isLabel s (t :: rest) = true) : withoutLabels (s :: t :: rest) = withoutLabels rest :=
  if_pos h

theorem isLabel_eq_false {s : Symbol} (h : s.isIdentifier = false) (rest : List Symbol) :
    isLabel s rest = false := by
  rw [isLabel, h, Bool.false_and]

/-- The two symbols of a label. -/
theorem of_isLabel {s t : Symbol} {rest : List Symbol} (h : isLabel s (t :: rest) = true) :
    s.isIdentifier = true ∧ t.isOp [":"] = true := Bool.and_eq_true_iff.1 h

/-- **Layout keeps the heads** and takes the labels from what stands behind each of them. -/
theorem headsOf_withoutLabels (symbols : List Symbol) :
    headsOf (withoutLabels symbols) = (headsOf symbols).map fun h => (h.1, withoutLabels h.2) := by
  fun_induction withoutLabels symbols with
  | case1 => rfl
  | case2 s =>
    by_cases hs : s.startsStatement = true
    · rw [headsOf_cons_head hs]
      rfl
    · rw [headsOf_cons_other (by simpa using hs)]
      rfl
  -- a label has no heads, whether it is taken out or not
  | case3 s t rest h ih =>
    obtain ⟨hs, ht⟩ := of_isLabel h
    rw [headsOf_cons_other (startsStatement_of_isIdentifier hs),
      headsOf_cons_other (startsStatement_of_isOp ht), ih]
  | case4 s t rest h ih =>
    by_cases hs : s.startsStatement = true
    · rw [headsOf_cons_head hs, headsOf_cons_head hs, ih]
      rfl
    · rw [headsOf_cons_other (by simpa using hs), headsOf_cons_other (by simpa using hs), ih]

/-! ### Steps -/

/-- What a step of resolution takes away has no heads in it, and neither has what it puts in. -/
theorem Resolution.Redex.startsStatement {rest u v : List Symbol} (h : Redex rest u v) :
    (∀ s ∈ u, s.startsStatement = false) ∧ ∀ s ∈ v, s.startsStatement = false := by
  -- by the four kinds of steps
  cases h with
  | define hname hequals hvalue =>
    simp [startsStatement_of_isIdentifier hname, startsStatement_of_isOp hequals,
      startsStatement_of_isInteger (Bool.and_eq_true_iff.1 hvalue).1]
  | substitute hname hvalue =>
    simp [startsStatement_of_isIdentifier hname, startsStatement_of_isInteger hvalue]
  | ungroup hopening hvalue hclosing =>
    simp [startsStatement_of_isOp hopening, startsStatement_of_isInteger hvalue,
      startsStatement_of_isOp hclosing]
  | evaluate hleft hoperator hright hvalue =>
    simp [startsStatement_of_isInteger hleft, startsStatement_of_isOp hoperator,
      startsStatement_of_isInteger hright, startsStatement_of_isInteger hvalue]

/-- One head before and after some steps. -/
abbrev Rewritten (h k : Symbol × List Symbol) : Prop := h.1 = k.1 ∧ Steps h.2 k.2

/-- One step of resolution keeps the heads. It changes what stands behind those in front of it. -/
theorem headsOf_step {a b : List Symbol} (h : Step a b) :
    List.Forall₂ Rewritten (headsOf a) (headsOf b) := by
  induction h with
  | @here rest u v h =>
    -- neither what is rewritten nor what comes in its place begins a statement
    rw [headsOf_append h.startsStatement.1, headsOf_append h.startsStatement.2]
    exact List.forall₂_same.2 fun h _ => ⟨rfl, .refl⟩
  -- a step further on changes what stands behind this symbol
  | @there s a b h ih =>
    by_cases hs : s.startsStatement = true
    · rw [headsOf_cons_head hs, headsOf_cons_head hs]
      exact .cons ⟨rfl, .single h⟩ ih
    · rw [headsOf_cons_other (by simpa using hs), headsOf_cons_other (by simpa using hs)]
      exact ih

/-- Steps behind each head can be put together. -/
theorem rewritten_trans {xs ys zs : List (Symbol × List Symbol)}
    (hxy : List.Forall₂ Rewritten xs ys) (hyz : List.Forall₂ Rewritten ys zs) :
    List.Forall₂ Rewritten xs zs := by
  induction hxy generalizing zs with
  | nil => exact hyz
  | cons hxy _ ih =>
    cases hyz with
    | cons hyz hmore => exact .cons ⟨hxy.1.trans hyz.1, hxy.2.trans hyz.2⟩ (ih hmore)

/-- **Resolution keeps the heads** and rewrites what stands behind each of them. -/
theorem headsOf_steps {a b : List Symbol} (h : Steps a b) :
    List.Forall₂ Rewritten (headsOf a) (headsOf b) := by
  induction h with
  | refl => exact List.forall₂_same.2 fun h _ => ⟨rfl, .refl⟩
  -- step by step, and head by head
  | tail _ step ih => exact rewritten_trans ih (headsOf_step step)

/-! ### The address counter -/

/-- The values of the address counter at each head, and at the end. -/
def Layout.counters (address : Nat) : List (Symbol × List Symbol) → Except Failure (List Nat)
  | [] => return [address]
  | (s, following) :: more => do
    let next ← step address s following
    return address :: (← counters next more)

/-- The counter at a head, and its values from the next one on. -/
theorem counters_cons {address : Nat} {s : Symbol} {following : List Symbol}
    {more : List (Symbol × List Symbol)} {as : List Nat} :
    counters address ((s, following) :: more) = .ok as ↔
      ∃ next rest, step address s following = .ok next ∧ counters next more = .ok rest ∧
        as = address :: rest := by
  constructor
  · intro h
    obtain ⟨next, hnext, h⟩ := Trace.except_bind_eq_ok.1 h
    obtain ⟨rest, hrest, h⟩ := Trace.except_bind_eq_ok.1 h
    exact ⟨next, rest, hnext, hrest, (Except.ok.inj h).symm⟩
  · rintro ⟨next, rest, hnext, hrest, rfl⟩
    exact Trace.except_bind_eq_ok.2 ⟨next, hnext, Trace.except_bind_eq_ok.2 ⟨rest, hrest, rfl⟩⟩

section Walk

variable {address : Nat} {tags : Table Value} {definitions : Table (Option Location)}
  {program : Program}

/-- **What one step of the layout does**: it gives a label the address, or moves the counter. -/
theorem placeFrom_cases {s : Symbol} {following : List Symbol}
    (h : (placeFrom address tags definitions (s :: following)).outcome = .ok program) :
    (∃ colon rest, following = colon :: rest ∧ isLabel s following = true ∧
        tags.has s.text = false ∧
        (placeFrom address (tags.put s.text (some address))
          (Program.recordPlace definitions s) rest).outcome = .ok program) ∨
      (isLabel s following = false ∧ ∃ next later, step address s following = .ok next ∧
        (placeFrom next tags definitions following).outcome = .ok later ∧
        program = later.behind [s]) := by
  unfold placeFrom at h
  split at h
  · next hlabel =>
    left
    cases following with
    | nil => simp [isLabel] at hlabel
    | cons colon rest =>
      obtain ⟨_, hnew, h⟩ := Trace.outcome_bind_eq_ok.1 h
      obtain ⟨_, -, h⟩ := Trace.outcome_bind_eq_ok.1 h
      obtain ⟨_, -, h⟩ := Trace.outcome_bind_eq_ok.1 h
      exact ⟨colon, rest, rfl, hlabel, has_eq_false hnew, h⟩
  · -- a colon alone would have been reported
    next hlabel =>
    right
    split at h
    · cases h
    · obtain ⟨next, hnext, h⟩ := Trace.outcome_bind_eq_ok.1 h
      obtain ⟨later, hlater, h⟩ := Trace.outcome_bind_eq_ok.1 h
      exact ⟨by simpa using hlabel, next, later, hnext, hlater, (Except.ok.inj h).symm⟩

/-- At the end of the stream layout hands out the tables that it has made. -/
theorem placeFrom_nil (h : (placeFrom address tags definitions []).outcome = .ok program) :
    program = ⟨[], tags, definitions⟩ := by
  rw [placeFrom] at h
  obtain ⟨_, -, h⟩ := Trace.outcome_bind_eq_ok.1 h
  obtain ⟨_, -, h⟩ := Trace.outcome_bind_eq_ok.1 h
  exact (Except.ok.inj h).symm

/-- The heads of a label: there are none. -/
theorem headsOf_label {s t : Symbol} {rest : List Symbol} (h : isLabel s (t :: rest) = true)
    (more : List Symbol) : headsOf (s :: t :: more) = headsOf more := by
  obtain ⟨hs, ht⟩ := of_isLabel h
  rw [headsOf_cons_other (startsStatement_of_isIdentifier hs),
    headsOf_cons_other (startsStatement_of_isOp ht)]

/-- **A layout that succeeds** takes the labels from the stream and has counted the addresses. -/
theorem placeFrom_counters {symbols : List Symbol}
    (h : (placeFrom address tags definitions symbols).outcome = .ok program) :
    program.symbols = withoutLabels symbols ∧
      ∃ as, counters address (headsOf symbols) = .ok as := by
  -- on the length, since a label takes two symbols at once
  induction hn : symbols.length using Nat.strongRecOn
    generalizing symbols address tags definitions program with
  | ind n ih =>
    match symbols with
    | [] =>
      rw [placeFrom_nil h]
      exact ⟨rfl, [address], rfl⟩
    | s :: following =>
      rcases placeFrom_cases h with ⟨colon, rest, rfl, hlabel, -, hrest⟩ |
        ⟨hlabel, next, later, hnext, hlater, rfl⟩
      · -- a label has no heads and leaves the counter alone
        rw [withoutLabels_label hlabel, headsOf_label hlabel]
        exact ih rest.length (by rw [← hn, List.length_cons, List.length_cons]; omega) hrest rfl
      · -- only a head moves the counter
        obtain ⟨hsymbols, as, has⟩ := ih following.length (by simp [← hn]) hlater rfl
        refine ⟨by rw [withoutLabels_cons hlabel, ← hsymbols]; rfl, ?_⟩
        by_cases hs : s.startsStatement = true
        · rw [headsOf_cons_head hs]
          exact ⟨address :: as, counters_cons.2 ⟨next, as, hnext, has, rfl⟩⟩
        · have hs : s.startsStatement = false := by simpa using hs
          obtain rfl := Except.ok.inj ((step_of_not_startsStatement hs _ _).symm.trans hnext)
          rw [headsOf_cons_other hs]
          exact ⟨as, has⟩

/-- Layout does not change what a name stands for. -/
theorem placeFrom_get? {symbols : List Symbol}
    (h : (placeFrom address tags definitions symbols).outcome = .ok program) {x : String}
    {v : Value} (hx : tags.get? x = some v) : program.tags.get? x = some v := by
  -- again on the length, as labels take two symbols
  induction hn : symbols.length using Nat.strongRecOn
    generalizing symbols address tags definitions program with
  | ind n ih =>
    match symbols with
    | [] => rwa [placeFrom_nil h]
    | s :: following =>
      rcases placeFrom_cases h with ⟨colon, rest, rfl, -, hnew, hrest⟩ |
        ⟨-, next, later, -, hlater, rfl⟩
      · -- a label is new, so it is another name
        exact ih rest.length (by rw [← hn, List.length_cons, List.length_cons]; omega) hrest
          (Table.get?_put_of_get? hnew hx _) rfl
      · have hkept : later.tags.get? x = some v :=
          ih following.length (by simp [← hn]) hlater hx rfl
        exact hkept

/-- The first value is the one at which the counting began. -/
theorem counters_zero {hs : List (Symbol × List Symbol)} {as : List Nat}
    (h : counters address hs = .ok as) : as[0]? = some address := by
  match hs with
  | [] => exact Except.ok.inj h ▸ rfl
  | (s, following) :: more =>
    obtain ⟨next, rest, -, -, rfl⟩ := counters_cons.1 h
    rfl

/-- **Labels stand for addresses**: a label has the value of the counter at the next head. -/
theorem placeFrom_label_get? {before rest : List Symbol} {x : Symbol}
    (h : (placeFrom address tags definitions (before ++ x :: rest)).outcome = .ok program)
    (hx : isLabel x rest = true) {as : List Nat}
    (has : counters address (headsOf (before ++ x :: rest)) = .ok as) :
    ∃ n, as[(headsOf before).length]? = some n ∧
      program.tags.get? x.text = some (some (n : Int)) := by
  -- on what stands before the label, from which the counter starts anew at each step
  induction hn : before.length using Nat.strongRecOn
    generalizing before address tags definitions program as with
  | ind n ih =>
    match before with
    | [] =>
      -- nothing before it: the label gets the address that the counter has now
      rcases placeFrom_cases h with ⟨colon, rest, rfl, -, hnew, hrest⟩ | ⟨hlabel, -⟩
      · exact ⟨address, counters_zero has, placeFrom_get? hrest (Table.get?_put_self hnew _)⟩
      · rw [hx] at hlabel
        cases hlabel
    | s :: before =>
      rcases placeFrom_cases h with ⟨colon, rest', hfollowing, hlabel, -, hrest⟩ |
        ⟨hlabel, next, later, hnext, hlater, rfl⟩
      · -- another label comes first, which has no heads
        have hcolon := (of_isLabel (hfollowing ▸ hlabel)).2
        match before with
        | [] =>
          -- a label is an identifier, so it is not the colon of another label
          obtain ⟨rfl, -⟩ := List.cons.inj hfollowing
          have hidentifier : x.isIdentifier = true := (Bool.and_eq_true_iff.1 hx).1
          simp only [Symbol.isIdentifier, Symbol.isOp, Bool.and_eq_true, beq_iff_eq]
            at hidentifier hcolon
          rw [hidentifier] at hcolon
          cases hcolon.1
        | t :: before =>
          obtain ⟨rfl, rfl⟩ := List.cons.inj hfollowing
          have hskip (more : List Symbol) : headsOf (s :: t :: more) = headsOf more :=
            headsOf_label hlabel more
          rw [List.cons_append, List.cons_append, hskip] at has
          rw [hskip]
          exact ih before.length (by rw [← hn, List.length_cons, List.length_cons]; omega) hrest
            has rfl
      · have hbefore : before.length < n := by simp [← hn]
        by_cases hs : s.startsStatement = true
        · -- the head has one counter of its own, and the label is counted from the one behind it
          rw [List.cons_append, headsOf_cons_head hs] at has
          obtain ⟨next', more, hnext', hmore, rfl⟩ := counters_cons.1 has
          obtain rfl := Except.ok.inj (hnext.symm.trans hnext')
          rw [headsOf_cons_head hs, List.length_cons, List.getElem?_cons_succ]
          exact ih before.length hbefore hlater hmore rfl
        · have hs : s.startsStatement = false := by simpa using hs
          obtain rfl := Except.ok.inj ((step_of_not_startsStatement hs _ _).symm.trans hnext)
          rw [List.cons_append, headsOf_cons_other hs] at has
          rw [headsOf_cons_other hs]
          exact ih before.length hbefore hlater has rfl

end Walk

end RomAsm
