import Mathlib.Tactic.Common
import RomAsm.Grouping

/-!
# Parentheses and their partners

Grouping looks for operands by counting parentheses, walking away from an operator to the left or to
the right. Both walks are one function, `enclose`, with the roles of the two parentheses exchanged,
so everything here is stated for a direction: `deeper` begins a group, `shallower` ends one.

`unpaired` counts the parentheses of a stream that have no partner in it: those that end a group
which was begun before the stream, and those that begin a group which it does not end. The counts
of a concatenation follow from those of its parts (`unpaired_append`), and turning a stream round
exchanges them (`unpaired_reverse`). In these terms:

* `enclose_cases` — a walk that has entered a group either comes to the parenthesis that leads out
  of it and inserts there, or finds none and changes nothing;
* `closeBehind_operand` and `openBefore_operand` — around a symbol that is no parenthesis, and
  around a group with balanced contents, the walk inserts exactly behind that operand.
-/

namespace RomAsm.Grouping

theorem isClose_of_isOpen {s : Symbol} (h : s.isOpen = true) : s.isClose = false := by
  by_contra hc
  rw [isOpen_of_isClose (by simpa using hc)] at h
  exact absurd h (by simp)

@[simp] theorem isOpen_ofOperator_open (location : Option Location) :
    (Symbol.ofOperator "(" location).isOpen = true := by
  simp [Symbol.ofOperator, Symbol.isOpen, Symbol.isOp]

@[simp] theorem isClose_ofOperator_open (location : Option Location) :
    (Symbol.ofOperator "(" location).isClose = false :=
  isClose_of_isOpen (isOpen_ofOperator_open location)

@[simp] theorem isClose_ofOperator_close (location : Option Location) :
    (Symbol.ofOperator ")" location).isClose = true :=
  isClose_ofOperator location

@[simp] theorem isOpen_ofOperator_close (location : Option Location) :
    (Symbol.ofOperator ")" location).isOpen = false :=
  isOpen_of_isClose (isClose_ofOperator location)

/-! ### Counting parentheses without a partner -/

section Unpaired

variable (deeper shallower : Symbol → Bool)

/-- The number of parentheses that end a group begun before a stream, and the number of those that
begin a group not ended in it. -/
def unpaired : List Symbol → Nat × Nat
  | [] => (0, 0)
  | s :: rest =>
    let (ends, begins) := unpaired rest
    -- the parenthesis is the partner of the first end behind it, if the rest has one to spare
    if deeper s then if ends = 0 then (0, begins + 1) else (ends - 1, begins)
    else if shallower s then (ends + 1, begins)
    else (ends, begins)

@[simp] theorem unpaired_nil : unpaired deeper shallower [] = (0, 0) := rfl

variable {deeper shallower}

/-- A parenthesis that begins a group is the partner of the first end that is left over behind it,
or has none. -/
theorem unpaired_deeper {s : Symbol} (h : deeper s = true) (rest : List Symbol) :
    unpaired deeper shallower (s :: rest) =
      ((unpaired deeper shallower rest).1 - 1,
        (unpaired deeper shallower rest).2 + (1 - (unpaired deeper shallower rest).1)) := by
  rw [unpaired]
  simp only [h, if_true]
  -- by whether what follows has an end to spare
  split
  · next h0 => simp [h0]
  · next h0 => exact Prod.ext rfl (by simp; omega)

/-- A parenthesis that ends a group has no partner in what follows. -/
theorem unpaired_shallower {s : Symbol} (hd : deeper s = false) (hs : shallower s = true)
    (rest : List Symbol) :
    unpaired deeper shallower (s :: rest) =
      ((unpaired deeper shallower rest).1 + 1, (unpaired deeper shallower rest).2) := by
  simp [unpaired, hd, hs]

theorem unpaired_neutral {s : Symbol} (hd : deeper s = false) (hs : shallower s = false)
    (rest : List Symbol) :
    unpaired deeper shallower (s :: rest) = unpaired deeper shallower rest := by
  simp [unpaired, hd, hs]

/-- What the first part begins is ended by the second as far as it goes. -/
theorem unpaired_append (a b : List Symbol) :
    unpaired deeper shallower (a ++ b) =
      ((unpaired deeper shallower a).1 +
          ((unpaired deeper shallower b).1 - (unpaired deeper shallower a).2),
        ((unpaired deeper shallower a).2 - (unpaired deeper shallower b).1) +
          (unpaired deeper shallower b).2) := by
  induction a with
  | nil => simp
  | cons s a ih =>
    rw [List.cons_append]
    -- the symbol begins a group, ends one, or is no parenthesis
    by_cases hd : deeper s = true
    · rw [unpaired_deeper hd, unpaired_deeper hd, ih]
      exact Prod.ext (by simp; omega) (by simp; omega)
    · by_cases hs : shallower s = true
      · rw [unpaired_shallower (by simpa using hd) hs,
          unpaired_shallower (by simpa using hd) hs, ih]
        exact Prod.ext (by simp; omega) (by simp)
      · rw [unpaired_neutral (by simpa using hd) (by simpa using hs),
          unpaired_neutral (by simpa using hd) (by simpa using hs), ih]

/-- Turning a stream round exchanges the roles of the parentheses. -/
theorem unpaired_reverse (h : ∀ s, deeper s = true → shallower s = false) (a : List Symbol) :
    unpaired shallower deeper a.reverse = (unpaired deeper shallower a).swap := by
  induction a with
  | nil => rfl
  | cons s a ih =>
    -- the first symbol comes last now, so the counts of the rest are those of a first part
    rw [List.reverse_cons, unpaired_append, ih]
    by_cases hd : deeper s = true
    · rw [unpaired_deeper hd, unpaired_shallower (h s hd) hd]
      exact Prod.ext (by simp) (by simp)
    · by_cases hs : shallower s = true
      · rw [unpaired_shallower (by simpa using hd) hs, unpaired_deeper hs]
        exact Prod.ext (by simp) (by simp)
      · have hd : deeper s = false := by simpa using hd
        have hs : shallower s = false := by simpa using hs
        rw [unpaired_neutral hs hd, unpaired_neutral hd hs]
        exact Prod.ext (by simp) (by simp)

end Unpaired

/-! ### Walking through a group -/

section Walk

variable {deeper shallower : Symbol → Bool} (parenthesis : Symbol)

/-- A walk into a group. -/
theorem enclose_deeper {s : Symbol} (h : deeper s = true) (depth : Nat) (rest : List Symbol) :
    enclose deeper shallower parenthesis depth (s :: rest) =
      s :: enclose deeper shallower parenthesis ((depth + 1 : Nat) : Int) rest := by
  have hne : ¬ ((depth : Int) + 1 = 0) := by omega
  simp [enclose, h, hne]

/-- A walk out of a group within another one. -/
theorem enclose_shallower {s : Symbol} (hd : deeper s = false) (hs : shallower s = true)
    (depth : Nat) (rest : List Symbol) :
    enclose deeper shallower parenthesis ((depth + 2 : Nat) : Int) (s :: rest) =
      s :: enclose deeper shallower parenthesis ((depth + 1 : Nat) : Int) rest := by
  have he : ((depth + 2 : Nat) : Int) - 1 = ((depth + 1 : Nat) : Int) := by omega
  simp only [enclose, hd, hs, if_false, if_true, he, Bool.false_eq_true]
  -- the walk is still inside one group at least
  rw [if_neg (by omega)]

/-- A walk out of the outermost group: the parenthesis is inserted here. -/
theorem enclose_out {s : Symbol} (hd : deeper s = false) (hs : shallower s = true)
    (rest : List Symbol) :
    enclose deeper shallower parenthesis ((1 : Nat) : Int) (s :: rest) =
      s :: parenthesis :: rest := by
  simp [enclose, hd, hs]

/-- A walk within a group passes over other symbols. -/
theorem enclose_neutral {s : Symbol} (hd : deeper s = false) (hs : shallower s = false)
    (depth : Nat) (rest : List Symbol) :
    enclose deeper shallower parenthesis ((depth + 1 : Nat) : Int) (s :: rest) =
      s :: enclose deeper shallower parenthesis ((depth + 1 : Nat) : Int) rest := by
  have hne : ¬ (((depth + 1 : Nat) : Int) = 0) := by omega
  simp only [enclose, hd, hs, Bool.false_eq_true, if_false]
  rw [if_neg hne]

/-- **A walk inside a group.** From `depth + 1` groups deep, the walk inserts behind the parenthesis
that leads out of all of them, or does nothing if the stream has no such parenthesis. -/
theorem enclose_cases (depth : Nat) (symbols : List Symbol) :
    (∃ inside out rest, symbols = inside ++ out :: rest ∧ deeper out = false ∧
        shallower out = true ∧ unpaired deeper shallower inside = (depth, 0) ∧
        enclose deeper shallower parenthesis ((depth + 1 : Nat) : Int) symbols =
          inside ++ out :: parenthesis :: rest) ∨
      (enclose deeper shallower parenthesis ((depth + 1 : Nat) : Int) symbols = symbols ∧
        (unpaired deeper shallower symbols).1 ≤ depth) := by
  -- induction on the stream; the depth changes with each parenthesis, so it is generalized
  induction symbols generalizing depth with
  | nil => exact Or.inr ⟨rfl, Nat.zero_le _⟩
  | cons s symbols ih =>
    by_cases hd : deeper s = true
    · -- one group deeper
      rw [enclose_deeper parenthesis hd, unpaired_deeper hd]
      rcases ih (depth + 1) with ⟨inside, out, rest, rfl, ho, hs, hu, he⟩ | ⟨he, hu⟩
      · refine Or.inl ⟨s :: inside, out, rest, rfl, ho, hs, ?_, by rw [he]; rfl⟩
        rw [unpaired_deeper hd, hu]
        exact Prod.ext (by simp) (by simp)
      · exact Or.inr ⟨by rw [he], by simp only; omega⟩
    · have hd : deeper s = false := by simpa using hd
      by_cases hs : shallower s = true
      · -- out of the last group, or out of an inner one
        cases depth with
        -- this is the parenthesis that leads out
        | zero =>
          refine Or.inl ⟨[], s, symbols, rfl, hd, hs, rfl, ?_⟩
          exact enclose_out parenthesis hd hs symbols
        | succ depth =>
          rw [enclose_shallower parenthesis hd hs, unpaired_shallower hd hs]
          rcases ih depth with ⟨inside, out, rest, rfl, ho, hs', hu, he⟩ | ⟨he, hu⟩
          · refine Or.inl ⟨s :: inside, out, rest, rfl, ho, hs', ?_, by rw [he]; rfl⟩
            rw [unpaired_shallower hd hs, hu]
          · exact Or.inr ⟨by rw [he], by simp only; omega⟩
      · have hs : shallower s = false := by simpa using hs
        rw [enclose_neutral parenthesis hd hs, unpaired_neutral hd hs]
        rcases ih depth with ⟨inside, out, rest, rfl, ho, hs', hu, he⟩ | ⟨he, hu⟩
        · refine Or.inl ⟨s :: inside, out, rest, rfl, ho, hs', ?_, by rw [he]; rfl⟩
          rw [unpaired_neutral hd hs, hu]
        · exact Or.inr ⟨by rw [he], hu⟩

/-- A walk that begins with a group inserts behind the parenthesis that ends the group, or does
nothing because there is none. -/
theorem enclose_group {s : Symbol} (hd : deeper s = true) (rest : List Symbol) :
    (∃ inside out more, rest = inside ++ out :: more ∧ shallower out = true ∧
        unpaired deeper shallower (s :: (inside ++ [out])) = (0, 0) ∧
        enclose deeper shallower parenthesis 0 (s :: rest) =
          s :: (inside ++ [out]) ++ parenthesis :: more) ∨
      (enclose deeper shallower parenthesis 0 (s :: rest) = s :: rest ∧
        (unpaired deeper shallower rest).1 = 0) := by
  have hwalk : enclose deeper shallower parenthesis 0 (s :: rest) =
      s :: enclose deeper shallower parenthesis ((0 + 1 : Nat) : Int) rest :=
    enclose_deeper parenthesis hd 0 rest
  rw [hwalk]
  rcases @enclose_cases deeper shallower parenthesis 0 rest with
    ⟨inside, out, more, rfl, ho, hs, hu, he⟩ | ⟨he, hu⟩
  · refine .inl ⟨inside, out, more, rfl, hs, ?_, by rw [he]; simp⟩
    -- the one group that `s` begins is the one that `out` ends
    rw [unpaired_deeper hd, unpaired_append, hu, unpaired_shallower ho hs]
    rfl
  · exact .inr ⟨by rw [he], Nat.le_zero.1 hu⟩

/-- **A walk from an operator.** It inserts behind a run whose parentheses balance, or does nothing
because the group that its first symbol begins is never ended. -/
theorem enclose_operand {s : Symbol} (hs : shallower s = false) (rest : List Symbol) :
    (∃ x more, s :: rest = x ++ more ∧ unpaired deeper shallower x = (0, 0) ∧
        enclose deeper shallower parenthesis 0 (s :: rest) = x ++ parenthesis :: more) ∨
      (enclose deeper shallower parenthesis 0 (s :: rest) = s :: rest ∧
        1 ≤ (unpaired deeper shallower (s :: rest)).2) := by
  by_cases hd : deeper s = true
  · -- the first symbol is an operand by itself, or it begins one
    rcases enclose_group parenthesis hd rest with ⟨inside, out, more, rfl, -, hu, he⟩ | ⟨he, hu⟩
    · exact .inl ⟨_, more, by simp, hu, he⟩
    · refine .inr ⟨he, ?_⟩
      rw [unpaired_deeper hd, hu]
      exact Nat.le_add_left 1 _
  · -- a symbol that is no parenthesis: the walk is over at once
    have hd : deeper s = false := by simpa using hd
    exact .inl ⟨[s], rest, rfl, unpaired_neutral hd hs [], by simp [enclose, hd, hs]⟩

/-- A walk passes over symbols that do not lead out of the groups it is in. -/
theorem enclose_append (depth : Nat) {inside : List Symbol}
    (h : (unpaired deeper shallower inside).1 ≤ depth) (rest : List Symbol) :
    enclose deeper shallower parenthesis ((depth + 1 : Nat) : Int) (inside ++ rest) =
      inside ++ enclose deeper shallower parenthesis
        ((depth - (unpaired deeper shallower inside).1 +
          (unpaired deeper shallower inside).2 + 1 : Nat) : Int) rest := by
  induction inside generalizing depth with
  | nil => simp
  | cons s inside ih =>
    rw [List.cons_append, List.cons_append]
    -- `depth` counts the groups that the walk is in, less one: it must not fall out of the last of
    -- them
    by_cases hd : deeper s = true
    · rw [unpaired_deeper hd] at h ⊢
      rw [enclose_deeper parenthesis hd, ih (depth + 1) (by simp only at h; omega)]
      congr 4
      simp only
      omega
    · have hd : deeper s = false := by simpa using hd
      by_cases hs : shallower s = true
      · rw [unpaired_shallower hd hs] at h ⊢
        -- the bound says that this parenthesis ends a group that the walk has entered
        obtain ⟨depth, rfl⟩ : ∃ d, depth = d + 1 := ⟨depth - 1, by simp only at h; omega⟩
        rw [enclose_shallower parenthesis hd hs, ih depth (by simp only at h; omega)]
        congr 4
        simp only
        omega
      · have hs : shallower s = false := by simpa using hs
        rw [unpaired_neutral hd hs] at h ⊢
        rw [enclose_neutral parenthesis hd hs, ih depth h]

/-- A walk over a group with balanced contents inserts right behind it. -/
theorem enclose_balanced {first last : Symbol} {inside : List Symbol} (hfirst : deeper first = true)
    (hlast : deeper last = false) (hout : shallower last = true)
    (h : unpaired deeper shallower inside = (0, 0)) (rest : List Symbol) :
    enclose deeper shallower parenthesis 0 (first :: (inside ++ last :: rest)) =
      first :: (inside ++ last :: parenthesis :: rest) := by
  have hpass := enclose_append parenthesis 0 (Nat.le_of_eq (congrArg Prod.fst h)) (last :: rest)
  -- the contents leave the walk one group deep, and `last` leads out of it
  simp only [h, Nat.sub_zero, Nat.zero_add, enclose_out _ hlast hout] at hpass
  rw [← Int.ofNat_zero, enclose_deeper _ hfirst, hpass]

end Walk

/-! ### Operands -/

/-- The parentheses of a stream that have no partner in it, read from the left. -/
def loose (symbols : List Symbol) : Nat × Nat :=
  unpaired Symbol.isOpen Symbol.isClose symbols

@[simp] theorem loose_nil : loose [] = (0, 0) := rfl

/-- An opening parenthesis, with its partner in what follows or without. -/
theorem loose_open {s : Symbol} (h : s.isOpen = true) (rest : List Symbol) :
    loose (s :: rest) = ((loose rest).1 - 1, (loose rest).2 + (1 - (loose rest).1)) :=
  unpaired_deeper h rest

theorem loose_close {s : Symbol} (h : s.isClose = true) (rest : List Symbol) :
    loose (s :: rest) = ((loose rest).1 + 1, (loose rest).2) :=
  unpaired_shallower (isOpen_of_isClose h) h rest

theorem loose_other {s : Symbol} (ho : s.isOpen = false) (hc : s.isClose = false)
    (rest : List Symbol) : loose (s :: rest) = loose rest :=
  unpaired_neutral ho hc rest

/-- The parentheses of two parts that have no partner in either. -/
theorem loose_append (a b : List Symbol) :
    loose (a ++ b) =
      ((loose a).1 + ((loose b).1 - (loose a).2), ((loose a).2 - (loose b).1) + (loose b).2) :=
  unpaired_append a b

/-- A walk to the left counts the same parentheses with their roles exchanged. -/
theorem loose_reverse (a : List Symbol) :
    unpaired Symbol.isClose Symbol.isOpen a.reverse = (loose a).swap :=
  unpaired_reverse (fun _ => isClose_of_isOpen) a

/-- What balances when it is walked to the left balances in the order of the stream. -/
theorem loose_reverse_of_balanced {a : List Symbol}
    (h : unpaired Symbol.isClose Symbol.isOpen a = (0, 0)) : loose a.reverse = (0, 0) := by
  -- the stream is the reverse of its reverse
  have hreverse := loose_reverse a.reverse
  rw [List.reverse_reverse, h] at hreverse
  rw [← Prod.swap_swap (loose a.reverse), ← hreverse, Prod.swap_prod_mk]

/-- A symbol that is no parenthesis, or a group with balanced contents. -/
inductive IsOperand : List Symbol → Prop where
  | single {s : Symbol} (ho : s.isOpen = false) (hc : s.isClose = false) : IsOperand [s]
  | group {opening closing : Symbol} {inside : List Symbol} (ho : opening.isOpen = true)
    (hc : closing.isClose = true) (h : loose inside = (0, 0)) :
    IsOperand (opening :: (inside ++ [closing]))

theorem loose_append_of_balanced {a b : List Symbol} (ha : loose a = (0, 0))
    (hb : loose b = (0, 0)) : loose (a ++ b) = (0, 0) := by
  simp [loose_append, ha, hb]

/-- A balanced part does not count. -/
theorem loose_append_balanced {b : List Symbol} (hb : loose b = (0, 0)) (a c : List Symbol) :
    loose (a ++ (b ++ c)) = loose (a ++ c) := by
  simp [loose_append, hb]

/-- All parentheses of an operand have their partners in it. -/
theorem IsOperand.loose_eq {x : List Symbol} (h : IsOperand x) : loose x = (0, 0) := by
  cases h with
  | single ho hc => rw [loose_other ho hc, loose_nil]
  | group ho hc h => simp [loose_open ho, loose_append, h, loose_close hc]

/-- A group whose contents are two balanced parts and a symbol between them. -/
theorem IsOperand.parts {opening closing s : Symbol} {l r : List Symbol}
    (ho : opening.isOpen = true) (hc : closing.isClose = true) (hl : loose l = (0, 0))
    (hs : s.isOpen = false) (hs' : s.isClose = false) (hr : loose r = (0, 0)) :
    IsOperand (opening :: (l ++ s :: (r ++ [closing]))) := by
  have h : loose (l ++ s :: r) = (0, 0) :=
    loose_append_of_balanced hl ((loose_other hs hs' r).trans hr)
  simpa using IsOperand.group ho hc h

/-- Walking right, a parenthesis is put exactly behind an operand. -/
theorem closeBehind_operand {x : List Symbol} (h : IsOperand x) (location : Option Location)
    (rest : List Symbol) :
    closeBehind location (x ++ rest) = x ++ .ofOperator ")" location :: rest := by
  unfold closeBehind
  cases h with
  | single ho hc => simp [enclose, ho, hc]
  -- the walk goes into the group, through its contents and out again
  | @group opening closing inside ho hc h =>
    rw [List.cons_append, List.append_assoc, List.singleton_append,
      enclose_balanced _ ho (isOpen_of_isClose hc) hc h]
    simp

/-- Walking left, a parenthesis is put exactly before an operand. -/
theorem openBefore_operand {x : List Symbol} (h : IsOperand x) (location : Option Location)
    (passed : List Symbol) :
    openBefore location (x.reverse ++ passed) =
      x.reverse ++ .ofOperator "(" location :: passed := by
  unfold openBefore
  cases h with
  | single ho hc => simp [enclose, ho, hc]
  | @group opening closing inside ho hc h =>
    -- walked to the left the contents come in reverse, and are balanced in that direction too
    have h : unpaired Symbol.isClose Symbol.isOpen inside.reverse = (0, 0) := by
      rw [loose_reverse, h, Prod.swap_prod_mk]
    rw [List.reverse_cons, List.reverse_append, List.reverse_singleton, List.append_assoc,
      List.append_assoc, List.singleton_append, List.singleton_append,
      enclose_balanced _ hc (isClose_of_isOpen ho) ho h]
    simp

end RomAsm.Grouping
