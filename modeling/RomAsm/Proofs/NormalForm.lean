import RomAsm.Proofs.Neighbours
import RomAsm.Proofs.Rewriting

/-!
# One pass of folding is enough

Folding puts the symbols of a stream on a stack, one by one, and after each of them reduces the top
of the stack as far as it goes. It looks at the three topmost symbols only, and every reduction
brings symbols to the top that were passed long before. Still there is nothing left to fold when the
pass is over, whatever the stream looks like:

* `isFolded_cons` — a stack has a place to fold below its top or at its top, so a stack that was
  folded all the way down can be spoiled by its new top only;
* `push_isFolded`, `foldFrom_isFolded` — that is what a symbol more and a whole pass keep;
* `foldFrom_of_isFolded` — a pass over a stream without such a place changes nothing.

A pass takes two symbols from the stream with every reduction (`Reduction.length_eq`), so its flag
can be read off the length of the stream (`fold_flag_iff`).
-/

namespace RomAsm.Resolution

open Relation (ReflTransGen)

/-! ### Places to fold -/

/-- Whether three symbols in a row become one: an integer in parentheses, or an arithmetic operator
between two integers. -/
def foldable (left middle right : Symbol) : Bool :=
  left.isOpen && middle.isInteger && right.isClose ||
    left.isInteger && middle.isArithmetic && right.isInteger

/-- What it means that three symbols stay as they are. -/
theorem foldable_eq_false {left middle right : Symbol} : foldable left middle right = false ↔
    ¬ (left.isOpen = true ∧ middle.isInteger = true ∧ right.isClose = true) ∧
      ¬ (left.isInteger = true ∧ middle.isArithmetic = true ∧ right.isInteger = true) := by
  rw [← Bool.not_eq_true, ← not_or]
  simp only [foldable, Bool.or_eq_true, Bool.and_eq_true, and_assoc]

/-- There is no place to fold in a stream. -/
def IsFolded (symbols : List Symbol) : Prop :=
  ∀ left middle right, [left, middle, right] <:+: symbols → foldable left middle right = false

theorem IsFolded.of_infix {a b : List Symbol} (hb : IsFolded b) (h : a <:+: b) : IsFolded a :=
  fun left middle right htriple => hb left middle right (htriple.trans h)

/-- Less than three symbols are always folded. -/
theorem isFolded_of_length {symbols : List Symbol} (h : symbols.length < 3) : IsFolded symbols := by
  intro left middle right htriple
  have := htriple.length_le
  simp only [List.length_cons, List.length_nil] at this
  omega

/-- **The top of a stack.** The stack is given nearest first, the stream it stands for is its
reverse. -/
theorem isFolded_cons {top : Symbol} {below : List Symbol} (hbelow : IsFolded below.reverse)
    (htop : ∀ middle left, [middle, left] <+: below → foldable left middle top = false) :
    IsFolded (top :: below).reverse := by
  intro left middle right htriple
  rcases Grouping.infix_reverse_cons (w := [left, middle]) htriple with ⟨rfl, hnear⟩ | htriple
  · exact htop middle left hnear
  · exact hbelow left middle right htriple

/-! ### A pass leaves no place to fold -/

/-- A symbol that completes no place to fold is put on the stack. -/
theorem push_of_foldable_eq_false {left middle top : Symbol} (h : foldable left middle top = false)
    (below : List Symbol) :
    push top (middle :: left :: below) = .ok (top :: middle :: left :: below, false) := by
  obtain ⟨hgroup, hoperator⟩ := Bool.or_eq_false_iff.1 h
  rw [push, hgroup, hoperator]
  rfl

/-- **One symbol more.** The reductions go down until the top is no place to fold any longer, and
what is then below it has been without such a place all the time. -/
theorem push_isFolded (top : Symbol) (below : List Symbol) {stack : List Symbol} {changed : Bool}
    (hbelow : IsFolded below.reverse) (h : push top below = .ok (stack, changed)) :
    IsFolded stack.reverse := by
  match below with
  | [] | [_] =>
    cases h
    exact isFolded_of_length (by simp)
  | middle :: left :: below =>
    -- a reduction works on the top, the middle and the left symbol, and goes on below them
    have hdeep : IsFolded below.reverse := by
      refine hbelow.of_infix ?_
      rw [List.reverse_cons, List.reverse_cons, List.append_assoc]
      exact (List.prefix_append _ _).isInfix
    cases hfoldable : foldable left middle top with
    | false =>
      rw [push_of_foldable_eq_false hfoldable] at h
      cases h
      -- only the three topmost symbols are new as a triple
      refine isFolded_cons hbelow fun m l hnear => ?_
      simp only [List.cons_prefix_cons, List.nil_prefix, and_true] at hnear
      rw [hnear.1, hnear.2]
      exact hfoldable
    | true =>
      rw [push] at h
      split at h
      · -- a number in parentheses is pushed again, on what is below the parentheses
        obtain ⟨⟨reduced, _⟩, hreduced, h⟩ := Trace.except_bind_eq_ok.1 h
        cases h
        exact push_isFolded middle below hdeep hreduced
      · next hgroup =>
        -- so it is an operator between two numbers, and their value is pushed on what is below them
        have hoperator := hfoldable
        rw [foldable, Bool.eq_false_iff.2 hgroup, Bool.false_or] at hoperator
        rw [if_pos hoperator] at h
        obtain ⟨n, -, h⟩ := Trace.except_bind_eq_ok.1 h
        obtain ⟨value, -, h⟩ := Trace.except_bind_eq_ok.1 h
        obtain ⟨⟨reduced, _⟩, hreduced, h⟩ := Trace.except_bind_eq_ok.1 h
        cases h
        exact push_isFolded value below hdeep hreduced

/-- **A whole pass**: the stack stays folded, and in the end it is the result. -/
theorem foldFrom_isFolded {stack symbols result : List Symbol} {changed : Bool}
    (hstack : IsFolded stack.reverse) (h : foldFrom stack symbols = .ok (result, changed)) :
    IsFolded result := by
  -- along the stream, with the stack that has been reached
  induction symbols generalizing stack result changed with
  | nil =>
    cases h
    exact hstack
  | cons s rest ih =>
    obtain ⟨⟨pushed, reduced⟩, hpush, h⟩ := Trace.except_bind_eq_ok.1 h
    obtain ⟨⟨more, moreChanged⟩, hmore, h⟩ := Trace.except_bind_eq_ok.1 h
    cases h
    exact ih (push_isFolded s stack hstack hpush) hmore

/-- A pass over a stream without a place to fold never reduces. -/
theorem foldFrom_of_isFolded {stack symbols : List Symbol}
    (h : IsFolded (stack.reverse ++ symbols)) :
    foldFrom stack symbols = .ok (stack.reverse ++ symbols, false) := by
  induction symbols generalizing stack with
  | nil =>
    rw [List.append_nil]
    rfl
  | cons s rest ih =>
    -- the two symbols on top of the stack and this one stand in a row in the stream
    have hpush : push s stack = .ok (s :: stack, false) := by
      match stack with
      | [] | [_] => rfl
      | middle :: left :: below =>
        exact push_of_foldable_eq_false
          (h left middle s ⟨below.reverse, rest, by simp⟩) below
    have hrest : (s :: stack).reverse ++ rest = stack.reverse ++ s :: rest := by simp
    have hmore := @ih (s :: stack) (by rwa [hrest])
    simp only [foldFrom, hpush, hmore, hrest, Trace.except_ok_bind]
    rfl

/-! ### The length of a stream -/

/-- **A reduction makes one symbol of three.** -/
theorem Reduction.length_eq {a b : List Symbol} (h : Reduction a b) : a.length = b.length + 2 := by
  obtain ⟨before, u, v, rest, rfl, rfl, hredex, hnames⟩ := h
  have hlength : u.length = v.length + 2 := by
    cases hredex with
    | ungroup | evaluate => rfl
    | define hname | substitute hname =>
      -- these take a name from the stream, and a reduction does not
      rw [hnames _ List.mem_cons_self] at hname
      cases hname
  simp only [List.length_append, hlength]
  omega

/-- So reductions take an even number of symbols away. -/
theorem exists_length_eq {a b : List Symbol} (h : ReflTransGen Reduction a b) :
    ∃ k, a.length = b.length + 2 * k ∧ (k = 0 → b = a) := by
  induction h with
  | refl => exact ⟨0, rfl, fun _ => rfl⟩
  | tail _ hreduction ih =>
    obtain ⟨k, hk, -⟩ := ih
    exact ⟨k + 1, by rw [hk, hreduction.length_eq]; omega, by simp⟩

/-- The flag of a pass is set if the pass has made the stream shorter. -/
theorem fold_flag_iff {symbols result : List Symbol} {folded : Bool}
    (h : fold symbols = .ok (result, folded)) :
    folded = true ↔ result.length < symbols.length := by
  obtain ⟨k, hk, hsame⟩ := exists_length_eq (foldFrom_reductions h)
  simp only [List.reverse_nil, List.nil_append] at hk hsame
  cases folded with
  | false =>
    obtain rfl : result = symbols := foldFrom_unchanged h
    simp
  | true =>
    -- a pass that has reduced makes the stream lighter, so it has not left it as it was
    have hlighter := (weight_foldFrom h).2 rfl
    have hne : k ≠ 0 := by
      intro hzero
      rw [hsame hzero, weight_nil, Nat.zero_add] at hlighter
      exact Nat.lt_irrefl _ hlighter
    simp only [true_iff]
    omega

/-- **One pass of folding reaches the normal form**, whatever the stream. What a successful pass
leaves behind comes from the stream by reductions and has neither an integer in parentheses nor an
arithmetic operator between two integers; to fold it once more changes nothing. The flag tells
whether the stream has become shorter, and it becomes shorter by two symbols at a time. -/
theorem fold_normal_form {symbols result : List Symbol} {folded : Bool}
    (h : fold symbols = .ok (result, folded)) :
    (∀ left middle right, [left, middle, right] <:+: result →
      ¬ (left.isOpen = true ∧ middle.isInteger = true ∧ right.isClose = true) ∧
      ¬ (left.isInteger = true ∧ middle.isArithmetic = true ∧ right.isInteger = true)) ∧
    fold result = .ok (result, false) ∧
    (folded = true ↔ result.length < symbols.length) ∧
    (∃ k, symbols.length = result.length + 2 * k) ∧
    ReflTransGen Reduction symbols result := by
  have hreductions : ReflTransGen Reduction symbols result := foldFrom_reductions h
  have hfolded : IsFolded result := foldFrom_isFolded (isFolded_of_length (by simp)) h
  obtain ⟨k, hk, -⟩ := exists_length_eq hreductions
  refine ⟨?_, ?_, fold_flag_iff h, ⟨k, hk⟩, hreductions⟩
  · intro left middle right htriple
    exact foldable_eq_false.1 (hfolded left middle right htriple)
  · exact @foldFrom_of_isFolded [] result hfolded

/-- A product in parentheses, behind a stray parenthesis and in front of an operator with a name on
its right: `) ( 2 * ( 1 + 2 ) ) - y`. -/
def strayProduct : List Symbol :=
  [.ofOperator ")" none, .ofOperator "(" none, ⟨.integer, "2", some 2, none⟩, .ofOperator "*" none,
    .ofOperator "(" none, ⟨.integer, "1", some 1, none⟩, .ofOperator "+" none,
    ⟨.integer, "2", some 2, none⟩, .ofOperator ")" none, .ofOperator ")" none,
    .ofOperator "-" none, ⟨.identifier, "y", none, none⟩]

/-- What can be evaluated of it: `) 6 - y`. -/
def strayDifference : List Symbol :=
  [.ofOperator ")" none, ⟨.integer, "6", some 6, none⟩, .ofOperator "-" none,
    ⟨.identifier, "y", none, none⟩]

/-- The parenthesis behind the sum sets off two reductions, and the first of them brings the product
to the top of the stack. -/
theorem strayProduct_folded :
    fold strayProduct = .ok (strayDifference, true) ∧
    fold strayDifference = .ok (strayDifference, false) ∧
    strayDifference.length < strayProduct.length ∧
    ReflTransGen Reduction strayProduct strayDifference := by
  have hfold : fold strayProduct = .ok (strayDifference, true) := rfl
  obtain ⟨-, hagain, hflag, -, hreductions⟩ := fold_normal_form hfold
  exact ⟨hfold, hagain, hflag.1 rfl, hreductions⟩

end RomAsm.Resolution
