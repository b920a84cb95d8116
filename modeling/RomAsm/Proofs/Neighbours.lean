import RomAsm.Proofs.Parentheses

/-!
# What stands next to an operator

Grouping puts a parenthesis in front of the left operand of every operator, whatever the stream
looks like. Two runs of symbols therefore never occur in a grouped stream:

* `guarded_grouped` — an operator behind two symbols that are no parentheses;
* `preceded_grouped` — an operator behind a group `( a - b )` that is itself behind a symbol that is
  no parenthesis.

The walk through the stream inserts parentheses and nothing else. So what stays when parentheses are
taken out held before the walk (`Sheds.of_wrap`), such as to have a run without parentheses. The two
runs above are followed backwards through the walk (`not_infix_wrapFrom`): a symbol inserted into a
run shows what the run was before (`infix_insert`).
-/

namespace RomAsm

/-- Whether a symbol opens or closes a group. -/
def Symbol.isParenthesis (s : Symbol) : Bool := s.isOpen || s.isClose

namespace Symbol

theorem isParenthesis_eq_false {s : Symbol} :
    s.isParenthesis = false ↔ s.isOpen = false ∧ s.isClose = false := Bool.or_eq_false_iff

@[simp] theorem isParenthesis_open (place : Option Location) :
    (ofOperator "(" place).isParenthesis = true := rfl

@[simp] theorem isParenthesis_close (place : Option Location) :
    (ofOperator ")" place).isParenthesis = true := rfl

/-- Such a symbol is not one that was inserted. -/
theorem ne_of_isParenthesis {s p : Symbol} (hs : s.isParenthesis = false)
    (hp : p.isParenthesis = true) : s ≠ p := by
  rintro rfl
  rw [hs] at hp
  cases hp

/-- An operator of a list without parentheses is none itself. -/
theorem isParenthesis_of_isOp {s : Symbol} {texts : List String} (h : s.isOp texts = true)
    (htexts : texts ≠ []) (hopen : "(" ∉ texts) (hclose : ")" ∉ texts) :
    s.isParenthesis = false := by
  -- the list is not empty, so the text of the symbol is looked up in it
  have htext : s.text ∈ texts := by simpa [isOp, htexts] using (Bool.and_eq_true_iff.1 h).2
  have hne (t : String) (ht : t ∉ texts) : s.isOp [t] = false := by
    have : s.text ≠ t := fun he => ht (he ▸ htext)
    simp [isOp, this]
  exact isParenthesis_eq_false.2 ⟨hne _ hopen, hne _ hclose⟩

end Symbol

namespace Grouping

/-! ### Runs and insertions -/

/-- **One symbol more.** A run of symbols that is found after an insertion was there before, or the
new symbol stands within it. -/
theorem infix_insert {α : Type} {w a b : List α} {p : α} (h : w <:+: a ++ p :: b) :
    w <:+: a ++ b ∨ ∃ w₁ w₂, w = w₁ ++ p :: w₂ ∧ w₁ <:+ a ∧ w₂ <+: b := by
  obtain ⟨x, y, hxy⟩ := h
  rw [List.append_assoc] at hxy
  rcases List.append_eq_append_iff.1 hxy with ⟨a', rfl, hw⟩ | ⟨c, rfl, hw⟩
  · -- the run begins before the new symbol
    rcases List.append_eq_append_iff.1 hw with ⟨a'', rfl, hb⟩ | ⟨c, rfl, hb⟩
    · exact .inl ⟨x, a'' ++ b, by simp⟩
    · cases c with
      | nil => exact .inl ⟨x, b, by simp⟩
      | cons q c =>
        obtain ⟨rfl, rfl⟩ := List.cons.inj hb
        exact .inr ⟨a', c, rfl, ⟨x, rfl⟩, ⟨y, rfl⟩⟩
  · -- the run begins with the new symbol or behind it
    cases c with
    | nil =>
      cases w with
      | nil => exact .inl List.nil_infix
      | cons q w =>
        obtain ⟨rfl, rfl⟩ := List.cons.inj hw
        exact .inr ⟨[], w, rfl, List.nil_suffix, ⟨y, rfl⟩⟩
    | cons q c =>
      obtain ⟨rfl, rfl⟩ := List.cons.inj hw
      exact .inl ⟨a ++ c, y, by simp⟩

/-- A run that the new symbol does not belong to was there before. -/
theorem infix_of_insert {α : Type} {w a b : List α} {p : α} (hp : p ∉ w)
    (h : w <:+: a ++ p :: b) : w <:+: a ++ b := by
  rcases infix_insert h with h | ⟨w₁, w₂, rfl, -, -⟩
  · exact h
  · simp at hp

/-- Where a walk inserts its parenthesis: behind a parenthesis, or behind the first symbol. -/
theorem enclose_split (deeper shallower : Symbol → Bool) (parenthesis : Symbol) (depth : Int)
    (symbols : List Symbol) :
    enclose deeper shallower parenthesis depth symbols = symbols ∨
      ∃ a s b, symbols = a ++ s :: b ∧
        enclose deeper shallower parenthesis depth symbols = a ++ s :: parenthesis :: b ∧
        (deeper s = true ∨ shallower s = true ∨ depth = 0 ∧ a = []) := by
  induction symbols generalizing depth with
  | nil => exact .inl rfl
  | cons s rest ih =>
    simp only [enclose]
    -- `here` is the depth behind `s`, by which the walk decides whether to end
    generalize hhere : (if deeper s = true then depth + 1
      else if shallower s = true then depth - 1 else depth) = here
    by_cases hz : here = 0
    · -- the walk ends here: the depth has changed, or was zero from the beginning
      refine .inr ⟨[], s, rest, rfl, by rw [if_pos hz]; rfl, ?_⟩
      by_cases hd : deeper s = true
      · exact .inl hd
      · by_cases hs : shallower s = true
        · exact .inr (.inl hs)
        · rw [if_neg hd, if_neg hs] at hhere
          exact .inr (.inr ⟨hhere.trans hz, rfl⟩)
    · -- the walk goes on at another depth than zero, so it does not end at the next symbol unless
      -- that is a parenthesis
      rw [if_neg hz]
      rcases ih here with h | ⟨a, t, b, rfl, h, ht⟩
      · exact .inl (congrArg (s :: ·) h)
      · refine .inr ⟨s :: a, t, b, rfl, congrArg (s :: ·) h, ?_⟩
        rcases ht with ht | ht | ht
        · exact .inl ht
        · exact .inr (.inl ht)
        · exact absurd ht.1 hz

/-- The walk to the left, seen as one insertion. -/
theorem openBefore_split (place : Option Location) (passed : List Symbol) :
    openBefore place passed = passed ∨
      ∃ a s b, passed = a ++ s :: b ∧
        openBefore place passed = a ++ s :: .ofOperator "(" place :: b ∧
        (s.isParenthesis = true ∨ a = []) := by
  rcases enclose_split Symbol.isClose Symbol.isOpen (.ofOperator "(" place) 0 passed with
    h | ⟨a, s, b, hpassed, h, hs⟩
  · exact .inl h
  · refine .inr ⟨a, s, b, hpassed, h, ?_⟩
    rcases hs with hs | hs | ⟨-, hs⟩
    · exact .inl (by rw [Symbol.isParenthesis, hs, Bool.or_true])
    · exact .inl (by rw [Symbol.isParenthesis, hs, Bool.true_or])
    · exact .inr hs

/-- The walk to the right, seen as one insertion. -/
theorem closeBehind_split (place : Option Location) (rest : List Symbol) :
    closeBehind place rest = rest ∨
      ∃ a s b, rest = a ++ s :: b ∧
        closeBehind place rest = a ++ s :: .ofOperator ")" place :: b ∧
        (s.isParenthesis = true ∨ a = []) := by
  rcases enclose_split Symbol.isOpen Symbol.isClose (.ofOperator ")" place) 0 rest with
    h | ⟨a, s, b, hrest, h, hs⟩
  · exact .inl h
  · refine .inr ⟨a, s, b, hrest, h, ?_⟩
    rcases hs with hs | hs | ⟨-, hs⟩
    · exact .inl (by rw [Symbol.isParenthesis, hs, Bool.true_or])
    · exact .inl (by rw [Symbol.isParenthesis, hs, Bool.or_true])
    · exact .inr hs

/-- An operand of one symbol gets its parenthesis at once, to the left. -/
theorem openBefore_other {s : Symbol} (h : s.isParenthesis = false) (place : Option Location)
    (rest : List Symbol) : openBefore place (s :: rest) = s :: .ofOperator "(" place :: rest := by
  obtain ⟨ho, hc⟩ := Symbol.isParenthesis_eq_false.1 h
  simp [openBefore, enclose, ho, hc]

theorem closeBehind_other {s : Symbol} (h : s.isParenthesis = false) (place : Option Location)
    (rest : List Symbol) : closeBehind place (s :: rest) = s :: .ofOperator ")" place :: rest := by
  obtain ⟨ho, hc⟩ := Symbol.isParenthesis_eq_false.1 h
  simp [closeBehind, enclose, ho, hc]

/-- A walk inserts nothing in front of its first symbol. -/
theorem head?_enclose (deeper shallower : Symbol → Bool) (parenthesis : Symbol) (depth : Int)
    (symbols : List Symbol) :
    (enclose deeper shallower parenthesis depth symbols).head? = symbols.head? := by
  cases symbols with
  | nil => rfl
  | cons s rest =>
    simp only [enclose]
    -- whatever the depth is, the first symbol stays in front
    generalize (if deeper s = true then depth + 1
      else if shallower s = true then depth - 1 else depth) = here
    split <;> rfl

/-! ### Taking the parentheses out again -/

section

variable {operators : List String} {P : List Symbol → Prop}

/-- A property of streams that stays when a parenthesis is taken out. -/
def Sheds (P : List Symbol → Prop) : Prop :=
  ∀ a p b, p.isParenthesis = true → P (a ++ p :: b) → P (a ++ b)

/-- The parenthesis in front of a left operand can be taken out. -/
theorem Sheds.of_openBefore (hP : Sheds P) {place : Option Location} {passed y : List Symbol}
    (h : P ((openBefore place passed).reverse ++ y)) : P (passed.reverse ++ y) := by
  rcases openBefore_split place passed with hsame | ⟨a, s, b, rfl, hinsert, -⟩
  · rwa [hsame] at h
  · rw [hinsert] at h
    -- what is passed is kept in reverse, so in the stream the parenthesis stands before `s`
    have h := hP b.reverse (.ofOperator "(" place) (s :: (a.reverse ++ y)) rfl (by simpa using h)
    simpa using h

/-- So can the one behind a right operand. -/
theorem Sheds.of_closeBehind (hP : Sheds P) {place : Option Location} {x rest : List Symbol}
    (h : P (x ++ closeBehind place rest)) : P (x ++ rest) := by
  rcases closeBehind_split place rest with hsame | ⟨a, s, b, rfl, hinsert, -⟩
  · rwa [hsame] at h
  · rw [hinsert] at h
    have h := hP (x ++ a ++ [s]) (.ofOperator ")" place) b rfl (by simpa using h)
    simpa using h

/-- One operator wrapped. -/
theorem Sheds.of_wrapped (hP : Sheds P) {s : Symbol} {passed rest : List Symbol}
    (h : P ((s :: openBefore s.location passed).reverse ++ closeBehind s.location rest)) :
    P (passed.reverse ++ s :: rest) := by
  have h := hP.of_closeBehind h
  rw [List.reverse_cons, List.append_assoc] at h
  exact hP.of_openBefore h

/-- All of them can be taken out, back to the beginning of the walk. -/
theorem Sheds.of_wrapFrom (hP : Sheds P) (passed rest : List Symbol)
    (h : P (wrapFrom operators passed rest)) : P (passed.reverse ++ rest) := by
  fun_induction wrapFrom operators passed rest with
  | case1 passed => simpa using h
  -- from the end of the walk back to its beginning
  | case2 passed s rest hs ih => exact hP.of_wrapped (ih h)
  | case3 passed s rest hs ih => simpa using ih h

/-- **Wrapping only inserts parentheses**: what stays when they are taken out held before. -/
theorem Sheds.of_wrap (hP : Sheds P) {symbols : List Symbol} (h : P (wrap operators symbols)) :
    P symbols :=
  hP.of_wrapFrom [] symbols h

/-- A run without parentheses stays where it is. -/
theorem sheds_run {w : List Symbol} (hw : ∀ s ∈ w, s.isParenthesis = false) :
    Sheds (w <:+: ·) := by
  intro a p b hp h
  refine infix_of_insert (fun hmem => ?_) h
  rw [hw p hmem] at hp
  cases hp

/-- Wrapping neither loses, adds nor moves a symbol that is no parenthesis. -/
theorem filter_wrap {q : Symbol → Bool} (hq : ∀ s, s.isParenthesis = true → q s = false)
    (operators : List String) (symbols : List Symbol) :
    (wrap operators symbols).filter q = symbols.filter q := by
  -- to have the filtered symbols of the result is a property that every insertion leaves alone
  have hsheds : Sheds fun l => l.filter q = (wrap operators symbols).filter q := by
    intro a p b hp h
    rw [← h, List.filter_append, List.filter_append, List.filter_cons_of_neg (by simp [hq p hp])]
  exact (hsheds.of_wrap rfl).symm

/-- Zeros are put in and nothing is taken out. -/
theorem filter_withZeros {q : Symbol → Bool} (hq : ∀ place, q (zero place) = false)
    (previous : Option Symbol) (symbols : List Symbol) :
    (withZeros previous symbols).filter q = symbols.filter q := by
  induction symbols generalizing previous with
  | nil => rfl
  | cons s rest ih =>
    rw [withZeros]
    -- with a zero in front of the symbol, or without
    split
    · rw [List.filter_cons_of_neg (by simp [hq]), List.filter_cons, List.filter_cons, ih]
    · rw [List.filter_cons, List.filter_cons, ih]

/-- **Grouping inserts nothing but parentheses and zeros**: all other symbols stay, in their
order. -/
theorem filter_grouped {q : Symbol → Bool}
    (hparenthesis : ∀ s, s.isParenthesis = true → q s = false)
    (hzero : ∀ place, q (zero place) = false) (symbols : List Symbol) :
    (grouped symbols).filter q = symbols.filter q := by
  rw [grouped, filter_wrap hparenthesis, filter_wrap hparenthesis, filter_withZeros hzero]

end

/-! ### In front of an operator -/

section

variable {operators : List String}

/-- A run that ends with the last symbol passed, or lies before it. -/
theorem infix_reverse_cons {w : List Symbol} {o s : Symbol} {passed : List Symbol}
    (h : w ++ [o] <:+: (s :: passed).reverse) :
    o = s ∧ w.reverse <+: passed ∨ w ++ [o] <:+: passed.reverse := by
  rw [List.reverse_cons] at h
  rcases List.infix_concat_iff.1 h with h | h
  · -- the run ends where the stream does, so all of it but `o` lies before `s`
    obtain ⟨x, h⟩ := h
    rw [← List.append_assoc] at h
    obtain ⟨hw, ho⟩ := List.append_inj' h rfl
    refine .inl ⟨List.singleton_inj.1 ho, ?_⟩
    rw [← List.reverse_reverse passed, List.reverse_prefix]
    exact ⟨x, hw⟩
  · exact .inr h

/-- **A run that ends with an operator does not come about** along the walk if it does not when the
operator is wrapped, and if no parenthesis of another operator can complete it. -/
theorem not_infix_wrapFrom {w : List Symbol} {o : Symbol} (ho : o.isOp operators = true)
    (hnear : ∀ passed, ¬ w.reverse <+: openBefore o.location passed)
    (hwithin : ∀ place w₁ w₂ t a, w ++ [o] = w₁ ++ .ofOperator "(" place :: w₂ → w₂ <+: t :: a →
      ¬ (t.isParenthesis = true ∨ a = []))
    (passed rest : List Symbol) (hpassed : ¬ w ++ [o] <:+: passed.reverse) :
    ¬ w ++ [o] <:+: wrapFrom operators passed rest := by
  -- along the walk, the run is not among the symbols that have been passed
  fun_induction wrapFrom operators passed rest with
  | case1 passed => exact hpassed
  | case2 passed s rest hs ih =>
    refine ih fun h => ?_
    rcases infix_reverse_cons h with ⟨rfl, h⟩ | h
    · exact hnear passed h
    · -- the run lies before `s`, so if it is new then the parenthesis of `s` belongs to it
      rcases openBefore_split s.location passed with hsame | ⟨a, t, b, rfl, hinsert, ht⟩
      · exact hpassed (hsame ▸ h)
      rw [hinsert, List.reverse_append, List.reverse_cons, List.reverse_cons, List.append_assoc,
        List.append_assoc, List.singleton_append, List.singleton_append] at h
      rcases infix_insert h with h | ⟨w₁, w₂, hw, -, hw₂⟩
      · exact hpassed (by simpa using h)
      · exact hwithin _ _ _ _ _ hw hw₂ (ht.imp_right List.reverse_eq_nil_iff.2)
  | case3 passed s rest hs ih =>
    refine ih fun h => ?_
    rcases infix_reverse_cons h with ⟨rfl, -⟩ | h
    · exact hs ho
    · exact hpassed h

/-- **The operand of an operator is guarded.** Once an operator is wrapped and there is a symbol
other than a parenthesis directly in front of it, then before that symbol stands the parenthesis of
the operator. -/
theorem guarded_wrapFrom {q y o : Symbol} (ho : o.isOp operators = true)
    (hq : q ≠ .ofOperator "(" o.location) (hy : y.isParenthesis = false)
    (hop : o.isParenthesis = false) (passed rest : List Symbol)
    (hpassed : ¬ [q, y] ++ [o] <:+: passed.reverse) :
    ¬ [q, y] ++ [o] <:+: wrapFrom operators passed rest := by
  refine not_infix_wrapFrom ho ?_ ?_ passed rest hpassed
  · -- the parenthesis of the operator is put right behind `y`
    rintro passed ⟨x, hnear⟩
    have hhead := head?_enclose Symbol.isClose Symbol.isOpen (.ofOperator "(" o.location) 0 passed
    rw [← openBefore, ← hnear] at hhead
    obtain ⟨more, rfl⟩ := List.head?_eq_some_iff.1 hhead.symm
    rw [openBefore_other hy] at hnear
    exact hq (List.cons.inj (List.cons.inj hnear).2).1
  · -- another parenthesis does not come to stand before `y`, which is not the last symbol
    intro place w₁ w₂ t a hw hw₂ ht
    match w₁ with
    | [] =>
      simp only [List.cons_append, List.nil_append, List.cons.injEq] at hw
      obtain ⟨more, hmore⟩ := hw₂
      simp only [← hw.2, List.cons_append, List.cons.injEq] at hmore
      rcases ht with ht | rfl
      · rw [← hmore.1, hy] at ht
        cases ht
      · simp at hmore
    | [_] =>
      simp only [List.cons_append, List.nil_append, List.cons.injEq] at hw
      rw [hw.2.1] at hy
      cases hy
    | [_, _] =>
      simp only [List.cons_append, List.nil_append, List.cons.injEq] at hw
      rw [hw.2.2.1] at hop
      cases hop
    | _ :: _ :: _ :: w₁ => simp at hw

/-- No parenthesis is put between an operator and what follows it, nor behind a parenthesis there
and in front of another symbol. -/
theorem exists_of_closeBehind {s l c o : Symbol} (hs : s.isParenthesis = false)
    (hc : c.isParenthesis = true) (ho : o.isParenthesis = false) {place : Option Location}
    {x rest t : List Symbol} (h : x ++ s :: closeBehind place rest = l :: c :: o :: t) :
    ∃ t', x ++ s :: rest = l :: c :: o :: t' := by
  -- by where `s` stands among the three symbols
  match x with
  | [] =>
    -- `s` is the first of them, and the parenthesis is put in somewhere behind it
    rcases closeBehind_split place rest with hsame | ⟨a, u, b, rfl, hinsert, hu⟩
    · exact ⟨t, hsame ▸ h⟩
    · rw [hinsert] at h
      match a with
      | [] =>
        simp only [List.nil_append, List.cons.injEq] at h
        rw [← h.2.2.1] at ho
        cases ho
      | [_] =>
        simp only [List.cons_append, List.nil_append, List.cons.injEq] at h
        simp [h.2.2.1, ho] at hu
      | _ :: _ :: a =>
        simp only [List.cons_append, List.nil_append, List.cons.injEq] at h
        obtain ⟨rfl, rfl, rfl, -⟩ := h
        exact ⟨a ++ u :: b, rfl⟩
  | [_] =>
    simp only [List.cons_append, List.nil_append, List.cons.injEq] at h
    rw [h.2.1, hc] at hs
    cases hs
  | _ :: _ :: [] =>
    simp only [List.cons_append, List.nil_append, List.cons.injEq] at h
    obtain ⟨rfl, rfl, rfl, -⟩ := h
    exact ⟨rest, rfl⟩
  | _ :: _ :: _ :: r =>
    simp only [List.cons_append, List.cons.injEq] at h
    obtain ⟨rfl, rfl, rfl, -⟩ := h
    exact ⟨r ++ s :: rest, rfl⟩

/-- A parenthesis put in front of an operand further to the right does not part an operator from its
own right operand. -/
theorem exists_of_openBefore {m l c o : Symbol} (hm : m.isParenthesis = false)
    (hl : l.isParenthesis = false) (ho : o.isParenthesis = false) {place : Option Location}
    {passed p₁ p₂ y t : List Symbol} (h : openBefore place passed = p₁ ++ m :: p₂)
    (hbehind : p₁.reverse ++ y = l :: c :: o :: t) :
    (∃ p₁ p₂ t, passed = p₁ ++ m :: p₂ ∧ p₁.reverse ++ y = l :: c :: o :: t) ∨
      [m, l, o] <:+: passed.reverse ++ y := by
  rcases openBefore_split place passed with hsame | ⟨a, u, b, rfl, hinsert, -⟩
  · exact .inl ⟨p₁, p₂, t, hsame.symm.trans h, hbehind⟩
  rw [hinsert, List.append_cons] at h
  rcases List.append_eq_append_iff.1 h with ⟨e, rfl, hb⟩ | ⟨e, ha, hp⟩
  · -- the new parenthesis stands behind `m`
    cases e with
    | nil =>
      obtain ⟨rfl, -⟩ := List.cons.inj hb
      cases hm
    | cons q e =>
      obtain ⟨rfl, rfl⟩ := List.cons.inj hb
      rw [List.reverse_append, List.reverse_cons] at hbehind
      simp only [List.append_assoc, List.singleton_append] at hbehind
      -- the symbols between `m` and the new parenthesis, in the order of the stream
      match he : e.reverse with
      | [] =>
        simp only [he, List.cons_append, List.nil_append, List.cons.injEq] at hbehind
        rw [← hbehind.1] at hl
        cases hl
      | [v] =>
        simp only [he, List.cons_append, List.nil_append, List.cons.injEq] at hbehind
        obtain ⟨rfl, -, hbehind⟩ := hbehind
        exact .inr ⟨p₂.reverse, t, by simp [he, ← hbehind]⟩
      | [v, v'] =>
        simp only [he, List.cons_append, List.nil_append, List.cons.injEq] at hbehind
        rw [← hbehind.2.2.1] at ho
        cases ho
      | v :: v' :: v'' :: r =>
        simp only [he, List.cons_append, List.cons.injEq] at hbehind
        obtain ⟨rfl, rfl, rfl, -⟩ := hbehind
        refine .inl ⟨a ++ u :: e, p₂, r ++ (u :: a.reverse ++ y), by simp, by simp [he]⟩
  · -- it stands in front of `m`
    cases e with
    | nil =>
      obtain ⟨rfl, -⟩ := List.cons.inj hp
      cases hm
    | cons q e =>
      obtain ⟨rfl, -⟩ := List.cons.inj hp
      refine .inl ⟨p₁, e ++ b, t, ?_, hbehind⟩
      rw [List.append_cons, ha]
      simp

/-- **The operand behind an operator is closed off.** If there is one parenthesis only between the
right operand of a wrapped operator and what follows, there was none before it was wrapped. -/
theorem closed_wrapFrom {m l c o : Symbol} (hm : m.isOp operators = true)
    (hl : l.isParenthesis = false) (hc : c.isParenthesis = true) (ho : o.isParenthesis = false)
    (hmp : m.isParenthesis = false) (hoperators : ∀ s : Symbol, s.isOp operators = true →
      s.isParenthesis = false) (passed rest : List Symbol)
    (h : [m, l, c, o] <:+: wrapFrom operators passed rest) :
    (∃ p₁ p₂ t, passed = p₁ ++ m :: p₂ ∧ p₁.reverse ++ rest = l :: c :: o :: t) ∨
      [m, l, o] <:+: passed.reverse ++ rest := by
  have hw : ∀ s ∈ [m, l, o], s.isParenthesis = false := by simp [hmp, hl, ho]
  -- backwards through the walk: `m` is among the symbols passed until it is wrapped itself
  fun_induction wrapFrom operators passed rest with
  | case1 passed =>
    obtain ⟨x, y, h⟩ := h
    refine .inl ⟨(l :: c :: o :: y).reverse, x.reverse, y, ?_, by simp⟩
    rw [← List.reverse_reverse passed, ← h]
    simp
  | case2 passed s rest hs ih =>
    rcases ih h with ⟨p₁, p₂, t, hpassed, hbehind⟩ | h
    · cases p₁ with
      | nil =>
        -- `m` is just being wrapped, so the parenthesis behind `l` is the new one
        obtain ⟨rfl, -⟩ := List.cons.inj hpassed
        have hhead := head?_enclose Symbol.isOpen Symbol.isClose (.ofOperator ")" s.location) 0 rest
        rw [List.reverse_nil, List.nil_append] at hbehind
        rw [← closeBehind, hbehind] at hhead
        obtain ⟨more, rfl⟩ := List.head?_eq_some_iff.1 hhead.symm
        rw [closeBehind_other hl] at hbehind
        obtain ⟨-, rfl⟩ := List.cons.inj (List.cons.inj hbehind).2
        exact .inr ⟨passed.reverse, t, by simp⟩
      | cons q p₁ =>
        simp only [List.cons_append, List.cons.injEq] at hpassed
        obtain ⟨rfl, hpassed⟩ := hpassed
        rw [List.reverse_cons, List.append_assoc] at hbehind
        obtain ⟨t', hbehind⟩ := exists_of_closeBehind (hoperators s hs) hc ho hbehind
        exact exists_of_openBefore hmp hl ho hpassed hbehind
    · exact .inr ((sheds_run hw).of_wrapped h)
  | case3 passed s rest hs ih =>
    rcases ih h with ⟨p₁, p₂, t, hpassed, hbehind⟩ | h
    · cases p₁ with
      | nil =>
        obtain ⟨rfl, -⟩ := List.cons.inj hpassed
        exact absurd hm hs
      | cons q p₁ =>
        obtain ⟨rfl, rfl⟩ := List.cons.inj hpassed
        exact .inl ⟨p₁, p₂, t, rfl, by simpa using hbehind⟩
    · exact .inr (by simpa using h)

/-- A walk that begins with a group of three symbols puts its parenthesis right in front of it. -/
theorem openBefore_group {p z m l c : Symbol} (hp : p.isOpen = true)
    (hz : z.isParenthesis = false) (hm : m.isParenthesis = false) (hl : l.isParenthesis = false)
    (hc : c.isClose = true) (place : Option Location) (rest : List Symbol) :
    openBefore place (c :: l :: m :: z :: p :: rest) =
      c :: l :: m :: z :: p :: .ofOperator "(" place :: rest := by
  obtain ⟨hzo, hzc⟩ := Symbol.isParenthesis_eq_false.1 hz
  obtain ⟨hmo, hmc⟩ := Symbol.isParenthesis_eq_false.1 hm
  obtain ⟨hlo, hlc⟩ := Symbol.isParenthesis_eq_false.1 hl
  -- the group is one operand, and the walk goes over it as a whole
  have hgroup : IsOperand (p :: ([z] ++ m :: ([l] ++ [c]))) :=
    .parts hp hc (IsOperand.single hzo hzc).loose_eq hmo hmc (IsOperand.single hlo hlc).loose_eq
  simpa using openBefore_operand hgroup place rest

/-- If such a group is what a walk to the left ends up with, it was there before the parenthesis
came in. -/
theorem exists_of_openBefore_group {d p z m l c : Symbol} (hz : z.isParenthesis = false)
    (hm : m.isParenthesis = false) (hl : l.isParenthesis = false) {place : Option Location}
    {passed x : List Symbol}
    (h : openBefore place passed = [d, p, z, m, l, c].reverse ++ x) :
    ∃ more, passed = c :: l :: m :: z :: p :: more := by
  rcases openBefore_split place passed with hsame | ⟨a, u, b, rfl, hinsert, hu⟩
  · exact ⟨d :: x, hsame.symm.trans h⟩
  have h : a ++ u :: .ofOperator "(" place :: b = c :: l :: m :: z :: p :: d :: x :=
    hinsert.symm.trans h
  match a with
  | [] =>
    simp only [List.nil_append, List.cons.injEq] at h
    rw [← h.2.1] at hl
    cases hl
  -- within the group the walk would have to end at a parenthesis, and there is none
  | [_] | [_, _] | [_, _, _] =>
    simp only [List.cons_append, List.nil_append, List.cons.injEq] at h
    simp [h, hl, hm, hz] at hu
  | [_, _, _, _] =>
    simp only [List.cons_append, List.nil_append, List.cons.injEq] at h
    obtain ⟨rfl, rfl, rfl, rfl, rfl, -⟩ := h
    exact ⟨b, rfl⟩
  | _ :: _ :: _ :: _ :: _ :: a =>
    simp only [List.cons_append, List.cons.injEq] at h
    obtain ⟨rfl, rfl, rfl, rfl, rfl, -⟩ := h
    exact ⟨a ++ u :: b, rfl⟩

/-- Of the symbols of such a run, only its own opening parenthesis can have been inserted. -/
theorem eq_of_inserted {d p z m l c o : Symbol} (hop : o.isParenthesis = false)
    (hd : d.isParenthesis = false) (hz : z.isParenthesis = false) (hm : m.isParenthesis = false)
    (hl : l.isParenthesis = false) (hc : c.isClose = true) {place : Option Location}
    {w₁ w₂ : List Symbol}
    (h : [d, p, z, m, l, c] ++ [o] = w₁ ++ .ofOperator "(" place :: w₂) :
    w₂ = [z, m, l, c, o] := by
  match w₁ with
  | [_] =>
    simp only [List.cons_append, List.nil_append, List.cons.injEq] at h
    exact h.2.2.symm
  -- any other symbol of the run is no opening parenthesis
  | [] | [_, _] | [_, _, _] | [_, _, _, _] | [_, _, _, _, _] | [_, _, _, _, _, _] =>
    simp only [List.cons_append, List.nil_append, List.cons.injEq] at h
    simp [h] at hop hd hz hm hl hc
  | _ :: _ :: _ :: _ :: _ :: _ :: _ :: w₁ =>
    simp at h

/-- **A group in front of an operator is preceded by a parenthesis** once that operator is
wrapped. -/
theorem preceded_wrapFrom {d p z m l c o : Symbol} (ho : o.isOp operators = true)
    (hop : o.isParenthesis = false) (hd : d.isParenthesis = false) (hp : p.isOpen = true)
    (hz : z.isParenthesis = false) (hm : m.isParenthesis = false) (hl : l.isParenthesis = false)
    (hc : c.isClose = true) (passed rest : List Symbol)
    (hpassed : ¬ [d, p, z, m, l, c] ++ [o] <:+: passed.reverse) :
    ¬ [d, p, z, m, l, c] ++ [o] <:+: wrapFrom operators passed rest := by
  refine not_infix_wrapFrom ho ?_ ?_ passed rest hpassed
  · -- the parenthesis of the operator is put right in front of the group
    rintro passed ⟨x, hnear⟩
    obtain ⟨more, rfl⟩ := exists_of_openBefore_group hz hm hl hnear.symm
    rw [openBefore_group hp hz hm hl hc] at hnear
    simp only [List.reverse_cons, List.reverse_nil, List.cons_append, List.nil_append,
      List.cons.injEq, true_and] at hnear
    rw [hnear.1] at hd
    cases hd
  · -- the opening parenthesis would be the new one, but it is not put in front of `z`
    rintro place w₁ w₂ t a hw hw₂ ht
    obtain rfl := eq_of_inserted hop hd hz hm hl hc hw
    obtain ⟨more, hw₂⟩ := hw₂
    simp only [List.cons_append, List.cons.injEq] at hw₂
    rcases ht with ht | rfl
    · rw [← hw₂.1, hz] at ht
      cases ht
    · simp at hw₂

end

/-! ### Grouped streams -/

/-- Each arithmetic operator is wrapped by one of the two walks. -/
theorem isArithmetic_iff {s : Symbol} :
    s.isArithmetic = true ↔ s.isOp multiplicative = true ∨ s.isOp additive = true := by
  simp only [Symbol.isArithmetic, Symbol.isOp, multiplicative, additive, Bool.and_eq_true]
  rw [← and_or_left]
  simp [or_comm, or_left_comm]

theorem isParenthesis_of_isArithmetic {s : Symbol} (h : s.isArithmetic = true) :
    s.isParenthesis = false :=
  Symbol.isParenthesis_of_isOp h (by decide) (by decide) (by decide)

/-- **No operator stands behind two symbols that are no parentheses.** -/
theorem guarded_grouped {a y o : Symbol} (ha : a.isParenthesis = false)
    (hy : y.isParenthesis = false) (ho : o.isArithmetic = true) (symbols : List Symbol) :
    ¬ [a, y, o] <:+: grouped symbols := by
  have hop := isParenthesis_of_isArithmetic ho
  have hw : ∀ s ∈ [a, y, o], s.isParenthesis = false := by simp [ha, hy, hop]
  have hne := Symbol.ne_of_isParenthesis (p := .ofOperator "(" o.location) ha rfl
  intro h
  rcases isArithmetic_iff.1 ho with ho | ho
  · -- the second walk does not bring such a run about
    exact guarded_wrapFrom ho hne hy hop [] _ (by simp) ((sheds_run hw).of_wrap h)
  · exact guarded_wrapFrom ho hne hy hop [] _ (by simp) h

/-- **No operator stands behind a sum or difference in parentheses**, unless there is another
parenthesis in front of those. -/
theorem preceded_grouped {d p z m l c o : Symbol} (hd : d.isParenthesis = false)
    (hp : p.isOpen = true) (hz : z.isParenthesis = false) (hm : m.isOp additive = true)
    (hl : l.isParenthesis = false) (hc : c.isClose = true) (ho : o.isArithmetic = true)
    (symbols : List Symbol) : ¬ [d, p, z, m, l, c, o] <:+: grouped symbols := by
  have hop := isParenthesis_of_isArithmetic ho
  have hadditive (s : Symbol) (hs : s.isOp additive = true) : s.isParenthesis = false :=
    isParenthesis_of_isArithmetic (isArithmetic_iff.2 (.inr hs))
  have hmp := hadditive m hm
  intro h
  -- by which of the two walks has wrapped the operator
  rcases isArithmetic_iff.1 ho with ho | ho
  · -- the parenthesis behind `l` was put there for `m`, so before that `o` stood behind two symbols
    have hcp : c.isParenthesis = true := by rw [Symbol.isParenthesis, hc, Bool.or_true]
    have hrun : [m, l, c, o] <:+: grouped symbols :=
      (List.suffix_append [d, p, z] [m, l, c, o]).isInfix.trans h
    rcases closed_wrapFrom hm hl hcp hop hmp hadditive [] _ hrun with ⟨p₁, p₂, t, hnil, -⟩ | h
    · simp at hnil
    · exact guarded_wrapFrom ho (Symbol.ne_of_isParenthesis hmp rfl) hl hop [] _ (by simp) h
  · exact preceded_wrapFrom ho hop hd hp hz hmp hl hc [] _ (by simp) h

end Grouping

end RomAsm
