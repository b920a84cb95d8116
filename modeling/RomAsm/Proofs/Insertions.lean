import Mathlib.Data.List.Chain
import RomAsm.Proofs.Neighbours

/-!
# What grouping leaves alone

Grouping inserts parentheses into a stream, and where an operator lacks an operand they may come to
stand far away from it. Here is what holds in spite of that, for every stream. A parenthesis is
inserted next to another one, or on the far side of the symbol next to an operator (`Admits`). A
property that such insertions keep holds of the grouped stream if it held before (`Keeps.wrap`):

* `keeps_padded` — all symbols stay, in their order, with parentheses between them;
* `keeps_whole` — a run of symbols stays in one piece if there is no operator in it or next to it;
  one in front of it can only shut off its first symbol from the others;
* `keeps_fenced`, `keeps_shut` — a symbol stays fenced off by parentheses from what follows it.

When the walk comes to a run, it finds it as it was (`exists_wrapFrom_run`), so it can be followed
over the operators of the run: `fenced_wrap` and `fenced_wrap_twice` say how an operand is fenced
off by one operator and by two. The group that the first of them makes can still be broken up later,
by an operator with an opening parenthesis in front of it. `exists_wrapFrom_group` is the case in
which there is none, and `Tame` says of the stream before both walks that there will be none
(`exists_wrap_group`).
-/

namespace RomAsm.Grouping

/-! ### Where parentheses are inserted -/

/-- The places where a walk may insert a parenthesis: next to a parenthesis, or on the far side of a
symbol next to one of its operators. -/
inductive Admits (operators : List String) : List Symbol → Symbol → List Symbol → Prop where
  | opening {x y : List Symbol} {s : Symbol} (place : Option Location)
      (h : s.isParenthesis = true ∨ ∃ o rest, y = o :: rest ∧ o.isOp operators = true) :
      Admits operators x (.ofOperator "(" place) (s :: y)
  | closing {x y : List Symbol} {s : Symbol} (place : Option Location)
      (h : s.isParenthesis = true ∨ ∃ before o, x = before ++ [o] ∧ o.isOp operators = true) :
      Admits operators (x ++ [s]) (.ofOperator ")" place) y

/-- A property of streams that a walk keeps when it inserts a parenthesis. -/
def Keeps (operators : List String) (P : List Symbol → Prop) : Prop :=
  ∀ x p y, Admits operators x p y → P (x ++ y) → P (x ++ p :: y)

variable {operators : List String} {P : List Symbol → Prop}

/-- Only parentheses are inserted. -/
theorem Admits.isParenthesis {x y : List Symbol} {p : Symbol} (h : Admits operators x p y) :
    p.isParenthesis = true := by
  cases h <;> rfl

/-- The two ways in which a place is admitted, by what stands next to it. -/
theorem Admits.cases {x y : List Symbol} {p : Symbol} (h : Admits operators x p y) :
    (∃ s rest, y = s :: rest ∧
        (s.isParenthesis = true ∨ ∃ o more, rest = o :: more ∧ o.isOp operators = true)) ∨
      p.isClose = true ∧ ∃ before s, x = before ++ [s] ∧
        (s.isParenthesis = true ∨ ∃ more o, before = more ++ [o] ∧ o.isOp operators = true) := by
  cases h with
  | opening place h => exact .inl ⟨_, _, rfl, h⟩
  | closing place h => exact .inr ⟨rfl, _, _, rfl, h⟩

namespace Keeps

/-- The opening parenthesis of an operator is admitted. -/
theorem openBefore (hP : Keeps operators P) {s : Symbol} (hs : s.isOp operators = true)
    {passed rest : List Symbol} (h : P (passed.reverse ++ s :: rest)) :
    P ((openBefore s.location passed).reverse ++ s :: rest) := by
  -- the new parenthesis stands before `t`, which is a parenthesis or next to the operator itself
  rcases openBefore_split s.location passed with hsame | ⟨a, t, b, rfl, hinsert, ht⟩
  · rwa [hsame]
  · have hadmits : Admits operators b.reverse (.ofOperator "(" s.location)
        (t :: (a.reverse ++ s :: rest)) := by
      refine .opening _ (ht.imp_right ?_)
      rintro rfl
      exact ⟨s, rest, rfl, hs⟩
    rw [hinsert]
    simpa using hP _ _ _ hadmits (by simpa using h)

/-- So is its closing parenthesis. -/
theorem closeBehind (hP : Keeps operators P) {s : Symbol} (hs : s.isOp operators = true)
    {x rest : List Symbol} (h : P (x ++ s :: rest)) :
    P (x ++ s :: closeBehind s.location rest) := by
  -- the new parenthesis stands behind `t`, which is a parenthesis or next to the operator itself
  rcases closeBehind_split s.location rest with hsame | ⟨a, t, b, rfl, hinsert, ht⟩
  · rwa [hsame]
  · have hadmits : Admits operators (x ++ s :: a ++ [t]) (.ofOperator ")" s.location) b := by
      refine .closing _ (ht.imp_right ?_)
      rintro rfl
      exact ⟨x, s, rfl, hs⟩
    rw [hinsert]
    simpa using hP _ _ _ hadmits (by simpa using h)

/-- A whole walk is a sequence of admitted insertions, so it keeps the property from wherever it
begins. -/
theorem of_wrapFrom (hP : Keeps operators P) {passed rest : List Symbol}
    (h : P (passed.reverse ++ rest)) : P (wrapFrom operators passed rest) := by
  fun_induction wrapFrom operators passed rest with
  | case1 passed => simpa using h
  | case2 passed s rest hs ih =>
    refine ih ?_
    rw [List.reverse_cons, List.append_assoc]
    -- one operator makes two insertions, and both are admitted
    exact hP.closeBehind hs (hP.openBefore hs h)
  -- a symbol that is passed over goes from one side of the walk to the other
  | case3 passed s rest hs ih => exact ih (by simpa using h)

/-- **What insertions keep, grouping keeps.** -/
theorem wrap (hP : Keeps operators P) {symbols : List Symbol} (h : P symbols) :
    P (wrap operators symbols) :=
  hP.of_wrapFrom h

end Keeps

/-- A cut through three parts of a list: it goes through the first, the second or the third. -/
theorem cut_cases {α : Type} {x y u w v : List α} (h : x ++ y = u ++ (w ++ v)) :
    (∃ u', u = x ++ u' ∧ y = u' ++ (w ++ v)) ∨
      (∃ w₁ w₂, w = w₁ ++ w₂ ∧ w₁ ≠ [] ∧ w₂ ≠ [] ∧ x = u ++ w₁ ∧ y = w₂ ++ v) ∨
      ∃ v', x = u ++ (w ++ v') ∧ v = v' ++ y := by
  -- a cut between two of the parts counts as one through the first or the third
  rcases List.append_eq_append_iff.1 h with ⟨u', hu, hy⟩ | ⟨r, hx, hr⟩
  · exact .inl ⟨u', hu, hy⟩
  · rcases List.append_eq_append_iff.1 hr with ⟨v', hr, hv⟩ | ⟨w₂, hw, hy⟩
    · exact .inr (.inr ⟨v', by rw [hx, hr], hv⟩)
    · by_cases hr : r = []
      · subst hr
        exact .inl ⟨[], by simpa using hx.symm, by simp [hy, hw]⟩
      · by_cases hw₂ : w₂ = []
        · subst hw₂
          exact .inr (.inr ⟨[], by simp [hx, hw], by simpa using hy.symm⟩)
        · exact .inr (.inl ⟨r, w₂, hw, hr, hw₂, hx, hy⟩)

/-- The part that ends a list has the last element of the list. -/
theorem exists_of_concat {α : Type} {a u r : List α} {t : α} (hr : r ≠ [])
    (h : a ++ [t] = u ++ r) : ∃ r', r = r' ++ [t] ∧ a = u ++ r' := by
  obtain ⟨r', t', rfl⟩ := (List.eq_nil_or_concat r).resolve_left hr
  rw [List.concat_eq_append, ← List.append_assoc] at h
  obtain ⟨rfl, ht⟩ := List.append_inj' h rfl
  obtain rfl := List.singleton_inj.1 ht
  exact ⟨r', List.concat_eq_append, rfl⟩

/-! ### All symbols stay -/

/-- A stream with parentheses put in. -/
inductive Padded : List Symbol → List Symbol → Prop where
  | nil : Padded [] []
  | keep {s : Symbol} {xs ys : List Symbol} (h : Padded xs ys) : Padded (s :: xs) (s :: ys)
  | pad {p : Symbol} {xs ys : List Symbol} (hp : p.isParenthesis = true) (h : Padded xs ys) :
      Padded xs (p :: ys)

namespace Padded

theorem refl (xs : List Symbol) : Padded xs xs := by
  induction xs with
  | nil => exact .nil
  | cons s xs ih => exact .keep ih

/-- One more parenthesis can be put in anywhere. -/
theorem insert {xs a b : List Symbol} {p : Symbol} (hp : p.isParenthesis = true)
    (h : Padded xs (a ++ b)) : Padded xs (a ++ p :: b) := by
  induction a generalizing xs with
  | nil => exact .pad hp h
  -- the insertion is made further on, behind what was kept or put in here
  | cons s a ih =>
    cases h with
    | keep h => exact .keep (ih h)
    | pad hs h => exact .pad hs (ih h)

/-- A symbol of the stream is found in the padded one, and what follows it is padded too. -/
theorem split {a b ys : List Symbol} {s : Symbol} (h : Padded (a ++ s :: b) ys) :
    ∃ a' b', ys = a' ++ s :: b' ∧ Padded b b' := by
  -- induction on how the stream was padded, up to where `s` has come to stand
  generalize hxs : a ++ s :: b = xs at h
  induction h generalizing a with
  | nil => simp at hxs
  | @keep t xs ys h ih =>
    cases a with
    | nil =>
      obtain ⟨rfl, rfl⟩ := List.cons.inj hxs
      exact ⟨[], ys, rfl, h⟩
    | cons t' a =>
      obtain ⟨a', b', rfl, hb⟩ := ih (List.cons.inj hxs).2
      exact ⟨t :: a', b', rfl, hb⟩
  | @pad p xs ys hp h ih =>
    obtain ⟨a', b', rfl, hb⟩ := ih hxs
    exact ⟨p :: a', b', rfl, hb⟩

/-- A symbol that is no parenthesis has not been put in. -/
theorem of_other {s t : Symbol} {xs ys : List Symbol} (ht : t.isParenthesis = false)
    (h : Padded (s :: xs) (t :: ys)) : t = s ∧ Padded xs ys := by
  cases h with
  | keep h => exact ⟨rfl, h⟩
  | pad hp h =>
    rw [ht] at hp
    cases hp

/-- A parenthesis in front of another symbol has been put in. -/
theorem of_parenthesis {s t : Symbol} {xs ys : List Symbol} (hs : s.isParenthesis = false)
    (ht : t.isParenthesis = true) (h : Padded (s :: xs) (t :: ys)) : Padded (s :: xs) ys := by
  cases h with
  | keep h =>
    rw [hs] at ht
    cases ht
  | pad hp h => exact h

end Padded

/-- **All symbols stay, in their order.** -/
theorem keeps_padded (xs : List Symbol) : Keeps operators (Padded xs) :=
  fun _ _ _ hadmits h => h.insert hadmits.isParenthesis

/-- So a grouped stream is the stream with its zeros, padded. -/
theorem padded_grouped (symbols : List Symbol) :
    Padded (withZeros none symbols) (grouped symbols) :=
  (keeps_padded _).wrap ((keeps_padded _).wrap (.refl _))

/-! ### Fences -/

/-- A symbol stands in a stream with a fence directly behind it: a run of parentheses of which `C`
holds. -/
def FencedBy (C : List Symbol → Prop) (d : Symbol) (stream : List Symbol) : Prop :=
  ∃ u m v, stream = u ++ d :: (m ++ v) ∧ (∀ q ∈ m, q.isParenthesis = true) ∧ C m

/-- The fence has at least `n` parentheses. -/
abbrev Fenced (n : Nat) : Symbol → List Symbol → Prop := FencedBy fun m => n ≤ m.length

/-- One of the parentheses closes, so what is behind them belongs to something else. -/
abbrev Shut : Symbol → List Symbol → Prop := FencedBy fun m => ∃ q ∈ m, q.isClose = true

/-- A fence stays, and can only become longer. -/
theorem keeps_fencedBy {C : List Symbol → Prop}
    (hC : ∀ m₁ m₂ p, C (m₁ ++ m₂) → C (m₁ ++ p :: m₂)) (d : Symbol) :
    Keeps operators (FencedBy C d) := by
  rintro x p y hadmits ⟨u, m, v, hstream, hm, hfence⟩
  have hp := hadmits.isParenthesis
  rw [← List.cons_append] at hstream
  rcases cut_cases hstream with ⟨u', rfl, rfl⟩ | ⟨w₁, w₂, hw, hw₁, -, rfl, rfl⟩ | ⟨v', rfl, rfl⟩
  · -- in front of the symbol, the fence is not touched
    exact ⟨x ++ p :: u', m, v, by simp, hm, hfence⟩
  · -- the new parenthesis is part of the fence
    obtain ⟨d', m₁, rfl⟩ := List.exists_cons_of_ne_nil hw₁
    rw [List.cons_append] at hw
    obtain ⟨rfl, rfl⟩ := List.cons.inj hw
    refine ⟨u, m₁ ++ p :: w₂, v, by simp, fun q hq => ?_, hC m₁ w₂ p hfence⟩
    rcases List.mem_append.1 hq with hq | hq
    · exact hm q (List.mem_append_left _ hq)
    · rcases List.mem_cons.1 hq with rfl | hq
      · exact hp
      · exact hm q (List.mem_append_right _ hq)
  · exact ⟨u, m, v' ++ p :: y, by simp, hm, hfence⟩

/-- A fence of some length stays as long. -/
theorem keeps_fenced (n : Nat) (d : Symbol) : Keeps operators (Fenced n d) := by
  refine keeps_fencedBy (fun m₁ m₂ p hn => ?_) d
  rw [List.length_append] at hn ⊢
  rw [List.length_cons]
  omega

/-- A fence with a closing parenthesis keeps it. -/
theorem keeps_shut (d : Symbol) : Keeps operators (Shut d) := by
  refine keeps_fencedBy ?_ d
  rintro m₁ m₂ p ⟨q, hmem, hq⟩
  exact ⟨q, by simpa using (List.mem_append.1 hmem).imp_right .inr, hq⟩

/-- A fence that shuts something off has at least one parenthesis. -/
theorem FencedBy.fenced {d : Symbol} {stream : List Symbol} (h : Shut d stream) :
    Fenced 1 d stream := by
  obtain ⟨u, m, v, hstream, hm, q, hq, -⟩ := h
  exact ⟨u, m, v, hstream, hm, List.length_pos_of_mem hq⟩

/-! ### Runs that stay in one piece -/

/-- The last symbol of a stream, if it has one, is no arithmetic operator. -/
def EndsPlain (u : List Symbol) : Prop := ∀ s ∈ u.getLast?, s.isArithmetic = false

/-- The first symbol of a stream, if it has one, is no arithmetic operator. -/
def BeginsPlain (v : List Symbol) : Prop := ∀ s ∈ v.head?, s.isArithmetic = false

/-- A run stands in a stream in one piece, and what follows it has the property `T`. No arithmetic
operator stands in front of it, unless `attached`; then the first symbol of the run may also have
been shut off from the others, as the operand of that operator. -/
def Whole (attached : Prop) (T : List Symbol → Prop) (d : Symbol) (w stream : List Symbol) : Prop :=
  attached ∧ Shut d stream ∨
    ∃ u v, stream = u ++ (d :: w ++ v) ∧ (attached ∨ EndsPlain u) ∧ T v

/-- A property of what follows a run that a walk keeps, wherever the run stands. -/
def Trails (operators : List String) (T : List Symbol → Prop) : Prop :=
  ∀ x v p y, Admits operators (x ++ v) p y → T (v ++ y) → T (v ++ p :: y)

/-- A parenthesis is no arithmetic operator. -/
theorem isArithmetic_of_isParenthesis {s : Symbol} (h : s.isParenthesis = true) :
    s.isArithmetic = false := by
  refine Bool.eq_false_iff.2 fun hs => ?_
  rw [isParenthesis_of_isArithmetic hs] at h
  cases h

/-- A parenthesis that is inserted makes no operator the last symbol. -/
theorem EndsPlain.insert {x u : List Symbol} {p : Symbol} (hp : p.isParenthesis = true)
    (h : EndsPlain (x ++ u)) : EndsPlain (x ++ p :: u) := by
  intro s hs
  cases hu : u.getLast? with
  -- the new parenthesis is the last symbol itself
  | none =>
    obtain rfl := List.getLast?_eq_none_iff.1 hu
    simp only [List.getLast?_concat, Option.mem_some_iff] at hs
    exact hs ▸ isArithmetic_of_isParenthesis hp
  | some t =>
    refine h s ?_
    simpa [List.getLast?_append, List.getLast?_cons, hu] using hs

/-- The rest of a stream ends as the stream does. -/
theorem EndsPlain.tail {t : Symbol} {u : List Symbol} (h : EndsPlain (t :: u)) : EndsPlain u := by
  intro s hs
  refine h s ?_
  rw [List.getLast?_cons, Option.mem_def.1 hs]
  rfl

/-- Inserting a parenthesis does not make an operator the first symbol. -/
theorem BeginsPlain.insert {v y : List Symbol} {p : Symbol} (hp : p.isParenthesis = true)
    (h : BeginsPlain (v ++ y)) : BeginsPlain (v ++ p :: y) := by
  intro s hs
  cases v with
  | nil =>
    simp only [List.nil_append, List.head?_cons, Option.mem_some_iff] at hs
    exact hs ▸ isArithmetic_of_isParenthesis hp
  | cons t v => exact h s hs

theorem trails_beginsPlain : Trails operators BeginsPlain :=
  fun _ _ _ _ hadmits h => h.insert hadmits.isParenthesis

/-- A parenthesis is inserted into a run without operators only behind its first symbol, if there is
an operator in front of that. -/
theorem admits_within {u v w₁ w₂ : List Symbol} {d p : Symbol}
    (hoperators : ∀ s : Symbol, s.isOp operators = true → s.isArithmetic = true)
    (hw : ∀ s ∈ d :: (w₁ ++ w₂), s.isParenthesis = false ∧ s.isOp operators = false)
    (hw₂ : w₂ ≠ []) (hbegin : BeginsPlain v) (h : Admits operators (u ++ d :: w₁) p (w₂ ++ v)) :
    w₁ = [] ∧ p.isClose = true ∧ ¬ EndsPlain u := by
  -- an opening parenthesis would need a neighbour behind it, a closing one a neighbour in front
  rcases h.cases with ⟨s, rest, hy, hs⟩ | ⟨hp, before, s, hx, hs⟩
  · exfalso
    obtain ⟨t, w₂, rfl⟩ := List.exists_cons_of_ne_nil hw₂
    obtain ⟨rfl, rfl⟩ := List.cons.inj hy
    rcases hs with hs | ⟨o, more, ho, hop⟩
    · rw [(hw t (by simp)).1] at hs
      cases hs
    · -- the operator is in the run, or the first symbol behind it
      cases w₂ with
      | nil =>
        have hv : v = o :: more := ho
        have hplain := hbegin o (by rw [hv]; rfl)
        rw [hoperators o hop] at hplain
        cases hplain
      | cons o' w₂ =>
        obtain ⟨rfl, -⟩ := List.cons.inj ho
        rw [(hw o' (by simp)).2] at hop
        cases hop
  · obtain ⟨w, hw₁, rfl⟩ := exists_of_concat (List.cons_ne_nil d w₁) hx.symm
    rcases hs with hs | ⟨more, o, ho, hop⟩
    · rw [(hw s (by rw [← List.cons_append, hw₁]; simp)).1] at hs
      cases hs
    · cases w with
      | nil =>
        -- the operator is the last symbol before the run
        obtain ⟨-, rfl⟩ := List.cons.inj hw₁
        refine ⟨rfl, hp, fun hend => ?_⟩
        have hplain := hend o (by rw [List.append_nil] at ho; rw [ho]; simp)
        rw [hoperators o hop] at hplain
        cases hplain
      | cons d' w =>
        obtain ⟨w', hw', -⟩ := exists_of_concat (List.cons_ne_nil d' w) ho.symm
        have hmem : o ∈ d :: (w₁ ++ w₂) := by
          rw [← List.cons_append, hw₁, hw']
          simp
        rw [(hw o hmem).2] at hop
        cases hop

/-- **A run stays in one piece** if no operator of the walk is in it or behind it, and none in front
of it takes its first symbol. -/
theorem keeps_whole {attached : Prop} {T : List Symbol → Prop} {d : Symbol} {w : List Symbol}
    (hoperators : ∀ s : Symbol, s.isOp operators = true → s.isArithmetic = true)
    (hw : ∀ s ∈ d :: w, s.isParenthesis = false ∧ s.isOp operators = false)
    (hT : Trails operators T) (hbegin : ∀ v, T v → BeginsPlain v) :
    Keeps operators (Whole attached T d w) := by
  rintro x p y hadmits (⟨hattached, hshut⟩ | ⟨u, v, hstream, hu, hv⟩)
  · exact .inl ⟨hattached, keeps_shut d x p y hadmits hshut⟩
  rcases cut_cases hstream with ⟨u', rfl, rfl⟩ | ⟨w₁, w₂, hrun, hw₁, hw₂, rfl, rfl⟩ | ⟨v', rfl, rfl⟩
  · -- in front of the run, a parenthesis is no operator
    exact .inr ⟨x ++ p :: u', v, by simp, hu.imp_right (·.insert hadmits.isParenthesis), hv⟩
  · -- into the run, the parenthesis goes behind the operand of the operator in front
    obtain ⟨d', w₁, rfl⟩ := List.exists_cons_of_ne_nil hw₁
    obtain ⟨rfl, rfl⟩ := List.cons.inj hrun
    obtain ⟨rfl, hp, hend⟩ := admits_within hoperators hw hw₂ (hbegin v hv) hadmits
    refine .inl ⟨hu.resolve_right hend, u, [p], w₂ ++ v, by simp, ?_, p, by simp, hp⟩
    exact List.forall_mem_singleton.2 hadmits.isParenthesis
  · -- behind the run, `T` is what has to be kept
    refine .inr ⟨u, v' ++ p :: y, by simp, hu, hT (u ++ d :: w) v' p y ?_ hv⟩
    simpa using hadmits

/-! ### Coming to a run -/

/-- A walk passes over a symbol that it does not wrap. -/
theorem wrapFrom_other {s : Symbol} (h : s.isOp operators = false) (passed rest : List Symbol) :
    wrapFrom operators passed (s :: rest) = wrapFrom operators (s :: passed) rest := by
  rw [wrapFrom, h, if_neg Bool.false_ne_true]

/-- It puts one parenthesis on each side of an operator that it wraps. -/
theorem wrapFrom_operator {s : Symbol} (h : s.isOp operators = true) (passed rest : List Symbol) :
    wrapFrom operators passed (s :: rest) =
      wrapFrom operators (s :: openBefore s.location passed) (closeBehind s.location rest) := by
  rw [wrapFrom, h, if_pos rfl]

/-- A walk that wraps arithmetic operators wraps no parenthesis. -/
theorem not_isOp_of_isParenthesis
    (hoperators : ∀ s : Symbol, s.isOp operators = true → s.isArithmetic = true) {p : Symbol}
    (hp : p.isParenthesis = true) : p.isOp operators = false := by
  refine Bool.eq_false_iff.2 fun h => ?_
  have hplain := isArithmetic_of_isParenthesis hp
  rw [hoperators p h] at hplain
  cases hplain

/-- A property of streams that a closing parenthesis behind another parenthesis does not destroy. -/
def Closable (T : List Symbol → Prop) : Prop :=
  ∀ a t b place, t.isParenthesis = true → T (a ++ t :: b) →
    T (a ++ t :: .ofOperator ")" place :: b)

/-- An operator in front of a run, but not directly, does not break it up. -/
theorem exists_closeBehind_run {T : List Symbol → Prop} (hT : Closable T) {u w v : List Symbol}
    (hune : u ≠ []) (hwne : w ≠ []) (hw : ∀ s ∈ w, s.isParenthesis = false) (hv : T v)
    (place : Option Location) :
    ∃ u' v', closeBehind place (u ++ (w ++ v)) = u' ++ (w ++ v') ∧
      (EndsPlain u → EndsPlain u') ∧ T v' := by
  rcases closeBehind_split place (u ++ (w ++ v)) with hsame | ⟨a, t, b, hsplit, hinsert, ht⟩
  · exact ⟨u, v, hsame, id, hv⟩
  rw [hinsert]
  rw [List.append_cons] at hsplit
  -- behind `u`, the walk stops at parentheses only
  have hstop {r : List Symbol} (hr : r ≠ []) (hx : a ++ [t] = u ++ r) :
      ∃ r', r = r' ++ [t] ∧ a = u ++ r' ∧ t.isParenthesis = true := by
    obtain ⟨r', rfl, rfl⟩ := exists_of_concat hr hx
    refine ⟨r', rfl, rfl, ht.resolve_right ?_⟩
    simp [hune]
  rcases cut_cases hsplit.symm with
    ⟨u', rfl, rfl⟩ | ⟨w₁, w₂, rfl, hw₁, -, hx, rfl⟩ | ⟨v', hx, rfl⟩
  · -- the walk ends in front of the run
    exact ⟨a ++ [t] ++ .ofOperator ")" place :: u', v, by simp, fun hu => hu.insert rfl, hv⟩
  · -- it cannot end within the run, which has no parentheses
    obtain ⟨r, rfl, -, hparenthesis⟩ := hstop hw₁ hx
    rw [hw t (by simp)] at hparenthesis
    cases hparenthesis
  · obtain ⟨r, hr, rfl, hparenthesis⟩ := hstop (by simp [hwne]) hx
    by_cases hnil : v' = []
    · subst hnil
      rw [hw t (by rw [← List.append_nil w, hr]; simp)] at hparenthesis
      cases hparenthesis
    · obtain ⟨v', rfl, rfl⟩ := exists_of_concat hnil hr.symm
      refine ⟨u, v' ++ t :: .ofOperator ")" place :: b, by simp, id, ?_⟩
      exact hT v' t b place hparenthesis (by simpa using hv)

/-- **A walk comes to a run** as it stands, unless an operator directly in front of it has shut off
its first symbol. -/
theorem exists_wrapFrom_run (attached : Prop) {T : List Symbol → Prop} (hT : Closable T)
    {d : Symbol} {w : List Symbol}
    (hoperators : ∀ s : Symbol, s.isOp operators = true → s.isArithmetic = true)
    (hw : ∀ s ∈ d :: w, s.isParenthesis = false) (passed : List Symbol) {u v : List Symbol}
    (hu : attached ∨ EndsPlain u) (hv : T v) :
    attached ∧ Shut d (wrapFrom operators passed (u ++ (d :: w ++ v))) ∨
      ∃ passed' v', wrapFrom operators passed (u ++ (d :: w ++ v)) =
        wrapFrom operators passed' (d :: w ++ v') ∧ T v' := by
  -- along the walk, what is still in front of the run never ends with an operator if it did not
  generalize hrest : u ++ (d :: w ++ v) = rest
  fun_induction wrapFrom operators passed rest generalizing u v with
  | case1 passed => simp_all
  | case2 passed s rest hs ih =>
    cases u with
    | nil =>
      refine .inr ⟨passed, v, ?_, hv⟩
      rw [← wrapFrom_operator hs, ← hrest, List.nil_append]
    | cons t u =>
      rw [List.cons_append] at hrest
      obtain ⟨rfl, rfl⟩ := List.cons.inj hrest
      by_cases hune : u = []
      · -- the operator is directly in front of the run, so `d` is its operand
        subst hune
        have hattached : attached := hu.resolve_right fun hend => by
          have hplain := hend t rfl
          rw [hoperators t hs] at hplain
          cases hplain
        refine .inl ⟨hattached, (keeps_shut d).of_wrapFrom ?_⟩
        rw [List.nil_append, List.cons_append, closeBehind_other (hw d List.mem_cons_self)]
        exact ⟨_, [.ofOperator ")" t.location], w ++ v, rfl, List.forall_mem_singleton.2 rfl,
          _, List.mem_singleton_self _, rfl⟩
      · obtain ⟨u', v', hclose, hu', hv'⟩ :=
          exists_closeBehind_run hT hune (List.cons_ne_nil d w) hw hv t.location
        exact ih (hu.imp_right fun hend => hu' hend.tail) hv' hclose.symm
  -- a symbol in front of the run is passed over
  | case3 passed s rest hs ih =>
    cases u with
    | nil =>
      refine .inr ⟨passed, v, ?_, hv⟩
      rw [← wrapFrom_other (Bool.eq_false_iff.2 hs), ← hrest, List.nil_append]
    | cons t u =>
      rw [List.cons_append] at hrest
      obtain ⟨rfl, rfl⟩ := List.cons.inj hrest
      exact ih (hu.imp_right fun hend => hend.tail) hv rfl

/-! ### Over the operators of a run -/

/-- Where nothing is asked of what follows, nothing can be destroyed. -/
theorem closable_true : Closable fun _ => True := fun _ _ _ _ _ _ => trivial

/-- **An operand is fenced off** from the symbol in front of it by the operator behind it. -/
theorem fenced_wrap (hoperators : ∀ s : Symbol, s.isOp operators = true → s.isArithmetic = true)
    {d x o : Symbol} (hd : d.isParenthesis = false ∧ d.isOp operators = false)
    (hx : x.isParenthesis = false ∧ x.isOp operators = false) (ho : o.isOp operators = true)
    (u v : List Symbol) : Fenced 1 d (wrap operators (u ++ d :: x :: o :: v)) := by
  have hop := isParenthesis_of_isArithmetic (hoperators o ho)
  rcases exists_wrapFrom_run True closable_true hoperators (d := d) (w := [x, o])
    (by simp [hd, hx, hop]) [] (.inl trivial) (u := u) (v := v) trivial with
    ⟨-, hshut⟩ | ⟨passed, v', hwalk, -⟩
  · exact hshut.fenced
  -- the walk comes to the run as it is, passes `d` and `x`, and wraps `o`
  have hwalk : wrap operators (u ++ d :: x :: o :: v) =
      wrapFrom operators (o :: openBefore o.location (x :: d :: passed))
        (closeBehind o.location v') := by
    rw [wrap, ← wrapFrom_operator ho, ← wrapFrom_other hx.2, ← wrapFrom_other hd.2]
    exact hwalk
  rw [hwalk, openBefore_other hx.1]
  -- its parenthesis stands behind `d` now, and what follows keeps it there
  refine (keeps_fenced 1 d).of_wrapFrom ⟨passed.reverse, [.ofOperator "(" o.location],
    x :: o :: closeBehind o.location v', by simp, by simp, Nat.le_refl _⟩

/-- **Two operators fence off twice** the operand of the first, unless another one shuts it off. -/
theorem fenced_wrap_twice
    (hoperators : ∀ s : Symbol, s.isOp operators = true → s.isArithmetic = true)
    {d x m l o : Symbol} (hd : d.isParenthesis = false ∧ d.isOp operators = false)
    (hx : x.isParenthesis = false ∧ x.isOp operators = false) (hm : m.isOp operators = true)
    (hl : l.isParenthesis = false ∧ l.isOp operators = false) (ho : o.isOp operators = true)
    (u v : List Symbol) : Fenced 2 d (wrap operators (u ++ d :: x :: m :: l :: o :: v)) ∨
      Shut d (wrap operators (u ++ d :: x :: m :: l :: o :: v)) := by
  have hmp := isParenthesis_of_isArithmetic (hoperators m hm)
  have hop := isParenthesis_of_isArithmetic (hoperators o ho)
  rcases exists_wrapFrom_run True closable_true hoperators (d := d) (w := [x, m, l, o])
    (by simp [hd, hx, hmp, hl, hop]) [] (.inl trivial) (u := u) (v := v) trivial with
    ⟨-, hshut⟩ | ⟨passed, v', hwalk, -⟩
  · exact .inr hshut
  -- `m` makes a group of its two operands, and that is the left operand of `o`
  have hclosing := not_isOp_of_isParenthesis hoperators (Symbol.isParenthesis_close m.location)
  have hwalk : wrap operators (u ++ d :: x :: m :: l :: o :: v) =
      wrapFrom operators (o :: openBefore o.location (.ofOperator ")" m.location :: l :: m :: x ::
        .ofOperator "(" m.location :: d :: passed)) (closeBehind o.location v') := by
    rw [← wrapFrom_operator ho, ← wrapFrom_other hclosing, ← wrapFrom_other hl.2,
      ← closeBehind_other hl.1, ← openBefore_other hx.1, ← wrapFrom_operator hm,
      ← wrapFrom_other hx.2, ← wrapFrom_other hd.2]
    exact hwalk
  rw [hwalk, openBefore_group rfl hx.1 hmp hl.1 rfl]
  refine .inl <| (keeps_fenced 2 d).of_wrapFrom ⟨passed.reverse,
    [.ofOperator "(" o.location, .ofOperator "(" m.location],
    x :: m :: l :: .ofOperator ")" m.location :: o :: closeBehind o.location v', by simp, by simp,
    Nat.le_refl _⟩

/-! ### Groups that are not broken up -/

theorem isArithmetic_of_multiplicative (s : Symbol) (h : s.isOp multiplicative = true) :
    s.isArithmetic = true := isArithmetic_iff.2 (.inl h)

theorem isArithmetic_of_additive (s : Symbol) (h : s.isOp additive = true) :
    s.isArithmetic = true := isArithmetic_iff.2 (.inr h)

/-- A symbol may stand directly in front of another one behind a group that is to stay: no sign
follows an opening parenthesis, and no operator that binds more tightly follows a sign. -/
def Settled (s t : Symbol) : Prop :=
  (s.isOpen = true → t.isOp additive = false) ∧
    (s.isOp additive = true → t.isOp multiplicative = false)

/-- A stream that breaks up no group in front of it. -/
def Tame (v : List Symbol) : Prop := BeginsPlain v ∧ v.IsChain Settled

theorem settled_parenthesis (s : Symbol) {p : Symbol} (hp : p.isParenthesis = true) :
    Settled s p :=
  ⟨fun _ => not_isOp_of_isParenthesis isArithmetic_of_additive hp,
    fun _ => not_isOp_of_isParenthesis isArithmetic_of_multiplicative hp⟩

/-- Any symbol may stand behind a closing parenthesis. -/
theorem settled_close (place : Option Location) (t : Symbol) :
    Settled (.ofOperator ")" place) t := by
  constructor <;> intro h <;> cases h

/-- A symbol that may stand behind any other and in front of the next one does not break a chain. -/
theorem isChain_insert {R : Symbol → Symbol → Prop} {a b : List Symbol} {p : Symbol}
    (h : (a ++ b).IsChain R) (hleft : ∀ s, R s p) (hright : ∀ t ∈ b.head?, R p t) :
    (a ++ p :: b).IsChain R := by
  obtain ⟨ha, hb, -⟩ := List.isChain_append.1 h
  refine List.isChain_append.2 ⟨ha, List.isChain_cons.2 ⟨hright, hb⟩, fun s _ t ht => ?_⟩
  obtain rfl := Option.mem_some_iff.1 ht
  exact hleft s

/-- The walk that binds more tightly puts no parenthesis in front of a sign. -/
theorem trails_tame : Trails multiplicative Tame := by
  rintro x v p y hadmits ⟨hbegin, hchain⟩
  refine ⟨hbegin.insert hadmits.isParenthesis,
    isChain_insert hchain (fun s => settled_parenthesis s hadmits.isParenthesis) fun t ht => ?_⟩
  generalize x ++ v = before at hadmits
  cases hadmits with
  | @opening _ rest s place h =>
    obtain rfl := Option.mem_some_iff.1 ht
    refine ⟨fun _ => ?_, fun hp => by cases hp⟩
    -- an opening parenthesis goes in front of a parenthesis or of a left operand
    rcases h with hs | ⟨o, more, rfl, ho⟩
    · exact not_isOp_of_isParenthesis isArithmetic_of_additive hs
    · refine Bool.eq_false_iff.2 fun hs => ?_
      -- a sign is never followed by an operator of this walk
      rw [(List.isChain_append_cons_cons.1 hchain).2.1.2 hs] at ho
      cases ho
  | closing place h => exact settled_close place t

/-- A closing parenthesis behind another parenthesis leaves a stream tame. -/
theorem closable_tame : Closable Tame := by
  rintro a t b place - ⟨hbegin, hchain⟩
  rw [List.append_cons] at hbegin hchain ⊢
  exact ⟨hbegin.insert rfl, isChain_insert hchain (fun s => settled_parenthesis s rfl)
    fun t _ => settled_close place t⟩

/-- Symbols that are no parentheses do not change the depth. -/
theorem unpaired_of_others {r : List Symbol} (h : ∀ s ∈ r, s.isParenthesis = false) :
    unpaired Symbol.isClose Symbol.isOpen r = (0, 0) := by
  induction r with
  | nil => rfl
  | cons s r ih =>
    obtain ⟨ho, hc⟩ := Symbol.isParenthesis_eq_false.1 (h s List.mem_cons_self)
    rw [unpaired_neutral hc ho, ih fun t ht => h t (List.mem_cons_of_mem s ht)]

section Group

variable {d p z m l c : Symbol} (hz : z.isParenthesis = false) (hm : m.isParenthesis = false)
  (hl : l.isParenthesis = false) (hc : c.isClose = true)

include hz hm hl hc

/-- A walk to the left that is in no group does not end within a group, where it is one deeper. -/
theorem unpaired_ne_within {near inside w₁ w₂ : List Symbol} {out : Symbol}
    (hout : out.isOpen = true) (hw : [c, l, m, z, p, d] = w₁ ++ w₂) (hw₁ : w₁ ≠ []) (hw₂ : w₂ ≠ [])
    (hx : inside ++ [out] = near ++ w₁) :
    unpaired Symbol.isClose Symbol.isOpen inside ≠ (0, 0) := by
  intro hinside
  obtain ⟨r, rfl, rfl⟩ := exists_of_concat hw₁ hx
  rw [List.append_assoc] at hw
  cases r with
  -- a walk that ends at once would end at a closing parenthesis
  | nil =>
    obtain ⟨rfl, -⟩ := List.cons.inj hw
    rw [isClose_of_isOpen hout] at hc
    cases hc
  | cons c' r =>
    rw [List.cons_append] at hw
    obtain ⟨rfl, hrun⟩ := List.cons.inj hw
    -- the walk has passed `c` and then at most the three symbols inside the group
    have hr : ∀ s ∈ r, s.isParenthesis = false := by
      have hlength : r.length ≤ [l, m, z].length := by
        have := congrArg List.length hrun
        have := List.length_pos_of_ne_nil hw₂
        simp only [List.length_append, List.length_cons, List.length_nil] at *
        omega
      have hr : r <+: [l, m, z] :=
        List.prefix_of_prefix_length_le ⟨_, rfl⟩ ⟨[p, d], hrun⟩ hlength
      intro s hs
      have hs := hr.subset hs
      simp only [List.mem_cons, List.not_mem_nil, or_false] at hs
      rcases hs with rfl | rfl | rfl <;> assumption
    rw [unpaired_append, unpaired_deeper hc, unpaired_of_others hr] at hinside
    simp at hinside

/-- A walk to the left passes a group, or ends in front of it. -/
theorem exists_openBefore_group {h : Symbol} (hh : h.isOpen = false) (place : Option Location)
    (near passed : List Symbol) :
    ∃ near' passed', openBefore place (h :: (near ++ ([c, l, m, z, p, d] ++ passed))) =
      near' ++ ([c, l, m, z, p, d] ++ passed') := by
  -- the walk begins with a group of its own, or its first symbol is the operand
  by_cases hhc : h.isClose = true
  · have hwalk (rest : List Symbol) : openBefore place (h :: rest) =
        h :: enclose Symbol.isClose Symbol.isOpen (.ofOperator "(" place) ((0 + 1 : Nat) : Int)
          rest := enclose_deeper _ hhc 0 rest
    rw [hwalk]
    rcases @enclose_cases Symbol.isClose Symbol.isOpen (.ofOperator "(" place) 0
        (near ++ ([c, l, m, z, p, d] ++ passed)) with
      ⟨inside, out, more, hsplit, -, hout, hinside, hinsert⟩ | ⟨hsame, -⟩
    · rw [hinsert]
      rw [List.append_cons] at hsplit
      rcases cut_cases hsplit.symm with
        ⟨near', rfl, rfl⟩ | ⟨w₁, w₂, hw, hw₁, hw₂, hx, rfl⟩ | ⟨passed', hx, rfl⟩
      · -- the group of the operand ends between the operator and the group in question
        exact ⟨h :: (inside ++ out :: .ofOperator "(" place :: near'), passed, by simp⟩
      · exact absurd hinside (unpaired_ne_within hz hm hl hc hout hw hw₁ hw₂ hx)
      · refine ⟨h :: near, passed' ++ .ofOperator "(" place :: more, ?_⟩
        rw [List.append_cons inside, hx]
        simp
    · exact ⟨h :: near, passed, by rw [hsame]; rfl⟩
  · have hother : h.isParenthesis = false :=
      Symbol.isParenthesis_eq_false.2 ⟨hh, Bool.eq_false_iff.2 hhc⟩
    rw [openBefore_other hother]
    exact ⟨h :: .ofOperator "(" place :: near, passed, rfl⟩

/-- **A group stays** if no operator behind it has an opening parenthesis for its left operand. -/
theorem exists_wrapFrom_group
    (hoperators : ∀ s : Symbol, s.isOp operators = true → s.isArithmetic = true)
    {near passed rest : List Symbol}
    (hnear : (∀ s ∈ near.head?, s.isOpen = true) → ∀ t ∈ rest.head?, t.isOp operators = false)
    (hrest : rest.IsChain fun s t => s.isOpen = true → t.isOp operators = false) :
    ∃ u v, wrapFrom operators (near ++ ([c, l, m, z, p, d] ++ passed)) rest =
      u ++ [d, p, z, m, l, c] ++ v := by
  -- along the walk the group stays among the symbols passed, with `near` between it and the
  -- operator
  generalize hall : near ++ ([c, l, m, z, p, d] ++ passed) = all
  fun_induction wrapFrom operators all rest generalizing near passed with
  | case1 all => exact ⟨passed.reverse, near.reverse, by rw [← hall]; simp⟩
  | case2 all s rest hs ih =>
    -- the left operand of `s` lies between the group and `s`, or the group belongs to it
    obtain ⟨h, near, rfl, hh⟩ : ∃ h more, near = h :: more ∧ h.isOpen = false := by
      cases near with
      | nil =>
        rw [hnear (by simp) s rfl] at hs
        cases hs
      | cons h more =>
        refine ⟨h, more, rfl, Bool.eq_false_iff.2 fun hh => ?_⟩
        rw [hnear (by simpa using hh) s rfl] at hs
        cases hs
    obtain ⟨near', passed', hopen⟩ :=
      exists_openBefore_group (p := p) (d := d) hz hm hl hc hh s.location near passed
    have hparenthesis := isParenthesis_of_isArithmetic (hoperators s hs)
    refine @ih (s :: near') passed' ?_ ?_ ?_
    · -- an operator stands next to the walk now, and that is no opening parenthesis
      intro hfirst
      have hopening := hfirst s rfl
      rw [(Symbol.isParenthesis_eq_false.1 hparenthesis).1] at hopening
      cases hopening
    · have hclosing (t : Symbol) : (Symbol.ofOperator ")" s.location).isOpen = true →
          t.isOp operators = false := fun h => by cases h
      rcases closeBehind_split s.location rest with hsame | ⟨a, t, b, rfl, hinsert, -⟩
      · rw [hsame]
        exact hrest.tail
      · rw [hinsert, List.append_cons]
        refine isChain_insert ?_ (fun _ _ => ?_) fun t _ => hclosing t
        · simpa using hrest.tail
        · exact not_isOp_of_isParenthesis hoperators rfl
    · rw [← hall, List.cons_append, ← hopen]
      rfl
  -- a symbol that is passed over comes to stand between the group and the walk
  | case3 all s rest hs ih =>
    refine @ih (s :: near) passed ?_ hrest.tail (by rw [← hall]; rfl)
    intro hfirst
    exact fun t ht => (List.isChain_cons.1 hrest).1 t ht (by simpa using hfirst)

end Group

/-- **The operands of a sign stay with it** if what follows them is tame. -/
theorem exists_wrap_group {d z m l : Symbol}
    (hd : d.isParenthesis = false ∧ d.isOp additive = false)
    (hz : z.isParenthesis = false ∧ z.isOp additive = false) (hm : m.isOp additive = true)
    (hl : l.isParenthesis = false ∧ l.isOp additive = false) {u v : List Symbol}
    (hu : EndsPlain u) (hv : Tame v) :
    ∃ u' v', wrap additive (u ++ ([d, z, m, l] ++ v)) =
      u' ++ [d, .ofOperator "(" m.location, z, m, l, .ofOperator ")" m.location] ++ v' := by
  have hmp := isParenthesis_of_isArithmetic (isArithmetic_of_additive m hm)
  obtain ⟨passed, v', hwalk, hbegin, hchain⟩ := (exists_wrapFrom_run False closable_tame
    isArithmetic_of_additive (d := d) (w := [z, m, l]) (by simp [hd, hz, hmp, hl]) [] (.inr hu)
    hv).resolve_left And.left
  have hclosing :=
    not_isOp_of_isParenthesis isArithmetic_of_additive (Symbol.isParenthesis_close m.location)
  have hwalk : wrap additive (u ++ ([d, z, m, l] ++ v)) =
      wrapFrom additive ([] ++ ([.ofOperator ")" m.location, l, m, z, .ofOperator "(" m.location, d]
        ++ passed)) v' := by
    rw [wrap, hwalk]
    simp only [List.cons_append, List.nil_append]
    -- the walk passes the symbol, the zero, and the literal behind the sign
    rw [wrapFrom_other hd.2, wrapFrom_other hz.2, wrapFrom_operator hm, openBefore_other hz.1,
      closeBehind_other hl.1, wrapFrom_other hl.2, wrapFrom_other hclosing]
  rw [hwalk]
  -- the sign has been wrapped, and no operator behind it breaks the group up
  refine exists_wrapFrom_group hz.1 hmp hl.1 rfl isArithmetic_of_additive (fun _ t ht => ?_)
    (hchain.imp fun _ _ h => h.1)
  refine Bool.eq_false_iff.2 fun h => ?_
  have hplain := hbegin t ht
  rw [isArithmetic_of_additive t h] at hplain
  cases hplain

end RomAsm.Grouping
