import RomAsm.Log
import RomAsm.Symbol

/-!
# Grouping of operators

Expressions are evaluated without any notion of precedence, so their grouping is spelled out first:

* a sign at the beginning of an expression gets a zero in front of it (`withZeros`);
* every multiplication, division and remainder is wrapped in parentheses together with the nearest
  operand on each side, and after that every addition and subtraction (`wrap`).

An operand is the shortest run of symbols whose parentheses balance. Where there is none, no
parenthesis is inserted on that side.

`wrap` inserts symbols into the very list it is walking through. It ends because each symbol other
than a closing parenthesis is passed once, and no parenthesis is inserted in front of the first of
those (`others_enclose`, `leading_enclose`).
-/

namespace RomAsm.Grouping

/-! ### Signs -/

/-- Whether an expression begins behind the given symbol, or at the beginning if there is none. -/
def startsExpression : Option Symbol → Bool
  | none => true
  | some s => s.isOp ["(", "="] || s.startsStatement || s.kind == .immediate

/-- The zero that a sign at the given location is applied to. -/
def zero (location : Option Location) : Symbol := ⟨.integer, "0", some 0, location⟩

/-- Puts a zero in front of every sign that begins an expression. -/
def withZeros (previous : Option Symbol) : List Symbol → List Symbol
  | [] => []
  | s :: rest =>
    if s.isOp ["+", "-"] && startsExpression previous then
      zero s.location :: s :: withZeros (some s) rest
    else s :: withZeros (some s) rest

/-! ### Parentheses -/

/-- Puts a parenthesis behind the first operand of a stream that is walked away from an operator:
`deeper` are the parentheses that begin a group in this direction, `shallower` those that end it. -/
def enclose (deeper shallower : Symbol → Bool) (parenthesis : Symbol) (depth : Int) :
    List Symbol → List Symbol
  | [] => []
  | s :: rest =>
    let here := if deeper s then depth + 1 else if shallower s then depth - 1 else depth
    if here = 0 then s :: parenthesis :: rest
    else s :: enclose deeper shallower parenthesis here rest

/-- Puts an opening parenthesis before the operand on the left, which is given nearest first. -/
def openBefore (location : Option Location) (before : List Symbol) : List Symbol :=
  enclose Symbol.isClose Symbol.isOpen (.ofOperator "(" location) 0 before

/-- Puts a closing parenthesis behind the operand on the right. -/
def closeBehind (location : Option Location) (rest : List Symbol) : List Symbol :=
  enclose Symbol.isOpen Symbol.isClose (.ofOperator ")" location) 0 rest

/-- The number of symbols other than closing parentheses. -/
def others (symbols : List Symbol) : Nat := (symbols.filter fun s => !s.isClose).length

/-- The number of closing parentheses at the beginning. -/
def leading (symbols : List Symbol) : Nat := (symbols.takeWhile Symbol.isClose).length

/-- Another symbol counts unless it is a closing parenthesis. -/
theorem others_cons (s : Symbol) (rest : List Symbol) :
    others (s :: rest) = others rest + if s.isClose then 0 else 1 := by
  cases hs : s.isClose <;> simp [others, hs]

/-- Only closing parentheses at the beginning count. -/
theorem leading_cons (s : Symbol) (rest : List Symbol) :
    leading (s :: rest) = if s.isClose then leading rest + 1 else 0 := by
  cases hs : s.isClose <;> simp [leading, hs]

theorem isClose_ofOperator (location : Option Location) :
    (Symbol.ofOperator ")" location).isClose = true := by
  simp [Symbol.ofOperator, Symbol.isClose, Symbol.isOp]

theorem isOpen_of_isClose {s : Symbol} (h : s.isClose = true) : s.isOpen = false := by
  simp only [Symbol.isClose, Symbol.isOp, Bool.and_eq_true] at h
  simp_all [Symbol.isOpen, Symbol.isOp]

/-- A closing parenthesis more does not change the number of the other symbols. -/
theorem others_enclose (deeper shallower : Symbol → Bool) {parenthesis : Symbol}
    (h : parenthesis.isClose = true) (depth : Int) (symbols : List Symbol) :
    others (enclose deeper shallower parenthesis depth symbols) = others symbols := by
  induction symbols generalizing depth with
  | nil => rfl
  | cons s rest ih =>
    simp only [enclose]
    generalize (if deeper s = true then depth + 1
      else if shallower s = true then depth - 1 else depth) = here
    -- the parenthesis is inserted here, or further on
    by_cases hz : here = 0
    · simp [hz, others_cons, h]
    · simp [hz, others_cons, ih]

/-- No closing parenthesis is inserted among those at the beginning. -/
theorem leading_enclose (parenthesis : Symbol) {depth : Int} (hd : depth ≤ 0)
    (symbols : List Symbol) :
    leading (enclose Symbol.isOpen Symbol.isClose parenthesis depth symbols) = leading symbols := by
  induction symbols generalizing depth with
  | nil => rfl
  | cons s rest ih =>
    cases hs : s.isClose with
    -- a symbol that is no closing parenthesis ends the count, wherever the parenthesis goes
    | false =>
      simp only [enclose]
      generalize (if s.isOpen = true then depth + 1
        else if s.isClose = true then depth - 1 else depth) = here
      by_cases hz : here = 0 <;> simp [hz, leading_cons, hs]
    -- a closing parenthesis leads below depth zero, so the operand does not end here
    | true =>
      have hne : ¬ depth - 1 = 0 := by omega
      have hrest := ih (by omega : depth - 1 ≤ 0)
      simp [enclose, isOpen_of_isClose hs, hs, hne, leading_cons, hrest]

/-- Wraps every listed operator of the rest of a stream, behind the symbols already passed, which
are given nearest first. -/
def wrapFrom (operators : List String) (passed : List Symbol) : List Symbol → List Symbol
  | [] => passed.reverse
  | s :: rest =>
    if s.isOp operators then
      wrapFrom operators (s :: openBefore s.location passed) (closeBehind s.location rest)
    else wrapFrom operators (s :: passed) rest
termination_by symbols => (others symbols, leading symbols)
decreasing_by
  · -- a listed operator: the parenthesis behind it changes neither number
    have ho : others (closeBehind s.location rest) = others rest :=
      others_enclose _ _ (isClose_ofOperator s.location) 0 rest
    have hl : leading (closeBehind s.location rest) = leading rest :=
      leading_enclose _ (Int.le_refl 0) rest
    rw [Prod.lex_def, others_cons, leading_cons, ho, hl]
    cases s.isClose <;> simp
  · rw [Prod.lex_def, others_cons, leading_cons]
    cases s.isClose <;> simp

/-- Wraps every occurrence of the listed operators in parentheses, from left to right. -/
def wrap (operators : List String) (symbols : List Symbol) : List Symbol :=
  wrapFrom operators [] symbols

/-- The operators that bind more tightly. -/
def multiplicative : List String := ["*", "/", "%"]

/-- The operators that bind less tightly. -/
def additive : List String := ["+", "-"]

/-- The stream with all its grouping spelled out. -/
def grouped (symbols : List Symbol) : List Symbol :=
  wrap additive (wrap multiplicative (withZeros none symbols))

/-- The stream with all its grouping spelled out; it is recorded. -/
def group (symbols : List Symbol) : Logged (List Symbol) := do
  Logged.debug ("Bracketed stream: " ++ spelled (grouped symbols))
  return grouped symbols

end RomAsm.Grouping
