import Mathlib.Data.Nat.Digits.Defs
import RomAsm.DataLiteral
import RomAsm.Proofs.Spelling

/-!
# Data literals at their width

A data literal is laid down as its value, most significant byte first, at the width at which it is
written: a hexadecimal literal keeps all its digits, a binary one has one hexadecimal digit for four
bits, and a decimal one has as many as its value needs. `Literal.bytes` says so in terms of the
value, without any digits.

The assembler gets there by rewriting digits. `DataLiteral.IsRendering` relates a literal to the
characters that stand for it on the way; each of the three spellings gives one
(`isRendering_hexadecimal`, `isRendering_binary`, `isRendering_decimal`), and what is left to do is
the same for all of them: the digits pair up into the bytes of the value (`pairs_hexDigits`).
-/

namespace RomAsm

namespace Numeral

/-! ### The bytes of a number -/

/-- The last `width` bytes of a number, most significant first. -/
def bigEndian : (width n : Nat) → List UInt8
  | 0, _ => []
  | width + 1, n => UInt8.ofNat (n / 256 ^ width) :: bigEndian width n

theorem length_bigEndian (width n : Nat) : (bigEndian width n).length = width := by
  induction width with
  | zero => rfl
  | succ width ih => rw [bigEndian, List.length_cons, ih]

/-- The last bytes of a number do not depend on what stands in front of them. -/
theorem bigEndian_add (width k n : Nat) :
    bigEndian width (k * 256 ^ width + n) = bigEndian width n := by
  induction width generalizing k with
  | zero => rfl
  | succ width ih =>
    have hpos : 0 < 256 ^ width := Nat.pow_pos (by decide)
    have hsplit : k * 256 ^ (width + 1) + n = 256 ^ width * (k * 256) + n := by
      rw [Nat.pow_succ, Nat.mul_comm (256 ^ width), ← Nat.mul_assoc, Nat.mul_comm (k * 256)]
    have hdiv : (k * 256 ^ (width + 1) + n) / 256 ^ width = k * 256 + n / 256 ^ width := by
      rw [hsplit, Nat.mul_add_div hpos]
    -- a byte has no room for multiples of 256
    have hbyte : UInt8.ofNat (k * 256 + n / 256 ^ width) = UInt8.ofNat (n / 256 ^ width) := by
      apply UInt8.toNat_inj.1
      rw [UInt8.toNat_ofNat', UInt8.toNat_ofNat', Nat.mul_add_mod_self_right]
    rw [bigEndian, bigEndian, hdiv, hbyte, hsplit, Nat.mul_comm, ih]

/-! ### Values of digits -/

/-- Digits that are read behind a number move that number up by as many places. -/
theorem valueAfter_eq (base start : Nat) (digits : List Nat) :
    valueAfter base start digits = start * base ^ digits.length + value base digits := by
  induction digits generalizing start with
  | nil => simp [valueAfter, value]
  | cons d digits ih =>
    have hstart : valueAfter base start (d :: digits) =
        valueAfter base (start * base + d) digits := rfl
    have hzero : value base (d :: digits) = valueAfter base (0 * base + d) digits := rfl
    -- the induction hypothesis is used from two starts, and the sums are compared
    rw [hstart, hzero, ih, ih (0 * base + d), List.length_cons, Nat.pow_succ]
    ring

theorem value_cons (base d : Nat) (digits : List Nat) :
    value base (d :: digits) = d * base ^ digits.length + value base digits := by
  have hzero : value base (d :: digits) = valueAfter base (0 * base + d) digits := rfl
  rw [hzero, valueAfter_eq, Nat.zero_mul, Nat.zero_add]

/-- A number with so many digits stays below the power of its base. -/
theorem value_lt {base : Nat} {digits : List Nat} (h : ∀ d ∈ digits, d < base) :
    value base digits < base ^ digits.length := by
  induction digits with
  | nil => exact Nat.one_pos
  | cons d digits ih =>
    have hd := h d List.mem_cons_self
    have hrest := ih fun d hd => h d (List.mem_cons_of_mem _ hd)
    rw [value_cons, List.length_cons, Nat.pow_succ]
    calc d * base ^ digits.length + value base digits
        < d * base ^ digits.length + base ^ digits.length := by omega
      _ = (d + 1) * base ^ digits.length := by ring
      _ ≤ base * base ^ digits.length := Nat.mul_le_mul_right _ hd
      _ = base ^ digits.length * base := Nat.mul_comm _ _

/-- Digits least significant first have the value that is usually given to them. -/
theorem value_reverse (base : Nat) (digits : List Nat) :
    value base digits.reverse = Nat.ofDigits base digits := by
  induction digits with
  | nil => rfl
  | cons d digits ih =>
    rw [List.reverse_cons, Nat.ofDigits_cons, ← ih, value, valueAfter, List.foldl_append]
    change value base digits.reverse * base + d = _
    ring

/-! ### Literals as data -/

/-- The number of hexadecimal digits at which a literal is laid down. -/
def Literal.hexWidth (l : Literal) : Nat :=
  match l.radix with
  | .hexadecimal => l.digits.length
  | .binary => (l.digits.length + 3) / 4
  | .decimal => max 1 (Nat.digits 16 l.value).length

/-- The number of bytes of a literal. -/
def Literal.width (l : Literal) : Nat := (l.hexWidth + 1) / 2

/-- The bytes of a literal: its value at its width, most significant byte first. -/
def Literal.bytes (l : Literal) : List UInt8 := bigEndian l.width l.value

end Numeral

namespace DataLiteral

open Numeral (Literal value hexDigit digitOf? digitRun? bigEndian)

/-- Some characters are hexadecimal digits that stand for a literal. -/
def IsRendering (l : Literal) (text : List Char) : Prop :=
  ∃ digits : List Nat, text = digits.map hexDigit ∧ (∀ d ∈ digits, d < 16) ∧
    digits.length = l.hexWidth ∧ value 16 digits = l.value

/-! ### Pairs of digits -/

/-- Two digits make a byte, the high one first. -/
theorem byteOf_hexDigit {high low : Nat} (hhigh : high < 16) (hlow : low < 16) :
    byteOf (hexDigit high) (hexDigit low) = .ok (UInt8.ofNat (16 * high + low)) := by
  -- there are only 256 pairs
  have hall : ∀ high < 16, ∀ low < 16, (byteOf (hexDigit high) (hexDigit low)).toOption =
      some (UInt8.ofNat (16 * high + low)) := by decide +kernel
  have h := hall high hhigh low hlow
  cases hbyte : byteOf (hexDigit high) (hexDigit low) with
  | error e =>
    rw [hbyte] at h
    cases h
  | ok b =>
    rw [hbyte] at h
    exact congrArg _ (Option.some.inj h)

/-- **Digits pair up into bytes.** -/
theorem pairs_hexDigits {width : Nat} {digits : List Nat} (hdigits : ∀ d ∈ digits, d < 16)
    (hlength : digits.length = 2 * width) :
    pairs (digits.map hexDigit) = .ok (bigEndian width (value 16 digits)) := by
  induction width generalizing digits with
  | zero =>
    obtain rfl := List.length_eq_zero_iff.1 hlength
    rfl
  | succ width ih =>
    obtain ⟨high, low, rest, rfl⟩ : ∃ high low rest, digits = high :: low :: rest := by
      match digits with
      | [] => cases hlength
      | [_] =>
        rw [List.length_singleton] at hlength
        omega
      | high :: low :: rest => exact ⟨high, low, rest, rfl⟩
    have hlength : rest.length = 2 * width := by
      rw [List.length_cons, List.length_cons] at hlength
      omega
    have hhigh : high < 16 := hdigits high (by simp)
    have hlow : low < 16 := hdigits low (by simp)
    have hrest : ∀ d ∈ rest, d < 16 := fun d hd => hdigits d (by simp [hd])
    -- the digits behind the pair have no part in the first byte
    have hbound : value 16 rest < 256 ^ width := by
      have hlt := Numeral.value_lt hrest
      rwa [hlength, Nat.pow_mul] at hlt
    have hvalue : value 16 (high :: low :: rest) =
        (16 * high + low) * 256 ^ width + value 16 rest := by
      rw [Numeral.value_cons, Numeral.value_cons, List.length_cons, hlength, Nat.pow_succ,
        Nat.pow_mul]
      ring
    have hdiv : ((16 * high + low) * 256 ^ width + value 16 rest) / 256 ^ width =
        16 * high + low := by
      rw [Nat.mul_comm, Nat.mul_add_div (Nat.pow_pos (by decide)), Nat.div_eq_of_lt hbound,
        Nat.add_zero]
    -- the first byte is the first pair, and the rest is the induction hypothesis
    rw [List.map_cons, List.map_cons, pairs, byteOf_hexDigit hhigh hlow, ih hrest hlength, hvalue,
      bigEndian, hdiv, Numeral.bigEndian_add]
    rfl

/-! ### Hexadecimal literals -/

/-- Upper case turns the digits of a hexadecimal literal into the ones that digits are written
with. -/
theorem upper_hexDigits {text : List Char} {ds : List Nat} (h : text.mapM (digitOf? 16) = some ds) :
    Text.upper text = ds.map hexDigit ∧ ∀ d ∈ ds, d < 16 := by
  induction text generalizing ds with
  | nil =>
    cases h
    exact ⟨rfl, nofun⟩
  | cons c text ih =>
    obtain ⟨d, ds, hd, hds, rfl⟩ := mapM_cons_eq_some.1 h
    obtain ⟨hupper, hlt⟩ := ih hds
    -- upper case writes a hexadecimal digit in the one way in which digits are written out
    have hc : Text.recased Text.upperRuns Text.upperSpellings c = [hexDigit d] := by
      have hchar := forall_isAlphanumeric (p := fun c => (digitOf? 16 c).all fun d =>
        Text.recased Text.upperRuns Text.upperSpellings c == [hexDigit d]) (by decide +kernel)
        (Numeral.isAlphanumeric_of_digitOf? hd)
      rw [hd] at hchar
      exact eq_of_beq hchar
    refine ⟨?_, ?_⟩
    · rw [Text.upper, List.flatMap_cons, hc, List.map_cons, List.singleton_append, ← hupper]
      rfl
    · intro e he
      rcases List.mem_cons.1 he with rfl | he
      · exact of_decide_eq_true (Option.filter_eq_some_iff.1 hd).2
      · exact hlt e he

/-- The digits of a run, without the check that there is one. -/
theorem mapM_of_digitRun? {base : Nat} {text : List Char} {ds : List Nat}
    (h : digitRun? base text = some ds) : text.mapM (digitOf? base) = some ds := by
  unfold digitRun? at h
  split at h
  · cases h
  · exact h

/-- Each character is one digit. -/
theorem length_of_mapM {base : Nat} {text : List Char} {ds : List Nat}
    (h : text.mapM (digitOf? base) = some ds) : ds.length = text.length := by
  induction text generalizing ds with
  | nil =>
    cases h
    rfl
  | cons c text ih =>
    -- one digit is taken off on both sides
    obtain ⟨d, ds, hd, hds, rfl⟩ := mapM_cons_eq_some.1 h
    rw [List.length_cons, List.length_cons, ih hds]

/-- **A hexadecimal literal** stands for itself: upper case leaves its digits and their number
alone. -/
theorem isRendering_hexadecimal {text : List Char} {ds : List Nat}
    (h : digitRun? 16 text = some ds) : IsRendering ⟨.hexadecimal, ds⟩ (Text.upper text) := by
  obtain ⟨hupper, hlt⟩ := upper_hexDigits (mapM_of_digitRun? h)
  exact ⟨ds, hupper, hlt, rfl, rfl⟩

/-! ### Binary literals -/

/-- There are two binary digits, and each has one spelling. -/
theorem bit_of_digitOf? {c : Char} {b : Nat} (h : digitOf? 2 c = some b) :
    c = '0' ∧ b = 0 ∨ c = '1' ∧ b = 1 := by
  have hchar := forall_isAlphanumeric (p := fun c => (digitOf? 2 c).all fun b =>
    decide (c = '0' ∧ b = 0 ∨ c = '1' ∧ b = 1)) (by decide) (Numeral.isAlphanumeric_of_digitOf? h)
  rw [h] at hchar
  exact of_decide_eq_true hchar

/-- A full group of bits is read as the digit that it stands for. -/
theorem groupDigit_bits {a b c d : Char} {i j k l : Nat} (ha : digitOf? 2 a = some i)
    (hb : digitOf? 2 b = some j) (hc : digitOf? 2 c = some k) (hd : digitOf? 2 d = some l) :
    groupDigit [a, b, c, d] = .ok (hexDigit (value 2 [i, j, k, l])) ∧
      value 2 [i, j, k, l] < 16 := by
  -- sixteen cases, each of which is computed
  rcases bit_of_digitOf? ha with ⟨rfl, rfl⟩ | ⟨rfl, rfl⟩ <;>
    rcases bit_of_digitOf? hb with ⟨rfl, rfl⟩ | ⟨rfl, rfl⟩ <;>
    rcases bit_of_digitOf? hc with ⟨rfl, rfl⟩ | ⟨rfl, rfl⟩ <;>
    rcases bit_of_digitOf? hd with ⟨rfl, rfl⟩ | ⟨rfl, rfl⟩ <;>
    exact ⟨rfl, by decide⟩

/-- Four bits make a hexadecimal digit. -/
theorem mapM_groups {m : Nat} {text : List Char} {bits : List Nat}
    (h : text.mapM (digitOf? 2) = some bits) (hlength : text.length = 4 * m) :
    ∃ ds : List Nat, (groups text).mapM groupDigit = .ok (ds.map hexDigit) ∧ (∀ d ∈ ds, d < 16) ∧
      ds.length = m ∧ value 16 ds = value 2 bits := by
  induction m generalizing text bits with
  | zero =>
    obtain rfl := List.length_eq_zero_iff.1 hlength
    cases h
    exact ⟨[], rfl, nofun, rfl, rfl⟩
  | succ m ih =>
    obtain ⟨a, b, c, d, rest, rfl⟩ : ∃ a b c d rest, text = a :: b :: c :: d :: rest := by
      match text with
      | [] | [_] | [_, _] | [_, _, _] =>
        simp only [List.length_cons, List.length_nil] at hlength
        omega
      | a :: b :: c :: d :: rest => exact ⟨a, b, c, d, rest, rfl⟩
    obtain ⟨i, _, hi, hb, rfl⟩ := mapM_cons_eq_some.1 h
    obtain ⟨j, _, hj, hc, rfl⟩ := mapM_cons_eq_some.1 hb
    obtain ⟨k, _, hk, hd, rfl⟩ := mapM_cons_eq_some.1 hc
    obtain ⟨l, bits, hl, hbits, rfl⟩ := mapM_cons_eq_some.1 hd
    have hrest : rest.length = 4 * m := by
      simp only [List.length_cons] at hlength
      omega
    obtain ⟨ds, hds, hlt, hds_length, hvalue⟩ := ih hbits hrest
    obtain ⟨hdigit, hdigit_lt⟩ := groupDigit_bits hi hj hk hl
    refine ⟨value 2 [i, j, k, l] :: ds, ?_, ?_, ?_, ?_⟩
    · rw [groups, List.mapM_cons, hdigit, Trace.except_ok_bind, hds]
      rfl
    · intro e he
      rcases List.mem_cons.1 he with rfl | he
      · exact hdigit_lt
      · exact hlt e he
    · rw [List.length_cons, hds_length]
    · -- sixteen for a group is two to the fourth for its bits
      have hbits_length : bits.length = 4 * m := (length_of_mapM hbits).trans hrest
      have hpow : (2 : Nat) ^ (4 * m) = 16 ^ m := Nat.pow_mul 2 4 m
      have hfour : value 2 [i, j, k, l] = i * 8 + j * 4 + k * 2 + l := by
        change (((0 * 2 + i) * 2 + j) * 2 + k) * 2 + l = _
        ring
      rw [Numeral.value_cons 16, hds_length, hvalue, hfour]
      simp only [Numeral.value_cons, List.length_cons, hbits_length, Nat.pow_succ, hpow]
      ring

/-- Zeros in front are digits too. -/
theorem mapM_replicate_append {k : Nat} {text : List Char} {bits : List Nat}
    (h : text.mapM (digitOf? 2) = some bits) :
    (List.replicate k '0' ++ text).mapM (digitOf? 2) = some (List.replicate k 0 ++ bits) := by
  induction k with
  | zero => exact h
  | succ k ih =>
    rw [List.replicate_succ, List.cons_append, List.mapM_cons, ih]
    rfl

/-- Zeros in front do not change a value. -/
theorem value_replicate_zero (base k : Nat) (ds : List Nat) :
    value base (List.replicate k 0 ++ ds) = value base ds := by
  induction k with
  | zero => rfl
  | succ k ih =>
    rw [List.replicate_succ, List.cons_append, Numeral.value_cons, ih, Nat.zero_mul, Nat.zero_add]

/-- **A binary literal** is filled up with zeros to whole groups, and each group becomes a digit. -/
theorem isRendering_binary {text : List Char} {bits : List Nat} (h : digitRun? 2 text = some bits) :
    ∃ rendering, ofBinary text = .ok rendering ∧ IsRendering ⟨.binary, bits⟩ rendering := by
  have hmap := mapM_of_digitRun? h
  have hlength := length_of_mapM hmap
  -- zeros in front fill the first group
  have hpadded : (List.replicate ((4 - text.length % 4) % 4) '0' ++ text).length =
      4 * ((text.length + 3) / 4) := by
    rw [List.length_append, List.length_replicate]
    omega
  obtain ⟨ds, hds, hlt, hds_length, hvalue⟩ := mapM_groups (mapM_replicate_append hmap) hpadded
  refine ⟨_, hds, ds, rfl, hlt, ?_, ?_⟩
  · rw [hds_length, ← hlength]
    rfl
  · rw [hvalue, value_replicate_zero]
    rfl

/-! ### Decimal literals -/

/-- What a division by sixteen leaves over is below sixteen. -/
theorem divide_lt {carried : Nat} (h : carried < 16) (ds : List Nat) :
    (divide carried ds).2 < 16 := by
  induction ds generalizing carried with
  | nil => exact h
  | cons d ds ih => exact ih (Nat.mod_lt _ (by decide))

/-- Dividing again and again gives the digits of the value. -/
theorem sixteenths_eq_digits (ds : List Nat) : sixteenths ds = Nat.digits 16 (value 10 ds) := by
  -- on the value, which falls with every division as long as there is a digit other than zero
  induction hn : value 10 ds using Nat.strongRecOn generalizing ds with
  | ind n ih =>
    subst hn
    rw [sixteenths]
    split
    · next hnil =>
      rw [← value_dropWhile_zero, hnil]
      exact (Nat.digits_zero 16).symm
    · next d rest hcons =>
      have hlt := value_divide_lt hcons
      have hvalue : value 10 (d :: rest) = value 10 ds := by rw [← hcons, value_dropWhile_zero]
      have hdiv := valueAfter_divide 0 0 (d :: rest)
      have hremainder := divide_lt (by decide : 0 < 16) (d :: rest)
      rw [Nat.mul_zero, Nat.zero_add] at hdiv
      change 16 * value 10 (divide 0 (d :: rest)).1 + (divide 0 (d :: rest)).2 =
        value 10 (d :: rest) at hdiv
      rw [ih _ hlt _ rfl, Nat.digits_def' (by decide) (by omega : 0 < value 10 ds)]
      -- the remainder is the last digit, and the quotient has the others
      congr 1
      · omega
      · congr 1
        omega

/-- A digit of a literal is a digit to the lenient reading as well, with the same value. -/
theorem decimalDigit_of_digitOf? {c : Char} {d : Nat} (h : digitOf? 10 c = some d) :
    Text.isDigit c = true ∧ decimalDigit c = .ok d := by
  have hchar := forall_isAlphanumeric (p := fun c => (digitOf? 10 c).all fun d =>
    decide (Text.isDigit c = true ∧ Text.decimalValue? c = some d)) (by decide +kernel)
    (Numeral.isAlphanumeric_of_digitOf? h)
  rw [h] at hchar
  obtain ⟨hdigit, hvalue⟩ := of_decide_eq_true hchar
  refine ⟨hdigit, ?_⟩
  rw [decimalDigit, hvalue]

/-- So all digits of a decimal literal pass the check and keep their values. -/
theorem mapM_decimalDigit {text : List Char} {ds : List Nat}
    (h : text.mapM (digitOf? 10) = some ds) :
    text.all Text.isDigit = true ∧ text.mapM decimalDigit = .ok ds := by
  induction text generalizing ds with
  | nil =>
    cases h
    exact ⟨rfl, rfl⟩
  | cons c text ih =>
    obtain ⟨d, ds, hd, hds, rfl⟩ := mapM_cons_eq_some.1 h
    obtain ⟨hall, hmap⟩ := ih hds
    obtain ⟨hdigit, hvalue⟩ := decimalDigit_of_digitOf? hd
    rw [List.all_cons, hdigit, hall, List.mapM_cons, hvalue, Trace.except_ok_bind, hmap]
    exact ⟨rfl, rfl⟩

/-- **A decimal literal** is divided by sixteen again and again, and the remainders are its
digits. -/
theorem isRendering_decimal {text : List Char} {ds : List Nat} (h : digitRun? 10 text = some ds) :
    ∃ rendering, ofDecimal text = .ok rendering ∧ IsRendering ⟨.decimal, ds⟩ rendering := by
  obtain ⟨hne, -⟩ := Numeral.digitRun?_eq_some h
  obtain ⟨hall, hmap⟩ := mapM_decimalDigit (mapM_of_digitRun? h)
  have hempty : (text.isEmpty || !text.all Text.isDigit) = false := by
    rw [hall, List.isEmpty_eq_false_iff.2 hne]
    rfl
  have hlt : ∀ d ∈ Nat.digits 16 (value 10 ds), d < 16 := fun d => Nat.digits_lt_base (by decide)
  rw [ofDecimal, hempty, if_neg Bool.false_ne_true, hmap, Trace.except_ok_bind,
    sixteenths_eq_digits]
  change ∃ rendering, _ ∧ ∃ digits : List Nat, _ ∧ _ ∧
    digits.length = max 1 (Nat.digits 16 (value 10 ds)).length ∧ value 16 digits = value 10 ds
  -- zero has no digits, but is written as one
  cases hdigits : Nat.digits 16 (value 10 ds) with
  | nil =>
    refine ⟨['0'], rfl, [0], rfl, by decide, rfl, ?_⟩
    rw [Nat.digits_eq_nil_iff_eq_zero.1 hdigits]
    rfl
  -- the remainders come least significant first and are turned round
  | cons d digits =>
    rw [hdigits] at hlt
    refine ⟨_, rfl, (d :: digits).reverse, rfl, ?_, ?_, ?_⟩
    · exact fun e he => hlt e (List.mem_reverse.1 he)
    · rw [List.length_reverse, List.length_cons,
        Nat.max_eq_right (Nat.succ_le_succ (Nat.zero_le _))]
    · rw [Numeral.value_reverse, ← hdigits, Nat.ofDigits_digits]

/-! ### All literals -/

/-- The digits that a data literal is rewritten to stand for the literal that it spells. -/
theorem exists_isRendering {text : List Char} {l : Literal} (h : Literal.ofChars? text = some l) :
    ∃ rendering, digits text = .ok rendering ∧ IsRendering l rendering := by
  -- by the prefix: either letter for each of two bases, or none
  unfold Literal.ofChars? at h
  split at h
  · obtain ⟨ds, hds, rfl⟩ := Option.map_eq_some_iff.1 h
    exact ⟨_, rfl, isRendering_hexadecimal hds⟩
  · obtain ⟨ds, hds, rfl⟩ := Option.map_eq_some_iff.1 h
    exact ⟨_, rfl, isRendering_hexadecimal hds⟩
  · obtain ⟨bits, hbits, rfl⟩ := Option.map_eq_some_iff.1 h
    exact isRendering_binary hbits
  · obtain ⟨bits, hbits, rfl⟩ := Option.map_eq_some_iff.1 h
    exact isRendering_binary hbits
  · obtain ⟨ds, hds, rfl⟩ := Option.map_eq_some_iff.1 h
    -- the text has no prefix, so it goes to the decimal reading
    have hdigits : digits text = ofDecimal text := by
      unfold digits
      split <;> simp_all
    rw [hdigits]
    exact isRendering_decimal hds

/-- **The size of a data literal** is its width. -/
theorem size_literal {text : String} {l : Literal} (h : Literal.ofChars? text.toList = some l) :
    size text = .ok l.width := by
  obtain ⟨rendering, hdigits, ds, rfl, -, hlength, -⟩ := exists_isRendering h
  rw [size, hdigits, Trace.except_ok_bind, List.length_map, hlength]
  rfl

/-- A zero in front makes the number of digits even, and leaves their value. -/
theorem IsRendering.exists_padded {l : Literal} {text : List Char} (h : IsRendering l text) :
    ∃ padded : List Nat, (if text.length % 2 = 1 then '0' :: text else text) =
        padded.map hexDigit ∧ (∀ d ∈ padded, d < 16) ∧ padded.length = 2 * l.width ∧
      value 16 padded = l.value := by
  obtain ⟨ds, rfl, hlt, hlength, hvalue⟩ := h
  rw [List.length_map, hlength, Numeral.Literal.width]
  by_cases hodd : l.hexWidth % 2 = 1
  · refine ⟨0 :: ds, by rw [if_pos hodd]; rfl, ?_, ?_, ?_⟩
    · intro d hd
      rcases List.mem_cons.1 hd with rfl | hd
      · decide
      · exact hlt d hd
    · rw [List.length_cons, hlength]
      omega
    · rw [Numeral.value_cons, Nat.zero_mul, Nat.zero_add, hvalue]
  · exact ⟨ds, by rw [if_neg hodd], hlt, by omega, hvalue⟩

/-- **The bytes of a data literal** are its value at its width. -/
theorem encode_literal {text : String} {l : Literal} (h : Literal.ofChars? text.toList = some l) :
    encode text = .ok l.bytes := by
  obtain ⟨rendering, hdigits, hrendering⟩ := exists_isRendering h
  obtain ⟨padded, hpadded, hpadlt, hpadlength, hpadvalue⟩ := hrendering.exists_padded
  have heven : ¬ (padded.map hexDigit).length % 2 = 1 := by
    rw [List.length_map, hpadlength]
    omega
  rw [encode, hdigits, Trace.except_ok_bind, hpadded, bytesOfHex, if_neg heven,
    pairs_hexDigits hpadlt hpadlength, hpadvalue]
  rfl

/-! ### Any text -/

/-- Each pair of characters is one byte. -/
theorem length_pairs {text : List Char} {bytes : List UInt8} (h : pairs text = .ok bytes) :
    bytes.length = text.length / 2 := by
  match text with
  | [] =>
    cases h
    rfl
  | [_] =>
    cases h
    simp
  | high :: low :: rest =>
    obtain ⟨b, -, h⟩ := Trace.except_bind_eq_ok.1 h
    obtain ⟨more, hmore, h⟩ := Trace.except_bind_eq_ok.1 h
    cases h
    simp only [List.length_cons, length_pairs hmore]
    omega

/-- **The size of a text is the number of its bytes**, whenever it has any. -/
theorem size_of_encode {text : String} {bytes : List UInt8} (h : encode text = .ok bytes) :
    size text = .ok bytes.length := by
  obtain ⟨ds, hds, h⟩ := Trace.except_bind_eq_ok.1 h
  have hbytes : bytes.length = (ds.length + 1) / 2 := by
    -- an odd number of digits is rounded up by the zero in front
    by_cases hodd : ds.length % 2 = 1
    · have heven : ¬ ('0' :: ds).length % 2 = 1 := by rw [List.length_cons]; omega
      rw [if_pos hodd, bytesOfHex, if_neg heven] at h
      rw [length_pairs h, List.length_cons]
    · rw [if_neg hodd, bytesOfHex, if_neg hodd] at h
      rw [length_pairs h]
      omega
  rw [size, hds, hbytes]
  rfl

/-- A text with a sign in front has no size. -/
theorem size_negated (text : String) : size ("-" ++ text) = .error (.notDecimal ("-" ++ text)) := by
  have hchars : ("-" ++ text).toList = '-' :: text.toList := by simp
  have hdecimal : digits ('-' :: text.toList) = ofDecimal ('-' :: text.toList) := by
    unfold digits
    rfl
  have hsign : Text.isDigit '-' = false := by decide
  -- the sign is no digit, so the check fails at the first character
  rw [size, hchars, hdecimal, ofDecimal, List.all_cons, hsign, ← hchars, String.ofList_toList,
    Bool.false_and, Bool.not_false, Bool.or_true, if_pos rfl]
  rfl

end DataLiteral

end RomAsm
