import Mathlib.Data.Nat.Digits.Lemmas
import Mathlib.Order.Bounds.Basic
import RomAsm.Proofs.DataWidth

/-!
# Data literals keep their value

A `Spelling` is an unsigned literal as it is written, of any length: digits of a base behind the
mark of that base. Its value is the place value of its digits, which does not depend on whether the
literal is ever read as a number.

As data, a literal is laid down as bytes that are its value, read with the most significant byte
first (`value_bytes`). How many bytes there are depends on how the literal is written. A hexadecimal
or binary one keeps the zeros in front of it; a decimal one takes as few bytes as its value needs,
and one if that is zero (`isWidth_literal`). On the way a decimal literal is turned into the
hexadecimal numeral of its value, which has no zeros in front (`isNumeral_of_length`).
-/

namespace RomAsm

namespace Numeral

/-! ### Literals as they are written -/

/-- What may stand in front of the digits of a literal. -/
def Radix.marks : Radix → List (List Char)
  | .decimal => [[]]
  | .hexadecimal => [['0', 'x'], ['0', 'X']]
  | .binary => [['0', 'b'], ['0', 'B']]

/-- An unsigned literal as it is written. -/
structure Spelling where
  radix : Radix
  mark : List Char
  digits : List Char
  mark_mem : mark ∈ radix.marks
  nonempty : digits ≠ []
  valid : ∀ c ∈ digits, (digitOf? radix.base c).isSome = true

namespace Spelling

/-- The text of a literal. -/
def text (w : Spelling) : String := String.ofList (w.mark ++ w.digits)

/-- The values of the digits of a literal. -/
def digitValues (w : Spelling) : List Nat :=
  w.digits.map fun c => (digitOf? w.radix.base c).getD 0

/-- The place value of the digits of a literal. -/
def value (w : Spelling) : Nat := Numeral.value w.radix.base w.digitValues

/-- Whether a literal takes so many bytes as data. Two hexadecimal digits make a byte and four bits
a digit, both rounded up. A decimal literal takes the fewest bytes that hold its value, and one for
zero. -/
def IsWidth (w : Spelling) (n : Nat) : Prop :=
  match w.radix with
  | .hexadecimal => n = (w.digits.length + 1) / 2
  | .binary => n = ((w.digits.length + 3) / 4 + 1) / 2
  | .decimal => IsLeast {k | 0 < k ∧ w.value < 256 ^ k} n

/-- The literal that is written. -/
def literal (w : Spelling) : Literal := ⟨w.radix, w.digitValues⟩

/-- The digits of a literal are read one by one. -/
theorem digitRun?_digits (w : Spelling) :
    digitRun? w.radix.base w.digits = some w.digitValues := by
  -- every digit is one of the base, so none of them stops the run
  have hmap : ∀ {text : List Char}, (∀ c ∈ text, (digitOf? w.radix.base c).isSome = true) →
      text.mapM (digitOf? w.radix.base) =
        some (text.map fun c => (digitOf? w.radix.base c).getD 0) := by
    intro text htext
    induction text with
    | nil => rfl
    | cons c text ih =>
      obtain ⟨hc, htext⟩ := List.forall_mem_cons.1 htext
      obtain ⟨d, hd⟩ := Option.isSome_iff_exists.1 hc
      exact mapM_cons_eq_some.2 ⟨d, _, hd, ih htext, by rw [List.map_cons, hd, Option.getD_some]⟩
  rw [digitRun?, List.isEmpty_eq_false_iff.2 w.nonempty, if_neg Bool.false_ne_true]
  exact hmap w.valid

/-- No decimal literal looks as if it had a mark. -/
theorem ofChars?_decimal {text : List Char} {ds : List Nat} (h : digitRun? 10 text = some ds) :
    Literal.ofChars? text = some ⟨.decimal, ds⟩ := by
  have hdigit := (digitRun?_eq_some h).2
  -- all marks are letters, and a decimal literal has none
  have hmark {mark : Char} {rest : List Char} (hmark : digitOf? 10 mark = none) :
      text ≠ '0' :: mark :: rest := by
    rintro rfl
    obtain ⟨d, hd⟩ := hdigit mark (List.mem_cons_of_mem _ List.mem_cons_self)
    rw [hmark] at hd
    cases hd
  unfold Literal.ofChars?
  split
  · exact absurd rfl (hmark (by decide))
  · exact absurd rfl (hmark (by decide))
  · exact absurd rfl (hmark (by decide))
  · exact absurd rfl (hmark (by decide))
  · rw [h]
    rfl

/-- What is written is read as the literal it is. -/
theorem ofChars?_text (w : Spelling) : Literal.ofChars? w.text.toList = some w.literal := by
  obtain ⟨radix, mark, digits, hmark, hne, hvalid⟩ := w
  have hrun := digitRun?_digits ⟨radix, mark, digits, hmark, hne, hvalid⟩
  rw [text, String.toList_ofList]
  cases radix with
  | decimal =>
    obtain rfl := List.mem_singleton.1 hmark
    exact ofChars?_decimal hrun
  | hexadecimal =>
    simp only [Radix.marks, List.mem_cons, List.not_mem_nil, or_false] at hmark
    rcases hmark with rfl | rfl
    · exact congrArg (Option.map _) hrun
    · exact congrArg (Option.map _) hrun
  | binary =>
    simp only [Radix.marks, List.mem_cons, List.not_mem_nil, or_false] at hmark
    rcases hmark with rfl | rfl
    · exact congrArg (Option.map _) hrun
    · exact congrArg (Option.map _) hrun

/-- **A literal is read at its value**, unless it is decimal and has too many digits. -/
theorem integer?_text (w : Spelling) : integer? w.text.toList =
    if w.radix = .decimal ∧ digitLimit < w.digits.length then
      .error (.tooManyDigits w.digits.length)
    else .ok (some (w.value : Int)) := by
  have hlength : w.literal.digits.length = w.digits.length := List.length_map _
  -- the limit is on decimal digits only
  have hread : w.literal.read =
      if w.radix = .decimal ∧ digitLimit < w.digits.length then
        .error (.tooManyDigits w.digits.length)
      else .ok w.value := by
    rw [Literal.read, hlength]
    rfl
  rw [integer?_of_ofChars? w.ofChars?_text, hread]
  split <;> rfl

end Spelling

/-! ### Bytes and values -/

/-- **Bytes keep the value** of a number that they have room for. -/
theorem value_bigEndian {width n : Nat} (h : n < 256 ^ width) :
    value 256 ((bigEndian width n).map UInt8.toNat) = n := by
  induction width generalizing n with
  | zero =>
    rw [Nat.pow_zero, Nat.lt_one_iff] at h
    rw [h]
    rfl
  | succ width ih =>
    have hpos : 0 < 256 ^ width := Nat.pow_pos (by decide)
    -- there is room for the number, so nothing is cut off its first byte
    have hfirst : (UInt8.ofNat (n / 256 ^ width)).toNat = n / 256 ^ width := by
      apply UInt8.toNat_ofNat_of_lt'
      rw [Nat.div_lt_iff_lt_mul hpos, Nat.mul_comm, ← Nat.pow_succ]
      exact h
    -- the bytes behind the first are those of the remainder
    have hrest : bigEndian width n = bigEndian width (n % 256 ^ width) := by
      have hadd := bigEndian_add width (n / 256 ^ width) (n % 256 ^ width)
      rwa [Nat.div_add_mod'] at hadd
    rw [bigEndian, List.map_cons, value_cons, List.length_map, length_bigEndian, hfirst, hrest,
      ih (Nat.mod_lt n hpos), Nat.div_add_mod']

/-- The digits are the numeral of a number: they have its value, and there is no zero in front
unless it is the only digit. -/
structure IsNumeral (base : Nat) (digits : List Nat) (n : Nat) : Prop where
  lt : ∀ d ∈ digits, d < base
  value_eq : value base digits = n
  nonempty : digits ≠ []
  leading : digits.head? = some 0 → digits = [0]

/-- Digits that are no more than their value needs have no zero in front. -/
theorem isNumeral_of_length {base n : Nat} {ds : List Nat} (hbase : 1 < base)
    (hlt : ∀ d ∈ ds, d < base) (hvalue : value base ds = n)
    (hlength : ds.length = max 1 (Nat.digits base n).length) : IsNumeral base ds n where
  lt := hlt
  value_eq := hvalue
  nonempty := by
    rintro rfl
    rw [List.length_nil] at hlength
    omega
  leading := by
    intro hhead
    obtain ⟨rest, rfl⟩ := List.head?_eq_some_iff.1 hhead
    -- without the zero the digits still have the value, so there are none
    have hrest : value base rest = n := by rw [← hvalue, value_cons, Nat.zero_mul, Nat.zero_add]
    have hbound : (Nat.digits base n).length ≤ rest.length := by
      rw [Nat.digits_length_le_iff hbase, ← hrest]
      exact value_lt fun d hd => hlt d (List.mem_cons_of_mem _ hd)
    rw [List.length_cons] at hlength
    obtain rfl : rest = [] := List.length_eq_zero_iff.1 (by omega)
    rfl

end Numeral

namespace DataLiteral

open Numeral (Spelling Literal IsNumeral hexDigit digitLimit)

/-- A literal has room for its value. -/
theorem value_lt_width {text : List Char} {l : Literal} (h : Literal.ofChars? text = some l) :
    l.value < 256 ^ l.width := by
  obtain ⟨-, -, ds, -, hlt, hlength, hvalue⟩ := exists_isRendering h
  calc l.value = Numeral.value 16 ds := hvalue.symm
    _ < 16 ^ ds.length := Numeral.value_lt hlt
    _ ≤ 16 ^ (2 * l.width) := by
      apply Nat.pow_le_pow_right (by decide)
      rw [hlength, Literal.width]
      omega
    _ = 256 ^ l.width := Nat.pow_mul 16 2 l.width

/-- **The bytes of a literal are its value**, most significant byte first. -/
theorem value_bytes {text : List Char} {l : Literal} (h : Literal.ofChars? text = some l) :
    Numeral.value 256 (l.bytes.map UInt8.toNat) = l.value :=
  Numeral.value_bigEndian (value_lt_width h)

/-- **A literal takes as many bytes as its digits ask for.** -/
theorem isWidth_literal (w : Spelling) : w.IsWidth w.literal.width := by
  have hlength : w.literal.digits.length = w.digits.length := List.length_map _
  have hwidth : w.literal.width = (w.literal.hexWidth + 1) / 2 := rfl
  unfold Spelling.IsWidth
  -- by the base of the literal
  split
  · next hradix =>
    have hhex : w.literal.hexWidth = w.digits.length := by
      rw [Literal.hexWidth, ← hlength]
      simp only [Spelling.literal, hradix]
    rw [hwidth, hhex]
  · next hradix =>
    have hhex : w.literal.hexWidth = (w.digits.length + 3) / 4 := by
      rw [Literal.hexWidth, ← hlength]
      simp only [Spelling.literal, hradix]
    rw [hwidth, hhex]
  · next hradix =>
    have hhex : w.literal.hexWidth = max 1 (Nat.digits 16 w.value).length := by
      rw [Literal.hexWidth]
      simp only [Spelling.literal, hradix]
      rw [Spelling.value, hradix]
      rfl
    -- the width has room for the value, and no smaller one has
    refine ⟨⟨by omega, value_lt_width w.ofChars?_text⟩, ?_⟩
    rintro k ⟨hk, hvalue⟩
    -- two hexadecimal digits go into each of the `k` bytes
    have hdigits : (Nat.digits 16 w.value).length ≤ 2 * k := by
      rw [Nat.digits_length_le_iff (by decide), Nat.pow_mul]
      exact hvalue
    omega

/-- A decimal literal is turned into the hexadecimal numeral of its value. -/
theorem ofDecimal_text {w : Spelling} (h : w.radix = .decimal) :
    ∃ ds, ofDecimal w.text.toList = .ok (ds.map hexDigit) ∧ IsNumeral 16 ds w.value := by
  obtain ⟨radix, mark, digits, hmark, hne, hvalid⟩ := w
  obtain rfl : radix = .decimal := h
  obtain rfl := List.mem_singleton.1 hmark
  obtain ⟨rendering, hdecimal, ds, rfl, hlt, hlength, hvalue⟩ :=
    isRendering_decimal (Spelling.digitRun?_digits ⟨.decimal, [], digits, hmark, hne, hvalid⟩)
  refine ⟨ds, ?_, Numeral.isNumeral_of_length (by decide) hlt hvalue hlength⟩
  rw [Spelling.text, String.toList_ofList]
  exact hdecimal

/-- **Data is laid down at its exact value.** Every unsigned literal has bytes, whatever its length.
They are its value, most significant byte first, and there are as many of them as the size of the
literal says, which is the width at which it is written. The value is the one that the literal is
read as, unless it is decimal and too long to be read. A decimal literal goes through the
hexadecimal numeral of its value. -/
theorem encode_spelling (w : Spelling) : ∃ bytes,
    encode w.text = .ok bytes ∧ Numeral.value 256 (bytes.map UInt8.toNat) = w.value ∧
    size w.text = .ok bytes.length ∧ w.IsWidth bytes.length ∧
    Numeral.integer? w.text.toList =
      (if w.radix = .decimal ∧ digitLimit < w.digits.length then
        .error (.tooManyDigits w.digits.length)
      else .ok (some (w.value : Int))) ∧
    (w.radix = .decimal → ∃ ds, ofDecimal w.text.toList = .ok (ds.map hexDigit) ∧
      IsNumeral 16 ds w.value) := by
  have hread := w.ofChars?_text
  have hlength : w.literal.bytes.length = w.literal.width := Numeral.length_bigEndian _ _
  refine ⟨w.literal.bytes, encode_literal hread, value_bytes hread, ?_, ?_, w.integer?_text,
    ofDecimal_text⟩
  · rw [hlength]
    exact size_literal hread
  · rw [hlength]
    exact isWidth_literal w

end DataLiteral

end RomAsm
