import Mathlib
import RomAsm.Generator

/-!
# What a line of the listing shows

The assembler writes numbers and columns with functions of its own. Here these are compared with
what one would say about the text: that it has the digits of a number in some base, taken from an
alphabet, and that it is filled up to a width with a character.

* `Numeral.hexadecimal_eq_hexText`, `byteText_eq_hexText` — hexadecimal numerals and bytes have the
  digits of the number, and zeros in front of them;
* `Numeral.decimal_eq_toString` — decimal numerals are the usual ones;
* `Text.join_eq_intercalate`, `Text.padRight_eq_rightpad`, `Text.padLeft_eq_leftpad` — columns;
* `Listing.line_eq_lineOf` — **a line of the listing**, put together from these.
-/

namespace RomAsm

/-! ### Numerals -/

/-- A number in hexadecimal: its digits, the last of which is the first of `Nat.digits`, as the
characters of an alphabet, and zeros in front of them up to a width. -/
def hexText (width n : Nat) : String :=
  let alphabet := "0123456789ABCDEF".toList
  String.ofList (((Nat.digits 16 n).reverse.map fun d => alphabet.getD d ' ').leftpad width '0')

namespace Numeral

/-- A digit is the character of the alphabet at its place. -/
theorem hexDigit_eq_getD {d : Nat} (h : d < 16) :
    hexDigit d = "0123456789ABCDEF".toList.getD d ' ' := by
  interval_cases d <;> rfl

/-- As many digits as there is room for, one after the other from the last one on. -/
theorem hexDigits_eq_leftpad {width n : Nat} (h : n < 16 ^ width) :
    hexDigits width n = ((Nat.digits 16 n).reverse.map fun d =>
      "0123456789ABCDEF".toList.getD d ' ').leftpad width '0' := by
  -- on the width, with the last digit taken off first
  induction width generalizing n with
  | zero =>
    obtain rfl : n = 0 := by simpa using h
    rfl
  | succ width ih =>
    have hrest : n / 16 < 16 ^ width := by
      rw [pow_succ] at h
      omega
    rw [hexDigits, ih hrest]
    rcases Nat.eq_zero_or_pos n with rfl | hpos
    · -- zero has no digits, so there is one more zero in front of none
      rw [Nat.zero_div, Nat.digits_zero, List.reverse_nil, List.map_nil, List.leftpad,
        List.leftpad, List.append_nil, List.append_nil, List.length_nil, Nat.sub_zero, Nat.sub_zero,
        List.replicate_succ']
      rfl
    · rw [Nat.digits_def' (by decide) hpos, List.reverse_cons, List.map_append,
        List.map_singleton, ← hexDigit_eq_getD (Nat.mod_lt n (by decide))]
      -- the last digit is the same, and what is in front of it has one character less to fill
      simp only [List.leftpad, List.length_append, List.length_singleton, Nat.add_sub_add_right,
        List.append_assoc]

/-- The two ways to count the digits of a number agree, except for zero. -/
theorem length_toDigits_eq {n : Nat} (h : 0 < n) :
    (Nat.toDigits 16 n).length = (Nat.digits 16 n).length := by
  have hbase : 1 < 16 := by decide
  have hdigits : 0 < (Nat.digits 16 n).length :=
    List.length_pos_iff.2 (Nat.digits_ne_nil_iff_ne_zero.2 h.ne')
  have htoDigits : 0 < (Nat.toDigits 16 n).length := Nat.length_toDigits_pos
  -- both are the least number of digits that there is room in
  refine le_antisymm ?_ ?_
  · exact (Nat.length_toDigits_le_iff hbase hdigits).2 (Nat.lt_base_pow_length_digits hbase)
  · exact (Nat.digits_length_le_iff hbase n).2
      ((Nat.length_toDigits_le_iff hbase htoDigits).1 le_rfl)

/-- **Hexadecimal numerals** have the digits of the number. -/
theorem hexadecimal_eq_hexText {width : Nat} (h : 0 < width) (n : Nat) :
    hexadecimal width n = hexText width n := by
  have hbase : 1 < 16 := by decide
  have hroom : n < 16 ^ max width (Nat.toDigits 16 n).length :=
    (Nat.length_toDigits_le_iff hbase (lt_max_of_lt_left h)).1 (le_max_right _ _)
  rw [hexadecimal, hexDigits_eq_leftpad hroom, hexText]
  rcases Nat.eq_zero_or_pos n with rfl | hpos
  · -- one digit is written for zero, where `Nat.digits` has none
    rw [max_eq_left (h : (Nat.toDigits 16 0).length ≤ width)]
  · have hfill : max width (Nat.digits 16 n).length - (Nat.digits 16 n).length =
        width - (Nat.digits 16 n).length := by omega
    simp only [List.leftpad, length_toDigits_eq hpos, List.length_map, List.length_reverse, hfill]

/-- **Decimal numerals** are the usual ones. -/
theorem decimal_eq_toString (n : Int) : decimal n = toString n := by
  cases n with
  | ofNat n => rfl
  | negSucc n =>
    rw [decimal, if_pos (Int.negSucc_lt_zero n)]
    rfl

end Numeral

/-- The digits of a byte. -/
theorem byteText_eq_hexText (b : UInt8) : byteText b = hexText 2 b.toNat :=
  Numeral.hexadecimal_eq_hexText (by decide) b.toNat

/-! ### Columns -/

namespace Text

/-- Joining texts, as lists of characters. -/
theorem joinChars_eq_intercalate (between : List Char) (texts : List (List Char)) :
    joinChars between texts = between.intercalate texts := by
  induction texts with
  | nil => rfl
  | cons text rest ih =>
    -- nothing is put behind the last text
    cases rest with
    | nil => simp [joinChars]
    | cons next rest =>
      change text ++ between ++ joinChars between (next :: rest) = _
      rw [ih, List.intercalate_cons_cons]

/-- **Joining** puts a text between each two of the others. -/
theorem join_eq_intercalate (between : String) (texts : List String) :
    join between texts = between.intercalate texts := by
  rw [← String.toList_inj, join, String.toList_ofList, joinChars_eq_intercalate,
    String.toList_intercalate]

/-- **Filling up on the right**, with spaces. -/
theorem padRight_eq_rightpad (width : Nat) (text : String) :
    padRight width text = text.rightpad width := by
  rw [← String.toList_inj]
  simp [padRight, String.rightpad, String.replicate]

/-- **Filling up on the left**, with spaces. -/
theorem padLeft_eq_leftpad (width : Nat) (text : String) :
    padLeft ' ' width text = text.leftpad width := by
  rw [padLeft, String.leftpad, List.leftpad, String.length_toList]

end Text

/-! ### Lines -/

namespace Listing

/-- The line of a listing for a stretch of code that was made from a slice of the stream, such as
`0000  68 65 79 ..      1  .string "hey"`: the address, up to three bytes with a sign if there are
more, the line of the source, and the texts of the symbols. -/
def lineOf (address : Nat) (stretch : List UInt8) (slice : List Symbol) : String :=
  let bytes := " ".intercalate ((stretch.take 3).map fun b => hexText 2 b.toNat)
  let shown := if 3 < stretch.length then bytes ++ " .." else bytes
  let line := ((slice.head?.bind (·.location)).map (·.line)).getD 0
  hexText 4 address ++ "  " ++ shown.rightpad 12 ++ "  " ++ (toString line).leftpad 4 ++ "  " ++
    " ".intercalate (slice.map (·.text))

/-- The bytes of a line. -/
theorem codeText_eq (bytes : List UInt8) : codeText bytes =
    let shown := " ".intercalate ((bytes.take 3).map fun b => hexText 2 b.toNat)
    if 3 < bytes.length then shown ++ " .." else shown := by
  have hshown : (bytes.take shownBytes).map byteText =
      (bytes.take 3).map fun b => hexText 2 b.toNat :=
    List.map_congr_left fun b _ => byteText_eq_hexText b
  rw [codeText, Text.spaced, Text.join_eq_intercalate, hshown]
  -- the sign for more bytes is shown or not
  split
  · next h => exact (if_pos h).symm
  · next h => exact (String.append_empty ..).trans (if_neg h).symm

/-- **A line of the listing** shows the address, the bytes, the line of the source and the symbols
of a statement. -/
theorem line_eq_lineOf (address : Nat) (bytes : List UInt8) (statement : List Symbol) :
    line address bytes statement = lineOf address bytes statement := by
  rw [line, lineOf, Numeral.hexadecimal_eq_hexText (by decide), codeText_eq,
    Text.padRight_eq_rightpad, Text.padLeft_eq_leftpad, Numeral.decimal_eq_toString, spelled,
    Text.spaced, Text.join_eq_intercalate]
  rfl

end Listing

end RomAsm
