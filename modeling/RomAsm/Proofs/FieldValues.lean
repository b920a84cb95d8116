import Mathlib
import RomAsm.Proofs.DataWidth
import RomAsm.Proofs.Decoding

/-!
# Operand fields keep their values

A field holds an integer of any size and sign up to multiples of `2 ^ bits`, where `bits` is its
width. So much is said of the bytes (`StoresModulo`), and all the rest follows from it for a field
of any width:

* `unsigned_eq_iff`, `signed_eq_iff` — of the integers that fit the field, those that are not
  negative are read back as unsigned numbers, and those below the middle of the range in two's
  complement;
* `encode_eq_iff_of_fits` — integers are stored alike if they differ by a multiple of `2 ^ bits`,
  and no two integers that fit are further apart than that.

The bytes of both fields are had from their hexadecimal digits. Those of an address are in the order
of its bytes, the low byte first, and within a byte the high digit comes first
(`toList_addressText`).
-/

namespace RomAsm

/-- Fields of the same width that stand for the same number are the same. -/
theorem littleEndian_injective {a b : List UInt8} (hlength : a.length = b.length)
    (h : littleEndian a = littleEndian b) : a = b := by
  induction a generalizing b with
  | nil => exact (List.length_eq_zero_iff.1 hlength.symm).symm
  | cons x a ih =>
    cases b with
    | nil => cases hlength
    | cons y b =>
      -- a byte is the remainder of its number by 256
      have hx := x.toNat_lt
      have hy := y.toNat_lt
      rw [littleEndian, littleEndian] at h
      have hbyte : x.toNat = y.toNat := by omega
      rw [UInt8.toNat_inj.1 hbyte, ih (Nat.succ.inj hlength) (by omega)]

namespace Field

open DataLiteral (bytesOfHex)

/-! ### Reading a field -/

/-- A field read as an unsigned number. -/
def unsigned (field : List UInt8) : Int := littleEndian field

/-- A field read in two's complement. -/
def signed (field : List UInt8) : Int :=
  (BitVec.ofNat (8 * field.length) (littleEndian field)).toInt

/-- The integers that fit a field: those of an unsigned number of its width, and those of a signed
one. -/
theorem fits_iff {n : Int} {bits : Nat} :
    fits n bits = true ↔ -2 ^ (bits - 1) ≤ n ∧ n < 2 ^ bits := by
  simp [fits, Nat.shiftLeft_eq]

/-! ### Fields of any width -/

/-- An encoding stores integers up to multiples of `2 ^ bits`, low byte first. -/
structure StoresModulo (bits : Nat) (encode : Int → List UInt8) : Prop where
  pos : 0 < bits
  width (n : Int) : 8 * (encode n).length = bits
  value (n : Int) : (littleEndian (encode n) : Int) = n % 2 ^ bits

namespace StoresModulo

variable {bits : Nat} {encode : Int → List UInt8}

/-- The width is not zero, so the range can be halved. -/
theorem two_pow_eq (h : StoresModulo bits encode) : (2 : Int) ^ bits = 2 * 2 ^ (bits - 1) := by
  rw [← pow_succ', Nat.sub_add_cancel h.pos]

/-- An integer that fits is read back as unsigned exactly if it is not negative. -/
theorem unsigned_eq_iff (h : StoresModulo bits encode) {n : Int} (hn : fits n bits = true) :
    unsigned (encode n) = n ↔ 0 ≤ n := by
  obtain ⟨-, hlt⟩ := fits_iff.1 hn
  rw [unsigned, h.value]
  constructor
  · -- a remainder is not negative
    intro hsame
    rw [← hsame]
    exact Int.emod_nonneg n (by positivity)
  · intro hnonneg
    exact Int.emod_eq_of_lt hnonneg hlt

/-- Two's complement reads the balanced remainder. -/
theorem signed_eq (h : StoresModulo bits encode) (n : Int) :
    signed (encode n) = n.bmod (2 ^ bits) := by
  rw [signed, h.width, BitVec.toInt_ofNat', h.value, ← Int.emod_bmod n, Nat.cast_pow,
    Nat.cast_ofNat]

/-- An integer that fits is read back in two's complement exactly if it lies below the middle of the
range. -/
theorem signed_eq_iff (h : StoresModulo bits encode) {n : Int} (hn : fits n bits = true) :
    signed (encode n) = n ↔ n < 2 ^ (bits - 1) := by
  have hge := (fits_iff.1 hn).1
  have hpow : ((2 ^ bits : Nat) : Int) = 2 * 2 ^ (bits - 1) := by
    rw [Nat.cast_pow, Nat.cast_ofNat, h.two_pow_eq]
  rw [h.signed_eq, Int.bmod_eq_iff (by positivity), hpow, Int.sub_self]
  -- both bounds of the balanced remainder are half of `2 ^ bits`
  have hlower : (2 * 2 ^ (bits - 1) : Int) / 2 = 2 ^ (bits - 1) := by omega
  have hupper : (2 * 2 ^ (bits - 1) + 1 : Int) / 2 = 2 ^ (bits - 1) := by omega
  rw [hlower, hupper]
  exact ⟨fun hbounds => hbounds.2.1, fun hlt => ⟨hge, hlt, Int.dvd_zero _⟩⟩

/-- **What fits a field is read back**, as an unsigned number or in two's complement. -/
theorem read_back (h : StoresModulo bits encode) {n : Int} (hn : fits n bits = true) :
    unsigned (encode n) = n ∨ signed (encode n) = n := by
  rw [h.unsigned_eq_iff hn, h.signed_eq_iff hn]
  -- an integer below zero lies below the middle
  have hpos : (0 : Int) < 2 ^ (bits - 1) := by positivity
  omega

/-- Integers are stored alike exactly if they differ by a multiple of `2 ^ bits`. -/
theorem encode_eq_iff (h : StoresModulo bits encode) {m n : Int} :
    encode m = encode n ↔ 2 ^ bits ∣ m - n := by
  rw [Int.dvd_iff_emod_eq_zero, ← Int.emod_eq_emod_iff_emod_sub_eq_zero, ← h.value, ← h.value,
    Int.natCast_inj]
  constructor
  · exact congrArg littleEndian
  · -- both fields have the same width, so their numbers tell them apart
    intro hvalue
    have hm := h.width m
    have hn := h.width n
    exact littleEndian_injective (by omega) hvalue

/-- **Two integers that fit a field share an encoding** exactly if they are equal or differ by
`2 ^ bits`: the range is half as wide again as that. -/
theorem encode_eq_iff_of_fits (h : StoresModulo bits encode) {m n : Int}
    (hm : fits m bits = true) (hn : fits n bits = true) :
    encode m = encode n ↔ m = n ∨ m - n = 2 ^ bits ∨ n - m = 2 ^ bits := by
  have hpow := h.two_pow_eq
  have hpos : (0 : Int) < 2 ^ bits := by positivity
  obtain ⟨hm₁, hm₂⟩ := fits_iff.1 hm
  obtain ⟨hn₁, hn₂⟩ := fits_iff.1 hn
  rw [h.encode_eq_iff]
  constructor
  · rintro ⟨k, hk⟩
    -- both are in a range of one and a half times `2 ^ bits`
    have hupper : k < 2 := lt_of_mul_lt_mul_left (by omega : 2 ^ bits * k < 2 ^ bits * 2) hpos.le
    have hlower : -2 < k := lt_of_mul_lt_mul_left (by omega : 2 ^ bits * -2 < 2 ^ bits * k) hpos.le
    obtain rfl | rfl | rfl : k = -1 ∨ k = 0 ∨ k = 1 := by omega
    · omega
    · omega
    · omega
  · rintro (rfl | hdiff | hdiff)
    · exact ⟨0, by omega⟩
    · exact ⟨1, by omega⟩
    · exact ⟨-1, by omega⟩

end StoresModulo

/-! ### The two fields -/

/-- Truncating a number is taking its remainder, which is never negative. -/
theorem truncate_eq (n : Int) (bits : Nat) : (truncate n bits : Int) = n % 2 ^ bits := by
  rw [truncate, Nat.one_shiftLeft, Nat.cast_pow, Nat.cast_ofNat]
  exact Int.toNat_of_nonneg (Int.emod_nonneg n (by positivity))

/-- An immediate field stores its value modulo `2 ^ 8`. -/
theorem storesModulo_immediate : StoresModulo immediateBits immediate where
  pos := by decide
  width n := by
    rw [immediate_eq_truncate]
    rfl
  value n := by
    have htruncate := truncate_eq n immediateBits
    simp only [immediateBits] at htruncate
    simp only [immediate_eq_truncate, immediateBits, littleEndian, UInt8.toNat_ofNat']
    omega

/-- An address field stores its value modulo `2 ^ 16`. -/
theorem storesModulo_address : StoresModulo addressBits address where
  pos := by decide
  width n := by
    rw [address_eq_truncate]
    rfl
  value n := by
    have htruncate := truncate_eq n addressBits
    simp only [addressBits] at htruncate
    simp only [address_eq_truncate, addressBits, littleEndian, UInt8.toNat_ofNat']
    omega

/-- **Operand fields decode back to their values.** The bytes of a field are those that its
hexadecimal digits spell: one byte, the number modulo `2 ^ 8`, or two bytes, low byte first, the
number modulo `2 ^ 16`. A number that fits its field is read back as an unsigned number or in two's
complement, and two such numbers share their bytes exactly if they are equal or differ by `2 ^ 8`
or `2 ^ 16`. -/
theorem fields_decode (n : Int) :
    (bytesOfHex (immediateText n).toList = .ok (immediate n) ∧
      ∃ b, immediate n = [b] ∧ (b.toNat : Int) = n % 2 ^ 8) ∧
    (bytesOfHex (addressText n).toList = .ok (address n) ∧
      ∃ low high, address n = [low, high] ∧
        (low.toNat + 256 * high.toNat : Int) = n % 2 ^ 16) ∧
    (fits n 8 = true →
      (unsigned (immediate n) = n ∨ signed (immediate n) = n) ∧
      ∀ m, fits m 8 = true →
        (immediate m = immediate n ↔ m = n ∨ m - n = 2 ^ 8 ∨ n - m = 2 ^ 8)) ∧
    (fits n 16 = true →
      (unsigned (address n) = n ∨ signed (address n) = n) ∧
      ∀ m, fits m 16 = true →
        (address m = address n ↔ m = n ∨ m - n = 2 ^ 16 ∨ n - m = 2 ^ 16)) := by
  have himmediate := storesModulo_immediate
  have haddress := storesModulo_address
  refine ⟨⟨?_, ?_⟩, ⟨?_, ?_⟩, ?_, ?_⟩
  · rw [bytesOfHex_immediateText, immediate_eq_truncate]
  · -- the one byte is the whole number
    have hvalue := himmediate.value n
    rw [immediate_eq_truncate] at hvalue ⊢
    exact ⟨_, rfl, hvalue⟩
  · rw [bytesOfHex_addressText, address_eq_truncate]
  · have hvalue := haddress.value n
    rw [address_eq_truncate] at hvalue ⊢
    exact ⟨_, _, rfl, hvalue⟩
  · intro hn
    exact ⟨himmediate.read_back hn, fun m hm => himmediate.encode_eq_iff_of_fits hm hn⟩
  · intro hn
    exact ⟨haddress.read_back hn, fun m hm => haddress.encode_eq_iff_of_fits hm hn⟩

/-- A negative address comes back in two's complement only, and shares its bytes with a number that
comes back only as unsigned. -/
theorem minusTwo_decoded :
    fits (-2) 16 = true ∧ fits 65534 16 = true ∧ signed (address (-2)) = -2 ∧
      address 65534 = address (-2) := by
  have hfits : fits (-2) 16 = true := by decide
  have hfits' : fits 65534 16 = true := by decide
  obtain ⟨-, -, -, haddress⟩ := fields_decode (-2)
  obtain ⟨hread, hshare⟩ := haddress hfits
  exact ⟨hfits, hfits', hread.resolve_left (by decide), (hshare 65534 hfits').2 (by decide)⟩

end Field

end RomAsm
