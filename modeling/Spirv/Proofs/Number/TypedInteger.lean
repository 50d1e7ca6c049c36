import Mathlib
import Spirv.Literal
import Spirv.Proofs.Number.Numeral

/-!
Integers of a known type.

The value of a numeral settles whether the type holds it and the bits that it is held in, whatever
zeros it begins with. A numeral in base sixteen spells these bits instead, as many as the type has.
It comes to the same words, but for negative numbers of more than one word that do not fill two: read
from decimal digits they are extended by their sign, and from hexadecimal ones by zeros.
-/

namespace Spirv.Literal

open Digits

variable {w n : ℕ} {signed : Bool} {v : ℤ} {text : List Char}

/-- A type of the width holds the integer. -/
def Holds (w : ℕ) : Bool → ℤ → Prop
  | true, v => -2 ^ (w - 1) ≤ v ∧ v < 2 ^ (w - 1)
  | false, v => 0 ≤ v ∧ v < 2 ^ w

instance (w : ℕ) : (signed : Bool) → (v : ℤ) → Decidable (Holds w signed v)
  | true, v => inferInstanceAs (Decidable (-2 ^ (w - 1) ≤ v ∧ v < 2 ^ (w - 1)))
  | false, v => inferInstanceAs (Decidable (0 ≤ v ∧ v < 2 ^ w))

/-- Bits extended to a greater size, by their sign or by zeros. -/
def extend (signed : Bool) (size : ℕ) (bits : BitVec w) : BitVec size :=
  if signed then bits.signExtend size else bits.setWidth size

/-- The two's complement of an integer in a width, extended to one word or to two. -/
def inWords (w : ℕ) (signed : Bool) (v : ℤ) : BitVec 64 :=
  let bits := BitVec.ofInt w v
  if w ≤ 32 then (extend signed 32 bits).setWidth 64 else extend signed 64 bits

/-! ### The bits of an integer -/

lemma Holds.toInt_ofInt (hw : 1 ≤ w) (h : Holds w true v) : (BitVec.ofInt w v).toInt = v :=
  BitVec.toInt_ofInt_eq_self hw h.1 h.2

/-- A signed number is the same in one word and in two. -/
lemma Holds.inWords_signed (hw : 1 ≤ w) (h : Holds w true v) : inWords w true v = extendInt w v := by
  have hextend : ∀ size, extend true size (BitVec.ofInt w v) = BitVec.ofInt size v := fun size => by
    rw [extend, if_pos rfl, BitVec.signExtend, h.toInt_ofInt hw]
  rw [inWords, extendInt, hextend, hextend]

lemma inWords_unsigned (v : ℤ) : inWords w false v = (BitVec.ofInt w v).setWidth 64 := by
  rw [inWords]
  split
  next hw => simp [extend, hw]
  next => rfl

/-- The sign of a number that is not negative is zero. -/
lemma Holds.inWords_of_nonneg (hw : 1 ≤ w) (h : Holds w true v) (hv : 0 ≤ v) :
    inWords w true v = (BitVec.ofInt w v).setWidth 64 := by
  have hmsb : (BitVec.ofInt w v).msb = false := by
    rw [BitVec.msb_eq_toInt, h.toInt_ofInt hw]
    simpa using hv
  rw [← inWords_unsigned, inWords, inWords]
  simp [extend, BitVec.signExtend_eq_setWidth_of_msb_false hmsb]

/-- The sign of a negative number is one, and shows where there is room for it. -/
lemma Holds.inWords_ne (hw : 32 < w ∧ w < 64) (h : Holds w true v) (hv : v < 0) :
    inWords w true v ≠ (BitVec.ofInt w v).setWidth 64 := by
  have hmsb : (BitVec.ofInt w v).msb = true := by
    rw [BitVec.msb_eq_toInt, h.toInt_ofInt (by omega)]
    simpa using hv
  have hsign : (inWords w true v).msb = true := by
    rw [inWords, if_neg (by omega), extend, if_pos rfl, BitVec.msb_signExtend, hmsb]
    simp [hw.2]
  intro heq
  rw [heq, BitVec.msb_setWidth, BitVec.getLsbD_of_ge _ _ (by omega)] at hsign
  simp at hsign

/-! ### Reading -/

lemma toInt_natAbs (v : ℤ) : toInt (decide (v < 0)) v.natAbs = v := by
  by_cases hv : v < 0
  · rw [decide_eq_true hv, toInt, if_pos rfl]
    omega
  · rw [decide_eq_false hv, toInt, if_neg Bool.false_ne_true]
    omega

/-- The bits that a width holds without a sign are their number. -/
lemma setWidth_ofNat (hn : n < 2 ^ w) :
    (BitVec.ofNat w n).setWidth 64 = BitVec.ofNat 64 n := by
  rw [← BitVec.ofNat_toNat, BitVec.toNat_ofNat, Nat.mod_eq_of_lt hn]

/-- A numeral in digits is read by its value. -/
lemma readInteger_of_spellsInteger (hw : 1 ≤ w ∧ w ≤ 64) (signed : Bool)
    (h : SpellsInteger text v) : readInteger w signed text
      = if Holds w signed v then .ok (inWords w signed v) else .error .outOfRange := by
  obtain ⟨hhex, hsigned⟩ := h.signed?
  have hwidth : (decide (w = 0) || decide (64 < w)) = false := by simp; omega
  rw [readInteger, hwidth, hhex, hsigned]
  simp only [toInt_natAbs, Bool.false_eq_true, if_false]
  rcases signed with _ | _
  · by_cases hv : 0 ≤ v
    · obtain ⟨n, rfl⟩ := Int.eq_ofNat_of_zero_le hv
      by_cases hn : n < 2 ^ w
      · have hholds : Holds w false n := ⟨hv, by exact_mod_cast hn⟩
        have hbits : inWords w false n = BitVec.ofNat 64 n := by
          rw [inWords_unsigned, BitVec.ofInt_natCast, setWidth_ofNat hn]
        rw [if_pos hholds, hbits]
        simp [hn]
      · have hholds : ¬ Holds w false n := fun h => hn (by exact_mod_cast h.2)
        rw [if_neg hholds]
        simp [not_lt.mp hn]
    · have hholds : ¬ Holds w false v := fun h => hv h.1
      rw [if_neg hholds]
      simp [not_le.mp hv]
  · by_cases hholds : Holds w true v
    · rw [if_pos hholds, hholds.inWords_signed hw.1]
      simp [hholds.1, hholds.2]
    · rw [if_neg hholds]
      have hrange : ¬ (-2 ^ (w - 1) ≤ v ∧ v < 2 ^ (w - 1)) := hholds
      simpa using fun hle => not_lt.mp fun hlt => hrange ⟨hle, hlt⟩

/-- A hexadecimal numeral that has no more bits than the type is read as these bits. -/
lemma readInteger_of_spellsHex (hw : 1 ≤ w ∧ w ≤ 64) (h : Holds w signed v)
    (hhex : SpellsHex text (BitVec.ofInt w v).toNat) : readInteger w signed text
      = .ok (if signed ∧ 32 < w ∧ w < 64 then (BitVec.ofInt w v).setWidth 64
          else inWords w signed v) := by
  have hwidth : (decide (w = 0) || decide (64 < w)) = false := by simp; omega
  have hfits : ¬ 2 ^ w ≤ (BitVec.ofInt w v).toNat := not_le.mpr (BitVec.isLt _)
  rw [readInteger, hwidth, hhex.hex?]
  simp only [Bool.false_eq_true, if_false, hfits, BitVec.ofNat_toNat, BitVec.setWidth_eq]
  rcases signed with _ | _
  · simp [inWords_unsigned]
  rw [h.toInt_ofInt hw.1, ← h.inWords_signed hw.1]
  by_cases hshort : w < 32
  · have hnarrow : ¬ 32 < w := by omega
    simp [hshort, hnarrow]
  by_cases hwide : 32 < w ∧ w < 64
  · simp [hshort, hwide]
  · obtain rfl | rfl : w = 32 ∨ w = 64 := by omega
    · simp [inWords, extend]
    · simp [inWords, extend]

/-- A hexadecimal numeral that has more bits than the type is not read. -/
lemma readInteger_of_testBit (signed : Bool) (h : SpellsHex text n) {i : ℕ} (hi : w ≤ i)
    (hbit : n.testBit i = true) : readInteger w signed text = .error .outOfRange := by
  have hlarge : 2 ^ w ≤ n :=
    (Nat.pow_le_pow_right (by omega) hi).trans (Nat.ge_two_pow_of_testBit hbit)
  rw [readInteger, h.hex?]
  simp only [hlarge, if_true, ite_self]

/-- **Integers are read by their value.** Digits that spell an integer are read exactly if the type holds
it, and give its two's complement extended to whole words. A hexadecimal numeral with a bit beyond the
width is refused; one that spells the two's complement of an integer that the type holds gives the same
words as the digits, except that of a signed type of more than 32 and less than 64 bits the bits are
extended by zeros, which differs for the negative integers and for these only. -/
theorem readInteger_by_value (hw : 1 ≤ w ∧ w ≤ 64) (signed : Bool) (h : SpellsInteger text v) :
    readInteger w signed text
        = (if Holds w signed v then .ok (inWords w signed v) else .error .outOfRange) ∧
      (∀ hex n i, SpellsHex hex n → w ≤ i → n.testBit i = true →
        readInteger w signed hex = .error .outOfRange) ∧
      ∀ hex, Holds w signed v → SpellsHex hex (BitVec.ofInt w v).toNat →
        readInteger w signed hex
            = .ok (if signed ∧ 32 < w ∧ w < 64 then (BitVec.ofInt w v).setWidth 64
              else inWords w signed v) ∧
          (readInteger w signed hex = readInteger w signed text ↔
            ¬ (signed ∧ 32 < w ∧ w < 64 ∧ v < 0)) := by
  have htext := readInteger_of_spellsInteger hw signed h
  refine ⟨htext, fun hex n i hhex hi hbit => readInteger_of_testBit signed hhex hi hbit,
    fun hex hholds hhex => ?_⟩
  have hread := readInteger_of_spellsHex hw hholds hhex
  refine ⟨hread, ?_⟩
  rw [htext, if_pos hholds, hread, Except.ok.injEq]
  by_cases hwide : signed ∧ 32 < w ∧ w < 64
  · obtain ⟨rfl, hwide⟩ := hwide
    rw [if_pos ⟨rfl, hwide⟩]
    by_cases hv : v < 0
    · simpa [hv, hwide] using (hholds.inWords_ne hwide hv).symm
    · simpa [hv] using (hholds.inWords_of_nonneg hw.1 (not_lt.mp hv)).symm
  · rw [if_neg hwide]
    exact iff_of_true rfl fun hall => hwide ⟨hall.1, hall.2.1, hall.2.2.1⟩

/-- The least number of 16 bits fills a word with its sign, however it is written. -/
theorem readInteger_by_value_sample : (1 ≤ 16 ∧ 16 ≤ 64) ∧
    SpellsInteger (toString (-32768 : ℤ)).toList (-32768) ∧
    readInteger 16 true (toString (-32768 : ℤ)).toList = .ok 0xFFFF8000 ∧
    readInteger 16 true ('0' :: 'x' :: Nat.toDigits 16 0x8000) = .ok 0xFFFF8000 ∧
    readInteger 16 true ('0' :: 'x' :: Nat.toDigits 16 0x18000) = .error .outOfRange := by
  have hspells := spellsInteger_toString (-32768)
  obtain ⟨htext, hlarge, hhex⟩ := readInteger_by_value (w := 16) (by decide) true hspells
  have hholds : Holds 16 true (-32768) := by decide
  refine ⟨by decide, hspells, htext, ?_, hlarge _ _ 16 (spellsHex_toDigits _) le_rfl (by decide)⟩
  exact (hhex _ hholds (spellsHex_toDigits 0x8000)).1

/-- Minus one in 40 bits is minus one in two words, but not where its 40 bits are written. -/
theorem exists_hex_not_extended : Holds 40 true (-1) ∧
    SpellsInteger (toString (-1 : ℤ)).toList (-1) ∧
    SpellsHex ('0' :: 'x' :: Nat.toDigits 16 0xFFFFFFFFFF) (BitVec.ofInt 40 (-1)).toNat ∧
    readInteger 40 true (toString (-1 : ℤ)).toList = .ok 0xFFFFFFFFFFFFFFFF ∧
    readInteger 40 true ('0' :: 'x' :: Nat.toDigits 16 0xFFFFFFFFFF) = .ok 0xFFFFFFFFFF ∧
    (0xFFFFFFFFFF : BitVec 64) ≠ 0xFFFFFFFFFFFFFFFF := by
  have hholds : Holds 40 true (-1) := by decide
  have hspells := spellsInteger_toString (-1)
  have hhex := spellsHex_toDigits (BitVec.ofInt 40 (-1)).toNat
  refine ⟨hholds, hspells, hhex, ?_, readInteger_of_spellsHex (by decide) hholds hhex, by decide⟩
  rw [readInteger_of_spellsInteger (by decide) true hspells, if_pos hholds]
  decide

end Spirv.Literal
