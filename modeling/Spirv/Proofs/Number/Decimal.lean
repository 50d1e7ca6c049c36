import Mathlib
import Spirv.Number.Decimal
import Spirv.Proofs.Number.Digits
import Spirv.Proofs.Number.Shortest

/-!
Decimals that are written out are read back as the numbers that they were written for.

A decimal is written without an exponent, so what is read is a whole number over a power of ten. Its
value is all that counts for rounding, and a finite number of a format is read back bit by bit.
-/

namespace Spirv

namespace Decimal

variable {negative : Bool} {w u e : List Char}

lemma takeWhile_append_of_head? {p : Char → Bool} {l r : List Char} (hl : ∀ c ∈ l, p c = true)
    (hr : ∀ c ∈ r.head?, p c = false) :
    (l ++ r).takeWhile p = l ∧ (l ++ r).dropWhile p = r := by
  induction l with
  | nil => rcases r with _ | ⟨c, r⟩ <;> simp_all
  | cons c l ih => simp_all

/-- Digits that no point comes after. -/
lemma unsigned?_whole (hw : ∀ c ∈ w, c.isDigit = true)
    (he : ∀ c ∈ e.head?, c.isDigit = false ∧ c ≠ '.') : unsigned? negative (w ++ e)
      = if w = [] then none else (exponent? e).map fun k => ⟨negative, Digits.ofDigits 10 w, k⟩ := by
  obtain ⟨htake, hdrop⟩ := takeWhile_append_of_head? hw fun c hc => (he c hc).1
  rw [unsigned?, htake, hdrop]
  rcases e with _ | ⟨c, e⟩
  · simp
  · have hc : c ≠ '.' := (he c rfl).2
    simp [hc]

/-- Digits after a point are divided by a power of ten. -/
lemma unsigned?_point (hw : ∀ c ∈ w, c.isDigit = true) (hu : ∀ c ∈ u, c.isDigit = true)
    (he : ∀ c ∈ e.head?, c.isDigit = false) : unsigned? negative (w ++ '.' :: (u ++ e))
      = if w ++ u = [] then none
        else (exponent? e).map fun k => ⟨negative, Digits.ofDigits 10 (w ++ u), k - u.length⟩ := by
  obtain ⟨htake, hdrop⟩ := takeWhile_append_of_head? (r := '.' :: (u ++ e)) hw (by simp)
  obtain ⟨htake', hdrop'⟩ := takeWhile_append_of_head? hu he
  rw [unsigned?, htake, hdrop]
  simp [htake', hdrop']

lemma read?_of_head? (h : w.head? ≠ some '-') : read? w = unsigned? false w := by
  unfold read?
  split <;> simp_all

end Decimal

namespace Shortest

open Decimal

lemma isDigit_of_mem_zeros (n : ℕ) : ∀ c ∈ List.replicate n '0', c.isDigit = true := fun c hc => by
  rw [(List.mem_replicate.mp hc).2]
  rfl

/-- Zeros in front of a number do not change it. -/
lemma ofDigits_zeros_append (n d : ℕ) :
    Digits.ofDigits 10 (List.replicate n '0' ++ Nat.toDigits 10 d) = d := by
  rw [Digits.ofDigits_append, Digits.ofDigits_replicate_zero,
    Digits.ofDigits_toDigits (by omega) (by omega)]
  simp

/-- Zeros after a number multiply it by ten. -/
lemma ofDigits_append_zeros (d n : ℕ) :
    Digits.ofDigits 10 (Nat.toDigits 10 d ++ List.replicate n '0') = d * 10 ^ n := by
  rw [Digits.ofDigits_append, Digits.ofDigits_replicate_zero,
    Digits.ofDigits_toDigits (by omega) (by omega)]
  simp

/-- A decimal that is written out has digits, and a point only between digits. -/
lemma exists_positional (d : ℕ) (k : ℤ) : ∃ w u : List Char, w ≠ [] ∧
    (∀ c ∈ w, c.isDigit = true) ∧ (∀ c ∈ u, c.isDigit = true) ∧
      (u = [] ∧ (positional d k).toList = w ∨ (positional d k).toList = w ++ '.' :: u) ∧
      (Digits.ofDigits 10 (w ++ u) : ℚ) * 10 ^ (-(u.length : ℤ)) = d * 10 ^ k := by
  have hdigits : ∀ c ∈ Nat.toDigits 10 d, c.isDigit = true := fun c =>
    Digits.isDigit_of_mem_toDigits
  have hpos : 0 < (Nat.toDigits 10 d).length := Nat.length_toDigits_pos
  rw [positional]
  split
  next h =>
    obtain ⟨n, rfl⟩ := Int.eq_ofNat_of_zero_le (show 0 ≤ k by omega)
    refine ⟨Nat.toDigits 10 d ++ List.replicate n '0', [], by simp,
      List.forall_mem_append.mpr ⟨hdigits, isDigit_of_mem_zeros n⟩, by simp, .inl ⟨rfl, by simp⟩, ?_⟩
    rw [List.append_nil, ofDigits_append_zeros]
    simp
  next h =>
    obtain ⟨n, hn⟩ : ∃ n : ℕ, k = -n := ⟨(-k).toNat, by omega⟩
    have hplaces : (-k).toNat = n := by omega
    simp only [hplaces] at h ⊢
    generalize hpadded : List.replicate (n + 1 - (Nat.toDigits 10 d).length) '0' ++ Nat.toDigits 10 d
      = padded
    have hlen : n + 1 ≤ padded.length := by
      rw [← hpadded, List.length_append, List.length_replicate]
      omega
    have hall := List.forall_mem_append.mpr
      ⟨isDigit_of_mem_zeros (n + 1 - (Nat.toDigits 10 d).length), hdigits⟩
    have hval := ofDigits_zeros_append (n + 1 - (Nat.toDigits 10 d).length) d
    rw [hpadded] at hall hval
    refine ⟨padded.take (padded.length - n), padded.drop (padded.length - n), ?_,
      fun c hc => hall c (List.mem_of_mem_take hc), fun c hc => hall c (List.mem_of_mem_drop hc),
      .inr (by simp), ?_⟩
    · rw [← List.length_pos_iff, List.length_take]
      omega
    · rw [List.take_append_drop, hval, List.length_drop, hn,
        show padded.length - (padded.length - n) = n by omega]

lemma head?_positional (d : ℕ) (k : ℤ) : (positional d k).toList.head? ≠ some '-' := by
  obtain ⟨w, u, hne, hw, -, htext, -⟩ := exists_positional d k
  have hhead : (positional d k).toList.head? = w.head? := by
    rcases htext with ⟨-, h⟩ | h
    · rw [h]
    · rw [h, List.head?_append_of_ne_nil _ hne]
  rw [hhead]
  intro h
  exact absurd (hw _ (List.mem_of_mem_head? h)) (by decide)

/-- A decimal that is written out is read as a number of its value. -/
lemma unsigned?_positional (negative : Bool) (d : ℕ) (k : ℤ) : ∃ (m : ℕ) (e : ℤ),
    unsigned? negative (positional d k).toList = some ⟨negative, m, e⟩ ∧ e ≤ 0 ∧
      (m * 10 ^ e : ℚ) = d * 10 ^ k := by
  obtain ⟨w, u, hne, hw, hu, htext, hvalue⟩ := exists_positional d k
  refine ⟨_, _, ?_, ?_, hvalue⟩
  · rcases htext with ⟨rfl, htext⟩ | htext
    · have hread : unsigned? negative (w ++ []) = _ := unsigned?_whole hw (by simp)
      simpa [htext, hne, exponent?] using hread
    · have hread : unsigned? negative (w ++ '.' :: (u ++ [])) = _ := unsigned?_point hw hu (by simp)
      simpa [htext, hne, exponent?] using hread
  · omega

/-- What is read is rounded to the magnitude that it is next to. -/
lemma ofDecimal_eq {f : BinaryFormat} (hmin : -1074 ≤ f.minExponent) {bits m : ℕ} {e : ℤ}
    (he : e ≤ 0) (hbits : 0 < bits) (hfin : bits < f.infinity) (h : f.Within bits (m * 10 ^ e)) :
    f.ofDecimal m e = bits := by
  obtain ⟨n, rfl⟩ : ∃ n : ℕ, e = -n := ⟨(-e).toNat, by omega⟩
  have hle := h.zpow_le hbits
  have hleast : (2 : ℚ) ^ (-1075 : ℤ) ≤ m * 10 ^ (-(n : ℤ)) :=
    (zpow_le_zpow_right₀ one_le_two (by omega)).trans hle
  have hm : m ≠ 0 := by
    rintro rfl
    have : (0 : ℚ) < 2 ^ (-1075 : ℤ) := by positivity
    simp only [Nat.cast_zero, zero_mul] at hleast
    linarith
  -- the number is not so small that its power is not computed
  have hlarge : ¬ (m.log2 : ℤ) + 1 + -n < -400 := by
    intro hsmall
    have hlt : m < 2 ^ (m.log2 + 1) := Nat.lt_log2_self
    obtain ⟨c, hc⟩ : ∃ c : ℕ, c = 400 := ⟨_, rfl⟩
    obtain ⟨j, rfl⟩ : ∃ j, n = m.log2 + 1 + c + j := ⟨n - (m.log2 + 1 + c), by omega⟩
    have hmono : (2 : ℚ) ^ (-((3 * c : ℕ) : ℤ)) ≤ 2 ^ (-1075 : ℤ) :=
      zpow_le_zpow_right₀ one_le_two (by omega)
    have hcross : ((10 ^ (m.log2 + 1 + c + j) : ℕ) : ℚ) ≤ (m * 2 ^ (3 * c) : ℕ) := by
      have hleast := hmono.trans hleast
      rw [zpow_neg, zpow_neg, zpow_natCast, zpow_natCast, ← div_eq_mul_inv,
        le_div_iff₀ (by positivity), inv_mul_le_iff₀ (by positivity)] at hleast
      push_cast
      rwa [mul_comm]
    have hpow : m * 2 ^ (3 * c) < 10 ^ (m.log2 + 1 + c + j) := by
      rw [pow_add, pow_add]
      calc m * 2 ^ (3 * c) < 2 ^ (m.log2 + 1) * 2 ^ (3 * c) :=
            Nat.mul_lt_mul_of_pos_right hlt (Nat.two_pow_pos _)
        _ = 2 ^ (m.log2 + 1) * (2 ^ 3) ^ c := by rw [← pow_mul]
        _ ≤ 10 ^ (m.log2 + 1) * 10 ^ c := Nat.mul_le_mul (Nat.pow_le_pow_left (by omega) _)
            (Nat.pow_le_pow_left (by omega) _)
        _ ≤ 10 ^ (m.log2 + 1) * 10 ^ c * 10 ^ j := Nat.le_mul_of_pos_right _ (by positivity)
    exact absurd (Nat.cast_le.mp hcross) (Nat.not_le.mpr hpow)
  have hratio : ((m * 10 ^ (-(n : ℤ)).toNat : ℕ) : ℚ) / (10 ^ (- -(n : ℤ)).toNat : ℕ)
      = m * 10 ^ (-(n : ℤ)) := by
    simp [div_eq_mul_inv]
  rw [BinaryFormat.ofDecimal, if_neg hm, if_neg (by omega), if_neg hlarge]
  exact BinaryFormat.ofRatio_eq (Nat.pow_pos (by omega)) hbits hfin (hratio ▸ h)

/-- **The text of a finite number is read back as its bits.** -/
theorem read?_text {f : BinaryFormat} (hp : f.precision ≤ 53)
    (hmin : -1074 ≤ f.minExponent) {bits : ℕ} (hbits : bits < 2 * f.signBit)
    (hfin : bits % f.signBit < f.infinity) :
    ∃ d, Decimal.read? (text f bits).toList = some d ∧ d.toBits f = bits := by
  -- the digits of the magnitude, whichever of two equal decimals is written
  obtain ⟨d, k, htext, hzero, hwithin⟩ : ∃ (d : ℕ) (k : ℤ),
      text f bits = (if f.signBit ≤ bits then "-" else "") ++ positional d k ∧
        (bits % f.signBit = 0 → d = 0) ∧
        (0 < bits % f.signBit → f.Within (bits % f.signBit) (d * 10 ^ k)) := by
    rw [text]
    generalize bits % f.signBit = magnitude
    rcases Nat.eq_zero_or_pos magnitude with rfl | hpos
    · exact ⟨0, 0, by simp, by simp, by simp⟩
    have hwithin := within_ofBits hp hpos
    by_cases hten : (ofBits f magnitude).1 = 10
    · refine ⟨1, (ofBits f magnitude).2 + 1, by simp [hpos.ne', hten], by omega, fun _ => ?_⟩
      convert hwithin using 1
      rw [hten, zpow_add_one₀ (by norm_num)]
      push_cast
      ring
    · exact ⟨_, _, by simp [hpos.ne', hten], by omega, fun _ => hwithin⟩
  obtain ⟨m, e, hread, he, hvalue⟩ := unsigned?_positional (decide (f.signBit ≤ bits)) d k
  refine ⟨⟨decide (f.signBit ≤ bits), m, e⟩, ?_, ?_⟩
  · rw [htext, String.toList_append]
    by_cases hsign : f.signBit ≤ bits
    · simpa [hsign, Decimal.read?] using hread
    · simpa [hsign, read?_of_head? (head?_positional d k)] using hread
  · have hmagnitude : f.ofDecimal m e = bits % f.signBit := by
      rcases Nat.eq_zero_or_pos (bits % f.signBit) with h | h
      · obtain rfl := hzero h
        obtain rfl : m = 0 := by
          have hten : (10 : ℚ) ^ e ≠ 0 := by positivity
          simpa [hten] using hvalue
        simp [BinaryFormat.ofDecimal, h]
      · exact ofDecimal_eq hmin he h hfin (hvalue ▸ hwithin h)
    rw [Decimal.toBits, BinaryFormat.withSign, hmagnitude]
    by_cases hsign : f.signBit ≤ bits
    · simp only [hsign, decide_true, if_true]
      rw [Nat.mod_eq_sub_mod hsign, Nat.mod_eq_of_lt (by omega)]
      omega
    · simp only [hsign, decide_false, Bool.false_eq_true, if_false]
      exact Nat.mod_eq_of_lt (by omega)

end Shortest

end Spirv
