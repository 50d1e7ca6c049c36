import Mathlib
import Spirv.Number.BinaryFormat

/-!
Rounding to the numbers of a binary format.

`Within` says that a rational number is no further from a magnitude of the format than half a step, a
quarter below where the steps get smaller, and at the very ends only if the significand is even. Such a
number is rounded to the bits of the magnitude.
-/

namespace Spirv

/-- A quotient no further than a half from a whole number is rounded to it. -/
lemma roundQuotient_eq {num den m : ℕ} (hden : 0 < den) (hlow : (m : ℚ) - 1 / 2 ≤ num / den)
    (hhigh : (num : ℚ) / den ≤ m + 1 / 2)
    (heven : m % 2 = 1 → (m : ℚ) - 1 / 2 < num / den ∧ (num : ℚ) / den < m + 1 / 2) :
    roundQuotient num den = m := by
  have hpos : (0 : ℚ) < den := by exact_mod_cast hden
  have hlow' : 2 * m * den ≤ 2 * num + den := by
    rw [le_div_iff₀ hpos] at hlow
    have : (2 * m * den : ℚ) ≤ 2 * num + den := by linarith
    exact_mod_cast this
  have hhigh' : 2 * num ≤ 2 * m * den + den := by
    rw [div_le_iff₀ hpos] at hhigh
    have : (2 * num : ℚ) ≤ 2 * m * den + den := by linarith
    exact_mod_cast this
  have heven' : m % 2 = 1 → 2 * m * den < 2 * num + den ∧ 2 * num < 2 * m * den + den := by
    intro hm
    obtain ⟨h1, h2⟩ := heven hm
    rw [lt_div_iff₀ hpos] at h1
    rw [div_lt_iff₀ hpos] at h2
    have h1 : (2 * m * den : ℚ) < 2 * num + den := by linarith
    have h2 : (2 * num : ℚ) < 2 * m * den + den := by linarith
    exact ⟨by exact_mod_cast h1, by exact_mod_cast h2⟩
  have hdiv := Nat.div_add_mod num den
  have hr := Nat.mod_lt num hden
  rw [roundQuotient]
  generalize num / den = q at hdiv ⊢
  generalize num % den = r at hdiv hr ⊢
  subst hdiv
  obtain rfl | rfl : m = q ∨ m = q + 1 := by
    have h1 : m < q + 2 := by
      by_contra h
      have := Nat.mul_le_mul_right den (Nat.not_lt.mp h)
      nlinarith
    have h2 : q < m + 1 := by
      by_contra h
      have := Nat.mul_le_mul_right den (Nat.not_lt.mp h)
      nlinarith
    omega
  · have hle : 2 * r ≤ den := by nlinarith
    have hlt : m % 2 = 1 → 2 * r < den := fun hm => by nlinarith [(heven' hm).2]
    rw [if_neg]
    simp only [Bool.or_eq_true, Bool.and_eq_true, decide_eq_true_eq]
    omega
  · have hle : den ≤ 2 * r := by nlinarith
    have hlt : (q + 1) % 2 = 1 → den < 2 * r := fun hm => by nlinarith [(heven' hm).1]
    rw [if_pos]
    simp only [Bool.or_eq_true, Bool.and_eq_true, decide_eq_true_eq]
    omega

/-- A quotient divided by a power, whatever the sign of the exponent. -/
lemma ratio_mul_pow {b : ℕ} (hb : b ≠ 0) (num den : ℕ) (e : ℤ) :
    ((num * b ^ (-e).toNat : ℕ) : ℚ) / (den * b ^ e.toNat : ℕ) = num / den / (b : ℚ) ^ e := by
  have hb' : (b : ℚ) ≠ 0 := by exact_mod_cast hb
  rcases Int.le_total 0 e with h | h
  · obtain ⟨n, rfl⟩ := Int.eq_ofNat_of_zero_le h
    simp [div_div]
  · obtain ⟨n, hn⟩ := Int.eq_ofNat_of_zero_le (Int.neg_nonneg_of_nonpos h)
    obtain rfl : e = -n := by omega
    simp [mul_div_right_comm]

namespace BinaryFormat

variable {f : BinaryFormat} {num den bits : ℕ}

lemma le_of_zpow_le {x : ℚ} {j k : ℤ} (hj : (2 : ℚ) ^ j ≤ x) (hk : x < 2 ^ (k + 1)) : j ≤ k :=
  Int.lt_add_one_iff.mp ((zpow_lt_zpow_iff_right₀ one_lt_two).mp (hj.trans_lt hk))

/-- The exponent of a quotient is that of its leading bit. -/
lemma exponentOf_spec (f : BinaryFormat) (hnum : num ≠ 0) (hden : 0 < den) :
    (2 : ℚ) ^ (f.exponentOf num den + (f.precision - 1 : ℕ)) ≤ num / den ∧
      (num : ℚ) / den < 2 ^ (f.exponentOf num den + (f.precision - 1 : ℕ) + 1) := by
  have hpos : (0 : ℚ) < den := by exact_mod_cast hden
  -- the quotient lies within a factor of two of that of the leading bits
  have hnumlow : (2 : ℚ) ^ num.log2 ≤ num := by exact_mod_cast Nat.log2_self_le hnum
  have hnumhigh : (num : ℚ) < 2 ^ (num.log2 + 1) := by exact_mod_cast Nat.lt_log2_self
  have hdenlow : (2 : ℚ) ^ den.log2 ≤ den := by exact_mod_cast Nat.log2_self_le hden.ne'
  have hdenhigh : (den : ℚ) < 2 ^ (den.log2 + 1) := by exact_mod_cast Nat.lt_log2_self
  set l : ℤ := num.log2 - den.log2 with hl
  have hupper : (num : ℚ) / den < 2 ^ (l + 1) := by
    rw [div_lt_iff₀ hpos, show l + 1 = ((num.log2 + 1 : ℕ) : ℤ) - den.log2 by omega,
      zpow_sub₀ two_ne_zero, zpow_natCast, zpow_natCast, div_mul_eq_mul_div, lt_div_iff₀ (by positivity)]
    exact mul_lt_mul hnumhigh hdenlow (by positivity) (by positivity)
  have hlower : (2 : ℚ) ^ (l - 1) < num / den := by
    rw [lt_div_iff₀ hpos, show l - 1 = (num.log2 : ℤ) - (den.log2 + 1 : ℕ) by omega,
      zpow_sub₀ two_ne_zero, zpow_natCast, zpow_natCast, div_mul_eq_mul_div, div_lt_iff₀ (by positivity)]
    exact mul_lt_mul' hnumlow hdenhigh hpos.le (by positivity)
  have hcond : den * 2 ^ l.toNat ≤ num * 2 ^ (-l).toNat ↔ (2 : ℚ) ^ l ≤ num / den := by
    rw [← Nat.cast_le (α := ℚ), ← one_le_div (by positivity), ratio_mul_pow two_ne_zero, Nat.cast_two,
      one_le_div (by positivity)]
  rw [exponentOf]
  simp only [← hl, hcond, sub_add_cancel]
  split
  next h => exact ⟨h, hupper⟩
  next h => exact ⟨hlower.le, by simpa using h⟩

/-- A significand has its leading bit unless the exponent is the least. -/
lemma significand_spec (f : BinaryFormat) (bits : ℕ) : ∃ n m : ℕ,
    f.significand bits = (m, f.minExponent + n) ∧ bits = n * f.leading + m ∧
      m < 2 * f.leading ∧ (n ≠ 0 → f.leading ≤ m) := by
  have hpos : 0 < f.leading := Nat.two_pow_pos _
  rw [significand]
  split
  next h => exact ⟨0, bits, by simp, by simp, by omega, by simp⟩
  next h =>
    obtain ⟨n, hn⟩ := Nat.exists_eq_succ_of_ne_zero
      (Nat.div_pos (Nat.not_lt.mp h) hpos).ne'
    have hmod := Nat.mod_lt bits hpos
    have hdiv := Nat.div_add_mod bits f.leading
    refine ⟨n, bits % f.leading + f.leading, ?_, ?_, by omega, by omega⟩
    · rw [hn]
      simp
      omega
    · rw [hn] at hdiv
      rw [← hdiv]
      simp
      ring

/-- The significand of a positive magnitude is positive. -/
lemma significand_pos (hbits : 0 < bits) : 0 < (f.significand bits).1 := by
  obtain ⟨n, m, hsig, hsum, -, hlead⟩ := f.significand_spec bits
  have hone : 0 < f.leading := Nat.two_pow_pos _
  rw [hsig]
  rcases eq_or_ne n 0 with rfl | hn
  · simpa [hsum] using hbits
  · exact hone.trans_le (hlead hn)

/-- How far below a magnitude numbers are rounded to it, in steps. -/
def gapBelow (f : BinaryFormat) (bits : ℕ) : ℚ :=
  if (f.significand bits).1 = f.leading ∧ f.leading < bits then 1 / 4 else 1 / 2

/-- The number is rounded to the magnitude: it is no further off than half a step, or a quarter where
the steps get smaller below. -/
structure Within (f : BinaryFormat) (bits : ℕ) (x : ℚ) : Prop where
  low : (f.significand bits).1 - f.gapBelow bits ≤ x / 2 ^ (f.significand bits).2
  high : x / 2 ^ (f.significand bits).2 ≤ (f.significand bits).1 + 1 / 2
  /-- The ends are reached only if the significand is even. -/
  inside : (f.significand bits).1 % 2 = 1 →
    (f.significand bits).1 - f.gapBelow bits < x / 2 ^ (f.significand bits).2 ∧
      x / 2 ^ (f.significand bits).2 < (f.significand bits).1 + 1 / 2

lemma gapBelow_le (f : BinaryFormat) (bits : ℕ) : f.gapBelow bits ≤ 1 / 2 := by
  rw [gapBelow]
  split <;> norm_num

/-- A number that is rounded to a positive magnitude is at least half of the least one. -/
lemma Within.zpow_le {x : ℚ} (h : f.Within bits x) (hbits : 0 < bits) :
    (2 : ℚ) ^ (f.minExponent - 1) ≤ x := by
  obtain ⟨n, m, hsig, -⟩ := f.significand_spec bits
  have hpos := significand_pos (f := f) hbits
  have hlow := h.low
  have hgap := f.gapBelow_le bits
  rw [hsig] at hpos hlow
  have hm : (1 : ℚ) ≤ m := by exact_mod_cast hpos
  have hhalf : (1 / 2 : ℚ) ≤ x / 2 ^ (f.minExponent + n) := by linarith
  rw [le_div_iff₀ (by positivity)] at hhalf
  have hmono : (2 : ℚ) ^ f.minExponent ≤ 2 ^ (f.minExponent + n) :=
    zpow_le_zpow_right₀ one_le_two (by omega)
  rw [zpow_sub_one₀ two_ne_zero]
  linarith

/-- What is rounded to a significand at an exponent has the bits of the two. -/
lemma ofRatio_of_exponent {m n : ℕ} (hnum : num ≠ 0) (hden : 0 < den)
    (he : max f.minExponent (f.exponentOf num den) = f.minExponent + n)
    (hlow : (m : ℚ) - 1 / 2 ≤ num / den / 2 ^ (f.minExponent + n))
    (hhigh : (num : ℚ) / den / 2 ^ (f.minExponent + n) ≤ m + 1 / 2)
    (hodd : m % 2 = 1 → (m : ℚ) - 1 / 2 < num / den / 2 ^ (f.minExponent + n) ∧
      (num : ℚ) / den / 2 ^ (f.minExponent + n) < m + 1 / 2) :
    f.ofRatio num den = min f.infinity (n * f.leading + m) := by
  have hratio := ratio_mul_pow two_ne_zero num den (f.minExponent + n)
  rw [Nat.cast_two] at hratio
  rw [← hratio] at hlow hhigh hodd
  rw [ofRatio, if_neg hnum]
  simp only [he, roundQuotient_eq (Nat.mul_pos hden (Nat.two_pow_pos _)) hlow hhigh hodd]
  simp

lemma leading_mul_zpow (f : BinaryFormat) (k : ℤ) :
    (f.leading : ℚ) * 2 ^ k = 2 ^ (k + (f.precision - 1 : ℕ)) := by
  rw [zpow_add₀ two_ne_zero, zpow_natCast, leading]
  push_cast
  ring

/-- Just below a power of two the steps are half as great, and a number a quarter of a step away is
rounded to that power. -/
lemma ofRatio_of_lt_leading {n : ℕ} (hnum : num ≠ 0) (hden : 0 < den)
    (hlow : (f.leading : ℚ) - 1 / 4 ≤ num / den / 2 ^ (f.minExponent + (n + 1 : ℕ)))
    (hhigh : (num : ℚ) / den / 2 ^ (f.minExponent + (n + 1 : ℕ)) < f.leading) :
    f.ofRatio num den = min f.infinity (n * f.leading + 2 * f.leading) := by
  obtain ⟨hlog, hlog'⟩ := f.exponentOf_spec hnum hden
  have hone : (1 : ℚ) ≤ f.leading := by exact_mod_cast Nat.two_pow_pos _
  have hscale : (0 : ℚ) < 2 ^ (f.minExponent + n) := by positivity
  have hstep : f.minExponent + ((n + 1 : ℕ) : ℤ) = f.minExponent + n + 1 := by
    push_cast
    ring
  have hhalf : (num : ℚ) / den / 2 ^ (f.minExponent + (n + 1 : ℕ))
      = num / den / 2 ^ (f.minExponent + n) / 2 := by
    rw [hstep, zpow_add_one₀ two_ne_zero, ← div_div]
  rw [hhalf] at hlow hhigh
  have hmax : max f.minExponent (f.exponentOf num den) = f.minExponent + n := by
    have hge : (2 : ℚ) ^ (f.minExponent + n + (f.precision - 1 : ℕ)) ≤ num / den := by
      rw [← f.leading_mul_zpow, ← le_div_iff₀ hscale]
      linarith
    have hlt : (num : ℚ) / den < 2 ^ (f.minExponent + n + (f.precision - 1 : ℕ) + 1) := by
      rw [zpow_add_one₀ two_ne_zero, ← f.leading_mul_zpow]
      have : (num : ℚ) / den / 2 ^ (f.minExponent + n) < 2 * f.leading := by linarith
      rw [div_lt_iff₀ hscale] at this
      linarith
    have := le_of_zpow_le hlog hlt
    have := le_of_zpow_le hge hlog'
    omega
  refine ofRatio_of_exponent hnum hden hmax ?_ ?_ (by omega) <;> push_cast <;> linarith

/-- A number no further than half a step above a magnitude has the exponent of the magnitude, unless it
lies below all that do. -/
lemma max_exponentOf_eq {m n : ℕ} (hnum : num ≠ 0) (hden : 0 < den) (hlt : m < 2 * f.leading)
    (high : (num : ℚ) / den / 2 ^ (f.minExponent + n) ≤ m + 1 / 2)
    (hge : n = 0 ∨ (f.leading : ℚ) ≤ num / den / 2 ^ (f.minExponent + n)) :
    max f.minExponent (f.exponentOf num den) = f.minExponent + n := by
  have hscale : (0 : ℚ) < 2 ^ (f.minExponent + n) := by positivity
  obtain ⟨hlog, hlog'⟩ := f.exponentOf_spec hnum hden
  have hupper : (num : ℚ) / den < 2 ^ (f.minExponent + n + (f.precision - 1 : ℕ) + 1) := by
    have hlt : (m : ℚ) + 1 ≤ 2 * f.leading := by exact_mod_cast hlt
    rw [zpow_add_one₀ two_ne_zero, ← f.leading_mul_zpow]
    rw [div_le_iff₀ hscale] at high
    nlinarith
  have hle := le_of_zpow_le hlog hupper
  rcases hge with rfl | hge
  · simp
    omega
  · have hge : (2 : ℚ) ^ (f.minExponent + n + (f.precision - 1 : ℕ)) ≤ num / den := by
      rwa [← f.leading_mul_zpow, ← le_div_iff₀ hscale]
    have := le_of_zpow_le hge hlog'
    omega

/-- **A number within half a step of a finite magnitude is rounded to it.** -/
theorem ofRatio_eq (hden : 0 < den) (hbits : 0 < bits) (hfin : bits < f.infinity)
    (h : f.Within bits (num / den)) : f.ofRatio num den = bits := by
  obtain ⟨n, m, hsig, hsum, hlt, hlead⟩ := f.significand_spec bits
  obtain ⟨low, high, inside⟩ := h
  have hgap := f.gapBelow_le bits
  rw [hsig] at low high inside
  simp only at low high inside
  have hpos := significand_pos (f := f) hbits
  rw [hsig] at hpos
  have hm : (1 : ℚ) ≤ m := by exact_mod_cast hpos
  have hnum : num ≠ 0 := by
    rintro rfl
    simp only [Nat.cast_zero, zero_div] at low
    linarith
  by_cases hcase : n ≠ 0 ∧ (num : ℚ) / den / 2 ^ (f.minExponent + n) < f.leading
  · -- only the least significand has numbers below the power of two rounded to it
    obtain ⟨hn, hbelow⟩ := hcase
    obtain ⟨n, rfl⟩ := Nat.exists_eq_add_one_of_ne_zero hn
    obtain rfl : m = f.leading := by
      have hlt : (m : ℚ) < (f.leading + 1 : ℕ) := by
        push_cast
        linarith
      exact le_antisymm (Nat.lt_succ_iff.mp (by exact_mod_cast hlt)) (hlead hn)
    have hgap : f.gapBelow bits = 1 / 4 := by
      have hlt : f.leading < bits := by nlinarith
      rw [gapBelow, hsig, if_pos ⟨rfl, hlt⟩]
    rw [ofRatio_of_lt_leading hnum hden (hgap ▸ low) hbelow, min_eq_right] <;> linarith
  · have hge : n = 0 ∨ (f.leading : ℚ) ≤ num / den / 2 ^ (f.minExponent + n) := by
      rcases not_and_or.mp hcase with hn | hge
      · exact .inl (not_not.mp hn)
      · exact .inr (not_lt.mp hge)
    have hmax := max_exponentOf_eq hnum hden hlt high hge
    rw [ofRatio_of_exponent hnum hden hmax (by linarith) high, ← hsum, min_eq_right hfin.le]
    intro hodd
    obtain ⟨h1, h2⟩ := inside hodd
    exact ⟨by linarith, h2⟩

end BinaryFormat

end Spirv
