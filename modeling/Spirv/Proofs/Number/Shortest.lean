import Mathlib
import Spirv.Number.Shortest
import Spirv.Proofs.Number.Rounding

/-!
The shortest decimal of a magnitude is rounded to it.

Whatever the number of digits, a decimal is taken only if it lies within half a step of the magnitude.
With seventeen digits one does, since decimals of so many digits lie closer to one another than the
magnitudes of the formats.
-/

namespace Spirv.Shortest

variable {num den low high : ℕ} {closed : Bool} {n d : ℕ} {k : ℤ}

lemma lt_pow_digitCount (n : ℕ) : n < 10 ^ digitCount n :=
  (Nat.length_toDigits_le_iff (by omega) Nat.length_toDigits_pos).mp le_rfl

lemma pow_le_of_pos (hn : 0 < n) : 10 ^ (digitCount n - 1) ≤ n := by
  rcases Nat.eq_zero_or_pos (digitCount n - 1) with h | h
  · rw [h]
    exact hn
  · have hnot := (Nat.length_toDigits_le_iff (b := 10) (n := n) (by omega) h).not
    rw [Nat.not_le, Nat.not_lt] at hnot
    exact hnot.mp (show digitCount n - 1 < digitCount n by omega)

/-- The exponent is not too great. -/
lemma zpow_decimalExponent_le (hnum : 0 < num) (hden : 0 < den) :
    (10 : ℚ) ^ (decimalExponent num den - 1) ≤ num / den := by
  have hnum' : (0 : ℚ) < num := by exact_mod_cast hnum
  have hden' : (0 : ℚ) < den := by exact_mod_cast hden
  rw [decimalExponent]
  split
  next h =>
    have hq : 0 < num / den := Nat.div_pos h hden
    have hpos : 0 < digitCount (num / den) := Nat.length_toDigits_pos
    have hle : ((10 ^ (digitCount (num / den) - 1) : ℕ) : ℚ) ≤ (num / den : ℕ) := by
      exact_mod_cast pow_le_of_pos hq
    rw [show ((digitCount (num / den) : ℕ) : ℤ) - 1 = ((digitCount (num / den) - 1 : ℕ) : ℤ) by omega,
      zpow_natCast]
    push_cast at hle
    exact hle.trans Nat.cast_div_le
  next h =>
    have hlt : den < 10 ^ digitCount (den / num) * num :=
      (Nat.div_lt_iff_lt_mul hnum).mp (lt_pow_digitCount _)
    have hlt' : (den : ℚ) < 10 ^ digitCount (den / num) * num := by exact_mod_cast hlt
    rw [show (1 : ℤ) - digitCount (den / num) - 1 = -(digitCount (den / num) : ℤ) by ring, zpow_neg,
      zpow_natCast, le_div_iff₀ hden', inv_mul_le_iff₀ (by positivity)]
    exact hlt'.le

/-- Quotients and decimals are compared as whole numbers. -/
lemma scaled_le_iff (hden : 0 < den) (a c : ℕ) (k : ℤ) :
    a * 10 ^ (-k).toNat ≤ c * (den * 10 ^ k.toNat) ↔ (a : ℚ) / den ≤ c * 10 ^ k := by
  have hratio := ratio_mul_pow (b := 10) (by omega) a den k
  have hunit : (0 : ℚ) < (den * 10 ^ k.toNat : ℕ) := by exact_mod_cast Nat.mul_pos hden (by positivity)
  rw [← div_le_iff₀ (by positivity), show (10 : ℚ) = (10 : ℕ) by rfl, ← hratio, div_le_iff₀ hunit]
  exact_mod_cast Iff.rfl

lemma le_scaled_iff (hden : 0 < den) (a c : ℕ) (k : ℤ) :
    c * (den * 10 ^ k.toNat) ≤ a * 10 ^ (-k).toNat ↔ (c * 10 ^ k : ℚ) ≤ a / den := by
  have hratio := ratio_mul_pow (b := 10) (by omega) a den k
  have hunit : (0 : ℚ) < (den * 10 ^ k.toNat : ℕ) := by exact_mod_cast Nat.mul_pos hden (by positivity)
  rw [← le_div_iff₀ (by positivity), show (10 : ℚ) = (10 : ℕ) by rfl, ← hratio, le_div_iff₀ hunit]
  exact_mod_cast Iff.rfl

lemma scaled_lt_iff (hden : 0 < den) (a c : ℕ) (k : ℤ) :
    a * 10 ^ (-k).toNat < c * (den * 10 ^ k.toNat) ↔ (a : ℚ) / den < c * 10 ^ k := by
  rw [← not_le, ← not_le, le_scaled_iff hden]

lemma lt_scaled_iff (hden : 0 < den) (a c : ℕ) (k : ℤ) :
    c * (den * 10 ^ k.toNat) < a * 10 ^ (-k).toNat ↔ (c * 10 ^ k : ℚ) < a / den := by
  rw [← not_le, ← not_le, scaled_le_iff hden]

/-- The decimal lies between the bounds, and is one of them only if `closed` holds. -/
def Between (den low high : ℕ) (closed : Bool) (x : ℚ) : Prop :=
  (low : ℚ) / den ≤ x ∧ x ≤ high / den ∧
    (closed = false → (low : ℚ) / den < x ∧ x < high / den)

/-- Under the magnitude only the lower bound counts. -/
lemma between_iff_of_le {q x : ℚ} (hx : x ≤ q) (hq : q < high / den) :
    Between den low high closed x ↔
      if closed then (low : ℚ) / den ≤ x else (low : ℚ) / den < x := by
  cases closed
  · exact ⟨fun h => (h.2.2 rfl).1, fun h => ⟨h.le, by linarith, fun _ => ⟨h, by linarith⟩⟩⟩
  · exact ⟨fun h => h.1, fun h => ⟨h, by linarith, by simp⟩⟩

/-- Over the magnitude only the upper bound counts. -/
lemma between_iff_of_ge {q x : ℚ} (hx : q ≤ x) (hq : (low : ℚ) / den < q) :
    Between den low high closed x ↔
      if closed then x ≤ high / den else x < high / den := by
  cases closed
  · exact ⟨fun h => (h.2.2 rfl).2, fun h => ⟨by linarith, h.le, fun _ => ⟨by linarith, h⟩⟩⟩
  · exact ⟨fun h => h.2.1, fun h => ⟨by linarith, h, by simp⟩⟩

/-- Of two numbers that lie closer to one another than the bounds, on either side of the magnitude, one
lies between the bounds. -/
lemma between_or_between {q x y : ℚ} (hx : x ≤ q) (hy : q ≤ y) (hlow : (low : ℚ) / den < q)
    (hhigh : q < high / den) (hgap : y - x < high / den - low / den) :
    Between den low high closed x ∨ Between den low high closed y := by
  rw [between_iff_of_le hx hhigh, between_iff_of_ge hy hlow]
  cases closed
  · rcases lt_or_ge ((low : ℚ) / den) x with h | h
    · exact .inl h
    · exact .inr (show y < high / den by linarith)
  · rcases le_or_gt ((low : ℚ) / den) x with h | h
    · exact .inl h
    · exact .inr (show y ≤ high / den by linarith)

/-- A decimal is taken if it lies between the bounds, and one of the two next to the magnitude is. -/
lemma ofDigits?_cases (closed : Bool) (hden : 0 < den) (hlow : low < num) (hhigh : num < high)
    (n : ℕ) :
    (∀ d k, ofDigits? num den low high closed n = some (d, k) →
      Between den low high closed (d * 10 ^ k)) ∧
      ((10 : ℚ) ^ (decimalExponent num den - n) < high / den - low / den →
        (ofDigits? num den low high closed n).isSome) := by
  have hpos : (0 : ℚ) < den := by exact_mod_cast hden
  have hlow' : (low : ℚ) / den < num / den := div_lt_div_of_pos_right (by exact_mod_cast hlow) hpos
  have hhigh' : (num : ℚ) / den < high / den := div_lt_div_of_pos_right (by exact_mod_cast hhigh) hpos
  simp only [ofDigits?]
  generalize decimalExponent num den - (n : ℤ) = k
  have hunit : 0 < den * 10 ^ k.toNat := by positivity
  -- the decimal next below the magnitude
  generalize hd : num * 10 ^ (-k).toNat / (den * 10 ^ k.toNat) = d
  have hle : (d * 10 ^ k : ℚ) ≤ num / den := by
    rw [← le_scaled_iff hden, ← hd]
    exact Nat.div_mul_le_self _ _
  have hlt : (num : ℚ) / den < (d + 1 : ℕ) * 10 ^ k := by
    rw [← scaled_lt_iff hden, ← Nat.div_lt_iff_lt_mul hunit, hd]
    exact Nat.lt_succ_self d
  generalize hbelow : (if closed = true then decide (low * 10 ^ (-k).toNat ≤ d * (den * 10 ^ k.toNat))
    else decide (low * 10 ^ (-k).toNat < d * (den * 10 ^ k.toNat))) = below
  generalize habove : (if closed = true then
      decide ((d + 1) * (den * 10 ^ k.toNat) ≤ high * 10 ^ (-k).toNat)
    else decide ((d + 1) * (den * 10 ^ k.toNat) < high * 10 ^ (-k).toNat)) = above
  have hb : below = true ↔ Between den low high closed (d * 10 ^ k) := by
    rw [between_iff_of_le hle hhigh', ← hbelow, ← scaled_le_iff hden, ← scaled_lt_iff hden]
    cases closed <;> simp
  have ha : above = true ↔ Between den low high closed ((d + 1 : ℕ) * 10 ^ k) := by
    rw [between_iff_of_ge hlt.le hlow', ← habove, ← le_scaled_iff hden, ← lt_scaled_iff hden]
    cases closed <;> simp
  refine ⟨fun d' k' h => ?_, fun hgap => ?_⟩
  · split at h
    next hcond =>
      obtain ⟨rfl, rfl⟩ := by simpa using h
      simp only [Bool.and_eq_true] at hcond
      exact hb.mp hcond.1
    next =>
    split at h
    next hcond =>
      obtain ⟨rfl, rfl⟩ := by simpa using h
      exact ha.mp hcond
    next => simp at h
  · -- the two decimals are one step apart
    have hor : below = true ∨ above = true := by
      rw [hb, ha]
      refine between_or_between hle hlt.le hlow' hhigh' ?_
      push_cast
      linarith
    split
    · rfl
    next hcond =>
      have : above = true := by
        rcases hor with h | h
        · simp_all
        · exact h
      simp [this]

open BinaryFormat

variable {f : BinaryFormat} {bits m g : ℕ} {e : ℤ}

/-- Quarters of a step. -/
lemma quarters_div (a : ℕ) (e : ℤ) :
    ((a * 2 ^ (e - 2).toNat : ℕ) : ℚ) / (2 ^ (2 - e).toNat : ℕ) = a / 4 * 2 ^ e := by
  have h := ratio_mul_pow two_ne_zero a 1 (2 - e)
  rw [neg_sub, one_mul] at h
  rw [h, Nat.cast_one, div_one, Nat.cast_two, zpow_sub₀ two_ne_zero]
  field_simp
  norm_num

/-- What is between the bounds is rounded to the magnitude. -/
lemma within_of_between {x : ℚ} (hsig : f.significand bits = (m, e))
    (hg : f.gapBelow bits = g / 4) (hgm : g ≤ 4 * m)
    (h : Between (2 ^ (2 - e).toNat) ((4 * m - g) * 2 ^ (e - 2).toNat) ((4 * m + 2) * 2 ^ (e - 2).toNat)
      (decide (m % 2 = 0)) x) : f.Within bits x := by
  have hscale : (0 : ℚ) < 2 ^ e := by positivity
  rw [Between, quarters_div, quarters_div, Nat.cast_sub hgm] at h
  push_cast at h
  obtain ⟨hlow, hhigh, hinside⟩ := h
  refine ⟨?_, ?_, fun hodd => ?_⟩
  · rw [hsig, hg, le_div_iff₀ hscale]
    linarith
  · rw [hsig, div_le_iff₀ hscale]
    linarith
  · rw [hsig] at hodd
    obtain ⟨h1, h2⟩ := hinside (by simpa using hodd)
    rw [hsig, hg, lt_div_iff₀ hscale, div_lt_iff₀ hscale]
    constructor <;> linarith

/-- The step below the magnitude is a quarter or a half, and a quarter only at the least number with all
digits. -/
lemma gapBelow_quarters (hsig : f.significand bits = (m, e)) :
    ∃ g : ℕ, (if m = f.leading && decide (f.leading < bits) then 1 else 2) = g ∧
      f.gapBelow bits = g / 4 ∧ (g = 1 ∧ m = f.leading ∨ g = 2) := by
  by_cases h : m = f.leading ∧ f.leading < bits
  · exact ⟨1, by simp [h], by simp [gapBelow, hsig, h], .inl ⟨rfl, h.1⟩⟩
  · refine ⟨2, ?_, ?_, .inr rfl⟩
    · simpa using h
    · rw [gapBelow, hsig, if_neg h]
      norm_num

/-- Decimals of seventeen digits lie closer to one another than the bounds. -/
lemma zpow_lt_gap (hp : f.precision ≤ 53) (hm : 0 < m) (hlt : m < 2 * f.leading)
    (hg : g = 1 ∧ m = f.leading ∨ g = 2) :
    (10 : ℚ) ^ (decimalExponent (4 * m * 2 ^ (e - 2).toNat) (2 ^ (2 - e).toNat) - (17 : ℕ)) <
      ((4 * m + 2) * 2 ^ (e - 2).toNat : ℕ) / (2 ^ (2 - e).toNat : ℕ) -
        ((4 * m - g) * 2 ^ (e - 2).toNat : ℕ) / (2 ^ (2 - e).toNat : ℕ) := by
  have hexp : (10 : ℚ) ^ (decimalExponent (4 * m * 2 ^ (e - 2).toNat) (2 ^ (2 - e).toNat) - 1) ≤
      (4 * m * 2 ^ (e - 2).toNat : ℕ) / (2 ^ (2 - e).toNat : ℕ) :=
    zpow_decimalExponent_le (by positivity) (by positivity)
  generalize decimalExponent _ _ = k at hexp ⊢
  have hten : (10 : ℚ) ^ (k - (17 : ℕ)) = 10 ^ (k - 1) / 10 ^ 16 := by
    rw [show k - ((17 : ℕ) : ℤ) = k - 1 - (16 : ℕ) by push_cast; ring, zpow_sub₀ (by norm_num),
      zpow_natCast]
  have hscale : (0 : ℚ) < 2 ^ e := by positivity
  have hleading : (f.leading : ℚ) ≤ 2 ^ 52 := by
    exact_mod_cast (Nat.pow_le_pow_right (by omega) (by omega) : 2 ^ (f.precision - 1) ≤ 2 ^ 52)
  have hlt' : (m : ℚ) < 2 * f.leading := by exact_mod_cast hlt
  have hsmall : (m : ℚ) < (2 + g) / 4 * 10 ^ 16 := by
    rcases hg with ⟨rfl, rfl⟩ | rfl
    · push_cast
      linarith
    · push_cast
      linarith
  rw [quarters_div] at hexp
  rw [hten, quarters_div, quarters_div, Nat.cast_sub (by omega)]
  push_cast at hexp ⊢
  calc (10 : ℚ) ^ (k - 1) / 10 ^ 16
      ≤ (m : ℚ) * 2 ^ e / 10 ^ 16 := by gcongr; linarith
    _ < (2 + g : ℚ) / 4 * 10 ^ 16 * 2 ^ e / 10 ^ 16 := by gcongr
    _ = (4 * m + 2 : ℚ) / 4 * 2 ^ e - (4 * m - g) / 4 * 2 ^ e := by ring

/-- **The shortest decimal of a magnitude is rounded to it.** -/
theorem within_ofBits (hp : f.precision ≤ 53) (hbits : 0 < bits) :
    f.Within bits ((ofBits f bits).1 * 10 ^ (ofBits f bits).2) := by
  have hpos := significand_pos (f := f) hbits
  have hlt : (f.significand bits).1 < 2 * f.leading := by
    obtain ⟨n, m, hsig, -, hlt, -⟩ := f.significand_spec bits
    rwa [hsig]
  obtain ⟨m, e, hsig⟩ : ∃ m e, f.significand bits = (m, e) := ⟨_, _, rfl⟩
  obtain ⟨g, hg, hgap, hsmall⟩ := gapBelow_quarters hsig
  rw [ofBits, hsig]
  simp only [hg]
  rw [hsig] at hpos hlt
  simp only at hpos hlt
  have hstep : 0 < 2 ^ (e - 2).toNat := Nat.two_pow_pos _
  have hden : 0 < 2 ^ (2 - e).toNat := Nat.two_pow_pos _
  rw [← Nat.sub_mul, ← Nat.add_mul]
  have hlow : (4 * m - g) * 2 ^ (e - 2).toNat < 4 * m * 2 ^ (e - 2).toNat :=
    Nat.mul_lt_mul_of_pos_right (by omega) hstep
  have hhigh : 4 * m * 2 ^ (e - 2).toNat < (4 * m + 2) * 2 ^ (e - 2).toNat :=
    Nat.mul_lt_mul_of_pos_right (by omega) hstep
  have hcases := ofDigits?_cases (decide (m % 2 = 0)) hden hlow hhigh
  obtain ⟨⟨d, k⟩, hdk⟩ : ∃ dk, List.findSome? (fun n => ofDigits? (4 * m * 2 ^ (e - 2).toNat)
      (2 ^ (2 - e).toNat) ((4 * m - g) * 2 ^ (e - 2).toNat) ((4 * m + 2) * 2 ^ (e - 2).toNat)
      (decide (m % 2 = 0)) (n + 1)) (List.range 17) = some dk := by
    rw [← Option.isSome_iff_exists, List.findSome?_isSome_iff]
    exact ⟨16, by simp, (hcases 17).2 (zpow_lt_gap hp hpos hlt hsmall)⟩
  rw [hdk]
  obtain ⟨n, -, hn⟩ := List.exists_of_findSome?_eq_some hdk
  exact within_of_between hsig hgap (by omega) ((hcases (n + 1)).1 d k hn)

end Spirv.Shortest
