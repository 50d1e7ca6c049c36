import Mathlib
import Spirv.Number.Digits

/-!
Digits and their number. Zeros in front do not count, and the digits of a number in a base up to sixteen
have this number. What is made of digits is read by it, and in base ten is no numeral in base sixteen.
-/

namespace Spirv.Digits

variable {b n : ℕ}

lemma digitValue_digitChar {d : ℕ} (h : d < 16) : digitValue d.digitChar = d := by
  interval_cases d <;> rfl

lemma ofDigits_append (b : ℕ) (l m : List Char) :
    ofDigits b (l ++ m) = ofDigits b l * b ^ m.length + ofDigits b m := by
  induction m using List.reverseRecOn with
  | nil => simp [ofDigits_eq_foldl]
  | append_singleton m c ih =>
    have hl : ofDigits b (l ++ (m ++ [c])) = ofDigits b (l ++ m) * b + digitValue c := by
      simp [ofDigits_eq_foldl]
    have hm : ofDigits b (m ++ [c]) = ofDigits b m * b + digitValue c := by
      simp [ofDigits_eq_foldl]
    rw [hl, ih, hm, List.length_append, List.length_singleton, pow_succ]
    ring

lemma ofDigits_replicate_zero (b n : ℕ) : ofDigits b (List.replicate n '0') = 0 := by
  induction n with
  | zero => simp [ofDigits_eq_foldl]
  | succ n ih =>
    have hzero : ofDigits b ['0'] = 0 := by simp [ofDigits_eq_foldl, digitValue]
    rw [List.replicate_succ', ofDigits_append, ih, hzero]
    simp

/-- The digits of a number spell it. -/
lemma ofDigits_toDigits (hb : 1 < b) (hb' : b ≤ 16) (n : ℕ) : ofDigits b (Nat.toDigits b n) = n := by
  induction n using Nat.base_induction b hb with
  | single m hm =>
    rw [Nat.toDigits_of_lt_base hm, ofDigits_eq_foldl]
    simp [digitValue_digitChar (hm.trans_le hb')]
  | digit m k hk hm ih =>
    rw [← Nat.toDigits_append_toDigits hb hm hk, Nat.toDigits_of_lt_base hk, ofDigits_append, ih]
    simp [ofDigits_eq_foldl, digitValue_digitChar (hk.trans_le hb'), mul_comm]

lemma isDigit_of_mem_toDigits {c : Char} (h : c ∈ Nat.toDigits 10 n) : c.isDigit = true :=
  Nat.isDigit_of_mem_toDigits (by omega) le_rfl h

lemma read?_of_forall {isDigit : Char → Bool} {text : List Char} (hne : text ≠ [])
    (h : ∀ c ∈ text, isDigit c = true) : read? isDigit b text = some (ofDigits b text) := by
  have hall : text.all isDigit = true := List.all_eq_true.mpr h
  simp [read?, hne, hall]

/-- A decimal numeral does not start like a hexadecimal one. -/
lemma hex?_of_isDigit {text : List Char} (h : ∀ c ∈ text, c.isDigit = true) : hex? text = none := by
  unfold hex?
  split
  next x digits =>
    have hx : x.isDigit = true := h x (by simp)
    have hne : x ≠ 'x' ∧ x ≠ 'X' := by
      refine ⟨?_, ?_⟩ <;> rintro rfl <;> simp at hx
    simp [hne]
  next => rfl

end Spirv.Digits
