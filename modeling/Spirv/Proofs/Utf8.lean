import Mathlib
import Spirv.Text.Utf8

/-!
Decoding the bytes of a text gives the text back.
-/

namespace Spirv.Text.Utf8

variable {m code n : ℕ} {rest : List UInt8}

lemma toNat_ofNat (hm : m < 256) : (UInt8.ofNat m).toNat = m := by
  rw [UInt8.toNat_ofNat']
  exact Nat.mod_eq_of_lt hm

lemma decodeRest_ofNat {lo hi : UInt8} (hm : m < 256) (hlo : lo.toNat ≤ m) (hhi : m ≤ hi.toNat) :
    decodeRest lo hi (n + 1) code (UInt8.ofNat m :: rest)
      = decodeRest 0x80 0xBF n (code * 64 + m % 64) rest := by
  have h : (lo ≤ UInt8.ofNat m && UInt8.ofNat m ≤ hi) = true := by
    simp only [Bool.and_eq_true, decide_eq_true_eq, UInt8.le_iff_toNat_le, toNat_ofNat hm]
    exact ⟨hlo, hhi⟩
  rw [decodeRest, if_pos h, toNat_ofNat hm]

lemma lead?_two (h : 0xC2 ≤ m) (h' : m < 0xE0) :
    lead? (UInt8.ofNat m) = some (1, m % 32, 0x80, 0xBF) := by
  have hm : (UInt8.ofNat m).toNat = m := toNat_ofNat (by omega)
  simp only [lead?, UInt8.lt_iff_toNat_lt, hm, UInt8.reduceToNat]
  rw [if_neg (by omega), if_pos h']

lemma lead?_three (h : 0xE0 ≤ m) (h' : m < 0xF0) :
    lead? (UInt8.ofNat m) = some (2, m % 16, if m = 0xE0 then 0xA0 else 0x80,
      if m = 0xED then 0x9F else 0xBF) := by
  have hm : (UInt8.ofNat m).toNat = m := toNat_ofNat (by omega)
  simp only [lead?, UInt8.lt_iff_toNat_lt, ← UInt8.toNat_inj, hm, UInt8.reduceToNat]
  rw [if_neg (by omega), if_neg (by omega), if_pos h']

lemma lead?_four (h : 0xF0 ≤ m) (h' : m < 0xF5) :
    lead? (UInt8.ofNat m) = some (3, m % 8, if m = 0xF0 then 0x90 else 0x80,
      if m = 0xF4 then 0x8F else 0xBF) := by
  have hm : (UInt8.ofNat m).toNat = m := toNat_ofNat (by omega)
  simp only [lead?, UInt8.lt_iff_toNat_lt, ← UInt8.toNat_inj, hm, UInt8.reduceToNat]
  rw [if_neg (by omega), if_neg (by omega), if_neg (by omega), if_pos h']

lemma decodeChar_ofNat (hm : m < 256) (h : 0x80 ≤ m) {lo hi : UInt8}
    (hl : lead? (UInt8.ofNat m) = some (n, code, lo, hi)) :
    decodeChar (UInt8.ofNat m) rest = decodeRest lo hi n code rest := by
  have hge : ¬ UInt8.ofNat m < 0x80 := by
    rw [UInt8.lt_iff_toNat_lt, toNat_ofNat hm]
    exact Nat.not_lt.mpr h
  rw [decodeChar, if_neg hge, hl]

/-- The bytes of a character are read as the character, whatever follows them. -/
lemma exists_decodeChar (c : Char) (rest : List UInt8) :
    ∃ b bytes, String.utf8EncodeChar c = b :: bytes ∧ decodeChar b (bytes ++ rest) = (c, rest) := by
  have hvalid : c.val.toNat < 0xD800 ∨ 0xDFFF < c.val.toNat ∧ c.val.toNat < 0x110000 := c.valid
  have hc : Char.ofNat c.val.toNat = c := Char.ofNat_toNat c
  generalize hv : c.val.toNat = v at hvalid hc
  unfold String.utf8EncodeChar
  simp only [hv]
  split
  next h =>
    refine ⟨_, [], rfl, ?_⟩
    have hlt : UInt8.ofNat v < 0x80 := by
      rw [UInt8.lt_iff_toNat_lt, toNat_ofNat (by omega)]
      exact Nat.lt_succ_of_le h
    rw [decodeChar, if_pos hlt, toNat_ofNat (by omega), hc]
    rfl
  next h1 =>
  split
  next h2 =>
    refine ⟨_, _, rfl, ?_⟩
    rw [decodeChar_ofNat (by omega) (by omega) (lead?_two (by omega) (by omega))]
    simp only [List.cons_append, List.nil_append]
    rw [decodeRest_ofNat (by omega) (by simp) (by simp; omega), decodeRest]
    rw [← hc]
    congr 2
    omega
  next h2 =>
  split
  next h3 =>
    refine ⟨_, _, rfl, ?_⟩
    rw [decodeChar_ofNat (by omega) (by omega) (lead?_three (by omega) (by omega))]
    simp only [List.cons_append, List.nil_append]
    rw [decodeRest_ofNat (by omega) (by split <;> simp; omega) (by split <;> simp <;> omega),
      decodeRest_ofNat (by omega) (by simp) (by simp; omega), decodeRest]
    rw [← hc]
    congr 2
    omega
  next h3 =>
    refine ⟨_, _, rfl, ?_⟩
    rw [decodeChar_ofNat (by omega) (by omega) (lead?_four (by omega) (by omega))]
    simp only [List.cons_append, List.nil_append]
    rw [decodeRest_ofNat (by omega) (by split <;> simp; omega) (by split <;> simp <;> omega),
      decodeRest_ofNat (by omega) (by simp) (by simp; omega),
      decodeRest_ofNat (by omega) (by simp) (by simp; omega), decodeRest]
    rw [← hc]
    congr 2
    omega

lemma decode_go_encode (acc s : List Char) : decode.go acc (encode s) = acc.reverse ++ s := by
  induction s generalizing acc with
  | nil => simp [encode, decode.go]
  | cons c s ih =>
    obtain ⟨b, bytes, hb, hdecode⟩ := exists_decodeChar c (encode s)
    have hs : encode (c :: s) = b :: (bytes ++ encode s) := by
      rw [encode, List.flatMap_cons, hb]
      rfl
    rw [hs, decode.go, hdecode, ih]
    simp

/-- **Decoding the bytes of a text gives the text back.** -/
theorem decode_encode (s : List Char) : decode (encode s) = s := by
  simpa [decode] using decode_go_encode [] s

/-- Only the character zero has a zero byte. -/
lemma zero_not_mem_encode {s : List Char} (h : '\x00' ∉ s) : (0 : UInt8) ∉ encode s := by
  rw [encode, List.mem_flatMap]
  rintro ⟨c, hc, h0⟩
  have hlist : ∀ l : List ℕ, (∀ m ∈ l, m ≠ 0 ∧ m < 256) → (0 : UInt8) ∉ l.map UInt8.ofNat := by
    intro l hl hmem
    obtain ⟨m, hm, he⟩ := List.mem_map.mp hmem
    have hnat := congrArg UInt8.toNat he
    rw [toNat_ofNat (hl m hm).2] at hnat
    exact (hl m hm).1 hnat
  have hv : c.val.toNat ≠ 0 := fun hv => by
    have hc0 : c = '\x00' := Char.ext (UInt32.toNat_inj.mp hv)
    exact h (hc0 ▸ hc)
  have hlt : c.val.toNat < 0x110000 := by
    have := c.valid
    simp only [UInt32.isValidChar, Nat.isValidChar] at this
    omega
  unfold String.utf8EncodeChar at h0
  generalize c.val.toNat = v at h0 hv hlt
  simp only at h0
  split at h0
  · exact hlist [v] (by simp; omega) h0
  split at h0
  · exact hlist [v / 64 % 0x20 + 0xC0, v % 0x40 + 0x80] (by simp; omega) h0
  split at h0
  · exact hlist [v / 4096 % 0x10 + 0xE0, v / 64 % 0x40 + 0x80, v % 0x40 + 0x80] (by simp; omega) h0
  · exact hlist [v / 262144 % 0x08 + 0xF0, v / 4096 % 0x40 + 0x80, v / 64 % 0x40 + 0x80,
      v % 0x40 + 0x80] (by simp; omega) h0

end Spirv.Text.Utf8
