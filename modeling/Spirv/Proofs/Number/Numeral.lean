import Mathlib
import Spirv.Literal
import Spirv.Proofs.Number.Digits

/-!
Numerals as they are written.

A numeral is a run of digits, letters among them in either case, and may have zeros in front. What
stands before it tells the base: `0x` for sixteen and nothing, or a minus, for ten. In the integer of a
raw word a `0` before it tells base eight. Reading a numeral gives the number that it spells, and
nothing but numerals is read.
-/

namespace Spirv.Digits

variable {b d n : ℕ} {c : Char} {text : List Char} {v : ℤ}

/-- The character is the digit of the value, a letter in either case. -/
def IsDigit (b : ℕ) (c : Char) (d : ℕ) : Prop :=
  d < b ∧ (c = d.digitChar ∨ c = d.digitChar.toUpper)

instance (b : ℕ) (c : Char) (d : ℕ) : Decidable (IsDigit b c d) :=
  inferInstanceAs (Decidable (d < b ∧ (c = d.digitChar ∨ c = d.digitChar.toUpper)))

/-- The digits spell the number, the most significant first. -/
inductive Spells (b : ℕ) : List Char → ℕ → Prop where
  | digit {c : Char} {d : ℕ} (last : IsDigit b c d) : Spells b [c] d
  | more {text : List Char} {c : Char} {n d : ℕ} (front : Spells b text n) (last : IsDigit b c d) :
    Spells b (text ++ [c]) (n * b + d)

/-- Decimal digits that spell the number, behind a minus if it is negative. -/
inductive SpellsInteger : List Char → ℤ → Prop where
  | plain {text : List Char} {n : ℕ} (digits : Spells 10 text n) : SpellsInteger text n
  | minus {text : List Char} {n : ℕ} (digits : Spells 10 text n) (pos : 0 < n) :
    SpellsInteger ('-' :: text) (-n)

/-- `0x` or `0X` and hexadecimal digits that spell the number. -/
inductive SpellsHex : List Char → ℕ → Prop where
  | intro {x : Char} {text : List Char} {n : ℕ} (mark : x = 'x' ∨ x = 'X')
    (digits : Spells 16 text n) : SpellsHex ('0' :: x :: text) n

/-- The number in decimal without zeros in front, in octal behind a `0`, or in hexadecimal. -/
inductive SpellsImmediate : List Char → ℕ → Prop where
  | decimal {text : List Char} {n : ℕ} (digits : Spells 10 text n)
    (lead : text = ['0'] ∨ text.head? ≠ some '0') : SpellsImmediate text n
  | octal {text : List Char} {n : ℕ} (digits : Spells 8 text n) : SpellsImmediate ('0' :: text) n
  | hex {text : List Char} {n : ℕ} (digits : SpellsHex text n) : SpellsImmediate text n

/-! ### Digits -/

namespace IsDigit

lemma digitValue_eq (hb : b ≤ 16) (h : IsDigit b c d) : digitValue c = d := by
  obtain ⟨hlt, hc⟩ := h
  have hd : d < 16 := hlt.trans_le hb
  rcases hc with rfl | rfl
  · exact digitValue_digitChar hd
  · interval_cases d <;> rfl

lemma isDigit (hb : b ≤ 10) (h : IsDigit b c d) : c.isDigit = true := by
  obtain ⟨hlt, hc⟩ := h
  have hd : d < 10 := hlt.trans_le hb
  rcases hc with rfl | rfl <;> interval_cases d <;> rfl

lemma isAlphanum (hb : b ≤ 16) (h : IsDigit b c d) : c.isAlphanum = true := by
  obtain ⟨hlt, hc⟩ := h
  have hd : d < 16 := hlt.trans_le hb
  rcases hc with rfl | rfl <;> interval_cases d <;> rfl

lemma isOctal (h : IsDigit 8 c d) : Digits.isOctal c = true := by
  obtain ⟨hlt, rfl | rfl⟩ := h <;> interval_cases d <;> rfl

lemma isHex (h : IsDigit 16 c d) : Digits.isHex c = true := by
  obtain ⟨hlt, rfl | rfl⟩ := h <;> interval_cases d <;> rfl

/-- A digit is one of the first 128 characters, so its value can be looked at for each of them. -/
lemma of_ascii {p : Char → Bool} (hhex : ∀ {c}, p c = true → Digits.isHex c = true)
    (hascii : ∀ k < 128, p (Char.ofNat k) = true →
      IsDigit b (Char.ofNat k) (digitValue (Char.ofNat k)))
    (h : p c = true) : IsDigit b c (digitValue c) := by
  have hc : c ≤ 'f' := by
    have hhex := hhex h
    simp only [Digits.isHex, Char.isDigit, Bool.or_eq_true, Bool.and_eq_true, decide_eq_true_eq]
      at hhex
    rcases hhex with (⟨-, hc⟩ | ⟨-, hc⟩) | ⟨-, hc⟩
    · exact UInt32.le_trans hc (by decide)
    · exact hc
    · exact UInt32.le_trans hc (by decide)
  have hlt : c.toNat < 128 := (UInt32.le_iff_toNat_le.mp hc).trans_lt (by decide)
  rw [← Char.ofNat_toNat c] at h ⊢
  exact hascii _ hlt h

lemma of_isHex (h : Digits.isHex c = true) : IsDigit 16 c (digitValue c) :=
  of_ascii id (by decide) h

lemma of_isDigit (h : c.isDigit = true) : IsDigit 10 c (digitValue c) :=
  of_ascii (fun h => by simp [Digits.isHex, h]) (by decide) h

lemma of_isOctal (h : Digits.isOctal c = true) : IsDigit 8 c (digitValue c) := by
  refine of_ascii (fun {c} h => ?_) (by decide) h
  simp only [Digits.isOctal, Bool.and_eq_true, decide_eq_true_eq] at h
  have hdigit : c.isDigit = true := by
    simp only [Char.isDigit, Bool.and_eq_true, decide_eq_true_eq]
    exact ⟨h.1, UInt32.le_trans h.2 (by decide)⟩
  simp [Digits.isHex, hdigit]

end IsDigit

namespace Spells

lemma ne_nil (h : Spells b text n) : text ≠ [] := by
  cases h <;> simp

/-- Zeros in front of a numeral do not count. -/
lemma padded (hb : 0 < b) (h : Spells b text n) (k : ℕ) :
    Spells b (List.replicate k '0' ++ text) n := by
  have hzero : ∀ {text n}, Spells b text n → Spells b ('0' :: text) n := by
    intro text n h
    induction h with
    | digit last => simpa using Spells.more (.digit (c := '0') ⟨hb, .inl rfl⟩) last
    | more _ last ih => exact .more ih last
  induction k with
  | zero => exact h
  | succ k ih => exact hzero ih

/-- What all digits are the characters of a numeral are. -/
lemma forall_mem {p : Char → Prop} (hp : ∀ {c d}, IsDigit b c d → p c) (h : Spells b text n) :
    ∀ c ∈ text, p c := by
  induction h with
  | digit last => exact List.forall_mem_singleton.mpr (hp last)
  | more front last ih =>
    exact List.forall_mem_append.mpr ⟨ih, List.forall_mem_singleton.mpr (hp last)⟩

lemma ofDigits_eq (hb : b ≤ 16) (h : Spells b text n) : ofDigits b text = n := by
  induction h with
  | digit last => simp [ofDigits_eq_foldl, last.digitValue_eq hb]
  | more front last ih =>
    rw [ofDigits_append, ih]
    simp [ofDigits_eq_foldl, last.digitValue_eq hb]

lemma read? {p : Char → Bool} (hb : b ≤ 16) (hp : ∀ {c d}, IsDigit b c d → p c = true)
    (h : Spells b text n) : Digits.read? p b text = some n := by
  rw [read?_of_forall h.ne_nil (h.forall_mem hp), h.ofDigits_eq hb]

lemma isDigit (hb : b ≤ 10) (h : Spells b text n) : ∀ c ∈ text, c.isDigit = true :=
  h.forall_mem (IsDigit.isDigit hb)

lemma decimal? (h : Spells 10 text n) : Digits.decimal? text = some n :=
  h.read? (by omega) (IsDigit.isDigit le_rfl)

lemma hex?_eq_none (h : Spells 10 text n) : hex? text = none :=
  hex?_of_isDigit (h.isDigit le_rfl)

/-- A numeral without a minus has no sign. -/
lemma signed? (h : Spells 10 text n) : Digits.signed? text = some (false, n) := by
  have hminus : ∀ rest, text ≠ '-' :: rest := by
    rintro rest rfl
    exact absurd (h.isDigit le_rfl '-' (.head _)) (by decide)
  rw [Digits.signed?, h.decimal?]
  · rfl
  · exact hminus

end Spells

/-- The digits of a number spell it. -/
lemma spells_toDigits (hb : 1 < b) (n : ℕ) : Spells b (Nat.toDigits b n) n := by
  induction n using Nat.base_induction b hb with
  | single m hm =>
    rw [Nat.toDigits_of_lt_base hm]
    exact .digit ⟨hm, .inl rfl⟩
  | digit m k hk hm ih =>
    rw [← Nat.toDigits_append_toDigits hb hm hk, Nat.toDigits_of_lt_base hk, mul_comm]
    exact .more ih ⟨hk, .inl rfl⟩

/-- A number is printed as a numeral of it. -/
lemma spells_toString (n : ℕ) : Spells 10 (toString n).toList n := by
  simpa using spells_toDigits (b := 10) (by omega) n

/-- Digits spell the number that they are read as. -/
lemma spells_ofDigits (hne : text ≠ []) (h : ∀ c ∈ text, IsDigit b c (digitValue c)) :
    Spells b text (ofDigits b text) := by
  induction text using List.reverseRecOn with
  | nil => exact absurd rfl hne
  | append_singleton text c ih =>
    obtain ⟨hfront, hlast⟩ := List.forall_mem_append.mp h
    have hlast := List.forall_mem_singleton.mp hlast
    rcases eq_or_ne text [] with rfl | hne
    · simpa [ofDigits_eq_foldl] using Spells.digit hlast
    · have hnumber : ofDigits b (text ++ [c]) = ofDigits b text * b + digitValue c := by
        simp [ofDigits_eq_foldl]
      exact hnumber ▸ .more (ih hne hfront) hlast

/-! ### Reading numerals -/

lemma spells_of_read? {p : Char → Bool} (hp : ∀ {c}, p c = true → IsDigit b c (digitValue c))
    (h : read? p b text = some n) : Spells b text n := by
  rw [read?] at h
  split at h
  next hall =>
    simp only [Bool.and_eq_true, Bool.not_eq_true', List.isEmpty_eq_false_iff, List.all_eq_true]
      at hall
    obtain rfl := Option.some.inj h
    exact spells_ofDigits hall.1 fun c hc => hp (hall.2 c hc)
  next => simp at h

lemma decimal?_iff : decimal? text = some n ↔ Spells 10 text n :=
  ⟨spells_of_read? IsDigit.of_isDigit, Spells.decimal?⟩

lemma octal?_iff : octal? text = some n ↔ ∃ digits, text = '0' :: digits ∧ Spells 8 digits n := by
  constructor
  · intro h
    unfold octal? at h
    split at h
    next digits => exact ⟨digits, rfl, spells_of_read? IsDigit.of_isOctal h⟩
    next => simp at h
  · rintro ⟨digits, rfl, h⟩
    exact h.read? (by omega) IsDigit.isOctal

lemma SpellsHex.hex? (h : SpellsHex text n) : Digits.hex? text = some n := by
  obtain ⟨mark, digits⟩ := h
  rw [Digits.hex?, if_pos (by simpa using mark), digits.read? le_rfl IsDigit.isHex]

lemma hex?_iff : hex? text = some n ↔ SpellsHex text n := by
  refine ⟨fun h => ?_, SpellsHex.hex?⟩
  unfold hex? at h
  split at h
  next x digits =>
    split at h
    next hx => exact .intro (by simpa using hx) (spells_of_read? IsDigit.of_isHex h)
    next => simp at h
  next => simp at h

/-- The integer of a raw word is read in the base that it is spelled in. -/
lemma SpellsImmediate.readImmediate (h : SpellsImmediate text n) : Literal.readImmediate text
    = if n < 2 ^ 32 then .ok (UInt32.ofNat n) else .error .outOfRange := by
  have hvalue : (hex? text <|> octal? text <|>
      (if text.length ≤ 1 || text.head? ≠ some '0' then decimal? text else none)) = some n := by
    cases h with
    | decimal digits lead =>
      have hoctal : octal? text = none := by
        rcases lead with rfl | lead
        · rfl
        · unfold octal?
          split
          · simp at lead
          · rfl
      have hlead : (text.length ≤ 1 || text.head? ≠ some '0') = true := by
        rcases lead with rfl | lead <;> simp [*]
      rw [digits.hex?_eq_none, hoctal, if_pos hlead, digits.decimal?]
      rfl
    | @octal text _ digits =>
      have hhex : hex? ('0' :: text) = none :=
        hex?_of_isDigit (List.forall_mem_cons.mpr ⟨rfl, digits.isDigit (by omega)⟩)
      rw [hhex, octal?, digits.read? (by omega) IsDigit.isOctal]
      rfl
    | hex digits =>
      rw [digits.hex?]
      rfl
  rw [Literal.readImmediate, hvalue]

lemma SpellsImmediate.readImmediate_word {w : Word} (h : SpellsImmediate text w.toNat) :
    Literal.readImmediate text = .ok w := by
  rw [h.readImmediate, if_pos w.toNat_lt, UInt32.ofNat_toNat]

/-- What is read as the integer of a raw word spells a number, also one that a word does not hold. -/
lemma exists_spellsImmediate (h : Literal.readImmediate text ≠ .error .invalid) :
    ∃ n, SpellsImmediate text n := by
  rw [Literal.readImmediate] at h
  rcases hhex : hex? text with _ | n
  · rcases hoctal : octal? text with _ | n
    · rw [hhex, hoctal] at h
      split at h
      next => simp at h
      next n hdecimal =>
        change (if _ then decimal? text else none) = some n at hdecimal
        split at hdecimal
        next hlead =>
          have hdigits := decimal?_iff.mp hdecimal
          refine ⟨n, .decimal hdigits ?_⟩
          rcases text with _ | ⟨c, _ | ⟨c', text⟩⟩
          · simp
          · by_cases hc : c = '0' <;> simp [hc]
          · simpa using hlead
        next => simp at hdecimal
    · obtain ⟨digits, rfl, hdigits⟩ := octal?_iff.mp hoctal
      exact ⟨n, .octal hdigits⟩
  · exact ⟨n, .hex (hex?_iff.mp hhex)⟩

lemma spells_of_readImmediate {w : Word} (h : Literal.readImmediate text = .ok w) :
    SpellsImmediate text w.toNat := by
  have hvalid : Literal.readImmediate text ≠ .error .invalid := by simp [h]
  obtain ⟨n, hn⟩ := exists_spellsImmediate hvalid
  rw [hn.readImmediate] at h
  split at h
  next hfits =>
    obtain rfl := Except.ok.inj h
    rwa [UInt32.toNat_ofNat_of_lt' hfits]
  next => simp at h

lemma SpellsImmediate.isAlphanum (h : SpellsImmediate text n) :
    ∀ c ∈ text, c.isAlphanum = true := by
  cases h with
  | decimal digits => exact digits.forall_mem (IsDigit.isAlphanum (by omega))
  | octal digits =>
    exact List.forall_mem_cons.mpr ⟨rfl, digits.forall_mem (IsDigit.isAlphanum (by omega))⟩
  | hex digits =>
    obtain ⟨mark, digits⟩ := digits
    refine List.forall_mem_cons.mpr ⟨rfl, List.forall_mem_cons.mpr ⟨?_, ?_⟩⟩
    · rcases mark with rfl | rfl <;> rfl
    · exact digits.forall_mem (IsDigit.isAlphanum le_rfl)

/-- An integer is read as its sign and its magnitude. -/
lemma SpellsInteger.signed? (h : SpellsInteger text v) :
    hex? text = none ∧ Digits.signed? text = some (decide (v < 0), v.natAbs) := by
  cases h with
  | @plain _ n digits =>
    have hsign : decide ((n : ℤ) < 0) = false := decide_eq_false (Int.natCast_nonneg n).not_gt
    exact ⟨digits.hex?_eq_none, by rw [hsign, digits.signed?, Int.natAbs_natCast]⟩
  | minus digits pos =>
    refine ⟨rfl, ?_⟩
    rw [Digits.signed?, digits.decimal?]
    simpa using pos

/-- An integer is printed as a numeral of it. -/
lemma spellsInteger_toString (v : ℤ) : SpellsInteger (toString v).toList v := by
  rcases v with n | n
  · exact .plain (spells_toString n)
  · have hchars : (toString (Int.negSucc n)).toList = '-' :: (toString (n + 1)).toList := by
      change ("-" ++ toString (n + 1)).toList = _
      simp
    exact hchars ▸ .minus (spells_toString (n + 1)) n.succ_pos

/-- Every number has a hexadecimal numeral. -/
lemma spellsHex_toDigits (n : ℕ) : SpellsHex ('0' :: 'x' :: Nat.toDigits 16 n) n :=
  .intro (.inl rfl) (spells_toDigits (by omega) n)

end Spirv.Digits

namespace Spirv.Literal

open Digits

/-- **The integer of a raw word is read as it is spelled.** Hexadecimal digits after `0x` or `0X`, octal
digits after `0`, and decimal digits that do not start with `0`, are read as their number in base sixteen,
eight or ten; `0` itself is zero. A number that a word does not hold is out of range, and any other text
is invalid. -/
theorem readImmediate_eq_iff (text : List Char) :
    (∀ w, readImmediate text = .ok w ↔ SpellsImmediate text w.toNat) ∧
      ∀ e, readImmediate text = .error e ↔
        e = .outOfRange ∧ (∃ n, SpellsImmediate text n ∧ 2 ^ 32 ≤ n) ∨
          e = .invalid ∧ ¬ ∃ n, SpellsImmediate text n := by
  refine ⟨fun w => ⟨spells_of_readImmediate, fun h => h.readImmediate_word⟩,
    fun e => ⟨fun h => ?_, ?_⟩⟩
  · by_cases hinvalid : e = .invalid
    · refine .inr ⟨hinvalid, fun ⟨n, hn⟩ => ?_⟩
      rw [hn.readImmediate, hinvalid] at h
      split at h <;> simp at h
    · obtain ⟨n, hn⟩ := exists_spellsImmediate fun h' => hinvalid (Except.error.inj (h ▸ h'))
      rw [hn.readImmediate] at h
      split at h
      next => simp at h
      next hfits => exact .inl ⟨(Except.error.inj h).symm, n, hn, not_lt.mp hfits⟩
  · rintro (⟨rfl, n, hn, hlarge⟩ | ⟨rfl, hnone⟩)
    · rw [hn.readImmediate, if_neg hlarge.not_gt]
    · by_contra hread
      exact hnone (exists_spellsImmediate hread)

end Spirv.Literal
