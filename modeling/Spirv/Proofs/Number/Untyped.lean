import Mathlib
import Spirv.Proofs.Number.Decimal
import Spirv.Proofs.Number.Numeral

/-!
Numbers of no known type.

What such a number is shows in its spelling. Digits are an unsigned integer and digits behind a minus a
signed one; with a point or an exponent they are a floating-point number, and the three exclude one
another. So a text is read in one way at most, and an integer of too many bits in none.
-/

namespace Spirv

open Digits

/-- A number without a minus is read as its digits. -/
lemma Digits.signed?_of_head? {text : List Char} (h : text.head? ≠ some '-') :
    signed? text = (decimal? text).map (false, ·) := by
  unfold signed?
  split <;> simp_all

/-! ### Numbers with a point or an exponent -/

namespace Decimal

/-- A sign that may be left out. -/
inductive Sign : List Char → Bool → Prop where
  | none : Sign [] false
  | plus : Sign ['+'] false
  | minus : Sign ['-'] true

/-- `e` or `E`, a sign and digits. -/
inductive SpellsExponent : List Char → ℤ → Prop where
  | intro {mark : Char} {sign run : List Char} {negative : Bool} {n : ℕ}
    (mark_eq : mark = 'e' ∨ mark = 'E') (sign_eq : Sign sign negative) (digits : Spells 10 run n) :
    SpellsExponent (mark :: (sign ++ run)) (toInt negative (exponentOfDigits run))

/-- Digits with a point before, among or after them, and perhaps an exponent, or digits without a point
and an exponent. -/
inductive SpellsMagnitude (negative : Bool) : List Char → Decimal → Prop where
  | point {w u e : List Char} {m : ℕ} {k : ℤ} (digits : Spells 10 (w ++ u) m)
    (exponent : e = [] ∧ k = 0 ∨ SpellsExponent e k) :
    SpellsMagnitude negative (w ++ '.' :: (u ++ e)) ⟨negative, m, k - u.length⟩
  | exponent {w e : List Char} {m : ℕ} {k : ℤ} (digits : Spells 10 w m)
    (exponent : SpellsExponent e k) : SpellsMagnitude negative (w ++ e) ⟨negative, m, k⟩

/-- The same with a minus in front or without it. -/
inductive SpellsFloat : List Char → Decimal → Prop where
  | plain {text : List Char} {d : Decimal} (magnitude : SpellsMagnitude false text d) :
    SpellsFloat text d
  | minus {text : List Char} {d : Decimal} (magnitude : SpellsMagnitude true text d) :
    SpellsFloat ('-' :: text) d

variable {negative : Bool} {text w u e : List Char} {d : Decimal} {k : ℤ} {m n : ℕ}

lemma exponentDigits?_of_spells (h : Spells 10 text n) :
    exponentDigits? text = some (exponentOfDigits text) := by
  have hall : text.all Char.isDigit = true := List.all_eq_true.mpr (h.isDigit le_rfl)
  simp [exponentDigits?, h.ne_nil, hall]

lemma spells_of_exponentDigits? (h : exponentDigits? text = some n) :
    Spells 10 text (ofDigits 10 text) ∧ n = exponentOfDigits text := by
  rw [exponentDigits?] at h
  split at h
  next hall =>
    simp only [Bool.and_eq_true, Bool.not_eq_true', List.isEmpty_eq_false_iff, List.all_eq_true]
      at hall
    exact ⟨spells_ofDigits hall.1 fun c hc => .of_isDigit (hall.2 c hc), (Option.some.inj h).symm⟩
  next => simp at h

/-- The exponent is read, and nothing but an exponent or no text is read as one. -/
lemma exponent?_iff : exponent? e = some k ↔ e = [] ∧ k = 0 ∨ SpellsExponent e k := by
  constructor
  · intro h
    unfold exponent? at h
    split at h
    next => exact .inl ⟨rfl, (Option.some.inj h).symm⟩
    next mark text =>
    split at h
    next hmark =>
      have hintro : ∀ {sign run : List Char} {negative : Bool}, Sign sign negative →
          (exponentDigits? run).map (toInt negative) = some k →
          SpellsExponent (mark :: (sign ++ run)) k := by
        intro sign run negative hsign hk
        obtain ⟨n, hn, rfl⟩ := Option.map_eq_some_iff.mp hk
        obtain ⟨hrun, rfl⟩ := spells_of_exponentDigits? hn
        exact .intro (by simpa using hmark) hsign hrun
      split at h
      next => exact .inr (hintro .minus h)
      next => exact .inr (hintro .plus h)
      next => exact .inr (hintro .none h)
    next => simp at h
  · rintro (⟨rfl, rfl⟩ | h)
    · rfl
    obtain ⟨hmark, hsign, hrun⟩ := h
    have hread := exponentDigits?_of_spells hrun
    cases hsign with
    | none =>
      have hdigit := hrun.isDigit le_rfl
      rw [List.nil_append, exponent?, if_pos (by simpa using hmark), hread]
      · rfl
      · rintro run rfl
        exact absurd (hdigit '-' (.head _)) (by decide)
      · rintro run rfl
        exact absurd (hdigit '+' (.head _)) (by decide)
    | plus => simp [exponent?, hmark, hread]
    | minus => simp [exponent?, hmark, hread]

/-- An exponent does not start like anything that it may follow. -/
lemma head?_of_exponent (h : e = [] ∧ k = 0 ∨ SpellsExponent e k) :
    ∀ c ∈ e.head?, c.isDigit = false ∧ c ≠ '.' := by
  rintro c hc
  rcases h with ⟨rfl, -⟩ | ⟨mark, -, -⟩
  · simp at hc
  · obtain rfl : _ = c := by simpa using hc
    rcases mark with rfl | rfl <;> decide

/-- The digits that a text starts with, and what comes after them. -/
lemma exists_digits (text : List Char) : ∃ w e, text = w ++ e ∧ (∀ c ∈ w, c.isDigit = true) ∧
    ∀ c ∈ e.head?, c.isDigit = false := by
  refine ⟨_, _, (List.takeWhile_append_dropWhile (p := Char.isDigit)).symm,
    fun c hc => List.mem_takeWhile_imp hc, fun c hc => ?_⟩
  have hhead := List.head?_dropWhile_not Char.isDigit text
  rw [hc] at hhead
  simpa using hhead

/-- Digits alone, or a number with a point or an exponent. -/
lemma unsigned?_iff : unsigned? negative text = some d ↔
    (∃ m, Spells 10 text m ∧ d = ⟨negative, m, 0⟩) ∨ SpellsMagnitude negative text d := by
  constructor
  · intro h
    obtain ⟨w, r, rfl, hw, hr⟩ := exists_digits text
    by_cases hpoint : r.head? = some '.'
    · obtain ⟨r, rfl⟩ := List.head?_eq_some_iff.mp hpoint
      obtain ⟨u, e, rfl, hu, he⟩ := exists_digits r
      rw [unsigned?_point hw hu he] at h
      split at h
      next => simp at h
      next hne =>
      obtain ⟨k, hk, rfl⟩ := Option.map_eq_some_iff.mp h
      have hdigits := List.forall_mem_append.mpr ⟨hw, hu⟩
      exact .inr (.point (spells_ofDigits hne fun c hc => .of_isDigit (hdigits c hc))
        (exponent?_iff.mp hk))
    · rw [unsigned?_whole hw fun c hc => ⟨hr c hc, fun heq => hpoint (heq ▸ hc)⟩] at h
      split at h
      next => simp at h
      next hne =>
      obtain ⟨k, hk, rfl⟩ := Option.map_eq_some_iff.mp h
      have hspells := spells_ofDigits hne fun c hc => .of_isDigit (hw c hc)
      rcases exponent?_iff.mp hk with ⟨rfl, rfl⟩ | he
      · exact .inl ⟨_, by simpa using hspells, rfl⟩
      · exact .inr (.exponent hspells he)
  · rintro (⟨m, hm, rfl⟩ | h)
    · have hread : unsigned? negative (text ++ []) = _ :=
        unsigned?_whole (hm.isDigit le_rfl) (by simp)
      rw [List.append_nil, if_neg hm.ne_nil, hm.ofDigits_eq (by omega)] at hread
      exact hread
    cases h with
    | point digits exponent =>
      obtain ⟨hw, hu⟩ := List.forall_mem_append.mp (digits.isDigit le_rfl)
      rw [unsigned?_point hw hu fun c hc => (head?_of_exponent exponent c hc).1,
        if_neg digits.ne_nil, exponent?_iff.mpr exponent, digits.ofDigits_eq (by omega)]
      rfl
    | exponent digits exponent =>
      rw [unsigned?_whole (digits.isDigit le_rfl) (head?_of_exponent (.inr exponent)),
        if_neg digits.ne_nil, exponent?_iff.mpr (.inr exponent), digits.ofDigits_eq (by omega)]
      rfl

/-- What holds of digits, signs, points and marks of exponents holds of all characters. -/
lemma SpellsMagnitude.forall_mem {p : Char → Prop} (hdigit : ∀ c : Char, c.isDigit = true → p c)
    (hrest : p '.' ∧ p 'e' ∧ p 'E' ∧ p '+' ∧ p '-') (h : SpellsMagnitude negative text d) :
    ∀ c ∈ text, p c := by
  obtain ⟨hpoint, he, hE, hplus, hminus⟩ := hrest
  have hexp : ∀ {e k}, SpellsExponent e k → ∀ c ∈ e, p c := by
    rintro e k ⟨mark, sign, digits⟩
    refine List.forall_mem_cons.mpr ⟨by rcases mark with rfl | rfl <;> assumption, ?_⟩
    refine List.forall_mem_append.mpr ⟨?_, fun c hc => hdigit c (digits.isDigit le_rfl c hc)⟩
    cases sign with
    | none => exact List.forall_mem_nil _
    | plus => exact List.forall_mem_singleton.mpr hplus
    | minus => exact List.forall_mem_singleton.mpr hminus
  cases h with
  | point digits exponent =>
    obtain ⟨hw, hu⟩ := List.forall_mem_append.mp fun c hc => hdigit c (digits.isDigit le_rfl c hc)
    refine List.forall_mem_append.mpr ⟨hw, List.forall_mem_cons.mpr ⟨hpoint, ?_⟩⟩
    refine List.forall_mem_append.mpr ⟨hu, ?_⟩
    rcases exponent with ⟨rfl, -⟩ | exponent
    · exact List.forall_mem_nil _
    · exact hexp exponent
  | exponent digits exponent =>
    exact List.forall_mem_append.mpr
      ⟨fun c hc => hdigit c (digits.isDigit le_rfl c hc), hexp exponent⟩

/-- A point or an exponent is no digit. -/
lemma SpellsMagnitude.exists_not_isDigit (h : SpellsMagnitude negative text d) :
    ∃ c ∈ text, c.isDigit = false := by
  cases h with
  | point => exact ⟨'.', by simp, by decide⟩
  | exponent digits exponent =>
    obtain ⟨mark, -, -⟩ := exponent
    refine ⟨_, List.mem_append_right _ (.head _), ?_⟩
    rcases mark with rfl | rfl <;> decide

lemma SpellsMagnitude.head?_ne (h : SpellsMagnitude negative text d) : text.head? ≠ some '-' := by
  have hdigit : ∀ {w : List Char} {m : ℕ}, Spells 10 w m → w.head? ≠ some '-' := fun h hhead =>
    absurd (h.isDigit le_rfl '-' (List.mem_of_mem_head? hhead)) (by decide)
  cases h with
  | @point w u e m k digits =>
    rcases w with _ | ⟨c, w⟩
    · simp
    · simpa using hdigit digits
  | exponent digits =>
    rw [List.head?_append_of_ne_nil _ digits.ne_nil]
    exact hdigit digits

/-- A number with a point or an exponent is neither an integer nor in quotes. -/
lemma SpellsFloat.read? (h : SpellsFloat text d) : text.head? ≠ some '"' ∧ hex? text = none ∧
    signed? text = none ∧ Decimal.read? text = some d := by
  have hdecimal : ∀ {text negative d}, SpellsMagnitude negative text d → decimal? text = none := by
    intro text negative d h
    obtain ⟨c, hc, hdigit⟩ := h.exists_not_isDigit
    refine Option.eq_none_iff_forall_ne_some.mpr fun n hn => ?_
    simp [(decimal?_iff.mp hn).isDigit le_rfl c hc] at hdigit
  have hother : ∀ {text negative d}, SpellsMagnitude negative text d →
      ∀ c ∈ text, c ≠ 'x' ∧ c ≠ 'X' ∧ c ≠ '"' := by
    intro text negative d h
    refine h.forall_mem (fun c hc => ?_) (by simp)
    refine ⟨?_, ?_, ?_⟩ <;> rintro rfl <;> exact absurd hc (by decide)
  cases h with
  | plain magnitude =>
    have hminus := magnitude.head?_ne
    refine ⟨fun hquote => ?_, Option.eq_none_iff_forall_ne_some.mpr fun n hn => ?_, ?_, ?_⟩
    · exact (hother magnitude _ (List.mem_of_mem_head? hquote)).2.2 rfl
    · obtain ⟨mark, -⟩ := hex?_iff.mp hn
      have hx := hother magnitude _ (.tail _ (.head _))
      exact mark.elim hx.1 hx.2.1
    · rw [signed?_of_head? hminus, hdecimal magnitude]
      rfl
    · rw [read?_of_head? hminus, unsigned?_iff.mpr (.inr magnitude)]
  | minus magnitude =>
    refine ⟨by simp, rfl, ?_, unsigned?_iff.mpr (.inr magnitude)⟩
    rw [signed?, hdecimal magnitude]
    rfl

end Decimal

/-! ### Integers -/

namespace Digits

/-- Digits, or hexadecimal digits behind `0x` or `0X`. -/
inductive SpellsUnsigned : List Char → ℕ → Prop where
  | decimal {text : List Char} {n : ℕ} (digits : Spells 10 text n) : SpellsUnsigned text n
  | hex {text : List Char} {n : ℕ} (digits : SpellsHex text n) : SpellsUnsigned text n

/-- Digits behind a minus. -/
inductive SpellsNegative : List Char → ℤ → Prop where
  | intro {text : List Char} {n : ℕ} (digits : Spells 10 text n) : SpellsNegative ('-' :: text) (-n)

end Digits

namespace Literal

variable {text : List Char} {n : ℕ} {v : ℤ} {d : Decimal} {l : Literal} {e : LiteralError}

/-- The text spells the number of the literal, which is kept in 32 bits if they are enough. -/
inductive Spelled (text : List Char) : Literal → Prop where
  | uint32 {n : UInt32} (integer : SpellsUnsigned text n.toNat) : Spelled text (.uint32 n)
  | uint64 {n : UInt64} (integer : SpellsUnsigned text n.toNat) (large : 2 ^ 32 ≤ n.toNat) :
    Spelled text (.uint64 n)
  | int32 {v : Int32} (integer : SpellsNegative text v.toInt) : Spelled text (.int32 v)
  | int64 {v : Int64} (integer : SpellsNegative text v.toInt) (small : v.toInt < -2 ^ 31) :
    Spelled text (.int64 v)
  | float {d : Decimal} {l : Literal} (decimal : Decimal.SpellsFloat text d)
    (value : ofDecimal d = l) : Spelled text l

lemma read_of_spellsUnsigned (h : SpellsUnsigned text n) : read text = ofUnsigned n := by
  cases h with
  | decimal digits =>
    have hquote : text.head? ≠ some '"' := fun hhead =>
      absurd (digits.isDigit le_rfl '"' (List.mem_of_mem_head? hhead)) (by decide)
    rw [read, if_neg hquote, digits.hex?_eq_none, digits.signed?]
  | hex digits =>
    have hhex := digits.hex?
    obtain ⟨-, -⟩ := digits
    rw [read, if_neg (by simp), hhex]

lemma read_of_spellsNegative (h : SpellsNegative text v) :
    ∃ n : ℕ, v = -n ∧ read text = ofNegative n := by
  obtain @⟨run, n, digits⟩ := h
  have hhex : hex? ('-' :: run) = none := rfl
  have hsigned : signed? ('-' :: run) = some (true, n) := by
    rw [signed?, digits.decimal?]
    rfl
  exact ⟨n, rfl, by rw [read, if_neg (by simp), hhex, hsigned]⟩

lemma read_of_spellsFloat (h : Decimal.SpellsFloat text d) : read text = .ok (ofDecimal d) := by
  obtain ⟨hquote, hhex, hsigned, hread⟩ := h.read?
  rw [read, if_neg hquote, hhex, hsigned, hread]

/-- A text that is read at all is read as one of these. -/
lemma exists_spelling (hquote : text.head? ≠ some '"') (h : read text ≠ .error .invalid) :
    (∃ n, SpellsUnsigned text n) ∨ (∃ v, SpellsNegative text v) ∨
      ∃ d, Decimal.SpellsFloat text d := by
  rw [read, if_neg hquote] at h
  split at h
  next n hhex => exact .inl ⟨n, .hex (hex?_iff.mp hhex)⟩
  next =>
  by_cases hminus : text.head? = some '-'
  · obtain ⟨run, rfl⟩ := List.head?_eq_some_iff.mp hminus
    rcases hdecimal : decimal? run with _ | n
    · simp only [signed?, hdecimal, Option.map_none, Decimal.read?] at h
      split at h
      next d hread =>
        rcases Decimal.unsigned?_iff.mp hread with ⟨m, hm, -⟩ | magnitude
        · exact .inr (.inl ⟨_, .intro hm⟩)
        · exact .inr (.inr ⟨d, .minus magnitude⟩)
      next => simp at h
    · exact .inr (.inl ⟨_, .intro (decimal?_iff.mp hdecimal)⟩)
  · rcases hdecimal : decimal? text with _ | n
    · simp only [signed?_of_head? hminus, hdecimal, Option.map_none,
        Decimal.read?_of_head? hminus] at h
      split at h
      next d hread =>
        rcases Decimal.unsigned?_iff.mp hread with ⟨m, hm, -⟩ | magnitude
        · exact .inl ⟨m, .decimal hm⟩
        · exact .inr (.inr ⟨d, .plain magnitude⟩)
      next => simp at h
    · exact .inl ⟨n, .decimal (decimal?_iff.mp hdecimal)⟩

/-- An unsigned number is kept in 32 bits, in 64 if they are not enough, or not at all. -/
lemma ofUnsigned_cases (n : ℕ) : (∃ w : UInt32, w.toNat = n ∧ ofUnsigned n = .ok (.uint32 w)) ∨
    (∃ w : UInt64, w.toNat = n ∧ 2 ^ 32 ≤ n ∧ ofUnsigned n = .ok (.uint64 w)) ∨
    2 ^ 64 ≤ n ∧ ofUnsigned n = .error .invalid := by
  rw [ofUnsigned]
  split
  next h32 => exact .inl ⟨_, UInt32.toNat_ofNat_of_lt' h32, rfl⟩
  next h32 =>
  split
  next h64 => exact .inr (.inl ⟨_, UInt64.toNat_ofNat_of_lt' h64, not_lt.mp h32, rfl⟩)
  next h64 => exact .inr (.inr ⟨not_lt.mp h64, rfl⟩)

/-- So is a number with a minus. -/
lemma ofNegative_cases (n : ℕ) : (∃ v : Int32, v.toInt = -n ∧ ofNegative n = .ok (.int32 v)) ∨
    (∃ v : Int64, v.toInt = -n ∧ v.toInt < -2 ^ 31 ∧ ofNegative n = .ok (.int64 v)) ∨
    2 ^ 63 < n ∧ ofNegative n = .error .invalid := by
  rw [ofNegative]
  split
  next h32 =>
    exact .inl ⟨_, Int32.toInt_ofInt_of_le (by omega) (by omega), rfl⟩
  next h32 =>
  split
  next h64 =>
    have hv : (Int64.ofInt (-n)).toInt = -n := Int64.toInt_ofInt_of_le (by omega) (by omega)
    exact .inr (.inl ⟨_, hv, by omega, rfl⟩)
  next h64 => exact .inr (.inr ⟨not_le.mp h64, rfl⟩)

lemma read_of_large (h : SpellsUnsigned text n) (hlarge : 2 ^ 64 ≤ n) :
    read text = .error .invalid := by
  rw [read_of_spellsUnsigned h]
  obtain ⟨w, hw, -⟩ | ⟨w, hw, -⟩ | ⟨-, heq⟩ := ofUnsigned_cases n
  · exact absurd w.toNat_lt (by omega)
  · exact absurd w.toNat_lt (by omega)
  · exact heq

lemma read_of_small (h : SpellsNegative text v) (hsmall : v < -2 ^ 63) :
    read text = .error .invalid := by
  obtain ⟨n, hn, hread⟩ := read_of_spellsNegative h
  obtain ⟨w, hw, -⟩ | ⟨w, hw, -⟩ | ⟨-, heq⟩ := ofNegative_cases n
  · exact absurd w.le_toInt (by omega)
  · exact absurd w.le_toInt (by omega)
  · exact hread.trans heq

/-- A number that a text spells is read. -/
lemma Spelled.read (h : Spelled text l) : Literal.read text = .ok l := by
  cases h with
  | @uint32 w integer =>
    rw [read_of_spellsUnsigned integer]
    obtain ⟨w', hw, heq⟩ | ⟨w', hw, hlarge, -⟩ | ⟨hlarge, -⟩ := ofUnsigned_cases w.toNat
    · rw [heq, UInt32.toNat_inj.mp hw]
    · exact absurd w.toNat_lt (by omega)
    · exact absurd w.toNat_lt (by omega)
  | @uint64 w integer large =>
    rw [read_of_spellsUnsigned integer]
    obtain ⟨w', hw, -⟩ | ⟨w', hw, -, heq⟩ | ⟨hlarge, -⟩ := ofUnsigned_cases w.toNat
    · exact absurd w'.toNat_lt (by omega)
    · rw [heq, UInt64.toNat_inj.mp hw]
    · exact absurd w.toNat_lt (by omega)
  | @int32 w integer =>
    obtain ⟨n, hn, hread⟩ := read_of_spellsNegative integer
    rw [hread]
    obtain ⟨w', hw, heq⟩ | ⟨w', hw, hsmall, -⟩ | ⟨hsmall, -⟩ := ofNegative_cases n
    · rw [heq, Int32.toInt_inj.mp (hw.trans hn.symm)]
    · exact absurd w.le_toInt (by omega)
    · exact absurd w.le_toInt (by omega)
  | @int64 w integer small =>
    obtain ⟨n, hn, hread⟩ := read_of_spellsNegative integer
    rw [hread]
    obtain ⟨w', hw, -⟩ | ⟨w', hw, -, heq⟩ | ⟨hsmall, -⟩ := ofNegative_cases n
    · exact absurd w'.le_toInt (by omega)
    · rw [heq, Int64.toInt_inj.mp (hw.trans hn.symm)]
    · exact absurd w.le_toInt (by omega)
  | float decimal value => exact value ▸ read_of_spellsFloat decimal

/-- A text that is not in quotes spells what it is read as, and is invalid if it is not read. -/
lemma spelled_or_invalid (hquote : text.head? ≠ some '"') :
    (∃ l, Spelled text l) ∨ Literal.read text = .error .invalid := by
  by_contra! hneither
  obtain ⟨hnone, hread⟩ := hneither
  rcases exists_spelling hquote hread with ⟨n, hn⟩ | ⟨v, hv⟩ | ⟨d, hd⟩
  · obtain ⟨w, rfl, -⟩ | ⟨w, rfl, hlarge, -⟩ | ⟨-, heq⟩ := ofUnsigned_cases n
    · exact hnone _ (.uint32 hn)
    · exact hnone _ (.uint64 hn hlarge)
    · exact hread ((read_of_spellsUnsigned hn).trans heq)
  · obtain ⟨n, rfl, hn⟩ := read_of_spellsNegative hv
    obtain ⟨w, hw, -⟩ | ⟨w, hw, hsmall, -⟩ | ⟨-, heq⟩ := ofNegative_cases n
    · exact hnone _ (.int32 (hw ▸ hv))
    · exact hnone _ (.int64 (hw ▸ hv) hsmall)
    · exact hread (hn.trans heq)
  · exact hnone _ (.float hd rfl)

/-- A number with a point or an exponent is a floating-point number. -/
lemma exists_ofDecimal (d : Decimal) :
    (∃ bits, ofDecimal d = .float32 bits) ∨ ∃ bits, ofDecimal d = .float64 bits := by
  rw [ofDecimal]
  split
  next => exact .inl ⟨_, rfl⟩
  next => exact .inr ⟨_, rfl⟩

/-- **Numbers of no known type are read as they are spelled.** A text without a quote in front is read
exactly as the number that it spells: an unsigned integer, a signed one if there is a minus, each in 32
bits if it fits and otherwise in 64, or a floating-point number if there is a point or an exponent. It
spells one number at most, and is invalid if it spells none. An integer that 64 bits do not hold is
invalid as well. -/
theorem read_eq_iff (hquote : text.head? ≠ some '"') :
    (∀ l, read text = .ok l ↔ Spelled text l) ∧
      ((∃ bits, read text = .ok (.float32 bits)) ∨ (∃ bits, read text = .ok (.float64 bits)) ↔
        ∃ d, Decimal.SpellsFloat text d) ∧
      (∀ e, read text = .error e ↔ e = .invalid ∧ ¬ ∃ l, Spelled text l) ∧
      (∀ n, SpellsUnsigned text n → 2 ^ 64 ≤ n → read text = .error .invalid) ∧
      ∀ v, SpellsNegative text v → v < -2 ^ 63 → read text = .error .invalid := by
  have hok : ∀ l, read text = .ok l ↔ Spelled text l := by
    refine fun l => ⟨fun h => ?_, Spelled.read⟩
    rcases spelled_or_invalid hquote with ⟨l', hl⟩ | hinvalid
    · obtain rfl := Except.ok.inj (hl.read.symm.trans h)
      exact hl
    · simp [hinvalid] at h
  refine ⟨hok, ⟨?_, fun ⟨d, hd⟩ => ?_⟩, fun e => ⟨fun h => ?_, ?_⟩, fun n => read_of_large,
    fun v => read_of_small⟩
  · simp only [hok]
    rintro (⟨bits, h⟩ | ⟨bits, h⟩) <;> cases h with | float decimal => exact ⟨_, decimal⟩
  · rw [read_of_spellsFloat hd]
    exact (exists_ofDecimal d).imp (fun ⟨bits, h⟩ => ⟨bits, h ▸ rfl⟩) fun ⟨bits, h⟩ => ⟨bits, h ▸ rfl⟩
  · have hnone : ¬ ∃ l, Spelled text l := fun ⟨l, hl⟩ => by simp [hl.read] at h
    have hinvalid := (spelled_or_invalid hquote).resolve_left hnone
    exact ⟨Except.error.inj (h.symm.trans hinvalid), hnone⟩
  · rintro ⟨rfl, hnone⟩
    exact (spelled_or_invalid hquote).resolve_left hnone

namespace Sample

/-- Minus two and a half times a hundred. -/
def scaled : List Char := "-2.5e2".toList

lemma spelled_scaled : Spelled scaled (.float32 0xC37A0000) := by
  have hdigits : Spells 10 (['2'] ++ ['5']) 25 := spells_toDigits (b := 10) (by omega) 25
  have hexponent : Decimal.SpellsExponent ['e', '2'] 2 :=
    .intro (.inl rfl) .none (spells_toDigits (b := 10) (by omega) 2)
  exact .float (.minus (.point hdigits (.inr hexponent))) (by decide +kernel)

end Sample

/-- The greatest negative number of more than 32 bits, a number with an exponent, and the least one of
more than 64 bits. -/
theorem read_eq_iff_sample :
    ('-' :: Nat.toDigits 10 2147483649).head? ≠ some '"' ∧
    read ('-' :: Nat.toDigits 10 2147483649) = .ok (.int64 (-2147483649)) ∧
    Sample.scaled.head? ≠ some '"' ∧ read Sample.scaled = .ok (.float32 0xC37A0000) ∧
    (Nat.toDigits 10 (2 ^ 64)).head? ≠ some '"' ∧
    SpellsUnsigned (Nat.toDigits 10 (2 ^ 64)) (2 ^ 64) ∧
    read (Nat.toDigits 10 (2 ^ 64)) = .error .invalid := by
  have hminus : ('-' :: Nat.toDigits 10 2147483649).head? ≠ some '"' := by simp
  have hscaled : Sample.scaled.head? ≠ some '"' := by decide
  have hlarge : (Nat.toDigits 10 (2 ^ 64)).head? ≠ some '"' := by decide
  have hspells : Spelled ('-' :: Nat.toDigits 10 2147483649) (.int64 (-2147483649)) :=
    .int64 (.intro (spells_toDigits (by omega) 2147483649)) (by decide)
  have hdigits : SpellsUnsigned (Nat.toDigits 10 (2 ^ 64)) (2 ^ 64) :=
    .decimal (spells_toDigits (by omega) (2 ^ 64))
  obtain ⟨-, -, -, hinvalid, -⟩ := read_eq_iff hlarge
  exact ⟨hminus, ((read_eq_iff hminus).1 _).mpr hspells, hscaled,
    ((read_eq_iff hscaled).1 _).mpr Sample.spelled_scaled, hlarge, hdigits,
    hinvalid _ hdigits le_rfl⟩

end Literal

end Spirv
