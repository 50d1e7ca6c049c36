import Mathlib
import Spirv.Listing
import Spirv.Proofs.Encoding.NumberWords
import Spirv.Proofs.Number.Decimal
import Spirv.Proofs.Number.TypedInteger

/-!
Numbers that are listed are read back as the words that they were listed from.

A number is listed as its type says and read as a number of the same type. That gives back its words
if they are those that the type would hold it in: `Canonical`.
-/

namespace Spirv

open Assembly Listing

namespace NumberType

/-- The words hold a number of the type in the one way that text gives it. -/
structure Canonical (t : NumberType) (ws : List Word) : Prop where
  /-- No bit beyond the width is set. -/
  unsigned : t.numberClass = .unsigned → numberBits ws < 2 ^ t.width
  /-- The sign fills the bits beyond the width. -/
  signed : t.numberClass = .signed → BitVec.ofNat (32 * ws.length) (numberBits ws)
    = (BitVec.ofNat t.width (numberBits ws)).signExtend (32 * ws.length)
  float : t.numberClass = .float → t.width ≤ 32 ∨ t.width = 64

/-- The number is neither infinite nor no number at all, as far as it is listed by its value. -/
def IsFinite (t : NumberType) (ws : List Word) : Prop :=
  t.numberClass = .float →
    (t.width = 32 → numberBits ws % BinaryFormat.single.signBit < BinaryFormat.single.infinity) ∧
      (t.width = 64 → numberBits ws % BinaryFormat.double.signBit < BinaryFormat.double.infinity)

end NumberType

/-- The word is spelled as a number: digits with perhaps a minus in front and a point between. -/
def IsNumeral (chars : List Char) : Prop :=
  (∃ c ∈ chars.head?, c.isDigit ∨ c = '-') ∧ ∀ c ∈ chars, c.isDigit ∨ c = '-' ∨ c = '.'

namespace IsNumeral

lemma of_isDigit {chars : List Char} (hne : chars ≠ []) (h : ∀ c ∈ chars, c.isDigit = true) :
    IsNumeral chars := by
  obtain ⟨c, r, rfl⟩ := List.exists_cons_of_ne_nil hne
  exact ⟨⟨c, rfl, .inl (h c (.head _))⟩, fun d hd => .inl (h d hd)⟩

lemma of_spells {chars : List Char} {n : ℕ} (h : Digits.Spells 10 chars n) : IsNumeral chars :=
  of_isDigit h.ne_nil (h.isDigit le_rfl)

lemma toString (n : ℕ) : IsNumeral (toString n).toList := of_spells (Digits.spells_toString n)

lemma minus {chars : List Char} (h : IsNumeral chars) : IsNumeral ('-' :: chars) :=
  ⟨⟨'-', rfl, .inr rfl⟩, List.forall_mem_cons.mpr ⟨.inr (.inl rfl), h.2⟩⟩

lemma of_spellsInteger {chars : List Char} {v : ℤ} (h : Digits.SpellsInteger chars v) :
    IsNumeral chars := by
  cases h with
  | plain digits => exact of_spells digits
  | minus digits => exact (of_spells digits).minus

lemma head?_ne {chars : List Char} (h : IsNumeral chars) {c : Char}
    (hc : c.isDigit = false ∧ c ≠ '-') : chars.head? ≠ some c := by
  obtain ⟨⟨d, hd, hdigit⟩, -⟩ := h
  intro he
  obtain rfl : d = c := Option.some.inj (hd.symm.trans he)
  rcases hdigit with hdigit | rfl
  · simp [hc.1] at hdigit
  · exact hc.2 rfl

end IsNumeral

namespace Shortest

lemma isNumeral_positional (d : ℕ) (k : ℤ) : IsNumeral (positional d k).toList := by
  obtain ⟨w, u, hne, hw, hu, htext, -⟩ := exists_positional d k
  rcases htext with ⟨rfl, htext⟩ | htext
  · exact htext ▸ .of_isDigit hne hw
  · obtain ⟨c, r, rfl⟩ := List.exists_cons_of_ne_nil hne
    rw [htext]
    refine ⟨⟨c, rfl, .inl (hw c (.head _))⟩, fun e he => ?_⟩
    rcases List.mem_append.mp he with he | he
    · exact .inl (hw e he)
    rcases List.mem_cons.mp he with rfl | he
    · exact .inr (.inr rfl)
    · exact .inl (hu e he)

lemma isNumeral_text (f : BinaryFormat) (bits : ℕ) : IsNumeral (text f bits).toList := by
  rw [text, String.toList_append]
  split
  · exact (isNumeral_positional _ _).minus
  · exact isNumeral_positional _ _

end Shortest

/-! ### Whole numbers -/

namespace Listing

variable {t : NumberType} {ws : List Word}

lemma exists_words (hw : 1 ≤ t.width ∧ t.width ≤ 64) (hlen : ws.length = t.wordCount) :
    (t.width ≤ 32 ∧ ∃ a, ws = [a]) ∨ (32 < t.width ∧ ∃ a b, ws = [a, b]) := by
  rw [NumberType.wordCount] at hlen
  rcases Nat.lt_or_ge 32 t.width with h | h
  · exact .inr ⟨h, List.length_eq_two.mp (by omega)⟩
  · exact .inl ⟨h, List.length_eq_one_iff.mp (by omega)⟩

/-- The words of a number are those of its bits. -/
lemma wide_numberBits (hw : 1 ≤ t.width ∧ t.width ≤ 64) (hlen : ws.length = t.wordCount) :
    Literal.wide (BitVec.ofNat 64 (numberBits ws)) t.width = ws := by
  rcases exists_words hw hlen with ⟨h, a, rfl⟩ | ⟨h, a, b, rfl⟩
  · have ha := a.toNat_lt
    rw [Literal.wide, if_neg (by omega), List.singleton_inj, ← UInt32.toNat_inj]
    simp only [numberBits, UInt32.toNat_ofBitVec, BitVec.toNat_setWidth, BitVec.toNat_ofNat,
      List.headD_cons, List.tail_cons, List.headD_nil, UInt32.toNat_zero]
    omega
  · have ha := a.toNat_lt
    have hb := b.toNat_lt
    rw [Literal.wide, if_pos h, List.cons.injEq, List.singleton_inj, ← UInt32.toNat_inj,
      ← UInt32.toNat_inj]
    simp only [numberBits, UInt32.toNat_ofBitVec, BitVec.toNat_setWidth, BitVec.toNat_ofNat,
      BitVec.toNat_ushiftRight, Nat.shiftRight_eq_div_pow, List.headD_cons, List.tail_cons]
    omega

lemma numberBits_lt (hw : 1 ≤ t.width ∧ t.width ≤ 64) (hlen : ws.length = t.wordCount) :
    numberBits ws < 2 ^ (32 * ws.length) := by
  rcases exists_words hw hlen with ⟨-, a, rfl⟩ | ⟨-, a, b, rfl⟩
  · simpa [numberBits] using a.toNat_lt
  · have ha := a.toNat_lt
    have hb := b.toNat_lt
    simp only [numberBits, List.headD_cons, List.tail_cons, List.length_cons, List.length_nil]
    omega

/-- A number without a type is read as one of its size. -/
lemma readNumber_toString {w : Word} :
    readNumber (toString w.toNat).toList = .ok (.value [w] []) := by
  have hquote := (IsNumeral.toString w.toNat).head?_ne (c := '"') (by decide)
  have hspells := Digits.spells_toString w.toNat
  rw [readNumber, Literal.read, if_neg hquote, hspells.hex?_eq_none, hspells.signed?]
  simp [Literal.ofUnsigned, w.toNat_lt, Literal.words]

lemma readInteger_unsigned {n : ℕ} (hw : 1 ≤ t.width ∧ t.width ≤ 64) (hn : n < 2 ^ t.width) :
    Literal.readInteger t.width false (toString n).toList = .ok (BitVec.ofNat 64 n) := by
  have hholds : Literal.Holds t.width false n := ⟨Int.natCast_nonneg n, by exact_mod_cast hn⟩
  rw [Literal.readInteger_of_spellsInteger hw false (.plain (Digits.spells_toString n)),
    if_pos hholds, Literal.inWords_unsigned, BitVec.ofInt_natCast, Literal.setWidth_ofNat hn]

lemma readInteger_signed (hw : 1 ≤ t.width ∧ t.width ≤ 64) (x : BitVec t.width) :
    Literal.readInteger t.width true (toString x.toInt).toList
      = .ok (Literal.extendInt t.width x.toInt) := by
  have hholds : Literal.Holds t.width true x.toInt := ⟨x.le_toInt, x.toInt_lt⟩
  rw [Literal.readInteger_of_spellsInteger hw true (Digits.spellsInteger_toString x.toInt),
    if_pos hholds, hholds.inWords_signed hw.1]

/-- A number whose bits beyond its width repeat its sign is extended to its words. -/
lemma wide_extendInt (hw : 1 ≤ t.width ∧ t.width ≤ 64) (hlen : ws.length = t.wordCount)
    (hsign : BitVec.ofNat (32 * ws.length) (numberBits ws)
      = (BitVec.ofNat t.width (numberBits ws)).signExtend (32 * ws.length)) :
    Literal.wide (Literal.extendInt t.width (BitVec.ofNat t.width (numberBits ws)).toInt) t.width
      = ws := by
  conv_rhs => rw [← wide_numberBits hw hlen]
  rw [Literal.extendInt]
  rcases exists_words hw hlen with ⟨h, a, rfl⟩ | ⟨h, a, b, rfl⟩
  · have hsign : BitVec.ofInt 32 (BitVec.ofNat t.width (numberBits [a])).toInt
        = BitVec.ofNat 32 (numberBits [a]) := hsign.symm
    have hbits : (BitVec.ofNat 32 (numberBits [a])).setWidth 64
        = BitVec.ofNat 64 (numberBits [a]) := by
      have ha := a.toNat_lt
      refine BitVec.eq_of_toNat_eq ?_
      simp only [numberBits, BitVec.toNat_setWidth, BitVec.toNat_ofNat, List.headD_cons,
        List.tail_cons, List.headD_nil, UInt32.toNat_zero]
      omega
    rw [if_pos h, hsign, hbits]
  · have hsign : BitVec.ofInt 64 (BitVec.ofNat t.width (numberBits [a, b])).toInt
        = BitVec.ofNat 64 (numberBits [a, b]) := hsign.symm
    rw [if_neg (by omega), hsign]

/-- A finite number of a format is read back as its bits. -/
lemma readFloat_text {f : BinaryFormat} (hf : t.width = 32 ∧ f = .single ∨ t.width = 64 ∧ f = .double)
    {bits : ℕ} (hbits : bits < 2 ^ t.width) (hfin : bits % f.signBit < f.infinity) :
    Literal.readFloat t.width (Shortest.text f bits).toList = .ok (BitVec.ofNat 64 bits) := by
  rcases hf with ⟨hw, rfl⟩ | ⟨hw, rfl⟩
  · rw [hw] at hbits
    obtain ⟨d, hd, hd'⟩ :=
      Shortest.read?_text (f := .single) (by decide) (by decide) hbits hfin
    simp [Literal.readFloat, hd, hw, hd']
  · rw [hw] at hbits
    obtain ⟨d, hd, hd'⟩ :=
      Shortest.read?_text (f := .double) (by decide) (by decide) hbits hfin
    simp [Literal.readFloat, hd, hw, hd']

/-- A number that is not read by its type is one of a single word. -/
lemma readNumber_numberBits (h : t.width ≤ 32) (hw : 1 ≤ t.width ∧ t.width ≤ 64)
    (hlen : ws.length = t.wordCount) :
    readNumber (toString (numberBits ws)).toList = .ok (.value ws []) := by
  rcases exists_words hw hlen with ⟨-, a, rfl⟩ | ⟨h', -⟩
  · simpa [numberBits] using readNumber_toString (w := a)
  · omega

lemma readTyped_of_readInteger {chars : List Char} {bits : BitVec 64} (hi : t.isInteger)
    (hw : 1 ≤ t.width ∧ t.width ≤ 64)
    (h : Literal.readInteger t.width (t.numberClass = .signed) chars = .ok bits) :
    readTyped (some t) chars = .ok (.value (Literal.wide bits t.width) []) := by
  simp [readTyped, hi, hw.1, hw.2, h]

lemma readTyped_of_readFloat {chars : List Char} {bits : BitVec 64} (hi : t.isInteger = false)
    (hw : t.width = 32 ∨ t.width = 64) (h : Literal.readFloat t.width chars = .ok bits) :
    readTyped (some t) chars = .ok (.value (Literal.wide bits t.width) []) := by
  simp [readTyped, hi, hw, h]

/-- A number of a format is listed by its value unless it is infinite or not a number. -/
lemma exists_number_eq_text (hclass : t.numberClass = .float) (hw : t.width = 32 ∨ t.width = 64)
    (hlt : numberBits ws < 2 ^ (32 * ws.length)) (hlen : ws.length = t.wordCount)
    (hf : t.IsFinite ws) :
    ∃ f, (t.width = 32 ∧ f = .single ∨ t.width = 64 ∧ f = .double) ∧
      numberBits ws < 2 ^ t.width ∧ numberBits ws % f.signBit < f.infinity ∧
      number (some t) ws = Shortest.text f (numberBits ws) := by
  obtain ⟨hsingle, hdouble⟩ := hf hclass
  obtain ⟨class', width⟩ := t
  obtain rfl : class' = .float := hclass
  rw [hlen] at hlt
  rcases hw with rfl | rfl
  · have hmod : numberBits ws % 2 ^ 32 = numberBits ws := Nat.mod_eq_of_lt hlt
    refine ⟨.single, .inl ⟨rfl, rfl⟩, hlt, hsingle rfl, ?_⟩
    simp only [number, if_true, float, hmod, hsingle]
  · exact ⟨.double, .inr ⟨rfl, rfl⟩, hlt, hdouble rfl, by simp [number, float, hdouble rfl]⟩

/-- **A number that a type governs is read back as its words.** -/
theorem readTyped_number (hw : 1 ≤ t.width ∧ t.width ≤ 64) (hlen : ws.length = t.wordCount)
    (hc : t.Canonical ws) (hf : t.IsFinite ws) : IsNumeral (number (some t) ws).toList ∧
      readTyped (some t) (number (some t) ws).toList = .ok (.value ws []) := by
  cases hclass : t.numberClass with
  | unsigned =>
    have htext : number (some t) ws = toString (numberBits ws) := by
      obtain ⟨_, width⟩ := t
      obtain rfl := hclass
      rfl
    have hread : Literal.readInteger t.width (t.numberClass = .signed)
        (toString (numberBits ws)).toList = .ok (BitVec.ofNat 64 (numberBits ws)) := by
      rw [hclass]
      exact readInteger_unsigned hw (hc.unsigned hclass)
    rw [htext, readTyped_of_readInteger (by simp [NumberType.isInteger, hclass]) hw hread,
      wide_numberBits hw hlen]
    exact ⟨.toString _, rfl⟩
  | signed =>
    have htext : number (some t) ws = toString (BitVec.ofNat t.width (numberBits ws)).toInt := by
      obtain ⟨_, width⟩ := t
      obtain rfl := hclass
      simp only [number, decide_eq_true hw.1, decide_eq_true hw.2, Bool.and_self, if_true]
    have hread : Literal.readInteger t.width (t.numberClass = .signed)
        (toString (BitVec.ofNat t.width (numberBits ws)).toInt).toList
          = .ok (Literal.extendInt t.width (BitVec.ofNat t.width (numberBits ws)).toInt) := by
      rw [hclass]
      exact readInteger_signed hw (BitVec.ofNat t.width (numberBits ws))
    rw [htext, readTyped_of_readInteger (by simp [NumberType.isInteger, hclass]) hw hread,
      wide_extendInt hw hlen (hc.signed hclass)]
    exact ⟨.of_spellsInteger (Digits.spellsInteger_toString _), rfl⟩
  | float =>
    by_cases hkept : t.width = 32 ∨ t.width = 64
    · obtain ⟨f, hformat, hlt, hfin, htext⟩ :=
        exists_number_eq_text hclass hkept (numberBits_lt hw hlen) hlen hf
      have hread := readFloat_text hformat hlt hfin
      rw [htext, readTyped_of_readFloat (by simp [NumberType.isInteger, hclass]) hkept hread,
        wide_numberBits hw hlen]
      exact ⟨Shortest.isNumeral_text _ _, rfl⟩
    · -- a number of any other width is listed and read as one of a single word
      obtain ⟨h32, h64⟩ := not_or.mp hkept
      have htext : number (some t) ws = toString (numberBits ws) := by
        obtain ⟨_, width⟩ := t
        obtain rfl := hclass
        simp only [number, if_neg h32, if_neg h64]
      have hsmall : t.width ≤ 32 := (hc.float hclass).resolve_right h64
      have hkept : t.isKept = false := by
        simp [NumberType.isKept, NumberType.isInteger, hclass, h32, h64]
      rw [htext, readTyped_of_not_isKept hkept, readNumber_numberBits hsmall hw hlen]
      exact ⟨.toString _, rfl⟩

end Listing

end Spirv
