import Mathlib
import Spirv.Word

/-!
Words, their bytes and the two halves of a first word.
-/

namespace Spirv.Word

/-- Bits above those of a number are added to it. -/
lemma or_shiftLeft {m n k : ℕ} (h : m < 2 ^ k) : m ||| n <<< k = m + 2 ^ k * n := by
  rw [Nat.lor_comm, ← Nat.shiftLeft_add_eq_or_of_lt h, Nat.shiftLeft_eq, Nat.mul_comm, Nat.add_comm]

lemma toNat_ofBytes (a b c d : UInt8) :
    (ofBytes a b c d).toNat = a.toNat + 2 ^ 8 * b.toNat + 2 ^ 16 * c.toNat + 2 ^ 24 * d.toNat := by
  have ha := a.toNat_lt
  have hb := b.toNat_lt
  have hc := c.toNat_lt
  have hd := d.toNat_lt
  have hshift : ∀ (x : UInt8) (k : UInt32), k.toNat ≤ 24 →
      (x.toUInt32 <<< k).toNat = x.toNat <<< k.toNat := fun x k hk => by
    have hx := x.toNat_lt
    have hpow : 2 ^ k.toNat ≤ 2 ^ 24 := Nat.pow_le_pow_right (by omega) hk
    have hprod : x.toNat * 2 ^ k.toNat ≤ 255 * 2 ^ 24 := Nat.mul_le_mul (by omega) hpow
    rw [UInt32.toNat_shiftLeft, UInt8.toNat_toUInt32, Nat.mod_eq_of_lt (a := k.toNat) (by omega),
      Nat.shiftLeft_eq, Nat.mod_eq_of_lt (by omega)]
  rw [ofBytes, UInt32.toNat_or, UInt32.toNat_or, UInt32.toNat_or, hshift b 8 (by decide),
    hshift c 16 (by decide), hshift d 24 (by decide), UInt8.toNat_toUInt32]
  simp only [UInt32.reduceToNat]
  rw [or_shiftLeft (k := 8) (by omega), or_shiftLeft (k := 16) (by omega),
    or_shiftLeft (k := 24) (by omega)]

lemma toNat_bytes (w : Word) : w.bytes.map UInt8.toNat = [w.toNat % 2 ^ 8, w.toNat / 2 ^ 8 % 2 ^ 8,
    w.toNat / 2 ^ 16 % 2 ^ 8, w.toNat / 2 ^ 24 % 2 ^ 8] := by
  simp [bytes, Nat.shiftRight_eq_div_pow]

@[simp] lemma bytes_ofBytes (a b c d : UInt8) : (ofBytes a b c d).bytes = [a, b, c, d] := by
  have hinj : Function.Injective (List.map UInt8.toNat) :=
    List.map_injective_iff.mpr fun x y h => UInt8.toNat_inj.mp h
  have ha := a.toNat_lt
  have hb := b.toNat_lt
  have hc := c.toNat_lt
  have hd := d.toNat_lt
  apply hinj
  rw [toNat_bytes, toNat_ofBytes]
  simp only [List.map_cons, List.map_nil, List.cons.injEq, and_true]
  omega

/-- A word is made of its bytes. -/
lemma ofBytes_of_bytes {w : Word} {a b c d : UInt8} (h : w.bytes = [a, b, c, d]) :
    ofBytes a b c d = w := by
  have hn := toNat_bytes w
  rw [h] at hn
  simp only [List.map_cons, List.map_nil, List.cons.injEq, and_true] at hn
  have := w.toNat_lt
  refine UInt32.toNat_inj.mp ?_
  rw [toNat_ofBytes]
  omega

lemma bytes_injective : Function.Injective bytes := fun v _ h =>
  (ofBytes_of_bytes (w := v) rfl).symm.trans (ofBytes_of_bytes h.symm)

lemma toNat_joinLead (count op : UInt16) :
    (joinLead count op).toNat = op.toNat + 2 ^ 16 * count.toNat := by
  have hc := count.toNat_lt
  have ho := op.toNat_lt
  rw [joinLead, UInt32.toNat_or, UInt32.toNat_shiftLeft, UInt16.toNat_toUInt32,
    UInt16.toNat_toUInt32, Nat.lor_comm, show (16 : UInt32).toNat % 32 = 16 from rfl,
    Nat.shiftLeft_eq, Nat.mod_eq_of_lt (by omega), ← Nat.shiftLeft_eq, or_shiftLeft (by omega)]

lemma splitLead_joinLead (count op : UInt16) : splitLead (joinLead count op) = (count, op) := by
  have hc := count.toNat_lt
  have ho := op.toNat_lt
  simp only [splitLead, Prod.mk.injEq]
  constructor <;>
    refine UInt16.toNat_inj.mp ?_ <;>
    simp only [UInt32.toNat_toUInt16, UInt32.toNat_div, UInt32.toNat_mod, toNat_joinLead,
      UInt32.reduceToNat] <;>
    omega

lemma joinLead_splitLead (w : Word) : joinLead (splitLead w).1 (splitLead w).2 = w := by
  have := w.toNat_lt
  refine UInt32.toNat_inj.mp ?_
  rw [toNat_joinLead]
  simp only [splitLead, UInt32.toNat_toUInt16, UInt32.toNat_div, UInt32.toNat_mod,
    UInt32.reduceToNat]
  omega

end Spirv.Word
