import Mathlib
import Spirv.Proofs.Tables

/-!
Masks, their bits and the rows of these.

A mask is made of its bits. It is accepted if each of them has a row, and otherwise refused for the
highest one that has none. An accepted mask asks for the operands of its rows, those of the lowest bit
first: the bits are gone through from the highest down and the operands of each are put in front.
-/

namespace Spirv

namespace Word

variable {w : Word} {i : ℕ}

lemma mem_setBits : i ∈ w.setBits ↔ i < 32 ∧ w.toNat.testBit i = true := by
  simp [setBits]

/-- The lowest bit comes first. -/
lemma pairwise_setBits (w : Word) : w.setBits.Pairwise (· < ·) :=
  List.pairwise_lt_range.filter _

lemma toNat_bit (hi : i < 32) : (bit i).toNat = 2 ^ i := by
  rw [bit, UInt32.toNat_ofNat']
  exact Nat.mod_eq_of_lt (Nat.pow_lt_pow_right (by omega) hi)

lemma testBit_foldl_bit {bits : List ℕ} (hbits : ∀ i ∈ bits, i < 32) (a : Word) (j : ℕ) :
    ((bits.map bit).foldl (· ||| ·) a).toNat.testBit j
      = (a.toNat.testBit j || decide (j ∈ bits)) := by
  induction bits generalizing a with
  | nil => simp
  | cons i bits ih =>
    obtain ⟨hi, hbits⟩ := List.forall_mem_cons.mp hbits
    rw [List.map_cons, List.foldl_cons, ih hbits, UInt32.toNat_or, Nat.testBit_or, toNat_bit hi,
      Nat.testBit_two_pow, Bool.or_assoc]
    congr 1
    simp [eq_comm (a := i)]

/-- A mask is made of its bits. -/
lemma foldl_setBits (w : Word) : (w.setBits.map bit).foldl (· ||| ·) 0 = w := by
  refine UInt32.toNat_inj.mp (Nat.eq_of_testBit_eq fun j => ?_)
  rw [testBit_foldl_bit fun i hi => (mem_setBits.mp hi).1]
  rcases Nat.lt_or_ge j 32 with hj | hj
  · simp [mem_setBits, hj]
  · have hbit : w.toNat.testBit j = false :=
      Nat.testBit_lt_two_pow (w.toNat_lt.trans_le (Nat.pow_le_pow_right (by omega) hj))
    simp [mem_setBits, hbit]

end Word

namespace Category

variable {c : Category} {w : Word} {i j : ℕ} {bits : List ℕ} {rows : List NamedValue}
  {needs : List Slot}

/-- The rows of the bits, in the same order. -/
def RowsOf (c : Category) : List ℕ → List NamedValue → Prop :=
  List.Forall₂ fun i row => c.ofValue? (Word.bit i) = some row

/-- Of the bits that have no row this is the highest. -/
structure HighestUnnamed (c : Category) (bits : List ℕ) (i : ℕ) : Prop where
  mem : i ∈ bits
  unnamed : c.ofValue? (Word.bit i) = none
  higher : ∀ j ∈ bits, i < j → (c.ofValue? (Word.bit j)).isSome

namespace RowsOf

lemma isSome (h : c.RowsOf bits rows) : ∀ i ∈ bits, (c.ofValue? (Word.bit i)).isSome := by
  induction h with
  | nil => simp
  | cons hrow _ ih => exact List.forall_mem_cons.mpr ⟨by simp [hrow], ih⟩

lemma exists_of_isSome (h : ∀ i ∈ bits, (c.ofValue? (Word.bit i)).isSome) :
    ∃ rows, c.RowsOf bits rows := by
  induction bits with
  | nil => exact ⟨[], .nil⟩
  | cons i bits ih =>
    obtain ⟨hi, hbits⟩ := List.forall_mem_cons.mp h
    obtain ⟨row, hrow⟩ := Option.isSome_iff_exists.mp hi
    obtain ⟨rows, hrows⟩ := ih hbits
    exact ⟨row :: rows, .cons hrow hrows⟩

lemma mem_values (h : c.RowsOf bits rows) : ∀ row ∈ rows, row ∈ c.values := by
  induction h with
  | nil => simp
  | cons hrow _ ih => exact List.forall_mem_cons.mpr ⟨mem_values_of_ofValue? hrow, ih⟩

lemma map_value (h : c.RowsOf bits rows) : rows.map (·.value) = bits.map Word.bit := by
  induction h with
  | nil => rfl
  | @cons i row _ _ hrow _ ih =>
    have hvalue : row.value = Word.bit i := by simpa using List.find?_some hrow
    rw [List.map_cons, List.map_cons, ih, hvalue]

lemma mapM_eq (h : c.RowsOf bits rows) :
    bits.mapM (fun i => c.ofValue? (Word.bit i)) = some rows := by
  induction h with
  | nil => rfl
  | cons hrow _ ih => simp [hrow, ih]

lemma maskOperands_eq (h : c.RowsOf w.setBits rows) :
    c.maskOperands w = rows.flatMap (·.operands) := by
  rw [maskOperands]
  generalize w.setBits = bits at h ⊢
  induction h with
  | nil => rfl
  | cons hrow _ ih =>
    rw [List.flatMap_cons, List.flatMap_cons, ih, hrow, Option.map_some, Option.getD_some]

end RowsOf

lemma HighestUnnamed.eq (hi : c.HighestUnnamed bits i) (hj : c.HighestUnnamed bits j) : i = j := by
  rcases lt_trichotomy i j with h | h | h
  · simpa [hj.unnamed] using hi.higher j hj.mem h
  · exact h
  · simpa [hi.unnamed] using hj.higher i hi.mem h

/-- The row of the empty mask asks for nothing. -/
lemma operands_of_zero (hc : c.isMask) : ((c.ofValue? 0).map (·.operands)).getD [] = [] := by
  have hall : c.isMask → ((c.ofValue? 0).map (·.operands)).getD [] = [] := by cases c <;> decide
  exact hall hc

/-- A mask is taken as the rows of its bits or refused for the highest bit without a row. -/
lemma checkMask_cases (hc : c.isMask) (w : Word) :
    (∃ rows, c.RowsOf w.setBits rows ∧ c.checkMask w = .ok (rows.flatMap (·.operands))) ∨
      ∃ i, c.HighestUnnamed w.setBits i ∧ c.checkMask w = .error (Word.bit i) := by
  by_cases h0 : w = 0
  · subst h0
    exact .inl ⟨[], .nil, by rw [checkMask, if_pos rfl, operands_of_zero hc, List.flatMap_nil]⟩
  rw [checkMask, if_neg h0, List.foldlM_reverse]
  have hsorted := w.pairwise_setBits
  generalize w.setBits = bits at hsorted ⊢
  induction bits with
  | nil => exact .inl ⟨[], .nil, rfl⟩
  | cons i bits ih =>
    obtain ⟨hlow, hsorted⟩ := List.pairwise_cons.mp hsorted
    rw [List.foldrM_cons]
    rcases ih hsorted with ⟨rows, hrows, heq⟩ | ⟨j, hj, heq⟩
    · rcases hrow : c.ofValue? (Word.bit i) with _ | row
      · refine .inr ⟨i, ⟨.head _, hrow, fun j hj hij => ?_⟩, by simp [heq, bind, Except.bind]⟩
        exact hrows.isSome j ((List.mem_cons.mp hj).resolve_left hij.ne')
      · exact .inl ⟨row :: rows, .cons hrow hrows, by simp [heq, bind, Except.bind]⟩
    · refine .inr ⟨j, ⟨.tail _ hj.mem, hj.unnamed, fun k hk hjk => ?_⟩, by rw [heq]; rfl⟩
      have hne : k ≠ i := by
        rintro rfl
        exact hjk.not_gt (hlow j hj.mem)
      exact hj.higher k ((List.mem_cons.mp hk).resolve_left hne) hjk

/-- A mask is accepted if each of its bits has a row, and it then asks for what they ask for. -/
lemma checkMask_eq_ok_iff (hc : c.isMask) : c.checkMask w = .ok needs ↔
    (∀ i ∈ w.setBits, (c.ofValue? (Word.bit i)).isSome) ∧ needs = c.maskOperands w := by
  rcases checkMask_cases hc w with ⟨rows, hrows, heq⟩ | ⟨i, hi, heq⟩
  · rw [heq, Except.ok.injEq, hrows.maskOperands_eq]
    exact ⟨fun h => ⟨hrows.isSome, h.symm⟩, fun h => h.2.symm⟩
  · refine ⟨fun h => by simp [heq] at h, fun h => ?_⟩
    simpa [hi.unnamed] using h.1 i hi.mem

lemma checkMask_eq_error_iff (hc : c.isMask) {bit : Word} : c.checkMask w = .error bit ↔
    ∃ i, c.HighestUnnamed w.setBits i ∧ bit = Word.bit i := by
  rcases checkMask_cases hc w with ⟨rows, hrows, heq⟩ | ⟨i, hi, heq⟩
  · refine ⟨fun h => by simp [heq] at h, ?_⟩
    rintro ⟨i, hi, -⟩
    simpa [hi.unnamed] using hrows.isSome i hi.mem
  · rw [heq, Except.error.injEq]
    refine ⟨fun h => ⟨i, hi, h.symm⟩, ?_⟩
    rintro ⟨j, hj, rfl⟩
    rw [hi.eq hj]

end Category

end Spirv
