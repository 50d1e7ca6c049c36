import Mathlib
import Spirv.Proofs.Encoding.Filling

/-!
Masks in words and in text.

The operands that a mask asks for are found in two ways. The decoder goes through the bits from the
highest down and refuses a mask with a bit that has no row; the assembler, which has the mask from the
names of its bits, would pass over such a bit. After a mask that the decoder accepts both have the same
slots to fill, and a mask that is written by names is one that the decoder accepts.
-/

namespace Spirv

variable {c : Category} {s : Slot}

namespace Binary

variable {d : Defined} {draft : Draft} {offset : ℕ} {w : Word} {after : List Word} {r : Reading}
  {fault : Fault}

/-- A mask is read if each of its bits has a row, and it asks for what they ask for. -/
lemma readOperand_mask_eq_ok_iff (hc : c.isMask) (hs : s.kind? = some (.named c)) :
    readOperand d draft s offset w after = .ok r ↔
      (∀ i ∈ w.setBits, (c.ofValue? (Word.bit i)).isSome) ∧
        r = .single s (c.maskOperands w) .plain := by
  rw [readOperand_of_kind? hs, readKind, readNamed, if_pos hc]
  rcases hcheck : c.checkMask w with bit | needs
  · refine ⟨fun h => by simp at h, fun h => ?_⟩
    simp [(Category.checkMask_eq_ok_iff hc).mpr ⟨h.1, rfl⟩] at hcheck
  · obtain ⟨hbits, rfl⟩ := (Category.checkMask_eq_ok_iff hc).mp hcheck
    exact ⟨fun h => ⟨hbits, (Except.ok.inj h).symm⟩, fun h => h.2 ▸ rfl⟩

/-- A mask is refused for the highest of its bits that have no row. -/
lemma readOperand_mask_eq_error_iff (hc : c.isMask) (hs : s.kind? = some (.named c)) :
    readOperand d draft s offset w after = .error fault ↔
      ∃ i, c.HighestUnnamed w.setBits i ∧ fault = .badMaskBit c w (Word.bit i) := by
  rw [readOperand_of_kind? hs, readKind, readNamed, if_pos hc]
  rcases hcheck : c.checkMask w with bit | needs
  · obtain ⟨i, hi, rfl⟩ := (Category.checkMask_eq_error_iff hc).mp hcheck
    refine ⟨fun h => ⟨i, hi, (Except.error.inj h).symm⟩, ?_⟩
    rintro ⟨j, hj, rfl⟩
    rw [hj.eq hi]
  · refine ⟨fun h => by simp at h, ?_⟩
    rintro ⟨i, hi, -⟩
    simp [(Category.checkMask_eq_error_iff hc).mpr ⟨i, hi, rfl⟩] at hcheck

end Binary

namespace Assembly

/-- The word of a mask stands for the bits that it names, and each of these has a row. -/
lemma exists_mask_of_readOperand {d : Declared} {op : Opcode} {done : Array Word}
    {chars : List Char} {r : Reading} (hc : c.isMask) (hs : s.kind? = some (.named c))
    (hraw : isRaw chars = false) (h : readOperand d op done s chars = .ok r) :
    ∃ w, (∀ i ∈ w.setBits, (c.ofValue? (Word.bit i)).isSome) ∧
      r = .value [w] (c.maskOperands w) := by
  rcases readNamed_eq_ok (readKind_of_readOperand hraw hs h) with ⟨-, w, hw, hr⟩ | ⟨henum, -⟩
  · exact ⟨w, isSome_of_maskOfText hc hw, hr⟩
  · simp [hc] at henum

end Assembly

/-- **Masks ask for the same operands in words and in text.** Take a slot for a mask, required or
optional. The decoder reads a word there exactly if each bit that is set has a row in the table of the
category, and otherwise its message names the highest bit that has none. Once it has read the mask, the
slots to fill are those that the rows ask for, the row of the lowest bit first, and then the slots there
were before; they are what the assembler has to fill after this mask. And whatever names the assembler
takes for a mask, the decoder accepts the mask and goes on with the same slots. -/
theorem masks_alike (hc : c.isMask) (hs : s.kind? = some (.named c)) (p : Pattern)
    (d : Binary.Defined) (draft : Binary.Draft) (offset : ℕ) (after : List Word) :
    (∀ w, (∃ r, Binary.readOperand d draft s offset w after = .ok r) ↔
        ∀ i ∈ w.setBits, (c.ofValue? (Word.bit i)).isSome) ∧
      (∀ w fault, Binary.readOperand d draft s offset w after = .error fault →
        ∃ i, c.HighestUnnamed w.setBits i ∧
          fault.message = "Invalid " ++ c.description ++ " operand: " ++ toString w.toNat ++
            " has invalid mask component " ++ toString (2 ^ i)) ∧
      (∀ w r, Binary.readOperand d draft s offset w after = .ok r →
        r.needs ++ p = c.maskOperands w ++ p ∧
          (Assembly.Reading.value [w] (c.maskOperands w)).patternAfter s p = r.needs ++ p ∧
          ∃ rows, c.RowsOf w.setBits rows ∧ r.needs ++ p = rows.flatMap (·.operands) ++ p) ∧
      ∀ declared op done chars reading, Assembly.isRaw chars = false →
        Assembly.readOperand declared op done s chars = .ok reading →
        ∃ w r, reading = .value [w] r.needs ∧
          Binary.readOperand d draft s offset w after = .ok r ∧
          reading.patternAfter s p = r.needs ++ p := by
  have hafter : ∀ w needs, (Assembly.Reading.value [w] needs).patternAfter s p = needs ++ p := by
    refine fun w needs => Assembly.patternAfter_eq ?_ (by simp)
    rintro rfl
    simp [Slot.kind?] at hs
  refine ⟨fun w => ?_, fun w fault h => ?_, fun w r h => ?_,
    fun declared op done chars reading hraw h => ?_⟩
  · simp only [Binary.readOperand_mask_eq_ok_iff hc hs, exists_and_left, exists_eq, and_true]
  · obtain ⟨i, hi, rfl⟩ := (Binary.readOperand_mask_eq_error_iff hc hs).mp h
    have hbit : (Word.bit i).toNat = 2 ^ i := Word.toNat_bit (Word.mem_setBits.mp hi.mem).1
    refine ⟨i, hi, ?_⟩
    rw [← hbit]
    rfl
  · obtain ⟨hbits, rfl⟩ := (Binary.readOperand_mask_eq_ok_iff hc hs).mp h
    obtain ⟨rows, hrows⟩ := Category.RowsOf.exists_of_isSome hbits
    exact ⟨rfl, hafter _ _, rows, hrows, by rw [← hrows.maskOperands_eq]; rfl⟩
  · obtain ⟨w, hbits, rfl⟩ := Assembly.exists_mask_of_readOperand hc hs hraw h
    exact ⟨w, .single s (c.maskOperands w) .plain, rfl,
      (Binary.readOperand_mask_eq_ok_iff hc hs).mpr ⟨hbits, rfl⟩, hafter _ _⟩

namespace Sample

/-- An instruction whose image operands come after three words and its first word. -/
def sampling : Binary.Draft := ⟨.opImageSampleImplicitLod, 5, [], 1, 2, none⟩

/-- The slot of image operands and the ids that they are followed by. -/
def imageSlot : Slot := .optional (.named .imageOperands)

end Sample

/-- The bits 0 and 2 ask for one id and for two. Of the bits 8 and 11, neither of which has a row, the
message names the higher one. -/
theorem masks_alike_sample : Category.imageOperands.isMask ∧
    Sample.imageSlot.kind? = some (.named .imageOperands) ∧
    (∃ r, Binary.readOperand .empty Sample.sampling Sample.imageSlot 5 5 [] = .ok r ∧
      r.needs ++ [.many .id] = [.id, .id, .id, .many .id]) ∧
    ∃ fault, Binary.readOperand .empty Sample.sampling Sample.imageSlot 5 2309 [] = .error fault ∧
      fault.message = "Invalid image operand: 2309 has invalid mask component 2048" := by
  have hs : Sample.imageSlot.kind? = some (.named .imageOperands) := rfl
  obtain ⟨hread, hfault, hneeds, -⟩ :=
    masks_alike rfl hs [.many .id] .empty Sample.sampling 5 []
  refine ⟨rfl, hs, ?_, ?_⟩
  · obtain ⟨r, hr⟩ := (hread 5).mpr (by decide)
    exact ⟨r, hr, (hneeds 5 r hr).1.trans (by decide)⟩
  · rcases hr : Binary.readOperand .empty Sample.sampling Sample.imageSlot 5 2309 [] with fault | r
    · obtain ⟨i, hi, hmessage⟩ := hfault 2309 fault hr
      have hi : i = 11 := hi.eq ⟨by decide, by decide, by decide⟩
      exact ⟨fault, rfl, hmessage.trans (by rw [hi]; decide)⟩
    · exact absurd ((hread 2309).mp ⟨r, hr⟩) (by decide)

end Spirv
