import Mathlib
import Spirv.Proofs.Decoding.Module

/-!
Decoding tiles a module: the operands of an instruction cover its words after the first without gap
or overlap, and the instructions cover the body of the module as far as it was read.
-/

namespace Spirv

/-- The words of the instruction are as many as its first word says, and its operands cover those
after the first, each once. -/
structure Instruction.Tiled (i : Instruction) : Prop where
  length : ∃ lead, i.words[0]? = some lead ∧ i.words.size = lead.toNat / 2 ^ 16
  first : ∀ r, i.operands[0]? = some r → r.offset = 1
  next : ∀ (k : ℕ) r r', i.operands[k]? = some r → i.operands[k + 1]? = some r' →
    r'.offset = r.offset + r.wordCount
  nonempty : ∀ r ∈ i.operands, 1 ≤ r.wordCount
  last : ∀ r, i.operands.back? = some r → r.offset + r.wordCount = i.words.size
  bare : i.operands = #[] → i.words.size = 1

namespace Piece

lemma offset_of_head? {n : ℕ} {ps : List Piece} {r : OperandRecord}
    (h : (records n ps)[0]? = some r) : r.offset = n := by
  rcases ps with _ | ⟨p, ps⟩
  · simp [records] at h
  · obtain rfl := by simpa [records] using h
    rfl

lemma offset_of_getElem?_succ {n k : ℕ} {ps : List Piece} {r r' : OperandRecord}
    (h : (records n ps)[k]? = some r) (h' : (records n ps)[k + 1]? = some r') :
    r'.offset = r.offset + r.wordCount := by
  induction ps generalizing n k with
  | nil => simp [records] at h
  | cons p ps ih =>
    rcases k with _ | k
    · obtain rfl := by simpa [records] using h
      exact offset_of_head? (by simpa [records] using h')
    · exact ih (by simpa [records] using h) (by simpa [records] using h')

lemma end_of_getLast? {n : ℕ} {ps : List Piece} {r : OperandRecord}
    (h : (records n ps).getLast? = some r) : r.offset + r.wordCount = n + (wordsOf ps).length := by
  induction ps generalizing n with
  | nil => simp [records] at h
  | cons p ps ih =>
    rcases ps with _ | ⟨q, ps⟩
    · obtain rfl := by simpa [records] using h
      simp
    · have := ih (n := n + p.words.length) (by simpa [records, List.getLast?_cons_cons] using h)
      rw [this, wordsOf_cons p, List.length_append, Nat.add_assoc]

lemma exists_of_mem_records {n : ℕ} {ps : List Piece} {r : OperandRecord}
    (h : r ∈ records n ps) : ∃ p ∈ ps, r.wordCount = p.words.length := by
  induction ps generalizing n with
  | nil => simp [records] at h
  | cons p ps ih =>
    rcases List.mem_cons.mp h with rfl | h
    · exact ⟨p, by simp, rfl⟩
    · obtain ⟨q, hq, hr⟩ := ih h
      exact ⟨q, by simp [hq], hr⟩

end Piece

lemma Word.splitLead_fst_toNat (w : Word) : (splitLead w).1.toNat = w.toNat / 2 ^ 16 := by
  have := w.toNat_lt
  simp only [splitLead, UInt32.toNat_toUInt16, UInt32.toNat_div, UInt32.reduceToNat]
  omega

lemma Decodes.tiled {earlier : List Instruction} {i : Instruction} {ps : List Piece}
    (h : Decodes earlier i ps) : i.Tiled where
  length := by
    obtain ⟨lead, hw, hcount, -⟩ := h.words
    refine ⟨lead, ?_, ?_⟩
    · rw [← Array.getElem?_toList, hw]
      rfl
    · rw [← hcount, Word.splitLead_fst_toNat]
  first r hr := Piece.offset_of_head? (by simpa [h.operands] using hr)
  next k r r' hr hr' :=
    Piece.offset_of_getElem?_succ (by simpa [h.operands] using hr)
      (by simpa [h.operands] using hr')
  nonempty r hr := by
    obtain ⟨p, hp, hr⟩ := Piece.exists_of_mem_records (by simpa [h.operands] using hr)
    have := List.length_pos_iff.mpr (h.filling.words_ne_nil p hp)
    omega
  last r hr := by
    obtain ⟨lead, hw, -⟩ := h.words
    rw [Piece.end_of_getLast? (n := 1) (by simpa [h.operands] using hr), ← Array.length_toList, hw,
      List.length_cons, Nat.add_comm]
  bare he := by
    obtain ⟨lead, hw, -⟩ := h.words
    obtain rfl : ps = [] := by
      rcases ps with _ | ⟨p, ps⟩
      · rfl
      · simp [h.operands, Piece.records] at he
    rw [← Array.length_toList, hw]
    rfl

namespace Binary

variable {σ β : Type}

/-- **Decoding tiles the module.** Every instruction shown is tiled by its operands. The instructions
make up the body of the module if reading completes and a prefix of it otherwise. -/
theorem shown_tiles (v : Visitor σ β) (s : σ) (words : List Word) :
    (∀ i ∈ shown v s words, i.Tiled) ∧ codeOf (shown v s words) <+: body words ∧
      ((visit v s words).2 = .ok .completed → codeOf (shown v s words) = body words) := by
  obtain ⟨hd, rest, hbody, hdone⟩ := decodable_shown v s words
  refine ⟨fun i hi => ?_, ⟨rest, hbody.symm⟩, fun hc => ?_⟩
  · obtain ⟨_, _, hi⟩ := hd.exists_decodes hi
    exact hi.tiled
  · rw [hbody, hdone hc, List.append_nil]

end Binary

end Spirv
