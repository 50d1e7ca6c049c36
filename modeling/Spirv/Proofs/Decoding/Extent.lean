import Mathlib
import Spirv.Proofs.Decoding.Causality
import Spirv.Proofs.Decoding.Sentence

/-!
How far reading goes.

An operand never ends behind the words that are left, though it may end behind its instruction. So
the place of the next word moves on with every operand and never past the end of the module, and an
error is found no earlier than at the instruction it is about and no later than at the end.
-/

namespace Spirv

lemma length_hostOrder (words : List Word) : (hostOrder words).length = words.length := by
  rw [hostOrder]
  split <;> simp

namespace Binary

variable {d d' : Defined} {draft : Draft} {slot : Slot} {offset count start : ℕ} {lead w : Word}
  {after input : List Word} {r : Reading} {records : Array OperandRecord} {p : Pattern}
  {o : Operands} {e : Error} {i : Instruction}

/-! ### One operand -/

/-- A type that numbers are read of is between one and two words wide. -/
lemma width_of_numberType {id : Word} {t : NumberType} (h : d.numberType id = .ok t) :
    1 ≤ t.width ∧ t.width ≤ 64 := by
  rw [Defined.numberType] at h
  split at h
  next => simp at h
  next => simp at h
  next type _ =>
    split at h
    next => simp at h
    next hw =>
      obtain rfl := Except.ok.inj h
      simp only [Bool.or_eq_true, decide_eq_true_eq, not_or] at hw
      omega

lemma width_of_governing {t : NumberType} (h : d.governing draft = .ok t) :
    1 ≤ t.width ∧ t.width ≤ 64 := by
  rw [Defined.governing] at h
  split at h
  next =>
    rw [Defined.selectorType] at h
    split at h
    next => simp at h
    split at h
    next => simp at h
    split at h
    next => simp at h
    next t' ht' =>
      split at h
      next =>
        obtain rfl := Except.ok.inj h
        exact width_of_numberType ht'
      next => simp at h
  next => exact width_of_numberType h

/-- What an operand takes of the words left, and how wide the number is that it is read as. -/
structure Fits (after : List Word) (r : Reading) : Prop where
  length : r.moreWords ≤ after.length
  number : ∀ t, r.number? = some t →
    (1 ≤ t.width ∧ t.width ≤ 64) ∧ r.moreWords + 1 = (t.width + 31) / 32

lemma Fits.single (slot : Slot) (needs : List Slot) (meaning : Meaning) :
    Fits after (.single slot needs meaning) :=
  ⟨Nat.zero_le _, by simp [Reading.single]⟩

lemma fits_of_readTyped (h : readTyped d draft slot offset after = .ok r) : Fits after r := by
  rw [readTyped] at h
  split at h
  next => simp at h
  next t ht =>
    obtain ⟨hpos, hle⟩ := width_of_governing ht
    split at h
    next => simp at h
    next hend =>
      obtain rfl := Except.ok.inj h
      have hcount : t.wordCount = (t.width + 31) / 32 := rfl
      refine ⟨?_, ?_⟩
      · dsimp only
        simp only [Bool.and_eq_true, decide_eq_true_eq, List.isEmpty_iff, not_and] at hend
        rcases after with _ | ⟨v, after⟩
        · have : ¬ 32 < t.width := fun hlt => hend hlt rfl
          omega
        · rw [List.length_cons]
          omega
      · rintro t' ht'
        obtain rfl := Option.some.inj ht'
        exact ⟨⟨hpos, hle⟩, by dsimp only; omega⟩

lemma fits_of_readString (h : readString draft slot offset (w :: after) = .ok r) :
    Fits after r := by
  rw [readString] at h
  split at h
  next => simp at h
  next bytes count hunpack =>
    obtain ⟨ws, tail, hwords, -, -, rfl⟩ := PackedString.exists_of_unpack? hunpack
    have hlen : ws.length ≤ after.length + 1 := by
      have := congrArg List.length hwords
      simp only [List.length_cons, List.length_append] at this
      omega
    split at h
    · dsimp only at h
      split at h
      · obtain rfl := Except.ok.inj h
        exact ⟨by dsimp only; omega, by simp⟩
      · simp at h
    · obtain rfl := Except.ok.inj h
      exact ⟨by dsimp only; omega, by simp⟩

/-- **An operand ends where the words do or before, and a number is as long as its type is wide.** -/
theorem fits_of_readOperand (h : readOperand d draft slot offset w after = .ok r) :
    Fits after r := by
  have hinteger : Fits after ⟨.integer, some ⟨.unsigned, 32⟩, 0, [], .plain⟩ :=
    ⟨Nat.zero_le _, by simp⟩
  have hkind : ∀ k, readKind d draft slot offset w after k = .ok r → Fits after r := by
    intro k h
    cases k with
    | integer => exact Except.ok.inj h ▸ hinteger
    | typedNumber => exact fits_of_readTyped h
    | string => exact fits_of_readString h
    | typeId | resultId | id | scopeId | memorySemanticsId | extended | specOpcode | named =>
      -- all of these are operands of one word that are no numbers
      simp only [readKind, readId, readSpecOpcode, readNamed] at h
      repeat' split at h
      all_goals first
        | exact Except.ok.inj h ▸ Fits.single ..
        | simp at h
  cases slot with
  | one k | optional k | second k => exact hkind k h
  | free => exact Except.ok.inj h ▸ hinteger
  | nothing | many | pairs => simp [readOperand] at h

/-! ### The operands of an instruction -/

@[simp] lemma Meaning.apply_start (d : Defined) (draft : Draft) (m : Meaning) :
    (m.apply d draft).2.start = draft.start := by
  cases m <;> rfl

@[simp] lemma Meaning.apply_words (d : Defined) (draft : Draft) (m : Meaning) :
    (m.apply d draft).2.words = draft.words := by
  cases m <;> rfl

/-- Operands that are read end with their instruction, which ends with the words or before. -/
lemma le_of_readOperands (h : readOperands count d draft records p offset input = .ok o) :
    offset ≤ count ∧ count ≤ offset + input.length := by
  fun_induction readOperands count d draft records p offset input with
  | case1 d draft records p offset input hcount =>
    obtain ⟨-, rfl, -⟩ := finishOperands_eq_ok_iff.mp h
    omega
  | case5 d draft records p offset hcount slot rest ht w after r hread d' draft' happly ih =>
    have hlen := (fits_of_readOperand hread).length
    have := ih h
    simp only [List.length_drop, List.length_cons] at this ⊢
    omega
  | _ => simp at h

/-- The place of an error among operands is between the start of the instruction and the end of the
words. -/
lemma exists_index_of_readOperands
    (h : readOperands count d draft records p offset input = .error e) :
    ∃ fault index, e = .binary fault index ∧ draft.start ≤ index ∧
      index ≤ draft.start + offset + input.length := by
  fun_induction readOperands count d draft records p offset input with
  | case1 d draft records p offset input hcount =>
    rw [finishOperands] at h
    split at h
    · exact ⟨_, _, (Except.error.inj h).symm, le_rfl, by dsimp only; omega⟩
    · split at h
      · exact ⟨_, _, (Except.error.inj h).symm, le_rfl, by dsimp only; omega⟩
      · simp at h
  | case5 d draft records p offset hcount slot rest ht w after r hread d' draft' happly ih =>
    obtain ⟨fault, index, rfl, hstart, hindex⟩ := ih h
    have hlen := (fits_of_readOperand hread).length
    have hsame : draft'.start = draft.start := by rw [← Meaning.apply_start d draft r.meaning, happly]
    rw [hsame] at hstart hindex
    refine ⟨fault, index, rfl, hstart, ?_⟩
    simp only [List.length_drop, List.length_cons] at hindex ⊢
    omega
  | case2 | case3 | case4 =>
    exact ⟨_, _, (Except.error.inj h).symm, by omega, by omega⟩

/-! ### The instruction -/

/-- The instruction is the words from its first on, as many as that one says. -/
lemma words_of_readInstruction (h : readInstruction d start lead after = .ok (d', i)) :
    i.words.toList = (lead :: after).take (Word.splitLead lead).1.toNat ∧
      1 ≤ (Word.splitLead lead).1.toNat ∧
      (Word.splitLead lead).1.toNat ≤ after.length + 1 := by
  obtain ⟨-, op, o, -, ho, rfl, -⟩ := readInstruction_eq_ok_iff.mp h
  obtain ⟨hpos, hle⟩ := le_of_readOperands ho
  exact ⟨rfl, hpos, by omega⟩

lemma size_of_readInstruction (h : readInstruction d start lead after = .ok (d', i)) :
    i.words.size = (Word.splitLead lead).1.toNat ∧ 1 ≤ i.words.size ∧
      i.words.size ≤ after.length + 1 := by
  obtain ⟨hwords, hpos, hle⟩ := words_of_readInstruction h
  have hsize : i.words.size = (Word.splitLead lead).1.toNat := by
    rw [← Array.length_toList, hwords, List.length_take, List.length_cons]
    omega
  exact ⟨hsize, by omega, by omega⟩

/-- **An error in an instruction is found at its first word, at a later one or at the end.** -/
lemma exists_index_of_readInstruction (h : readInstruction d start lead after = .error e) :
    ∃ fault index, e = .binary fault index ∧ start ≤ index ∧ index ≤ start + (after.length + 1) := by
  rw [readInstruction] at h
  dsimp only at h
  split at h
  next => exact ⟨_, _, (Except.error.inj h).symm, le_rfl, by omega⟩
  split at h
  next => exact ⟨_, _, (Except.error.inj h).symm, le_rfl, by omega⟩
  split at h
  next e' he =>
    obtain rfl := Except.error.inj h
    obtain ⟨fault, index, rfl, hstart, hindex⟩ := exists_index_of_readOperands he
    exact ⟨fault, index, rfl, hstart, by dsimp only at hindex; omega⟩
  next => simp at h

/-! ### The instructions before a place -/

variable {words rest : List Word} {earlier : List Instruction}

/-- What has been read of a module makes up its words as far as it was read. -/
lemma Boundary.exists_hostOrder_eq (h : Boundary words d start earlier rest) :
    ∃ header code, readHeader words = .ok (header, code) ∧
      hostOrder words = header.words ++ codeOf earlier ++ rest ∧
      start = Header.wordCount + (codeOf earlier).length := by
  induction h with
  | @start header rest hread =>
    exact ⟨header, rest, hread, by simpa using (readHeader_eq_ok_iff.mp hread).2, rfl⟩
  | @next d d' start earlier lead after i _ hread ih =>
    obtain ⟨header, code, hheader, hwords, rfl⟩ := ih
    obtain ⟨hsize, hpos, -⟩ := size_of_readInstruction hread
    have hi : lead :: after = i.words.toList ++ after.drop (i.words.size - 1) := by
      rw [(words_of_readInstruction hread).1, ← hsize, ← Nat.succ_pred_eq_of_pos hpos,
        List.take_succ_cons, List.cons_append, Nat.succ_sub_one, List.take_append_drop]
    refine ⟨header, code, hheader, ?_, ?_⟩
    · rw [hwords, hi, codeOf, codeOf, List.flatMap_append, List.flatMap_singleton]
      simp only [List.append_assoc]
    · simp [codeOf, Nat.add_assoc]

/-- An instruction is read from the index up to which the module has been read. -/
lemma Boundary.at_index (h : Boundary words d start earlier rest) :
    start + rest.length = words.length ∧ rest = (hostOrder words).drop start := by
  obtain ⟨header, _, -, hwords, hstart⟩ := h.exists_hostOrder_eq
  have hheader : header.words.length = Header.wordCount := rfl
  have hfront : (header.words ++ codeOf earlier).length = start := by
    rw [List.length_append, hheader, hstart]
  refine ⟨?_, by rw [hwords, ← hfront, List.drop_left]⟩
  rw [← length_hostOrder words, hwords, List.length_append, hfront]

end Binary

end Spirv
