import Mathlib
import Spirv.Proofs.Decoding.Filling

/-!
Instructions that may stand one after the other in a module.

`Decodes` says of an instruction that its words may stand after other instructions and that its
operands are those of a filling. The operands for its result come first; no two instructions have
one result.
-/

namespace Spirv

open Piece

namespace Context

/-- The result of the instruction, or zero. -/
def resultId (c : Context) : Word :=
  if c.opcode.hasResult then c.before.getD (if c.opcode.hasType then 1 else 0) 0 else 0

end Context

/-- The instruction may stand after the others, and these are its operands. -/
structure Decodes (earlier : List Instruction) (i : Instruction) (ps : List Piece) : Prop where
  filling : Filling ⟨earlier, i.opcode, []⟩ i.opcode.operands ps
  words : ∃ lead, i.words.toList = lead :: wordsOf ps ∧
    (Word.splitLead lead).1.toNat = i.words.size ∧ (Word.splitLead lead).2 = i.opcode.value
  operands : i.operands = (Piece.records 1 ps).toArray
  typeId : i.typeId = Context.typeId ⟨earlier, i.opcode, wordsOf ps⟩
  resultId : i.resultId = Context.resultId ⟨earlier, i.opcode, wordsOf ps⟩
  set : ∀ set, i.extendedSet? = some set ↔ Context.UsesSet ⟨earlier, i.opcode, wordsOf ps⟩ set

/-- The instructions were decoded one after the other. -/
inductive Decodable : List Instruction → Prop where
  | nil : Decodable []
  | snoc {earlier : List Instruction} {i : Instruction} {ps : List Piece}
    (earlier_ok : Decodable earlier) (decodes : Decodes earlier i ps) : Decodable (earlier ++ [i])

/-! ### The result in front -/

namespace Filling

variable {c : Context} {p : Pattern} {ps : List Piece}

lemma typeId_iff : Filling c (.typeId :: p) ps ↔ ∃ w qs, ps = ⟨.typeId, [w], none⟩ :: qs ∧ w ≠ 0 ∧
    Filling (c.push [w]) p qs := by
  constructor
  · rintro (h | ⟨ht, hk, ho, hf⟩)
    · simp [Slot.isOptional] at h
    · obtain ⟨rfl, rfl⟩ := by simpa [Pattern.take?] using ht
      obtain rfl : OperandKind.typeId = _ := by simpa [Slot.kind?] using hk
      cases ho with
      | typeId hne => exact ⟨_, _, rfl, hne, hf⟩
  · rintro ⟨w, qs, rfl, hne, hf⟩
    exact .next rfl rfl (.typeId hne) hf

lemma resultId_iff : Filling c (.resultId :: p) ps ↔ ∃ w qs, ps = ⟨.resultId, [w], none⟩ :: qs ∧
    (w ≠ 0 ∧ ∀ i ∈ c.earlier, i.resultId ≠ w) ∧ Filling (c.push [w]) p qs := by
  constructor
  · rintro (h | ⟨ht, hk, ho, hf⟩)
    · simp [Slot.isOptional] at h
    · obtain ⟨rfl, rfl⟩ := by simpa [Pattern.take?] using ht
      obtain rfl : OperandKind.resultId = _ := by simpa [Slot.kind?] using hk
      cases ho with
      | resultId hne hnew => exact ⟨_, _, rfl, ⟨hne, hnew⟩, hf⟩
  · rintro ⟨w, qs, rfl, ⟨hne, hnew⟩, hf⟩
    exact .next rfl rfl (.resultId hne hnew) hf

lemma string_iff : Filling c [.string] ps ↔ ∃ ws, ps = [⟨.string, ws, none⟩] ∧
    Operand c .string ws none [] := by
  constructor
  · rintro (h | ⟨ht, hk, ho, hf⟩)
    · simp [Slot.isOptional] at h
    · obtain ⟨rfl, rfl⟩ := by simpa [Pattern.take?] using ht
      obtain rfl : OperandKind.string = _ := by simpa [Slot.kind?] using hk
      cases ho with
      | string hs hset =>
        cases hf with
        | done => exact ⟨_, rfl, .string hs hset⟩
        | next ht => simp [Pattern.take?] at ht
  · rintro ⟨ws, rfl, ho⟩
    exact .next rfl rfl ho (.done (by simp))

end Filling

/-- No operand after the result is one. -/
lemma Filling.kind_ne {c : Context} {p : Pattern} {ps : List Piece} (h : Filling c p ps)
    (hp : ∀ s ∈ p, s.isInner) : ∀ q ∈ ps, q.kind ≠ .typeId ∧ q.kind ≠ .resultId := by
  induction h with
  | done => simp
  | next ht hk ho _ ih =>
    obtain ⟨⟨k, hk', hne⟩, hrest⟩ := Pattern.kind_of_take? hp ht
    obtain rfl := Option.some.inj (hk.symm.trans hk')
    refine List.forall_mem_cons.mpr ⟨hne, ih fun s hs => ?_⟩
    exact (List.mem_append.mp hs).elim ho.isInner_of_mem (hrest s)

/-- The operands for the result in front of an instruction. -/
inductive Result (earlier : List Instruction) (op : Opcode) : List Piece → Prop where
  | absent (result : op.hasResult = false) : Result earlier op []
  | untyped {r : Word} (result : op.hasResult = true) (type : op.hasType = false) (ne : r ≠ 0)
    (new : ∀ i ∈ earlier, i.resultId ≠ r) : Result earlier op [⟨.resultId, [r], none⟩]
  | typed {t r : Word} (type : op.hasType = true) (type_ne : t ≠ 0) (ne : r ≠ 0)
    (new : ∀ i ∈ earlier, i.resultId ≠ r) :
    Result earlier op [⟨.typeId, [t], none⟩, ⟨.resultId, [r], none⟩]

section

variable {earlier : List Instruction} {op : Opcode} {pre ps : List Piece}

lemma result_iff_of_hasType (h : op.hasType = true) : Result earlier op pre ↔
    ∃ t r, pre = [⟨.typeId, [t], none⟩, ⟨.resultId, [r], none⟩] ∧ t ≠ 0 ∧ r ≠ 0 ∧
      ∀ i ∈ earlier, i.resultId ≠ r := by
  constructor
  · intro hpre
    cases hpre with
    | absent hr => simp [Opcode.hasType_of_hasResult hr] at h
    | untyped _ ht => simp [h] at ht
    | typed _ htne hne hnew => exact ⟨_, _, rfl, htne, hne, hnew⟩
  · rintro ⟨t, r, rfl, htne, hne, hnew⟩
    exact .typed h htne hne hnew

lemma result_iff_of_hasResult (h : op.hasResult = true) (ht : op.hasType = false) :
    Result earlier op pre ↔
      ∃ r, pre = [⟨.resultId, [r], none⟩] ∧ r ≠ 0 ∧ ∀ i ∈ earlier, i.resultId ≠ r := by
  constructor
  · intro hpre
    cases hpre with
    | absent hr => simp [h] at hr
    | untyped _ _ hne hnew => exact ⟨_, rfl, hne, hnew⟩
    | typed ht' => simp [ht] at ht'
  · rintro ⟨r, rfl, hne, hnew⟩
    exact .untyped h ht hne hnew

lemma result_iff_eq_nil (h : op.hasResult = false) : Result earlier op pre ↔ pre = [] := by
  constructor
  · intro hpre
    cases hpre with
    | absent => rfl
    | untyped hr => simp [h] at hr
    | typed ht => simp [Opcode.hasType_of_hasResult h] at ht
  · rintro rfl
    exact .absent h

lemma filling_operands_iff :
    Filling ⟨earlier, op, []⟩ op.operands ps ↔ ∃ pre qs, Result earlier op pre ∧ ps = pre ++ qs ∧
      Filling ⟨earlier, op, wordsOf pre⟩ op.constantOperands qs := by
  rw [op.operands_eq, Opcode.resultSlots]
  cases ht : op.hasType with
  | true =>
    simp only [Opcode.hasResult_of_hasType ht, if_true, List.cons_append, List.nil_append,
      Filling.typeId_iff, Filling.resultId_iff, result_iff_of_hasType ht]
    constructor
    · rintro ⟨t, -, rfl, htne, r, qs, rfl, ⟨hne, hnew⟩, hf⟩
      exact ⟨_, qs, ⟨t, r, rfl, htne, hne, hnew⟩, rfl, hf⟩
    · rintro ⟨-, qs, ⟨t, r, rfl, htne, hne, hnew⟩, rfl, hf⟩
      exact ⟨t, _, rfl, htne, r, qs, rfl, ⟨hne, hnew⟩, hf⟩
  | false =>
  cases hr : op.hasResult with
  | true =>
    simp only [if_true, List.nil_append, List.cons_append, Filling.resultId_iff,
      Bool.false_eq_true, if_false, result_iff_of_hasResult hr ht]
    constructor
    · rintro ⟨r, qs, rfl, ⟨hne, hnew⟩, hf⟩
      exact ⟨_, qs, ⟨r, rfl, hne, hnew⟩, rfl, hf⟩
    · rintro ⟨-, qs, ⟨r, rfl, hne, hnew⟩, rfl, hf⟩
      exact ⟨r, qs, rfl, ⟨hne, hnew⟩, hf⟩
  | false =>
    simp only [Bool.false_eq_true, if_false, List.nil_append, result_iff_eq_nil hr]
    constructor
    · exact fun hf => ⟨[], ps, rfl, rfl, hf⟩
    · rintro ⟨-, qs, rfl, rfl, hf⟩
      exact hf

end

namespace Opcode

lemma hasResult_of_isTypeDeclaration {op : Opcode} (h : op.isTypeDeclaration = true) :
    op.hasResult = true ∧ op.hasType = false := by
  have hall : ∀ op ∈ all, op.isTypeDeclaration = true →
      op.hasResult = true ∧ op.hasType = false := by decide +kernel
  exact hall op (mem_all op) h

end Opcode

/-- What an instruction records of an operand. -/
def Recorded (i : Instruction) (p : Piece) (r : OperandRecord) : Prop :=
  r.slot = .one p.kind ∧ i.wordsOf r = p.words ∧ r.number? = p.number?

lemma recorded_records {i : Instruction} {ws : List Word} {ps : List Piece}
    (h : i.words.toList = ws ++ wordsOf ps) :
    List.Forall₂ (Recorded i) ps (Piece.records ws.length ps) := by
  induction ps generalizing ws with
  | nil => exact .nil
  | cons p ps ih =>
    rw [wordsOf_cons, ← List.append_assoc] at h
    have hrest := ih h
    rw [List.length_append] at hrest
    refine .cons ⟨rfl, ?_, rfl⟩ hrest
    have hsize : ws.length + p.words.length ≤ i.words.size := by
      rw [← Array.length_toList, h]
      simp
    rw [Instruction.wordsOf, if_pos hsize, Array.toList_extract, h, List.append_assoc]
    simp [List.extract_eq_take_drop]

namespace Decodes

variable {earlier : List Instruction} {i : Instruction} {ps : List Piece}

/-- Each operand has a record, which tells its words. -/
lemma recorded (h : Decodes earlier i ps) : List.Forall₂ (Recorded i) ps i.operands.toList := by
  obtain ⟨lead, hw, -⟩ := h.words
  rw [h.operands]
  have hws : i.words.toList = [lead] ++ wordsOf ps := hw
  exact recorded_records hws

/-- An opcode with a result gives it a new id. -/
lemma resultId_ne (h : Decodes earlier i ps) (hr : i.opcode.hasResult) :
    i.resultId ≠ 0 ∧ ∀ j ∈ earlier, j.resultId ≠ i.resultId := by
  obtain ⟨pre, qs, hpre, rfl, -⟩ := filling_operands_iff.mp h.filling
  rw [h.resultId, Context.resultId]
  cases hpre with
  | absent h0 => simp [h0] at hr
  | untyped _ ht hne hnew => simpa [hr, ht] using ⟨hne, hnew⟩
  | typed ht _ hne hnew => simpa [hr, ht] using ⟨hne, hnew⟩

lemma resultId_eq_zero_iff (h : Decodes earlier i ps) :
    i.resultId = 0 ↔ i.opcode.hasResult = false := by
  constructor
  · intro h0
    by_contra hr
    exact (h.resultId_ne (by simpa using hr)).1 h0
  · intro hr
    simp [h.resultId, Context.resultId, hr]

lemma typeId_eq_zero_iff (h : Decodes earlier i ps) :
    i.typeId = 0 ↔ i.opcode.hasType = false := by
  obtain ⟨pre, qs, hpre, rfl, -⟩ := filling_operands_iff.mp h.filling
  rw [h.typeId, Context.typeId]
  cases hpre with
  | absent hr => simp [Opcode.hasType_of_hasResult hr]
  | untyped _ ht => simp [ht]
  | typed ht hne => simp [ht, hne]

end Decodes

namespace Decodable

variable {earlier : List Instruction} {i j : Instruction}

lemma exists_decodes (h : Decodable earlier) (hi : i ∈ earlier) :
    ∃ before ps, Decodes before i ps := by
  induction h with
  | nil => simp at hi
  | snoc _ hd ih =>
    rcases List.mem_append.mp hi with hi | hi
    · exact ih hi
    · obtain rfl := List.mem_singleton.mp hi
      exact ⟨_, _, hd⟩

/-- No two instructions have one result. -/
lemma eq_of_resultId_eq (h : Decodable earlier) (hi : i ∈ earlier) (hj : j ∈ earlier)
    (hne : i.resultId ≠ 0) (he : i.resultId = j.resultId) : i = j := by
  induction h with
  | nil => simp at hi
  | @snoc before k ps _ hd ih =>
    have hnew : k.resultId ≠ 0 → ∀ l ∈ before, l.resultId ≠ k.resultId := fun h0 =>
      (hd.resultId_ne (by simpa [hd.resultId_eq_zero_iff] using h0)).2
    rcases List.mem_append.mp hi with hi' | hi' <;> rcases List.mem_append.mp hj with hj' | hj'
    · exact ih hi' hj'
    · obtain rfl := List.mem_singleton.mp hj'
      exact absurd he (hnew (he ▸ hne) i hi')
    · obtain rfl := List.mem_singleton.mp hi'
      exact absurd he.symm (hnew hne j hj')
    · rw [List.mem_singleton.mp hi', List.mem_singleton.mp hj']

end Decodable

end Spirv
