import Mathlib
import Spirv.Assembly
import Spirv.Proofs.Decoding.ReadingInstruction

/-!
What the assembler knows of the instructions written so far.

Its maps answer as these instructions do (`Declares`), just as the reader's maps do. So it governs
the numbers of an instruction by the same type as the reader, and finds the same extended set.
-/

namespace Spirv

open Piece

/-- The result stands in front of the other operand words. -/
lemma Decodes.words_of_hasResult {earlier : List Instruction} {i : Instruction} {ps : List Piece}
    (h : Decodes earlier i ps) (hr : i.opcode.hasResult) : ∃ rest,
      wordsOf ps = (if i.opcode.hasType then [i.typeId] else []) ++ i.resultId :: rest := by
  obtain ⟨pre, qs, hpre, rfl, -⟩ := filling_operands_iff.mp h.filling
  rw [h.typeId, h.resultId, Context.typeId, Context.resultId]
  cases hpre with
  | absent h0 => simp [hr] at h0
  | untyped _ ht => simp [ht, hr]
  | typed ht => simp [ht, hr]

namespace Assembly

/-- The maps answer as the instructions do. -/
structure Declares (d : Declared) (earlier : List Instruction) : Prop where
  imports : ∀ id set, d.imports[id]? = some (some set) ↔ Imports earlier id set
  types : ∀ id type, d.valueTypes[id]? = some type ↔ type ≠ 0 ∧ HasType earlier id type
  numbers : ∀ id t, d.numberTypes[id]? = some t ↔ DeclaresNumber earlier id t

lemma declares_empty : Declares .empty [] where
  imports := by simp [Declared.empty, Imports]
  types := by simp [Declared.empty, HasType]
  numbers := by simp [Declared.empty, DeclaresNumber]

/-- What is declared with one more instruction. -/
def Declared.add (d : Declared) (i : Instruction) : Declared :=
  Declared.learn
    { d with
      imports := i.importedSet?.elim d.imports fun set => d.imports.insert i.resultId (some set) }
    i.opcode i.words.toList.tail.toArray

namespace Declared

variable {d : Declared} {earlier : List Instruction} {i : Instruction} {ps : List Piece}

lemma add_imports (d : Declared) (i : Instruction) : (d.add i).imports
    = (i.importedSet?.map some).elim d.imports (d.imports.insert i.resultId) := by
  change (i.importedSet?.elim d.imports fun set => d.imports.insert i.resultId (some set)) = _
  cases i.importedSet? <;> rfl

/-- What is noted as the type of the result. -/
def resultType? (i : Instruction) : Option Word := if i.typeId = 0 then none else some i.typeId

lemma add_valueTypes (d : Declared) (h : Decodes earlier i ps) : (d.add i).valueTypes
    = (resultType? i).elim d.valueTypes (d.valueTypes.insert i.resultId) := by
  obtain ⟨lead, hw, -⟩ := h.words
  rw [add, hw, List.tail_cons, resultType?]
  unfold learn
  by_cases htype : i.opcode.hasType
  · have hr := Opcode.hasResult_of_hasType htype
    have hne : i.typeId ≠ 0 := by simp [h.typeId_eq_zero_iff, htype]
    obtain ⟨rest, hrest⟩ := h.words_of_hasResult hr
    simp [hrest, htype, hr, hne]
  · have h0 : i.typeId = 0 := h.typeId_eq_zero_iff.mpr (by simpa using htype)
    simp only [htype, Bool.false_and, Bool.false_eq_true, if_false, if_pos h0]
    split <;> rfl

lemma add_numberTypes (d : Declared) (h : Decodes earlier i ps) : (d.add i).numberTypes =
    i.number?.elim d.numberTypes (d.numberTypes.insert i.resultId) := by
  obtain ⟨lead, hw, -⟩ := h.words
  have hwords : i.words = (lead :: wordsOf ps).toArray := by simp [← hw]
  have hresult : i.opcode.hasResult = true → i.opcode.hasType = false →
      ∃ rest, wordsOf ps = i.resultId :: rest := fun hr ht => by
    obtain ⟨rest, hrest⟩ := h.words_of_hasResult hr
    exact ⟨rest, by simpa [ht] using hrest⟩
  rw [add, Instruction.number?, hwords, List.tail_cons]
  unfold learn Binary.declaredNumber?
  by_cases hint : i.opcode = .opTypeInt
  · obtain ⟨rest, hrest⟩ := hresult (hint ▸ rfl) (hint ▸ rfl)
    rw [hrest, hint]
    rcases rest with _ | ⟨width, _ | ⟨signedness, rest⟩⟩ <;> simp
  by_cases hfloat : i.opcode = .opTypeFloat
  · obtain ⟨rest, hrest⟩ := hresult (hfloat ▸ rfl) (hfloat ▸ rfl)
    rw [hrest, hfloat]
    rcases rest with _ | ⟨width, rest⟩ <;> simp
  · split <;> split <;> simp_all

lemma exists_resultType?_iff {id type : Word} :
    (∃ j ∈ earlier, j.resultId = id ∧ resultType? j = some type) ↔
      type ≠ 0 ∧ HasType earlier id type := by
  constructor
  · rintro ⟨j, hj, rfl, htype⟩
    rw [resultType?] at htype
    split at htype
    next => simp at htype
    next hne =>
      obtain rfl := Option.some.inj htype
      exact ⟨hne, j, hj, rfl, rfl⟩
  · rintro ⟨hne, j, hj, rfl, rfl⟩
    exact ⟨j, hj, rfl, if_neg hne⟩

end Declared

lemma exists_map_importedSet?_iff {earlier : List Instruction} {id : Word} {set : ExtendedSet} :
    (∃ j ∈ earlier, j.resultId = id ∧ j.importedSet?.map some = some (some set)) ↔
      Imports earlier id set := by
  simp [Imports]

namespace Declares

variable {d : Declared} {earlier : List Instruction} {i : Instruction} {ps : List Piece}

/-- The maps answer as the instructions do with one more among both. -/
lemma add (h : Declares d earlier) (hd : Decodes earlier i ps) :
    Declares (d.add i) (earlier ++ [i]) := by
  have hnew : i.opcode.hasResult → ∀ j ∈ earlier, j.resultId ≠ i.resultId := fun hr =>
    (hd.resultId_ne hr).2
  refine ⟨fun id set => ?_, fun id type => ?_, fun id t => ?_⟩
  · rw [d.add_imports, ← exists_map_importedSet?_iff]
    refine Binary.getElem?_note_iff (f := fun j => j.importedSet?.map some) (fun hs => hnew ?_)
      (fun id => (h.imports id set).trans exists_map_importedSet?_iff.symm) id
    obtain ⟨set, hset⟩ := Option.isSome_iff_exists.mp (by simpa using hs)
    exact Binary.hasResult_of_importedSet? hset
  · rw [d.add_valueTypes hd, ← Declared.exists_resultType?_iff]
    refine Binary.getElem?_note_iff (fun hs => hnew ?_)
      (fun id => (h.types id type).trans Declared.exists_resultType?_iff.symm) id
    have htype : i.typeId ≠ 0 := fun h0 => by simp [Declared.resultType?, h0] at hs
    exact Opcode.hasResult_of_hasType (by simpa [hd.typeId_eq_zero_iff] using htype)
  · rw [d.add_numberTypes hd]
    refine Binary.getElem?_note_iff (fun hs => hnew ?_) (fun id => h.numbers id t) id
    obtain ⟨t, ht⟩ := Option.isSome_iff_exists.mp hs
    exact (Opcode.hasResult_of_isTypeDeclaration (Binary.isTypeDeclaration_of_number? ht)).1

lemma exists_declares (h : Decodable earlier) : ∃ d, Declares d earlier := by
  induction h with
  | nil => exact ⟨_, declares_empty⟩
  | snoc _ hi ih =>
    obtain ⟨d, hd⟩ := ih
    exact ⟨_, hd.add hi⟩

variable {c : Context}

/-- The assembler governs numbers as the reader does. -/
lemma governing? (h : Declares d c.earlier) (hd : Decodable c.earlier) {t : NumberType}
    (ht : c.Governs t) : d.governing? c.opcode c.before.toArray = some t := by
  have hne : ∀ {id : Word}, DeclaresNumber c.earlier id t → id ≠ 0 := by
    rintro id ⟨j, hj, rfl, hn⟩
    obtain ⟨_, _, hdj⟩ := hd.exists_decodes hj
    exact (hdj.resultId_ne
      (Opcode.hasResult_of_isTypeDeclaration (Binary.isTypeDeclaration_of_number? hn)).1).1
  obtain ⟨-, ht⟩ := ht
  unfold Declared.governing?
  split at ht
  next hop =>
    obtain ⟨-, selector, type, hb, htype, hn⟩ := ht
    have hfirst : c.before[0]? = some selector := by rw [← hb, List.head?_eq_getElem?]
    simp [hop, hfirst, (h.types selector type).mpr ⟨hne hn, htype⟩, (h.numbers type t).mpr hn]
  next hop =>
    have h0 := hne ht
    rw [Context.typeId] at h0 ht
    split at ht
    next htype =>
      rw [if_pos htype] at h0
      rcases hb : c.before with _ | ⟨first, rest⟩
      · simp [hb] at h0
      · simp [hop, (h.numbers first t).mpr (by simpa [hb] using ht)]
    next htype => simp [htype] at h0

lemma extendedSet?_eq_some_iff (h : Declares d c.earlier) {set : ExtendedSet} :
    d.extendedSet? c.before.toArray = some set ↔
      ∃ id, c.before[2]? = some id ∧ Imports c.earlier id set := by
  simp [Declared.extendedSet?, Option.bind_eq_some_iff, ← h.imports]

end Declares

end Assembly

end Spirv
