import Mathlib
import Spirv.Proofs.Decoding.Identity

/-!
Operands that depend on definitions.

A number is read as the type that governs it, and an extended instruction has the set that it names.
Both are told by the one earlier instruction whose result is the id in question.
-/

namespace Spirv

open Piece

/-- The id is the result of this instruction and of no other. -/
def DefinedBy (is : List Instruction) (id : Word) (j : Instruction) : Prop :=
  is.filter (·.resultId = id) = [j]

namespace Instruction

/-- The instruction declares an integer or a float type, told by its words. -/
inductive DeclaresType (j : Instruction) : NumberType → Prop where
  | unsigned {width : Word} (opcode : j.opcode = .opTypeInt) (width_eq : j.words[2]? = some width)
    (zero : j.words[3]? = some 0) : DeclaresType j ⟨.unsigned, width.toNat⟩
  | signed {width signedness : Word} (opcode : j.opcode = .opTypeInt)
    (width_eq : j.words[2]? = some width) (signedness_eq : j.words[3]? = some signedness)
    (ne : signedness ≠ 0) : DeclaresType j ⟨.signed, width.toNat⟩
  | float {width : Word} (opcode : j.opcode = .opTypeFloat)
    (width_eq : j.words[2]? = some width) : DeclaresType j ⟨.float, width.toNat⟩

/-- The id of the type of the instruction's numbers: the type of the selector of a switch, and the
type of the result otherwise. -/
def NumbersTyped (earlier : List Instruction) (i : Instruction) (type : Word) : Prop :=
  if i.opcode = .opSwitch then
    ∃ selector j, i.words[1]? = some selector ∧ DefinedBy earlier selector j ∧ type = j.typeId
  else type = i.typeId

/-- What the instruction takes from the definitions before it. -/
structure Dependent (earlier : List Instruction) (i : Instruction) : Prop where
  number : ∀ r ∈ i.operands, r.slot = .typedNumber → ∃ t type j, r.number? = some t ∧
    NumbersTyped earlier i type ∧ DefinedBy earlier type j ∧ j.DeclaresType t ∧
    (i.opcode = .opSwitch → t.isInteger) ∧ (1 ≤ t.width ∧ t.width ≤ 64) ∧
    r.wordCount = (t.width + 31) / 32
  set : i.opcode = .opExtInst → ∃ id j set, i.words[3]? = some id ∧ DefinedBy earlier id j ∧
    j.opcode = .opExtInstImport ∧ setNamed? (j.words.toList.drop 2) = some set ∧
    i.extendedSet? = some set
  noSet : i.opcode ≠ .opExtInst → i.extendedSet? = none

lemma declaresType_of_number? {j : Instruction} {t : NumberType} (h : j.number? = some t) :
    j.DeclaresType t := by
  unfold number? Binary.declaredNumber? at h
  split at h
  next hop hwidth hsigned =>
    obtain rfl := Option.some.inj h
    rw [NumberType.ofInteger]
    split
    next h0 =>
      obtain rfl := UInt32.toNat_inj.mp (h0.trans UInt32.toNat_zero.symm)
      exact .unsigned hop hwidth hsigned
    next h0 => exact .signed hop hwidth hsigned fun hs => h0 (by simp [hs])
  next hop hwidth =>
    obtain rfl := Option.some.inj h
    exact .float hop hwidth
  next => simp at h

lemma length_wordsOf {i : Instruction} {r : OperandRecord} (h : i.wordsOf r ≠ []) :
    (i.wordsOf r).length = r.wordCount := by
  rw [wordsOf] at h ⊢
  split at h
  next hle =>
    rw [if_pos hle, Array.length_toList, Array.size_extract]
    omega
  next => simp at h

end Instruction

namespace Decodable

variable {earlier : List Instruction} {j : Instruction}

lemma definedBy (h : Decodable earlier) (hj : j ∈ earlier) (hne : j.resultId ≠ 0) :
    DefinedBy earlier j.resultId j := by
  obtain ⟨front, back, rfl⟩ := List.append_of_mem hj
  obtain ⟨-, hback, hfront⟩ := List.pairwise_append.mp h.pairwise
  have hf : front.filter (·.resultId = j.resultId) = [] :=
    List.filter_eq_nil_iff.mpr fun k hk he => by
      rw [decide_eq_true_eq] at he
      exact hfront k hk j (by simp) (he ▸ hne) he
  have hb : back.filter (·.resultId = j.resultId) = [] :=
    List.filter_eq_nil_iff.mpr fun k hk he => by
      rw [decide_eq_true_eq] at he
      exact (List.pairwise_cons.mp hback).1 k hk hne he.symm
  simp [DefinedBy, hf, hb]

/-- An id that is declared as a type is defined once. -/
lemma exists_declaresType (h : Decodable earlier) {id : Word} {t : NumberType}
    (hd : DeclaresNumber earlier id t) : id ≠ 0 ∧ ∃ j, DefinedBy earlier id j ∧ j.DeclaresType t := by
  obtain ⟨j, hj, rfl, hn⟩ := hd
  obtain ⟨_, _, hdj⟩ := h.exists_decodes hj
  have hop := Binary.isTypeDeclaration_of_number? hn
  have hne := (hdj.resultId_ne (Opcode.hasResult_of_isTypeDeclaration hop).1).1
  exact ⟨hne, j, h.definedBy hj hne, Instruction.declaresType_of_number? hn⟩

lemma exists_typeId (h : Decodable earlier) {id type : Word} (hd : HasType earlier id type)
    (hne : type ≠ 0) : ∃ j, DefinedBy earlier id j ∧ type = j.typeId := by
  obtain ⟨j, hj, rfl, rfl⟩ := hd
  obtain ⟨_, _, hdj⟩ := h.exists_decodes hj
  have hr := Opcode.hasResult_of_hasType (hdj.identified.type.mp hne)
  exact ⟨j, h.definedBy hj (hdj.resultId_ne hr).1, rfl⟩

lemma exists_import (h : Decodable earlier) {id : Word} {set : ExtendedSet}
    (hi : Imports earlier id set) : ∃ j, DefinedBy earlier id j ∧ j.opcode = .opExtInstImport ∧
      setNamed? (j.words.toList.drop 2) = some set := by
  obtain ⟨j, hj, rfl, hset⟩ := hi
  obtain ⟨_, _, hdj⟩ := h.exists_decodes hj
  have hne := (hdj.resultId_ne (Binary.hasResult_of_importedSet? hset)).1
  rw [Instruction.importedSet?] at hset
  split at hset
  next hop => exact ⟨j, h.definedBy hj hne, hop, hset⟩
  next => simp at hset

end Decodable

/-- The operands of an extended instruction start with its set. -/
lemma Filling.exists_set {earlier : List Instruction} {pre qs : List Piece}
    (hpre : Result earlier .opExtInst pre)
    (h : Filling ⟨earlier, .opExtInst, wordsOf pre⟩ Opcode.opExtInst.constantOperands qs) :
    ∃ id set, (wordsOf (pre ++ qs))[2]? = some id ∧ Imports earlier id set := by
  have hpattern : Pattern.take? Opcode.opExtInst.constantOperands
      = some (.one .id, [.extended, .many .id]) := by decide
  have hlen : (wordsOf pre).length = 2 := by
    cases hpre with
    | absent hr => exact absurd hr (by decide)
    | untyped _ ht => exact absurd ht (by decide)
    | typed => rfl
  cases h with
  | done hopt => exact absurd (hopt .id (by decide)) (by decide)
  | next ht hk ho =>
    obtain ⟨rfl, rfl⟩ := by simpa using hpattern.symm.trans ht
    obtain rfl : OperandKind.id = _ := by simpa [Slot.kind?] using hk
    cases ho with
    | @id w _ hset =>
      obtain ⟨set, hset⟩ := hset ⟨rfl, hlen⟩
      refine ⟨w, set, ?_, hset⟩
      simp [wordsOf_append, hlen]

namespace Decodes

variable {earlier : List Instruction} {i : Instruction} {ps : List Piece}

/-- The type that governs a number where it stands is that of the instruction's numbers. -/
lemma exists_governing (h : Decodes earlier i ps) (hd : Decodable earlier) {front : List Word}
    {t : NumberType} (hfront : front <+: wordsOf ps)
    (hg : Context.Governs ⟨earlier, i.opcode, front⟩ t) :
    ∃ type j, i.NumbersTyped earlier type ∧ DefinedBy earlier type j ∧ j.DeclaresType t ∧
      (i.opcode = .opSwitch → t.isInteger) := by
  obtain ⟨lead, hw, -⟩ := h.words
  obtain ⟨after, hafter⟩ := hfront
  obtain ⟨-, hg⟩ := hg
  split at hg
  next hop =>
    obtain ⟨hint, selector, type, hhead, htype, hn⟩ := hg
    obtain ⟨hne, j, hj, ht⟩ := hd.exists_declaresType hn
    obtain ⟨k, hk, rfl⟩ := hd.exists_typeId htype hne
    refine ⟨_, j, ?_, hj, ht, fun _ => hint⟩
    rw [Instruction.NumbersTyped, if_pos hop]
    refine ⟨selector, k, ?_, hk, rfl⟩
    rw [← Array.getElem?_toList, hw, ← hafter, List.getElem?_cons_succ, ← List.head?_eq_getElem?,
      List.head?_append, hhead]
    rfl
  next hop =>
    obtain ⟨hne, j, hj, ht⟩ := hd.exists_declaresType hg
    refine ⟨_, j, ?_, hj, ht, fun hs => absurd hs hop⟩
    rw [Instruction.NumbersTyped, if_neg hop, h.typeId, ← hafter, Context.typeId, Context.typeId]
    rcases front with _ | ⟨first, front⟩
    · simp [Context.typeId] at hne
    · rfl

lemma dependent (h : Decodes earlier i ps) (hd : Decodable earlier) : i.Dependent earlier where
  number r hr hs := by
    obtain ⟨p, hp, hslot, hwords, hnumber⟩ := Recorded.exists_of_mem h.recorded (by simpa using hr)
    obtain ⟨k, ws, number?⟩ := p
    obtain rfl : k = .typedNumber := by simpa [hs] using hslot.symm
    obtain ⟨front, _, hfront, ho⟩ := h.filling.exists_operand _ hp
    have hlen := Instruction.length_wordsOf (i := i) (r := r) (by rw [hwords]; exact ho.ne_nil)
    cases ho with
    | @typedNumber _ t hg hcount =>
      obtain ⟨type, j, htype, hj, ht, hint⟩ := h.exists_governing hd hfront hg
      exact ⟨t, type, j, hnumber, htype, hj, ht, hint, hg.1, by rw [← hlen, hwords, hcount]; rfl⟩
  set hop := by
    obtain ⟨pre, qs, hpre, rfl, hf⟩ := filling_operands_iff.mp h.filling
    rw [hop] at hpre hf
    obtain ⟨id, set, hid, hset⟩ := Filling.exists_set hpre hf
    obtain ⟨j, hj, himport, hname⟩ := hd.exists_import hset
    obtain ⟨lead, hw, -⟩ := h.words
    refine ⟨id, j, set, ?_, hj, himport, hname, (h.set set).mpr ⟨hop, id, hid, hset⟩⟩
    rw [← Array.getElem?_toList, hw, List.getElem?_cons_succ, hid]
  noSet hop := Option.eq_none_iff_forall_ne_some.mpr fun set hset => hop ((h.set set).mp hset).1

end Decodes

namespace Binary

variable {σ β : Type}

/-- **What an operand means is told by the definitions before it.** Wherever an instruction stands
among those shown, its numbers are held as the type that governs them and its extended set is the one
that it names, each told by the one earlier instruction that defines it. -/
theorem shown_dependent (v : Visitor σ β) (s : σ) (words : List Word)
    (earlier later : List Instruction) (i : Instruction)
    (h : shown v s words = earlier ++ i :: later) : i.Dependent earlier := by
  obtain ⟨hd, -⟩ := decodable_shown v s words
  rw [h] at hd
  obtain ⟨⟨ps, hi⟩, -⟩ := Decodable.append_cons_iff.mp hd
  exact hi.dependent hd.of_append

/-! ### A constant of a narrow integer type -/

namespace Sample

open Program.Sample

def short : Instruction := plain .opTypeInt
  [⟨.resultId, [1], none⟩, ⟨.integer, [16], some ⟨.unsigned, 32⟩⟩,
    ⟨.integer, [1], some ⟨.unsigned, 32⟩⟩]

def minusOne : Instruction := plain .opConstant
  [⟨.typeId, [1], none⟩, ⟨.resultId, [2], none⟩,
    ⟨.typedNumber, [0xFFFFFFFF], some ⟨.signed, 16⟩⟩]

lemma decodable_constant : Decodable [short, minusOne] := by
  have hshort : Decodable ([] ++ [short]) := .snoc .nil <| decodes_plain nofun (by decide) <|
    .next rfl rfl (.resultId (by decide) (by simp)) <|
    .next rfl rfl (.integer 16) <| .next rfl rfl (.integer 1) (.done (by decide))
  have hgoverns : Context.Governs ⟨[short], .opConstant, [1, 2]⟩ ⟨.signed, 16⟩ :=
    ⟨by decide, short, by simp, by decide, by decide⟩
  exact .snoc hshort <| decodes_plain nofun (by decide) <| .next rfl rfl (.typeId (by decide)) <|
    .next rfl rfl (.resultId (by decide) (by decide)) <|
    .next rfl rfl (.typedNumber hgoverns rfl) (.done (by decide))

end Sample

/-- The constant depends on the type before it. -/
theorem shown_dependent_sample :
    ∃ v : Visitor Unit Empty, shown v () ((Header.ofBound 3 0).words ++
        codeOf [Sample.short, Sample.minusOne]) = [Sample.short] ++ Sample.minusOne :: [] ∧
      Sample.minusOne.Dependent [Sample.short] := by
  have hread : readHeader ((Header.ofBound 3 0).words ++ codeOf [Sample.short, Sample.minusOne])
      = .ok (.ofBound 3 0, codeOf [Sample.short, Sample.minusOne]) := rfl
  have hshown := (visit_codeOf (.ofFold (fun _ _ => ()) fun _ _ => ()) () hread
    Sample.decodable_constant).2
  exact ⟨_, hshown, shown_dependent _ () _ [Sample.short] [] Sample.minusOne hshown⟩

end Binary

end Spirv
