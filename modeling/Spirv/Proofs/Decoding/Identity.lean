import Mathlib
import Spirv.Proofs.Program.Reading

/-!
The ids of decoded instructions.

An instruction has a result and a type as its opcode says, each told by one operand, and none of its
operands is the id zero. As no two instructions have one result, a program finds the instruction that
defines an id.
-/

namespace Spirv

open Piece

/-- The ids of the instruction are those of its operands, and none of them is zero where there must
be one. -/
structure Instruction.Identified (i : Instruction) : Prop where
  result : i.resultId ≠ 0 ↔ i.opcode.hasResult = true
  type : i.typeId ≠ 0 ↔ i.opcode.hasType = true
  resultOperand : (i.operands.toList.filter (·.slot = .resultId)).map i.wordsOf
    = if i.opcode.hasResult then [[i.resultId]] else []
  typeOperand : (i.operands.toList.filter (·.slot = .typeId)).map i.wordsOf
    = if i.opcode.hasType then [[i.typeId]] else []
  nonzero : ∀ r ∈ i.operands, r.slot.isId → ∃ w, i.wordsOf r = [w] ∧ w ≠ 0

/-- Each operand of a filling is one where it stands. -/
lemma Filling.exists_operand {c : Context} {p : Pattern} {ps : List Piece} (h : Filling c p ps) :
    ∀ q ∈ ps, ∃ front needs, front <+: wordsOf ps ∧
      Operand (c.push front) q.kind q.words q.number? needs := by
  induction h with
  | done => simp
  | @next c p rest slot k ws number? needs ps _ _ ho _ ih =>
    refine List.forall_mem_cons.mpr ⟨⟨[], needs, List.nil_prefix, by simpa using ho⟩, ?_⟩
    intro q hq
    obtain ⟨front, needs', hfront, hq⟩ := ih q hq
    exact ⟨ws ++ front, needs', (List.prefix_append_right_inj ws).mpr hfront,
      by rwa [Context.push_push] at hq⟩

lemma Operand.of_isId {c : Context} {k : OperandKind} {ws : List Word}
    {number? : Option NumberType} {needs : List Slot} (h : Operand c k ws number? needs)
    (hk : k.isId) : ∃ w, ws = [w] ∧ w ≠ 0 := by
  cases h with
  | typeId ne | resultId ne | id ne | scopeId ne | memorySemanticsId ne => exact ⟨_, rfl, ne⟩
  | _ => simp [OperandKind.isId] at hk

namespace Recorded

variable {i : Instruction} {ps : List Piece} {rs : List OperandRecord}

lemma exists_of_mem (h : List.Forall₂ (Recorded i) ps rs) {r : OperandRecord} (hr : r ∈ rs) :
    ∃ p ∈ ps, Recorded i p r := by
  obtain ⟨n, hn, rfl⟩ := List.mem_iff_getElem.mp hr
  have hlen := h.length_eq
  exact ⟨_, List.getElem_mem (hlen ▸ hn), (List.forall₂_iff_get.mp h).2 n (hlen ▸ hn) hn⟩

lemma exists_record_of_mem (h : List.Forall₂ (Recorded i) ps rs) {p : Piece} (hp : p ∈ ps) :
    ∃ r ∈ rs, Recorded i p r := by
  obtain ⟨n, hn, rfl⟩ := List.mem_iff_getElem.mp hp
  have hlen := h.length_eq
  exact ⟨_, List.getElem_mem (hlen ▸ hn), (List.forall₂_iff_get.mp h).2 n hn (hlen ▸ hn)⟩

/-- The words of the operands of one kind. -/
lemma map_wordsOf (h : List.Forall₂ (Recorded i) ps rs) (k : OperandKind) :
    (rs.filter (·.slot = .one k)).map i.wordsOf = (ps.filter (·.kind = k)).map Piece.words := by
  induction h with
  | nil => rfl
  | @cons p r _ _ hr _ ih =>
    obtain ⟨hslot, hwords, -⟩ := hr
    by_cases hk : p.kind = k <;> simp [hslot, hk, hwords, ih]

end Recorded

namespace Decodes

variable {earlier : List Instruction} {i : Instruction} {ps : List Piece}

/-- The operands that tell the result and the type are those in front. -/
lemma filter_kind_eq (h : Decodes earlier i ps) :
    (ps.filter (·.kind = .resultId)).map Piece.words
        = (if i.opcode.hasResult then [[i.resultId]] else []) ∧
      (ps.filter (·.kind = .typeId)).map Piece.words
        = if i.opcode.hasType then [[i.typeId]] else [] := by
  obtain ⟨pre, qs, hpre, rfl, hf⟩ := filling_operands_iff.mp h.filling
  have hinner := hf.kind_ne fun s hs => Opcode.isInner_of_mem hs
  have hresult : qs.filter (·.kind = .resultId) = [] :=
    List.filter_eq_nil_iff.mpr fun q hq => by simpa using (hinner q hq).2
  have htype : qs.filter (·.kind = .typeId) = [] :=
    List.filter_eq_nil_iff.mpr fun q hq => by simpa using (hinner q hq).1
  rw [List.filter_append, List.filter_append, hresult, htype, h.resultId, h.typeId,
    Context.resultId, Context.typeId]
  cases hpre with
  | absent hr => simp [hr, Opcode.hasType_of_hasResult hr]
  | untyped hr ht => simp [hr, ht]
  | typed ht => simp [ht, Opcode.hasResult_of_hasType ht]

lemma identified (h : Decodes earlier i ps) : i.Identified where
  result := by rw [ne_eq, h.resultId_eq_zero_iff, Bool.not_eq_false]
  type := by rw [ne_eq, h.typeId_eq_zero_iff, Bool.not_eq_false]
  resultOperand := (Recorded.map_wordsOf h.recorded .resultId).trans h.filter_kind_eq.1
  typeOperand := (Recorded.map_wordsOf h.recorded .typeId).trans h.filter_kind_eq.2
  nonzero r hr hid := by
    obtain ⟨p, hp, hslot, hwords, -⟩ := Recorded.exists_of_mem h.recorded (by simpa using hr)
    obtain ⟨_, _, -, ho⟩ := h.filling.exists_operand p hp
    rw [hwords]
    exact ho.of_isId (by simpa [hslot, Slot.isId] using hid)

end Decodes

/-- No result is given twice. -/
lemma Decodable.pairwise {is : List Instruction} (h : Decodable is) :
    is.Pairwise fun i j => i.resultId ≠ 0 → i.resultId ≠ j.resultId := by
  induction h with
  | nil => exact .nil
  | snoc _ hd ih =>
    refine List.pairwise_append.mpr ⟨ih, List.pairwise_singleton .., fun i hi j hj hne he => ?_⟩
    obtain rfl := List.mem_singleton.mp hj
    have hr : j.opcode.hasResult = true := hd.identified.result.mp (he ▸ hne)
    exact (hd.resultId_ne hr).2 i hi he

namespace Binary

variable {σ β : Type}

/-- **The ids of decoded instructions are sound.** Every instruction shown has the result and the type
that its opcode asks for, and no two of them have one result. If reading completes then the program
read from the module finds, for each id, the only instruction whose result it is. -/
theorem shown_identified (v : Visitor σ β) (s : σ) (words : List Word) :
    (∀ i ∈ shown v s words, i.Identified) ∧
      (shown v s words).Pairwise (fun i j => i.resultId ≠ 0 → i.resultId ≠ j.resultId) ∧
      ((visit v s words).2 = .ok .completed → ∃ p, Program.ofWords words = .ok p ∧
        ∀ id i, p.definition? id = some i ↔
          id ≠ 0 ∧ i ∈ shown v s words ∧ i.resultId = id) := by
  obtain ⟨hd, rest, hbody, hdone⟩ := decodable_shown v s words
  refine ⟨fun i hi => ?_, hd.pairwise, fun hc => ?_⟩
  · obtain ⟨_, _, hi⟩ := hd.exists_decodes hi
    exact hi.identified
  · rcases hread : readHeader words with e | ⟨h, body'⟩
    · simp [visit, hread] at hc
    obtain rfl := readHeader_body hread
    rw [hbody, hdone hc, List.append_nil] at hread
    exact ⟨_, Program.ofWords_eq_ok_iff.mpr ⟨h, _, hread, hd, rfl⟩,
      fun id i => Program.built_definition? hd id i⟩

/-- The first function type of the module is the definition of its id. -/
theorem shown_identified_sample : ∃ p, Program.ofWords Program.Sample.words = .ok p ∧
    p.definition? 2 = some Program.Sample.action := by
  let v : Visitor Unit Empty := .ofFold (fun _ _ => ()) fun _ _ => ()
  have hread : readHeader Program.Sample.words
      = .ok (.ofBound 6 0, codeOf Program.Sample.instructions) := rfl
  obtain ⟨hdone, hshown⟩ := visit_codeOf v () hread Program.Sample.decodable_instructions
  obtain ⟨p, hp, hdef⟩ := (shown_identified v () Program.Sample.words).2.2 hdone
  refine ⟨p, hp, (hdef 2 _).mpr ⟨by decide, ?_, by decide⟩⟩
  rw [hshown, Program.Sample.instructions]
  simp

end Binary

end Spirv
