import Mathlib
import Spirv.Proofs.Decoding.Instruction

/-!
Reading one instruction.

The reader's maps answer as the earlier instructions do (`Knows`). It then reads exactly the
instructions that may stand there, and its maps answer as the instructions do with the new one among
them.
-/

namespace Spirv

open Piece

namespace Binary

/-- The definitions with those of one more instruction. -/
def Defined.add (d : Defined) (i : Instruction) : Defined :=
  Defined.learn
    { d with
      types :=
        if i.hasResult then
          d.types.insert i.resultId (if i.opcode.isTypeDeclaration then i.resultId else i.typeId)
        else d.types
      imports := i.importedSet?.elim d.imports (d.imports.insert i.resultId) } i

/-- The maps answer as the instructions do. -/
structure Knows (d : Defined) (earlier : List Instruction) : Prop where
  types : ∀ id type, d.types[id]? = some type ↔ id ≠ 0 ∧ ∃ i ∈ earlier, i.resultId = id ∧
    type = if i.opcode.isTypeDeclaration then id else i.typeId
  numbers : ∀ id t, d.numberTypes[id]? = some (some t) ↔ DeclaresNumber earlier id t
  imports : ∀ id set, d.imports[id]? = some set ↔ Imports earlier id set

lemma knows_empty : Knows .empty [] where
  types := by simp [Defined.empty]
  numbers := by simp [Defined.empty, DeclaresNumber]
  imports := by simp [Defined.empty, Imports]

/-- What declares a number is a type. -/
lemma isTypeDeclaration_of_number? {i : Instruction} {t : NumberType} (h : i.number? = some t) :
    i.opcode.isTypeDeclaration := by
  unfold Instruction.number? declaredNumber? at h
  split at h
  next hop _ _ => rw [hop]; rfl
  next hop _ => rw [hop]; rfl
  next => simp at h

lemma hasResult_of_importedSet? {i : Instruction} {set : ExtendedSet}
    (h : i.importedSet? = some set) : i.opcode.hasResult := by
  rw [Instruction.importedSet?] at h
  split at h
  next hop => rw [hop]; decide
  next => simp at h

variable {d : Defined} {earlier : List Instruction} {i : Instruction} {ps : List Piece}

/-- What is noted as the type of the result: a type stands for itself. -/
def resultType? (i : Instruction) : Option Word :=
  if i.hasResult then some (if i.opcode.isTypeDeclaration then i.resultId else i.typeId) else none

/-- What is noted of a type: the number that it declares, if any. -/
def declaration? (i : Instruction) : Option (Option NumberType) :=
  if i.opcode.isTypeDeclaration then some i.number? else none

lemma Defined.add_types (d : Defined) (i : Instruction) :
    (d.add i).types = (resultType? i).elim d.types (d.types.insert i.resultId) := by
  rw [Defined.add, Defined.learn, resultType?]
  split <;> cases i.hasResult <;> rfl

lemma Defined.add_imports (d : Defined) (i : Instruction) :
    (d.add i).imports = i.importedSet?.elim d.imports (d.imports.insert i.resultId) := by
  rw [Defined.add, Defined.learn]
  split <;> rfl

lemma Defined.add_numberTypes (d : Defined) (hd : Decodes earlier i ps) : (d.add i).numberTypes
    = (declaration? i).elim d.numberTypes (d.numberTypes.insert i.resultId) := by
  have hcond : (i.opcode.isTypeDeclaration && i.hasResult) = i.opcode.isTypeDeclaration := by
    by_cases ht : i.opcode.isTypeDeclaration
    · simp [ht, Instruction.hasResult,
        (hd.resultId_ne (Opcode.hasResult_of_isTypeDeclaration ht).1).1]
    · simp [ht]
  rw [Defined.add, Defined.learn, hcond, declaration?]
  split <;> rfl

lemma exists_mem_snoc {α : Type} {l : List α} {a : α} {p : α → Prop} :
    (∃ b ∈ l ++ [a], p b) ↔ (∃ b ∈ l, p b) ∨ p a := by
  simp [or_and_right, exists_or]

/-- What is noted of the result of one more instruction is found like that of the earlier ones. -/
lemma getElem?_note_iff {α : Type} {m : Std.HashMap Word α} {f : Instruction → Option α} {a : α}
    (hnew : (f i).isSome → ∀ j ∈ earlier, j.resultId ≠ i.resultId)
    (h : ∀ id : Word, m[id]? = some a ↔ ∃ j ∈ earlier, j.resultId = id ∧ f j = some a) (id : Word) :
    ((f i).elim m (m.insert i.resultId))[id]? = some a ↔
      ∃ j ∈ earlier ++ [i], j.resultId = id ∧ f j = some a := by
  rw [exists_mem_snoc]
  rcases hi : f i with _ | b
  · simp [h]
  simp only [Option.elim_some, Std.HashMap.getElem?_insert, beq_iff_eq]
  split
  next he =>
    subst he
    have hno : ¬ ∃ j ∈ earlier, j.resultId = i.resultId ∧ f j = some a :=
      fun ⟨j, hj, he, _⟩ => hnew (by simp [hi]) j hj he
    simp [hno]
  next he => simp [h, he]

lemma exists_resultType?_iff {id type : Word} :
    (∃ i ∈ earlier, i.resultId = id ∧ resultType? i = some type) ↔
      id ≠ 0 ∧ ∃ i ∈ earlier, i.resultId = id ∧
        type = if i.opcode.isTypeDeclaration then id else i.typeId := by
  constructor
  · rintro ⟨i, hi, rfl, htype⟩
    rw [resultType?, Instruction.hasResult] at htype
    split at htype
    next hr => exact ⟨by simpa using hr, i, hi, rfl, (Option.some.inj htype).symm⟩
    next => simp at htype
  · rintro ⟨hne, i, hi, rfl, rfl⟩
    exact ⟨i, hi, rfl, by simp [resultType?, Instruction.hasResult, hne]⟩

lemma exists_declaration?_iff {id : Word} {t : NumberType} :
    (∃ i ∈ earlier, i.resultId = id ∧ declaration? i = some (some t)) ↔
      DeclaresNumber earlier id t := by
  refine exists_congr fun i => and_congr_right fun _ => and_congr_right fun _ => ?_
  rw [declaration?]
  constructor
  · intro h
    split at h
    · exact Option.some.inj h
    · simp at h
  · intro h
    rw [if_pos (isTypeDeclaration_of_number? h), h]

/-- The maps answer as the instructions do with one more among both. -/
lemma Knows.add (h : Knows d earlier) (hd : Decodes earlier i ps) :
    Knows (d.add i) (earlier ++ [i]) := by
  have hnew : i.opcode.hasResult → ∀ j ∈ earlier, j.resultId ≠ i.resultId := fun hr =>
    (hd.resultId_ne hr).2
  refine ⟨fun id type => ?_, fun id t => ?_, fun id set => ?_⟩
  · rw [d.add_types, ← exists_resultType?_iff]
    refine getElem?_note_iff (fun hs => hnew ?_)
      (fun id => (h.types id type).trans exists_resultType?_iff.symm) id
    by_contra hr
    simp [resultType?, Instruction.hasResult, hd.resultId_eq_zero_iff.mpr (by simpa using hr)] at hs
  · rw [d.add_numberTypes hd, ← exists_declaration?_iff]
    refine getElem?_note_iff (fun hs => hnew ?_)
      (fun id => (h.numbers id t).trans exists_declaration?_iff.symm) id
    have ht : i.opcode.isTypeDeclaration = true := by
      by_contra ht
      simp [declaration?, ht] at hs
    exact (Opcode.hasResult_of_isTypeDeclaration ht).1
  · rw [d.add_imports]
    refine getElem?_note_iff (fun hs => hnew ?_) (fun id => h.imports id set) id
    obtain ⟨set, hset⟩ := Option.isSome_iff_exists.mp hs
    exact hasResult_of_importedSet? hset

/-- There are maps that answer as the instructions do. -/
lemma exists_knows (h : Decodable earlier) : ∃ d, Knows d earlier := by
  induction h with
  | nil => exact ⟨_, knows_empty⟩
  | snoc _ hi ih =>
    obtain ⟨d, hd⟩ := ih
    exact ⟨_, hd.add hi⟩

/-! ### Where the operands start -/

lemma Knows.numberType_iff (h : Knows d earlier) {id : Word} {t : NumberType} :
    d.numberType id = .ok t ↔ (1 ≤ t.width ∧ t.width ≤ 64) ∧ DeclaresNumber earlier id t := by
  rw [← h.numbers, Defined.numberType]
  rcases d.numberTypes[id]? with _ | _ | type
  · simp
  · simp
  · dsimp only
    split
    next hw =>
      simp only [Bool.or_eq_true, decide_eq_true_eq] at hw
      simp only [reduceCtorEq, Option.some.injEq, false_iff, not_and]
      rintro hb rfl
      omega
    next hw =>
      simp only [Bool.or_eq_true, decide_eq_true_eq, not_or] at hw
      simp only [Except.ok.injEq, Option.some.injEq]
      exact ⟨by rintro rfl; exact ⟨by omega, rfl⟩, fun h => h.2⟩

/-- The selector of a switch has the type of the instruction whose result it is. -/
lemma Knows.selectorType_iff (h : Knows d earlier) (hd : Decodable earlier) {id : Word}
    {t : NumberType} : d.selectorType id = .ok t ↔ (1 ≤ t.width ∧ t.width ≤ 64) ∧ t.isInteger ∧
      ∃ type, HasType earlier id type ∧ DeclaresNumber earlier type t := by
  constructor
  · intro hs
    rw [Defined.selectorType] at hs
    split at hs
    next => simp at hs
    next type htype =>
    obtain ⟨htype, hne⟩ := Option.filter_eq_some_iff.mp htype
    obtain ⟨-, i, hi, rfl, rfl⟩ := (h.types id type).mp htype
    by_cases hdecl : i.opcode.isTypeDeclaration
    · simp [hdecl] at hs
    simp only [hdecl, Bool.false_eq_true, if_false] at hs
    split at hs
    next => simp at hs
    next hself =>
    split at hs
    next => simp at hs
    next t' ht' =>
    split at hs
    next hint =>
      obtain rfl := Except.ok.inj hs
      obtain ⟨hb, hn⟩ := h.numberType_iff.mp ht'
      exact ⟨hb, hint, i.typeId, ⟨i, hi, rfl, rfl⟩, hn⟩
    next => simp at hs
  · rintro ⟨hb, hint, type, ⟨i, hi, rfl, rfl⟩, hn⟩
    obtain ⟨j, hj, hji, hjn⟩ := id hn
    have hdecl := isTypeDeclaration_of_number? hjn
    obtain ⟨_, _, hdj⟩ := hd.exists_decodes hj
    obtain ⟨_, _, hdi⟩ := hd.exists_decodes hi
    have htype : i.typeId ≠ 0 :=
      hji ▸ (hdj.resultId_ne (Opcode.hasResult_of_isTypeDeclaration hdecl).1).1
    have hhas : i.opcode.hasType = true := by simpa [hdi.typeId_eq_zero_iff] using htype
    have hid := (hdi.resultId_ne (Opcode.hasResult_of_hasType hhas)).1
    -- an instruction with a type declares none, so its type is another instruction
    have hndecl : ¬ i.opcode.isTypeDeclaration := fun hc => by
      simp [(Opcode.hasResult_of_isTypeDeclaration hc).2] at hhas
    have hself : i.typeId ≠ i.resultId := fun he => by
      obtain rfl := hd.eq_of_resultId_eq hi hj hid (he ▸ hji.symm)
      exact hndecl hdecl
    have hmap := (h.types i.resultId i.typeId).mpr ⟨hid, i, hi, rfl, by rw [if_neg hndecl]⟩
    simp [Defined.selectorType, hmap, Option.filter_some, htype, hself,
      h.numberType_iff.mpr ⟨hb, hn⟩, hint]


/-- The definitions with the result of an instruction. -/
def withResult (d : Defined) (op : Opcode) (type id : Word) : Defined :=
  if op.hasResult then
    { d with types := d.types.insert id (if op.isTypeDeclaration then id else type) }
  else d

section

variable {count offset : ℕ} {draft : Draft} {records : Array OperandRecord} {p : Pattern}
  {input : List Word} {o : Operands}

lemma readOperands_typeId_iff :
    readOperands count d draft records (.typeId :: p) offset input = .ok o ↔
      ∃ w after, input = w :: after ∧ w ≠ 0 ∧ offset < count ∧
        readOperands count d { draft with typeId := w }
          (records.push ⟨offset, 1, .typeId, none⟩) p (offset + 1) after = .ok o := by
  rw [readOperands]
  by_cases hc : count ≤ offset
  · simp [hc, finishOperands, Slot.isOptional]
  · rcases input with _ | ⟨w, after⟩
    · simp [hc, Pattern.take?]
    · by_cases hw : w = 0 <;>
        simp [hc, hw, Pattern.take?, readOperand, readKind, Reading.single, Meaning.apply,
          Slot.base, Nat.lt_of_not_le]

lemma readOperands_resultId_iff (draft : Draft) (hr : draft.opcode.hasResult) :
    readOperands count d draft records (.resultId :: p) offset input = .ok o ↔
      ∃ w after, input = w :: after ∧ w ≠ 0 ∧ w ∉ d.types ∧ offset < count ∧
        readOperands count (withResult d draft.opcode draft.typeId w) { draft with resultId := w }
          (records.push ⟨offset, 1, .resultId, none⟩) p (offset + 1) after = .ok o := by
  simp only [withResult, hr, if_true]
  rw [readOperands]
  by_cases hc : count ≤ offset
  · simp [hc, finishOperands, Slot.isOptional]
  · rcases input with _ | ⟨w, after⟩
    · simp [hc, Pattern.take?]
    · by_cases hw : w = 0
      · simp [hc, hw, Pattern.take?, readOperand, readKind]
      · by_cases hd : w ∈ d.types <;>
          simp [hc, hw, hd, Pattern.take?, readOperand, readKind, Reading.single, Meaning.apply,
            Slot.base, Nat.lt_of_not_le]

end

lemma Knows.not_mem_types_iff (h : Knows d earlier) {w : Word} (hw : w ≠ 0) :
    w ∉ d.types ↔ ∀ i ∈ earlier, i.resultId ≠ w := by
  rw [← Std.HashMap.isSome_getElem?_iff_mem, Option.isSome_iff_exists]
  simp only [h.types]
  constructor
  · exact fun hno i hi he => hno ⟨_, hw, i, hi, he, rfl⟩
  · rintro hno ⟨_, -, i, hi, he, -⟩
    exact hno i hi he

/-- The result in front is read exactly if it is one, and it is noted. -/
lemma readOperands_result_iff (h : Knows d earlier) {op : Opcode} {start count : ℕ} {lead : Word}
    {after : List Word} {o : Operands} (hc0 : 0 < count) :
    readOperands count d ⟨op, start, lead :: after, 0, 0, none⟩ #[] op.operands 1 after = .ok o ↔
      ∃ pre tail, Result earlier op pre ∧ after = wordsOf pre ++ tail ∧
        (wordsOf pre).length < count ∧
        readOperands count
          (withResult d op (Context.typeId ⟨earlier, op, wordsOf pre⟩)
            (Context.resultId ⟨earlier, op, wordsOf pre⟩))
          ⟨op, start, lead :: after, Context.typeId ⟨earlier, op, wordsOf pre⟩,
            Context.resultId ⟨earlier, op, wordsOf pre⟩, none⟩
          (Piece.records 1 pre).toArray op.constantOperands ((wordsOf pre).length + 1) tail
            = .ok o := by
  rw [op.operands_eq, Opcode.resultSlots]
  cases ht : op.hasType with
  | true =>
    have hr := Opcode.hasResult_of_hasType ht
    simp only [hr, if_true, List.cons_append, List.nil_append, readOperands_typeId_iff,
      readOperands_resultId_iff ⟨op, start, lead :: after, _, 0, none⟩ hr, result_iff_of_hasType ht]
    constructor
    · rintro ⟨t, -, rfl, htne, -, r, tail, rfl, hne, hnew, hc, hok⟩
      refine ⟨_, tail, ⟨t, r, rfl, htne, hne, (h.not_mem_types_iff hne).mp hnew⟩, rfl, hc, ?_⟩
      simpa [Context.typeId, Context.resultId, ht, hr, Piece.records] using hok
    · rintro ⟨-, tail, ⟨t, r, rfl, htne, hne, hnew⟩, rfl, hc, hok⟩
      have hc : 2 < count := hc
      refine ⟨t, _, rfl, htne, by omega, r, tail, rfl, hne, (h.not_mem_types_iff hne).mpr hnew, hc, ?_⟩
      simpa [Context.typeId, Context.resultId, ht, hr, Piece.records] using hok
  | false =>
  cases hr : op.hasResult with
  | true =>
    simp only [if_true, List.nil_append, List.cons_append, readOperands_resultId_iff
      ⟨op, start, lead :: after, 0, 0, none⟩ hr, Bool.false_eq_true, if_false,
      result_iff_of_hasResult hr ht]
    constructor
    · rintro ⟨r, tail, rfl, hne, hnew, hc, hok⟩
      refine ⟨_, tail, ⟨r, rfl, hne, (h.not_mem_types_iff hne).mp hnew⟩, rfl, hc, ?_⟩
      simpa [Context.typeId, Context.resultId, ht, hr, Piece.records] using hok
    · rintro ⟨-, tail, ⟨r, rfl, hne, hnew⟩, rfl, hc, hok⟩
      refine ⟨r, tail, rfl, hne, (h.not_mem_types_iff hne).mpr hnew, hc, ?_⟩
      simpa [Context.typeId, Context.resultId, ht, hr, Piece.records] using hok
  | false =>
    simp only [Bool.false_eq_true, if_false, List.nil_append, result_iff_eq_nil hr]
    constructor
    · intro hok
      refine ⟨[], after, rfl, rfl, hc0, ?_⟩
      simpa [Context.typeId, Context.resultId, ht, hr, Piece.records, withResult] using hok
    · rintro ⟨-, tail, rfl, rfl, hc, hok⟩
      simpa [Context.typeId, Context.resultId, ht, hr, Piece.records, withResult] using hok


/-! ### The instruction -/

@[simp] lemma withResult_numberTypes (op : Opcode) (type id : Word) :
    (withResult d op type id).numberTypes = d.numberTypes := by
  rw [withResult]
  split <;> rfl

@[simp] lemma withResult_imports (op : Opcode) (type id : Word) :
    (withResult d op type id).imports = d.imports := by
  rw [withResult]
  split <;> rfl

variable {op : Opcode} {pre qs : List Piece}

/-- Once the result is read, the reader stands at the operands after it. -/
lemma Knows.agrees (h : Knows d earlier) (hd : Decodable earlier) (hpre : Result earlier op pre)
    (start : ℕ) (lead : Word) (tail : List Word) :
    Agrees ⟨earlier, op, wordsOf pre⟩
      (withResult d op (Context.typeId ⟨earlier, op, wordsOf pre⟩)
        (Context.resultId ⟨earlier, op, wordsOf pre⟩))
      ⟨op, start, lead :: (wordsOf pre ++ tail), Context.typeId ⟨earlier, op, wordsOf pre⟩,
        Context.resultId ⟨earlier, op, wordsOf pre⟩, none⟩ tail where
  opcode := rfl
  words := rfl
  typeId := rfl
  set := by
    cases hpre <;> simp [extendedSet?]
  numbers id t := by
    simpa [Defined.numberType] using @Knows.numberType_iff _ _ h id t
  selectors hop id t := by
    obtain rfl : op = .opSwitch := hop
    rw [withResult, if_neg (by decide)]
    exact h.selectorType_iff hd
  imports _ id set := by simpa using h.imports id set

/-- A switch and an extended instruction name an id right after the result. -/
lemma Result.ready (hpre : Result earlier op pre) :
    Ready ⟨earlier, op, wordsOf pre⟩ op.constantOperands where
  inner _ hs := Opcode.isInner_of_mem hs
  typed ht := by
    cases hpre with
    | absent h => simp [Opcode.hasResult_of_hasType ht] at h
    | untyped | typed => simp
  switch hop _ := by
    obtain rfl : op = .opSwitch := hop
    decide
  extended hop := by
    obtain rfl : op = .opExtInst := hop
    refine .inr ⟨?_, by decide⟩
    cases hpre with
    | absent h => exact absurd h (by decide)
    | untyped _ h => exact absurd h (by decide)
    | typed => rfl

/-- The operands after it do not change what the result of an instruction is. -/
lemma Result.append (hpre : Result earlier op pre) (ws : List Word) :
    Context.typeId ⟨earlier, op, wordsOf pre ++ ws⟩ = Context.typeId ⟨earlier, op, wordsOf pre⟩ ∧
    Context.resultId ⟨earlier, op, wordsOf pre ++ ws⟩
      = Context.resultId ⟨earlier, op, wordsOf pre⟩ := by
  cases hpre with
  | absent h => simp [Context.typeId, Context.resultId, h, Opcode.hasType_of_hasResult h]
  | untyped _ ht => simp [Context.typeId, Context.resultId, ht]
  | typed ht => simp [Context.typeId, Context.resultId, ht]

/-- The instruction that is made of a first word and the operands after it. -/
def instructionOf (d : Defined) (c : Context) (lead : Word) (ps : List Piece) : Instruction :=
  ⟨c.opcode, extendedSet? (c.push (wordsOf ps)) d, (c.push (wordsOf ps)).typeId,
    (c.push (wordsOf ps)).resultId, (lead :: wordsOf ps).toArray, (Piece.records 1 ps).toArray⟩

lemma decodes_iff (h : Knows d earlier) : Decodes earlier i ps ↔
    Filling ⟨earlier, i.opcode, []⟩ i.opcode.operands ps ∧
      ∃ lead, (Word.splitLead lead).1.toNat = (wordsOf ps).length + 1 ∧
        (Word.splitLead lead).2 = i.opcode.value ∧
        i = instructionOf d ⟨earlier, i.opcode, []⟩ lead ps := by
  have hset : ∀ set, extendedSet? ⟨earlier, i.opcode, wordsOf ps⟩ d = some set ↔
      Context.UsesSet ⟨earlier, i.opcode, wordsOf ps⟩ set := fun set =>
    extendedSet?_eq_some_iff fun _ => h.imports
  constructor
  · intro hd
    obtain ⟨lead, hw, hcount, hop⟩ := hd.words
    refine ⟨hd.filling, lead, ?_, hop, ?_⟩
    · rw [hcount, ← Array.length_toList, hw, List.length_cons]
    · have hsets : i.extendedSet? = extendedSet? ⟨earlier, i.opcode, wordsOf ps⟩ d :=
        Option.ext fun set => (hd.set set).trans (hset set).symm
      have hwords : i.words = (lead :: wordsOf ps).toArray := by simp [← hw]
      obtain ⟨op, set, type, id, words, records⟩ := i
      simp only [instructionOf, Context.push, List.nil_append, Instruction.mk.injEq, true_and]
      exact ⟨hsets, hd.typeId, hd.resultId, hwords, hd.operands⟩
  · rintro ⟨hf, lead, hcount, hop, hi⟩
    have hwords : i.words = (lead :: wordsOf ps).toArray := congrArg Instruction.words hi
    refine ⟨hf, ⟨lead, by simp [hwords], by simp [hwords, hcount], hop⟩,
      congrArg Instruction.operands hi, congrArg Instruction.typeId hi,
      congrArg Instruction.resultId hi, fun set => ?_⟩
    rw [← hset, congrArg Instruction.extendedSet? hi]
    rfl

lemma foldl_noteImport_of_ne (id : Word) (h : op ≠ .opExtInstImport) :
    ps.foldl (noteImport op id) d = d := by
  induction ps with
  | nil => rfl
  | cons p ps ih => rw [List.foldl_cons, noteImport_of_ne id d p h, ih]

lemma Result.resultId_ne_zero_iff (hpre : Result earlier op pre) :
    Context.resultId ⟨earlier, op, wordsOf pre⟩ ≠ 0 ↔ op.hasResult = true := by
  cases hpre with
  | absent h => simp [Context.resultId, h]
  | untyped hr ht hne => simp [Context.resultId, hr, ht, hne]
  | typed ht _ hne => simp [Context.resultId, Opcode.hasResult_of_hasType ht, ht, hne]

/-- Noting what the operands mean and what they declare adds the instruction. -/
lemma learn_eq_add (hpre : Result earlier op pre)
    (hf : Filling ⟨earlier, op, wordsOf pre⟩ op.constantOperands qs) (lead : Word) :
    Defined.learn (qs.foldl (noteImport op (Context.resultId ⟨earlier, op, wordsOf pre⟩))
        (withResult d op (Context.typeId ⟨earlier, op, wordsOf pre⟩)
          (Context.resultId ⟨earlier, op, wordsOf pre⟩)))
      (instructionOf d ⟨earlier, op, []⟩ lead (pre ++ qs))
      = d.add (instructionOf d ⟨earlier, op, []⟩ lead (pre ++ qs)) := by
  set i := instructionOf d ⟨earlier, op, []⟩ lead (pre ++ qs) with hi
  have hid : i.resultId = Context.resultId ⟨earlier, op, wordsOf pre⟩ := by
    rw [← (Result.append hpre _).2, ← Piece.wordsOf_append]
    rfl
  have htype : i.typeId = Context.typeId ⟨earlier, op, wordsOf pre⟩ := by
    rw [← (Result.append hpre _).1, ← Piece.wordsOf_append]
    rfl
  have hhas : i.hasResult = op.hasResult := by
    rw [Bool.eq_iff_iff, ← Result.resultId_ne_zero_iff hpre, ← hid]
    simp [Instruction.hasResult]
  rw [Defined.add, hhas, hid, htype, show i.opcode = op from rfl]
  congr 1
  by_cases hop : op = .opExtInstImport
  · subst hop
    obtain ⟨ws, rfl, -⟩ := Filling.string_iff.mp hf
    cases hpre with
    | absent h => exact absurd h (by decide)
    | typed h => exact absurd h (by decide)
    | untyped result =>
      have hset : i.importedSet? = setNamed? ws := by
        simp [Instruction.importedSet?, hi, instructionOf]
      simp [hset, noteImport, withResult, result]
  · have hset : i.importedSet? = none := if_neg hop
    rw [foldl_noteImport_of_ne _ hop, hset, withResult]
    split <;> rfl

/-- The operands of an instruction are read exactly if they fill the slots of its opcode. -/
lemma readOperands_operands_iff (h : Knows d earlier) (hd : Decodable earlier) (start : ℕ)
    (lead : Word) {count : ℕ} {after : List Word} {o : Operands} (hc0 : 0 < count) :
    readOperands count d ⟨op, start, lead :: after, 0, 0, none⟩ #[] op.operands 1 after = .ok o ↔
      ∃ pre qs tail, Result earlier op pre ∧
        Filling ⟨earlier, op, wordsOf pre⟩ op.constantOperands qs ∧
        after = wordsOf (pre ++ qs) ++ tail ∧ count = (wordsOf (pre ++ qs)).length + 1 ∧
        o = ⟨qs.foldl (noteImport op (Context.resultId ⟨earlier, op, wordsOf pre⟩))
            (withResult d op (Context.typeId ⟨earlier, op, wordsOf pre⟩)
              (Context.resultId ⟨earlier, op, wordsOf pre⟩)),
          ⟨op, start, lead :: after, Context.typeId ⟨earlier, op, wordsOf pre⟩,
            Context.resultId ⟨earlier, op, wordsOf pre⟩,
            extendedSet? ⟨earlier, op, wordsOf (pre ++ qs)⟩ d⟩,
          (Piece.records 1 (pre ++ qs)).toArray⟩ := by
  have hcount : ∀ pre qs : List Piece, (wordsOf (pre ++ qs)).length + 1
      = (wordsOf pre).length + 1 + (wordsOf qs).length := fun pre qs => by
    simp only [Piece.wordsOf_append, List.length_append]
    omega
  have hafter : ∀ pre qs : List Piece, ∀ type id, afterPieces ⟨earlier, op, wordsOf pre⟩
      (withResult d op type id) ⟨op, start, lead :: after, type, id, none⟩
      (Piece.records 1 pre).toArray qs = ⟨qs.foldl (noteImport op id) (withResult d op type id),
        ⟨op, start, lead :: after, type, id, extendedSet? ⟨earlier, op, wordsOf (pre ++ qs)⟩ d⟩,
        (Piece.records 1 (pre ++ qs)).toArray⟩ := fun pre qs type id => by
    simp [afterPieces, Piece.records_append, Piece.wordsOf_append, Context.push, extendedSet?,
      Nat.add_comm]
  rw [readOperands_result_iff h hc0]
  constructor
  · rintro ⟨pre, tail, hpre, rfl, -, hread⟩
    obtain ⟨qs, tail, hf, rfl, hc, rfl⟩ :=
      (readOperands_iff (h.agrees hd hpre start lead tail) (Result.ready hpre)).mp hread
    exact ⟨pre, qs, tail, hpre, hf, by simp [Piece.wordsOf_append], by rw [hcount]; exact hc,
      hafter pre qs _ _⟩
  · rintro ⟨pre, qs, tail, hpre, hf, rfl, hc, rfl⟩
    rw [hcount] at hc
    refine ⟨pre, wordsOf qs ++ tail, hpre, by simp [Piece.wordsOf_append], by omega, ?_⟩
    have hagrees := h.agrees hd hpre start lead (wordsOf qs ++ tail)
    rw [← List.append_assoc, ← Piece.wordsOf_append] at hagrees
    exact (readOperands_iff hagrees (Result.ready hpre)).mpr
      ⟨qs, tail, hf, rfl, hc, (hafter pre qs _ _).symm⟩

/-- An instruction is made of what its operands come to. -/
lemma readInstruction_eq_ok_iff {start : ℕ} {lead : Word} {after : List Word} {d' : Defined} :
    readInstruction d start lead after = .ok (d', i) ↔
      (Word.splitLead lead).1.toNat ≠ 0 ∧ ∃ op o,
        Opcode.ofValue? (Word.splitLead lead).2 = some op ∧
        readOperands (Word.splitLead lead).1.toNat d ⟨op, start, lead :: after, 0, 0, none⟩ #[]
          op.operands 1 after = .ok o ∧
        i = ⟨op, o.draft.extendedSet?, o.draft.typeId, o.draft.resultId,
          ((lead :: after).take (Word.splitLead lead).1.toNat).toArray, o.records⟩ ∧
        d' = o.defined.learn i := by
  rw [readInstruction]
  dsimp only
  constructor
  · intro h
    split at h
    next => simp at h
    next hcount =>
    split at h
    next => simp at h
    next op hop =>
    split at h
    next => simp at h
    next o ho =>
      obtain ⟨rfl, rfl⟩ := Prod.mk.inj (Except.ok.inj h)
      exact ⟨hcount, op, o, hop, ho, rfl, rfl⟩
  · rintro ⟨hcount, op, o, hop, ho, rfl, rfl⟩
    simp only [if_neg hcount, hop, ho]

/-- The instruction that is made of operands which fill the slots of its opcode. -/
lemma instructionOf_append {op : Opcode} {pre : List Piece} (hpre : Result earlier op pre)
    (qs : List Piece) {lead : Word} {tail : List Word}
    (hc : (Word.splitLead lead).1.toNat = (wordsOf (pre ++ qs)).length + 1) :
    instructionOf d ⟨earlier, op, []⟩ lead (pre ++ qs) =
      ⟨op, extendedSet? ⟨earlier, op, wordsOf (pre ++ qs)⟩ d,
        Context.typeId ⟨earlier, op, wordsOf pre⟩, Context.resultId ⟨earlier, op, wordsOf pre⟩,
        ((lead :: (wordsOf (pre ++ qs) ++ tail)).take (Word.splitLead lead).1.toNat).toArray,
        (Piece.records 1 (pre ++ qs)).toArray⟩ := by
  have hres := Result.append hpre (wordsOf qs)
  rw [← Piece.wordsOf_append] at hres
  simp [instructionOf, Context.push, hc, ← hres.1, ← hres.2]

/-- **An instruction is read exactly if it may stand after the earlier ones.** -/
theorem readInstruction_iff (h : Knows d earlier) (hd : Decodable earlier) {start : ℕ} {lead : Word}
    {after : List Word} {d' : Defined} :
    readInstruction d start lead after = .ok (d', i) ↔
      (∃ ps tail, Decodes earlier i ps ∧ lead :: after = i.words.toList ++ tail) ∧
        d' = d.add i := by
  rw [readInstruction_eq_ok_iff]
  simp only [decodes_iff h]
  constructor
  · rintro ⟨hc0, op, o, hop, ho, hi, rfl⟩
    obtain ⟨pre, qs, tail, hpre, hf, rfl, hc, rfl⟩ :=
      (readOperands_operands_iff h hd start lead (Nat.pos_of_ne_zero hc0)).mp ho
    obtain rfl := hi.trans (instructionOf_append hpre qs hc).symm
    refine ⟨⟨pre ++ qs, tail, ⟨filling_operands_iff.mpr ⟨pre, qs, hpre, rfl, hf⟩, lead, hc,
      (Opcode.value_of_ofValue? hop).symm, rfl⟩, by simp [instructionOf]⟩, learn_eq_add hpre hf lead⟩
  · rintro ⟨⟨ps, tail, ⟨hf, lead', hc, hop, hi⟩, hw⟩, rfl⟩
    obtain ⟨pre, qs, hpre, rfl, hfq⟩ := filling_operands_iff.mp hf
    have hwords : i.words.toList = lead' :: wordsOf (pre ++ qs) := by
      rw [congrArg Instruction.words hi]
      rfl
    obtain ⟨rfl, rfl⟩ : lead = lead' ∧ after = wordsOf (pre ++ qs) ++ tail := by
      simpa [hwords] using hw
    refine ⟨by omega, i.opcode, _, by rw [hop, Opcode.ofValue?_value],
      (readOperands_operands_iff h hd start lead (by omega)).mpr
        ⟨pre, qs, tail, hpre, hfq, rfl, hc, rfl⟩, hi.trans (instructionOf_append hpre qs hc), ?_⟩
    rw [hi]
    exact (learn_eq_add hpre hfq lead).symm

end Binary

end Spirv
