import Spirv.Binary.Operand
import Spirv.Error

/-!
Reading one instruction from the words of a module. Its first word says how many words it has, and its
operands must fill the slots of its opcode and end with its last word.
-/

namespace Spirv.Binary

/-- Notes what an operand means. -/
def Meaning.apply (d : Defined) (draft : Draft) : Meaning → Defined × Draft
  | plain => (d, draft)
  | typeId id => (d, { draft with typeId := id })
  | resultId id =>
    let type := if draft.opcode.isTypeDeclaration then id else draft.typeId
    ({ d with types := d.types.insert id type }, { draft with resultId := id })
  | extendedSet set => (d, { draft with extendedSet? := some set })
  | importing set => ({ d with imports := d.imports.insert draft.resultId set }, draft)

/-- The outcome of reading operands. -/
structure Operands where
  defined : Defined
  draft : Draft
  records : Array OperandRecord

/-- Checks, where the stated words of an instruction are used up, that its operands are complete and
end there. -/
def finishOperands (count : Nat) (pattern : Pattern) (offset : Nat) (o : Operands) :
    Except Error Operands :=
  let op := o.draft.opcode
  let start := o.draft.start
  if pattern.head?.any (!·.isOptional) then
    .error (.binary (.missingOperands op start count) start)
  else if offset ≠ count then .error (.binary (.wrongWordCount op start count offset) start)
  else .ok o

/-- Reads operands up to the end of an instruction of `count` words. `offset` words of it have been
read and `input` comes next. -/
def readOperands (count : Nat) (d : Defined) (draft : Draft) (records : Array OperandRecord)
    (pattern : Pattern) (offset : Nat) (input : List Word) : Except Error Operands :=
  if count ≤ offset then finishOperands count pattern offset ⟨d, draft, records⟩
  else match Pattern.take? pattern with
    | none => .error (.binary (.excessWords draft.opcode draft.start offset count) draft.start)
    | some (slot, rest) =>
      match input with
      | [] =>
        .error (.binary (.missingOperand draft.opcode draft.start slot offset)
          (draft.start + offset))
      | w :: after =>
        match readOperand d draft slot offset w after with
        | .error fault => .error (.binary fault (draft.start + offset))
        | .ok r =>
          let (d, draft) := r.meaning.apply d draft
          readOperands count d draft
            (records.push ⟨offset, r.moreWords + 1, r.slot, r.number?⟩) (r.needs ++ rest)
            (offset + (r.moreWords + 1)) (after.drop r.moreWords)
termination_by input.length
decreasing_by
  simp only [List.length_drop, List.length_cons]
  omega

/-- The numeric type that an instruction declares. -/
def declaredNumber? (op : Opcode) (words : Array Word) : Option NumberType :=
  match op, words[2]?, words[3]? with
  | .opTypeInt, some width, some signedness => some (.ofInteger width.toNat signedness.toNat)
  | .opTypeFloat, some width, _ => some ⟨.float, width.toNat⟩
  | _, _, _ => none

/-- Notes the numeric type that an instruction declares, or that its type is not numeric. -/
def Defined.learn (d : Defined) (i : Instruction) : Defined :=
  if i.opcode.isTypeDeclaration && i.hasResult then
    { d with numberTypes := d.numberTypes.insert i.resultId (declaredNumber? i.opcode i.words) }
  else d

/-- Reads the instruction whose first word is `lead`, at index `start` of the module, and which
continues with `after`. -/
def readInstruction (d : Defined) (start : Nat) (lead : Word) (after : List Word) :
    Except Error (Defined × Instruction) :=
  let count := (Word.splitLead lead).1.toNat
  if count = 0 then .error (.binary .zeroWordCount start)
  else match Opcode.ofValue? (Word.splitLead lead).2 with
    | none => .error (.binary (.unknownOpcode (Word.splitLead lead).2) start)
    | some op =>
      match readOperands count d ⟨op, start, lead :: after, 0, 0, none⟩ #[] op.operands 1 after with
      | .error e => .error e
      | .ok o =>
        let i : Instruction :=
          ⟨op, o.draft.extendedSet?, o.draft.typeId, o.draft.resultId,
            ((lead :: after).take count).toArray, o.records⟩
        .ok (o.defined.learn i, i)

end Spirv.Binary
