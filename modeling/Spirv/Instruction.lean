import Spirv.ExtendedSet
import Spirv.Number.Type
import Spirv.Opcode.Signature

/-!
Decoded instructions: the words of an instruction and a record of where each operand lies in them.
-/

namespace Spirv

/-- Where an operand lies within its instruction, and how to read it. -/
structure OperandRecord where
  /-- The index of the first word. The first word of the instruction has index zero. -/
  offset : Nat
  wordCount : Nat
  slot : Slot
  /-- For a number, how it is held. -/
  number? : Option NumberType
  deriving DecidableEq

structure Instruction where
  opcode : Opcode
  /-- The set of an extended instruction. -/
  extendedSet? : Option ExtendedSet
  /-- The id of the result type, or zero if there is none. -/
  typeId : Word
  /-- The id of the result, or zero if there is none. -/
  resultId : Word
  words : Array Word
  operands : Array OperandRecord
  deriving DecidableEq

namespace Instruction

def hasResult (i : Instruction) : Bool := i.resultId ≠ 0

/-- The words of an operand; none if it lies outside the instruction. -/
def wordsOf (i : Instruction) (r : OperandRecord) : List Word :=
  if r.offset + r.wordCount ≤ i.words.size then
    (i.words.extract r.offset (r.offset + r.wordCount)).toList
  else []

/-- The words of the operand with a given index; none if there is no such operand. -/
def operandWords (i : Instruction) (index : Nat) : List Word :=
  match i.operands[index]? with
  | some r => i.wordsOf r
  | none => []

/-- The first word of the operand with a given index. -/
def operandWord? (i : Instruction) (index : Nat) : Option Word := (i.operandWords index).head?

/-- A word in hexadecimal digits. -/
def hexDigits (w : Word) : String := String.ofList (Nat.toDigits 16 w.toNat)

/-- An operand as its id or as its words in hexadecimal, each after a blank. -/
def describeOperand (i : Instruction) (r : OperandRecord) : String :=
  if r.slot.isId then " %" ++ toString ((i.wordsOf r).headD 0).toNat
  else String.join ((i.wordsOf r).map fun w => " 0x" ++ hexDigits w)

/-- The instruction with ids by number and all other words in hexadecimal. -/
def description (i : Instruction) : String :=
  (if i.hasResult then "%" ++ toString i.resultId.toNat ++ " = " else "") ++ i.opcode.mnemonic ++
    String.join ((i.operands.toList.filter (·.slot ≠ .resultId)).map i.describeOperand)

end Instruction

end Spirv
