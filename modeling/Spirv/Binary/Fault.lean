import Spirv.Opcode.Signature
import Spirv.Word

/-!
What can be wrong with the words of a module, and the message for each fault.
-/

namespace Spirv.Binary

/-- Why the type of a switch's selector does not say how to read its cases. -/
inductive SelectorFault where
  | untyped
  | isType
  | notInteger
  deriving DecidableEq

inductive Fault where
  | incompleteHeader (words : Nat)
  | badMagic
  | zeroWordCount
  | unknownOpcode (value : UInt16)
  /-- Words are left when every operand has been read. -/
  | excessWords (op : Opcode) (start read count : Nat)
  | missingOperands (op : Opcode) (start count : Nat)
  /-- The last operand runs past the stated end of the instruction. -/
  | wrongWordCount (op : Opcode) (start stated found : Nat)
  /-- The words of the module end before an operand. -/
  | missingOperand (op : Opcode) (start : Nat) (slot : Slot) (offset : Nat)
  /-- The words of the module end inside an operand. -/
  | truncatedOperand (op : Opcode) (start : Nat) (slot : Slot) (offset : Nat)
  | zeroTypeId
  | zeroResultId
  | redefined (id : Word)
  | zeroId
  | zeroOperandId (slot : Slot)
  | notImport (id : Word)
  | unknownExtended (number : Word)
  | unknownSpecOpcode (value : Word)
  | unknownImport (name : String)
  | badMaskBit (category : Category) (mask bit : Word)
  | badValue (category : Category) (value : Word)
  | badSelector (id : Word) (fault : SelectorFault)
  | notType (id : Word)
  | notNumeric (id : Word)
  | badWidth (id : Word) (width : Nat)
  | unexpected (slot : Slot) (op : Opcode)
  deriving DecidableEq

def SelectorFault.message : SelectorFault → String
  | untyped => "has no type"
  | isType => "is a type, not a value"
  | notInteger => "is not a scalar integer"

namespace Fault

/-- The words with which messages about the end of an instruction begin. -/
def atEnd (op : Opcode) (start : Nat) : String :=
  "End of input reached while decoding " ++ op.mnemonic ++ " starting at word " ++ toString start ++
    ": "

def message : Fault → String
  | incompleteHeader words =>
    "Module has incomplete header: only " ++ toString words ++ " words instead of 5"
  | badMagic => "Invalid SPIR-V magic number."
  | zeroWordCount => "Invalid instruction word count: 0"
  | unknownOpcode value => "Invalid opcode: " ++ toString value.toNat
  | excessWords op start read count =>
    "Invalid instruction " ++ op.mnemonic ++ " starting at word " ++ toString start ++
      ": expected no more operands after " ++ toString read ++ " words, but stated word count is " ++
      toString count ++ "."
  | missingOperands op start count =>
    atEnd op start ++ "expected more operands after " ++ toString count ++ " words."
  | wrongWordCount op start stated found =>
    "Invalid word count: " ++ op.mnemonic ++ " starting at word " ++ toString start ++
      " says it has " ++ toString stated ++ " words, but found " ++ toString found ++
      " words instead."
  | missingOperand op start slot offset =>
    atEnd op start ++ "missing " ++ slot.description ++ " operand at word offset " ++
      toString offset ++ "."
  | truncatedOperand op start slot offset =>
    atEnd op start ++ "truncated " ++ slot.description ++ " operand at word offset " ++
      toString offset ++ "."
  | zeroTypeId => "Error: Type Id is 0"
  | zeroResultId => "Error: Result Id is 0"
  | redefined id => "Id " ++ toString id.toNat ++ " is defined more than once"
  | zeroId => "Id is 0"
  | zeroOperandId slot => slot.description ++ " is 0"
  | notImport id =>
    "OpExtInst set Id " ++ toString id.toNat ++ " does not reference an OpExtInstImport result Id"
  | unknownExtended number => "Invalid extended instruction number: " ++ toString number.toNat
  | unknownSpecOpcode value => "Invalid OpSpecConstantOp opcode: " ++ toString value.toNat
  | unknownImport name => "Invalid extended instruction import '" ++ name ++ "'"
  | badMaskBit category mask bit =>
    "Invalid " ++ category.description ++ " operand: " ++ toString mask.toNat ++
      " has invalid mask component " ++ toString bit.toNat
  | badValue category value =>
    "Invalid " ++ category.description ++ " operand: " ++ toString value.toNat
  | badSelector id fault =>
    "Invalid OpSwitch: selector id " ++ toString id.toNat ++ " " ++ fault.message
  | notType id => "Type Id " ++ toString id.toNat ++ " is not a type"
  | notNumeric id => "Type Id " ++ toString id.toNat ++ " is not a scalar numeric type"
  | badWidth id width =>
    "Type Id " ++ toString id.toNat ++ " has unsupported bit width " ++ toString width ++
      " for a literal number"
  | unexpected slot op => "Unexpected " ++ slot.description ++ " operand in " ++ op.mnemonic

end Fault

end Spirv.Binary
