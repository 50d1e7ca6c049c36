import Spirv.Number.Type
import Spirv.Operand.Slot
import Spirv.SymbolTable

/-!
What can be wrong with assembly text, and the message for each fault.
-/

namespace Spirv.Assembly

inductive Fault where
  | instructionTooLong (words : Nat)
  /-- A word that is not the name of an opcode where only one may stand. -/
  | expectedOpcode (found : String)
  /-- A word that is neither the name of an opcode nor an id where an instruction must start. -/
  | expectedOpcodeOrResult (found : String)
  | expectedEqualsAtEnd
  | expectedEquals
  | expectedOpcodeAtEnd
  /-- A word after `=` that does not begin like the name of an opcode. -/
  | notOpcodeLike (found : String)
  | unknownOpcode (found : String)
  /-- An opcode with a result that no id is assigned from. -/
  | missingResult (found : String)
  | missingOperandAtEnd
  | missingOperandAtInstruction
  | badImmediate (word : String)
  /-- An `=` among the words of an instruction that starts with a raw word. -/
  | equalsAfterRaw (first : String)
  | badWordAfterRaw (first word : String)
  | expectedId
  | symbol (error : SymbolError)
  | stringForNumber (word : String)
  | badNumber (word : String)
  | integerOutOfRange (word : String) (type : NumberType)
  | numberForString (word : String)
  | badString (word : String)
  | unknownExtended (word : String)
  | unknownSpecOpcode (word : String)
  | badValue (category : Category) (word : String)
  | unexpected (slot : Slot) (word : String)
  deriving DecidableEq

namespace Fault

def message : Fault → String
  | instructionTooLong words =>
    "Instruction too long: " ++ toString words ++ " words, but the limit is " ++
      toString maxInstructionWords ++ "."
  | expectedOpcode found =>
    "Expected <opcode> at the beginning of an instruction, found '" ++ found ++ "'."
  | expectedOpcodeOrResult found =>
    "Expected <opcode> or <result-id> at the beginning of an instruction, found '" ++ found ++ "'."
  | expectedEqualsAtEnd => "Expected '=', found end of stream."
  | expectedEquals => "'=' expected after result id."
  | expectedOpcodeAtEnd => "Expected opcode, found end of stream."
  | notOpcodeLike found => "Invalid Opcode prefix '" ++ found ++ "'."
  | unknownOpcode found => "Invalid Opcode name '" ++ found ++ "'"
  | missingResult found =>
    "Expected <result-id> at the beginning of an instruction, found '" ++ found ++ "'."
  | missingOperandAtEnd => "Expected operand, found end of stream."
  | missingOperandAtInstruction => "Expected operand, found next instruction instead."
  | badImmediate word => "Invalid immediate integer '" ++ word ++ "'."
  | equalsAfterRaw first => first ++ " not allowed before =."
  | badWordAfterRaw first word => "Invalid word following " ++ first ++ ": " ++ word
  | expectedId => "Expected id to start with %."
  | symbol error => error.message
  | stringForNumber word => "Expected literal number, found literal string '" ++ word ++ "'."
  | badNumber word => "Invalid literal number '" ++ word ++ "'."
  | integerOutOfRange word type =>
    "Integer " ++ word ++ " does not fit in a " ++ toString type.width ++ "-bit " ++
      (if type.numberClass = .signed then "signed" else "unsigned") ++ " integer type."
  | numberForString word => "Expected literal string, found literal number '" ++ word ++ "'."
  | badString word => "Invalid literal string '" ++ word ++ "'."
  | unknownExtended word => "Invalid extended instruction name '" ++ word ++ "'."
  | unknownSpecOpcode word => "Invalid OpSpecConstantOp opcode '" ++ word ++ "'."
  | badValue category word => "Invalid " ++ category.description ++ " '" ++ word ++ "'."
  | unexpected slot word => "Unexpected " ++ slot.description ++ " operand '" ++ word ++ "'."

end Fault

end Spirv.Assembly
