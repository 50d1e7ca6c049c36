import Spirv.Operand.Category

/-!
What an operand may be and how often. A kind says what a single operand is; a slot is a place in an
operand list and says whether a kind is required there, may be absent, or repeats.
-/

namespace Spirv

/-- What a single operand is. -/
inductive OperandKind where
  | id
  | typeId
  | resultId
  | scopeId
  | memorySemanticsId
  /-- A number of one word. -/
  | integer
  /-- A number held as the numeric type that governs the instruction says. -/
  | typedNumber
  | string
  /-- The number of an instruction of an imported set. -/
  | extended
  /-- The opcode by which a constant is computed. -/
  | specOpcode
  | named (category : Category)
  deriving DecidableEq

namespace OperandKind

/-- The phrase that messages use for an operand of the kind. -/
def description : OperandKind → String
  | id => "ID"
  | typeId => "type ID"
  | resultId => "result ID"
  | scopeId => "scope ID"
  | memorySemanticsId => "memory semantics ID"
  | integer => "literal number"
  | typedNumber => "possibly multi-word literal number"
  | string => "literal string"
  | extended => "extended instruction"
  | specOpcode => "OpSpecConstantOp opcode"
  | named c => c.description

/-- The phrase for an operand that is one member of a pair. -/
def memberDescription : OperandKind → String
  | typedNumber => "literal number"
  | k => k.description

/-- Whether an operand of the kind is written `%name`. -/
def isId : OperandKind → Bool
  | id | typeId | resultId | scopeId | memorySemanticsId => true
  | _ => false

end OperandKind

/-- A place in an operand list. -/
inductive Slot where
  /-- No operand at all; what is found where a list has run out. -/
  | nothing
  | one (kind : OperandKind)
  | optional (kind : OperandKind)
  /-- The second member of a repeated pair, looked for once the first is present. -/
  | second (kind : OperandKind)
  | many (kind : OperandKind)
  /-- Any number of pairs, to the end of the instruction. -/
  | pairs (first second : OperandKind)
  /-- A number, string or id that the grammar says nothing about. It may be absent. -/
  | free
  deriving DecidableEq

namespace Slot

@[match_pattern] abbrev id : Slot := .one .id
@[match_pattern] abbrev typeId : Slot := .one .typeId
@[match_pattern] abbrev resultId : Slot := .one .resultId
@[match_pattern] abbrev scopeId : Slot := .one .scopeId
@[match_pattern] abbrev memorySemanticsId : Slot := .one .memorySemanticsId
@[match_pattern] abbrev integer : Slot := .one .integer
@[match_pattern] abbrev typedNumber : Slot := .one .typedNumber
@[match_pattern] abbrev string : Slot := .one .string
@[match_pattern] abbrev extended : Slot := .one .extended
@[match_pattern] abbrev specOpcode : Slot := .one .specOpcode
@[match_pattern] abbrev named (c : Category) : Slot := .one (.named c)

def description : Slot → String
  | nothing => "NONE"
  | one k | optional k | second k | many k => k.description
  | pairs k l => k.memberDescription ++ ", " ++ l.memberDescription ++ " pair"
  | free => "context-insensitive value"

/-- The slot that requires what this one allows. Pairs and free operands have no such form. -/
def base : Slot → Slot
  | optional k | second k | many k => one k
  | s => s

/-- Whether the operand may be absent. -/
def isOptional : Slot → Bool
  | nothing | one _ => false
  | _ => true

/-- Whether the slot stands for any number of operands. -/
def isVariable : Slot → Bool
  | many _ | pairs _ _ => true
  | _ => false

/-- Whether the slot is for one operand written `%name`. -/
def isId : Slot → Bool
  | one k | optional k | second k => k.isId
  | _ => false

/-- The category that the operand names values of. -/
def category? : Slot → Option Category
  | one (.named c) | optional (.named c) | second (.named c) | many (.named c) => some c
  | _ => none

def isMask (s : Slot) : Bool := s.category?.any (·.isMask)

def isEnumeration (s : Slot) : Bool := s.category?.any (!·.isMask)

end Slot

end Spirv
