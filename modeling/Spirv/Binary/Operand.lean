import Std.Data.HashMap
import Spirv.Binary.Fault
import Spirv.Instruction
import Spirv.Opcode.Class
import Spirv.Operand.Lookup
import Spirv.Operand.Pattern
import Spirv.PackedString

/-!
Reading an operand from the words of an instruction. What the words stand for depends on the slot they
fill, on the operands before them and on what earlier instructions defined.
-/

namespace Spirv.Binary

-- Powers of numbers are the language's own, also where a library brings powers in a monoid.
attribute [local instance (high)] instPowNat

/-- What the instructions read so far define. -/
structure Defined where
  /-- The type of each result: the result itself if it is a type, zero if it has none. -/
  types : Std.HashMap Word Word
  /-- The numeric type that each type is, if it is one. -/
  numberTypes : Std.HashMap Word (Option NumberType)
  imports : Std.HashMap Word ExtendedSet

def Defined.empty : Defined := ⟨∅, ∅, ∅⟩

/-- The instruction that is being read. -/
structure Draft where
  opcode : Opcode
  /-- Where the instruction starts in the module. -/
  start : Nat
  /-- The words of the module from the start of the instruction on. -/
  words : List Word
  typeId : Word
  resultId : Word
  extendedSet? : Option ExtendedSet

/-- What an operand means for the rest of the module or of its instruction. -/
inductive Meaning where
  | plain
  | typeId (id : Word)
  | resultId (id : Word)
  | extendedSet (set : ExtendedSet)
  | importing (set : ExtendedSet)

/-- An operand that was read. -/
structure Reading where
  slot : Slot
  number? : Option NumberType
  /-- The words after the first. -/
  moreWords : Nat
  /-- The slots that must be filled after it. -/
  needs : List Slot
  meaning : Meaning

namespace Reading

/-- An operand of one word. -/
def single (slot : Slot) (needs : List Slot) (meaning : Meaning) : Reading :=
  ⟨slot.base, none, 0, needs, meaning⟩

end Reading

/-- The numeric type that a type id stands for, of a width that numbers can have. -/
def Defined.numberType (d : Defined) (id : Word) : Except Fault NumberType :=
  match d.numberTypes[id]? with
  | none => .error (.notType id)
  | some none => .error (.notNumeric id)
  | some (some type) =>
    if type.width = 0 || 64 < type.width then .error (.badWidth id type.width) else .ok type

/-- The numeric type of a switch's selector. -/
def Defined.selectorType (d : Defined) (selector : Word) : Except Fault NumberType :=
  match d.types[selector]?.filter (· ≠ 0) with
  | none => .error (.badSelector selector .untyped)
  | some id =>
    if id = selector then .error (.badSelector selector .isType)
    else match d.numberType id with
      | .error fault => .error fault
      | .ok type =>
        if type.isInteger then .ok type else .error (.badSelector selector .notInteger)

/-- The numeric type that governs the numbers of an instruction: the selector's for a switch and the
result's otherwise. -/
def Defined.governing (d : Defined) (draft : Draft) : Except Fault NumberType :=
  if draft.opcode = .opSwitch then d.selectorType (draft.words.getD 1 0)
  else d.numberType draft.typeId

/-- A fault at the end of the words. -/
def Draft.truncated (draft : Draft) (slot : Slot) (offset : Nat) : Fault :=
  .truncatedOperand draft.opcode draft.start slot.base offset

/-- Reads an id that an operand names. The set of an extended instruction is its third operand. -/
def readId (d : Defined) (draft : Draft) (slot : Slot) (offset : Nat) (w : Word) :
    Except Fault Reading :=
  if w = 0 then .error .zeroId
  else if draft.opcode = .opExtInst && offset = 3 then
    match d.imports[w]? with
    | some set => .ok (.single slot [] (.extendedSet set))
    | none => .error (.notImport w)
  else .ok (.single slot [] .plain)

def readTyped (d : Defined) (draft : Draft) (slot : Slot) (offset : Nat) (rest : List Word) :
    Except Fault Reading :=
  match d.governing draft with
  | .error fault => .error fault
  | .ok type =>
    if 32 < type.width && rest.isEmpty then .error (draft.truncated slot offset)
    else .ok ⟨slot.base, some type, type.wordCount - 1, [], .plain⟩

def readString (draft : Draft) (slot : Slot) (offset : Nat) (words : List Word) :
    Except Fault Reading :=
  match PackedString.unpack? words with
  | none => .error (draft.truncated slot offset)
  | some (bytes, count) =>
    if draft.opcode = .opExtInstImport then
      let name := String.ofList (Text.Utf8.decode bytes)
      match ExtendedSet.ofImportName? name with
      | some set => .ok ⟨slot.base, none, count - 1, [], .importing set⟩
      | none => .error (.unknownImport name)
    else .ok ⟨slot.base, none, count - 1, [], .plain⟩

def readSpecOpcode (slot : Slot) (w : Word) : Except Fault Reading :=
  match if w.toNat < 2 ^ (16 : Nat) then Opcode.ofValue? w.toUInt16 else none with
  | some op => .ok (.single slot op.constantOperands .plain)
  | none => .error (.unknownSpecOpcode w)

def readNamed (slot : Slot) (c : Category) (w : Word) : Except Fault Reading :=
  if c.isMask then
    match c.checkMask w with
    | .ok needs => .ok (.single slot needs .plain)
    | .error bit => .error (.badMaskBit c w bit)
  else
    match c.ofValue? w with
    | some row => .ok (.single slot row.operands .plain)
    | none => .error (.badValue c w)

/-- Reads an operand of a kind that starts with the word `w`, which `rest` follows. -/
def readKind (d : Defined) (draft : Draft) (slot : Slot) (offset : Nat) (w : Word)
    (rest : List Word) : OperandKind → Except Fault Reading
  | .typeId => if w = 0 then .error .zeroTypeId else .ok (.single slot [] (.typeId w))
  | .resultId =>
    if w = 0 then .error .zeroResultId
    else if d.types.contains w then .error (.redefined w)
    else .ok (.single slot [] (.resultId w))
  | .id => readId d draft slot offset w
  | .scopeId | .memorySemanticsId =>
    if w = 0 then .error (.zeroOperandId slot) else .ok (.single slot [] .plain)
  | .integer => .ok ⟨.integer, some ⟨.unsigned, 32⟩, 0, [], .plain⟩
  | .typedNumber => readTyped d draft slot offset rest
  | .string => readString draft slot offset (w :: rest)
  | .extended =>
    match ExtendedSet.instructionOfWord draft.extendedSet? w with
    | .ok row => .ok (.single slot row.operands .plain)
    | .error _ => .error (.unknownExtended w)
  | .specOpcode => readSpecOpcode slot w
  | .named c => readNamed slot c w

/-- Reads the operand that fills a slot. -/
def readOperand (d : Defined) (draft : Draft) (slot : Slot) (offset : Nat) (w : Word)
    (rest : List Word) : Except Fault Reading :=
  match slot with
  | .one k | .optional k | .second k => readKind d draft slot offset w rest k
  | .free => .ok ⟨.integer, some ⟨.unsigned, 32⟩, 0, [], .plain⟩
  | .nothing | .many _ | .pairs _ _ => .error (.unexpected slot draft.opcode)

end Spirv.Binary
