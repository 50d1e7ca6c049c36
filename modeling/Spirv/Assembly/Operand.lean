import Std.Data.HashMap
import Spirv.Error
import Spirv.Operand.Lookup
import Spirv.Operand.Pattern
import Spirv.PackedString
import Spirv.Text.Token

/-!
Reading a word of text as an operand. What a word stands for depends on the slot it is to fill, on the
operands before it and on what earlier instructions declared; reading it changes none of these.
-/

namespace Spirv.Assembly

/-- What earlier instructions of a text declared. -/
structure Declared where
  /-- The extended set that each import gave its result, if it is a known one. -/
  imports : Std.HashMap Word (Option ExtendedSet)
  /-- The type of each typed result. -/
  valueTypes : Std.HashMap Word Word
  numberTypes : Std.HashMap Word NumberType

namespace Declared

def empty : Declared := ⟨∅, ∅, ∅⟩

/-- The numeric type that governs the numbers of an instruction: the selector's for a switch and the
result's otherwise. `done` holds the operand words so far. -/
def governing? (d : Declared) (op : Opcode) (done : Array Word) : Option NumberType := do
  let first ← done[0]?
  let type ← if op = .opSwitch then d.valueTypes[first]? else some first
  d.numberTypes[type]?

/-- The extended set whose id is the operand before the number of an extended instruction. -/
def extendedSet? (d : Declared) (done : Array Word) : Option ExtendedSet := do
  let id ← done[2]?
  (← d.imports[id]?)

/-- Notes what an instruction declares. -/
def learn (d : Declared) (op : Opcode) (done : Array Word) : Declared :=
  let numberTypes :=
    match op, done[0]?, done[1]?, done[2]? with
    | .opTypeInt, some id, some width, some signedness =>
      d.numberTypes.insert id (.ofInteger width.toNat signedness.toNat)
    | .opTypeFloat, some id, some width, _ => d.numberTypes.insert id ⟨.float, width.toNat⟩
    | _, _, _, _ => d.numberTypes
  let valueTypes :=
    match done[0]?, done[1]? with
    | some type, some id =>
      if op.hasType && op.hasResult then d.valueTypes.insert id type else d.valueTypes
    | _, _ => d.valueTypes
  ⟨d.imports, valueTypes, numberTypes⟩

end Declared

/-- What a word stands for. -/
inductive Reading where
  | id (name : String)
  /-- A word written as `!` and an integer. -/
  | raw (word : Word)
  /-- The words of a value and the slots that must be filled after it. -/
  | value (words : List Word) (needs : List Slot)
  /-- The words of the name of an imported set, and the set. -/
  | importing (set : Option ExtendedSet) (words : List Word)
  deriving DecidableEq

/-- Why a word cannot fill a slot. -/
inductive Refusal where
  /-- The word is not of the slot's kind. A slot that may be empty then stays empty. -/
  | mismatch (fault : Fault)
  | fatal (fault : Fault)
  | tooLong

def Refusal.toError (position : Position) : Refusal → Error
  | mismatch fault | fatal fault => .text fault position
  | tooLong => .stringTooLong position.line position.column

def isRaw (word : List Char) : Bool := word.head? = some '!'

/-- Reads `!` and an integer. -/
def readRaw (word : List Char) : Except Refusal Reading :=
  match Literal.readImmediate word.tail with
  | .ok w => .ok (.raw w)
  | .error _ => .error (.fatal (.badImmediate (String.ofList word)))

/-- Reads `%` and a name. -/
def readId (refuse : Fault → Refusal) : List Char → Except Refusal Reading
  | '%' :: name => .ok (.id (String.ofList name))
  | _ => .error (refuse .expectedId)

/-- Reads a number whose form shows in its spelling. -/
def readNumber (word : List Char) : Except Refusal Reading :=
  match Literal.read word with
  | .ok (.string _) => .error (.mismatch (.stringForNumber (String.ofList word)))
  | .ok literal => .ok (.value literal.words [])
  | .error .tooLong => .error .tooLong
  | .error _ => .error (.mismatch (.badNumber (String.ofList word)))

/-- Reads a number of a given type, if the type is one that numbers can be read of. -/
def readTyped (type? : Option NumberType) (word : List Char) : Except Refusal Reading :=
  match type? with
  | none => readNumber word
  | some type =>
    if type.isInteger && 1 ≤ type.width && type.width ≤ 64 then
      match Literal.readInteger type.width (type.numberClass = .signed) word with
      | .ok bits => .ok (.value (Literal.wide bits type.width) [])
      | .error .outOfRange => .error (.fatal (.integerOutOfRange (String.ofList word) type))
      | .error _ => .error (.mismatch (.badNumber (String.ofList word)))
    else if !type.isInteger && (type.width = 32 || type.width = 64) then
      match Literal.readFloat type.width word with
      | .ok bits => .ok (.value (Literal.wide bits type.width) [])
      | .error _ => .error (.mismatch (.badNumber (String.ofList word)))
    else readNumber word

def readString (op : Opcode) (word : List Char) : Except Refusal Reading :=
  match Literal.read word with
  | .ok (.string s) =>
    if op = .opExtInstImport then
      .ok (.importing (ExtendedSet.ofImportName? (String.ofList s)) (PackedString.pack s))
    else .ok (.value (PackedString.pack s) [])
  | .ok _ => .error (.mismatch (.numberForString (String.ofList word)))
  | .error .tooLong => .error .tooLong
  | .error _ => .error (.mismatch (.badString (String.ofList word)))

/-- Reads a number, a string or an id. -/
def readFree (word : List Char) : Except Refusal Reading :=
  match Literal.read word with
  | .ok literal => .ok (.value literal.words [])
  | .error .tooLong => .error .tooLong
  | .error _ => readId .mismatch word

def readExtended (set : Option ExtendedSet) (word : List Char) : Except Refusal Reading :=
  match ExtendedSet.instructionOfName set (String.ofList word) with
  | .ok row => .ok (.value [row.value] row.operands)
  | .error _ => .error (.fatal (.unknownExtended (String.ofList word)))

def readSpecOpcode (word : List Char) : Except Refusal Reading :=
  match Opcode.ofName? (String.ofList word) with
  | some op => .ok (.value [op.value.toUInt32] op.constantOperands)
  | none => .error (.fatal (.unknownSpecOpcode (String.ofList word)))

/-- Reads the name of a value of a category, or the names of the bits of a mask. -/
def readNamed (c : Category) (word : List Char) : Except Refusal Reading :=
  let text := String.ofList word
  if c.isMask then
    match (Slot.named c).maskOfText text with
    | .ok mask => .ok (.value [mask] (c.maskOperands mask))
    | .error _ => .error (.fatal (.badValue c text))
  else
    match c.ofName? text with
    | some row => .ok (.value [row.value] row.operands)
    | none => .error (.fatal (.badValue c text))

/-- Reads an operand of a kind, which `done` operand words come before. -/
def readKind (d : Declared) (op : Opcode) (done : Array Word) (word : List Char) :
    OperandKind → Except Refusal Reading
  | .id | .typeId | .resultId | .scopeId | .memorySemanticsId => readId .fatal word
  | .integer => readNumber word
  | .typedNumber =>
    if word.head? = some '"' then readNumber word else readTyped (d.governing? op done) word
  | .string => readString op word
  | .extended => readExtended (d.extendedSet? done) word
  | .specOpcode => readSpecOpcode word
  | .named c => readNamed c word

/-- Reads the operand that fills a slot. A raw word fills any. -/
def readOperand (d : Declared) (op : Opcode) (done : Array Word) (slot : Slot) (word : List Char) :
    Except Refusal Reading :=
  if isRaw word then readRaw word
  else match slot with
    | .free => readFree word
    | .optional .id => readId .mismatch word
    | .one k | .optional k | .second k => readKind d op done word k
    | .nothing | .many _ | .pairs _ _ => .error (.fatal (.unexpected slot (String.ofList word)))

/-- The slots still to be filled once `slot`, which `rest` follows, is filled. -/
def Reading.patternAfter (slot : Slot) (rest : Pattern) (r : Reading) : Pattern :=
  let next : Pattern :=
    match r with
    | raw _ => rest.afterRaw
    | value _ needs => needs ++ rest
    | id _ | importing _ _ => rest
  if slot = .free && next.isEmpty then [.free] else next

end Spirv.Assembly
