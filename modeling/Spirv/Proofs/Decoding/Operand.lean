import Mathlib
import Spirv.Binary
import Spirv.Proofs.Mask
import Spirv.Proofs.PackedString

/-!
What an operand may be, said of its words and of what stands before it in the module.

Nothing here mentions how a module is read. An operand is checked against the instructions before
its own and against the operand words before it in its own; `Operand` lists the checks, one
constructor for each kind, with the number type that governs the operand and the slots it puts in
front of those still to fill. Reading an operand succeeds exactly on the operands so described.
-/

namespace Spirv

/-- The kind of the single operand that fills the slot. -/
def Slot.kind? : Slot → Option OperandKind
  | one k | optional k | second k => some k
  | _ => none

/-- The extended set named by a string. -/
def setNamed? (ws : List Word) : Option ExtendedSet :=
  ExtendedSet.ofImportName? (String.ofList (Text.Utf8.decode (PackedString.bytesOf ws)))

namespace Instruction

/-- The extended set that the instruction imports. -/
def importedSet? (i : Instruction) : Option ExtendedSet :=
  if i.opcode = .opExtInstImport then setNamed? (i.words.toList.drop 2) else none

/-- The numeric type that the instruction declares. -/
def number? (i : Instruction) : Option NumberType := Binary.declaredNumber? i.opcode i.words

end Instruction

/-- The id is the result of an import of the set. -/
def Imports (earlier : List Instruction) (id : Word) (set : ExtendedSet) : Prop :=
  ∃ i ∈ earlier, i.resultId = id ∧ i.importedSet? = some set

/-- The id is declared as a numeric type. -/
def DeclaresNumber (earlier : List Instruction) (id : Word) (t : NumberType) : Prop :=
  ∃ i ∈ earlier, i.resultId = id ∧ i.number? = some t

/-- The id is a result of the type. -/
def HasType (earlier : List Instruction) (id type : Word) : Prop :=
  ∃ i ∈ earlier, i.resultId = id ∧ i.typeId = type

/-- Where an operand stands: after other instructions and after other operand words of its own. -/
structure Context where
  earlier : List Instruction
  opcode : Opcode
  before : List Word

namespace Context

def push (c : Context) (ws : List Word) : Context := { c with before := c.before ++ ws }

/-- The result type of the instruction, or zero. -/
def typeId (c : Context) : Word := if c.opcode.hasType then c.before.headD 0 else 0

/-- The number type governs the numbers of the instruction: the type of a switch's selector, which
must be an integer, and the result type otherwise. -/
def Governs (c : Context) (t : NumberType) : Prop :=
  (1 ≤ t.width ∧ t.width ≤ 64) ∧
    if c.opcode = .opSwitch then
      t.isInteger ∧ ∃ selector type, c.before.head? = some selector ∧
        HasType c.earlier selector type ∧ DeclaresNumber c.earlier type t
    else DeclaresNumber c.earlier c.typeId t

/-- Whether the next operand names the set of an extended instruction. -/
def NamesSet (c : Context) : Prop := c.opcode = .opExtInst ∧ c.before.length = 2

instance (c : Context) : Decidable c.NamesSet := inferInstanceAs (Decidable (_ ∧ _))

/-- The set of an extended instruction is the one that its third word imports. -/
def UsesSet (c : Context) (set : ExtendedSet) : Prop :=
  c.opcode = .opExtInst ∧ ∃ id, c.before[2]? = some id ∧ Imports c.earlier id set

end Context

/-- The words are an operand of a kind, read as a number of the type if one is given, and the slots
must be filled after it. -/
inductive Operand (c : Context) :
    OperandKind → List Word → Option NumberType → List Slot → Prop where
  | typeId {w : Word} (ne : w ≠ 0) : Operand c .typeId [w] none []
  | resultId {w : Word} (ne : w ≠ 0) (new : ∀ i ∈ c.earlier, i.resultId ≠ w) :
    Operand c .resultId [w] none []
  | id {w : Word} (ne : w ≠ 0) (set : c.NamesSet → ∃ set, Imports c.earlier w set) :
    Operand c .id [w] none []
  | scopeId {w : Word} (ne : w ≠ 0) : Operand c .scopeId [w] none []
  | memorySemanticsId {w : Word} (ne : w ≠ 0) : Operand c .memorySemanticsId [w] none []
  | integer (w : Word) : Operand c .integer [w] (some ⟨.unsigned, 32⟩) []
  | typedNumber {ws : List Word} {t : NumberType} (governs : c.Governs t)
    (length : ws.length = t.wordCount) : Operand c .typedNumber ws (some t) []
  | string {ws : List Word} (string : PackedString.IsString ws)
    (set : c.opcode = .opExtInstImport → (setNamed? ws).isSome) : Operand c .string ws none []
  | extended {w : Word} {set : ExtendedSet} {row : NamedValue} (uses : c.UsesSet set)
    (row_eq : set.ofValue? w = some row) : Operand c .extended [w] none row.operands
  | specOpcode (op : Opcode) :
    Operand c .specOpcode [op.value.toUInt32] none op.constantOperands
  | value {category : Category} {w : Word} {row : NamedValue} (enumeration : category.isMask = false)
    (row_eq : category.ofValue? w = some row) :
    Operand c (.named category) [w] none row.operands
  | mask {category : Category} {w : Word} (mask : category.isMask = true)
    (bits : ∀ i ∈ w.setBits, (category.ofValue? (Word.bit i)).isSome) :
    Operand c (.named category) [w] none (category.maskOperands w)

namespace Operand

variable {c : Context} {k : OperandKind} {ws : List Word} {number? : Option NumberType}
  {needs : List Slot}

lemma ne_nil (h : Operand c k ws number? needs) : ws ≠ [] := by
  cases h with
  | typedNumber governs length =>
    rintro rfl
    obtain ⟨⟨h1, -⟩, -⟩ := governs
    simp [NumberType.wordCount] at length
    omega
  | string string => exact string.ne_nil
  | _ => simp

lemma wants (h : Operand c k ws number? needs) : k.Wants needs := by
  cases h with
  | extended _ row_eq => exact .extended (ExtendedSet.mem_instructions_of_ofValue? row_eq)
  | specOpcode op => exact .specOpcode op
  | value _ row_eq => exact .value (Category.mem_values_of_ofValue? row_eq)
  | mask => exact .mask ..
  | _ => exact .none _

lemma asks (h : Operand c k ws number? needs) {s : Slot} (hs : s ∈ needs) : k.Asks s :=
  h.wants.asks hs

/-- No operand asks for a result after it. -/
lemma isInner_of_mem (h : Operand c k ws number? needs) {s : Slot} (hs : s ∈ needs) :
    s.isInner :=
  (h.asks hs).isInner

end Operand

end Spirv
