import Std.Data.HashMap
import Spirv.Binary
import Spirv.Opcode.Class

/-!
A decoded module with its functions and basic blocks. A function runs from its opening instruction to
the next end of a function. Within a function, a block runs from a label to the next terminator. Every
instruction records the function and the block that it belongs to.
-/

namespace Spirv

namespace Program

/-- An instruction and the indices of the function and block that it belongs to. -/
structure Placed where
  instruction : Instruction
  function? : Option Nat
  block? : Option Nat

structure Function where
  /-- The index of the instruction that opens the function. -/
  opening : Nat
  /-- The index of the instruction that ends it; none if the module ends first. -/
  closing? : Option Nat
  blocks : Array Nat

structure Block where
  /-- The index of the block's label. -/
  label : Nat
  function : Nat
  /-- The indices of its instructions, from the label to the terminator. -/
  instructions : Array Nat

end Program

structure Program where
  header : Header
  instructions : Array Program.Placed
  functions : Array Program.Function
  blocks : Array Program.Block
  /-- The index of the instruction that defines each id. -/
  definitions : Std.HashMap Word Nat

namespace Program

/-- A program while its instructions are read, with the function and the block that are open. -/
structure Builder where
  program : Program
  function? : Option Nat
  block? : Option Nat

namespace Builder

def empty : Builder := ⟨⟨.ofBound 0 0, #[], #[], #[], ∅⟩, none, none⟩

def setHeader (b : Builder) (h : Header) : Builder :=
  { b with program := { b.program with header := h } }

/-- Opens the function that the instruction to come begins. -/
def openFunction (b : Builder) (i : Instruction) : Builder :=
  if i.opcode = .opFunction then
    let ⟨⟨header, instructions, functions, blocks, definitions⟩, _, _⟩ := b
    let index := functions.size
    ⟨⟨header, instructions, functions.push ⟨instructions.size, none, #[]⟩, blocks, definitions⟩,
      some index, none⟩
  else b

/-- Opens the block that the instruction to come begins. Outside functions there are none. -/
def openBlock (b : Builder) (i : Instruction) : Builder :=
  match b, i.opcode with
  | ⟨⟨header, instructions, functions, blocks, definitions⟩, some function, _⟩, .opLabel =>
    let index := blocks.size
    let functions := functions.modify function fun f => { f with blocks := f.blocks.push index }
    ⟨⟨header, instructions, functions, blocks.push ⟨instructions.size, function, #[]⟩,
      definitions⟩, some function, some index⟩
  | b, _ => b

/-- Puts an instruction into the open function and block. -/
def record (b : Builder) (i : Instruction) : Builder :=
  let ⟨⟨header, instructions, functions, blocks, definitions⟩, function?, block?⟩ := b
  let index := instructions.size
  let blocks :=
    match block? with
    | some block =>
      blocks.modify block fun k => { k with instructions := k.instructions.push index }
    | none => blocks
  let definitions := if i.hasResult then definitions.insert i.resultId index else definitions
  ⟨⟨header, instructions.push ⟨i, function?, block?⟩, functions, blocks, definitions⟩,
    function?, block?⟩

/-- Closes what the instruction just recorded ends. -/
def close (b : Builder) (i : Instruction) : Builder :=
  let ⟨⟨header, instructions, functions, blocks, definitions⟩, function?, block?⟩ := b
  if i.opcode = .opFunctionEnd then
    let functions :=
      match function? with
      | some function =>
        functions.modify function fun f => { f with closing? := some (instructions.size - 1) }
      | none => functions
    ⟨⟨header, instructions, functions, blocks, definitions⟩, none, none⟩
  else
    ⟨⟨header, instructions, functions, blocks, definitions⟩, function?,
      if i.opcode.isTerminator then none else block?⟩

def add (b : Builder) (i : Instruction) : Builder :=
  (((b.openFunction i).openBlock i).record i).close i

end Builder

def ofWords (words : List Word) : Except Error Program :=
  (Binary.fold Builder.setHeader Builder.add Builder.empty words).map (·.program)

def definitionIndex? (p : Program) (id : Word) : Option Nat := p.definitions[id]?

/-- The instruction whose result is `id`. -/
def definition? (p : Program) (id : Word) : Option Instruction := do
  let placed ← p.instructions[← p.definitionIndex? id]?
  return placed.instruction

/-- The function that an instruction belongs to. -/
def functionOf? (p : Program) (index : Nat) : Option Function := do
  p.functions[← (← p.instructions[index]?).function?]?

/-- The block that an instruction belongs to. -/
def blockOf? (p : Program) (index : Nat) : Option Block := do
  p.blocks[← (← p.instructions[index]?).block?]?

/-- Whether two instructions belong to one block. -/
def inSameBlock (p : Program) (i j : Nat) : Bool :=
  match p.instructions[i]?, p.instructions[j]? with
  | some a, some b => a.block?.isSome && a.block? = b.block?
  | _, _ => false

/-- The last instruction of a block, if it ends the block. -/
def terminator? (p : Program) (b : Block) : Option Instruction := do
  let placed ← p.instructions[← b.instructions.back?]?
  if placed.instruction.opcode.isTerminator then return placed.instruction else none

end Program

end Spirv
