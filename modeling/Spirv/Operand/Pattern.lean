import Spirv.Operand.Values

/-!
Patterns: the slots that an instruction has still to fill, the next one first. Filling a slot may put
more slots in front, and a repeating slot is unrolled by one repetition whenever it comes first.
-/

namespace Spirv

namespace Slot

/-- One repetition of a repeating slot followed by the slot itself. -/
def expansion? : Slot → Option (List Slot)
  | many k => some [optional k, many k]
  | pairs k l => some [optional k, second l, pairs k l]
  | _ => none

end Slot

abbrev Pattern := List Slot

namespace Pattern

/-- The slot that the next operand fills and the pattern after it. A repeating slot in front gives
the first slot of one repetition. -/
def take? : Pattern → Option (Slot × Pattern)
  | [] => none
  | .many k :: rest => some (.optional k, .many k :: rest)
  | .pairs k l :: rest => some (.optional k, .second l :: .pairs k l :: rest)
  | s :: rest => some (s, rest)

/-- Filling the slot for the result shortens a pattern. -/
theorem length_of_take?_resultId {p rest : Pattern} (h : p.take? = some (.resultId, rest)) :
    rest.length < p.length := by
  unfold take? at h
  split at h <;> simp_all

/-- The pattern once a raw word stands in place of an operand. What follows is free, save that a
result id keeps its place. -/
def afterRaw (p : Pattern) : Pattern :=
  if p.contains .resultId then
    (p.takeWhile (· ≠ .resultId)).map (fun _ => .free) ++ [.resultId, .free]
  else [.free]

end Pattern

namespace Category

/-- The operands that a mask's bits require, lowest bit first. Bits without a name require none. -/
def maskOperands (c : Category) (mask : Word) : List Slot :=
  mask.setBits.flatMap fun i => ((c.ofValue? (Word.bit i)).map (·.operands)).getD []

/-- The operands that a mask's bits require, found from the highest bit down. Fails at the first bit
without a name. A mask without bits requires what its own row does. -/
def checkMask (c : Category) (mask : Word) : Except Word (List Slot) :=
  if mask = 0 then .ok (((c.ofValue? 0).map (·.operands)).getD [])
  else mask.setBits.reverse.foldlM
    (fun found i =>
      match c.ofValue? (Word.bit i) with
      | some row => .ok (row.operands ++ found)
      | none => .error (Word.bit i))
    []

end Category

end Spirv
