import Spirv.ExtendedSet
import Spirv.Opcode.Signature
import Spirv.Operand.Values

/-!
Finding rows of the grammar's tables, with the reason when there is none.
-/

namespace Spirv

inductive LookupError where
  | notFound
  /-- The slot's operands do not name values. -/
  | noTable (slot : Slot)
  /-- An extended instruction was looked for where no set is imported. -/
  | noExtendedSet
  deriving DecidableEq

def LookupError.message : LookupError → String
  | notFound => "no table entry with that name or value"
  | noTable slot => slot.description ++ " operands have no table of named values"
  | noExtendedSet => "no extended instruction set was imported"

namespace Slot

/-- The table of values that operands of the slot name. -/
def values? (s : Slot) : Option (List NamedValue) := s.category?.map Category.values

def valueOfName (s : Slot) (name : String) : Except LookupError NamedValue :=
  match s.category? with
  | none => .error (.noTable s)
  | some c => (c.ofName? name).elim (.error .notFound) .ok

def valueOfWord (s : Slot) (value : Word) : Except LookupError NamedValue :=
  match s.category? with
  | none => .error (.noTable s)
  | some c => (c.ofValue? value).elim (.error .notFound) .ok

/-- Reads a mask written as names joined by `|`. No name may be empty. -/
def maskOfText (s : Slot) (text : String) : Except LookupError Word :=
  let names := (text.toList.splitOn '|').map String.ofList
  if names.contains "" then .error .notFound
  else names.foldlM (fun mask name => return mask ||| (← s.valueOfName name).value) 0

end Slot

namespace ExtendedSet

def instructionOfName (set : Option ExtendedSet) (name : String) : Except LookupError NamedValue :=
  match set with
  | none => .error .noExtendedSet
  | some s => (s.ofName? name).elim (.error .notFound) .ok

def instructionOfWord (set : Option ExtendedSet) (value : Word) : Except LookupError NamedValue :=
  match set with
  | none => .error .noExtendedSet
  | some s => (s.ofValue? value).elim (.error .notFound) .ok

end ExtendedSet

end Spirv
