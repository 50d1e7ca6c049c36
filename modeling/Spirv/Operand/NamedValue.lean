import Spirv.Capability
import Spirv.Word
import Spirv.Operand.Slot

/-!
A row of a table of named values: the value, its name, the capabilities it depends on, and the
operands that must follow it.
-/

namespace Spirv

structure NamedValue where
  name : String
  value : Word
  capabilities : List Capability
  /-- The operands that follow the value where it is used. -/
  operands : List Slot

namespace NamedValue

/-- The first row with the given name. Case counts. -/
def ofName? (rows : List NamedValue) (name : String) : Option NamedValue :=
  rows.find? (·.name == name)

/-- The first row with the given value. -/
def ofValue? (rows : List NamedValue) (value : Word) : Option NamedValue :=
  rows.find? (·.value == value)

end NamedValue

end Spirv
