import Spirv.ExtendedSet.Glsl
import Spirv.ExtendedSet.OpenCl

/-!
Extended instruction sets. A module imports a set under its name and then uses its instructions by
number.
-/

namespace Spirv

inductive ExtendedSet where
  | glsl
  | openCl
  deriving DecidableEq

namespace ExtendedSet

/-- The name under which the set is imported. -/
def importName : ExtendedSet → String
  | glsl => "GLSL.std.450"
  | openCl => "OpenCL.std"

def instructions : ExtendedSet → List NamedValue
  | glsl => glslInstructions
  | openCl => openClInstructions

/-- The set imported under a name. Case counts. -/
def ofImportName? (name : String) : Option ExtendedSet :=
  [glsl, openCl].find? (·.importName == name)

def ofName? (set : ExtendedSet) (name : String) : Option NamedValue :=
  NamedValue.ofName? set.instructions name

def ofValue? (set : ExtendedSet) (value : Word) : Option NamedValue :=
  NamedValue.ofValue? set.instructions value

end ExtendedSet

end Spirv
