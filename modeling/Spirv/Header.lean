import Spirv.Word

/-!
The header of a module: five words before its instructions.
-/

namespace Spirv

-- Powers of numbers are the language's own, also where a library brings powers in a monoid.
attribute [local instance (high)] instPowNat

/-- The words of a header, in the order in which their bytes are read, and the byte order in which
they were stored. -/
structure Header where
  order : ByteOrder
  magic : Word
  version : Word
  /-- The tool that wrote the module in the upper half, its version in the lower. -/
  generator : Word
  /-- One more than the greatest id. -/
  bound : Word
  /-- Reserved, and zero. -/
  schema : Word
  deriving DecidableEq

/-- The vendor or tool registered under a number. -/
def generatorName : Nat → String
  | 0 => "Khronos"
  | 1 => "LunarG"
  | 2 => "Valve"
  | 3 => "Codeplay"
  | 4 => "NVIDIA"
  | 5 => "ARM"
  | 6 => "Khronos LLVM/SPIR-V Translator"
  | 7 => "Khronos SPIR-V Tools Assembler"
  | 8 => "Khronos Glslang Reference Front End"
  | 9 => "Qualcomm"
  | 10 => "AMD"
  | 11 => "Intel"
  | _ => "Unknown"

namespace Header

def wordCount : Nat := 5

/-- The number under which this assembler is registered. -/
def assemblerTool : UInt16 := 7

/-- The generator word of this assembler. -/
def assemblerGenerator : Word := assemblerTool.toUInt32 <<< 16

/-- The version word of modules written by this assembler. -/
def version1 : Word := 0x00010000

def ofBound (bound generator : Word) : Header :=
  ⟨.little, Spirv.magic, version1, generator, bound, 0⟩

def words (h : Header) : List Word := [h.magic, h.version, h.generator, h.bound, h.schema]

def major (h : Header) : Nat := h.version.toNat / 2 ^ (16 : Nat) % 256

def minor (h : Header) : Nat := h.version.toNat / 2 ^ (8 : Nat) % 256

def tool (h : Header) : Nat := h.generator.toNat / 2 ^ (16 : Nat)

def toolVersion (h : Header) : Nat := h.generator.toNat % 2 ^ (16 : Nat)

/-- The tool and its version as text. -/
def generatorText (h : Header) : String :=
  generatorName h.tool ++ "; " ++ toString h.toolVersion

def versionText (h : Header) : String := toString h.major ++ "." ++ toString h.minor

def description (h : Header) : String :=
  "SPIR-V " ++ h.versionText ++ ", generator " ++ h.generatorText ++ ", bound " ++
    toString h.bound.toNat ++ ", schema " ++ toString h.schema.toNat

/-- Comment lines that describe the header. -/
def comments (h : Header) : String :=
  "; SPIR-V\n; Version: " ++ h.versionText ++ "\n; Generator: " ++ h.generatorText ++
    "\n; Bound: " ++ toString h.bound.toNat ++ "\n; Schema: " ++ toString h.schema.toNat ++ "\n"

end Header

end Spirv
