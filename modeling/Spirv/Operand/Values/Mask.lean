import Spirv.Operand.NamedValue

/-!
The named bits of masks. Memory semantics name the zero mask twice, `Relaxed` first.
-/

namespace Spirv.Category

def imageOperandsValues : List NamedValue :=
  [⟨"None", 0, [], []⟩,
   ⟨"Bias", 1, [.shader], [.id]⟩,
   ⟨"Lod", 2, [], [.id]⟩,
   ⟨"Grad", 4, [], [.id, .id]⟩,
   ⟨"ConstOffset", 8, [], [.id]⟩,
   ⟨"Offset", 16, [.imageGatherExtended], [.id]⟩,
   ⟨"ConstOffsets", 32, [], [.id]⟩,
   ⟨"Sample", 64, [], [.id]⟩,
   ⟨"MinLod", 128, [.minLod], [.id]⟩]

def fpFastMathModeValues : List NamedValue :=
  [⟨"None", 0, [], []⟩,
   ⟨"NotNaN", 1, [.kernel], []⟩,
   ⟨"NotInf", 2, [.kernel], []⟩,
   ⟨"NSZ", 4, [.kernel], []⟩,
   ⟨"AllowRecip", 8, [.kernel], []⟩,
   ⟨"Fast", 16, [.kernel], []⟩]

def selectionControlValues : List NamedValue :=
  [⟨"None", 0, [], []⟩,
   ⟨"Flatten", 1, [], []⟩,
   ⟨"DontFlatten", 2, [], []⟩]

def loopControlValues : List NamedValue :=
  [⟨"None", 0, [], []⟩,
   ⟨"Unroll", 1, [], []⟩,
   ⟨"DontUnroll", 2, [], []⟩]

def functionControlValues : List NamedValue :=
  [⟨"None", 0, [], []⟩,
   ⟨"Inline", 1, [], []⟩,
   ⟨"DontInline", 2, [], []⟩,
   ⟨"Pure", 4, [], []⟩,
   ⟨"Const", 8, [], []⟩]

def memoryAccessValues : List NamedValue :=
  [⟨"None", 0, [], []⟩,
   ⟨"Volatile", 1, [], []⟩,
   ⟨"Aligned", 2, [], [.integer]⟩,
   ⟨"Nontemporal", 4, [], []⟩]

def memorySemanticsValues : List NamedValue :=
  [⟨"Relaxed", 0, [], []⟩,
   ⟨"None", 0, [], []⟩,
   ⟨"Acquire", 2, [], []⟩,
   ⟨"Release", 4, [], []⟩,
   ⟨"AcquireRelease", 8, [], []⟩,
   ⟨"SequentiallyConsistent", 16, [], []⟩,
   ⟨"UniformMemory", 64, [.shader], []⟩,
   ⟨"SubgroupMemory", 128, [], []⟩,
   ⟨"WorkgroupMemory", 256, [], []⟩,
   ⟨"CrossWorkgroupMemory", 512, [], []⟩,
   ⟨"AtomicCounterMemory", 1024, [.atomicStorage], []⟩,
   ⟨"ImageMemory", 2048, [], []⟩]

end Spirv.Category
