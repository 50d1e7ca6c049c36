import Spirv.Operand.NamedValue

/-!
The named values of decorations and built-in variables.
-/

namespace Spirv.Category

def decorationValues : List NamedValue :=
  [⟨"RelaxedPrecision", 0, [.shader], []⟩,
   ⟨"SpecId", 1, [.shader], [.integer]⟩,
   ⟨"Block", 2, [.shader], []⟩,
   ⟨"BufferBlock", 3, [.shader], []⟩,
   ⟨"RowMajor", 4, [.matrix], []⟩,
   ⟨"ColMajor", 5, [.matrix], []⟩,
   ⟨"ArrayStride", 6, [.shader], [.integer]⟩,
   ⟨"MatrixStride", 7, [.matrix], [.integer]⟩,
   ⟨"GLSLShared", 8, [.shader], []⟩,
   ⟨"GLSLPacked", 9, [.shader], []⟩,
   ⟨"CPacked", 10, [.kernel], []⟩,
   ⟨"BuiltIn", 11, [], [.named .builtIn]⟩,
   ⟨"NoPerspective", 13, [.shader], []⟩,
   ⟨"Flat", 14, [.shader], []⟩,
   ⟨"Patch", 15, [.tessellation], []⟩,
   ⟨"Centroid", 16, [.shader], []⟩,
   ⟨"Sample", 17, [.sampleRateShading], []⟩,
   ⟨"Invariant", 18, [.shader], []⟩,
   ⟨"Restrict", 19, [], []⟩,
   ⟨"Aliased", 20, [], []⟩,
   ⟨"Volatile", 21, [], []⟩,
   ⟨"Constant", 22, [.kernel], []⟩,
   ⟨"Coherent", 23, [], []⟩,
   ⟨"NonWritable", 24, [], []⟩,
   ⟨"NonReadable", 25, [], []⟩,
   ⟨"Uniform", 26, [.shader], []⟩,
   ⟨"SaturatedConversion", 28, [.kernel], []⟩,
   ⟨"Stream", 29, [.geometryStreams], [.integer]⟩,
   ⟨"Location", 30, [.shader], [.integer]⟩,
   ⟨"Component", 31, [.shader], [.integer]⟩,
   ⟨"Index", 32, [.shader], [.integer]⟩,
   ⟨"Binding", 33, [.shader], [.integer]⟩,
   ⟨"DescriptorSet", 34, [.shader], [.integer]⟩,
   ⟨"Offset", 35, [.shader], [.integer]⟩,
   ⟨"XfbBuffer", 36, [.transformFeedback], [.integer]⟩,
   ⟨"XfbStride", 37, [.transformFeedback], [.integer]⟩,
   ⟨"FuncParamAttr", 38, [.kernel], [.named .functionParameterAttribute]⟩,
   ⟨"FPRoundingMode", 39, [.kernel], [.named .fpRoundingMode]⟩,
   ⟨"FPFastMathMode", 40, [.kernel], [.named .fpFastMathMode]⟩,
   ⟨"LinkageAttributes", 41, [.linkage], [.string, .named .linkageType]⟩,
   ⟨"NoContraction", 42, [.shader], []⟩,
   ⟨"InputAttachmentIndex", 43, [.inputAttachment], [.integer]⟩,
   ⟨"Alignment", 44, [.kernel], [.integer]⟩]

def builtInValues : List NamedValue :=
  [⟨"Position", 0, [.shader], []⟩,
   ⟨"PointSize", 1, [.shader], []⟩,
   ⟨"ClipDistance", 3, [.clipDistance], []⟩,
   ⟨"CullDistance", 4, [.cullDistance], []⟩,
   ⟨"VertexId", 5, [.shader], []⟩,
   ⟨"InstanceId", 6, [.shader], []⟩,
   ⟨"PrimitiveId", 7, [.geometry, .tessellation], []⟩,
   ⟨"InvocationId", 8, [.geometry, .tessellation], []⟩,
   ⟨"Layer", 9, [.geometry], []⟩,
   ⟨"ViewportIndex", 10, [.multiViewport], []⟩,
   ⟨"TessLevelOuter", 11, [.tessellation], []⟩,
   ⟨"TessLevelInner", 12, [.tessellation], []⟩,
   ⟨"TessCoord", 13, [.tessellation], []⟩,
   ⟨"PatchVertices", 14, [.tessellation], []⟩,
   ⟨"FragCoord", 15, [.shader], []⟩,
   ⟨"PointCoord", 16, [.shader], []⟩,
   ⟨"FrontFacing", 17, [.shader], []⟩,
   ⟨"SampleId", 18, [.sampleRateShading], []⟩,
   ⟨"SamplePosition", 19, [.sampleRateShading], []⟩,
   ⟨"SampleMask", 20, [.shader], []⟩,
   ⟨"FragDepth", 22, [.shader], []⟩,
   ⟨"HelperInvocation", 23, [.shader], []⟩,
   ⟨"NumWorkgroups", 24, [], []⟩,
   ⟨"WorkgroupSize", 25, [], []⟩,
   ⟨"WorkgroupId", 26, [], []⟩,
   ⟨"LocalInvocationId", 27, [], []⟩,
   ⟨"GlobalInvocationId", 28, [], []⟩,
   ⟨"LocalInvocationIndex", 29, [], []⟩,
   ⟨"WorkDim", 30, [.kernel], []⟩,
   ⟨"GlobalSize", 31, [.kernel], []⟩,
   ⟨"EnqueuedWorkgroupSize", 32, [.kernel], []⟩,
   ⟨"GlobalOffset", 33, [.kernel], []⟩,
   ⟨"GlobalLinearId", 34, [.kernel], []⟩,
   ⟨"SubgroupSize", 36, [.kernel], []⟩,
   ⟨"SubgroupMaxSize", 37, [.kernel], []⟩,
   ⟨"NumSubgroups", 38, [.kernel], []⟩,
   ⟨"NumEnqueuedSubgroups", 39, [.kernel], []⟩,
   ⟨"SubgroupId", 40, [.kernel], []⟩,
   ⟨"SubgroupLocalInvocationId", 41, [.kernel], []⟩,
   ⟨"VertexIndex", 42, [.shader], []⟩,
   ⟨"InstanceIndex", 43, [.shader], []⟩]

end Spirv.Category
