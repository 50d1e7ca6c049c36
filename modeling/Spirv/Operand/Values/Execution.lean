import Spirv.Operand.NamedValue

/-!
The named values that say how a module is executed: languages, models, modes, storage, functions and
kernels.
-/

namespace Spirv.Category

def sourceLanguageValues : List NamedValue :=
  [⟨"Unknown", 0, [], []⟩,
   ⟨"ESSL", 1, [], []⟩,
   ⟨"GLSL", 2, [], []⟩,
   ⟨"OpenCL_C", 3, [], []⟩,
   ⟨"OpenCL_CPP", 4, [], []⟩]

def executionModelValues : List NamedValue :=
  [⟨"Vertex", 0, [.shader], []⟩,
   ⟨"TessellationControl", 1, [.tessellation], []⟩,
   ⟨"TessellationEvaluation", 2, [.tessellation], []⟩,
   ⟨"Geometry", 3, [.geometry], []⟩,
   ⟨"Fragment", 4, [.shader], []⟩,
   ⟨"GLCompute", 5, [.shader], []⟩,
   ⟨"Kernel", 6, [.kernel], []⟩]

def addressingModelValues : List NamedValue :=
  [⟨"Logical", 0, [], []⟩,
   ⟨"Physical32", 1, [.addresses], []⟩,
   ⟨"Physical64", 2, [.addresses], []⟩]

def memoryModelValues : List NamedValue :=
  [⟨"Simple", 0, [.shader], []⟩,
   ⟨"GLSL450", 1, [.shader], []⟩,
   ⟨"OpenCL", 2, [.kernel], []⟩]

def executionModeValues : List NamedValue :=
  [⟨"Invocations", 0, [.geometry], [.integer]⟩,
   ⟨"SpacingEqual", 1, [.tessellation], []⟩,
   ⟨"SpacingFractionalEven", 2, [.tessellation], []⟩,
   ⟨"SpacingFractionalOdd", 3, [.tessellation], []⟩,
   ⟨"VertexOrderCw", 4, [.tessellation], []⟩,
   ⟨"VertexOrderCcw", 5, [.tessellation], []⟩,
   ⟨"PixelCenterInteger", 6, [.shader], []⟩,
   ⟨"OriginUpperLeft", 7, [.shader], []⟩,
   ⟨"OriginLowerLeft", 8, [.shader], []⟩,
   ⟨"EarlyFragmentTests", 9, [.shader], []⟩,
   ⟨"PointMode", 10, [.tessellation], []⟩,
   ⟨"Xfb", 11, [.transformFeedback], []⟩,
   ⟨"DepthReplacing", 12, [.shader], []⟩,
   ⟨"DepthGreater", 14, [.shader], []⟩,
   ⟨"DepthLess", 15, [.shader], []⟩,
   ⟨"DepthUnchanged", 16, [.shader], []⟩,
   ⟨"LocalSize", 17, [], [.integer, .integer, .integer]⟩,
   ⟨"LocalSizeHint", 18, [.kernel], [.integer, .integer, .integer]⟩,
   ⟨"InputPoints", 19, [.geometry], []⟩,
   ⟨"InputLines", 20, [.geometry], []⟩,
   ⟨"InputLinesAdjacency", 21, [.geometry], []⟩,
   ⟨"Triangles", 22, [.geometry, .tessellation], []⟩,
   ⟨"InputTrianglesAdjacency", 23, [.geometry], []⟩,
   ⟨"Quads", 24, [.tessellation], []⟩,
   ⟨"Isolines", 25, [.tessellation], []⟩,
   ⟨"OutputVertices", 26, [.geometry, .tessellation], [.integer]⟩,
   ⟨"OutputPoints", 27, [.geometry], []⟩,
   ⟨"OutputLineStrip", 28, [.geometry], []⟩,
   ⟨"OutputTriangleStrip", 29, [.geometry], []⟩,
   ⟨"VecTypeHint", 30, [.kernel], [.integer]⟩,
   ⟨"ContractionOff", 31, [.kernel], []⟩]

def storageClassValues : List NamedValue :=
  [⟨"UniformConstant", 0, [], []⟩,
   ⟨"Input", 1, [], []⟩,
   ⟨"Uniform", 2, [.shader], []⟩,
   ⟨"Output", 3, [.shader], []⟩,
   ⟨"Workgroup", 4, [], []⟩,
   ⟨"CrossWorkgroup", 5, [], []⟩,
   ⟨"Private", 6, [.shader], []⟩,
   ⟨"Function", 7, [], []⟩,
   ⟨"Generic", 8, [.genericPointer], []⟩,
   ⟨"PushConstant", 9, [.shader], []⟩,
   ⟨"AtomicCounter", 10, [.atomicStorage], []⟩,
   ⟨"Image", 11, [], []⟩]

def fpRoundingModeValues : List NamedValue :=
  [⟨"RTE", 0, [], []⟩,
   ⟨"RTZ", 1, [], []⟩,
   ⟨"RTP", 2, [], []⟩,
   ⟨"RTN", 3, [], []⟩]

def linkageTypeValues : List NamedValue :=
  [⟨"Export", 0, [.linkage], []⟩,
   ⟨"Import", 1, [.linkage], []⟩]

def accessQualifierValues : List NamedValue :=
  [⟨"ReadOnly", 0, [.kernel], []⟩,
   ⟨"WriteOnly", 1, [.kernel], []⟩,
   ⟨"ReadWrite", 2, [.kernel], []⟩]

def functionParameterAttributeValues : List NamedValue :=
  [⟨"Zext", 0, [.kernel], []⟩,
   ⟨"Sext", 1, [.kernel], []⟩,
   ⟨"ByVal", 2, [.kernel], []⟩,
   ⟨"Sret", 3, [.kernel], []⟩,
   ⟨"NoAlias", 4, [.kernel], []⟩,
   ⟨"NoCapture", 5, [.kernel], []⟩,
   ⟨"NoWrite", 6, [.kernel], []⟩,
   ⟨"NoReadWrite", 7, [.kernel], []⟩]

def groupOperationValues : List NamedValue :=
  [⟨"Reduce", 0, [.kernel], []⟩,
   ⟨"InclusiveScan", 1, [.kernel], []⟩,
   ⟨"ExclusiveScan", 2, [.kernel], []⟩]

def kernelEnqueueFlagsValues : List NamedValue :=
  [⟨"NoWait", 0, [.kernel], []⟩,
   ⟨"WaitKernel", 1, [.kernel], []⟩,
   ⟨"WaitWorkGroup", 2, [.kernel], []⟩]

def kernelProfilingInfoValues : List NamedValue :=
  [⟨"None", 0, [], []⟩,
   ⟨"CmdExecTime", 1, [.kernel], []⟩]

def capabilityValues : List NamedValue :=
  [⟨"Matrix", 0, [], []⟩,
   ⟨"Shader", 1, [.matrix], []⟩,
   ⟨"Geometry", 2, [.shader], []⟩,
   ⟨"Tessellation", 3, [.shader], []⟩,
   ⟨"Addresses", 4, [], []⟩,
   ⟨"Linkage", 5, [], []⟩,
   ⟨"Kernel", 6, [], []⟩,
   ⟨"Vector16", 7, [.kernel], []⟩,
   ⟨"Float16Buffer", 8, [.kernel], []⟩,
   ⟨"Float16", 9, [], []⟩,
   ⟨"Float64", 10, [], []⟩,
   ⟨"Int64", 11, [], []⟩,
   ⟨"Int64Atomics", 12, [.int64], []⟩,
   ⟨"ImageBasic", 13, [.kernel], []⟩,
   ⟨"ImageReadWrite", 14, [.imageBasic], []⟩,
   ⟨"ImageMipmap", 15, [.imageBasic], []⟩,
   ⟨"Pipes", 17, [.kernel], []⟩,
   ⟨"Groups", 18, [], []⟩,
   ⟨"DeviceEnqueue", 19, [.kernel], []⟩,
   ⟨"LiteralSampler", 20, [.kernel], []⟩,
   ⟨"AtomicStorage", 21, [.shader], []⟩,
   ⟨"Int16", 22, [], []⟩,
   ⟨"TessellationPointSize", 23, [.tessellation], []⟩,
   ⟨"GeometryPointSize", 24, [.geometry], []⟩,
   ⟨"ImageGatherExtended", 25, [.shader], []⟩,
   ⟨"StorageImageMultisample", 27, [.shader], []⟩,
   ⟨"UniformBufferArrayDynamicIndexing", 28, [.shader], []⟩,
   ⟨"SampledImageArrayDynamicIndexing", 29, [.shader], []⟩,
   ⟨"StorageBufferArrayDynamicIndexing", 30, [.shader], []⟩,
   ⟨"StorageImageArrayDynamicIndexing", 31, [.shader], []⟩,
   ⟨"ClipDistance", 32, [.shader], []⟩,
   ⟨"CullDistance", 33, [.shader], []⟩,
   ⟨"ImageCubeArray", 34, [.sampledCubeArray], []⟩,
   ⟨"SampleRateShading", 35, [.shader], []⟩,
   ⟨"ImageRect", 36, [.sampledRect], []⟩,
   ⟨"SampledRect", 37, [.shader], []⟩,
   ⟨"GenericPointer", 38, [.addresses], []⟩,
   ⟨"Int8", 39, [.kernel], []⟩,
   ⟨"InputAttachment", 40, [.shader], []⟩,
   ⟨"SparseResidency", 41, [.shader], []⟩,
   ⟨"MinLod", 42, [.shader], []⟩,
   ⟨"Sampled1D", 43, [.shader], []⟩,
   ⟨"Image1D", 44, [.sampled1D], []⟩,
   ⟨"SampledCubeArray", 45, [.shader], []⟩,
   ⟨"SampledBuffer", 46, [.shader], []⟩,
   ⟨"ImageBuffer", 47, [.sampledBuffer], []⟩,
   ⟨"ImageMSArray", 48, [.shader], []⟩,
   ⟨"StorageImageExtendedFormats", 49, [.shader], []⟩,
   ⟨"ImageQuery", 50, [.shader], []⟩,
   ⟨"DerivativeControl", 51, [.shader], []⟩,
   ⟨"InterpolationFunction", 52, [.shader], []⟩,
   ⟨"TransformFeedback", 53, [.shader], []⟩,
   ⟨"GeometryStreams", 54, [.geometry], []⟩,
   ⟨"StorageImageReadWithoutFormat", 55, [.shader], []⟩,
   ⟨"StorageImageWriteWithoutFormat", 56, [.shader], []⟩,
   ⟨"MultiViewport", 57, [.geometry], []⟩]

end Spirv.Category
