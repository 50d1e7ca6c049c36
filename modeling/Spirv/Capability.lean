/-!
Capabilities, which gate opcodes and named values, and sets of them held as bits.
-/

namespace Spirv

/-- A feature that a module may declare and that parts of it may depend on. -/
inductive Capability where
  | matrix | shader | geometry | tessellation | addresses | linkage | kernel | vector16
  | float16Buffer | float16 | float64 | int64 | int64Atomics | imageBasic | imageReadWrite
  | imageMipmap | pipes | groups | deviceEnqueue | literalSampler | atomicStorage | int16
  | tessellationPointSize | geometryPointSize | imageGatherExtended | storageImageMultisample
  | uniformBufferArrayDynamicIndexing | sampledImageArrayDynamicIndexing
  | storageBufferArrayDynamicIndexing | storageImageArrayDynamicIndexing | clipDistance
  | cullDistance | imageCubeArray | sampleRateShading | imageRect | sampledRect | genericPointer
  | int8 | inputAttachment | sparseResidency | minLod | sampled1D | image1D | sampledCubeArray
  | sampledBuffer | imageBuffer | imageMSArray | storageImageExtendedFormats | imageQuery
  | derivativeControl | interpolationFunction | transformFeedback | geometryStreams
  | storageImageReadWithoutFormat | storageImageWriteWithoutFormat | multiViewport
  deriving DecidableEq

namespace Capability

/-- The number and the name of each capability. -/
def entry : Capability → Nat × String
  | .matrix => (0, "Matrix")
  | .shader => (1, "Shader")
  | .geometry => (2, "Geometry")
  | .tessellation => (3, "Tessellation")
  | .addresses => (4, "Addresses")
  | .linkage => (5, "Linkage")
  | .kernel => (6, "Kernel")
  | .vector16 => (7, "Vector16")
  | .float16Buffer => (8, "Float16Buffer")
  | .float16 => (9, "Float16")
  | .float64 => (10, "Float64")
  | .int64 => (11, "Int64")
  | .int64Atomics => (12, "Int64Atomics")
  | .imageBasic => (13, "ImageBasic")
  | .imageReadWrite => (14, "ImageReadWrite")
  | .imageMipmap => (15, "ImageMipmap")
  | .pipes => (17, "Pipes")
  | .groups => (18, "Groups")
  | .deviceEnqueue => (19, "DeviceEnqueue")
  | .literalSampler => (20, "LiteralSampler")
  | .atomicStorage => (21, "AtomicStorage")
  | .int16 => (22, "Int16")
  | .tessellationPointSize => (23, "TessellationPointSize")
  | .geometryPointSize => (24, "GeometryPointSize")
  | .imageGatherExtended => (25, "ImageGatherExtended")
  | .storageImageMultisample => (27, "StorageImageMultisample")
  | .uniformBufferArrayDynamicIndexing => (28, "UniformBufferArrayDynamicIndexing")
  | .sampledImageArrayDynamicIndexing => (29, "SampledImageArrayDynamicIndexing")
  | .storageBufferArrayDynamicIndexing => (30, "StorageBufferArrayDynamicIndexing")
  | .storageImageArrayDynamicIndexing => (31, "StorageImageArrayDynamicIndexing")
  | .clipDistance => (32, "ClipDistance")
  | .cullDistance => (33, "CullDistance")
  | .imageCubeArray => (34, "ImageCubeArray")
  | .sampleRateShading => (35, "SampleRateShading")
  | .imageRect => (36, "ImageRect")
  | .sampledRect => (37, "SampledRect")
  | .genericPointer => (38, "GenericPointer")
  | .int8 => (39, "Int8")
  | .inputAttachment => (40, "InputAttachment")
  | .sparseResidency => (41, "SparseResidency")
  | .minLod => (42, "MinLod")
  | .sampled1D => (43, "Sampled1D")
  | .image1D => (44, "Image1D")
  | .sampledCubeArray => (45, "SampledCubeArray")
  | .sampledBuffer => (46, "SampledBuffer")
  | .imageBuffer => (47, "ImageBuffer")
  | .imageMSArray => (48, "ImageMSArray")
  | .storageImageExtendedFormats => (49, "StorageImageExtendedFormats")
  | .imageQuery => (50, "ImageQuery")
  | .derivativeControl => (51, "DerivativeControl")
  | .interpolationFunction => (52, "InterpolationFunction")
  | .transformFeedback => (53, "TransformFeedback")
  | .geometryStreams => (54, "GeometryStreams")
  | .storageImageReadWithoutFormat => (55, "StorageImageReadWithoutFormat")
  | .storageImageWriteWithoutFormat => (56, "StorageImageWriteWithoutFormat")
  | .multiViewport => (57, "MultiViewport")

/-- The number that stands for the capability in a module. -/
def value (c : Capability) : Nat := c.entry.1

def name (c : Capability) : String := c.entry.2

/-- Every capability, in increasing order of value. -/
def all : List Capability :=
  [.matrix, .shader, .geometry, .tessellation, .addresses, .linkage, .kernel, .vector16,
   .float16Buffer, .float16, .float64, .int64, .int64Atomics, .imageBasic, .imageReadWrite,
   .imageMipmap, .pipes, .groups, .deviceEnqueue, .literalSampler, .atomicStorage, .int16,
   .tessellationPointSize, .geometryPointSize, .imageGatherExtended, .storageImageMultisample,
   .uniformBufferArrayDynamicIndexing, .sampledImageArrayDynamicIndexing,
   .storageBufferArrayDynamicIndexing, .storageImageArrayDynamicIndexing, .clipDistance,
   .cullDistance, .imageCubeArray, .sampleRateShading, .imageRect, .sampledRect, .genericPointer,
   .int8, .inputAttachment, .sparseResidency, .minLod, .sampled1D, .image1D, .sampledCubeArray,
   .sampledBuffer, .imageBuffer, .imageMSArray, .storageImageExtendedFormats, .imageQuery,
   .derivativeControl, .interpolationFunction, .transformFeedback, .geometryStreams,
   .storageImageReadWithoutFormat, .storageImageWriteWithoutFormat, .multiViewport]

def ofName? (name : String) : Option Capability :=
  all.find? (·.name == name)

def ofValue? (value : Nat) : Option Capability :=
  all.find? (·.value == value)

end Capability

/-- A set of capabilities. The bit at a capability's value says whether it is a member. -/
structure CapabilitySet where
  bits : BitVec 64
  deriving DecidableEq

namespace CapabilitySet

def empty : CapabilitySet := ⟨0⟩

def isEmpty (s : CapabilitySet) : Bool := s.bits == 0

def contains (s : CapabilitySet) (c : Capability) : Bool := s.bits.getLsbD c.value

def insert (s : CapabilitySet) (c : Capability) : CapabilitySet :=
  ⟨s.bits ||| BitVec.twoPow 64 c.value⟩

/-- The set of the listed capabilities, as the union of their bits. -/
def ofList (cs : List Capability) : CapabilitySet :=
  ⟨cs.foldr (fun c bits => BitVec.twoPow 64 c.value ||| bits) 0⟩

/-- The members in increasing order of value: the set bits that are values of capabilities. -/
def toList (s : CapabilitySet) : List Capability :=
  ((List.range 64).filter s.bits.getLsbD).filterMap Capability.ofValue?

end CapabilitySet

end Spirv
