/-!
Categories of named values: the enumerations, of which an operand names one value, and the masks, of
which it names any number of bits.
-/

namespace Spirv

inductive Category where
  | sourceLanguage | executionModel | addressingModel | memoryModel | executionMode | storageClass
  | dimensionality | samplerAddressingMode | samplerFilterMode | samplerImageFormat
  | imageChannelOrder | imageChannelDataType | fpRoundingMode | linkageType | accessQualifier
  | functionParameterAttribute | decoration | builtIn | groupOperation | kernelEnqueueFlags
  | kernelProfilingInfo | capability | imageOperands | fpFastMathMode | selectionControl
  | loopControl | functionControl | memoryAccess | memorySemantics
  deriving DecidableEq

namespace Category

/-- The phrase that messages use for an operand of the category. -/
def description : Category → String
  | .sourceLanguage => "source language"
  | .executionModel => "execution model"
  | .addressingModel => "addressing model"
  | .memoryModel => "memory model"
  | .executionMode => "execution mode"
  | .storageClass => "storage class"
  | .dimensionality => "dimensionality"
  | .samplerAddressingMode => "sampler addressing mode"
  | .samplerFilterMode => "sampler filter mode"
  | .samplerImageFormat => "image format"
  | .imageChannelOrder => "image channel order"
  | .imageChannelDataType => "image channel data type"
  | .fpRoundingMode => "floating-point rounding mode"
  | .linkageType => "linkage type"
  | .accessQualifier => "access qualifier"
  | .functionParameterAttribute => "function parameter attribute"
  | .decoration => "decoration"
  | .builtIn => "built-in"
  | .groupOperation => "group operation"
  | .kernelEnqueueFlags => "kernel enqueue flags"
  | .kernelProfilingInfo => "kernel profiling info"
  | .capability => "capability"
  | .imageOperands => "image"
  | .fpFastMathMode => "floating-point fast math mode"
  | .selectionControl => "selection control"
  | .loopControl => "loop control"
  | .functionControl => "function control"
  | .memoryAccess => "memory access"
  | .memorySemantics => "memory semantics"

/-- Whether the values of the category are bits that may be combined. -/
def isMask : Category → Bool
  | .imageOperands | .fpFastMathMode | .selectionControl | .loopControl | .functionControl
  | .memoryAccess | .memorySemantics => true
  | _ => false

end Category

end Spirv
