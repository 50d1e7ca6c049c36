import Spirv.Operand.Values.Execution
import Spirv.Operand.Values.Image
import Spirv.Operand.Values.Decoration
import Spirv.Operand.Values.Mask

/-!
The named values of every category, and finding one by name or by value. The first row wins where
two rows share a value.
-/

namespace Spirv

namespace Category

/-- The named values of a category, in the order in which they are searched. -/
def values : Category → List NamedValue
  | .sourceLanguage => sourceLanguageValues
  | .executionModel => executionModelValues
  | .addressingModel => addressingModelValues
  | .memoryModel => memoryModelValues
  | .executionMode => executionModeValues
  | .storageClass => storageClassValues
  | .dimensionality => dimensionalityValues
  | .samplerAddressingMode => samplerAddressingModeValues
  | .samplerFilterMode => samplerFilterModeValues
  | .samplerImageFormat => samplerImageFormatValues
  | .imageChannelOrder => imageChannelOrderValues
  | .imageChannelDataType => imageChannelDataTypeValues
  | .fpRoundingMode => fpRoundingModeValues
  | .linkageType => linkageTypeValues
  | .accessQualifier => accessQualifierValues
  | .functionParameterAttribute => functionParameterAttributeValues
  | .decoration => decorationValues
  | .builtIn => builtInValues
  | .groupOperation => groupOperationValues
  | .kernelEnqueueFlags => kernelEnqueueFlagsValues
  | .kernelProfilingInfo => kernelProfilingInfoValues
  | .capability => capabilityValues
  | .imageOperands => imageOperandsValues
  | .fpFastMathMode => fpFastMathModeValues
  | .selectionControl => selectionControlValues
  | .loopControl => loopControlValues
  | .functionControl => functionControlValues
  | .memoryAccess => memoryAccessValues
  | .memorySemantics => memorySemanticsValues

def ofName? (c : Category) (name : String) : Option NamedValue :=
  NamedValue.ofName? c.values name

def ofValue? (c : Category) (value : Word) : Option NamedValue :=
  NamedValue.ofValue? c.values value

end Category

end Spirv
