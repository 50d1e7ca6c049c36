import Spirv.Capability
import Spirv.Opcode
import Spirv.Operand.Slot

/-!
The signature of every opcode: its name and number, the capabilities it depends on, and its operands.
Operands are listed in binary order, a result type first and then a result id.
-/

namespace Spirv

structure Signature where
  /-- The name without the leading `Op`. -/
  name : String
  value : UInt16
  capabilities : List Capability
  operands : List Slot

namespace Opcode

def signature : Opcode → Signature
  -- miscellaneous, debug and annotation
  | .opNop => ⟨"Nop", 0, [], []⟩
  | .opUndef => ⟨"Undef", 1, [], [.typeId, .resultId]⟩
  | .opSourceContinued => ⟨"SourceContinued", 2, [], [.string]⟩
  | .opSource => ⟨"Source", 3, [],
      [.named .sourceLanguage, .integer, .optional .id, .optional .string]⟩
  | .opSourceExtension => ⟨"SourceExtension", 4, [], [.string]⟩
  | .opName => ⟨"Name", 5, [], [.id, .string]⟩
  | .opMemberName => ⟨"MemberName", 6, [], [.id, .integer, .string]⟩
  | .opString => ⟨"String", 7, [], [.resultId, .string]⟩
  | .opLine => ⟨"Line", 8, [], [.id, .integer, .integer]⟩
  | .opExtension => ⟨"Extension", 10, [], [.string]⟩
  | .opExtInstImport => ⟨"ExtInstImport", 11, [], [.resultId, .string]⟩
  | .opExtInst => ⟨"ExtInst", 12, [], [.typeId, .resultId, .id, .extended, .many .id]⟩
  | .opMemoryModel => ⟨"MemoryModel", 14, [], [.named .addressingModel, .named .memoryModel]⟩
  | .opEntryPoint => ⟨"EntryPoint", 15, [], [.named .executionModel, .id, .string, .many .id]⟩
  | .opExecutionMode => ⟨"ExecutionMode", 16, [], [.id, .named .executionMode]⟩
  | .opCapability => ⟨"Capability", 17, [], [.named .capability]⟩
  -- type declarations
  | .opTypeVoid => ⟨"TypeVoid", 19, [], [.resultId]⟩
  | .opTypeBool => ⟨"TypeBool", 20, [], [.resultId]⟩
  | .opTypeInt => ⟨"TypeInt", 21, [], [.resultId, .integer, .integer]⟩
  | .opTypeFloat => ⟨"TypeFloat", 22, [], [.resultId, .integer]⟩
  | .opTypeVector => ⟨"TypeVector", 23, [], [.resultId, .id, .integer]⟩
  | .opTypeMatrix => ⟨"TypeMatrix", 24, [.matrix], [.resultId, .id, .integer]⟩
  | .opTypeImage => ⟨"TypeImage", 25, [],
      [.resultId, .id, .named .dimensionality, .integer, .integer, .integer, .integer,
      .named .samplerImageFormat, .optional (.named .accessQualifier)]⟩
  | .opTypeSampler => ⟨"TypeSampler", 26, [], [.resultId]⟩
  | .opTypeSampledImage => ⟨"TypeSampledImage", 27, [], [.resultId, .id]⟩
  | .opTypeArray => ⟨"TypeArray", 28, [], [.resultId, .id, .id]⟩
  | .opTypeRuntimeArray => ⟨"TypeRuntimeArray", 29, [.shader], [.resultId, .id]⟩
  | .opTypeStruct => ⟨"TypeStruct", 30, [], [.resultId, .many .id]⟩
  | .opTypeOpaque => ⟨"TypeOpaque", 31, [.kernel], [.resultId, .string]⟩
  | .opTypePointer => ⟨"TypePointer", 32, [], [.resultId, .named .storageClass, .id]⟩
  | .opTypeFunction => ⟨"TypeFunction", 33, [], [.resultId, .id, .many .id]⟩
  | .opTypeEvent => ⟨"TypeEvent", 34, [.kernel], [.resultId]⟩
  | .opTypeDeviceEvent => ⟨"TypeDeviceEvent", 35, [.deviceEnqueue], [.resultId]⟩
  | .opTypeReserveId => ⟨"TypeReserveId", 36, [.pipes], [.resultId]⟩
  | .opTypeQueue => ⟨"TypeQueue", 37, [.deviceEnqueue], [.resultId]⟩
  | .opTypePipe => ⟨"TypePipe", 38, [.pipes], [.resultId, .named .accessQualifier]⟩
  | .opTypeForwardPointer => ⟨"TypeForwardPointer", 39, [.addresses], [.id, .named .storageClass]⟩
  -- constants
  | .opConstantTrue => ⟨"ConstantTrue", 41, [], [.typeId, .resultId]⟩
  | .opConstantFalse => ⟨"ConstantFalse", 42, [], [.typeId, .resultId]⟩
  | .opConstant => ⟨"Constant", 43, [], [.typeId, .resultId, .typedNumber]⟩
  | .opConstantComposite => ⟨"ConstantComposite", 44, [], [.typeId, .resultId, .many .id]⟩
  | .opConstantSampler => ⟨"ConstantSampler", 45, [.literalSampler],
      [.typeId, .resultId, .named .samplerAddressingMode, .integer, .named .samplerFilterMode]⟩
  | .opConstantNull => ⟨"ConstantNull", 46, [], [.typeId, .resultId]⟩
  | .opSpecConstantTrue => ⟨"SpecConstantTrue", 48, [.shader], [.typeId, .resultId]⟩
  | .opSpecConstantFalse => ⟨"SpecConstantFalse", 49, [.shader], [.typeId, .resultId]⟩
  | .opSpecConstant => ⟨"SpecConstant", 50, [.shader], [.typeId, .resultId, .typedNumber]⟩
  | .opSpecConstantComposite => ⟨"SpecConstantComposite", 51, [.shader],
      [.typeId, .resultId, .many .id]⟩
  | .opSpecConstantOp => ⟨"SpecConstantOp", 52, [.shader], [.typeId, .resultId, .specOpcode]⟩
  -- functions
  | .opFunction => ⟨"Function", 54, [], [.typeId, .resultId, .named .functionControl, .id]⟩
  | .opFunctionParameter => ⟨"FunctionParameter", 55, [], [.typeId, .resultId]⟩
  | .opFunctionEnd => ⟨"FunctionEnd", 56, [], []⟩
  | .opFunctionCall => ⟨"FunctionCall", 57, [], [.typeId, .resultId, .id, .many .id]⟩
  -- memory
  | .opVariable => ⟨"Variable", 59, [], [.typeId, .resultId, .named .storageClass, .optional .id]⟩
  | .opImageTexelPointer => ⟨"ImageTexelPointer", 60, [], [.typeId, .resultId, .id, .id, .id]⟩
  | .opLoad => ⟨"Load", 61, [], [.typeId, .resultId, .id, .optional (.named .memoryAccess)]⟩
  | .opStore => ⟨"Store", 62, [], [.id, .id, .optional (.named .memoryAccess)]⟩
  | .opCopyMemory => ⟨"CopyMemory", 63, [], [.id, .id, .optional (.named .memoryAccess)]⟩
  | .opCopyMemorySized => ⟨"CopyMemorySized", 64, [.addresses],
      [.id, .id, .id, .optional (.named .memoryAccess)]⟩
  | .opAccessChain => ⟨"AccessChain", 65, [], [.typeId, .resultId, .id, .many .id]⟩
  | .opInBoundsAccessChain => ⟨"InBoundsAccessChain", 66, [], [.typeId, .resultId, .id, .many .id]⟩
  | .opPtrAccessChain => ⟨"PtrAccessChain", 67, [.addresses],
      [.typeId, .resultId, .id, .id, .many .id]⟩
  | .opArrayLength => ⟨"ArrayLength", 68, [.shader], [.typeId, .resultId, .id, .integer]⟩
  | .opGenericPtrMemSemantics => ⟨"GenericPtrMemSemantics", 69, [.kernel],
      [.typeId, .resultId, .id]⟩
  | .opInBoundsPtrAccessChain => ⟨"InBoundsPtrAccessChain", 70, [.addresses],
      [.typeId, .resultId, .id, .id, .many .id]⟩
  -- decorations
  | .opDecorate => ⟨"Decorate", 71, [], [.id, .named .decoration]⟩
  | .opMemberDecorate => ⟨"MemberDecorate", 72, [], [.id, .integer, .named .decoration]⟩
  | .opDecorationGroup => ⟨"DecorationGroup", 73, [], [.resultId]⟩
  | .opGroupDecorate => ⟨"GroupDecorate", 74, [], [.id, .many .id]⟩
  | .opGroupMemberDecorate => ⟨"GroupMemberDecorate", 75, [], [.id, .pairs .id .integer]⟩
  -- composites
  | .opVectorExtractDynamic => ⟨"VectorExtractDynamic", 77, [], [.typeId, .resultId, .id, .id]⟩
  | .opVectorInsertDynamic => ⟨"VectorInsertDynamic", 78, [], [.typeId, .resultId, .id, .id, .id]⟩
  | .opVectorShuffle => ⟨"VectorShuffle", 79, [], [.typeId, .resultId, .id, .id, .many .integer]⟩
  | .opCompositeConstruct => ⟨"CompositeConstruct", 80, [], [.typeId, .resultId, .many .id]⟩
  | .opCompositeExtract => ⟨"CompositeExtract", 81, [], [.typeId, .resultId, .id, .many .integer]⟩
  | .opCompositeInsert => ⟨"CompositeInsert", 82, [],
      [.typeId, .resultId, .id, .id, .many .integer]⟩
  | .opCopyObject => ⟨"CopyObject", 83, [], [.typeId, .resultId, .id]⟩
  | .opTranspose => ⟨"Transpose", 84, [.matrix], [.typeId, .resultId, .id]⟩
  -- images
  | .opSampledImage => ⟨"SampledImage", 86, [], [.typeId, .resultId, .id, .id]⟩
  | .opImageSampleImplicitLod => ⟨"ImageSampleImplicitLod", 87, [.shader],
      [.typeId, .resultId, .id, .id, .optional (.named .imageOperands)]⟩
  | .opImageSampleExplicitLod => ⟨"ImageSampleExplicitLod", 88, [],
      [.typeId, .resultId, .id, .id, .named .imageOperands]⟩
  | .opImageSampleDrefImplicitLod => ⟨"ImageSampleDrefImplicitLod", 89, [.shader],
      [.typeId, .resultId, .id, .id, .id, .optional (.named .imageOperands)]⟩
  | .opImageSampleDrefExplicitLod => ⟨"ImageSampleDrefExplicitLod", 90, [.shader],
      [.typeId, .resultId, .id, .id, .id, .named .imageOperands]⟩
  | .opImageSampleProjImplicitLod => ⟨"ImageSampleProjImplicitLod", 91, [.shader],
      [.typeId, .resultId, .id, .id, .optional (.named .imageOperands)]⟩
  | .opImageSampleProjExplicitLod => ⟨"ImageSampleProjExplicitLod", 92, [.shader],
      [.typeId, .resultId, .id, .id, .named .imageOperands]⟩
  | .opImageSampleProjDrefImplicitLod => ⟨"ImageSampleProjDrefImplicitLod", 93, [.shader],
      [.typeId, .resultId, .id, .id, .id, .optional (.named .imageOperands)]⟩
  | .opImageSampleProjDrefExplicitLod => ⟨"ImageSampleProjDrefExplicitLod", 94, [.shader],
      [.typeId, .resultId, .id, .id, .id, .named .imageOperands]⟩
  | .opImageFetch => ⟨"ImageFetch", 95, [],
      [.typeId, .resultId, .id, .id, .optional (.named .imageOperands)]⟩
  | .opImageGather => ⟨"ImageGather", 96, [.shader],
      [.typeId, .resultId, .id, .id, .id, .optional (.named .imageOperands)]⟩
  | .opImageDrefGather => ⟨"ImageDrefGather", 97, [.shader],
      [.typeId, .resultId, .id, .id, .id, .optional (.named .imageOperands)]⟩
  | .opImageRead => ⟨"ImageRead", 98, [],
      [.typeId, .resultId, .id, .id, .optional (.named .imageOperands)]⟩
  | .opImageWrite => ⟨"ImageWrite", 99, [], [.id, .id, .id, .optional (.named .imageOperands)]⟩
  | .opImage => ⟨"Image", 100, [], [.typeId, .resultId, .id]⟩
  | .opImageQueryFormat => ⟨"ImageQueryFormat", 101, [.kernel], [.typeId, .resultId, .id]⟩
  | .opImageQueryOrder => ⟨"ImageQueryOrder", 102, [.kernel], [.typeId, .resultId, .id]⟩
  | .opImageQuerySizeLod => ⟨"ImageQuerySizeLod", 103, [.kernel, .imageQuery],
      [.typeId, .resultId, .id, .id]⟩
  | .opImageQuerySize => ⟨"ImageQuerySize", 104, [.kernel, .imageQuery], [.typeId, .resultId, .id]⟩
  | .opImageQueryLod => ⟨"ImageQueryLod", 105, [.imageQuery], [.typeId, .resultId, .id, .id]⟩
  | .opImageQueryLevels => ⟨"ImageQueryLevels", 106, [.kernel, .imageQuery],
      [.typeId, .resultId, .id]⟩
  | .opImageQuerySamples => ⟨"ImageQuerySamples", 107, [.kernel, .imageQuery],
      [.typeId, .resultId, .id]⟩
  -- conversions
  | .opConvertFToU => ⟨"ConvertFToU", 109, [], [.typeId, .resultId, .id]⟩
  | .opConvertFToS => ⟨"ConvertFToS", 110, [], [.typeId, .resultId, .id]⟩
  | .opConvertSToF => ⟨"ConvertSToF", 111, [], [.typeId, .resultId, .id]⟩
  | .opConvertUToF => ⟨"ConvertUToF", 112, [], [.typeId, .resultId, .id]⟩
  | .opUConvert => ⟨"UConvert", 113, [], [.typeId, .resultId, .id]⟩
  | .opSConvert => ⟨"SConvert", 114, [], [.typeId, .resultId, .id]⟩
  | .opFConvert => ⟨"FConvert", 115, [], [.typeId, .resultId, .id]⟩
  | .opQuantizeToF16 => ⟨"QuantizeToF16", 116, [.shader], [.typeId, .resultId, .id]⟩
  | .opConvertPtrToU => ⟨"ConvertPtrToU", 117, [.addresses], [.typeId, .resultId, .id]⟩
  | .opSatConvertSToU => ⟨"SatConvertSToU", 118, [.kernel], [.typeId, .resultId, .id]⟩
  | .opSatConvertUToS => ⟨"SatConvertUToS", 119, [.kernel], [.typeId, .resultId, .id]⟩
  | .opConvertUToPtr => ⟨"ConvertUToPtr", 120, [.addresses], [.typeId, .resultId, .id]⟩
  | .opPtrCastToGeneric => ⟨"PtrCastToGeneric", 121, [.kernel], [.typeId, .resultId, .id]⟩
  | .opGenericCastToPtr => ⟨"GenericCastToPtr", 122, [.kernel], [.typeId, .resultId, .id]⟩
  | .opGenericCastToPtrExplicit => ⟨"GenericCastToPtrExplicit", 123, [.kernel],
      [.typeId, .resultId, .id, .named .storageClass]⟩
  | .opBitcast => ⟨"Bitcast", 124, [], [.typeId, .resultId, .id]⟩
  -- arithmetic
  | .opSNegate => ⟨"SNegate", 126, [], [.typeId, .resultId, .id]⟩
  | .opFNegate => ⟨"FNegate", 127, [], [.typeId, .resultId, .id]⟩
  | .opIAdd => ⟨"IAdd", 128, [], [.typeId, .resultId, .id, .id]⟩
  | .opFAdd => ⟨"FAdd", 129, [], [.typeId, .resultId, .id, .id]⟩
  | .opISub => ⟨"ISub", 130, [], [.typeId, .resultId, .id, .id]⟩
  | .opFSub => ⟨"FSub", 131, [], [.typeId, .resultId, .id, .id]⟩
  | .opIMul => ⟨"IMul", 132, [], [.typeId, .resultId, .id, .id]⟩
  | .opFMul => ⟨"FMul", 133, [], [.typeId, .resultId, .id, .id]⟩
  | .opUDiv => ⟨"UDiv", 134, [], [.typeId, .resultId, .id, .id]⟩
  | .opSDiv => ⟨"SDiv", 135, [], [.typeId, .resultId, .id, .id]⟩
  | .opFDiv => ⟨"FDiv", 136, [], [.typeId, .resultId, .id, .id]⟩
  | .opUMod => ⟨"UMod", 137, [], [.typeId, .resultId, .id, .id]⟩
  | .opSRem => ⟨"SRem", 138, [], [.typeId, .resultId, .id, .id]⟩
  | .opSMod => ⟨"SMod", 139, [], [.typeId, .resultId, .id, .id]⟩
  | .opFRem => ⟨"FRem", 140, [], [.typeId, .resultId, .id, .id]⟩
  | .opFMod => ⟨"FMod", 141, [], [.typeId, .resultId, .id, .id]⟩
  | .opVectorTimesScalar => ⟨"VectorTimesScalar", 142, [], [.typeId, .resultId, .id, .id]⟩
  | .opMatrixTimesScalar => ⟨"MatrixTimesScalar", 143, [.matrix], [.typeId, .resultId, .id, .id]⟩
  | .opVectorTimesMatrix => ⟨"VectorTimesMatrix", 144, [.matrix], [.typeId, .resultId, .id, .id]⟩
  | .opMatrixTimesVector => ⟨"MatrixTimesVector", 145, [.matrix], [.typeId, .resultId, .id, .id]⟩
  | .opMatrixTimesMatrix => ⟨"MatrixTimesMatrix", 146, [.matrix], [.typeId, .resultId, .id, .id]⟩
  | .opOuterProduct => ⟨"OuterProduct", 147, [.matrix], [.typeId, .resultId, .id, .id]⟩
  | .opDot => ⟨"Dot", 148, [], [.typeId, .resultId, .id, .id]⟩
  | .opIAddCarry => ⟨"IAddCarry", 149, [], [.typeId, .resultId, .id, .id]⟩
  | .opISubBorrow => ⟨"ISubBorrow", 150, [], [.typeId, .resultId, .id, .id]⟩
  | .opUMulExtended => ⟨"UMulExtended", 151, [], [.typeId, .resultId, .id, .id]⟩
  | .opSMulExtended => ⟨"SMulExtended", 152, [], [.typeId, .resultId, .id, .id]⟩
  -- relational and logical
  | .opAny => ⟨"Any", 154, [], [.typeId, .resultId, .id]⟩
  | .opAll => ⟨"All", 155, [], [.typeId, .resultId, .id]⟩
  | .opIsNan => ⟨"IsNan", 156, [], [.typeId, .resultId, .id]⟩
  | .opIsInf => ⟨"IsInf", 157, [], [.typeId, .resultId, .id]⟩
  | .opIsFinite => ⟨"IsFinite", 158, [.kernel], [.typeId, .resultId, .id]⟩
  | .opIsNormal => ⟨"IsNormal", 159, [.kernel], [.typeId, .resultId, .id]⟩
  | .opSignBitSet => ⟨"SignBitSet", 160, [.kernel], [.typeId, .resultId, .id]⟩
  | .opLessOrGreater => ⟨"LessOrGreater", 161, [.kernel], [.typeId, .resultId, .id, .id]⟩
  | .opOrdered => ⟨"Ordered", 162, [.kernel], [.typeId, .resultId, .id, .id]⟩
  | .opUnordered => ⟨"Unordered", 163, [.kernel], [.typeId, .resultId, .id, .id]⟩
  | .opLogicalEqual => ⟨"LogicalEqual", 164, [], [.typeId, .resultId, .id, .id]⟩
  | .opLogicalNotEqual => ⟨"LogicalNotEqual", 165, [], [.typeId, .resultId, .id, .id]⟩
  | .opLogicalOr => ⟨"LogicalOr", 166, [], [.typeId, .resultId, .id, .id]⟩
  | .opLogicalAnd => ⟨"LogicalAnd", 167, [], [.typeId, .resultId, .id, .id]⟩
  | .opLogicalNot => ⟨"LogicalNot", 168, [], [.typeId, .resultId, .id]⟩
  | .opSelect => ⟨"Select", 169, [], [.typeId, .resultId, .id, .id, .id]⟩
  | .opIEqual => ⟨"IEqual", 170, [], [.typeId, .resultId, .id, .id]⟩
  | .opINotEqual => ⟨"INotEqual", 171, [], [.typeId, .resultId, .id, .id]⟩
  | .opUGreaterThan => ⟨"UGreaterThan", 172, [], [.typeId, .resultId, .id, .id]⟩
  | .opSGreaterThan => ⟨"SGreaterThan", 173, [], [.typeId, .resultId, .id, .id]⟩
  | .opUGreaterThanEqual => ⟨"UGreaterThanEqual", 174, [], [.typeId, .resultId, .id, .id]⟩
  | .opSGreaterThanEqual => ⟨"SGreaterThanEqual", 175, [], [.typeId, .resultId, .id, .id]⟩
  | .opULessThan => ⟨"ULessThan", 176, [], [.typeId, .resultId, .id, .id]⟩
  | .opSLessThan => ⟨"SLessThan", 177, [], [.typeId, .resultId, .id, .id]⟩
  | .opULessThanEqual => ⟨"ULessThanEqual", 178, [], [.typeId, .resultId, .id, .id]⟩
  | .opSLessThanEqual => ⟨"SLessThanEqual", 179, [], [.typeId, .resultId, .id, .id]⟩
  | .opFOrdEqual => ⟨"FOrdEqual", 180, [], [.typeId, .resultId, .id, .id]⟩
  | .opFUnordEqual => ⟨"FUnordEqual", 181, [], [.typeId, .resultId, .id, .id]⟩
  | .opFOrdNotEqual => ⟨"FOrdNotEqual", 182, [], [.typeId, .resultId, .id, .id]⟩
  | .opFUnordNotEqual => ⟨"FUnordNotEqual", 183, [], [.typeId, .resultId, .id, .id]⟩
  | .opFOrdLessThan => ⟨"FOrdLessThan", 184, [], [.typeId, .resultId, .id, .id]⟩
  | .opFUnordLessThan => ⟨"FUnordLessThan", 185, [], [.typeId, .resultId, .id, .id]⟩
  | .opFOrdGreaterThan => ⟨"FOrdGreaterThan", 186, [], [.typeId, .resultId, .id, .id]⟩
  | .opFUnordGreaterThan => ⟨"FUnordGreaterThan", 187, [], [.typeId, .resultId, .id, .id]⟩
  | .opFOrdLessThanEqual => ⟨"FOrdLessThanEqual", 188, [], [.typeId, .resultId, .id, .id]⟩
  | .opFUnordLessThanEqual => ⟨"FUnordLessThanEqual", 189, [], [.typeId, .resultId, .id, .id]⟩
  | .opFOrdGreaterThanEqual => ⟨"FOrdGreaterThanEqual", 190, [], [.typeId, .resultId, .id, .id]⟩
  | .opFUnordGreaterThanEqual => ⟨"FUnordGreaterThanEqual", 191, [], [.typeId, .resultId, .id, .id]⟩
  -- bit operations
  | .opShiftRightLogical => ⟨"ShiftRightLogical", 194, [], [.typeId, .resultId, .id, .id]⟩
  | .opShiftRightArithmetic => ⟨"ShiftRightArithmetic", 195, [], [.typeId, .resultId, .id, .id]⟩
  | .opShiftLeftLogical => ⟨"ShiftLeftLogical", 196, [], [.typeId, .resultId, .id, .id]⟩
  | .opBitwiseOr => ⟨"BitwiseOr", 197, [], [.typeId, .resultId, .id, .id]⟩
  | .opBitwiseXor => ⟨"BitwiseXor", 198, [], [.typeId, .resultId, .id, .id]⟩
  | .opBitwiseAnd => ⟨"BitwiseAnd", 199, [], [.typeId, .resultId, .id, .id]⟩
  | .opNot => ⟨"Not", 200, [], [.typeId, .resultId, .id]⟩
  | .opBitFieldInsert => ⟨"BitFieldInsert", 201, [.shader],
      [.typeId, .resultId, .id, .id, .id, .id]⟩
  | .opBitFieldSExtract => ⟨"BitFieldSExtract", 202, [.shader], [.typeId, .resultId, .id, .id, .id]⟩
  | .opBitFieldUExtract => ⟨"BitFieldUExtract", 203, [.shader], [.typeId, .resultId, .id, .id, .id]⟩
  | .opBitReverse => ⟨"BitReverse", 204, [.shader], [.typeId, .resultId, .id]⟩
  | .opBitCount => ⟨"BitCount", 205, [], [.typeId, .resultId, .id]⟩
  -- derivatives
  | .opDPdx => ⟨"DPdx", 207, [.shader], [.typeId, .resultId, .id]⟩
  | .opDPdy => ⟨"DPdy", 208, [.shader], [.typeId, .resultId, .id]⟩
  | .opFwidth => ⟨"Fwidth", 209, [.shader], [.typeId, .resultId, .id]⟩
  | .opDPdxFine => ⟨"DPdxFine", 210, [.derivativeControl], [.typeId, .resultId, .id]⟩
  | .opDPdyFine => ⟨"DPdyFine", 211, [.derivativeControl], [.typeId, .resultId, .id]⟩
  | .opFwidthFine => ⟨"FwidthFine", 212, [.derivativeControl], [.typeId, .resultId, .id]⟩
  | .opDPdxCoarse => ⟨"DPdxCoarse", 213, [.derivativeControl], [.typeId, .resultId, .id]⟩
  | .opDPdyCoarse => ⟨"DPdyCoarse", 214, [.derivativeControl], [.typeId, .resultId, .id]⟩
  | .opFwidthCoarse => ⟨"FwidthCoarse", 215, [.derivativeControl], [.typeId, .resultId, .id]⟩
  -- primitives and barriers
  | .opEmitVertex => ⟨"EmitVertex", 218, [.geometry], []⟩
  | .opEndPrimitive => ⟨"EndPrimitive", 219, [.geometry], []⟩
  | .opEmitStreamVertex => ⟨"EmitStreamVertex", 220, [.geometryStreams], [.id]⟩
  | .opEndStreamPrimitive => ⟨"EndStreamPrimitive", 221, [.geometryStreams], [.id]⟩
  | .opControlBarrier => ⟨"ControlBarrier", 224, [], [.scopeId, .scopeId, .memorySemanticsId]⟩
  | .opMemoryBarrier => ⟨"MemoryBarrier", 225, [], [.scopeId, .memorySemanticsId]⟩
  -- atomics
  | .opAtomicLoad => ⟨"AtomicLoad", 227, [],
      [.typeId, .resultId, .id, .scopeId, .memorySemanticsId]⟩
  | .opAtomicStore => ⟨"AtomicStore", 228, [], [.id, .scopeId, .memorySemanticsId, .id]⟩
  | .opAtomicExchange => ⟨"AtomicExchange", 229, [],
      [.typeId, .resultId, .id, .scopeId, .memorySemanticsId, .id]⟩
  | .opAtomicCompareExchange => ⟨"AtomicCompareExchange", 230, [],
      [.typeId, .resultId, .id, .scopeId, .memorySemanticsId, .memorySemanticsId, .id, .id]⟩
  | .opAtomicCompareExchangeWeak => ⟨"AtomicCompareExchangeWeak", 231, [.kernel],
      [.typeId, .resultId, .id, .scopeId, .memorySemanticsId, .memorySemanticsId, .id, .id]⟩
  | .opAtomicIIncrement => ⟨"AtomicIIncrement", 232, [],
      [.typeId, .resultId, .id, .scopeId, .memorySemanticsId]⟩
  | .opAtomicIDecrement => ⟨"AtomicIDecrement", 233, [],
      [.typeId, .resultId, .id, .scopeId, .memorySemanticsId]⟩
  | .opAtomicIAdd => ⟨"AtomicIAdd", 234, [],
      [.typeId, .resultId, .id, .scopeId, .memorySemanticsId, .id]⟩
  | .opAtomicISub => ⟨"AtomicISub", 235, [],
      [.typeId, .resultId, .id, .scopeId, .memorySemanticsId, .id]⟩
  | .opAtomicSMin => ⟨"AtomicSMin", 236, [],
      [.typeId, .resultId, .id, .scopeId, .memorySemanticsId, .id]⟩
  | .opAtomicUMin => ⟨"AtomicUMin", 237, [],
      [.typeId, .resultId, .id, .scopeId, .memorySemanticsId, .id]⟩
  | .opAtomicSMax => ⟨"AtomicSMax", 238, [],
      [.typeId, .resultId, .id, .scopeId, .memorySemanticsId, .id]⟩
  | .opAtomicUMax => ⟨"AtomicUMax", 239, [],
      [.typeId, .resultId, .id, .scopeId, .memorySemanticsId, .id]⟩
  | .opAtomicAnd => ⟨"AtomicAnd", 240, [],
      [.typeId, .resultId, .id, .scopeId, .memorySemanticsId, .id]⟩
  | .opAtomicOr => ⟨"AtomicOr", 241, [],
      [.typeId, .resultId, .id, .scopeId, .memorySemanticsId, .id]⟩
  | .opAtomicXor => ⟨"AtomicXor", 242, [],
      [.typeId, .resultId, .id, .scopeId, .memorySemanticsId, .id]⟩
  -- control flow
  | .opPhi => ⟨"Phi", 245, [], [.typeId, .resultId, .many .id]⟩
  | .opLoopMerge => ⟨"LoopMerge", 246, [], [.id, .id, .named .loopControl]⟩
  | .opSelectionMerge => ⟨"SelectionMerge", 247, [], [.id, .named .selectionControl]⟩
  | .opLabel => ⟨"Label", 248, [], [.resultId]⟩
  | .opBranch => ⟨"Branch", 249, [], [.id]⟩
  | .opBranchConditional => ⟨"BranchConditional", 250, [], [.id, .id, .id, .many .integer]⟩
  | .opSwitch => ⟨"Switch", 251, [], [.id, .id, .pairs .typedNumber .id]⟩
  | .opKill => ⟨"Kill", 252, [.shader], []⟩
  | .opReturn => ⟨"Return", 253, [], []⟩
  | .opReturnValue => ⟨"ReturnValue", 254, [], [.id]⟩
  | .opUnreachable => ⟨"Unreachable", 255, [], []⟩
  | .opLifetimeStart => ⟨"LifetimeStart", 256, [.kernel], [.id, .integer]⟩
  | .opLifetimeStop => ⟨"LifetimeStop", 257, [.kernel], [.id, .integer]⟩
  -- group operations
  | .opGroupAsyncCopy => ⟨"GroupAsyncCopy", 259, [.kernel],
      [.typeId, .resultId, .scopeId, .id, .id, .id, .id, .id]⟩
  | .opGroupWaitEvents => ⟨"GroupWaitEvents", 260, [.kernel], [.scopeId, .id, .id]⟩
  | .opGroupAll => ⟨"GroupAll", 261, [.groups], [.typeId, .resultId, .scopeId, .id]⟩
  | .opGroupAny => ⟨"GroupAny", 262, [.groups], [.typeId, .resultId, .scopeId, .id]⟩
  | .opGroupBroadcast => ⟨"GroupBroadcast", 263, [.groups],
      [.typeId, .resultId, .scopeId, .id, .id]⟩
  | .opGroupIAdd => ⟨"GroupIAdd", 264, [.groups],
      [.typeId, .resultId, .scopeId, .named .groupOperation, .id]⟩
  | .opGroupFAdd => ⟨"GroupFAdd", 265, [.groups],
      [.typeId, .resultId, .scopeId, .named .groupOperation, .id]⟩
  | .opGroupFMin => ⟨"GroupFMin", 266, [.groups],
      [.typeId, .resultId, .scopeId, .named .groupOperation, .id]⟩
  | .opGroupUMin => ⟨"GroupUMin", 267, [.groups],
      [.typeId, .resultId, .scopeId, .named .groupOperation, .id]⟩
  | .opGroupSMin => ⟨"GroupSMin", 268, [.groups],
      [.typeId, .resultId, .scopeId, .named .groupOperation, .id]⟩
  | .opGroupFMax => ⟨"GroupFMax", 269, [.groups],
      [.typeId, .resultId, .scopeId, .named .groupOperation, .id]⟩
  | .opGroupUMax => ⟨"GroupUMax", 270, [.groups],
      [.typeId, .resultId, .scopeId, .named .groupOperation, .id]⟩
  | .opGroupSMax => ⟨"GroupSMax", 271, [.groups],
      [.typeId, .resultId, .scopeId, .named .groupOperation, .id]⟩
  -- pipes
  | .opReadPipe => ⟨"ReadPipe", 274, [.pipes], [.typeId, .resultId, .id, .id, .id, .id]⟩
  | .opWritePipe => ⟨"WritePipe", 275, [.pipes], [.typeId, .resultId, .id, .id, .id, .id]⟩
  | .opReservedReadPipe => ⟨"ReservedReadPipe", 276, [.pipes],
      [.typeId, .resultId, .id, .id, .id, .id, .id, .id]⟩
  | .opReservedWritePipe => ⟨"ReservedWritePipe", 277, [.pipes],
      [.typeId, .resultId, .id, .id, .id, .id, .id, .id]⟩
  | .opReserveReadPipePackets => ⟨"ReserveReadPipePackets", 278, [.pipes],
      [.typeId, .resultId, .id, .id, .id, .id]⟩
  | .opReserveWritePipePackets => ⟨"ReserveWritePipePackets", 279, [.pipes],
      [.typeId, .resultId, .id, .id, .id, .id]⟩
  | .opCommitReadPipe => ⟨"CommitReadPipe", 280, [.pipes], [.id, .id, .id, .id]⟩
  | .opCommitWritePipe => ⟨"CommitWritePipe", 281, [.pipes], [.id, .id, .id, .id]⟩
  | .opIsValidReserveId => ⟨"IsValidReserveId", 282, [.pipes], [.typeId, .resultId, .id]⟩
  | .opGetNumPipePackets => ⟨"GetNumPipePackets", 283, [.pipes],
      [.typeId, .resultId, .id, .id, .id]⟩
  | .opGetMaxPipePackets => ⟨"GetMaxPipePackets", 284, [.pipes],
      [.typeId, .resultId, .id, .id, .id]⟩
  | .opGroupReserveReadPipePackets => ⟨"GroupReserveReadPipePackets", 285, [.pipes],
      [.typeId, .resultId, .scopeId, .id, .id, .id, .id]⟩
  | .opGroupReserveWritePipePackets => ⟨"GroupReserveWritePipePackets", 286, [.pipes],
      [.typeId, .resultId, .scopeId, .id, .id, .id, .id]⟩
  | .opGroupCommitReadPipe => ⟨"GroupCommitReadPipe", 287, [.pipes], [.scopeId, .id, .id, .id, .id]⟩
  | .opGroupCommitWritePipe => ⟨"GroupCommitWritePipe", 288, [.pipes],
      [.scopeId, .id, .id, .id, .id]⟩
  -- device-side enqueue
  | .opEnqueueMarker => ⟨"EnqueueMarker", 291, [.deviceEnqueue],
      [.typeId, .resultId, .id, .id, .id, .id]⟩
  | .opEnqueueKernel => ⟨"EnqueueKernel", 292, [.deviceEnqueue],
      [.typeId, .resultId, .id, .id, .id, .id, .id, .id, .id, .id, .id, .id, .many .id]⟩
  | .opGetKernelNDrangeSubGroupCount => ⟨"GetKernelNDrangeSubGroupCount", 293, [.deviceEnqueue],
      [.typeId, .resultId, .id, .id, .id, .id, .id]⟩
  | .opGetKernelNDrangeMaxSubGroupSize => ⟨"GetKernelNDrangeMaxSubGroupSize", 294, [.deviceEnqueue],
      [.typeId, .resultId, .id, .id, .id, .id, .id]⟩
  | .opGetKernelWorkGroupSize => ⟨"GetKernelWorkGroupSize", 295, [.deviceEnqueue],
      [.typeId, .resultId, .id, .id, .id, .id]⟩
  | .opGetKernelPreferredWorkGroupSizeMultiple => ⟨"GetKernelPreferredWorkGroupSizeMultiple", 296, [.deviceEnqueue],
      [.typeId, .resultId, .id, .id, .id, .id]⟩
  | .opRetainEvent => ⟨"RetainEvent", 297, [.deviceEnqueue], [.id]⟩
  | .opReleaseEvent => ⟨"ReleaseEvent", 298, [.deviceEnqueue], [.id]⟩
  | .opCreateUserEvent => ⟨"CreateUserEvent", 299, [.deviceEnqueue], [.typeId, .resultId]⟩
  | .opIsValidEvent => ⟨"IsValidEvent", 300, [.deviceEnqueue], [.typeId, .resultId, .id]⟩
  | .opSetUserEventStatus => ⟨"SetUserEventStatus", 301, [.deviceEnqueue], [.id, .id]⟩
  | .opCaptureEventProfilingInfo => ⟨"CaptureEventProfilingInfo", 302, [.deviceEnqueue],
      [.id, .id, .id]⟩
  | .opGetDefaultQueue => ⟨"GetDefaultQueue", 303, [.deviceEnqueue], [.typeId, .resultId]⟩
  | .opBuildNDRange => ⟨"BuildNDRange", 304, [.deviceEnqueue], [.typeId, .resultId, .id, .id, .id]⟩
  -- sparse images
  | .opImageSparseSampleImplicitLod => ⟨"ImageSparseSampleImplicitLod", 305, [.sparseResidency],
      [.typeId, .resultId, .id, .id, .optional (.named .imageOperands)]⟩
  | .opImageSparseSampleExplicitLod => ⟨"ImageSparseSampleExplicitLod", 306, [.sparseResidency],
      [.typeId, .resultId, .id, .id, .named .imageOperands]⟩
  | .opImageSparseSampleDrefImplicitLod => ⟨"ImageSparseSampleDrefImplicitLod", 307, [.sparseResidency],
      [.typeId, .resultId, .id, .id, .id, .optional (.named .imageOperands)]⟩
  | .opImageSparseSampleDrefExplicitLod => ⟨"ImageSparseSampleDrefExplicitLod", 308, [.sparseResidency],
      [.typeId, .resultId, .id, .id, .id, .named .imageOperands]⟩
  | .opImageSparseSampleProjImplicitLod => ⟨"ImageSparseSampleProjImplicitLod", 309, [.sparseResidency],
      [.typeId, .resultId, .id, .id, .optional (.named .imageOperands)]⟩
  | .opImageSparseSampleProjExplicitLod => ⟨"ImageSparseSampleProjExplicitLod", 310, [.sparseResidency],
      [.typeId, .resultId, .id, .id, .named .imageOperands]⟩
  | .opImageSparseSampleProjDrefImplicitLod => ⟨"ImageSparseSampleProjDrefImplicitLod", 311, [.sparseResidency],
      [.typeId, .resultId, .id, .id, .id, .optional (.named .imageOperands)]⟩
  | .opImageSparseSampleProjDrefExplicitLod => ⟨"ImageSparseSampleProjDrefExplicitLod", 312, [.sparseResidency],
      [.typeId, .resultId, .id, .id, .id, .named .imageOperands]⟩
  | .opImageSparseFetch => ⟨"ImageSparseFetch", 313, [.sparseResidency],
      [.typeId, .resultId, .id, .id, .optional (.named .imageOperands)]⟩
  | .opImageSparseGather => ⟨"ImageSparseGather", 314, [.sparseResidency],
      [.typeId, .resultId, .id, .id, .id, .optional (.named .imageOperands)]⟩
  | .opImageSparseDrefGather => ⟨"ImageSparseDrefGather", 315, [.sparseResidency],
      [.typeId, .resultId, .id, .id, .id, .optional (.named .imageOperands)]⟩
  | .opImageSparseTexelsResident => ⟨"ImageSparseTexelsResident", 316, [.sparseResidency],
      [.typeId, .resultId, .id]⟩
  | .opNoLine => ⟨"NoLine", 317, [], []⟩
  | .opAtomicFlagTestAndSet => ⟨"AtomicFlagTestAndSet", 318, [.kernel],
      [.typeId, .resultId, .id, .scopeId, .memorySemanticsId]⟩
  | .opAtomicFlagClear => ⟨"AtomicFlagClear", 319, [.kernel], [.id, .scopeId, .memorySemanticsId]⟩
  | .opImageSparseRead => ⟨"ImageSparseRead", 320, [.sparseResidency],
      [.typeId, .resultId, .id, .id, .optional (.named .imageOperands)]⟩

/-- The name without the leading `Op`. -/
def name (op : Opcode) : String := op.signature.name

def value (op : Opcode) : UInt16 := op.signature.value

def operands (op : Opcode) : List Slot := op.signature.operands

/-- The name as it is written in text. -/
def mnemonic (op : Opcode) : String := "Op" ++ op.name

def capabilities (op : Opcode) : CapabilitySet := .ofList op.signature.capabilities

def requiresCapability (op : Opcode) : Bool := !op.capabilities.isEmpty

def hasResult (op : Opcode) : Bool := op.operands.contains .resultId

def hasType (op : Opcode) : Bool := op.operands.contains .typeId

/-- The fewest words an instruction can have: its first word and one for each operand before the
first that may be absent. -/
def minWordCount (op : Opcode) : Nat :=
  1 + (op.operands.takeWhile (!·.isOptional)).length

/-- Whether some operand may be absent. -/
def hasOptionalOperands (op : Opcode) : Bool := op.operands.any (·.isOptional)

/-- The operands that follow the opcode when a constant is defined by it: all but its result type
and result id. -/
def constantOperands (op : Opcode) : List Slot :=
  op.operands.dropWhile fun slot => slot = .typeId || slot = .resultId

/-- Finds an opcode by its name without the leading `Op`. -/
def ofName? (name : String) : Option Opcode :=
  all.find? (·.name == name)

def ofValue? (value : UInt16) : Option Opcode :=
  all.find? (·.value == value)

end Opcode

end Spirv
