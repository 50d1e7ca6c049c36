/-!
The opcodes of the core instruction set.
-/

namespace Spirv

inductive Opcode where
  -- miscellaneous, debug and annotation
  | opNop | opUndef | opSourceContinued | opSource | opSourceExtension | opName | opMemberName
  | opString | opLine | opExtension | opExtInstImport | opExtInst | opMemoryModel | opEntryPoint
  | opExecutionMode | opCapability
  -- type declarations
  | opTypeVoid | opTypeBool | opTypeInt | opTypeFloat | opTypeVector | opTypeMatrix | opTypeImage
  | opTypeSampler | opTypeSampledImage | opTypeArray | opTypeRuntimeArray | opTypeStruct
  | opTypeOpaque | opTypePointer | opTypeFunction | opTypeEvent | opTypeDeviceEvent
  | opTypeReserveId | opTypeQueue | opTypePipe | opTypeForwardPointer
  -- constants
  | opConstantTrue | opConstantFalse | opConstant | opConstantComposite | opConstantSampler
  | opConstantNull | opSpecConstantTrue | opSpecConstantFalse | opSpecConstant
  | opSpecConstantComposite | opSpecConstantOp
  -- functions
  | opFunction | opFunctionParameter | opFunctionEnd | opFunctionCall
  -- memory
  | opVariable | opImageTexelPointer | opLoad | opStore | opCopyMemory | opCopyMemorySized
  | opAccessChain | opInBoundsAccessChain | opPtrAccessChain | opArrayLength
  | opGenericPtrMemSemantics | opInBoundsPtrAccessChain
  -- decorations
  | opDecorate | opMemberDecorate | opDecorationGroup | opGroupDecorate | opGroupMemberDecorate
  -- composites
  | opVectorExtractDynamic | opVectorInsertDynamic | opVectorShuffle | opCompositeConstruct
  | opCompositeExtract | opCompositeInsert | opCopyObject | opTranspose
  -- images
  | opSampledImage | opImageSampleImplicitLod | opImageSampleExplicitLod
  | opImageSampleDrefImplicitLod | opImageSampleDrefExplicitLod | opImageSampleProjImplicitLod
  | opImageSampleProjExplicitLod | opImageSampleProjDrefImplicitLod
  | opImageSampleProjDrefExplicitLod | opImageFetch | opImageGather | opImageDrefGather
  | opImageRead | opImageWrite | opImage | opImageQueryFormat | opImageQueryOrder
  | opImageQuerySizeLod | opImageQuerySize | opImageQueryLod | opImageQueryLevels
  | opImageQuerySamples
  -- conversions
  | opConvertFToU | opConvertFToS | opConvertSToF | opConvertUToF | opUConvert | opSConvert
  | opFConvert | opQuantizeToF16 | opConvertPtrToU | opSatConvertSToU | opSatConvertUToS
  | opConvertUToPtr | opPtrCastToGeneric | opGenericCastToPtr | opGenericCastToPtrExplicit
  | opBitcast
  -- arithmetic
  | opSNegate | opFNegate | opIAdd | opFAdd | opISub | opFSub | opIMul | opFMul | opUDiv | opSDiv
  | opFDiv | opUMod | opSRem | opSMod | opFRem | opFMod | opVectorTimesScalar | opMatrixTimesScalar
  | opVectorTimesMatrix | opMatrixTimesVector | opMatrixTimesMatrix | opOuterProduct | opDot
  | opIAddCarry | opISubBorrow | opUMulExtended | opSMulExtended
  -- relational and logical
  | opAny | opAll | opIsNan | opIsInf | opIsFinite | opIsNormal | opSignBitSet | opLessOrGreater
  | opOrdered | opUnordered | opLogicalEqual | opLogicalNotEqual | opLogicalOr | opLogicalAnd
  | opLogicalNot | opSelect | opIEqual | opINotEqual | opUGreaterThan | opSGreaterThan
  | opUGreaterThanEqual | opSGreaterThanEqual | opULessThan | opSLessThan | opULessThanEqual
  | opSLessThanEqual | opFOrdEqual | opFUnordEqual | opFOrdNotEqual | opFUnordNotEqual
  | opFOrdLessThan | opFUnordLessThan | opFOrdGreaterThan | opFUnordGreaterThan
  | opFOrdLessThanEqual | opFUnordLessThanEqual | opFOrdGreaterThanEqual | opFUnordGreaterThanEqual
  -- bit operations
  | opShiftRightLogical | opShiftRightArithmetic | opShiftLeftLogical | opBitwiseOr | opBitwiseXor
  | opBitwiseAnd | opNot | opBitFieldInsert | opBitFieldSExtract | opBitFieldUExtract
  | opBitReverse | opBitCount
  -- derivatives
  | opDPdx | opDPdy | opFwidth | opDPdxFine | opDPdyFine | opFwidthFine | opDPdxCoarse
  | opDPdyCoarse | opFwidthCoarse
  -- primitives and barriers
  | opEmitVertex | opEndPrimitive | opEmitStreamVertex | opEndStreamPrimitive | opControlBarrier
  | opMemoryBarrier
  -- atomics
  | opAtomicLoad | opAtomicStore | opAtomicExchange | opAtomicCompareExchange
  | opAtomicCompareExchangeWeak | opAtomicIIncrement | opAtomicIDecrement | opAtomicIAdd
  | opAtomicISub | opAtomicSMin | opAtomicUMin | opAtomicSMax | opAtomicUMax | opAtomicAnd
  | opAtomicOr | opAtomicXor
  -- control flow
  | opPhi | opLoopMerge | opSelectionMerge | opLabel | opBranch | opBranchConditional | opSwitch
  | opKill | opReturn | opReturnValue | opUnreachable | opLifetimeStart | opLifetimeStop
  -- group operations
  | opGroupAsyncCopy | opGroupWaitEvents | opGroupAll | opGroupAny | opGroupBroadcast | opGroupIAdd
  | opGroupFAdd | opGroupFMin | opGroupUMin | opGroupSMin | opGroupFMax | opGroupUMax | opGroupSMax
  -- pipes
  | opReadPipe | opWritePipe | opReservedReadPipe | opReservedWritePipe | opReserveReadPipePackets
  | opReserveWritePipePackets | opCommitReadPipe | opCommitWritePipe | opIsValidReserveId
  | opGetNumPipePackets | opGetMaxPipePackets | opGroupReserveReadPipePackets
  | opGroupReserveWritePipePackets | opGroupCommitReadPipe | opGroupCommitWritePipe
  -- device-side enqueue
  | opEnqueueMarker | opEnqueueKernel | opGetKernelNDrangeSubGroupCount
  | opGetKernelNDrangeMaxSubGroupSize | opGetKernelWorkGroupSize
  | opGetKernelPreferredWorkGroupSizeMultiple | opRetainEvent | opReleaseEvent | opCreateUserEvent
  | opIsValidEvent | opSetUserEventStatus | opCaptureEventProfilingInfo | opGetDefaultQueue
  | opBuildNDRange
  -- sparse images
  | opImageSparseSampleImplicitLod | opImageSparseSampleExplicitLod
  | opImageSparseSampleDrefImplicitLod | opImageSparseSampleDrefExplicitLod
  | opImageSparseSampleProjImplicitLod | opImageSparseSampleProjExplicitLod
  | opImageSparseSampleProjDrefImplicitLod | opImageSparseSampleProjDrefExplicitLod
  | opImageSparseFetch | opImageSparseGather | opImageSparseDrefGather
  | opImageSparseTexelsResident | opNoLine | opAtomicFlagTestAndSet | opAtomicFlagClear
  | opImageSparseRead
  deriving DecidableEq

namespace Opcode

/-- Every opcode, in increasing order of value. -/
def all : List Opcode :=
  [.opNop, .opUndef, .opSourceContinued, .opSource, .opSourceExtension, .opName, .opMemberName,
   .opString, .opLine, .opExtension, .opExtInstImport, .opExtInst, .opMemoryModel, .opEntryPoint,
   .opExecutionMode, .opCapability, .opTypeVoid, .opTypeBool, .opTypeInt, .opTypeFloat,
   .opTypeVector, .opTypeMatrix, .opTypeImage, .opTypeSampler, .opTypeSampledImage, .opTypeArray,
   .opTypeRuntimeArray, .opTypeStruct, .opTypeOpaque, .opTypePointer, .opTypeFunction,
   .opTypeEvent, .opTypeDeviceEvent, .opTypeReserveId, .opTypeQueue, .opTypePipe,
   .opTypeForwardPointer, .opConstantTrue, .opConstantFalse, .opConstant, .opConstantComposite,
   .opConstantSampler, .opConstantNull, .opSpecConstantTrue, .opSpecConstantFalse, .opSpecConstant,
   .opSpecConstantComposite, .opSpecConstantOp, .opFunction, .opFunctionParameter, .opFunctionEnd,
   .opFunctionCall, .opVariable, .opImageTexelPointer, .opLoad, .opStore, .opCopyMemory,
   .opCopyMemorySized, .opAccessChain, .opInBoundsAccessChain, .opPtrAccessChain, .opArrayLength,
   .opGenericPtrMemSemantics, .opInBoundsPtrAccessChain, .opDecorate, .opMemberDecorate,
   .opDecorationGroup, .opGroupDecorate, .opGroupMemberDecorate, .opVectorExtractDynamic,
   .opVectorInsertDynamic, .opVectorShuffle, .opCompositeConstruct, .opCompositeExtract,
   .opCompositeInsert, .opCopyObject, .opTranspose, .opSampledImage, .opImageSampleImplicitLod,
   .opImageSampleExplicitLod, .opImageSampleDrefImplicitLod, .opImageSampleDrefExplicitLod,
   .opImageSampleProjImplicitLod, .opImageSampleProjExplicitLod, .opImageSampleProjDrefImplicitLod,
   .opImageSampleProjDrefExplicitLod, .opImageFetch, .opImageGather, .opImageDrefGather,
   .opImageRead, .opImageWrite, .opImage, .opImageQueryFormat, .opImageQueryOrder,
   .opImageQuerySizeLod, .opImageQuerySize, .opImageQueryLod, .opImageQueryLevels,
   .opImageQuerySamples, .opConvertFToU, .opConvertFToS, .opConvertSToF, .opConvertUToF,
   .opUConvert, .opSConvert, .opFConvert, .opQuantizeToF16, .opConvertPtrToU, .opSatConvertSToU,
   .opSatConvertUToS, .opConvertUToPtr, .opPtrCastToGeneric, .opGenericCastToPtr,
   .opGenericCastToPtrExplicit, .opBitcast, .opSNegate, .opFNegate, .opIAdd, .opFAdd, .opISub,
   .opFSub, .opIMul, .opFMul, .opUDiv, .opSDiv, .opFDiv, .opUMod, .opSRem, .opSMod, .opFRem,
   .opFMod, .opVectorTimesScalar, .opMatrixTimesScalar, .opVectorTimesMatrix, .opMatrixTimesVector,
   .opMatrixTimesMatrix, .opOuterProduct, .opDot, .opIAddCarry, .opISubBorrow, .opUMulExtended,
   .opSMulExtended, .opAny, .opAll, .opIsNan, .opIsInf, .opIsFinite, .opIsNormal, .opSignBitSet,
   .opLessOrGreater, .opOrdered, .opUnordered, .opLogicalEqual, .opLogicalNotEqual, .opLogicalOr,
   .opLogicalAnd, .opLogicalNot, .opSelect, .opIEqual, .opINotEqual, .opUGreaterThan,
   .opSGreaterThan, .opUGreaterThanEqual, .opSGreaterThanEqual, .opULessThan, .opSLessThan,
   .opULessThanEqual, .opSLessThanEqual, .opFOrdEqual, .opFUnordEqual, .opFOrdNotEqual,
   .opFUnordNotEqual, .opFOrdLessThan, .opFUnordLessThan, .opFOrdGreaterThan, .opFUnordGreaterThan,
   .opFOrdLessThanEqual, .opFUnordLessThanEqual, .opFOrdGreaterThanEqual,
   .opFUnordGreaterThanEqual, .opShiftRightLogical, .opShiftRightArithmetic, .opShiftLeftLogical,
   .opBitwiseOr, .opBitwiseXor, .opBitwiseAnd, .opNot, .opBitFieldInsert, .opBitFieldSExtract,
   .opBitFieldUExtract, .opBitReverse, .opBitCount, .opDPdx, .opDPdy, .opFwidth, .opDPdxFine,
   .opDPdyFine, .opFwidthFine, .opDPdxCoarse, .opDPdyCoarse, .opFwidthCoarse, .opEmitVertex,
   .opEndPrimitive, .opEmitStreamVertex, .opEndStreamPrimitive, .opControlBarrier,
   .opMemoryBarrier, .opAtomicLoad, .opAtomicStore, .opAtomicExchange, .opAtomicCompareExchange,
   .opAtomicCompareExchangeWeak, .opAtomicIIncrement, .opAtomicIDecrement, .opAtomicIAdd,
   .opAtomicISub, .opAtomicSMin, .opAtomicUMin, .opAtomicSMax, .opAtomicUMax, .opAtomicAnd,
   .opAtomicOr, .opAtomicXor, .opPhi, .opLoopMerge, .opSelectionMerge, .opLabel, .opBranch,
   .opBranchConditional, .opSwitch, .opKill, .opReturn, .opReturnValue, .opUnreachable,
   .opLifetimeStart, .opLifetimeStop, .opGroupAsyncCopy, .opGroupWaitEvents, .opGroupAll,
   .opGroupAny, .opGroupBroadcast, .opGroupIAdd, .opGroupFAdd, .opGroupFMin, .opGroupUMin,
   .opGroupSMin, .opGroupFMax, .opGroupUMax, .opGroupSMax, .opReadPipe, .opWritePipe,
   .opReservedReadPipe, .opReservedWritePipe, .opReserveReadPipePackets,
   .opReserveWritePipePackets, .opCommitReadPipe, .opCommitWritePipe, .opIsValidReserveId,
   .opGetNumPipePackets, .opGetMaxPipePackets, .opGroupReserveReadPipePackets,
   .opGroupReserveWritePipePackets, .opGroupCommitReadPipe, .opGroupCommitWritePipe,
   .opEnqueueMarker, .opEnqueueKernel, .opGetKernelNDrangeSubGroupCount,
   .opGetKernelNDrangeMaxSubGroupSize, .opGetKernelWorkGroupSize,
   .opGetKernelPreferredWorkGroupSizeMultiple, .opRetainEvent, .opReleaseEvent, .opCreateUserEvent,
   .opIsValidEvent, .opSetUserEventStatus, .opCaptureEventProfilingInfo, .opGetDefaultQueue,
   .opBuildNDRange, .opImageSparseSampleImplicitLod, .opImageSparseSampleExplicitLod,
   .opImageSparseSampleDrefImplicitLod, .opImageSparseSampleDrefExplicitLod,
   .opImageSparseSampleProjImplicitLod, .opImageSparseSampleProjExplicitLod,
   .opImageSparseSampleProjDrefImplicitLod, .opImageSparseSampleProjDrefExplicitLod,
   .opImageSparseFetch, .opImageSparseGather, .opImageSparseDrefGather,
   .opImageSparseTexelsResident, .opNoLine, .opAtomicFlagTestAndSet, .opAtomicFlagClear,
   .opImageSparseRead]

end Opcode

end Spirv
