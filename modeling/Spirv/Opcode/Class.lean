import Spirv.Opcode.Signature

/-!
Classes of opcodes.
-/

namespace Spirv.Opcode

/-- Whether the result of the opcode is a type. A forward pointer only names one. -/
def isTypeDeclaration : Opcode → Bool
  | opTypeVoid | opTypeBool | opTypeInt | opTypeFloat | opTypeVector | opTypeMatrix | opTypeImage
  | opTypeSampler | opTypeSampledImage | opTypeArray | opTypeRuntimeArray | opTypeStruct
  | opTypeOpaque | opTypePointer | opTypeFunction | opTypeEvent | opTypeDeviceEvent
  | opTypeReserveId | opTypeQueue | opTypePipe => true
  | _ => false

def isScalarType : Opcode → Bool
  | opTypeInt | opTypeFloat => true
  | _ => false

def isCompositeType : Opcode → Bool
  | opTypeVector | opTypeMatrix | opTypeArray | opTypeStruct => true
  | _ => false

/-- Whether a null constant may have a type that the opcode declares, composites aside. -/
def isNullableBasicType : Opcode → Bool
  | opTypeBool | opTypeInt | opTypeFloat | opTypePointer | opTypeEvent | opTypeDeviceEvent
  | opTypeReserveId | opTypeQueue => true
  | _ => false

/-- Whether the opcode declares a constant. One that is computed does not count. -/
def isConstant : Opcode → Bool
  | opConstantTrue | opConstantFalse | opConstant | opConstantComposite | opConstantSampler
  | opConstantNull | opSpecConstantTrue | opSpecConstantFalse | opSpecConstant
  | opSpecConstantComposite => true
  | _ => false

def isPointer : Opcode → Bool
  | opVariable | opAccessChain | opInBoundsAccessChain | opFunctionParameter => true
  | _ => false

/-- Whether the result is the outcome of a conversion, a composite, an arithmetic, logical or
derivative instruction, or the opcode returns a value. -/
def isComputation : Opcode → Bool
  | opConvertFToU | opConvertFToS | opConvertSToF | opConvertUToF | opUConvert | opSConvert
  | opFConvert | opConvertPtrToU | opPtrCastToGeneric | opBitcast | opSatConvertSToU
  | opSatConvertUToS
  | opVectorExtractDynamic | opCompositeConstruct | opCompositeExtract | opCopyObject | opTranspose
  | opSNegate | opFNegate | opNot | opIAdd | opFAdd | opISub | opFSub | opIMul | opFMul | opUDiv
  | opSDiv | opFDiv | opUMod | opSRem | opSMod | opVectorTimesScalar | opMatrixTimesScalar
  | opVectorTimesMatrix | opMatrixTimesVector | opMatrixTimesMatrix | opOuterProduct | opDot
  | opShiftRightLogical | opShiftRightArithmetic | opShiftLeftLogical | opBitwiseOr | opBitwiseXor
  | opBitwiseAnd
  | opAny | opAll | opIsNan | opIsInf | opIsFinite | opIsNormal | opSignBitSet | opLessOrGreater
  | opOrdered | opUnordered | opLogicalOr | opLogicalAnd | opSelect | opIEqual | opFOrdEqual
  | opFUnordEqual | opINotEqual | opFOrdNotEqual | opFUnordNotEqual | opULessThan | opSLessThan
  | opFOrdLessThan | opFUnordLessThan | opUGreaterThan | opSGreaterThan | opFOrdGreaterThan
  | opFUnordGreaterThan | opULessThanEqual | opSLessThanEqual | opFOrdLessThanEqual
  | opFUnordLessThanEqual | opUGreaterThanEqual | opSGreaterThanEqual | opFOrdGreaterThanEqual
  | opFUnordGreaterThanEqual
  | opDPdx | opDPdy | opFwidth | opDPdxFine | opDPdyFine | opFwidthFine | opDPdxCoarse
  | opDPdyCoarse | opFwidthCoarse
  | opReturnValue => true
  | _ => false

/-- Whether the result is an object: a constant other than a sampler, a pointer to storage, or
something computed. -/
def isObject (op : Opcode) : Bool :=
  (op.isConstant && op ≠ opConstantSampler) || (op.isPointer && op ≠ opFunctionParameter)
    || op.isComputation

/-- Whether the opcode has a result and a type for it. -/
def isValue (op : Opcode) : Bool := op.hasResult && op.hasType

def isBranch : Opcode → Bool
  | opBranch | opBranchConditional | opSwitch => true
  | _ => false

def isReturn : Opcode → Bool
  | opReturn | opReturnValue => true
  | _ => false

/-- Whether the opcode ends a basic block. -/
def isTerminator (op : Opcode) : Bool :=
  op.isBranch || op.isReturn || op = opKill || op = opUnreachable

end Spirv.Opcode
