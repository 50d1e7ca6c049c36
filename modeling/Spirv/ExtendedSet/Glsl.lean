import Spirv.Operand.NamedValue

/-!
The extended instructions of `GLSL.std.450`.
-/

namespace Spirv.ExtendedSet

def glslInstructions : List NamedValue :=
  [⟨"Round", 1, [], [.id]⟩,
   ⟨"RoundEven", 2, [], [.id]⟩,
   ⟨"Trunc", 3, [], [.id]⟩,
   ⟨"FAbs", 4, [], [.id]⟩,
   ⟨"SAbs", 5, [], [.id]⟩,
   ⟨"FSign", 6, [], [.id]⟩,
   ⟨"SSign", 7, [], [.id]⟩,
   ⟨"Floor", 8, [], [.id]⟩,
   ⟨"Ceil", 9, [], [.id]⟩,
   ⟨"Fract", 10, [], [.id]⟩,
   ⟨"Radians", 11, [], [.id]⟩,
   ⟨"Degrees", 12, [], [.id]⟩,
   ⟨"Sin", 13, [], [.id]⟩,
   ⟨"Cos", 14, [], [.id]⟩,
   ⟨"Tan", 15, [], [.id]⟩,
   ⟨"Asin", 16, [], [.id]⟩,
   ⟨"Acos", 17, [], [.id]⟩,
   ⟨"Atan", 18, [], [.id]⟩,
   ⟨"Sinh", 19, [], [.id]⟩,
   ⟨"Cosh", 20, [], [.id]⟩,
   ⟨"Tanh", 21, [], [.id]⟩,
   ⟨"Asinh", 22, [], [.id]⟩,
   ⟨"Acosh", 23, [], [.id]⟩,
   ⟨"Atanh", 24, [], [.id]⟩,
   ⟨"Atan2", 25, [], [.id, .id]⟩,
   ⟨"Pow", 26, [], [.id, .id]⟩,
   ⟨"Exp", 27, [], [.id]⟩,
   ⟨"Log", 28, [], [.id]⟩,
   ⟨"Exp2", 29, [], [.id]⟩,
   ⟨"Log2", 30, [], [.id]⟩,
   ⟨"Sqrt", 31, [], [.id]⟩,
   ⟨"InverseSqrt", 32, [], [.id]⟩,
   ⟨"Determinant", 33, [], [.id]⟩,
   ⟨"MatrixInverse", 34, [], [.id]⟩,
   ⟨"Modf", 35, [], [.id, .id]⟩,
   ⟨"ModfStruct", 36, [], [.id]⟩,
   ⟨"FMin", 37, [], [.id, .id]⟩,
   ⟨"UMin", 38, [], [.id, .id]⟩,
   ⟨"SMin", 39, [], [.id, .id]⟩,
   ⟨"FMax", 40, [], [.id, .id]⟩,
   ⟨"UMax", 41, [], [.id, .id]⟩,
   ⟨"SMax", 42, [], [.id, .id]⟩,
   ⟨"FClamp", 43, [], [.id, .id, .id]⟩,
   ⟨"UClamp", 44, [], [.id, .id, .id]⟩,
   ⟨"SClamp", 45, [], [.id, .id, .id]⟩,
   ⟨"FMix", 46, [], [.id, .id, .id]⟩,
   ⟨"IMix", 47, [], [.id, .id, .id]⟩,
   ⟨"Step", 48, [], [.id, .id]⟩,
   ⟨"SmoothStep", 49, [], [.id, .id, .id]⟩,
   ⟨"Fma", 50, [], [.id, .id, .id]⟩,
   ⟨"Frexp", 51, [], [.id, .id]⟩,
   ⟨"FrexpStruct", 52, [], [.id]⟩,
   ⟨"Ldexp", 53, [], [.id, .id]⟩,
   ⟨"PackSnorm4x8", 54, [], [.id]⟩,
   ⟨"PackUnorm4x8", 55, [], [.id]⟩,
   ⟨"PackSnorm2x16", 56, [], [.id]⟩,
   ⟨"PackUnorm2x16", 57, [], [.id]⟩,
   ⟨"PackHalf2x16", 58, [], [.id]⟩,
   ⟨"PackDouble2x32", 59, [.float64], [.id]⟩,
   ⟨"UnpackSnorm2x16", 60, [], [.id]⟩,
   ⟨"UnpackUnorm2x16", 61, [], [.id]⟩,
   ⟨"UnpackHalf2x16", 62, [], [.id]⟩,
   ⟨"UnpackSnorm4x8", 63, [], [.id]⟩,
   ⟨"UnpackUnorm4x8", 64, [], [.id]⟩,
   ⟨"UnpackDouble2x32", 65, [.float64], [.id]⟩,
   ⟨"Length", 66, [], [.id]⟩,
   ⟨"Distance", 67, [], [.id, .id]⟩,
   ⟨"Cross", 68, [], [.id, .id]⟩,
   ⟨"Normalize", 69, [], [.id]⟩,
   ⟨"FaceForward", 70, [], [.id, .id, .id]⟩,
   ⟨"Reflect", 71, [], [.id, .id]⟩,
   ⟨"Refract", 72, [], [.id, .id, .id]⟩,
   ⟨"FindILsb", 73, [], [.id]⟩,
   ⟨"FindSMsb", 74, [], [.id]⟩,
   ⟨"FindUMsb", 75, [], [.id]⟩,
   ⟨"InterpolateAtCentroid", 76, [.interpolationFunction], [.id]⟩,
   ⟨"InterpolateAtSample", 77, [.interpolationFunction], [.id, .id]⟩,
   ⟨"InterpolateAtOffset", 78, [.interpolationFunction], [.id, .id]⟩,
   ⟨"NMin", 79, [], [.id, .id]⟩,
   ⟨"NMax", 80, [], [.id, .id]⟩,
   ⟨"NClamp", 81, [], [.id, .id, .id]⟩]

end Spirv.ExtendedSet
