import Spirv.Operand.NamedValue

/-!
The extended instructions of `OpenCL.std`.
-/

namespace Spirv.ExtendedSet

def openClInstructions : List NamedValue :=
  [⟨"acos", 0, [], [.id]⟩,
   ⟨"acosh", 1, [], [.id]⟩,
   ⟨"acospi", 2, [], [.id]⟩,
   ⟨"asin", 3, [], [.id]⟩,
   ⟨"asinh", 4, [], [.id]⟩,
   ⟨"asinpi", 5, [], [.id]⟩,
   ⟨"atan", 6, [], [.id]⟩,
   ⟨"atan2", 7, [], [.id, .id]⟩,
   ⟨"atanh", 8, [], [.id]⟩,
   ⟨"atanpi", 9, [], [.id]⟩,
   ⟨"atan2pi", 10, [], [.id, .id]⟩,
   ⟨"cbrt", 11, [], [.id]⟩,
   ⟨"ceil", 12, [], [.id]⟩,
   ⟨"copysign", 13, [], [.id, .id]⟩,
   ⟨"cos", 14, [], [.id]⟩,
   ⟨"cosh", 15, [], [.id]⟩,
   ⟨"cospi", 16, [], [.id]⟩,
   ⟨"erfc", 17, [], [.id]⟩,
   ⟨"erf", 18, [], [.id]⟩,
   ⟨"exp", 19, [], [.id]⟩,
   ⟨"exp2", 20, [], [.id]⟩,
   ⟨"exp10", 21, [], [.id]⟩,
   ⟨"expm1", 22, [], [.id]⟩,
   ⟨"fabs", 23, [], [.id]⟩,
   ⟨"fdim", 24, [], [.id, .id]⟩,
   ⟨"floor", 25, [], [.id]⟩,
   ⟨"fma", 26, [], [.id, .id, .id]⟩,
   ⟨"fmax", 27, [], [.id, .id]⟩,
   ⟨"fmin", 28, [], [.id, .id]⟩,
   ⟨"fmod", 29, [], [.id, .id]⟩,
   ⟨"fract", 30, [], [.id, .id]⟩,
   ⟨"frexp", 31, [], [.id, .id]⟩,
   ⟨"hypot", 32, [], [.id, .id]⟩,
   ⟨"ilogb", 33, [], [.id]⟩,
   ⟨"ldexp", 34, [], [.id, .id]⟩,
   ⟨"lgamma", 35, [], [.id]⟩,
   ⟨"lgamma_r", 36, [], [.id, .id]⟩,
   ⟨"log", 37, [], [.id]⟩,
   ⟨"log2", 38, [], [.id]⟩,
   ⟨"log10", 39, [], [.id]⟩,
   ⟨"log1p", 40, [], [.id]⟩,
   ⟨"logb", 41, [], [.id]⟩,
   ⟨"mad", 42, [], [.id, .id, .id]⟩,
   ⟨"maxmag", 43, [], [.id, .id]⟩,
   ⟨"minmag", 44, [], [.id, .id]⟩,
   ⟨"modf", 45, [], [.id, .id]⟩,
   ⟨"nan", 46, [], [.id]⟩,
   ⟨"nextafter", 47, [], [.id, .id]⟩,
   ⟨"pow", 48, [], [.id, .id]⟩,
   ⟨"pown", 49, [], [.id, .id]⟩,
   ⟨"powr", 50, [], [.id, .id]⟩,
   ⟨"remainder", 51, [], [.id, .id]⟩,
   ⟨"remquo", 52, [], [.id, .id, .id]⟩,
   ⟨"rint", 53, [], [.id]⟩,
   ⟨"rootn", 54, [], [.id, .id]⟩,
   ⟨"round", 55, [], [.id]⟩,
   ⟨"rsqrt", 56, [], [.id]⟩,
   ⟨"sin", 57, [], [.id]⟩,
   ⟨"sincos", 58, [], [.id, .id]⟩,
   ⟨"sinh", 59, [], [.id]⟩,
   ⟨"sinpi", 60, [], [.id]⟩,
   ⟨"sqrt", 61, [], [.id]⟩,
   ⟨"tan", 62, [], [.id]⟩,
   ⟨"tanh", 63, [], [.id]⟩,
   ⟨"tanpi", 64, [], [.id]⟩,
   ⟨"tgamma", 65, [], [.id]⟩,
   ⟨"trunc", 66, [], [.id]⟩,
   ⟨"half_cos", 67, [], [.id]⟩,
   ⟨"half_divide", 68, [], [.id, .id]⟩,
   ⟨"half_exp", 69, [], [.id]⟩,
   ⟨"half_exp2", 70, [], [.id]⟩,
   ⟨"half_exp10", 71, [], [.id]⟩,
   ⟨"half_log", 72, [], [.id]⟩,
   ⟨"half_log2", 73, [], [.id]⟩,
   ⟨"half_log10", 74, [], [.id]⟩,
   ⟨"half_powr", 75, [], [.id, .id]⟩,
   ⟨"half_recip", 76, [], [.id]⟩,
   ⟨"half_rsqrt", 77, [], [.id]⟩,
   ⟨"half_sin", 78, [], [.id]⟩,
   ⟨"half_sqrt", 79, [], [.id]⟩,
   ⟨"half_tan", 80, [], [.id]⟩,
   ⟨"native_cos", 81, [], [.id]⟩,
   ⟨"native_divide", 82, [], [.id, .id]⟩,
   ⟨"native_exp", 83, [], [.id]⟩,
   ⟨"native_exp2", 84, [], [.id]⟩,
   ⟨"native_exp10", 85, [], [.id]⟩,
   ⟨"native_log", 86, [], [.id]⟩,
   ⟨"native_log2", 87, [], [.id]⟩,
   ⟨"native_log10", 88, [], [.id]⟩,
   ⟨"native_powr", 89, [], [.id, .id]⟩,
   ⟨"native_recip", 90, [], [.id]⟩,
   ⟨"native_rsqrt", 91, [], [.id]⟩,
   ⟨"native_sin", 92, [], [.id]⟩,
   ⟨"native_sqrt", 93, [], [.id]⟩,
   ⟨"native_tan", 94, [], [.id]⟩,
   ⟨"fclamp", 95, [], [.id, .id, .id]⟩,
   ⟨"degrees", 96, [], [.id]⟩,
   ⟨"fmax_common", 97, [], [.id, .id]⟩,
   ⟨"fmin_common", 98, [], [.id, .id]⟩,
   ⟨"mix", 99, [], [.id, .id, .id]⟩,
   ⟨"radians", 100, [], [.id]⟩,
   ⟨"step", 101, [], [.id, .id]⟩,
   ⟨"smoothstep", 102, [], [.id, .id, .id]⟩,
   ⟨"sign", 103, [], [.id]⟩,
   ⟨"cross", 104, [], [.id, .id]⟩,
   ⟨"distance", 105, [], [.id, .id]⟩,
   ⟨"length", 106, [], [.id]⟩,
   ⟨"normalize", 107, [], [.id]⟩,
   ⟨"fast_distance", 108, [], [.id, .id]⟩,
   ⟨"fast_length", 109, [], [.id]⟩,
   ⟨"fast_normalize", 110, [], [.id]⟩,
   ⟨"s_abs", 141, [], [.id]⟩,
   ⟨"s_abs_diff", 142, [], [.id, .id]⟩,
   ⟨"s_add_sat", 143, [], [.id, .id]⟩,
   ⟨"u_add_sat", 144, [], [.id, .id]⟩,
   ⟨"s_hadd", 145, [], [.id, .id]⟩,
   ⟨"u_hadd", 146, [], [.id, .id]⟩,
   ⟨"s_rhadd", 147, [], [.id, .id]⟩,
   ⟨"u_rhadd", 148, [], [.id, .id]⟩,
   ⟨"s_clamp", 149, [], [.id, .id, .id]⟩,
   ⟨"u_clamp", 150, [], [.id, .id, .id]⟩,
   ⟨"clz", 151, [], [.id]⟩,
   ⟨"ctz", 152, [], [.id]⟩,
   ⟨"s_mad_hi", 153, [], [.id, .id, .id]⟩,
   ⟨"u_mad_sat", 154, [], [.id, .id, .id]⟩,
   ⟨"s_mad_sat", 155, [], [.id, .id, .id]⟩,
   ⟨"s_max", 156, [], [.id, .id]⟩,
   ⟨"u_max", 157, [], [.id, .id]⟩,
   ⟨"s_min", 158, [], [.id, .id]⟩,
   ⟨"u_min", 159, [], [.id, .id]⟩,
   ⟨"s_mul_hi", 160, [], [.id, .id]⟩,
   ⟨"rotate", 161, [], [.id, .id]⟩,
   ⟨"s_sub_sat", 162, [], [.id, .id]⟩,
   ⟨"u_sub_sat", 163, [], [.id, .id]⟩,
   ⟨"u_upsample", 164, [], [.id, .id]⟩,
   ⟨"s_upsample", 165, [], [.id, .id]⟩,
   ⟨"popcount", 166, [], [.id]⟩,
   ⟨"s_mad24", 167, [], [.id, .id, .id]⟩,
   ⟨"u_mad24", 168, [], [.id, .id, .id]⟩,
   ⟨"s_mul24", 169, [], [.id, .id]⟩,
   ⟨"u_mul24", 170, [], [.id, .id]⟩,
   ⟨"vloadn", 171, [], [.id, .id, .integer]⟩,
   ⟨"vstoren", 172, [], [.id, .id, .id]⟩,
   ⟨"vload_half", 173, [], [.id, .id]⟩,
   ⟨"vload_halfn", 174, [], [.id, .id, .integer]⟩,
   ⟨"vstore_half", 175, [], [.id, .id, .id]⟩,
   ⟨"vstore_half_r", 176, [], [.id, .id, .id, .named .fpRoundingMode]⟩,
   ⟨"vstore_halfn", 177, [], [.id, .id, .id]⟩,
   ⟨"vstore_halfn_r", 178, [], [.id, .id, .id, .named .fpRoundingMode]⟩,
   ⟨"vloada_halfn", 179, [], [.id, .id, .integer]⟩,
   ⟨"vstorea_halfn", 180, [], [.id, .id, .id]⟩,
   ⟨"vstorea_halfn_r", 181, [], [.id, .id, .id, .named .fpRoundingMode]⟩,
   ⟨"shuffle", 182, [], [.id, .id]⟩,
   ⟨"shuffle2", 183, [], [.id, .id, .id]⟩,
   ⟨"printf", 184, [], [.id, .many .id]⟩,
   ⟨"prefetch", 185, [], [.id, .id]⟩,
   ⟨"bitselect", 186, [], [.id, .id, .id]⟩,
   ⟨"select", 187, [], [.id, .id, .id]⟩,
   ⟨"u_abs", 201, [], [.id]⟩,
   ⟨"u_abs_diff", 202, [], [.id, .id]⟩,
   ⟨"u_mul_hi", 203, [], [.id, .id]⟩,
   ⟨"u_mad_hi", 204, [], [.id, .id, .id]⟩]

end Spirv.ExtendedSet
