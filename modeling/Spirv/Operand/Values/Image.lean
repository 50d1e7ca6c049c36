import Spirv.Operand.NamedValue

/-!
The named values of images and samplers.
-/

namespace Spirv.Category

def dimensionalityValues : List NamedValue :=
  [⟨"1D", 0, [.sampled1D], []⟩,
   ⟨"2D", 1, [], []⟩,
   ⟨"3D", 2, [], []⟩,
   ⟨"Cube", 3, [.shader], []⟩,
   ⟨"Rect", 4, [.sampledRect], []⟩,
   ⟨"Buffer", 5, [.sampledBuffer], []⟩,
   ⟨"SubpassData", 6, [.inputAttachment], []⟩]

def samplerAddressingModeValues : List NamedValue :=
  [⟨"None", 0, [.kernel], []⟩,
   ⟨"ClampToEdge", 1, [.kernel], []⟩,
   ⟨"Clamp", 2, [.kernel], []⟩,
   ⟨"Repeat", 3, [.kernel], []⟩,
   ⟨"RepeatMirrored", 4, [.kernel], []⟩]

def samplerFilterModeValues : List NamedValue :=
  [⟨"Nearest", 0, [.kernel], []⟩,
   ⟨"Linear", 1, [.kernel], []⟩]

def samplerImageFormatValues : List NamedValue :=
  [⟨"Unknown", 0, [], []⟩,
   ⟨"Rgba32f", 1, [.shader], []⟩,
   ⟨"Rgba16f", 2, [.shader], []⟩,
   ⟨"R32f", 3, [.shader], []⟩,
   ⟨"Rgba8", 4, [.shader], []⟩,
   ⟨"Rgba8Snorm", 5, [.shader], []⟩,
   ⟨"Rg32f", 6, [.storageImageExtendedFormats], []⟩,
   ⟨"Rg16f", 7, [.storageImageExtendedFormats], []⟩,
   ⟨"R11fG11fB10f", 8, [.storageImageExtendedFormats], []⟩,
   ⟨"R16f", 9, [.storageImageExtendedFormats], []⟩,
   ⟨"Rgba16", 10, [.storageImageExtendedFormats], []⟩,
   ⟨"Rgb10A2", 11, [.storageImageExtendedFormats], []⟩,
   ⟨"Rg16", 12, [.storageImageExtendedFormats], []⟩,
   ⟨"Rg8", 13, [.storageImageExtendedFormats], []⟩,
   ⟨"R16", 14, [.storageImageExtendedFormats], []⟩,
   ⟨"R8", 15, [.storageImageExtendedFormats], []⟩,
   ⟨"Rgba16Snorm", 16, [.storageImageExtendedFormats], []⟩,
   ⟨"Rg16Snorm", 17, [.storageImageExtendedFormats], []⟩,
   ⟨"Rg8Snorm", 18, [.storageImageExtendedFormats], []⟩,
   ⟨"R16Snorm", 19, [.storageImageExtendedFormats], []⟩,
   ⟨"R8Snorm", 20, [.storageImageExtendedFormats], []⟩,
   ⟨"Rgba32i", 21, [.shader], []⟩,
   ⟨"Rgba16i", 22, [.shader], []⟩,
   ⟨"Rgba8i", 23, [.shader], []⟩,
   ⟨"R32i", 24, [.shader], []⟩,
   ⟨"Rg32i", 25, [.storageImageExtendedFormats], []⟩,
   ⟨"Rg16i", 26, [.storageImageExtendedFormats], []⟩,
   ⟨"Rg8i", 27, [.storageImageExtendedFormats], []⟩,
   ⟨"R16i", 28, [.storageImageExtendedFormats], []⟩,
   ⟨"R8i", 29, [.storageImageExtendedFormats], []⟩,
   ⟨"Rgba32ui", 30, [.shader], []⟩,
   ⟨"Rgba16ui", 31, [.shader], []⟩,
   ⟨"Rgba8ui", 32, [.shader], []⟩,
   ⟨"R32ui", 33, [.shader], []⟩,
   ⟨"Rgb10a2ui", 34, [.storageImageExtendedFormats], []⟩,
   ⟨"Rg32ui", 35, [.storageImageExtendedFormats], []⟩,
   ⟨"Rg16ui", 36, [.storageImageExtendedFormats], []⟩,
   ⟨"Rg8ui", 37, [.storageImageExtendedFormats], []⟩,
   ⟨"R16ui", 38, [.storageImageExtendedFormats], []⟩,
   ⟨"R8ui", 39, [.storageImageExtendedFormats], []⟩]

def imageChannelOrderValues : List NamedValue :=
  [⟨"R", 0, [.kernel], []⟩,
   ⟨"A", 1, [.kernel], []⟩,
   ⟨"RG", 2, [.kernel], []⟩,
   ⟨"RA", 3, [.kernel], []⟩,
   ⟨"RGB", 4, [.kernel], []⟩,
   ⟨"RGBA", 5, [.kernel], []⟩,
   ⟨"BGRA", 6, [.kernel], []⟩,
   ⟨"ARGB", 7, [.kernel], []⟩,
   ⟨"Intensity", 8, [.kernel], []⟩,
   ⟨"Luminance", 9, [.kernel], []⟩,
   ⟨"Rx", 10, [.kernel], []⟩,
   ⟨"RGx", 11, [.kernel], []⟩,
   ⟨"RGBx", 12, [.kernel], []⟩,
   ⟨"Depth", 13, [.kernel], []⟩,
   ⟨"DepthStencil", 14, [.kernel], []⟩,
   ⟨"sRGB", 15, [.kernel], []⟩,
   ⟨"sRGBx", 16, [.kernel], []⟩,
   ⟨"sRGBA", 17, [.kernel], []⟩,
   ⟨"sBGRA", 18, [.kernel], []⟩,
   ⟨"ABGR", 19, [.kernel], []⟩]

def imageChannelDataTypeValues : List NamedValue :=
  [⟨"SnormInt8", 0, [.kernel], []⟩,
   ⟨"SnormInt16", 1, [.kernel], []⟩,
   ⟨"UnormInt8", 2, [.kernel], []⟩,
   ⟨"UnormInt16", 3, [.kernel], []⟩,
   ⟨"UnormShort565", 4, [.kernel], []⟩,
   ⟨"UnormShort555", 5, [.kernel], []⟩,
   ⟨"UnormInt101010", 6, [.kernel], []⟩,
   ⟨"SignedInt8", 7, [.kernel], []⟩,
   ⟨"SignedInt16", 8, [.kernel], []⟩,
   ⟨"SignedInt32", 9, [.kernel], []⟩,
   ⟨"UnsignedInt8", 10, [.kernel], []⟩,
   ⟨"UnsignedInt16", 11, [.kernel], []⟩,
   ⟨"UnsignedInt32", 12, [.kernel], []⟩,
   ⟨"HalfFloat", 13, [.kernel], []⟩,
   ⟨"Float", 14, [.kernel], []⟩,
   ⟨"UnormInt24", 15, [.kernel], []⟩,
   ⟨"UnormInt101010_2", 16, [.kernel], []⟩]

end Spirv.Category
