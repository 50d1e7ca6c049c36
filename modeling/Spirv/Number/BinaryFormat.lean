/-!
Binary floating-point formats. A finite magnitude is a whole number of at most `precision` bits times
a power of two. Its bits are an exponent field above the significand without its leading bit, so
greater magnitudes have greater bits and infinity comes after the greatest finite one.
-/

namespace Spirv

-- Powers of numbers are the language's own, also where a library brings powers in a monoid.
attribute [local instance (high)] instPowNat

structure BinaryFormat where
  /-- The bits of a significand, the leading one included. -/
  precision : Nat
  exponentBits : Nat

namespace BinaryFormat

def single : BinaryFormat := ⟨24, 8⟩

def double : BinaryFormat := ⟨53, 11⟩

variable (f : BinaryFormat)

/-- The least significand with its leading bit. -/
def leading : Nat := 2 ^ (f.precision - 1)

/-- The exponent of the smallest magnitudes. -/
def minExponent : Int := 3 - 2 ^ (f.exponentBits - 1) - f.precision

/-- The bits of infinity. -/
def infinity : Nat := (2 ^ f.exponentBits - 1) * f.leading

/-- The bit that makes a magnitude negative. -/
def signBit : Nat := 2 ^ f.exponentBits * f.leading

def withSign (negative : Bool) (magnitude : Nat) : Nat :=
  if negative then f.signBit + magnitude else magnitude

/-- The significand and the exponent that the bits of a finite magnitude stand for. -/
def significand (bits : Nat) : Nat × Int :=
  if bits < f.leading then (bits, f.minExponent)
  else (bits % f.leading + f.leading, f.minExponent + (bits / f.leading : Nat) - 1)

end BinaryFormat

/-- A quotient rounded to the nearest whole number, a half to the even one. -/
def roundQuotient (num den : Nat) : Nat :=
  let q := num / den
  let r := num % den
  if den < 2 * r || (den = 2 * r && q % 2 = 1) then q + 1 else q

namespace BinaryFormat

variable (f : BinaryFormat)

/-- The exponent at which a positive quotient has a significand of full length. -/
def exponentOf (num den : Nat) : Int :=
  let k : Int := num.log2 - den.log2
  let floorLog := if den * 2 ^ k.toNat ≤ num * 2 ^ (-k).toNat then k else k - 1
  floorLog - (f.precision - 1 : Nat)

/-- The bits of the magnitude nearest to a quotient. A half goes to the even significand; what is
beyond the greatest finite magnitude by half a step or more is infinite. -/
def ofRatio (num den : Nat) : Nat :=
  if num = 0 then 0
  else
    let e := max f.minExponent (f.exponentOf num den)
    let q := roundQuotient (num * 2 ^ (-e).toNat) (den * 2 ^ e.toNat)
    min f.infinity ((e - f.minExponent).toNat * f.leading + q)

/-- The bits of the magnitude nearest to `m * 10 ^ e`. Far outside the range of the formats the power
is not computed. -/
def ofDecimal (m : Nat) (e : Int) : Nat :=
  if m = 0 then 0
  else if 400 < e then f.infinity
  else if m.log2 + 1 + e < -400 then 0
  else f.ofRatio (m * 10 ^ e.toNat) (10 ^ (-e).toNat)

end BinaryFormat

/-- The bits in the single format of a magnitude given in the double format, if it has the same value
there. -/
def singleOfDouble? (bits : Nat) : Option Nat :=
  if bits = BinaryFormat.double.infinity then some BinaryFormat.single.infinity
  else
    let (m, e) := BinaryFormat.double.significand bits
    let narrow := BinaryFormat.single.ofRatio (m * 2 ^ e.toNat) (2 ^ (-e).toNat)
    let (n, d) := BinaryFormat.single.significand narrow
    if narrow < BinaryFormat.single.infinity
        && m * 2 ^ (e - min e d).toNat = n * 2 ^ (d - min e d).toNat then
      some narrow
    else none

end Spirv
