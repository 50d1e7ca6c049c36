import Spirv.Number.BinaryFormat

/-!
The shortest decimal that reads back as a given floating-point number: the fewest digits whose
decimal rounds to it, and of those the nearest decimal.
-/

namespace Spirv.Shortest

-- Powers of numbers are the language's own, also where a library brings powers in a monoid.
attribute [local instance (high)] instPowNat

def digitCount (n : Nat) : Nat := (Nat.toDigits 10 n).length

/-- The least exponent `k` for which the positive quotient is below `10 ^ k`. For a quotient below
one it is found from the inverse, which must not be a power of ten. -/
def decimalExponent (num den : Nat) : Int :=
  if den ≤ num then digitCount (num / den) else 1 - (digitCount (den / num) : Int)

/-- The decimals of `n` digits next to a magnitude are tried. The result is a whole number and a
power of ten to multiply it with. The magnitude is `num / den` and those between `low / den` and
`high / den` round to it, the bounds themselves only if `closed`. Of two decimals that do, the nearer
is taken, and the greater if they are equally near. -/
def ofDigits? (num den low high : Nat) (closed : Bool) (n : Nat) : Option (Nat × Int) :=
  let exponent := decimalExponent num den - n
  let scale := 10 ^ (-exponent).toNat
  let unit := den * 10 ^ exponent.toNat
  let d := num * scale / unit
  let below : Bool := if closed then low * scale ≤ d * unit else low * scale < d * unit
  let above : Bool := if closed then (d + 1) * unit ≤ high * scale else (d + 1) * unit < high * scale
  let nearBelow : Bool := 2 * (num * scale - d * unit) < unit
  if below && (nearBelow || !above) then some (d, exponent)
  else if above then some (d + 1, exponent)
  else none

/-- The shortest decimal for the bits of a finite positive magnitude. -/
def ofBits (f : BinaryFormat) (bits : Nat) : Nat × Int :=
  let (m, e) := f.significand bits
  let num := 4 * m * 2 ^ (e - 2).toNat
  let den := 2 ^ (2 - e).toNat
  -- half a step on either side, a quarter below where the steps get smaller
  let step := 2 ^ (e - 2).toNat
  let low := num - (if m = f.leading && f.leading < bits then 1 else 2) * step
  let high := num + 2 * step
  let found := (List.range 17).findSome? fun n => ofDigits? num den low high (m % 2 = 0) (n + 1)
  found.getD (0, 0)

/-- Writes `d * 10 ^ exponent` without an exponent. -/
def positional (d : Nat) (exponent : Int) : String :=
  let digits := Nat.toDigits 10 d
  let places := (-exponent).toNat
  if places = 0 then String.ofList (digits ++ List.replicate exponent.toNat '0')
  else
    let padded := List.replicate (places + 1 - digits.length) '0' ++ digits
    let whole := padded.take (padded.length - places)
    String.ofList (whole ++ '.' :: padded.drop (padded.length - places))

/-- The text of a finite number of a format. Zero has no point and keeps its sign. -/
def text (f : BinaryFormat) (bits : Nat) : String :=
  let negative := f.signBit ≤ bits
  let magnitude := bits % f.signBit
  let (d, exponent) := if magnitude = 0 then (0, 0) else ofBits f magnitude
  let (d, exponent) := if d = 10 then (1, exponent + 1) else (d, exponent)
  (if negative then "-" else "") ++ positional d exponent

end Spirv.Shortest
