import Spirv.Number.BinaryFormat
import Spirv.Number.Digits

/-!
Reading numbers written in decimal, with an optional minus, a point and an exponent. The exponent is
kept small: it stops growing at the first digit that takes it to its limit.
-/

namespace Spirv

-- Powers of numbers are the language's own, also where a library brings powers in a monoid.
attribute [local instance (high)] instPowNat

/-- The number `m * 10 ^ exponent`, negated if `negative`. -/
structure Decimal where
  negative : Bool
  m : Nat
  exponent : Int

namespace Decimal

/-- An exponent that has reached this takes no further digits. -/
def exponentLimit : Nat := 2 ^ (16 : Nat)

/-- The exponent that digits spell. Once it has reached its limit the digits left do not count, so it
stays small however many there are. -/
def exponentOfDigits (digits : List Char) : Nat :=
  digits.foldl (fun n c => if n < exponentLimit then n * 10 + Digits.digitValue c else n) 0

/-- Reads the digits of an exponent. -/
def exponentDigits? (text : List Char) : Option Nat :=
  if !text.isEmpty && text.all Char.isDigit then some (exponentOfDigits text) else none

/-- Reads the exponent after `e` or `E`; no text is exponent zero. -/
def exponent? : List Char → Option Int
  | [] => some 0
  | mark :: text =>
    if mark = 'e' || mark = 'E' then
      match text with
      | '-' :: digits => (exponentDigits? digits).map (Digits.toInt true)
      | '+' :: digits => (exponentDigits? digits).map (Digits.toInt false)
      | digits => (exponentDigits? digits).map (Digits.toInt false)
    else none

/-- Reads a number without a sign: digits that a point and further digits may follow, or a point and
digits, and then perhaps an exponent. -/
def unsigned? (negative : Bool) (text : List Char) : Option Decimal :=
  let whole := text.takeWhile Char.isDigit
  let (fraction, rest) :=
    match text.dropWhile Char.isDigit with
    | '.' :: rest => (rest.takeWhile Char.isDigit, rest.dropWhile Char.isDigit)
    | rest => ([], rest)
  let digits := whole ++ fraction
  if digits.isEmpty then none
  else (exponent? rest).map fun e => ⟨negative, Digits.ofDigits 10 digits, e - fraction.length⟩

def read? : List Char → Option Decimal
  | '-' :: text => unsigned? true text
  | text => unsigned? false text

/-- The bits of the nearest number of a format, sign included. -/
def toBits (f : BinaryFormat) (d : Decimal) : Nat := f.withSign d.negative (f.ofDecimal d.m d.exponent)

end Decimal

end Spirv
