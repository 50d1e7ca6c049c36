import Spirv.Literal.Quoted
import Spirv.Number.Decimal
import Spirv.Number.Type
import Spirv.Word

/-!
Literals in text. What a literal is shows in its spelling: a string is quoted, a number with a point
or an exponent is floating-point, one with a minus is signed and any other is unsigned. A number is
kept in 32 bits if nothing is lost by it and in 64 bits otherwise. Where the type of a number is known
it is read as a number of that type instead.
-/

namespace Spirv

-- Powers of numbers are the language's own, also where a library brings powers in a monoid.
attribute [local instance (high)] instPowNat

inductive LiteralError where
  /-- Not a literal of the wanted form. -/
  | invalid
  /-- A string of too many bytes. -/
  | tooLong
  /-- A number that the type does not hold. -/
  | outOfRange
  deriving DecidableEq

inductive Literal where
  | int32 (value : Int32)
  | int64 (value : Int64)
  | uint32 (value : UInt32)
  | uint64 (value : UInt64)
  | float32 (bits : UInt32)
  | float64 (bits : UInt64)
  | string (value : List Char)
  deriving DecidableEq

namespace Literal

/-- The most UTF-8 bytes that a string may have. -/
def maxStringBytes : Nat := 65535

def byteCount (s : List Char) : Nat := s.foldl (fun n c => n + c.utf8Size) 0

def readString (text : List Char) : Except LiteralError (List Char) :=
  match Quoted.decode text with
  | none => .error .invalid
  | some s => if maxStringBytes < byteCount s then .error .tooLong else .ok s

def ofUnsigned (n : Nat) : Except LiteralError Literal :=
  if n < 2 ^ (32 : Nat) then .ok (.uint32 (UInt32.ofNat n))
  else if n < 2 ^ (64 : Nat) then .ok (.uint64 (UInt64.ofNat n))
  else .error .invalid

/-- The literal of a number with a minus and the given magnitude. -/
def ofNegative (n : Nat) : Except LiteralError Literal :=
  if n ≤ 2 ^ (31 : Nat) then .ok (.int32 (Int32.ofInt (-n)))
  else if n ≤ 2 ^ (63 : Nat) then .ok (.int64 (Int64.ofInt (-n)))
  else .error .invalid

def ofDecimal (d : Decimal) : Literal :=
  match singleOfDouble? (BinaryFormat.double.ofDecimal d.m d.exponent) with
  | some narrow => .float32 (UInt32.ofNat (BinaryFormat.single.withSign d.negative narrow))
  | none => .float64 (UInt64.ofNat (d.toBits .double))

/-- Reads a literal and tells its form from the spelling. -/
def read (text : List Char) : Except LiteralError Literal :=
  if text.head? = some '"' then (readString text).map .string
  else match Digits.hex? text with
    | some n => ofUnsigned n
    | none => match Digits.signed? text with
      | some (true, n) => ofNegative n
      | some (false, n) => ofUnsigned n
      | none => match Decimal.read? text with
        | some d => .ok (ofDecimal d)
        | none => .error .invalid

/-- Reads the integer of a raw word: hexadecimal after `0x`, octal after `0`, decimal otherwise. -/
def readImmediate (text : List Char) : Except LiteralError Word :=
  let value? := Digits.hex? text <|> Digits.octal? text <|>
    (if text.length ≤ 1 || text.head? ≠ some '0' then Digits.decimal? text else none)
  match value? with
  | none => .error .invalid
  | some n => if n < 2 ^ (32 : Nat) then .ok (UInt32.ofNat n) else .error .outOfRange

/-- The bits of an integer held in whole words: in one if the width is at most 32, else in two. -/
def extendInt (width : Nat) (v : Int) : BitVec 64 :=
  if width ≤ 32 then (BitVec.ofInt 32 v).setWidth 64 else BitVec.ofInt 64 v

/-- Reads an integer of a type with the given width. A hexadecimal spelling gives the bits of the
number. Signed numbers of less than 32 bits are extended to a word by their sign. -/
def readInteger (width : Nat) (signed : Bool) (text : List Char) : Except LiteralError (BitVec 64) :=
  if width = 0 || 64 < width then .error .outOfRange
  else match Digits.hex? text with
    | some n =>
      if 2 ^ width ≤ n then .error .outOfRange
      else if signed && width < 32 then .ok (extendInt width (BitVec.ofNat width n).toInt)
      else .ok (BitVec.ofNat 64 n)
    | none => match Digits.signed? text with
      | none => .error .invalid
      | some (negative, n) =>
        if signed then
          let v := Digits.toInt negative n
          if -2 ^ (width - 1) ≤ v && v < 2 ^ (width - 1) then .ok (extendInt width v)
          else .error .outOfRange
        else if negative || 2 ^ width ≤ n then .error .outOfRange
        else .ok (BitVec.ofNat 64 n)

/-- Reads a floating-point number of 32 or 64 bits. It is rounded once, to that width. -/
def readFloat (width : Nat) (text : List Char) : Except LiteralError (BitVec 64) :=
  match Decimal.read? text with
  | none => .error .invalid
  | some d =>
    if width = 32 then .ok (BitVec.ofNat 64 (d.toBits .single))
    else if width = 64 then .ok (BitVec.ofNat 64 (d.toBits .double))
    else .error .outOfRange

/-- The words of a number of the given width, low word first. -/
def wide (bits : BitVec 64) (width : Nat) : List Word :=
  let low := UInt32.ofBitVec (bits.setWidth 32)
  if 32 < width then [low, UInt32.ofBitVec ((bits >>> 32).setWidth 32)] else [low]

end Literal

end Spirv
