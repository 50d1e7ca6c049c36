/-!
Words of 32 bits: their bytes, the two orders in which a module may store those bytes, and the
first word of an instruction, which holds a word count above an opcode number.
-/

namespace Spirv

-- Powers of numbers are the language's own, also where a library brings powers in a monoid.
attribute [local instance (high)] instPowNat

abbrev Word := UInt32

namespace Word

/-- The four bytes of a word, least significant first. -/
def bytes (w : Word) : List UInt8 :=
  [w.toUInt8, (w >>> 8).toUInt8, (w >>> 16).toUInt8, (w >>> 24).toUInt8]

/-- The word with the given bytes, least significant first. -/
def ofBytes (a b c d : UInt8) : Word :=
  a.toUInt32 ||| b.toUInt32 <<< 8 ||| c.toUInt32 <<< 16 ||| d.toUInt32 <<< 24

/-- The word with its bytes in the opposite order. -/
def swap (w : Word) : Word :=
  ofBytes (w >>> 24).toUInt8 (w >>> 16).toUInt8 (w >>> 8).toUInt8 w.toUInt8

/-- Groups bytes into words, least significant byte first; up to three left over bytes are dropped. -/
def ofByteList (bytes : List UInt8) : List Word :=
  go [] bytes
where
  go (acc : List Word) : List UInt8 → List Word
    | a :: b :: c :: d :: rest => go (ofBytes a b c d :: acc) rest
    | _ => acc.reverse

/-- The first word of an instruction of `count` words. -/
def joinLead (count opcode : UInt16) : Word :=
  count.toUInt32 <<< 16 ||| opcode.toUInt32

/-- The word count and the opcode number in the first word of an instruction. -/
def splitLead (w : Word) : UInt16 × UInt16 :=
  ((w / 65536).toUInt16, (w % 65536).toUInt16)

/-- The bit positions set in a word, lowest first. -/
def setBits (w : Word) : List Nat :=
  (List.range 32).filter w.toNat.testBit

/-- The word with the single bit `i` set. -/
def bit (i : Nat) : Word := UInt32.ofNat (2 ^ i)

end Word

/-- The most words one instruction can have, since its count is held in 16 bits. -/
def maxInstructionWords : Nat := 65535

/-- The order in which the bytes of each word are stored. -/
inductive ByteOrder where
  | little
  | big
  deriving DecidableEq

/-- The number that every module starts with. -/
def magic : Word := 0x07230203

/-- The byte order of a module, told from its first word as read with the least significant byte
first. -/
def ByteOrder.ofMagic? (w : Word) : Option ByteOrder :=
  if w = magic then some .little
  else if w = Word.swap magic then some .big
  else none

end Spirv
